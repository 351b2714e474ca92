import MesReunions.Preparations.Themes
import MesReunions.Recurrence.Next

/-!
# The table of the preparations

The endpoints of the device authority that read and write `preparations`.

* `Preparation`, `Db` — the table; no id is given twice.
* `Writes` — what a request commits, and `Db.commit`.
* `plan` — what a request commits and what it is answered.
* **`plan_cases`** — a request inserts a row of its user, updates one, deletes rows of the trash, or
  writes nothing.
-/

namespace MesReunions.Preparations.Records

open Str Json Recurrence Themes

/-! ## The table -/

/-- `str.lower()`, what the parsing of dates and rules relies on, and `dateutil`. -/
structure Env where
  lower : Str → Str
  builtins : Builtins
  fromisoformat : Str → Option Moment
  dateutil : Rrule

/-- A row of `preparations`. A column that is only passed on holds the value it was given. -/
structure Preparation where
  id : Nat
  userSub : Str
  title : Json
  content : Json
  participants : Json
  glossarySource : Json
  targetMeetingDate : Option Aware
  isRecurring : Bool
  recurrenceRule : Json
  nextOccurrenceAt : Option Aware
  themes : List Str
  sendCrEmail : Bool
  driveMainCouranteDocId : Option Str
  createdAt : Aware
  lastViewedAt : Option Aware
  trashedAt : Option Aware

/-- The table, and the clock. -/
@[ext] structure Db where
  now : Aware
  rows : List Preparation
  unique : (rows.map (·.id)).Nodup

/-- The row of an id, of one user, in the trash or not. -/
def Db.find (db : Db) (id : Nat) (userSub : Str) (trashed : Bool) : Option Preparation :=
  db.rows.find? fun p => p.id == id && p.userSub == userSub && p.trashedAt.isSome == trashed

/-- The rows of one user, in the trash or not. -/
def Db.select (db : Db) (userSub : Str) (trashed : Bool) : List Preparation :=
  db.rows.filter fun p => p.userSub == userSub && p.trashedAt.isSome == trashed

/-- What a request commits. -/
inductive Writes where
  | nothing
  | insert (p : Preparation)
  | update (p : Preparation)
  | delete (ids : List Nat)

def Db.insert (db : Db) (p : Preparation) (h : p.id ∉ db.rows.map (·.id)) : Db :=
  { db with
    rows := db.rows ++ [p]
    unique := by
      rw [List.map_append, List.nodup_append]
      refine ⟨db.unique, List.nodup_singleton _, ?_⟩
      intro i hi j hj hij
      rw [List.map_singleton, List.mem_singleton] at hj
      rw [hij, hj] at hi
      exact h hi }

def Db.update (db : Db) (p : Preparation) : Db :=
  { db with
    rows := db.rows.map fun q => if q.id = p.id then p else q
    unique := by
      have hids : (db.rows.map fun q => if q.id = p.id then p else q).map (·.id) =
          db.rows.map (·.id) := by
        rw [List.map_map]
        refine List.map_congr_left fun q _ => ?_
        show (if q.id = p.id then p else q).id = q.id
        split
        · rename_i heq
          exact heq.symm
        · rfl
      rw [hids]
      exact db.unique }

def Db.delete (db : Db) (ids : List Nat) : Db :=
  { db with
    rows := db.rows.filter fun p => p.id ∉ ids
    unique := db.unique.sublist (List.filter_sublist.map _) }

/-- The statements of a commit; a row whose id is there is refused. -/
def Db.commit (db : Db) : Writes → Option Db
  | .nothing => some db
  | .insert p => if h : p.id ∈ db.rows.map (·.id) then none else some (db.insert p h)
  | .update p => some (db.update p)
  | .delete ids => some (db.delete ids)

/-! ## Reading a request -/

inductive Reply where
  /-- 400 -/
  | badRequest (error : String)
  /-- 404 -/
  | notFound (error : String)
  /-- 500 -/
  | failed
  | preparation (p : Preparation)
  | preparations (ps : List Preparation)
  | themes (shown : List (Str × Nat))
  | title (s : Str)
  | purged (n : Nat)
  | trashed
  | restored
  | deleted

/-- `request.get_json(silent=True) or {}`; `none` for the `AttributeError` of what is no object. -/
def bodyOf : Option Json → Option (List (Str × Json))
  | none => some []
  | some v =>
      if v.truthy then
        match v with
        | .obj fields => some fields
        | _ => none
      else some []

/-- A field of the body. -/
def key (data : List (Str × Json)) (name : String) : Option Json := get? data name.toList

/-- `key in data` -/
def has (data : List (Str × Json)) (name : String) : Bool := (key data name).isSome

/-- The fields, and `(data.get("user_sub") or arg or "").strip()`. -/
def requestOf (body : Option Json) (arg : Option Str) :
    Except Reply (List (Str × Json) × Str) :=
  match bodyOf body with
  | none => .error .failed
  | some data =>
      match stripOr (arg.getD []) (key data "user_sub") with
      | none => .error .failed
      | some userSub =>
          if userSub = [] then .error (.badRequest "user_sub required") else .ok (data, userSub)

/-- `(request.args.get("user_sub") or "").strip()` -/
def userOfQuery (arg : Option Str) : Except Reply Str :=
  if strip (arg.getD []) = [] then .error (.badRequest "user_sub required")
  else .ok (strip (arg.getD []))

/-- `_coerce_target_meeting_date(value)`; `none` for a value that no column of dates takes. -/
def coerceTargetMeetingDate (b : Builtins) (v : Option Json) : Option (Option Aware) :=
  match v with
  | none => some none
  | some v =>
      if v.truthy then
        match v with
        | .str s => some ((b.date (s.take 10)).map fun d => ⟨⟨d, 0, 0, 0, 0, validTime_midnight⟩, 0⟩)
        | _ => none
      else some none

/-- `bool(data.get(key))` -/
def flag (v : Option Json) : Bool := v.any truthy

/-! ## The recurrence of a preparation -/

/-- `_compute_next_occurrence_safe(rule, reference)` -/
def computeNextOccurrenceSafe (e : Env) (now : Aware) (rule : Json) (reference : Option Aware) :
    Option Aware :=
  match computeNextOccurrence e.builtins e.fromisoformat e.dateutil ⟨now, now⟩ rule
      (reference.map fun t => .moment (.aware t)) none with
  | .ok next => next
  | .error _ => none

/-- The columns `is_recurring`, `recurrence_rule` and `next_occurrence_at`. -/
structure Recurring where
  isRecurring : Bool
  recurrenceRule : Json
  nextOccurrenceAt : Option Aware

/-- `effective`, and what is stored then. -/
def recurring (e : Env) (now : Aware) (target : Option Aware) : Bool → Option Rule → Recurring
  | true, some rule => ⟨true, rule.toJson, computeNextOccurrenceSafe e now rule.toJson target⟩
  | _, _ => ⟨false, .null, none⟩

/-- The columns for a rule that is given or not, and that is wanted or not. -/
def recurringOf (e : Env) (now : Aware) (target : Option Aware) (want : Bool) (raw : Json) :
    Except PyError Recurring :=
  match raw with
  | .null => .ok (recurring e now target want none)
  | raw => (normalizeRule e.builtins raw).map (recurring e now target want)

/-! ## The endpoints -/

/-- `data.get("title") or data.get("subject") or None` -/
def titleOf (data : List (Str × Json)) : Json :=
  if flag (key data "title") then (key data "title").getD .null
  else if flag (key data "subject") then (key data "subject").getD .null
  else .null

/-- `isinstance(themes_raw, list)` -/
def themesOf (lower : Str → Str) : Option Json → List Str
  | some (.list items) => cleaned lower items
  | _ => []

/-- The new row; `none` when something raises. -/
def newRow (e : Env) (now : Aware) (id : Nat) (userSub : Str) (data : List (Str × Json)) :
    Option Preparation := do
  let target ← coerceTargetMeetingDate e.builtins (key data "target_meeting_date")
  let r ← (recurringOf e now target (flag (key data "is_recurring"))
    ((key data "recurrence_rule").getD .null)).toOption
  some {
    id := id
    userSub := userSub
    title := titleOf data
    content := (key data "content").getD .null
    participants := (key data "participants").getD .null
    glossarySource := (key data "glossary_source").getD .null
    targetMeetingDate := target
    isRecurring := r.isRecurring
    recurrenceRule := r.recurrenceRule
    nextOccurrenceAt := r.nextOccurrenceAt
    themes := themesOf e.lower (key data "themes")
    sendCrEmail := flag (key data "send_cr_email")
    driveMainCouranteDocId := none
    createdAt := now
    lastViewedAt := none
    trashedAt := none }

/-- `create_preparation()`; `id` is the `uuid4` of the row. -/
def createPreparation (e : Env) (db : Db) (id : Nat) (body : Option Json) : Writes × Reply :=
  match requestOf body none with
  | .error reply => (.nothing, reply)
  | .ok (data, userSub) =>
      match newRow e db.now id userSub data with
      | none => (.nothing, .failed)
      | some p => (.insert p, .preparation p)

/-- `max(1, min(200, int(request.args.get("limit") or 50)))` -/
def limitOf (b : Builtins) (arg : Option Str) : Nat :=
  if arg.getD [] = [] then 50
  else
    match b.int (arg.getD []) with
    | some n => (max 1 (min 200 n)).toNat
    | none => 50

/-- `ORDER BY … DESC` -/
def newestFirst (at? : Preparation → Option Aware) (ps : List Preparation) : List Preparation :=
  let instant (p : Preparation) : Int := ((at? p).map Aware.instant).getD 0
  ps.mergeSort fun p q => decide (instant q ≤ instant p)

/-- `request.args.get(key) or default` -/
def argOr (default : String) (arg : Option Str) : Str :=
  if arg.getD [] = [] then default.toList else arg.getD []

/-- `list_preparations()` -/
def listPreparations (e : Env) (db : Db) (userSub trashed limit : Option Str) : Writes × Reply :=
  match userOfQuery userSub with
  | .error reply => (.nothing, reply)
  | .ok userSub =>
      let rows :=
        if e.lower (argOr "false" trashed) ∈ ["1".toList, "true".toList, "yes".toList] then
          newestFirst (·.trashedAt) (db.select userSub true)
        else newestFirst (fun p => some p.createdAt) (db.select userSub false)
      (.nothing, .preparations (rows.take (limitOf e.builtins limit)))

/-- `get_preparation(preparation_id)` -/
def getPreparation (e : Env) (db : Db) (id : Nat) (userSub trackView : Option Str) :
    Writes × Reply :=
  match userOfQuery userSub with
  | .error reply => (.nothing, reply)
  | .ok userSub =>
      match db.find id userSub false with
      | none => (.nothing, .notFound "not_found")
      | some p =>
          if e.lower (argOr "true" trackView) ∈ ["false".toList, "0".toList, "no".toList] then
            (.nothing, .preparation p)
          else
            let p' := { p with lastViewedAt := some db.now }
            (.update p', .preparation p')

/-- `rename_preparation(preparation_id)` -/
def renamePreparation (db : Db) (id : Nat) (body : Option Json) : Writes × Reply :=
  match bodyOf body with
  | none => (.nothing, .failed)
  | some data =>
      match stripOr [] (key data "user_sub"), stripOr [] (key data "title") with
      | some userSub, some title =>
          if userSub = [] ∨ title = [] then
            (.nothing, .badRequest "user_sub and title required")
          else
            match db.find id userSub false with
            | none => (.nothing, .notFound "not_found")
            | some p =>
                (.update { p with title := .str (title.take 120) }, .title (title.take 120))
      | _, _ => (.nothing, .failed)

/-- The columns that `amend_preparation` can set. -/
def amendable : List String :=
  ["content", "participants", "glossary_source", "is_recurring", "recurrence_rule",
    "target_meeting_date", "themes", "send_cr_email", "drive_main_courante_doc_id"]

def isList : Json → Bool
  | .list _ => true
  | _ => false

def isStrOrNull : Json → Bool
  | .str _ | .null => true
  | _ => false

/-- The checks of `amend_preparation`, in their order. -/
def amendError (data : List (Str × Json)) : Option String :=
  if !amendable.any (has data) then
    some "content, participants, glossary_source, recurrence, themes or send_cr_email required"
  else if !(key data "content").all isObj then some "content must be an object"
  else if !(key data "participants").all isList then some "participants must be a list"
  else if !(key data "glossary_source").all isList then some "glossary_source must be a list"
  else if !(key data "themes").all isList then some "themes must be a list"
  else if !(key data "drive_main_courante_doc_id").all isStrOrNull then
    some "drive_main_courante_doc_id must be a string or null"
  else none

/-- The date of an amended row. -/
def amendedTarget (b : Builtins) (data : List (Str × Json)) (p : Preparation) :
    Option (Option Aware) :=
  if has data "target_meeting_date" then
    coerceTargetMeetingDate b (key data "target_meeting_date")
  else some p.targetMeetingDate

/-- The recurrence of an amended row: what is absent is read from the row. -/
def amendedRecurrence (e : Env) (now : Aware) (data : List (Str × Json)) (p : Preparation) :
    Option Preparation :=
  if has data "is_recurring" || has data "recurrence_rule" || has data "target_meeting_date" then do
    let target ← amendedTarget e.builtins data p
    let raw := (key data "recurrence_rule").getD p.recurrenceRule
    let want := if has data "is_recurring" then flag (key data "is_recurring") else p.isRecurring
    let r ← (recurringOf e now target want raw).toOption
    some { p with
      targetMeetingDate := target
      isRecurring := r.isRecurring
      recurrenceRule := r.recurrenceRule
      nextOccurrenceAt := r.nextOccurrenceAt }
  else some p

/-- The amended row; `none` when something raises. -/
def amended (e : Env) (now : Aware) (data : List (Str × Json)) (p : Preparation) :
    Option Preparation :=
  (amendedRecurrence e now data p).map fun p =>
    { p with
      content := (key data "content").getD p.content
      participants := (key data "participants").getD p.participants
      glossarySource := (key data "glossary_source").getD p.glossarySource
      themes := if has data "themes" then themesOf e.lower (key data "themes") else p.themes
      sendCrEmail :=
        if has data "send_cr_email" then flag (key data "send_cr_email") else p.sendCrEmail
      driveMainCouranteDocId :=
        match key data "drive_main_courante_doc_id" with
        | some (.str s) => some s
        | some _ => none
        | none => p.driveMainCouranteDocId }

/-- `amend_preparation(preparation_id)` -/
def amendPreparation (e : Env) (db : Db) (id : Nat) (body : Option Json) : Writes × Reply :=
  match requestOf body none with
  | .error reply => (.nothing, reply)
  | .ok (data, userSub) =>
      match amendError data with
      | some error => (.nothing, .badRequest error)
      | none =>
          match db.find id userSub false with
          | none => (.nothing, .notFound "not_found")
          | some p =>
              match amended e db.now data p with
              | none => (.nothing, .failed)
              | some p' => (.update p', .preparation p')

/-- `list_themes_suggestions()` -/
def listThemesSuggestions (e : Env) (db : Db) (userSub : Option Str) : Writes × Reply :=
  match userOfQuery userSub with
  | .error reply => (.nothing, reply)
  | .ok userSub =>
      (.nothing, .themes (suggestions e.lower ((db.select userSub false).map (·.themes))))

/-- `trash_preparation(preparation_id)` -/
def trashPreparation (db : Db) (id : Nat) (body : Option Json) (arg : Option Str) :
    Writes × Reply :=
  match requestOf body arg with
  | .error reply => (.nothing, reply)
  | .ok (_, userSub) =>
      match db.find id userSub false with
      | none => (.nothing, .notFound "not_found")
      | some p => (.update { p with trashedAt := some db.now }, .trashed)

/-- `restore_preparation(preparation_id)` -/
def restorePreparation (db : Db) (id : Nat) (body : Option Json) : Writes × Reply :=
  match requestOf body none with
  | .error reply => (.nothing, reply)
  | .ok (_, userSub) =>
      match db.find id userSub true with
      | none => (.nothing, .notFound "not_in_trash")
      | some p => (.update { p with trashedAt := none }, .restored)

/-- `hard_delete_preparation(preparation_id)` -/
def hardDeletePreparation (db : Db) (id : Nat) (body : Option Json) (arg : Option Str) :
    Writes × Reply :=
  match requestOf body arg with
  | .error reply => (.nothing, reply)
  | .ok (_, userSub) =>
      match db.find id userSub true with
      | none => (.nothing, .notFound "not_in_trash")
      | some p => (.delete [p.id], .deleted)

/-- `older_than_days` -/
def olderThanDays (b : Builtins) (v : Option Json) : Except PyError Int :=
  caught 30 ((intOf b (if flag v then v.getD .null else .int 30)).map (max 1))

/-- `datetime.min` -/
def minLocal : Local := ⟨⟨1, 1, 1, by decide⟩, 0, 0, 0, 0, validTime_midnight⟩

/-- `datetime.now(timezone.utc) - timedelta(days=days)` does not raise. -/
def FitsDays (now : Aware) (days : Int) : Prop :=
  minLocal.micros ≤ now.wall.micros - days * wholeDay

instance (now : Aware) (days : Int) : Decidable (FitsDays now days) :=
  inferInstanceAs (Decidable (_ ≤ _))

/-- `Preparation.trashed_at < threshold` -/
def Preparation.expired (now : Aware) (days : Int) (p : Preparation) : Bool :=
  p.trashedAt.any fun t => decide (t.instant < now.instant - days * wholeDay)

/-- `purge_preparations()` -/
def purgePreparations (e : Env) (db : Db) (body : Option Json) : Writes × Reply :=
  match requestOf body none with
  | .error reply => (.nothing, reply)
  | .ok (data, userSub) =>
      match olderThanDays e.builtins (key data "older_than_days") with
      | .error _ => (.nothing, .failed)
      | .ok days =>
          if FitsDays db.now days then
            let rows := (db.select userSub true).filter (·.expired db.now days)
            (if rows.isEmpty then .nothing else .delete (rows.map (·.id)), .purged rows.length)
          else (.nothing, .failed)

inductive Request where
  | create (id : Nat) (body : Option Json)
  | list (userSub trashed limit : Option Str)
  | get (id : Nat) (userSub trackView : Option Str)
  | rename (id : Nat) (body : Option Json)
  | amend (id : Nat) (body : Option Json)
  | themesSuggestions (userSub : Option Str)
  | trash (id : Nat) (body : Option Json) (userSub : Option Str)
  | restore (id : Nat) (body : Option Json)
  | hardDelete (id : Nat) (body : Option Json) (userSub : Option Str)
  | purge (body : Option Json)

def plan (e : Env) (db : Db) : Request → Writes × Reply
  | .create id body => createPreparation e db id body
  | .list userSub trashed limit => listPreparations e db userSub trashed limit
  | .get id userSub trackView => getPreparation e db id userSub trackView
  | .rename id body => renamePreparation db id body
  | .amend id body => amendPreparation e db id body
  | .themesSuggestions userSub => listThemesSuggestions e db userSub
  | .trash id body userSub => trashPreparation db id body userSub
  | .restore id body => restorePreparation db id body
  | .hardDelete id body userSub => hardDeletePreparation db id body userSub
  | .purge body => purgePreparations e db body

/-- The user whose rows a request reads and writes. -/
def Request.user : Request → Option Str
  | .list userSub _ _ | .get _ userSub _ | .themesSuggestions userSub =>
      (userOfQuery userSub).toOption
  | .create _ body | .rename _ body | .amend _ body | .restore _ body | .purge body =>
      (requestOf body none).toOption.map Prod.snd
  | .trash _ body userSub | .hardDelete _ body userSub =>
      (requestOf body userSub).toOption.map Prod.snd

/-! ## What a request writes -/

/-- What is announced for a rule and a date, at an instant: the first occurrence after the instant
plus one second, and nothing at the end of the calendar. -/
def Announces (e : Env) (t : Aware) (rule : Rule) (target next : Option Aware) : Prop :=
  (¬ FitsSecond t ∧ next = none) ∨
    (FitsSecond t ∧
      NextAfter {x | rule.Occurs e.builtins (target.getD t) x} Aware.instant (t.instant + second)
        next)

/-- The columns of the recurrence, as they are set at an instant. -/
structure ComputedAt (e : Env) (t : Aware) (p : Preparation) : Prop where
  off : p.isRecurring = false → p.recurrenceRule = .null ∧ p.nextOccurrenceAt = none
  on : p.isRecurring = true → ∃ rule, WellFormed e.builtins rule ∧ p.recurrenceRule = rule.toJson ∧
    Announces e t rule p.targetMeetingDate p.nextOccurrenceAt

/-- A row is still the same preparation. -/
structure SameRow (p p' : Preparation) : Prop where
  id : p'.id = p.id
  userSub : p'.userSub = p.userSub
  createdAt : p'.createdAt = p.createdAt

/-- An update leaves the row in the trash or out of it, and its themes and its recurrence are as
they were, or set anew. -/
structure Edits (e : Env) (now : Aware) (p p' : Preparation) : Prop extends SameRow p p' where
  trashedAt : p'.trashedAt = p.trashedAt
  themes : p'.themes = p.themes ∨ Clean e.lower p'.themes
  recurrence : ComputedAt e now p' ∨ ∀ t, ComputedAt e t p → ComputedAt e t p'

/-- What a request of a user writes. -/
inductive Does (e : Env) (db : Db) (r : Request) (userSub : Str) : Writes → Prop where
  | insert (p : Preparation) (body : Option Json) (hr : r = .create p.id body)
      (huser : p.userSub = userSub) (hcreated : p.createdAt = db.now) (hlive : p.trashedAt = none)
      (hthemes : Clean e.lower p.themes) (hcomputed : ComputedAt e db.now p) :
      Does e db r userSub (.insert p)
  | edit (p p' : Preparation) (hp : p ∈ db.rows) (huser : p.userSub = userSub)
      (hlive : p.trashedAt = none) (hedits : Edits e db.now p p') :
      Does e db r userSub (.update p')
  | trash (p : Preparation) (hp : p ∈ db.rows) (huser : p.userSub = userSub)
      (hlive : p.trashedAt = none) :
      Does e db r userSub (.update { p with trashedAt := some db.now })
  | restore (p : Preparation) (hp : p ∈ db.rows) (huser : p.userSub = userSub) :
      Does e db r userSub (.update { p with trashedAt := none })
  | hardDelete (p : Preparation) (body : Option Json) (arg : Option Str)
      (hr : r = .hardDelete p.id body arg) (hp : p ∈ db.rows) (huser : p.userSub = userSub)
      (htrashed : p.trashedAt ≠ none) : Does e db r userSub (.delete [p.id])
  | purge (data : List (Str × Json)) (body : Option Json) (days : Int) (ids : List Nat)
      (hr : r = .purge body) (hbody : bodyOf body = some data)
      (hdays : olderThanDays e.builtins (key data "older_than_days") = .ok days)
      (hids : ∀ i ∈ ids, ∃ p ∈ db.rows, p.id = i ∧ p.userSub = userSub ∧
        p.expired db.now days = true) : Does e db r userSub (.delete ids)

theorem find_eq_some {db : Db} {id : Nat} {userSub : Str} {trashed : Bool} {p : Preparation}
    (h : db.find id userSub trashed = some p) :
    p ∈ db.rows ∧ p.id = id ∧ p.userSub = userSub ∧ p.trashedAt.isSome = trashed := by
  have hp := List.find?_some h
  simp only [Bool.and_eq_true, beq_iff_eq] at hp
  exact ⟨List.mem_of_find?_eq_some h, hp.1.1, hp.1.2, hp.2⟩

theorem find_live {db : Db} {id : Nat} {userSub : Str} {p : Preparation}
    (h : db.find id userSub false = some p) :
    p ∈ db.rows ∧ p.id = id ∧ p.userSub = userSub ∧ p.trashedAt = none := by
  obtain ⟨hp, hid, huser, htrashed⟩ := find_eq_some h
  exact ⟨hp, hid, huser, Option.isSome_eq_false_iff.mp htrashed |> Option.isNone_iff_eq_none.mp⟩

theorem themesOf_clean (lower : Str → Str) (v : Option Json) : Clean lower (themesOf lower v) := by
  unfold themesOf
  split
  · exact cleaned_clean _
  · exact clean_nil

/-- What is announced is what the search returns, when it is not interrupted. -/
theorem announces_safe (e : Env) (t : Aware) {rule : Rule} (h : WellFormed e.builtins rule)
    (target : Option Aware) :
    Announces e t rule target (computeNextOccurrenceSafe e t rule.toJson target) := by
  have hstart : startOf e.fromisoformat ⟨t, t⟩ (target.map fun t => .moment (.aware t)) none =
      target.getD t := by
    cases target with
    | none => rfl
    | some t' => rfl
  have hcurrent : currentOf ⟨t, t⟩ none = t := rfl
  rw [computeNextOccurrenceSafe]
  rcases computeNextOccurrence_toJson e.builtins e.fromisoformat e.dateutil ⟨t, t⟩
    (target.map fun t => .moment (.aware t)) none h with ⟨hfits, herror⟩ | ⟨hfits, o, hok, hnext⟩
  · rw [herror]
    rw [hcurrent] at hfits
    exact Or.inl ⟨hfits, rfl⟩
  · rw [hok]
    rw [hcurrent] at hfits hnext
    rw [hstart] at hnext
    exact Or.inr ⟨hfits, hnext⟩

theorem recurringOf_eq (e : Env) (now : Aware) (target : Option Aware) (want : Bool) (raw : Json) :
    recurringOf e now target want raw =
      (normalizeRule e.builtins raw).map (recurring e now target want) := by
  cases raw <;> rfl

/-- The columns that are set together agree. -/
theorem computedAt_of_recurringOf {e : Env} {now : Aware} {want : Bool} {raw : Json} {r : Recurring}
    {p : Preparation} (h : recurringOf e now p.targetMeetingDate want raw = .ok r)
    (hon : p.isRecurring = r.isRecurring) (hrule : p.recurrenceRule = r.recurrenceRule)
    (hnext : p.nextOccurrenceAt = r.nextOccurrenceAt) : ComputedAt e now p := by
  rw [recurringOf_eq] at h
  cases hclean : normalizeRule e.builtins raw with
  | error err =>
      rw [hclean] at h
      cases h
  | ok rule? =>
      rw [hclean] at h
      have hr : recurring e now p.targetMeetingDate want rule? = r := Except.ok.inj h
      subst hr
      cases want with
      | false => exact ⟨fun _ => ⟨hrule, hnext⟩, fun hrec => Bool.noConfusion (hon ▸ hrec)⟩
      | true =>
          cases rule? with
          | none => exact ⟨fun _ => ⟨hrule, hnext⟩, fun hrec => Bool.noConfusion (hon ▸ hrec)⟩
          | some rule =>
              have hwell := wellFormed_normalizeRule hclean
              refine ⟨fun hrec => Bool.noConfusion (hon ▸ hrec), fun _ => ⟨rule, hwell, hrule, ?_⟩⟩
              rw [hnext]
              exact announces_safe e now hwell p.targetMeetingDate

theorem eq_ok_of_toOption {α β : Type} {x : Except α β} {b : β} (h : x.toOption = some b) :
    x = .ok b := by
  cases x with
  | error a => cases h
  | ok b' => exact congrArg Except.ok (Option.some.inj h)

theorem newRow_does {e : Env} {db : Db} {id : Nat} {userSub : Str} {data : List (Str × Json)}
    {p : Preparation} (h : newRow e db.now id userSub data = some p) :
    p.id = id ∧ p.userSub = userSub ∧ p.createdAt = db.now ∧ p.trashedAt = none ∧
      Clean e.lower p.themes ∧ ComputedAt e db.now p := by
  obtain ⟨target, -, h⟩ := Option.bind_eq_some_iff.mp h
  obtain ⟨r, hr, h⟩ := Option.bind_eq_some_iff.mp h
  cases Option.some.inj h
  have hok := eq_ok_of_toOption hr
  exact ⟨rfl, rfl, rfl, rfl, themesOf_clean _ _, computedAt_of_recurringOf hok rfl rfl rfl⟩

/-- Columns that have nothing to do with the recurrence. -/
theorem ComputedAt.congr {e : Env} {t : Aware} {p p' : Preparation} (h : ComputedAt e t p)
    (htarget : p'.targetMeetingDate = p.targetMeetingDate)
    (hon : p'.isRecurring = p.isRecurring) (hrule : p'.recurrenceRule = p.recurrenceRule)
    (hnext : p'.nextOccurrenceAt = p.nextOccurrenceAt) : ComputedAt e t p' := by
  constructor
  · rw [hon, hrule, hnext]
    exact h.off
  · rw [hon, hrule, hnext, htarget]
    exact h.on

theorem amended_edits {e : Env} {now : Aware} {data : List (Str × Json)} {p p' : Preparation}
    (h : amended e now data p = some p') : Edits e now p p' := by
  obtain ⟨q, hq, rfl⟩ := Option.map_eq_some_iff.mp h
  have hthemes : ∀ old : List Str,
      (if has data "themes" then themesOf e.lower (key data "themes") else old) = old ∨
        Clean e.lower
          (if has data "themes" then themesOf e.lower (key data "themes") else old) := by
    intro old
    split
    · exact Or.inr (themesOf_clean _ _)
    · exact Or.inl rfl
  rw [amendedRecurrence] at hq
  split at hq
  · obtain ⟨target, -, hq⟩ := Option.bind_eq_some_iff.mp hq
    obtain ⟨r, hr, hq⟩ := Option.bind_eq_some_iff.mp hq
    cases Option.some.inj hq
    have hok := eq_ok_of_toOption hr
    exact ⟨⟨rfl, rfl, rfl⟩, rfl, hthemes p.themes,
      Or.inl (computedAt_of_recurringOf hok rfl rfl rfl)⟩
  · cases Option.some.inj hq
    exact ⟨⟨rfl, rfl, rfl⟩, rfl, hthemes p.themes, Or.inr fun _ hp => hp.congr rfl rfl rfl rfl⟩

theorem requestOf_eq_ok {body : Option Json} {arg : Option Str} {data : List (Str × Json)}
    {userSub : Str} (h : requestOf body arg = .ok (data, userSub)) :
    bodyOf body = some data ∧ stripOr (arg.getD []) (key data "user_sub") = some userSub ∧
      userSub ≠ [] := by
  rw [requestOf] at h
  split at h
  · cases h
  · rename_i data' hbody
    split at h
    · cases h
    · rename_i user hstrip
      split at h
      · cases h
      · rename_i hne
        cases h
        exact ⟨hbody, hstrip, hne⟩

theorem requestOf_of_fields {body : Option Json} {data : List (Str × Json)} {userSub : Str}
    (hbody : bodyOf body = some data) (hstrip : stripOr [] (key data "user_sub") = some userSub)
    (hne : userSub ≠ []) : requestOf body none = .ok (data, userSub) := by
  rw [requestOf, hbody]
  dsimp only
  rw [Option.getD_none, hstrip]
  exact if_neg hne

/-- A request writes nothing, or what a request of its user can write. -/
def Writes.Within (e : Env) (db : Db) (r : Request) (w : Writes) : Prop :=
  w = .nothing ∨ ∃ userSub, r.user = some userSub ∧ Does e db r userSub w

section Endpoints

variable (e : Env) (db : Db) (id : Nat) (body : Option Json)

theorem create_within :
    (createPreparation e db id body).1.Within e db (.create id body) := by
  rw [createPreparation]
  split
  · exact Or.inl rfl
  · rename_i data userSub hrequest
    split
    · exact Or.inl rfl
    · rename_i p hrow
      obtain ⟨rfl, huser, hcreated, hlive, hthemes, hcomputed⟩ := newRow_does hrow
      refine Or.inr ⟨userSub, ?_, .insert p body rfl huser hcreated hlive hthemes hcomputed⟩
      rw [Request.user, hrequest]
      rfl

theorem list_nothing (userSub trashed limit : Option Str) :
    (listPreparations e db userSub trashed limit).1 = .nothing := by
  rw [listPreparations]
  split
  · rfl
  · rfl

theorem get_within (userSub trackView : Option Str) :
    (getPreparation e db id userSub trackView).1.Within e db (.get id userSub trackView) := by
  rw [getPreparation]
  split
  · exact Or.inl rfl
  · rename_i user hquery
    split
    · exact Or.inl rfl
    · rename_i p hfind
      obtain ⟨hp, -, huser, hlive⟩ := find_live hfind
      split
      · exact Or.inl rfl
      · refine Or.inr ⟨user, ?_, .edit p _ hp huser hlive ⟨⟨rfl, rfl, rfl⟩, rfl, Or.inl rfl,
          Or.inr fun _ hp => hp.congr rfl rfl rfl rfl⟩⟩
        rw [Request.user, hquery]
        rfl

theorem rename_within : (renamePreparation db id body).1.Within e db (.rename id body) := by
  rw [renamePreparation]
  split
  · exact Or.inl rfl
  · rename_i data hbody
    split
    · rename_i user title hstrip htitle
      split
      · exact Or.inl rfl
      · rename_i hne
        split
        · exact Or.inl rfl
        · rename_i p hfind
          obtain ⟨hp, -, huser, hlive⟩ := find_live hfind
          refine Or.inr ⟨user, ?_, .edit p _ hp huser hlive ⟨⟨rfl, rfl, rfl⟩, rfl, Or.inl rfl,
            Or.inr fun _ hp => hp.congr rfl rfl rfl rfl⟩⟩
          rw [Request.user, requestOf_of_fields hbody hstrip (not_or.mp hne).1]
          rfl
    · exact Or.inl rfl

theorem amend_within : (amendPreparation e db id body).1.Within e db (.amend id body) := by
  rw [amendPreparation]
  split
  · exact Or.inl rfl
  · rename_i data user hrequest
    split
    · exact Or.inl rfl
    · split
      · exact Or.inl rfl
      · rename_i p hfind
        obtain ⟨hp, -, huser, hlive⟩ := find_live hfind
        split
        · exact Or.inl rfl
        · rename_i p' hamended
          refine Or.inr ⟨user, ?_, .edit p p' hp huser hlive (amended_edits hamended)⟩
          rw [Request.user, hrequest]
          rfl

theorem themesSuggestions_nothing (userSub : Option Str) :
    (listThemesSuggestions e db userSub).1 = .nothing := by
  rw [listThemesSuggestions]
  split
  · rfl
  · rfl

theorem trash_within (arg : Option Str) :
    (trashPreparation db id body arg).1.Within e db (.trash id body arg) := by
  rw [trashPreparation]
  split
  · exact Or.inl rfl
  · rename_i data user hrequest
    split
    · exact Or.inl rfl
    · rename_i p hfind
      obtain ⟨hp, -, huser, hlive⟩ := find_live hfind
      refine Or.inr ⟨user, ?_, .trash p hp huser hlive⟩
      rw [Request.user, hrequest]
      rfl

theorem restore_within : (restorePreparation db id body).1.Within e db (.restore id body) := by
  rw [restorePreparation]
  split
  · exact Or.inl rfl
  · rename_i data user hrequest
    split
    · exact Or.inl rfl
    · rename_i p hfind
      obtain ⟨hp, -, huser, -⟩ := find_eq_some hfind
      refine Or.inr ⟨user, ?_, .restore p hp huser⟩
      rw [Request.user, hrequest]
      rfl

theorem hardDelete_within (arg : Option Str) :
    (hardDeletePreparation db id body arg).1.Within e db (.hardDelete id body arg) := by
  rw [hardDeletePreparation]
  split
  · exact Or.inl rfl
  · rename_i data user hrequest
    split
    · exact Or.inl rfl
    · rename_i p hfind
      obtain ⟨hp, rfl, huser, htrashed⟩ := find_eq_some hfind
      refine Or.inr ⟨user, ?_, .hardDelete p body arg rfl hp huser fun hnone => ?_⟩
      · rw [Request.user, hrequest]
        rfl
      · rw [hnone] at htrashed
        cases htrashed

theorem purge_within : (purgePreparations e db body).1.Within e db (.purge body) := by
  rw [purgePreparations]
  split
  · exact Or.inl rfl
  · rename_i data user hrequest
    split
    · exact Or.inl rfl
    · rename_i days hdays
      split
      · dsimp only
        split
        · exact Or.inl rfl
        · refine Or.inr ⟨user, ?_, .purge data body days _ rfl (requestOf_eq_ok hrequest).1 hdays
            fun i hi => ?_⟩
          · rw [Request.user, hrequest]
            rfl
          · obtain ⟨p, hp, rfl⟩ := List.mem_map.mp hi
            obtain ⟨hselected, hexpired⟩ := List.mem_filter.mp hp
            obtain ⟨hrows, huser⟩ := List.mem_filter.mp hselected
            rw [Bool.and_eq_true, beq_iff_eq] at huser
            exact ⟨p, hrows, rfl, huser.1, hexpired⟩
      · exact Or.inl rfl

/-- **What a request writes.** -/
theorem plan_cases (r : Request) : (plan e db r).1.Within e db r := by
  cases r with
  | create id body => exact create_within e db id body
  | list userSub trashed limit => exact Or.inl (list_nothing e db userSub trashed limit)
  | get id userSub trackView => exact get_within e db id userSub trackView
  | rename id body => exact rename_within e db id body
  | amend id body => exact amend_within e db id body
  | themesSuggestions userSub => exact Or.inl (themesSuggestions_nothing e db userSub)
  | trash id body userSub => exact trash_within e db id body userSub
  | restore id body => exact restore_within e db id body
  | hardDelete id body userSub => exact hardDelete_within e db id body userSub
  | purge body => exact purge_within e db body

end Endpoints

end MesReunions.Preparations.Records
