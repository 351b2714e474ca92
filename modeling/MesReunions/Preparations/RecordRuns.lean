import MesReunions.Base.TSys
import MesReunions.Base.Unwinding
import MesReunions.Preparations.Records

/-!
# The preparations over time

Requests of several users, one after the other, on the table of the preparations.

* `step`, `next` — a request or the passing of time.
* **`announced_of_run`** — what is announced is the next occurrence of the stored rule, as of the
  last time that the recurrence was set.
* **`suggestions_of_run`** — the themes that are suggested are those of the live preparations, with
  the number of these that have them.
* **`serve_of`** — what a user is answered depends on their own requests only.
* **`kept_of_live`** — a preparation that is live is there for as many days as a purge leaves,
  unless its user deletes it.
-/

namespace MesReunions.Preparations.Records

open Str Json Recurrence Themes

/-! ## The system -/

inductive Act where
  | wait (later : Aware)
  /-- `stored` says whether the database takes what is committed. -/
  | request (r : Request) (stored : Bool)

/-- A step, with its answer. The clock does not go back, and a new id is one that is not there. -/
def step (e : Env) (db : Db) : Act → Option (Db × Option Reply)
  | .wait later =>
      if db.now.instant ≤ later.instant then some ({ db with now := later }, none) else none
  | .request r stored =>
      match plan e db r with
      | (.nothing, reply) => some (db, some reply)
      | (writes, reply) =>
          if stored then (db.commit writes).map fun db' => (db', some reply)
          else some (db, some .failed)

/-- The state after a step. -/
def next (e : Env) (db : Db) (a : Act) : Option Db := (step e db a).map Prod.fst

/-- No preparation. -/
def Db.empty (now : Aware) : Db := ⟨now, [], List.nodup_nil⟩

/-! ## What a step does -/

/-- A request leaves the table, or commits what `Does` says. -/
theorem request_cases {e : Env} {db db' : Db} {r : Request} {stored : Bool} {reply : Option Reply}
    (h : step e db (.request r stored) = some (db', reply)) :
    db' = db ∨ ∃ userSub w, r.user = some userSub ∧ Does e db r userSub w ∧
      db.commit w = some db' := by
  rw [step] at h
  rcases plan_cases e db r with hnothing | ⟨userSub, huser, hdoes⟩
  · split at h
    · cases h
      exact Or.inl rfl
    · rename_i hne hplan
      rw [hplan] at hnothing
      exact absurd hnothing (by simpa using hne)
  · split at h
    · cases h
      exact Or.inl rfl
    · rename_i writes reply' hne hplan
      rw [hplan] at hdoes
      split at h
      · obtain ⟨db'', hcommit, heq⟩ := Option.map_eq_some_iff.mp h
        cases heq
        exact Or.inr ⟨userSub, writes, huser, hdoes, hcommit⟩
      · cases h
        exact Or.inl rfl

theorem now_of_commit {db db' : Db} {w : Writes} (h : db.commit w = some db') :
    db'.now = db.now := by
  cases w with
  | nothing =>
      cases h
      rfl
  | insert p =>
      rw [Db.commit] at h
      split at h
      · cases h
      · cases h
        rfl
  | update p =>
      cases h
      rfl
  | delete ids =>
      cases h
      rfl

/-- A row after a commit was there, or is the one that is written. -/
theorem mem_of_commit {db db' : Db} {w : Writes} (h : db.commit w = some db') {p : Preparation}
    (hp : p ∈ db'.rows) : p ∈ db.rows ∨ w = .insert p ∨ w = .update p := by
  cases w with
  | nothing =>
      cases h
      exact Or.inl hp
  | insert q =>
      rw [Db.commit] at h
      split at h
      · cases h
      · cases h
        rcases List.mem_append.mp hp with hp | hp
        · exact Or.inl hp
        · exact Or.inr (Or.inl (congrArg Writes.insert (List.mem_singleton.mp hp).symm))
  | update q =>
      cases h
      obtain ⟨p', hp', hif⟩ := List.mem_map.mp hp
      split at hif
      · exact Or.inr (Or.inr (congrArg Writes.update hif))
      · exact Or.inl (hif ▸ hp')
  | delete ids =>
      cases h
      exact Or.inl (List.mem_filter.mp hp).1

/-! ## The rows of a reachable table -/

/-- A row that requests can have made, at an instant. -/
structure Preparation.Sound (e : Env) (now : Aware) (p : Preparation) : Prop where
  themes : Clean e.lower p.themes
  recurrence : ∃ t : Aware, p.createdAt.instant ≤ t.instant ∧ t.instant ≤ now.instant ∧
    ComputedAt e t p

theorem Preparation.Sound.later {e : Env} {now later : Aware} {p : Preparation}
    (h : p.Sound e now) (hle : now.instant ≤ later.instant) : p.Sound e later := by
  obtain ⟨t, hcreated, hnow, hcomputed⟩ := h.recurrence
  exact ⟨h.themes, t, hcreated, hnow.trans hle, hcomputed⟩

theorem Preparation.Sound.congr {e : Env} {now : Aware} {p p' : Preparation} (h : p.Sound e now)
    (hthemes : p'.themes = p.themes) (hcreated : p'.createdAt = p.createdAt)
    (hcomputed : ∀ t, ComputedAt e t p → ComputedAt e t p') : p'.Sound e now := by
  obtain ⟨t, hle, hnow, ht⟩ := h.recurrence
  exact ⟨hthemes ▸ h.themes, t, hcreated ▸ hle, hnow, hcomputed t ht⟩

/-- What is written is sound, where what is read is. -/
theorem sound_of_does {e : Env} {db : Db} {r : Request} {userSub : Str} {w : Writes}
    {p' : Preparation} (h : Does e db r userSub w) (hsound : ∀ p ∈ db.rows, p.Sound e db.now)
    (hw : w = .insert p' ∨ w = .update p') : p'.Sound e db.now := by
  cases h with
  | insert p body hr huser hcreated hlive hthemes hcomputed =>
      have heq : p = p' := by
        rcases hw with hw | hw
        · exact Writes.insert.inj hw
        · cases hw
      rw [← heq]
      exact ⟨hthemes, db.now, by rw [hcreated], le_rfl, hcomputed⟩
  | edit p q hp huser hlive hedits =>
      have heq : q = p' := by
        rcases hw with hw | hw
        · cases hw
        · exact Writes.update.inj hw
      rw [← heq]
      obtain ⟨t, hle, hnow, ht⟩ := (hsound p hp).recurrence
      have hthemes : Clean e.lower q.themes := by
        rcases hedits.themes with hsame | hclean
        · rw [hsame]
          exact (hsound p hp).themes
        · exact hclean
      refine ⟨hthemes, ?_⟩
      rw [hedits.createdAt]
      rcases hedits.recurrence with hnew | hsame
      · exact ⟨db.now, hle.trans hnow, le_rfl, hnew⟩
      · exact ⟨t, hle, hnow, hsame t ht⟩
  | trash p hp huser hlive =>
      have heq : { p with trashedAt := some db.now } = p' := by
        rcases hw with hw | hw
        · cases hw
        · exact Writes.update.inj hw
      rw [← heq]
      exact (hsound p hp).congr rfl rfl fun _ ht => ht.congr rfl rfl rfl rfl
  | restore p hp huser =>
      have heq : { p with trashedAt := none } = p' := by
        rcases hw with hw | hw
        · cases hw
        · exact Writes.update.inj hw
      rw [← heq]
      exact (hsound p hp).congr rfl rfl fun _ ht => ht.congr rfl rfl rfl rfl
  | hardDelete p body arg hr hp huser htrashed =>
      rcases hw with hw | hw <;> cases hw
  | purge data body days ids hr hbody hdays hids =>
      rcases hw with hw | hw <;> cases hw

/-- A step keeps the rows sound. -/
theorem sound_of_next {e : Env} {db db' : Db} {a : Act} (h : next e db a = some db')
    (hsound : ∀ p ∈ db.rows, p.Sound e db.now) : ∀ p ∈ db'.rows, p.Sound e db'.now := by
  obtain ⟨⟨db'', reply⟩, hstep, rfl⟩ := Option.map_eq_some_iff.mp h
  cases a with
  | wait later =>
      obtain ⟨hle, heq⟩ := Option.ite_none_right_eq_some.mp hstep
      cases heq
      exact fun p hp => (hsound p hp).later hle
  | request r stored =>
      rcases request_cases hstep with rfl | ⟨userSub, w, -, hdoes, hcommit⟩
      · exact hsound
      · intro p hp
        rw [now_of_commit hcommit]
        rcases mem_of_commit hcommit hp with hold | hnew
        · exact hsound p hold
        · exact sound_of_does hdoes hsound hnew

/-- In every reachable table, every row is sound. -/
theorem sound_of_run {e : Env} {start : Aware} {as : List Act} {db : Db}
    (h : TSys.run (next e) (Db.empty start) as = some db) : ∀ p ∈ db.rows, p.Sound e db.now := by
  have hguarded : TSys.Guarded (next e) (fun _ _ => True) (Db.empty start) as :=
    TSys.guarded_of_forall (next e) fun _ _ => trivial
  have hempty : ∀ p ∈ (Db.empty start).rows, p.Sound e start := fun _ hp =>
    absurd hp List.not_mem_nil
  exact TSys.inv_of_guarded (next e) (fun db => ∀ p ∈ db.rows, p.Sound e db.now)
    (fun _ _ _ hinv _ hstep => sound_of_next hstep hinv) hempty hguarded h

/-- **The suggested themes.** In every reachable table, a user is shown the themes of their live
preparations, with the number of these that have each, the most used first. -/
theorem suggestions_of_run {e : Env} {start : Aware} {as : List Act} {db : Db}
    (h : TSys.run (next e) (Db.empty start) as = some db) {arg : Option Str} {userSub : Str}
    (huser : userOfQuery arg = .ok userSub) :
    ∃ shown, plan e db (.themesSuggestions arg) = (.nothing, .themes shown) ∧
      Suggests e.lower ((db.select userSub false).map (·.themes)) shown := by
  refine ⟨suggestions e.lower ((db.select userSub false).map (·.themes)), ?_, ?_⟩
  · show listThemesSuggestions e db arg = _
    rw [listThemesSuggestions, huser]
  · apply suggests_suggestions
    intro themes hthemes
    obtain ⟨p, hp, rfl⟩ := List.mem_map.mp hthemes
    exact (sound_of_run h p (List.mem_filter.mp hp).1).themes

/-- The built-in functions on ASCII, and the enumeration of all the days. -/
def asciiEnv : Env := ⟨List.map Char.toLower, asciiBuiltins, fun _ => none, enumeration⟩

/-- A body of a user, with other fields. -/
def bodyBy (userSub : String) (fields : List (Str × Json)) : Option Json :=
  some (.obj (("user_sub".toList, .str userSub.toList) :: fields))

/-- A preparation for every day, with a theme given twice. -/
def createDaily (id : Nat) (userSub : String) : Act :=
  .request (.create id (bodyBy userSub [("is_recurring".toList, .bool true),
    ("recurrence_rule".toList, .obj [("freq".toList, .str "daily".toList)]),
    ("themes".toList, .list [.str "Budget".toList, .str " budget ".toList])])) true

def noon : Aware := ⟨⟨nine.wall.date, 12, 0, 0, 0, by decide⟩, 0⟩

/-- Ana creates a preparation at nine; then it is noon. -/
def morning : List Act := [createDaily 0 "ana", .wait noon]

theorem morning_isSome : (TSys.run (next asciiEnv) (Db.empty nine) morning).isSome = true := rfl

/-- The table at noon. -/
def atNoon : Db := (TSys.run (next asciiEnv) (Db.empty nine) morning).get morning_isSome

theorem run_morning : TSys.run (next asciiEnv) (Db.empty nine) morning = some atNoon :=
  (Option.some_get _).symm

/-- The preparation of Ana. -/
def anaPreparation : Preparation := atNoon.rows.get ⟨0, Nat.zero_lt_one⟩

theorem mem_anaPreparation : anaPreparation ∈ atNoon.rows := List.get_mem ..

theorem suggestions_of_run_morning : ∃ shown,
    plan asciiEnv atNoon (.themesSuggestions (some "ana".toList)) = (.nothing, .themes shown) ∧
      Suggests asciiEnv.lower ((atNoon.select "ana".toList false).map (·.themes)) shown :=
  suggestions_of_run run_morning rfl

/-! ## The view of a user -/

/-- The rows of one user. -/
def Db.of (db : Db) (userSub : Str) : Db :=
  { db with
    rows := db.rows.filter fun p => p.userSub == userSub
    unique := db.unique.sublist (List.filter_sublist.map _) }

/-- What a request of a user can write: a row of theirs, over a row of theirs, or none. -/
inductive Own (db : Db) (userSub : Str) : Writes → Prop where
  | insert (p : Preparation) (huser : p.userSub = userSub) : Own db userSub (.insert p)
  | update (p p' : Preparation) (hp : p ∈ db.rows) (huser : p.userSub = userSub)
      (hsame : SameRow p p') : Own db userSub (.update p')
  | delete (ids : List Nat) (hids : ∀ i ∈ ids, ∃ p ∈ db.rows, p.id = i ∧ p.userSub = userSub) :
      Own db userSub (.delete ids)

section View

variable {e : Env} {db db' : Db} {r : Request} {userSub other : Str} {w : Writes}

theorem Does.own (h : Does e db r userSub w) : Own db userSub w := by
  cases h with
  | insert p body hr huser hcreated hlive hthemes hcomputed => exact .insert p huser
  | edit p p' hp huser hlive hedits => exact .update p p' hp huser hedits.toSameRow
  | trash p hp huser hlive => exact .update p _ hp huser ⟨rfl, rfl, rfl⟩
  | restore p hp huser => exact .update p _ hp huser ⟨rfl, rfl, rfl⟩
  | hardDelete p body arg hr hp huser htrashed =>
      refine .delete [p.id] fun i hi => ⟨p, hp, ?_, huser⟩
      exact (List.mem_singleton.mp hi).symm
  | purge data body days ids hr hbody hdays hids =>
      refine .delete ids fun i hi => ?_
      obtain ⟨p, hp, hid, huser, -⟩ := hids i hi
      exact ⟨p, hp, hid, huser⟩

theorem eq_of_id {p q : Preparation} (hp : p ∈ db.rows) (hq : q ∈ db.rows) (h : p.id = q.id) :
    p = q :=
  List.inj_on_of_nodup_map db.unique hp hq h

/-- The row that is written over belongs to the same user as before. -/
theorem userSub_update {p p' : Preparation} (hp : p ∈ db.rows) (hsame : SameRow p p')
    {q : Preparation} (hq : q ∈ db.rows) :
    (if q.id = p'.id then p' else q).userSub = q.userSub := by
  split
  · rename_i hid
    rw [hsame.userSub, eq_of_id hp hq (hsame.id.symm.trans hid.symm)]
  · rfl

theorem rows_update_of {p p' : Preparation} (hp : p ∈ db.rows) (hsame : SameRow p p') (u : Str) :
    ((db.update p').of u).rows = (db.of u).rows.map fun q => if q.id = p'.id then p' else q := by
  show (db.rows.map _).filter _ = (db.rows.filter _).map _
  rw [List.filter_map]
  congr 1
  refine List.filter_congr fun q hq => ?_
  show (Preparation.userSub _ == u) = _
  rw [userSub_update hp hsame hq]

theorem commit_of_own (h : Own db userSub w) (hcommit : db.commit w = some db') :
    (db.of userSub).commit w = some (db'.of userSub) := by
  cases h with
  | insert p huser =>
      rw [Db.commit] at hcommit
      split at hcommit
      · cases hcommit
      · rename_i hnew
        cases hcommit
        have hnew' : p.id ∉ (db.of userSub).rows.map (·.id) := fun hmem =>
          hnew ((List.filter_sublist.map _).subset hmem)
        rw [Db.commit, dif_neg hnew']
        refine congrArg some (Db.ext rfl ?_)
        have hone : [p].filter (fun q => q.userSub == userSub) = [p] :=
          List.filter_cons_of_pos (beq_iff_eq.mpr huser)
        show db.rows.filter _ ++ [p] = (db.rows ++ [p]).filter _
        rw [List.filter_append, hone]
  | update p p' hp huser hsame =>
      cases hcommit
      exact congrArg some (Db.ext rfl (rows_update_of hp hsame userSub).symm)
  | delete ids hids =>
      cases hcommit
      refine congrArg some (Db.ext rfl ?_)
      show (db.rows.filter _).filter _ = (db.rows.filter _).filter _
      rw [List.filter_filter, List.filter_filter]
      exact List.filter_congr fun q _ => Bool.and_comm _ _

theorem commit_of_other (h : Own db userSub w) (hcommit : db.commit w = some db')
    (hne : userSub ≠ other) : db'.of other = db.of other := by
  cases h with
  | insert p huser =>
      rw [Db.commit] at hcommit
      split at hcommit
      · cases hcommit
      · cases hcommit
        refine Db.ext rfl ?_
        have hnone : [p].filter (fun q => q.userSub == other) = [] :=
          List.filter_cons_of_neg (by rwa [beq_iff_eq, huser])
        show (db.rows ++ [p]).filter _ = db.rows.filter _
        rw [List.filter_append, hnone, List.append_nil]
  | update p p' hp huser hsame =>
      cases hcommit
      refine Db.ext rfl ?_
      rw [rows_update_of hp hsame other]
      refine (List.map_congr_left fun q hq => ?_).trans (List.map_id _)
      obtain ⟨hq, hother⟩ := List.mem_filter.mp hq
      refine if_neg fun hid => hne ?_
      rw [← huser, eq_of_id hp hq (hsame.id.symm.trans hid.symm)]
      exact beq_iff_eq.mp hother
  | delete ids hids =>
      cases hcommit
      refine Db.ext rfl ?_
      show (db.rows.filter _).filter _ = db.rows.filter _
      rw [List.filter_filter]
      refine List.filter_congr fun q hq => ?_
      rw [Bool.and_eq_left_iff_imp, decide_eq_true_eq]
      intro hother hmem
      obtain ⟨p, hp, hid, huser⟩ := hids _ hmem
      rw [← beq_iff_eq.mp hother, ← eq_of_id hp hq hid] at hne
      exact hne huser.symm

@[simp] theorem now_of (db : Db) (u : Str) : (db.of u).now = db.now := rfl

@[simp] theorem find_of (db : Db) (id : Nat) (u : Str) (trashed : Bool) :
    (db.of u).find id u trashed = db.find id u trashed := by
  show (db.rows.filter _).find? _ = _
  rw [List.find?_filter, Db.find]
  congr 1
  funext p
  rw [Bool.eq_iff_iff]
  simp only [decide_eq_true_eq, Bool.and_eq_true, beq_iff_eq]
  exact and_iff_right_of_imp fun h => h.1.2

@[simp] theorem select_of (db : Db) (u : Str) (trashed : Bool) :
    (db.of u).select u trashed = db.select u trashed := by
  show (db.rows.filter _).filter _ = _
  rw [List.filter_filter, Db.select]
  refine List.filter_congr fun p _ => ?_
  cases p.userSub == u with
  | true => rw [Bool.true_and, Bool.and_true]
  | false => rw [Bool.false_and, Bool.false_and]

theorem requestOf_user {body : Option Json} {arg : Option Str} {data : List (Str × Json)} {u : Str}
    (huser : (requestOf body arg).toOption.map Prod.snd = some userSub)
    (hrequest : requestOf body arg = .ok (data, u)) : u = userSub := by
  rw [hrequest] at huser
  exact Option.some.inj huser

theorem userOfQuery_user {arg : Option Str} {u : Str}
    (huser : (userOfQuery arg).toOption = some userSub) (hquery : userOfQuery arg = .ok u) :
    u = userSub := by
  rw [hquery] at huser
  exact Option.some.inj huser

/-- What a user asks is planned and answered from their rows. -/
theorem plan_of (huser : r.user = some userSub) : plan e (db.of userSub) r = plan e db r := by
  cases r with
  | create id body => rfl
  | list arg trashed limit =>
      show listPreparations e _ arg trashed limit = listPreparations e db arg trashed limit
      rw [listPreparations, listPreparations]
      cases hquery : userOfQuery arg with
      | error reply => rfl
      | ok u =>
          cases userOfQuery_user huser hquery
          simp only [select_of]
  | get id arg trackView =>
      show getPreparation e _ id arg trackView = getPreparation e db id arg trackView
      rw [getPreparation, getPreparation]
      cases hquery : userOfQuery arg with
      | error reply => rfl
      | ok u =>
          cases userOfQuery_user huser hquery
          simp only [find_of, now_of]
  | rename id body =>
      show renamePreparation _ id body = renamePreparation db id body
      rw [renamePreparation, renamePreparation]
      cases hbody : bodyOf body with
      | none => rfl
      | some data =>
          dsimp only
          cases hstrip : stripOr [] (key data "user_sub") with
          | none => rfl
          | some u =>
              cases stripOr [] (key data "title") with
              | none => rfl
              | some title =>
                  dsimp only
                  split
                  · rfl
                  · rename_i hne
                    cases requestOf_user huser (requestOf_of_fields hbody hstrip (not_or.mp hne).1)
                    rw [find_of]
  | amend id body =>
      show amendPreparation e _ id body = amendPreparation e db id body
      rw [amendPreparation, amendPreparation]
      cases hrequest : requestOf body none with
      | error reply => rfl
      | ok request =>
          obtain ⟨data, u⟩ := request
          cases requestOf_user huser hrequest
          simp only [find_of, now_of]
  | themesSuggestions arg =>
      show listThemesSuggestions e _ arg = listThemesSuggestions e db arg
      rw [listThemesSuggestions, listThemesSuggestions]
      cases hquery : userOfQuery arg with
      | error reply => rfl
      | ok u =>
          cases userOfQuery_user huser hquery
          simp only [select_of]
  | trash id body arg =>
      show trashPreparation _ id body arg = trashPreparation db id body arg
      rw [trashPreparation, trashPreparation]
      cases hrequest : requestOf body arg with
      | error reply => rfl
      | ok request =>
          obtain ⟨data, u⟩ := request
          cases requestOf_user huser hrequest
          simp only [find_of, now_of]
  | restore id body =>
      show restorePreparation _ id body = restorePreparation db id body
      rw [restorePreparation, restorePreparation]
      cases hrequest : requestOf body none with
      | error reply => rfl
      | ok request =>
          obtain ⟨data, u⟩ := request
          cases requestOf_user huser hrequest
          simp only [find_of]
  | hardDelete id body arg =>
      show hardDeletePreparation _ id body arg = hardDeletePreparation db id body arg
      rw [hardDeletePreparation, hardDeletePreparation]
      cases hrequest : requestOf body arg with
      | error reply => rfl
      | ok request =>
          obtain ⟨data, u⟩ := request
          cases requestOf_user huser hrequest
          simp only [find_of]
  | purge body =>
      show purgePreparations e _ body = purgePreparations e db body
      rw [purgePreparations, purgePreparations]
      cases hrequest : requestOf body none with
      | error reply => rfl
      | ok request =>
          obtain ⟨data, u⟩ := request
          cases requestOf_user huser hrequest
          simp only [select_of, now_of]

/-- The passing of time, and the requests of a user. -/
def Act.concerns (userSub : Str) : Act → Bool
  | .wait _ => true
  | .request r _ => r.user == some userSub

theorem step_own {a : Act} {reply : Option Reply} (hconcerns : a.concerns userSub = true)
    (h : step e db a = some (db', reply)) :
    step e (db.of userSub) a = some (db'.of userSub, reply) := by
  cases a with
  | wait later =>
      rw [step] at h ⊢
      obtain ⟨hle, heq⟩ := Option.ite_none_right_eq_some.mp h
      cases heq
      rw [now_of, if_pos hle]
      rfl
  | request r stored =>
      have huser : r.user = some userSub := beq_iff_eq.mp hconcerns
      rw [step] at h ⊢
      rw [plan_of huser]
      cases hplan : plan e db r with
      | mk w reply' =>
          have hwithin := plan_cases e db r
          rw [hplan] at h hwithin
          cases w with
          | nothing =>
              cases h
              rfl
          | _ =>
              dsimp only at h ⊢
              cases stored with
              | false =>
                  cases h
                  rfl
              | true =>
                  rw [if_pos rfl] at h ⊢
                  obtain ⟨db'', hcommit, heq⟩ := Option.map_eq_some_iff.mp h
                  cases heq
                  rcases hwithin with hnothing | ⟨u, hu, hdoes⟩
                  · cases hnothing
                  · rw [huser] at hu
                    cases hu
                    rw [commit_of_own hdoes.own hcommit]
                    rfl

theorem step_other {a : Act} {reply : Option Reply} (hconcerns : a.concerns userSub = false)
    (h : step e db a = some (db', reply)) : db'.of userSub = db.of userSub := by
  cases a with
  | wait later => cases hconcerns
  | request r stored =>
      rcases request_cases h with rfl | ⟨u, w, hu, hdoes, hcommit⟩
      · rfl
      · refine commit_of_other hdoes.own hcommit fun heq => ?_
        have hne : ¬ r.user = some userSub := beq_eq_false_iff_ne.mp hconcerns
        exact hne (hu.trans (congrArg some heq))

end View

/-- Bob creates a preparation, and asks for the one of Ana to be put in the trash. -/
def withBob : List Act :=
  [createDaily 0 "ana", createDaily 1 "bob", .request (.trash 0 (bodyBy "bob" []) none) true,
    .request (.get 0 (some "ana".toList) none) true]

theorem withBob_isSome : (Unwinding.serve (step asciiEnv) (Db.empty nine) withBob).isSome = true :=
  rfl

/-- A request of the user that is not the permanent deletion of the preparation, nor a purge of what
has been in the trash for less than some days. No purge is of less than one day. -/
def Act.Spares (e : Env) (userSub : Str) (id : Nat) (days : Int) : Act → Prop
  | .wait _ => True
  | .request r _ => r.user = some userSub →
      (∀ body arg, r ≠ .hardDelete id body arg) ∧
        ∀ body data n, r = .purge body → bodyOf body = some data →
          olderThanDays e.builtins (key data "older_than_days") = .ok n → 1 < days → days ≤ n

/-- A purge leaves a day at least. -/
theorem one_le_olderThanDays {b : Builtins} {v : Option Json} {n : Int}
    (h : olderThanDays b v = .ok n) : 1 ≤ n := by
  rw [olderThanDays] at h
  cases hint : intOf b (if flag v then v.getD .null else .int 30) with
  | ok k =>
      rw [hint] at h
      have hn : max 1 k = n := Except.ok.inj h
      omega
  | error err =>
      rw [hint] at h
      cases err with
      | typeError =>
          have hn : (30 : Int) = n := Except.ok.inj h
          omega
      | valueError =>
          have hn : (30 : Int) = n := Except.ok.inj h
          omega
      | overflowError => cases h
      | attributeError => cases h

/-- A preparation is there, and has not been in the trash since before an instant. -/
def Db.Keeps (db : Db) (p : Preparation) (since : Int) : Prop :=
  ∃ q ∈ db.rows, SameRow p q ∧ ∀ t, q.trashedAt = some t → since ≤ t.instant

section Keep

variable {e : Env} {db db' : Db} {p : Preparation} {since days : Int}

theorem SameRow.trans {p q r : Preparation} (h : SameRow p q) (h' : SameRow q r) : SameRow p r :=
  ⟨h'.id.trans h.id, h'.userSub.trans h.userSub, h'.createdAt.trans h.createdAt⟩

/-- A row that is written over keeps its place. -/
theorem keeps_update {p₀ p₁ : Preparation} (hp₀ : p₀ ∈ db.rows) (hsame : SameRow p₀ p₁)
    (hkeeps : db.Keeps p since)
    (htrash : ∀ t, p₁.trashedAt = some t → p₀.trashedAt = some t ∨ since ≤ t.instant) :
    (db.update p₁).Keeps p since := by
  obtain ⟨q, hq, hpq, hsince⟩ := hkeeps
  refine ⟨if q.id = p₁.id then p₁ else q, List.mem_map.mpr ⟨q, hq, rfl⟩, ?_⟩
  split
  · rename_i hid
    have heq : p₀ = q := eq_of_id hp₀ hq (hsame.id.symm.trans hid.symm)
    subst heq
    refine ⟨hpq.trans hsame, fun t ht => ?_⟩
    rcases htrash t ht with hold | hle
    · exact hsince t hold
    · exact hle
  · exact ⟨hpq, hsince⟩

theorem keeps_of_commit {r : Request} {userSub : Str} {stored : Bool} {w : Writes}
    (hkeeps : db.Keeps p since) (hsince : since ≤ db.now.instant)
    (htime : db.now.instant ≤ since + days * wholeDay)
    (hspares : (Act.request r stored).Spares e p.userSub p.id days) (huser : r.user = some userSub)
    (hdoes : Does e db r userSub w) (hcommit : db.commit w = some db') : db'.Keeps p since := by
  obtain ⟨q, hq, hpq, htrashed⟩ := hkeeps
  cases hdoes with
  | insert p₁ body hr huser' hcreated hlive hthemes hcomputed =>
      rw [Db.commit] at hcommit
      split at hcommit
      · cases hcommit
      · cases hcommit
        exact ⟨q, List.mem_append_left _ hq, hpq, htrashed⟩
  | edit p₀ p₁ hp₀ huser' hlive hedits =>
      cases hcommit
      refine keeps_update hp₀ hedits.toSameRow ⟨q, hq, hpq, htrashed⟩ fun t ht => Or.inl ?_
      rw [← hedits.trashedAt]
      exact ht
  | trash p₀ hp₀ huser' hlive =>
      cases hcommit
      refine keeps_update hp₀ ⟨rfl, rfl, rfl⟩ ⟨q, hq, hpq, htrashed⟩ fun t ht => Or.inr ?_
      rw [← Option.some.inj ht]
      exact hsince
  | restore p₀ hp₀ huser' =>
      cases hcommit
      exact keeps_update hp₀ ⟨rfl, rfl, rfl⟩ ⟨q, hq, hpq, htrashed⟩ fun t ht => nomatch ht
  | hardDelete p₀ body arg hr hp₀ huser' htrash =>
      cases hcommit
      refine ⟨q, List.mem_filter.mpr ⟨hq, ?_⟩, hpq, htrashed⟩
      rw [decide_eq_true_eq, List.mem_singleton]
      intro hid
      -- The row that goes would be the preparation, and its user would have asked for it.
      have heq : q = p₀ := eq_of_id hq hp₀ hid
      have howner : r.user = some p.userSub := by
        rw [huser, ← huser', ← heq, hpq.userSub]
      refine (hspares howner).1 body arg ?_
      rw [hr, ← heq, hpq.id]
  | purge data body n ids hr hbody hn hids =>
      cases hcommit
      refine ⟨q, List.mem_filter.mpr ⟨hq, ?_⟩, hpq, htrashed⟩
      rw [decide_eq_true_eq]
      intro hmem
      obtain ⟨p₀, hp₀, hid, huser', hexpired⟩ := hids _ hmem
      have heq : p₀ = q := eq_of_id hp₀ hq hid
      subst heq
      have howner : r.user = some p.userSub := by
        rw [huser, ← huser', hpq.userSub]
      have hone : 1 ≤ n := one_le_olderThanDays hn
      have hdays : days ≤ n := by
        by_cases hday : 1 < days
        · exact (hspares howner).2 body data n hr hbody hn hday
        · omega
      obtain ⟨t, ht, hlt⟩ := (Option.any_eq_true _ _).mp hexpired
      have hle := htrashed t ht
      rw [decide_eq_true_eq] at hlt
      simp only [wholeDay, second] at hlt htime
      omega

theorem keeps_of_next {a : Act} (h : next e db a = some db')
    (hspares : a.Spares e p.userSub p.id days) (hinv : since ≤ db.now.instant ∧
      (db.now.instant ≤ since + days * wholeDay → db.Keeps p since)) :
    since ≤ db'.now.instant ∧ (db'.now.instant ≤ since + days * wholeDay → db'.Keeps p since) := by
  obtain ⟨hsince, hkeeps⟩ := hinv
  obtain ⟨⟨db'', reply⟩, hstep, rfl⟩ := Option.map_eq_some_iff.mp h
  cases a with
  | wait later =>
      obtain ⟨hle, heq⟩ := Option.ite_none_right_eq_some.mp hstep
      cases heq
      exact ⟨hsince.trans hle, fun htime => hkeeps (hle.trans htime)⟩
  | request r stored =>
      rcases request_cases hstep with rfl | ⟨userSub, w, huser, hdoes, hcommit⟩
      · exact ⟨hsince, hkeeps⟩
      · show since ≤ db''.now.instant ∧ _
        rw [now_of_commit hcommit]
        exact ⟨hsince, fun htime =>
          keeps_of_commit (hkeeps htime) hsince htime hspares huser hdoes hcommit⟩

end Keep

/-- **Nothing is lost.** A preparation that is live is still there some days later, whatever was
asked meanwhile, unless its user asked for its permanent deletion, or for a purge of what has been
in the trash for less than these days. -/
theorem kept_of_live {e : Env} {db db' : Db} {as : List Act} {p : Preparation} {days : Int}
    (h : TSys.run (next e) db as = some db') (hp : p ∈ db.rows) (hlive : p.trashedAt = none)
    (hspares : ∀ a ∈ as, a.Spares e p.userSub p.id days)
    (htime : db'.now.instant ≤ db.now.instant + days * wholeDay) :
    ∃ q ∈ db'.rows, SameRow p q := by
  have hguarded : TSys.Guarded (next e) (fun _ a => a.Spares e p.userSub p.id days) db as :=
    TSys.guarded_of_actions (next e) db hspares
  have hstart : db.now.instant ≤ db.now.instant ∧
      (db.now.instant ≤ db.now.instant + days * wholeDay → db.Keeps p db.now.instant) := by
    refine ⟨le_rfl, fun _ => ⟨p, hp, ⟨rfl, rfl, rfl⟩, fun t ht => ?_⟩⟩
    rw [hlive] at ht
    cases ht
  have hend := TSys.inv_of_guarded (next e) (fun d => db.now.instant ≤ d.now.instant ∧
    (d.now.instant ≤ db.now.instant + days * wholeDay → d.Keeps p db.now.instant))
    (fun _ _ _ hinv hguard hstep => keeps_of_next hstep hguard hinv) hstart hguarded h
  obtain ⟨q, hq, hpq, -⟩ := hend.2 htime
  exact ⟨q, hq, hpq⟩

/-- Ana puts her preparation in the trash, and purges the trash. -/
def afternoon : List Act :=
  [.request (.trash 0 (bodyBy "ana" []) none) true, .request (.purge (bodyBy "ana" [])) true]

theorem afternoon_isSome : (TSys.run (next asciiEnv) atNoon afternoon).isSome = true := rfl

theorem kept_of_live_afternoon :
    ∃ db, TSys.run (next asciiEnv) atNoon afternoon = some db ∧
      ∃ q ∈ db.rows, SameRow anaPreparation q := by
  refine ⟨_, (Option.some_get afternoon_isSome).symm, ?_⟩
  have hspares : ∀ a ∈ afternoon,
      a.Spares asciiEnv anaPreparation.userSub anaPreparation.id 1 := by
    intro a ha
    rcases List.mem_cons.mp ha with rfl | ha
    · exact fun _ => ⟨nofun, nofun⟩
    · rw [List.mem_singleton.mp ha]
      exact fun _ => ⟨nofun, fun _ _ _ _ _ _ hday => absurd hday (by decide)⟩
  exact kept_of_live (Option.some_get afternoon_isSome).symm mem_anaPreparation rfl hspares
    (by decide +kernel)

end MesReunions.Preparations.Records
