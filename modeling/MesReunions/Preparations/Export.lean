import MesReunions.Base.Fields
import MesReunions.Base.Float
import MesReunions.Queue.Retry

/-!
# The exports of a preparation

`exporters.py` of the preparations: `render_docx` and `render_odt` write the same sections, from the
document that the language model returned.

* `sections` — what there is to write.
* `docxLines`, `odtLines` — the paragraphs of a section.
* `Agree` — both exports succeed, and their titles and texts are the same.
* **`exports_agree_iff`** — they do exactly when each field that is read has a type it is read as, and no
  key question has blanks around it.
* **`duration_raises`** — a duration of `"30min"`.
-/

namespace MesReunions.Preparations.Export

open Str Json

/-- A dict. -/
abbrev Fields := List (Str × Json)

/-- A preparation: only `content` and `participants` are documents. -/
structure Prep where
  title : Option Str
  subject : Option Str
  createdAt : Option Str
  role : Option Str
  durationMinutes : Option Int
  participants : Json
  content : Json

/-! ## The header -/

/-- `a or b` -/
def orText (a b : Option Str) : Option Str := if a.getD [] ≠ [] then a else b

/-- `_header_lines(prep)` -/
def headerLines (prep : Prep) : Str × List Str :=
  let title := strip ((orText (orText prep.title prep.subject)
    (some "Préparation de réunion".toList)).getD [])
  let created := ((prep.createdAt.getD []).take 16).map fun c => if c = 'T' then ' ' else c
  let role := strip (prep.role.getD [])
  let dur := prep.durationMinutes.getD 0
  (title, (if created ≠ [] then ["Créé le ".toList ++ created] else []) ++
    (if role ≠ [] then ["Rôle : ".toList ++ role] else []) ++
    if dur ≠ 0 then ["Durée prévue : ".toList ++ strOfInt dur ++ " min".toList] else [])

/-- The paragraphs of the header: the title, and a line of the rest if there is any. -/
def header (prep : Prep) : List Str :=
  let (title, data) := headerLines prep
  title :: if data ≠ [] then [" · ".toList.intercalate data] else []

/-! ## The sections -/

/-- What a section holds. -/
inductive Payload where
  | goal (objective context : Str)
  | agenda (items : List Fields)
  | participants (items : List Fields)
  | threads (items : List Fields)
  | texts (items : List Str)

structure Section where
  title : Str
  payload : Payload

def dict? : Json → Option Fields
  | .obj fields => some fields
  | _ => none

/-- `[it for it in (v or []) if isinstance(it, dict)]` -/
def dictsOr (v : Option Json) : Option (List Fields) := (iterOr v).map (·.filterMap dict?)

/-- The text of a string. -/
def rawText : Json → Str
  | .str s => s
  | _ => []

/-- `[q for q in (v or []) if (q or "").strip()]` -/
def textsOr (v : Option Json) : Option (List Str) := do
  let items ← iterOr v
  let stripped ← items.mapM fun q => stripOr [] (some q)
  some (((items.zip stripped).filter (·.2 ≠ [])).map fun q => rawText q.1)

/-- `prep.get("content") or {}`, of which `get` is called. -/
def contentOf (content : Json) : Option Fields := if content.truthy then dict? content else some []

/-- The section if there is something in it. -/
def sectionIf {α : Type} (title : String) (payload : List α → Payload) (items : List α) :
    List Section :=
  if items.isEmpty then [] else [⟨title.toList, payload items⟩]

/-- `_sections(prep)`; a title comes with its emoji. -/
def sections (prep : Prep) : Option (List Section) := do
  let bj ← contentOf prep.content
  let objective ← stripOr [] (get? bj "objective_reformulated".toList)
  let context ← stripOr [] (get? bj "context_recap".toList)
  let agenda ← dictsOr (get? bj "agenda".toList)
  let participants ← dictsOr (some prep.participants)
  let threads ← dictsOr (get? bj "open_threads".toList)
  let opening ← textsOr (get? bj "opening_questions".toList)
  let risks ← textsOr (get? bj "risk_points".toList)
  let checklist ← textsOr (get? bj "preparation_checklist".toList)
  some ((if objective ≠ [] ∨ context ≠ [] then
      [⟨"🎯  Objectif & contexte".toList, .goal objective context⟩] else []) ++
    (sectionIf "📋  Ordre du jour" .agenda agenda ++
    (sectionIf "👥  Participants" .participants participants ++
    (sectionIf "🧵  Points en suspens" .threads threads ++
    (sectionIf "💬  Questions d'ouverture" .texts opening ++
    (sectionIf "⚠️  Points de vigilance" .texts risks ++
    sectionIf "✅  À faire avant la réunion" .texts checklist))))))

/-! ## The paragraphs -/

/-- A paragraph. `render_odt` writes the bullet of a key question, which `render_docx` leaves to
the style. -/
structure Line where
  mark : Str
  text : Str

/-- `int(v)` -/
def intOf? : Json → Option Int
  | .bool b => some (if b then 1 else 0)
  | .int n => some n
  | .float x => x.toInt.toOption
  | .str s => (Queue.intOfStr s).toOption
  | _ => none

/-- `f" ({int(dur)} min)" if dur else ""` -/
def durStr (item : Fields) : Option Str :=
  match get? item "duration_minutes".toList with
  | some dur =>
      if dur.truthy then
        (intOf? dur).map fun n => [' ', '('] ++ strOfInt n ++ " min)".toList
      else some []
  | none => some []

/-- The title of an item of the agenda, and its objective. -/
def agendaHead (item : Fields) : Option (List Line) := do
  let t ← stripOr "(sans titre)".toList (get? item "title".toList)
  let dur ← durStr item
  let objective ← stripOr [] (get? item "objective".toList)
  some (⟨[], t ++ dur⟩ :: if objective ≠ [] then [⟨[], objective⟩] else [])

/-- The key questions in `render_docx`: those that are not blank, as they are. -/
def docxQuestions (item : Fields) : Option (List Line) := do
  let kqs ← textsOr (get? item "key_questions".toList)
  some (kqs.map fun q => ⟨[], q⟩)

/-- The key questions in `render_odt`, stripped. -/
def odtQuestions (item : Fields) : Option (List Line) := do
  let items ← iterOr (get? item "key_questions".toList)
  let stripped ← items.mapM fun q => stripOr [] (some q)
  some ((stripped.filter (· ≠ [])).map fun q => ⟨['•', ' '], q⟩)

/-- A participant. -/
def participantLine (p : Fields) : Option Line := do
  let name ← stripOr ['—'] (get? p "name".toList)
  let email ← stripOr [] (get? p "email".toList)
  let role ← stripOr [] (get? p "role".toList)
  let note ← stripOr [] (get? p "note".toList)
  let bits := [role, email].filter (· ≠ [])
  some ⟨[], name ++
    (if bits ≠ [] then [' ', '('] ++ " · ".toList.intercalate bits ++ [')'] else []) ++
    if note ≠ [] then " — ".toList ++ note else []⟩

/-- A point that is open; nothing when it is blank. -/
def threadLine (t : Fields) : Option (List Line) := do
  let item ← stripOr [] (get? t "item".toList)
  if item = [] then some []
  else do
    let src ← stripOr [] (get? t "source".toList)
    some [⟨[], item ++ if src ≠ [] then "  (source : ".toList ++ src ++ [')'] else []⟩]

/-- The two paragraphs of the first section. -/
def goalLines (objective context : Str) : List Line :=
  (if objective ≠ [] then [⟨[], objective⟩] else []) ++
    if context ≠ [] then [⟨[], context⟩] else []

/-- The body of the loop of `render_docx`. -/
def docxLines : Payload → Option (List Line)
  | .goal objective context => some (goalLines objective context)
  | .agenda items => (items.mapM fun item => do
      let head ← agendaHead item
      let questions ← docxQuestions item
      some (head ++ questions)).map List.flatten
  | .participants items => items.mapM participantLine
  | .threads items => (items.mapM threadLine).map List.flatten
  | .texts items => some (items.map fun s => ⟨[], s⟩)

/-- The body of the loop of `render_odt`. -/
def odtLines : Payload → Option (List Line)
  | .goal objective context => some (goalLines objective context)
  | .agenda items => (items.mapM fun item => do
      let head ← agendaHead item
      let questions ← odtQuestions item
      some (head ++ questions)).map List.flatten
  | .participants items => items.mapM participantLine
  | .threads items => (items.mapM threadLine).map List.flatten
  | .texts items => some (items.map fun s => ⟨[], s⟩)

/-- What is handed to the library. -/
structure Document where
  header : List Str
  sections : List (Str × List Line)

/-- Both renderers, with the paragraphs of a section. -/
def render (lines : Payload → Option (List Line)) (prep : Prep) : Option Document := do
  let out ← sections prep
  let written ← out.mapM fun s => (lines s.payload).map fun ls => (s.title, ls)
  some ⟨header prep, written⟩

/-- `render_docx(prep)`, or `none` when it raises. -/
def renderDocx (prep : Prep) : Option Document := render docxLines prep

/-- `render_odt(prep)`, or `none` when it raises. -/
def renderOdt (prep : Prep) : Option Document := render odtLines prep

/-- The titles and the texts. -/
def Document.texts (d : Document) : List Str × List (Str × List Str) :=
  (d.header, d.sections.map fun s => (s.1, s.2.map Line.text))

/-- Neither raises, and both write the same titles and texts. -/
def Agree (prep : Prep) : Prop :=
  ∃ docx odt, renderDocx prep = some docx ∧ renderOdt prep = some odt ∧ docx.texts = odt.texts

/-! ## The shape of a document -/

/-- The dicts of a value that is iterated. -/
def dicts (v : Option Json) : List Fields := (elements v).filterMap dict?

/-- A value that is iterated, and whose elements are read as texts. -/
def AreTexts (v : Option Json) : Prop :=
  isIterable v = true ∧ ∀ q ∈ elements v, isText (some q) = true

/-- No string of the value has blanks around it, unless it is all blanks. -/
def Trimmed (v : Option Json) : Prop :=
  ∀ s, Json.str s ∈ elements v → strip s ≠ [] → strip s = s

/-- `int` accepts the duration, if there is one. -/
def durationOk : Option Json → Bool
  | some dur => !dur.truthy || (intOf? dur).isSome
  | none => true

/-- The fields of an item of the agenda. -/
def AgendaShaped (item : Fields) : Prop :=
  (isText (get? item "title".toList) = true ∧
    durationOk (get? item "duration_minutes".toList) = true ∧
    isText (get? item "objective".toList) = true) ∧ AreTexts (get? item "key_questions".toList)

/-- The fields of a participant. -/
def ParticipantShaped (p : Fields) : Prop :=
  isText (get? p "name".toList) = true ∧ isText (get? p "email".toList) = true ∧
    isText (get? p "role".toList) = true ∧ isText (get? p "note".toList) = true

/-- The fields of an open point; the source of a blank one is not read. -/
def ThreadShaped (t : Fields) : Prop :=
  isText (get? t "item".toList) = true ∧
    (textOr [] (get? t "item".toList) ≠ [] → isText (get? t "source".toList) = true)

/-- `prep.get("content") or {}` -/
def body (prep : Prep) : Fields := (dict? prep.content).getD []

/-- **The documents that are exported.** Each field that is read has a type it is read as, and
the key questions have no blanks around them. -/
structure Exportable (prep : Prep) : Prop where
  content : prep.content.truthy = true → prep.content.isObj = true
  goal : isText (get? (body prep) "objective_reformulated".toList) = true ∧
    isText (get? (body prep) "context_recap".toList) = true
  agenda : isIterable (get? (body prep) "agenda".toList) = true ∧
    ∀ item ∈ dicts (get? (body prep) "agenda".toList),
      AgendaShaped item ∧ Trimmed (get? item "key_questions".toList)
  participants : isIterable (some prep.participants) = true ∧
    ∀ p ∈ dicts (some prep.participants), ParticipantShaped p
  threads : isIterable (get? (body prep) "open_threads".toList) = true ∧
    ∀ t ∈ dicts (get? (body prep) "open_threads".toList), ThreadShaped t
  opening : AreTexts (get? (body prep) "opening_questions".toList)
  risks : AreTexts (get? (body prep) "risk_points".toList)
  checklist : AreTexts (get? (body prep) "preparation_checklist".toList)

section Decide

instance (v : Option Json) : Decidable (AreTexts v) := by
  unfold AreTexts
  infer_instance

instance : DecidablePred AgendaShaped := fun item => by
  unfold AgendaShaped
  infer_instance

instance : DecidablePred ParticipantShaped := fun p => by
  unfold ParticipantShaped
  infer_instance

instance : DecidablePred ThreadShaped := fun t => by
  unfold ThreadShaped
  infer_instance

end Decide

/-! ## Lists of texts -/

theorem dictsOr_eq (v : Option Json) :
    dictsOr v = if isIterable v = true then some (dicts v) else none := by
  rw [dictsOr, iterOr_eq]
  split <;> rfl

/-- The elements that are not blank. -/
def kept (v : Option Json) : List Json :=
  (elements v).filter fun q => textOr [] (some q) ≠ []

theorem stripAll_eq (v : Option Json) :
    ((iterOr v).bind fun items => items.mapM fun q => stripOr [] (some q)) =
      if AreTexts v then some ((elements v).map fun q => textOr [] (some q)) else none := by
  rw [iterOr_eq]
  by_cases hiter : isIterable v = true
  · rw [if_pos hiter, Option.bind_some, mapM_guarded (fun q => stripOr_eq [] (some q))]
    by_cases hall : ∀ q ∈ elements v, isText (some q) = true
    · rw [if_pos hall, if_pos ⟨hiter, hall⟩]
    · rw [if_neg hall, if_neg fun h => hall h.2]
  · rw [if_neg hiter, if_neg fun h => hiter h.1]
    rfl

theorem filter_zip_map (f : Json → Str) (g : Json → Str) (xs : List Json) :
    (((xs.zip (xs.map f)).filter (·.2 ≠ [])).map fun q => g q.1) =
      (xs.filter fun q => f q ≠ []).map g := by
  induction xs with
  | nil => rfl
  | cons x xs ih =>
      rw [List.map_cons, List.zip_cons_cons, List.filter_cons, List.filter_cons]
      by_cases hx : f x ≠ []
      · rw [if_pos (by simpa using hx), if_pos (by simpa using hx), List.map_cons,
          List.map_cons, ih]
      · rw [if_neg (by simpa using hx), if_neg (by simpa using hx), ih]

theorem textsOr_eq (v : Option Json) :
    textsOr v = if AreTexts v then some ((kept v).map rawText) else none := by
  have hall := stripAll_eq v
  rw [iterOr_eq] at hall
  rw [textsOr, iterOr_eq]
  by_cases hiter : isIterable v = true
  · rw [if_pos hiter, Option.bind_some] at hall
    rw [if_pos hiter, Option.bind_eq_bind, Option.bind_some, Option.bind_eq_bind, hall]
    by_cases htexts : AreTexts v
    · rw [if_pos htexts, if_pos htexts, Option.bind_some, filter_zip_map]
      rfl
    · rw [if_neg htexts, if_neg htexts]
      rfl
  · rw [if_neg hiter, if_neg fun h => hiter h.1]
    rfl

/-- An element that is kept is a string. -/
theorem str_of_mem_kept {v : Option Json} {q : Json} (h : q ∈ kept v) :
    ∃ s, q = .str s ∧ strip s ≠ [] := by
  obtain ⟨-, hne⟩ := List.mem_filter.mp h
  simp only [decide_eq_true_eq] at hne
  cases q with
  | str s => exact ⟨s, rfl, by rwa [textOr_nil_str] at hne⟩
  | _ => exact absurd strip_nil hne

/-! ## The paragraphs of a section -/

theorem durStr_isSome (item : Fields) :
    (durStr item).isSome = true ↔ durationOk (get? item "duration_minutes".toList) = true := by
  rw [durStr]
  cases get? item "duration_minutes".toList with
  | none => exact Iff.rfl
  | some dur =>
      by_cases h : dur.truthy = true
      · simp [durationOk, h]
      · simp [durationOk, h]

theorem agendaHead_isSome (item : Fields) : (agendaHead item).isSome = true ↔
    isText (get? item "title".toList) = true ∧
      durationOk (get? item "duration_minutes".toList) = true ∧
      isText (get? item "objective".toList) = true := by
  rw [← durStr_isSome]
  simp only [agendaHead, Option.bind_eq_bind, stripOr_bind]
  by_cases h₁ : isText (get? item "title".toList) = true
  swap
  · rw [if_neg h₁]
    exact ⟨fun h => (Bool.false_ne_true h).elim, fun h => absurd h.1 h₁⟩
  rw [if_pos h₁]
  cases hdur : durStr item with
  | none => exact ⟨fun h => (Bool.false_ne_true h).elim, fun h => (Bool.false_ne_true h.2.1).elim⟩
  | some dur =>
      rw [Option.bind_some]
      by_cases h₃ : isText (get? item "objective".toList) = true
      · rw [if_pos h₃]
        exact ⟨fun _ => ⟨h₁, rfl, h₃⟩, fun _ => rfl⟩
      · rw [if_neg h₃]
        exact ⟨fun h => (Bool.false_ne_true h).elim, fun h => absurd h.2.2 h₃⟩

theorem docxQuestions_eq (item : Fields) : docxQuestions item =
    if AreTexts (get? item "key_questions".toList) then
      some ((kept (get? item "key_questions".toList)).map fun q => ⟨[], rawText q⟩)
    else none := by
  rw [docxQuestions, textsOr_eq]
  split
  · rw [Option.bind_eq_bind, Option.bind_some, List.map_map]
    rfl
  · rfl

theorem odtQuestions_eq (item : Fields) : odtQuestions item =
    if AreTexts (get? item "key_questions".toList) then
      some ((kept (get? item "key_questions".toList)).map
        fun q => ⟨['•', ' '], textOr [] (some q)⟩)
    else none := by
  have hall := stripAll_eq (get? item "key_questions".toList)
  rw [odtQuestions]
  simp only [Option.bind_eq_bind]
  rw [← Option.bind_assoc, hall]
  split
  · rw [Option.bind_some, List.filter_map, List.map_map]
    rfl
  · rfl

theorem participantLine_isSome (p : Fields) :
    (participantLine p).isSome = true ↔ ParticipantShaped p := by
  simp only [participantLine, Option.bind_eq_bind, stripOr_bind, ParticipantShaped]
  by_cases h₁ : isText (get? p "name".toList) = true
  swap
  · rw [if_neg h₁]
    exact ⟨fun h => (Bool.false_ne_true h).elim, fun h => absurd h.1 h₁⟩
  by_cases h₂ : isText (get? p "email".toList) = true
  swap
  · rw [if_pos h₁, if_neg h₂]
    exact ⟨fun h => (Bool.false_ne_true h).elim, fun h => absurd h.2.1 h₂⟩
  by_cases h₃ : isText (get? p "role".toList) = true
  swap
  · rw [if_pos h₁, if_pos h₂, if_neg h₃]
    exact ⟨fun h => (Bool.false_ne_true h).elim, fun h => absurd h.2.2.1 h₃⟩
  by_cases h₄ : isText (get? p "note".toList) = true
  swap
  · rw [if_pos h₁, if_pos h₂, if_pos h₃, if_neg h₄]
    exact ⟨fun h => (Bool.false_ne_true h).elim, fun h => absurd h.2.2.2 h₄⟩
  rw [if_pos h₁, if_pos h₂, if_pos h₃, if_pos h₄]
  exact ⟨fun _ => ⟨h₁, h₂, h₃, h₄⟩, fun _ => rfl⟩

theorem threadLine_isSome (t : Fields) : (threadLine t).isSome = true ↔ ThreadShaped t := by
  simp only [threadLine, Option.bind_eq_bind, stripOr_bind, ThreadShaped]
  by_cases h₁ : isText (get? t "item".toList) = true
  swap
  · rw [if_neg h₁]
    exact ⟨fun h => (Bool.false_ne_true h).elim, fun h => absurd h.1 h₁⟩
  rw [if_pos h₁]
  by_cases hblank : textOr [] (get? t "item".toList) = []
  · rw [if_pos hblank]
    exact ⟨fun _ => ⟨h₁, fun h => absurd hblank h⟩, fun _ => rfl⟩
  · rw [if_neg hblank]
    by_cases h₂ : isText (get? t "source".toList) = true
    · rw [if_pos h₂]
      exact ⟨fun _ => ⟨h₁, fun _ => h₂⟩, fun _ => rfl⟩
    · rw [if_neg h₂]
      exact ⟨fun h => (Bool.false_ne_true h).elim, fun h => absurd (h.2 hblank) h₂⟩

/-- What `render_docx` writes of an item of the agenda, and `render_odt`. -/
def docxItem (item : Fields) : List Line :=
  (agendaHead item).getD [] ++
    (kept (get? item "key_questions".toList)).map fun q => ⟨[], rawText q⟩

def odtItem (item : Fields) : List Line :=
  (agendaHead item).getD [] ++
    (kept (get? item "key_questions".toList)).map fun q => ⟨['•', ' '], textOr [] (some q)⟩

/-- An item of the agenda, with either way to write its questions. -/
theorem agendaItem_eq {questions : Fields → Option (List Line)} {lines : Fields → List Line}
    (h : ∀ item, questions item =
      if AreTexts (get? item "key_questions".toList) then some (lines item) else none)
    (item : Fields) :
    ((agendaHead item).bind fun head => (questions item).bind fun qs => some (head ++ qs)) =
      if AgendaShaped item then some ((agendaHead item).getD [] ++ lines item) else none := by
  have hhead := eq_ite_of_isSome (agendaHead_isSome item) []
  rw [h]
  by_cases h₁ : isText (get? item "title".toList) = true ∧
      durationOk (get? item "duration_minutes".toList) = true ∧
      isText (get? item "objective".toList) = true
  · rw [if_pos h₁] at hhead
    rw [hhead, Option.bind_some, Option.getD_some]
    by_cases h₂ : AreTexts (get? item "key_questions".toList)
    · rw [if_pos h₂, if_pos (show AgendaShaped item from ⟨h₁, h₂⟩)]
      rfl
    · rw [if_neg h₂, if_neg fun hs : AgendaShaped item => h₂ hs.2]
      rfl
  · rw [if_neg h₁] at hhead
    rw [hhead, if_neg fun hs : AgendaShaped item => h₁ hs.1]
    rfl

/-- The paragraphs of a participant and of an open point that are accepted. -/
def participantText (p : Fields) : Line := (participantLine p).getD ⟨[], []⟩

def threadText (t : Fields) : List Line := (threadLine t).getD []

/-- The types of a section. -/
def Payload.Shaped : Payload → Prop
  | .agenda items => ∀ item ∈ items, AgendaShaped item
  | .participants items => ∀ p ∈ items, ParticipantShaped p
  | .threads items => ∀ t ∈ items, ThreadShaped t
  | .goal _ _ | .texts _ => True

instance : DecidablePred Payload.Shaped := fun p => by
  cases p <;> unfold Payload.Shaped <;> infer_instance

/-- No key question of the section has blanks around it. -/
def Payload.Trim : Payload → Prop
  | .agenda items => ∀ item ∈ items, Trimmed (get? item "key_questions".toList)
  | _ => True

/-- The paragraphs of a section that is accepted, with either way to write an item. -/
def Payload.lines (ofItem : Fields → List Line) : Payload → List Line
  | .goal objective context => goalLines objective context
  | .agenda items => (items.map ofItem).flatten
  | .participants items => items.map participantText
  | .threads items => (items.map threadText).flatten
  | .texts items => items.map fun s => ⟨[], s⟩

theorem participants_eq (items : List Fields) : items.mapM participantLine =
    if ∀ p ∈ items, ParticipantShaped p then some (items.map participantText) else none :=
  mapM_guarded (fun p => eq_ite_of_isSome (participantLine_isSome p) _) items

theorem threads_eq (items : List Fields) : (items.mapM threadLine).map List.flatten =
    if ∀ t ∈ items, ThreadShaped t then some (items.map threadText).flatten else none := by
  rw [mapM_guarded (fun t => eq_ite_of_isSome (threadLine_isSome t) [])]
  split <;> rfl

theorem docxLines_eq (p : Payload) :
    docxLines p = if p.Shaped then some (p.lines docxItem) else none := by
  cases p with
  | goal objective context => rfl
  | texts items => rfl
  | participants items => exact participants_eq items
  | threads items => exact threads_eq items
  | agenda items =>
      simp only [docxLines, Option.bind_eq_bind]
      rw [mapM_guarded (agendaItem_eq docxQuestions_eq)]
      by_cases h : Payload.Shaped (.agenda items)
      · rw [if_pos h, if_pos (show ∀ item ∈ items, AgendaShaped item from h)]
        rfl
      · rw [if_neg h, if_neg (show ¬ ∀ item ∈ items, AgendaShaped item from h)]
        rfl

theorem odtLines_eq (p : Payload) :
    odtLines p = if p.Shaped then some (p.lines odtItem) else none := by
  cases p with
  | goal objective context => rfl
  | texts items => rfl
  | participants items => exact participants_eq items
  | threads items => exact threads_eq items
  | agenda items =>
      simp only [odtLines, Option.bind_eq_bind]
      rw [mapM_guarded (agendaItem_eq odtQuestions_eq)]
      by_cases h : Payload.Shaped (.agenda items)
      · rw [if_pos h, if_pos (show ∀ item ∈ items, AgendaShaped item from h)]
        rfl
      · rw [if_neg h, if_neg (show ¬ ∀ item ∈ items, AgendaShaped item from h)]
        rfl

/-! ## The two texts of a section -/

theorem flatMap_eq_iff {α β : Type*} {f g : α → List β}
    (h : ∀ x, (f x).length = (g x).length) (xs : List α) :
    xs.flatMap f = xs.flatMap g ↔ ∀ x ∈ xs, f x = g x := by
  induction xs with
  | nil => simp
  | cons x xs ih =>
      rw [List.flatMap_cons, List.flatMap_cons, List.forall_mem_cons, ← ih]
      exact ⟨fun heq => List.append_inj heq (h x), fun ⟨hx, hxs⟩ => by rw [hx, hxs]⟩

/-- The key questions are the same text when they have no blanks around them. -/
theorem questions_eq_iff (v : Option Json) :
    (kept v).map rawText = (kept v).map (fun q => textOr [] (some q)) ↔ Trimmed v := by
  rw [List.map_inj_left]
  constructor
  · intro h s hs hne
    have hmem : Json.str s ∈ kept v :=
      List.mem_filter.mpr ⟨hs, by simpa [textOr_nil_str] using hne⟩
    have heq := h _ hmem
    rw [textOr_nil_str] at heq
    exact heq.symm
  · intro h q hq
    obtain ⟨s, rfl, hne⟩ := str_of_mem_kept hq
    rw [textOr_nil_str]
    exact (h s (List.mem_filter.mp hq).1 hne).symm

theorem item_texts (item : Fields) :
    (docxItem item).map Line.text = (odtItem item).map Line.text ↔
      Trimmed (get? item "key_questions".toList) := by
  rw [docxItem, odtItem, List.map_append, List.map_append, List.append_cancel_left_eq,
    List.map_map, List.map_map]
  exact questions_eq_iff _

theorem payload_texts (p : Payload) :
    (p.lines docxItem).map Line.text = (p.lines odtItem).map Line.text ↔ p.Trim := by
  cases p with
  | agenda items =>
      have hflat : ∀ f : Fields → List Line, ((items.map f).flatten).map Line.text =
          items.flatMap fun item => (f item).map Line.text := by
        intro f
        rw [List.map_flatten, List.map_map, List.flatMap_def]
        rfl
      simp only [Payload.lines, hflat]
      rw [flatMap_eq_iff (fun item => by simp [docxItem, odtItem])]
      exact forall₂_congr fun item _ => item_texts item
  | _ => exact ⟨fun _ => trivial, fun _ => rfl⟩

/-! ## The sections of a document -/

/-- The types of what `_sections` reads. -/
def SectionsShaped (prep : Prep) : Prop :=
  (prep.content.truthy = true → prep.content.isObj = true) ∧
    isText (get? (body prep) "objective_reformulated".toList) = true ∧
    isText (get? (body prep) "context_recap".toList) = true ∧
    isIterable (get? (body prep) "agenda".toList) = true ∧
    isIterable (some prep.participants) = true ∧
    isIterable (get? (body prep) "open_threads".toList) = true ∧
    AreTexts (get? (body prep) "opening_questions".toList) ∧
    AreTexts (get? (body prep) "risk_points".toList) ∧
    AreTexts (get? (body prep) "preparation_checklist".toList)

instance : DecidablePred SectionsShaped := fun prep => by
  unfold SectionsShaped
  infer_instance

/-- The sections of a document that is accepted. -/
def sectionList (prep : Prep) : List Section :=
  let objective := textOr [] (get? (body prep) "objective_reformulated".toList)
  let context := textOr [] (get? (body prep) "context_recap".toList)
  (if objective ≠ [] ∨ context ≠ [] then
      [⟨"🎯  Objectif & contexte".toList, .goal objective context⟩] else []) ++
    (sectionIf "📋  Ordre du jour" .agenda (dicts (get? (body prep) "agenda".toList)) ++
    (sectionIf "👥  Participants" .participants (dicts (some prep.participants)) ++
    (sectionIf "🧵  Points en suspens" .threads
      (dicts (get? (body prep) "open_threads".toList)) ++
    (sectionIf "💬  Questions d'ouverture" .texts
      ((kept (get? (body prep) "opening_questions".toList)).map rawText) ++
    (sectionIf "⚠️  Points de vigilance" .texts
      ((kept (get? (body prep) "risk_points".toList)).map rawText) ++
    sectionIf "✅  À faire avant la réunion" .texts
      ((kept (get? (body prep) "preparation_checklist".toList)).map rawText))))))

theorem contentOf_eq (content : Json) : contentOf content =
    if content.truthy = true → content.isObj = true then some ((dict? content).getD [])
    else none := by
  cases content with
  | obj fields => cases fields <;> rfl
  | null => rfl
  | bool b => cases b <;> rfl
  | int n => by_cases h : n = 0 <;> simp [contentOf, truthy, isObj, dict?, h]
  | float x =>
      cases x with
      | fin q => by_cases h : q = 0 <;> simp [contentOf, truthy, isObj, dict?, h]
      | inf _ => rfl
      | nan => rfl
  | str s => by_cases h : s = [] <;> simp [contentOf, truthy, isObj, dict?, h]
  | list items => cases items <;> rfl

theorem sections_eq (prep : Prep) :
    sections prep = if SectionsShaped prep then some (sectionList prep) else none := by
  have hshaped : SectionsShaped prep ↔ _ := Iff.rfl
  simp only [sections, Option.bind_eq_bind, contentOf_eq, stripOr_bind, dictsOr_eq, textsOr_eq]
  by_cases h₀ : prep.content.truthy = true → prep.content.isObj = true
  swap
  · rw [if_neg h₀, if_neg fun h => h₀ (hshaped.mp h).1]
    rfl
  rw [if_pos h₀, Option.bind_some, show (dict? prep.content).getD [] = body prep from rfl]
  by_cases h₁ : isText (get? (body prep) "objective_reformulated".toList) = true
  swap
  · rw [if_neg h₁, if_neg fun h => h₁ (hshaped.mp h).2.1]
  by_cases h₂ : isText (get? (body prep) "context_recap".toList) = true
  swap
  · rw [if_pos h₁, if_neg h₂, if_neg fun h => h₂ (hshaped.mp h).2.2.1]
  by_cases h₃ : isIterable (get? (body prep) "agenda".toList) = true
  swap
  · rw [if_pos h₁, if_pos h₂, if_neg h₃, if_neg fun h => h₃ (hshaped.mp h).2.2.2.1]
    rfl
  by_cases h₄ : isIterable (some prep.participants) = true
  swap
  · rw [if_pos h₁, if_pos h₂, if_pos h₃, if_neg h₄,
      if_neg fun h => h₄ (hshaped.mp h).2.2.2.2.1]
    rfl
  by_cases h₅ : isIterable (get? (body prep) "open_threads".toList) = true
  swap
  · rw [if_pos h₁, if_pos h₂, if_pos h₃, if_pos h₄, if_neg h₅,
      if_neg fun h => h₅ (hshaped.mp h).2.2.2.2.2.1]
    rfl
  by_cases h₆ : AreTexts (get? (body prep) "opening_questions".toList)
  swap
  · rw [if_pos h₁, if_pos h₂, if_pos h₃, if_pos h₄, if_pos h₅, if_neg h₆,
      if_neg fun h => h₆ (hshaped.mp h).2.2.2.2.2.2.1]
    rfl
  by_cases h₇ : AreTexts (get? (body prep) "risk_points".toList)
  swap
  · rw [if_pos h₁, if_pos h₂, if_pos h₃, if_pos h₄, if_pos h₅, if_pos h₆, if_neg h₇,
      if_neg fun h => h₇ (hshaped.mp h).2.2.2.2.2.2.2.1]
    rfl
  by_cases h₈ : AreTexts (get? (body prep) "preparation_checklist".toList)
  · rw [if_pos h₁, if_pos h₂, if_pos h₃, if_pos h₄, if_pos h₅, if_pos h₆, if_pos h₇,
      if_pos h₈, if_pos (hshaped.mpr ⟨h₀, h₁, h₂, h₃, h₄, h₅, h₆, h₇, h₈⟩)]
    rfl
  · rw [if_pos h₁, if_pos h₂, if_pos h₃, if_pos h₄, if_pos h₅, if_pos h₆, if_pos h₇,
      if_neg h₈, if_neg fun h => h₈ (hshaped.mp h).2.2.2.2.2.2.2.2]
    rfl

/-! ## The documents -/

/-- A renderer, with either way to write an item of the agenda. -/
theorem render_eq {lines : Payload → Option (List Line)} {ofItem : Fields → List Line}
    (h : ∀ p, lines p = if p.Shaped then some (p.lines ofItem) else none) (prep : Prep) :
    render lines prep =
      if SectionsShaped prep ∧ ∀ s ∈ sectionList prep, s.payload.Shaped then
        some ⟨header prep, (sectionList prep).map fun s => (s.title, s.payload.lines ofItem)⟩
      else none := by
  have hbody : ∀ s : Section, ((lines s.payload).map fun ls => (s.title, ls)) =
      if s.payload.Shaped then some (s.title, s.payload.lines ofItem) else none := by
    intro s
    rw [h]
    split <;> rfl
  have hloop := mapM_guarded hbody (sectionList prep)
  simp only [render, Option.bind_eq_bind, sections_eq]
  by_cases hshaped : SectionsShaped prep
  · rw [if_pos hshaped, Option.bind_some, hloop]
    by_cases hall : ∀ s ∈ sectionList prep, s.payload.Shaped
    · rw [if_pos hall, if_pos ⟨hshaped, hall⟩]
      rfl
    · rw [if_neg hall, if_neg fun hand => hall hand.2]
      rfl
  · rw [if_neg hshaped, if_neg fun hand => hshaped hand.1]
    rfl

theorem agree_sections (prep : Prep) : Agree prep ↔
    SectionsShaped prep ∧ ∀ s ∈ sectionList prep, s.payload.Shaped ∧ s.payload.Trim := by
  rw [Agree, renderDocx, renderOdt, render_eq docxLines_eq, render_eq odtLines_eq]
  by_cases hall : SectionsShaped prep ∧ ∀ s ∈ sectionList prep, s.payload.Shaped
  · rw [if_pos hall, if_pos hall]
    have htexts : Document.texts ⟨header prep,
          (sectionList prep).map fun s => (s.title, s.payload.lines docxItem)⟩ =
        Document.texts ⟨header prep,
          (sectionList prep).map fun s => (s.title, s.payload.lines odtItem)⟩ ↔
        ∀ s ∈ sectionList prep, s.payload.Trim := by
      simp only [Document.texts, Prod.mk.injEq, true_and, List.map_map, List.map_inj_left,
        Function.comp_apply]
      exact forall₂_congr fun s _ => payload_texts s.payload
    constructor
    · rintro ⟨docx, odt, hdocx, hodt, heq⟩
      cases hdocx
      cases hodt
      exact ⟨hall.1, fun s hs => ⟨hall.2 s hs, htexts.mp heq s hs⟩⟩
    · exact fun h => ⟨_, _, rfl, rfl, htexts.mpr fun s hs => (h.2 s hs).2⟩
  · rw [if_neg hall]
    constructor
    · rintro ⟨docx, odt, hdocx, -⟩
      cases hdocx
    · exact fun h => absurd ⟨h.1, fun s hs => (h.2 s hs).1⟩ hall

/-- What holds of all sections holds of the items of each. -/
theorem forall_sectionIf {α : Type} (title : String) {payload : List α → Payload}
    {items : List α} {P : Payload → Prop} {Q : α → Prop}
    (h : P (payload items) ↔ ∀ x ∈ items, Q x) :
    (∀ s ∈ sectionIf title payload items, P s.payload) ↔ ∀ x ∈ items, Q x := by
  cases items with
  | nil => simp [sectionIf]
  | cons x xs => simp only [sectionIf, List.isEmpty_cons, Bool.false_eq_true, if_false,
      List.forall_mem_singleton, h]

/-- **The two exports agree** exactly on the documents that are exported. -/
theorem exports_agree_iff (prep : Prep) : Agree prep ↔ Exportable prep := by
  have hall : (∀ s ∈ sectionList prep, s.payload.Shaped ∧ s.payload.Trim) ↔
      (∀ item ∈ dicts (get? (body prep) "agenda".toList),
        AgendaShaped item ∧ Trimmed (get? item "key_questions".toList)) ∧
      (∀ p ∈ dicts (some prep.participants), ParticipantShaped p) ∧
      ∀ t ∈ dicts (get? (body prep) "open_threads".toList), ThreadShaped t := by
    have htexts : ∀ (title : String) (items : List Str),
        ∀ s ∈ sectionIf title Payload.texts items, s.payload.Shaped ∧ s.payload.Trim := by
      intro title items s hs
      rw [sectionIf] at hs
      split at hs
      · cases hs
      · rw [List.mem_singleton.mp hs]
        exact ⟨trivial, trivial⟩
    have hgoal : ∀ (c : Prop) [Decidable c] (objective context : Str), ∀ s ∈
        (if c then [(⟨"🎯  Objectif & contexte".toList, .goal objective context⟩ : Section)]
          else []), s.payload.Shaped ∧ s.payload.Trim := by
      intro c _ objective context s hs
      split at hs
      · rw [List.mem_singleton.mp hs]
        exact ⟨trivial, trivial⟩
      · cases hs
    have hagenda : ∀ items : List Fields, Payload.Shaped (.agenda items) ∧
        Payload.Trim (.agenda items) ↔ ∀ item ∈ items,
          AgendaShaped item ∧ Trimmed (get? item "key_questions".toList) := fun items =>
      forall₂_and.symm
    have hparticipants : ∀ items : List Fields, Payload.Shaped (.participants items) ∧
        Payload.Trim (.participants items) ↔ ∀ p ∈ items, ParticipantShaped p := fun items =>
      and_iff_left trivial
    have hthreads : ∀ items : List Fields, Payload.Shaped (.threads items) ∧
        Payload.Trim (.threads items) ↔ ∀ t ∈ items, ThreadShaped t := fun items =>
      and_iff_left trivial
    have hshown : ∀ {α : Type} (title : String) {payload : List α → Payload} {items : List α}
        {Q : α → Prop}, (Payload.Shaped (payload items) ∧ Payload.Trim (payload items) ↔
          ∀ x ∈ items, Q x) → ((∀ s ∈ sectionIf title payload items,
            s.payload.Shaped ∧ s.payload.Trim) ↔ ∀ x ∈ items, Q x) := fun title _ _ _ h =>
      forall_sectionIf (P := fun p : Payload => p.Shaped ∧ p.Trim) title h
    simp only [sectionList, List.forall_mem_append]
    rw [hshown _ (hagenda _), hshown _ (hparticipants _), hshown _ (hthreads _)]
    exact ⟨fun h => ⟨h.2.1, h.2.2.1, h.2.2.2.1⟩, fun h => ⟨hgoal _ _ _, h.1, h.2.1, h.2.2,
      htexts _ _, htexts _ _, htexts _ _⟩⟩
  rw [agree_sections, hall]
  constructor
  · rintro ⟨⟨h₀, h₁, h₂, h₃, h₄, h₅, h₆, h₇, h₈⟩, hagenda, hparticipants, hthreads⟩
    exact ⟨h₀, ⟨h₁, h₂⟩, ⟨h₃, hagenda⟩, ⟨h₄, hparticipants⟩, ⟨h₅, hthreads⟩, h₆, h₇, h₈⟩
  · rintro ⟨h₀, ⟨h₁, h₂⟩, ⟨h₃, hagenda⟩, ⟨h₄, hparticipants⟩, ⟨h₅, hthreads⟩, h₆, h₇, h₈⟩
    exact ⟨⟨h₀, h₁, h₂, h₃, h₄, h₅, h₆, h₇, h₈⟩, hagenda, hparticipants, hthreads⟩

/-- **A duration that is no number.** -/
theorem duration_raises :
    let prep : Prep := ⟨some ['P'], none, none, none, some 60, .null, .obj [("agenda".toList,
      .list [.obj [("title".toList, .str "Roadmap".toList),
        ("duration_minutes".toList, .str "30min".toList)]])]⟩
    renderDocx prep = none ∧ renderOdt prep = none ∧ ¬ Agree prep := by
  intro prep
  have hdocx : renderDocx prep = none := by decide +kernel
  have hodt : renderOdt prep = none := by decide +kernel
  refine ⟨hdocx, hodt, ?_⟩
  rintro ⟨docx, odt, h, -⟩
  rw [hdocx] at h
  cases h

end MesReunions.Preparations.Export
