import MesReunions.Base.Fields

/-!
# The report of a meeting

`meeting_analysis_to_markdown` of `transcript_formats.py`: the analysis that a language model wrote,
section by section.

* `renderParticipant`, `renderTheme`, `renderDecision`, `renderPlain` — one item.
* `Shaped`, `HasText` — the items that they accept, and those that they show.
* `Faithful` — what a report should be.
* **`report_iff`** — it is exactly when every item is accepted and every section shows one.
* **`role_alone`** — a participant without a name.
-/

namespace MesReunions.Formats

open Str Json

/-- `str` of a float, and `str.lower`. -/
structure Texts where
  strOfFloat : PyFloat → Str
  lower : Str → Str

/-- `" — "` -/
def dash : Str := [' ', '—', ' ']

/-! ## A value as one line -/

mutual

/-- `_stringify(value)` -/
def stringify (u : Texts) : Json → Str
  | .str s => strip s
  | .null => []
  | .bool b => if b then "True".toList else "False".toList
  | .int n => strOfInt n
  | .float x => u.strOfFloat x
  | .obj fields => dash.intercalate (fieldTexts u fields)
  | .list items => [',', ' '].intercalate (itemTexts u items)

/-- The values of a dict that say something. -/
def fieldTexts (u : Texts) : List (Str × Json) → List Str
  | [] => []
  | (_, v) :: fields =>
      let sv := stringify u v
      if sv ≠ [] ∧ u.lower sv ≠ "none".toList ∧ u.lower sv ≠ "null".toList then
        sv :: fieldTexts u fields
      else fieldTexts u fields

/-- The items of a list that say something. -/
def itemTexts (u : Texts) : List Json → List Str
  | [] => []
  | v :: items =>
      if stringify u v ≠ [] then stringify u v :: itemTexts u items else itemTexts u items

end

/-! ## The items -/

/-- `(item.get(key) or "").strip()` -/
def field (fields : List (Str × Json)) (key : String) : Option Str :=
  stripOr [] (get? fields key.toList)

/-- `f"{name} ({role})" if name else f"({role})"` -/
def withRole (name role : Str) : Str :=
  if name ≠ [] then name ++ [' ', '('] ++ role ++ [')'] else ['('] ++ role ++ [')']

/-- `_render_participant(item)`: `parts[-1]` raises when there is no name. -/
def renderParticipant (u : Texts) : Json → Option Str
  | .str s => some (strip s)
  | .obj fields => do
      let name ← field fields "name"
      let role ← field fields "role"
      let context ← field fields "context"
      let parts := if name ≠ [] then [name] else []
      let parts ←
        if role ≠ [] then
          if parts = [] then none else some (parts.dropLast ++ [withRole name role])
        else some parts
      let parts := if context ≠ [] then parts ++ [context] else parts
      some (dash.intercalate (parts.filter (· ≠ [])))
  | item => some (stringify u item)

/-- `_render_theme(item)` -/
def renderTheme (u : Texts) : Json → Option Str
  | .str s => some (strip s)
  | .obj fields => do
      let title ← field fields "title"
      let summary ← field fields "summary"
      if title ≠ [] ∧ summary ≠ [] then
        some (['*', '*'] ++ title ++ ['*', '*'] ++ dash ++ summary)
      else if title ≠ [] then some title
      else if summary ≠ [] then some summary
      else some (stringify u (.obj fields))
  | item => some (stringify u item)

/-- `item.get("item") or item.get("summary") or item.get("title")` -/
def firstOf (fields : List (Str × Json)) : Option Json :=
  if (get? fields "item".toList).any truthy then get? fields "item".toList
  else if (get? fields "summary".toList).any truthy then get? fields "summary".toList
  else get? fields "title".toList

/-- `_render_decision(item)` -/
def renderDecision (u : Texts) : Json → Option Str
  | .str s => some (strip s)
  | .obj fields => do
      let text ← stripOr [] (firstOf fields)
      let owner ← field fields "owner"
      let due ← field fields "due"
      let suffix := (if owner ≠ [] then [['👤', ' '] ++ owner] else []) ++
        (if due ≠ [] then [['⏰', ' '] ++ due] else [])
      if suffix ≠ [] ∧ text ≠ [] then
        some (text ++ [' ', '('] ++ [',', ' '].intercalate suffix ++ [')'])
      else if text ≠ [] then some text
      else some (stringify u (.obj fields))
  | item => some (stringify u item)

/-- A key of the item that holds a text. -/
def plainText? (fields : List (Str × Json)) : Option Str :=
  ["item", "summary", "title", "name"].findSome? fun k =>
    match get? fields k.toList with
    | some (.str s) => if strip s ≠ [] then some (strip s) else none
    | _ => none

/-- `_render_plain(item)` -/
def renderPlain (u : Texts) : Json → Option Str
  | .str s => some (strip s)
  | .obj fields => some ((plainText? fields).getD (stringify u (.obj fields)))
  | item => some (stringify u item)

/-! ## The sections -/

/-- `_SECTION_RENDERERS` -/
inductive Renderer where
  | participant
  | theme
  | decision
  | plain
  deriving DecidableEq

def Renderer.render (u : Texts) : Renderer → Json → Option Str
  | participant => renderParticipant u
  | theme => renderTheme u
  | decision => renderDecision u
  | plain => renderPlain u

structure Section where
  key : Str
  title : Str
  renderer : Renderer

def actors : Str := "actors".toList

/-- `_SECTION_TITLES`, with the renderer of each. -/
def sectionTitles : List Section :=
  [⟨"participants_presents".toList, "Participants présents".toList, .participant⟩,
    ⟨"participants_cites".toList, "Personnes citées".toList, .participant⟩,
    ⟨actors, "Acteurs présents".toList, .participant⟩,
    ⟨"themes".toList, "Thématiques abordées".toList, .theme⟩,
    ⟨"decisions".toList, "Décisions et points en action".toList, .decision⟩,
    ⟨"gaps".toList, "Sujets non abordés".toList, .plain⟩,
    ⟨"recommendations".toList, "Recommandations".toList, .plain⟩]

/-- `has_new_participants` -/
def hasNewParticipants (fields : List (Str × Json)) : Bool :=
  (get? fields "participants_presents".toList).any truthy ||
    (get? fields "participants_cites".toList).any truthy

/-- The sections that are recognised: `actors` only when the two keys that replace it are
empty. -/
def recognised (fields : List (Str × Json)) : List Section :=
  sectionTitles.filter fun s => !(s.key == actors && hasNewParticipants fields)

/-- The recognised sections that are not empty. -/
def present (fields : List (Str × Json)) : List (Section × Json) :=
  (recognised fields).filterMap fun s =>
    match get? fields s.key with
    | some items => if items.truthy then some (s, items) else none
    | none => none

/-- A section as it is written. -/
structure Rendered where
  title : Str
  lines : List Str

def Rendered.print (r : Rendered) : Str :=
  ['\n', '#', '#', ' '] ++ r.title ++ ['\n'] ++ r.lines.flatten

/-- The lines under a heading. -/
def sectionLines (u : Texts) (renderer : Renderer) (items : Json) : Option (List Str) :=
  match items with
  | .list items => do
      let lines ← items.mapM (renderer.render u)
      some ((lines.filter (· ≠ [])).map fun line => ['-', ' '] ++ line ++ ['\n'])
  | item => do
      let line ← renderer.render u item
      some (if line ≠ [] then [line ++ ['\n']] else [])

/-- The loop over the sections. -/
def rendered (u : Texts) (fields : List (Str × Json)) : Option (List Rendered) :=
  (present fields).mapM fun s =>
    (sectionLines u s.1.renderer s.2).map fun lines => ⟨s.1.title, lines⟩

/-- What a text is read as: `json.loads`, or `none` for a `ValueError`. -/
abbrev Loads := Str → Option Json

/-- `meeting_analysis_to_markdown(analysis)`, or `none` when it raises. -/
def meetingAnalysisToMarkdown (u : Texts) (loads : Loads) (analysis : Json) : Option Str :=
  let render (analysis : Json) : Option Str :=
    match analysis with
    | .obj fields => do
        let sections ← rendered u fields
        some (rstrip (sections.flatMap Rendered.print) ++ ['\n'])
    | _ => some []
  match analysis with
  | .str s =>
      match loads s with
      | some analysis => render analysis
      | none => some s
  | analysis => render analysis

/-! ## What a report should be -/

/-- The dict that the analysis is, or that its text holds. -/
def dict? (loads : Loads) : Json → Option (List (Str × Json))
  | .obj fields => some fields
  | .str s =>
      match loads s with
      | some (.obj fields) => some fields
      | _ => none
  | _ => none

/-- The strings of a section. -/
def stringItems : Json → List Str
  | .str s => [s]
  | .list items => items.filterMap fun
      | .str s => some s
      | _ => none
  | _ => []

/-- It is a text; a section that has a heading has a line; and the strings of the sections are in
the text. -/
structure Reported (u : Texts) (fields : List (Str × Json)) (text : Str) : Prop where
  headings : ∀ sections, rendered u fields = some sections → ∀ r ∈ sections, r.lines ≠ []
  strings : ∀ s ∈ recognised fields, ∀ items, get? fields s.key = some items →
    ∀ x ∈ stringItems items, strip x ≠ [] → strip x <:+: text

def Faithful (u : Texts) (loads : Loads) (analysis : Json) : Prop :=
  ∃ text, meetingAnalysisToMarkdown u loads analysis = some text ∧
    ∀ fields, dict? loads analysis = some fields → Reported u fields text

/-! ## The shape of an item -/

/-- The items of a section. -/
def itemsOf : Json → List Json
  | .list items => items
  | item => [item]

/-- The fields that are read are texts, and who has a role has a name. -/
def Renderer.Shaped (renderer : Renderer) (item : Json) : Prop :=
  match renderer, item with
  | participant, .obj fields =>
      isText (get? fields "name".toList) = true ∧ isText (get? fields "role".toList) = true ∧
        isText (get? fields "context".toList) = true ∧
        (textOr [] (get? fields "role".toList) ≠ [] → textOr [] (get? fields "name".toList) ≠ [])
  | theme, .obj fields =>
      isText (get? fields "title".toList) = true ∧ isText (get? fields "summary".toList) = true
  | decision, .obj fields =>
      isText (firstOf fields) = true ∧ isText (get? fields "owner".toList) = true ∧
        isText (get? fields "due".toList) = true
  | _, _ => True

/-- There is something to show. -/
def Renderer.HasText (u : Texts) (renderer : Renderer) (item : Json) : Prop :=
  match renderer, item with
  | _, .str s => strip s ≠ []
  | participant, .obj fields =>
      textOr [] (get? fields "name".toList) ≠ [] ∨ textOr [] (get? fields "context".toList) ≠ []
  | theme, .obj fields =>
      textOr [] (get? fields "title".toList) ≠ [] ∨
        textOr [] (get? fields "summary".toList) ≠ [] ∨ stringify u (.obj fields) ≠ []
  | decision, .obj fields =>
      textOr [] (firstOf fields) ≠ [] ∨ stringify u (.obj fields) ≠ []
  | plain, .obj fields => (plainText? fields).isSome ∨ stringify u (.obj fields) ≠ []
  | _, item => stringify u item ≠ []

instance (renderer : Renderer) (item : Json) : Decidable (renderer.Shaped item) := by
  cases renderer <;> cases item <;> unfold Renderer.Shaped <;> infer_instance

instance (u : Texts) (renderer : Renderer) (item : Json) :
    Decidable (renderer.HasText u item) := by
  cases renderer <;> cases item <;> unfold Renderer.HasText <;> infer_instance

/-- The sections that are there are accepted, and each of them shows an item. -/
def Proper (u : Texts) (fields : List (Str × Json)) : Prop :=
  ∀ s ∈ present fields, (∀ item ∈ itemsOf s.2, s.1.renderer.Shaped item) ∧
    ∃ item ∈ itemsOf s.2, s.1.renderer.HasText u item

/-! ## One item -/

/-- The line of an item that is accepted. -/
def Renderer.line (u : Texts) (renderer : Renderer) (item : Json) : Str :=
  (renderer.render u item).getD []

/-- What is shown of a person. -/
def personLine (name role context : Str) : Str :=
  dash.intercalate (((if name ≠ [] then [if role ≠ [] then withRole name role else name]
    else []) ++ if context ≠ [] then [context] else []).filter (· ≠ []))

theorem withRole_ne_nil (name role : Str) : withRole name role ≠ [] := by
  rw [withRole]
  split <;> simp

theorem personLine_ne_nil {name role context : Str} :
    personLine name role context ≠ [] ↔ name ≠ [] ∨ context ≠ [] := by
  have hrole := withRole_ne_nil name role
  by_cases hn : name = []
  · by_cases hc : context = [] <;> simp [personLine, hn, hc]
  · by_cases hr : role = [] <;> by_cases hc : context = [] <;>
      simp [personLine, hn, hr, hc, hrole]

/-- **A person.** -/
theorem renderParticipant_obj (u : Texts) (fields : List (Str × Json)) :
    renderParticipant u (.obj fields) =
      if Renderer.participant.Shaped (.obj fields) then
        some (personLine (textOr [] (get? fields "name".toList))
          (textOr [] (get? fields "role".toList)) (textOr [] (get? fields "context".toList)))
      else none := by
  have hshaped : Renderer.participant.Shaped (.obj fields) ↔
      isText (get? fields "name".toList) = true ∧ isText (get? fields "role".toList) = true ∧
        isText (get? fields "context".toList) = true ∧
        (textOr [] (get? fields "role".toList) ≠ [] →
          textOr [] (get? fields "name".toList) ≠ []) := Iff.rfl
  simp only [renderParticipant, field, Option.bind_eq_bind, stripOr_bind]
  by_cases h₁ : isText (get? fields "name".toList) = true
  swap
  · rw [if_neg h₁, if_neg fun h => h₁ (hshaped.mp h).1]
  by_cases h₂ : isText (get? fields "role".toList) = true
  swap
  · rw [if_pos h₁, if_neg h₂, if_neg fun h => h₂ (hshaped.mp h).2.1]
  by_cases h₃ : isText (get? fields "context".toList) = true
  swap
  · rw [if_pos h₁, if_pos h₂, if_neg h₃, if_neg fun h => h₃ (hshaped.mp h).2.2.1]
  rw [if_pos h₁, if_pos h₂, if_pos h₃]
  generalize textOr [] (get? fields "name".toList) = name at hshaped ⊢
  generalize textOr [] (get? fields "role".toList) = role at hshaped ⊢
  generalize textOr [] (get? fields "context".toList) = context
  by_cases hname : role ≠ [] → name ≠ []
  · rw [if_pos (hshaped.mpr ⟨h₁, h₂, h₃, hname⟩)]
    by_cases hn : name = []
    · have hr : role = [] := by
        by_contra hr
        exact hname hr hn
      simp [personLine, hn, hr]
    · have hrole := withRole_ne_nil name role
      by_cases hr : role = [] <;> by_cases hc : context = [] <;>
        simp [personLine, hn, hr, hc, hrole]
  · rw [if_neg fun h => hname (hshaped.mp h).2.2.2]
    simp only [Classical.not_imp, ne_eq, not_not] at hname
    simp [hname.1, hname.2]

/-- **What is accepted.** -/
theorem render_eq (u : Texts) (renderer : Renderer) (item : Json) :
    renderer.render u item =
      if renderer.Shaped item then some (renderer.line u item) else none := by
  refine eq_ite_of_isSome ?_ []
  cases renderer with
  | participant =>
      cases item with
      | obj fields =>
          rw [show Renderer.participant.render u (.obj fields) =
            renderParticipant u (.obj fields) from rfl, renderParticipant_obj]
          split <;> simp_all
      | _ => simp [Renderer.render, renderParticipant, Renderer.Shaped]
  | theme =>
      cases item with
      | obj fields =>
          simp only [Renderer.render, renderTheme, field, Option.bind_eq_bind, stripOr_bind,
            Renderer.Shaped]
          by_cases h₁ : isText (get? fields "title".toList) = true
          swap
          · rw [if_neg h₁]
            exact ⟨fun h => (Bool.false_ne_true h).elim, fun h => absurd h.1 h₁⟩
          by_cases h₂ : isText (get? fields "summary".toList) = true
          swap
          · rw [if_pos h₁, if_neg h₂]
            exact ⟨fun h => (Bool.false_ne_true h).elim, fun h => absurd h.2 h₂⟩
          rw [if_pos h₁, if_pos h₂]
          exact ⟨fun _ => ⟨h₁, h₂⟩, fun _ => by split_ifs <;> rfl⟩
      | _ => simp [Renderer.render, renderTheme, Renderer.Shaped]
  | decision =>
      cases item with
      | obj fields =>
          simp only [Renderer.render, renderDecision, field, Option.bind_eq_bind, stripOr_bind,
            Renderer.Shaped]
          by_cases h₁ : isText (firstOf fields) = true
          swap
          · rw [if_neg h₁]
            exact ⟨fun h => (Bool.false_ne_true h).elim, fun h => absurd h.1 h₁⟩
          by_cases h₂ : isText (get? fields "owner".toList) = true
          swap
          · rw [if_pos h₁, if_neg h₂]
            exact ⟨fun h => (Bool.false_ne_true h).elim, fun h => absurd h.2.1 h₂⟩
          by_cases h₃ : isText (get? fields "due".toList) = true
          swap
          · rw [if_pos h₁, if_pos h₂, if_neg h₃]
            exact ⟨fun h => (Bool.false_ne_true h).elim, fun h => absurd h.2.2 h₃⟩
          rw [if_pos h₁, if_pos h₂, if_pos h₃]
          refine ⟨fun _ => ⟨h₁, h₂, h₃⟩, fun _ => ?_⟩
          generalize textOr [] (firstOf fields) = text
          generalize (if textOr [] (get? fields "owner".toList) ≠ [] then _ else _) = owner
          generalize (if textOr [] (get? fields "due".toList) ≠ [] then _ else _) = due
          split_ifs <;> rfl
      | _ => simp [Renderer.render, renderDecision, Renderer.Shaped]
  | plain =>
      cases item <;> simp [Renderer.render, renderPlain, Renderer.Shaped]

/-- **What is shown.** -/
theorem line_ne_nil {u : Texts} {renderer : Renderer} {item : Json}
    (h : renderer.Shaped item) : renderer.line u item ≠ [] ↔ renderer.HasText u item := by
  cases renderer with
  | participant =>
      cases item with
      | obj fields =>
          rw [Renderer.line, show Renderer.participant.render u (.obj fields) =
            renderParticipant u (.obj fields) from rfl, renderParticipant_obj, if_pos h]
          exact personLine_ne_nil
      | _ => exact Iff.rfl
  | theme =>
      cases item with
      | obj fields =>
          obtain ⟨h₁, h₂⟩ := h
          simp only [Renderer.line, Renderer.render, renderTheme, field, Option.bind_eq_bind,
            stripOr_bind, Renderer.HasText]
          rw [if_pos h₁, if_pos h₂]
          generalize textOr [] (get? fields "title".toList) = title
          generalize textOr [] (get? fields "summary".toList) = summary
          by_cases ht : title = [] <;> by_cases hs : summary = [] <;> simp [ht, hs]
      | _ => exact Iff.rfl
  | decision =>
      cases item with
      | obj fields =>
          obtain ⟨h₁, h₂, h₃⟩ := h
          simp only [Renderer.line, Renderer.render, renderDecision, field,
            Option.bind_eq_bind, stripOr_bind, Renderer.HasText]
          rw [if_pos h₁, if_pos h₂, if_pos h₃]
          generalize textOr [] (firstOf fields) = text
          generalize (if textOr [] (get? fields "owner".toList) ≠ [] then _ else _) = owner
          generalize (if textOr [] (get? fields "due".toList) ≠ [] then _ else _) = due
          by_cases ht : text = []
          · simp [ht]
          · by_cases hs : owner ++ due = [] <;> simp [ht, hs]
      | _ => exact Iff.rfl
  | plain =>
      cases item with
      | obj fields =>
          simp only [Renderer.line, Renderer.render, renderPlain, Renderer.HasText,
            Option.getD_some]
          cases htext : plainText? fields with
          | none => simp
          | some x =>
              obtain ⟨k, -, hk⟩ := List.exists_of_findSome?_eq_some htext
              have hx : x ≠ [] := by
                split at hk
                · split at hk
                  · rename_i hne
                    injection hk with hk
                    rwa [← hk]
                  · cases hk
                · cases hk
              simp [hx]
      | _ => exact Iff.rfl

/-! ## The sections that are written -/

/-- The lines under the heading of a section that is accepted. -/
def shownLines (u : Texts) (renderer : Renderer) (items : Json) : List Str :=
  match items with
  | .list items => ((items.map (renderer.line u)).filter (· ≠ [])).map fun line =>
      ['-', ' '] ++ line ++ ['\n']
  | item => if renderer.line u item ≠ [] then [renderer.line u item ++ ['\n']] else []

theorem sectionLines_eq (u : Texts) (renderer : Renderer) (items : Json) :
    sectionLines u renderer items =
      if ∀ item ∈ itemsOf items, renderer.Shaped item then some (shownLines u renderer items)
      else none := by
  have hone : ∀ item : Json, (renderer.render u item).bind (fun line =>
      some (if line ≠ [] then [line ++ ['\n']] else [])) =
      if ∀ x ∈ [item], renderer.Shaped x then
        some (if renderer.line u item ≠ [] then [renderer.line u item ++ ['\n']] else [])
      else none := by
    intro item
    rw [render_eq]
    by_cases h : renderer.Shaped item
    · rw [if_pos h, if_pos (by simpa using h)]
      rfl
    · rw [if_neg h, if_neg (by simpa using h)]
      rfl
  cases items with
  | list items =>
      have hloop := mapM_guarded (render_eq u renderer) items
      simp only [sectionLines, Option.bind_eq_bind, hloop]
      by_cases h : ∀ item ∈ itemsOf (.list items), renderer.Shaped item
      · rw [if_pos h, if_pos (show ∀ item ∈ items, renderer.Shaped item from h)]
        rfl
      · rw [if_neg h, if_neg (show ¬ ∀ item ∈ items, renderer.Shaped item from h)]
        rfl
  | _ => exact hone _

/-- A section shows something when one of its items does. -/
theorem shownLines_ne_nil {u : Texts} {renderer : Renderer} {items : Json}
    (h : ∀ item ∈ itemsOf items, renderer.Shaped item) :
    shownLines u renderer items ≠ [] ↔ ∃ item ∈ itemsOf items, renderer.HasText u item := by
  have hone : ∀ item : Json, renderer.Shaped item →
      ((if renderer.line u item ≠ [] then [renderer.line u item ++ ['\n']] else []) ≠ [] ↔
        ∃ x ∈ [item], renderer.HasText u x) := by
    intro item hitem
    have hline := line_ne_nil (u := u) hitem
    by_cases hne : renderer.line u item ≠ []
    · rw [if_pos hne]
      exact ⟨fun _ => ⟨item, List.mem_singleton_self _, hline.mp hne⟩, fun _ => by simp⟩
    · rw [if_neg hne]
      refine ⟨fun h => absurd rfl h, fun ⟨x, hx, htext⟩ => ?_⟩
      rw [List.mem_singleton.mp hx] at htext
      exact absurd (hline.mpr htext) hne
  cases items with
  | list items =>
      simp only [shownLines, ne_eq, List.map_eq_nil_iff, List.filter_eq_nil_iff, List.mem_map,
        itemsOf]
      constructor
      · intro hsome
        by_contra hnone
        refine hsome ?_
        rintro line ⟨item, hitem, rfl⟩
        have hblank : ¬ renderer.line u item ≠ [] := fun hline =>
          hnone ⟨item, hitem, (line_ne_nil (h item hitem)).mp hline⟩
        simpa using hblank
      · rintro ⟨item, hitem, htext⟩ hnone
        have hline := (line_ne_nil (h item hitem)).mpr htext
        exact hnone _ ⟨item, hitem, rfl⟩ (by simpa using hline)
  | _ => exact hone _ (h _ (List.mem_singleton_self _))

theorem line_str (u : Texts) (renderer : Renderer) (s : Str) :
    renderer.line u (.str s) = strip s := by
  cases renderer <;> rfl

/-- The strings of a section are in its lines. -/
theorem strip_infix_shownLines (u : Texts) (renderer : Renderer) {items : Json} {x : Str}
    (hx : x ∈ stringItems items) (hne : strip x ≠ []) :
    ∃ line ∈ shownLines u renderer items, strip x <:+: line := by
  cases items with
  | str s =>
      cases List.mem_singleton.mp hx
      refine ⟨strip x ++ ['\n'], ?_, [], ['\n'], rfl⟩
      simp [shownLines, line_str, hne]
  | list items =>
      obtain ⟨item, hitem, hsome⟩ := List.mem_filterMap.mp hx
      cases item with
      | str s =>
          cases hsome
          refine ⟨['-', ' '] ++ strip x ++ ['\n'], ?_, ['-', ' '], ['\n'], rfl⟩
          refine List.mem_map_of_mem (List.mem_filter.mpr ⟨?_, by simpa using hne⟩)
          exact List.mem_map.mpr ⟨.str x, hitem, line_str u renderer x⟩
      | _ => cases hsome
  | _ => cases hx

theorem truthy_of_stringItems {items : Json} {x : Str} (hx : x ∈ stringItems items)
    (hne : strip x ≠ []) : items.truthy = true := by
  cases items with
  | str s =>
      cases List.mem_singleton.mp hx
      have hs : x ≠ [] := by
        rintro rfl
        exact hne strip_nil
      simpa [truthy] using hs
  | list items =>
      obtain ⟨item, hitem, -⟩ := List.mem_filterMap.mp hx
      cases items with
      | nil => cases hitem
      | cons _ _ => rfl
  | _ => cases hx

theorem mem_present {fields : List (Str × Json)} {s : Section} {items : Json} :
    (s, items) ∈ present fields ↔
      s ∈ recognised fields ∧ get? fields s.key = some items ∧ items.truthy = true := by
  rw [present, List.mem_filterMap]
  constructor
  · rintro ⟨t, ht, hsome⟩
    split at hsome
    · rename_i v hv
      split at hsome
      · rename_i htruthy
        cases hsome
        exact ⟨ht, hv, htruthy⟩
      · cases hsome
    · cases hsome
  · rintro ⟨hs, hget, htruthy⟩
    exact ⟨s, hs, by rw [hget]; exact if_pos htruthy⟩

/-- The sections that are written when all are accepted. -/
def written (u : Texts) (fields : List (Str × Json)) : List Rendered :=
  (present fields).map fun s => ⟨s.1.title, shownLines u s.1.renderer s.2⟩

/-- **The sections.** -/
theorem rendered_eq (u : Texts) (fields : List (Str × Json)) :
    rendered u fields =
      if ∀ s ∈ present fields, ∀ item ∈ itemsOf s.2, s.1.renderer.Shaped item then
        some (written u fields)
      else none := by
  refine mapM_guarded (fun s => ?_) _
  rw [sectionLines_eq]
  split <;> rfl

/-! ## The report -/

theorem infix_rstrip {x t : Str} (h : x <:+: t) (hx : rstrip x = x) (hne : x ≠ []) :
    x <:+: rstrip t := by
  obtain ⟨a, b, rfl⟩ := h
  have hax : rstrip (a ++ x) = a ++ x := by rw [rstrip_append (by rwa [hx]), hx]
  rw [rstrip_append_of_rstrip hax]
  exact ⟨a, rstrip b, rfl⟩

theorem meetingAnalysis_of_dict {u : Texts} {loads : Loads} {analysis : Json}
    {fields : List (Str × Json)} (h : dict? loads analysis = some fields) :
    meetingAnalysisToMarkdown u loads analysis = (rendered u fields).map fun sections =>
      rstrip (sections.flatMap Rendered.print) ++ ['\n'] := by
  have hmap : ∀ o : Option (List Rendered), (o.bind fun sections =>
      some (rstrip (sections.flatMap Rendered.print) ++ ['\n'])) = o.map fun sections =>
        rstrip (sections.flatMap Rendered.print) ++ ['\n'] := fun o => by cases o <;> rfl
  cases analysis with
  | obj fields' =>
      cases h
      exact hmap _
  | str s =>
      simp only [dict?] at h
      split at h
      · rename_i fields' hloads
        cases h
        simp only [meetingAnalysisToMarkdown, hloads]
        exact hmap _
      · cases h
  | _ => cases h

theorem meetingAnalysis_of_no_dict (u : Texts) {loads : Loads} {analysis : Json}
    (h : dict? loads analysis = none) :
    ∃ text, meetingAnalysisToMarkdown u loads analysis = some text := by
  cases analysis with
  | obj fields => cases h
  | str s =>
      simp only [dict?] at h
      simp only [meetingAnalysisToMarkdown]
      cases hloads : loads s with
      | none => exact ⟨s, rfl⟩
      | some v =>
          rw [hloads] at h
          cases v with
          | obj fields => cases h
          | _ => exact ⟨[], rfl⟩
  | _ => exact ⟨[], rfl⟩

/-- What is written of proper sections. -/
theorem reported_of_proper {u : Texts} {fields : List (Str × Json)} (h : Proper u fields) :
    Reported u fields (rstrip ((written u fields).flatMap Rendered.print) ++ ['\n']) := by
  have hrendered := rendered_eq u fields
  rw [if_pos fun s hs => (h s hs).1] at hrendered
  constructor
  · intro sections hsections r hr
    rw [hrendered] at hsections
    cases hsections
    obtain ⟨s, hs, rfl⟩ := List.mem_map.mp hr
    exact (shownLines_ne_nil (h s hs).1).mpr (h s hs).2
  · intro s hs items hget x hx hne
    have hpresent : (s, items) ∈ present fields :=
      mem_present.mpr ⟨hs, hget, truthy_of_stringItems hx hne⟩
    obtain ⟨line, hline, hpart⟩ := strip_infix_shownLines u s.renderer hx hne
    have hprint : strip x <:+: Rendered.print ⟨s.title, shownLines u s.renderer items⟩ :=
      (hpart.trans (List.infix_of_mem_flatten hline)).trans (List.suffix_append _ _).isInfix
    have hwritten : ⟨s.title, shownLines u s.renderer items⟩ ∈ written u fields :=
      List.mem_map.mpr ⟨(s, items), hpresent, rfl⟩
    have hall := hprint.trans (List.infix_of_mem_flatten (List.mem_map_of_mem hwritten))
    exact (infix_rstrip hall (rstrip_strip x) hne).trans (List.prefix_append _ _).isInfix

theorem proper_of_faithful {u : Texts} {loads : Loads} {analysis : Json}
    (h : Faithful u loads analysis) {fields : List (Str × Json)}
    (hdict : dict? loads analysis = some fields) : Proper u fields := by
  obtain ⟨text, htext, hreported⟩ := h
  obtain ⟨hheadings, -⟩ := hreported fields hdict
  rw [meetingAnalysis_of_dict hdict, rendered_eq] at htext
  rw [rendered_eq] at hheadings
  split at htext
  · rename_i hshaped
    rw [if_pos hshaped] at hheadings
    intro s hs
    refine ⟨hshaped s hs, (shownLines_ne_nil (hshaped s hs)).mp ?_⟩
    exact hheadings _ rfl _ (List.mem_map.mpr ⟨s, hs, rfl⟩)
  · cases htext

/-- **The report of an analysis.** It is faithful exactly when every item has the shape that its
section reads, and every section has an item to show. -/
theorem report_iff (u : Texts) (loads : Loads) (analysis : Json) :
    Faithful u loads analysis ↔
      ∀ fields, dict? loads analysis = some fields → Proper u fields := by
  constructor
  · exact fun h fields hdict => proper_of_faithful h hdict
  · intro h
    cases hdict : dict? loads analysis with
    | none =>
        obtain ⟨text, htext⟩ := meetingAnalysis_of_no_dict u hdict
        refine ⟨text, htext, fun fields hfields => ?_⟩
        rw [hdict] at hfields
        cases hfields
    | some fields =>
        have hproper := h fields hdict
        have htext := meetingAnalysis_of_dict (u := u) hdict
        rw [rendered_eq, if_pos fun s hs => (hproper s hs).1] at htext
        refine ⟨_, htext, fun fields' hfields => ?_⟩
        rw [hdict] at hfields
        cases hfields
        exact reported_of_proper hproper

/-- **A role alone.** The only person present has a role and no name. -/
theorem role_alone :
    ¬ Faithful ⟨fun _ => ['1', '.', '0'], fun s => s.map Char.toLower⟩ (fun _ => none)
      (.obj [("participants_presents".toList, .list [.obj [("role".toList, .str ['P', 'M'])]])])
      := by
  intro h
  have hproper := proper_of_faithful h rfl
  have hshaped := (hproper (⟨"participants_presents".toList, "Participants présents".toList,
    .participant⟩, _) (List.mem_cons_self)).1 _ List.mem_cons_self
  exact hshaped.2.2.2 (by decide) (by decide)

end MesReunions.Formats
