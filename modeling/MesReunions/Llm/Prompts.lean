import MesReunions.Base.Template
import MesReunions.Llm.Steps

/-!
# The prompts

`build_prompt` of `mesreunions-web/app/meeting_prep.py` fills the template of a preparation, and
`_run_llm_rewrite` of `meeting_intelligence.py` that of a rewriting, once for each section of the
transcript. Both replace one placeholder after the other, in a text that already holds the values
that came before.

* `briefSubs`, `rewriteSubs` — the values, in the order of the replacements.
* **`prompts_filled`** — the prompts are the templates, filled at once, when no value brings a
  placeholder that is still to come.
* **`document_rewritten`** — a document that names a placeholder.
-/

namespace MesReunions.Llm

open Str

/-! ## The brief -/

/-- The fields of the wizard, and the texts that go with them. -/
structure BriefFields where
  objective : Str
  durationMinutes : Int
  roleViewpoint : Str
  expectation : Str
  focusAreas : List Str
  prepDocsText : Str
  priorMeetingsText : Str
  priorKeyPointsText : Str

/-- `text.strip() or default` -/
def stripOr (text default : Str) : Str := if strip text = [] then default else strip text

/-- `", ".join(a.strip() for a in focus_areas if a and a.strip()) or "(aucun)"` -/
def focusRepr (focusAreas : List Str) : Str :=
  let joined := ", ".toList.intercalate ((focusAreas.map strip).filter (· ≠ []))
  if joined = [] then "(aucun)".toList else joined

/-- The replacements of `build_prompt`, in their order. -/
def briefSubs (f : BriefFields) : List (Str × Str) :=
  [("{OBJECTIVE}".toList, stripOr f.objective "(non précisé)".toList),
   ("{DURATION_MINUTES}".toList, strOfInt f.durationMinutes),
   ("{ROLE_VIEWPOINT}".toList, stripOr f.roleViewpoint "(non précisé)".toList),
   ("{EXPECTATION}".toList, stripOr f.expectation "(non précisée)".toList),
   ("{FOCUS_AREAS}".toList, focusRepr f.focusAreas),
   ("{PREP_DOCS}".toList, stripOr f.prepDocsText "(aucun document fourni)".toList),
   ("{PRIOR_MEETINGS}".toList, stripOr f.priorMeetingsText "(aucun)".toList),
   ("{PRIOR_KEY_POINTS}".toList, stripOr f.priorKeyPointsText "(aucun)".toList)]

/-- `build_prompt(template_text, …)` -/
def buildPrompt (template : Str) (f : BriefFields) : Str := replaceAll (briefSubs f) template

/-! ## The rewriting -/

/-- `extra_subs`: its keys are placeholders, other than that of the transcript. -/
structure ExtraSubs where
  subs : List (Str × Str)
  placeholders : Placeholders (("{TRANSCRIPT}".toList, []) :: subs)

/-- The replacements in the prompt of one section, in their order. -/
def rewriteSubs (extra : ExtraSubs) (section_ : Str) : List (Str × Str) :=
  ("{TRANSCRIPT}".toList, section_) :: extra.subs

/-- The sections that `_run_llm_rewrite` asks about. -/
def rewriteSections (cfg : ChunkConfig) (transcript : Str) : List Str :=
  if isBlank transcript then []
  else if transcript.length ≤ cfg.threshold then [transcript]
  else chunkText cfg transcript

/-- The prompts of `_run_llm_rewrite(transcript, llm, model, prompt_template, …)`. -/
def rewritePrompts (cfg : ChunkConfig) (template transcript : Str) (extra : ExtraSubs) : List Str :=
  (rewriteSections cfg transcript).map fun ch => replaceAll (rewriteSubs extra ch) template

/-! ## Filled at once -/

theorem isPlaceholder_of {p : Str} (name : Str) (hp : p = '{' :: (name ++ ['}']))
    (h : name.all (fun c => c ≠ '{' ∧ c ≠ '}') = true) : IsPlaceholder p := by
  refine ⟨name, hp, fun hmem => ?_, fun hmem => ?_⟩
  · have := List.all_eq_true.mp h _ hmem
    simp at this
  · have := List.all_eq_true.mp h _ hmem
    simp at this

/-- The placeholders of a list are those of another one with the same keys. -/
theorem Placeholders.of_keys {subs subs' : List (Str × Str)} (h : Placeholders subs)
    (hkeys : subs'.map (·.1) = subs.map (·.1)) : Placeholders subs' where
  shape q hq := by
    have hmem : q.1 ∈ subs.map (·.1) := hkeys ▸ List.mem_map_of_mem hq
    obtain ⟨q', hq', heq⟩ := List.mem_map.mp hmem
    exact heq ▸ h.shape q' hq'
  nodup := hkeys ▸ h.nodup

theorem placeholders_rewriteSubs (extra : ExtraSubs) (section_ : Str) :
    Placeholders (rewriteSubs extra section_) := Placeholders.of_keys extra.placeholders rfl

theorem placeholders_briefSubs (f : BriefFields) : Placeholders (briefSubs f) where
  shape := by
    intro q hq
    simp only [briefSubs, List.mem_cons, List.not_mem_nil, or_false] at hq
    rcases hq with rfl | rfl | rfl | rfl | rfl | rfl | rfl | rfl
    · exact isPlaceholder_of "OBJECTIVE".toList rfl (by decide)
    · exact isPlaceholder_of "DURATION_MINUTES".toList rfl (by decide)
    · exact isPlaceholder_of "ROLE_VIEWPOINT".toList rfl (by decide)
    · exact isPlaceholder_of "EXPECTATION".toList rfl (by decide)
    · exact isPlaceholder_of "FOCUS_AREAS".toList rfl (by decide)
    · exact isPlaceholder_of "PREP_DOCS".toList rfl (by decide)
    · exact isPlaceholder_of "PRIOR_MEETINGS".toList rfl (by decide)
    · exact isPlaceholder_of "PRIOR_KEY_POINTS".toList rfl (by decide)
  nodup := by
    simp only [briefSubs, List.map_cons, List.map_nil]
    decide

/-- **The prompts are filled at once**, when no value brings a placeholder that is still to
come. -/
theorem prompts_filled (template : Str) :
    (∀ f : BriefFields, NoneBrought (briefSubs f) template →
      buildPrompt template f = fill (briefSubs f) template) ∧
    ∀ (cfg : ChunkConfig) (transcript : Str) (extra : ExtraSubs),
      (∀ ch ∈ rewriteSections cfg transcript, NoneBrought (rewriteSubs extra ch) template) →
        rewritePrompts cfg template transcript extra =
          (rewriteSections cfg transcript).map fun ch => fill (rewriteSubs extra ch) template := by
  constructor
  · intro f hnone
    exact replaceAll_eq_fill (placeholders_briefSubs f) hnone
  · intro cfg transcript extra hnone
    refine List.map_congr_left fun ch hch => ?_
    exact replaceAll_eq_fill (placeholders_rewriteSubs extra ch) (hnone ch hch)

/-! ## A document -/

/-- The fields of a brief whose documents are `docs`. -/
def docsOnly (docs : Str) : BriefFields := ⟨[], 60, [], [], [], docs, [], []⟩

def docsTemplate : Str := "Docs : {PREP_DOCS} CR : {PRIOR_MEETINGS}".toList

instance (subs : List (Str × Str)) (template : Str) : Decidable (NoneBrought subs template) :=
  inferInstanceAs (Decidable (∀ k (_ : k < subs.length), _ = _))

/-- A note without braces. -/
theorem note_filled : buildPrompt docsTemplate (docsOnly "Note".toList) =
    fill (briefSubs (docsOnly "Note".toList)) docsTemplate :=
  (prompts_filled docsTemplate).1 _ (by decide +kernel)

/-- **A document that names a placeholder** loses the name. -/
theorem document_rewritten : ¬ ∀ template : Str,
    (∀ f : BriefFields, buildPrompt template f = fill (briefSubs f) template) ∧
    ∀ (cfg : ChunkConfig) (transcript : Str) (extra : ExtraSubs),
      rewritePrompts cfg template transcript extra =
        (rewriteSections cfg transcript).map fun ch => fill (rewriteSubs extra ch) template := by
  intro h
  exact absurd ((h "{PREP_DOCS}".toList).1 (docsOnly "{PRIOR_MEETINGS}".toList))
    (by decide +kernel)

end MesReunions.Llm
