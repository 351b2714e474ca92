import MesReunions.Base.Json
import MesReunions.Base.Replace
import MesReunions.Base.Lines
import MesReunions.Llm.Retry

/-!
# The steps of the chain

The functions of `meeting_intelligence.py` that the post-transcription chain calls, each as it is
written there, and each an instance of `Step`: it asks once, or once for every chunk of a long
transcript, and turns an `LLMError` into `None` or into the raw text of the chunk.

* A reply is that of `llm.chat`, whatever the prompt; `Reply.json` is what `llm.chat_json` makes
  of it.
* `runLlmRewrite` — `glossary_correction`, `oob_cleaning` and `reformulation`.
* **`runLlmRewrite_eq`**, `suggestMetadata_eq`, `analyseMeeting_eq`, `summariseForAbsentee_eq` —
  the functions are attempts of their `Step`.
-/

namespace MesReunions.Llm

open Str

/-! ## The two calls of the client -/

/-- `chat_json`: `loads` is `json.loads`, where text that is no JSON is an `LLMApplicativeError`
and the rest of what it raises goes through. -/
def Reply.json (loads : Str → Reply Json) : Reply Str → Reply Json
  | .answer raw => loads raw
  | .error e => .error e
  | .raised name => .raised name

/-- A call under `except LLMError: return None` -/
def askOnce {β : Type} (calls : Calls β) : Attempt β := fun made => ((calls made).caught, made + 1)

/-- `not text.strip()` -/
def isBlank (text : Str) : Bool := (strip text).isEmpty

theorem isBlank_iff {text : Str} : isBlank text = true ↔ strip text = [] := List.isEmpty_iff

/-- A step that asks once. -/
def Step.once {β α : Type} (asks : Bool) (make : β → Except Str (Option α)) (blank : α → Bool)
    (usable : β → Bool)
    (h : ∀ b, usable b = true → ∃ a, make b = .ok (some a) ∧ blank a = false) : Step β α where
  sections := if asks then 1 else 0
  make := fun
    | [some b] => make b
    | _ => .ok none
  blank := blank
  usable := usable
  make_usable := by
    rintro rs hlength husable ⟨b, hb⟩
    cases asks with
    | false => exact absurd (List.length_pos_of_mem hb) (by simp [hlength])
    | true =>
        obtain ⟨r, rfl⟩ := List.length_eq_one_iff.mp hlength
        cases List.mem_singleton.mp hb
        exact h b (husable b hb)
  make_errors := by
    intro rs hlength hnone
    split
    · exact absurd (hnone _ (List.mem_singleton_self _)) (by simp)
    · rfl

theorem Step.once_attempt {β α : Type} {make : β → Except Str (Option α)} {blank : α → Bool}
    {usable : β → Bool} {h : ∀ b, usable b = true → ∃ a, make b = .ok (some a) ∧ blank a = false}
    {calls : Calls β} {made : Nat} :
    (Step.once true make blank usable h).attempt calls made =
      (match (calls made).caught with
        | .error name => .error name
        | .ok none => .ok none
        | .ok (some b) => make b, made + 1) := by
  rw [Step.attempt]
  simp only [Step.once, if_true, ask]
  cases (calls made).caught with
  | error name => rfl
  | ok r => cases r <;> rfl

/-- A step that does not ask. -/
theorem Step.once_silent {β α : Type} {make : β → Except Str (Option α)} {blank : α → Bool}
    {usable : β → Bool} {h : ∀ b, usable b = true → ∃ a, make b = .ok (some a) ∧ blank a = false}
    {calls : Calls β} : (Step.once false make blank usable h).attempt calls =
      fun made => (.ok none, made) := rfl

/-! ## Rewriting -/

/-- `LLM_REWRITE_CHUNK_THRESHOLD`, `_SIZE` and `_OVERLAP` -/
structure ChunkConfig where
  threshold : Nat
  size : Nat
  overlap : Nat

/-- `text.rfind(sep, lo, hi)` -/
def rfind (text sep : Str) (lo hi : Nat) : Int :=
  match (List.range' lo (hi + 1 - lo)).reverse.find? fun i =>
      i + sep.length ≤ hi && sep.isPrefixOf (text.drop i) with
  | some i => i
  | none => -1

/-- The separators near which a chunk may end. -/
def chunkSeparators : List Str := ["\n\n".toList, ". ".toList, "? ".toList, "! ".toList, ['\n']]

/-- Where the chunk that starts at `pos` ends. -/
def chunkEnd (cfg : ChunkConfig) (text : Str) (pos : Nat) : Nat :=
  let stop := min (pos + cfg.size) text.length
  if stop < text.length then
    let windowStart := max (pos + cfg.size - 2000) (pos + 1)
    let best := chunkSeparators.foldl (fun best sep =>
      let idx := rfind text sep windowStart stop
      if best < idx then idx + sep.length else best) (-1)
    if (pos : Int) < best then best.toNat else stop
  else stop

/-- The loop of `_chunk_text`. -/
def chunksFrom (cfg : ChunkConfig) (text : Str) (pos : Nat) : List Str :=
  if pos < text.length then
    let stop := chunkEnd cfg text pos
    let chunk := (text.drop pos).take (stop - pos)
    if text.length ≤ stop then [chunk]
    else chunk :: chunksFrom cfg text (max (stop - cfg.overlap) (pos + 1))
  else []
termination_by text.length - pos
decreasing_by
  have := Nat.le_max_right (stop - cfg.overlap) (pos + 1)
  omega

/-- `_chunk_text(text)` -/
def chunkText (cfg : ChunkConfig) (text : Str) : List Str :=
  if text.length ≤ cfg.size then [text] else chunksFrom cfg text 0

/-- The loop over the chunks: `out_parts` and `any_success`. -/
def rewriteChunks (calls : Calls Str) :
    (chunks : List Str) → (made : Nat) → Except Str (List Str × Bool) × Nat
  | [], made => (.ok ([], false), made)
  | ch :: chunks, made =>
      match calls made with
      | .raised name => (.error name, made + 1)
      | .answer out =>
          let rest := rewriteChunks calls chunks (made + 1)
          (rest.1.map fun parts => ((if out = [] then ch else out) :: parts.1, true), rest.2)
      | .error _ =>
          let rest := rewriteChunks calls chunks (made + 1)
          (rest.1.map fun parts => (ch :: parts.1, parts.2), rest.2)

/-- `_run_llm_rewrite(transcript, llm, …)` -/
def runLlmRewrite (cfg : ChunkConfig) (transcript : Str) (calls : Calls Str) : Attempt Str :=
  fun made =>
    if isBlank transcript then (.ok none, made)
    else if transcript.length ≤ cfg.threshold then askOnce calls made
    else
      let asked := rewriteChunks calls (chunkText cfg transcript) made
      (asked.1.map fun parts =>
        if parts.2 then some ("\n\n".toList.intercalate parts.1) else none, asked.2)

/-- What stands for a chunk: `out or ch`, and `ch` when the call failed. -/
def partOf (ch : Str) : Option Str → Str
  | none => ch
  | some out => if out = [] then ch else out

/-- The answers put together. -/
def joinParts (chunks : List Str) (rs : List (Option Str)) : Option Str :=
  if rs.any Option.isSome then
    some ("\n\n".toList.intercalate (List.zipWith partOf chunks rs))
  else none

theorem rewriteChunks_eq {calls : Calls Str} : ∀ {chunks : List Str} {made : Nat},
    rewriteChunks calls chunks made =
      ((ask calls chunks.length made).1.map
        fun rs => (List.zipWith partOf chunks rs, rs.any Option.isSome),
        (ask calls chunks.length made).2) := by
  intro chunks
  induction chunks with
  | nil => exact fun {_} => rfl
  | cons ch chunks ih =>
      intro made
      rw [rewriteChunks]
      cases hcall : calls made with
      | raised name => simp [ask, hcall, Reply.caught, Except.map]
      | answer out =>
          simp only [List.length_cons, ask, hcall, Reply.caught, ih]
          cases (ask calls chunks.length (made + 1)).1 <;>
            simp [Except.map, partOf]
      | error e =>
          simp only [List.length_cons, ask, hcall, Reply.caught, ih]
          cases (ask calls chunks.length (made + 1)).1 <;>
            simp [Except.map, partOf]

theorem isBlank_eq_false_iff {text : Str} :
    isBlank text = false ↔ ∃ c ∈ text, isSpace c = false := by
  rw [← Bool.not_eq_true, isBlank_iff]
  constructor
  · intro h
    obtain ⟨c, rest, hc⟩ := List.exists_cons_of_ne_nil h
    have hhead : (lstrip (strip text)).head? = some c := by rw [lstrip_strip, hc]; rfl
    exact ⟨c, mem_of_mem_strip (hc ▸ List.mem_cons_self), lstrip_head_not hhead⟩
  · rintro ⟨c, hmem, hc⟩ h
    have hstrip := (mem_strip_iff hc).mpr hmem
    rw [h] at hstrip
    cases hstrip

/-- What is joined is not blank when a part is not. -/
theorem isBlank_intercalate {sep : Str} {parts : List Str} {part : Str} (hmem : part ∈ parts)
    (h : isBlank part = false) : isBlank (sep.intercalate parts) = false := by
  obtain ⟨c, hc, hspace⟩ := isBlank_eq_false_iff.mp h
  refine isBlank_eq_false_iff.mpr ⟨c, ?_, hspace⟩
  induction parts with
  | nil => cases hmem
  | cons first parts ih =>
      by_cases hnil : parts = []
      · subst hnil
        cases List.mem_singleton.mp hmem
        simpa [List.intercalate] using hc
      · rw [List.intercalate_cons_of_ne_nil hnil]
        rcases List.mem_cons.mp hmem with rfl | hmem
        · simp [hc]
        · simp [ih hmem]

/-- A long transcript, in chunks. -/
def chunkedStep (chunks : List Str) : Step Str Str where
  sections := chunks.length
  make rs := .ok (joinParts chunks rs)
  blank := isBlank
  usable out := !isBlank out
  make_usable := by
    rintro rs hlength husable ⟨b, hb⟩
    refine ⟨_, by rw [joinParts, if_pos (List.any_eq_true.mpr ⟨some b, hb, rfl⟩)], ?_⟩
    obtain ⟨i, hi, hib⟩ := List.getElem_of_mem hb
    have hblank : isBlank b = false := by simpa using husable b hb
    have hpart : partOf chunks[i] (some b) = b := by
      rw [partOf, if_neg]
      rintro rfl
      cases hblank
    refine isBlank_intercalate ?_ hblank
    rw [List.mem_iff_getElem]
    exact ⟨i, by simp; omega, by rw [List.getElem_zipWith, hib, hpart]⟩
  make_errors := by
    intro rs _ hnone
    rw [joinParts, if_neg]
    simp only [List.any_eq_true, not_exists, not_and]
    intro r hr
    simp [hnone r hr]

/-- The rewriting of a transcript. -/
def rewriteStep (cfg : ChunkConfig) (transcript : Str) : Step Str Str :=
  if isBlank transcript || decide (transcript.length ≤ cfg.threshold) then
    Step.once (!isBlank transcript) (fun out => .ok (some out)) isBlank (fun out => !isBlank out)
      fun out h => ⟨out, rfl, by simpa using h⟩
  else chunkedStep (chunkText cfg transcript)

theorem rewriteStep_blank {cfg : ChunkConfig} {transcript : Str} :
    (rewriteStep cfg transcript).blank = isBlank := by
  rw [rewriteStep]
  split <;> rfl

/-- **Rewriting** is an attempt of its step. -/
theorem runLlmRewrite_eq {cfg : ChunkConfig} {transcript : Str} {calls : Calls Str} :
    runLlmRewrite cfg transcript calls = (rewriteStep cfg transcript).attempt calls := by
  funext made
  rw [runLlmRewrite, rewriteStep]
  cases hblank : isBlank transcript with
  | true => rfl
  | false =>
      by_cases hshort : transcript.length ≤ cfg.threshold
      · rw [if_neg (by simp), if_pos hshort, if_pos (by simp [hshort]), Bool.not_false,
          Step.once_attempt, askOnce]
        cases (calls made).caught with
        | error name => rfl
        | ok r => cases r <;> rfl
      · rw [if_neg (by simp), if_neg hshort, if_neg (by simp [hshort]), Step.attempt,
          rewriteChunks_eq]
        simp only [chunkedStep]
        cases (ask calls (chunkText cfg transcript).length made).1 <;> rfl

/-- `clean_oob` -/
def cleanOob (cfg : ChunkConfig) (transcript : Str) (calls : Calls Str) : Attempt Str :=
  runLlmRewrite cfg transcript calls

/-- `reformulate` -/
def reformulate (cfg : ChunkConfig) (transcript : Str) (calls : Calls Str) : Attempt Str :=
  runLlmRewrite cfg transcript calls

/-! ## The glossary -/

/-- `text.split()` -/
def split (text : Str) : List Str := (text.splitOnP isSpace).filter (· ≠ [])

/-- `re.sub(r"\s+", " ", text)` -/
def collapse (text : Str) : Str :=
  (text.splitBy fun a b => isSpace a && isSpace b).flatMap fun run =>
    if run.all isSpace then [' '] else run

/-- `str.lower`, and what `\w` matches. -/
structure Unicode where
  lower : Str → Str
  isWord : Char → Bool

/-- `[A-Za-zÀ-ÖØ-öø-ÿ]` -/
def isLetter (c : Char) : Bool :=
  let n := c.toNat
  (0x41 ≤ n && n ≤ 0x5A) || (0x61 ≤ n && n ≤ 0x7A) || (0xC0 ≤ n && n ≤ 0xD6) ||
    (0xD8 ≤ n && n ≤ 0xF6) || (0xF8 ≤ n && n ≤ 0xFF)

/-- The score of a term, from the normalised transcript and its words. -/
def score (u : Unicode) (normCompact : Str) (words : List Str) (term : Str) : Nat :=
  let letters := term.filter isLetter
  (if contains (u.lower term) normCompact ||
      contains (u.lower letters) (normCompact.filter (· ≠ ' ')) then 10 else 0) +
    (if letters.all fun letter => words.contains (u.lower [letter]) then 5 else 0) +
    (if 2 ≤ letters.length && contains (u.lower (letters.take 2)) normCompact then 1 else 0)

/-- `filter_relevant(terms, transcript, max_terms)` -/
def filterRelevant (u : Unicode) (terms : List Str) (transcript : Str) (maxTerms : Nat) :
    List Str :=
  if terms = [] ∨ transcript = [] then []
  else
    let norm := (u.lower transcript).map fun c =>
      if u.isWord c || isSpace c || c = '\'' then c else ' '
    let normCompact := collapse norm
    let words := split normCompact
    let candidates := terms.filterMap fun term =>
      if (term.filter isLetter).isEmpty then none
      else
        let points := score u normCompact words term
        if 0 < points then some (points, term) else none
    let best := candidates.mergeSort fun a b => b.1 < a.1 || (a.1 == b.1 && decide (a.2 ≤ b.2))
    ((best.take maxTerms).map (·.2)).dedup.mergeSort fun a b => decide (a ≤ b)

/-- `apply_glossary_correction` -/
def applyGlossaryCorrection (u : Unicode) (cfg : ChunkConfig) (transcript : Str)
    (glossaryTerms : List Str) (maxTerms : Nat) (calls : Calls Str) : Attempt Str := fun made =>
  if isBlank transcript || glossaryTerms.isEmpty then (.ok none, made)
  else if (filterRelevant u glossaryTerms transcript maxTerms).isEmpty then (.ok none, made)
  else runLlmRewrite cfg transcript calls made

/-- The correction, when a term of the glossary is relevant. -/
def glossaryStep (u : Unicode) (cfg : ChunkConfig) (transcript : Str) (glossaryTerms : List Str)
    (maxTerms : Nat) : Step Str Str :=
  if (filterRelevant u glossaryTerms transcript maxTerms).isEmpty then
    Step.once false (fun out => .ok (some out)) isBlank (fun out => !isBlank out)
      fun out h => ⟨out, rfl, by simpa using h⟩
  else rewriteStep cfg transcript

theorem glossaryStep_blank {u : Unicode} {cfg : ChunkConfig} {transcript : Str}
    {glossaryTerms : List Str} {maxTerms : Nat} :
    (glossaryStep u cfg transcript glossaryTerms maxTerms).blank = isBlank := by
  rw [glossaryStep]
  split
  · rfl
  · exact rewriteStep_blank

theorem applyGlossaryCorrection_eq {u : Unicode} {cfg : ChunkConfig} {transcript : Str}
    {glossaryTerms : List Str} {maxTerms : Nat} {calls : Calls Str} :
    applyGlossaryCorrection u cfg transcript glossaryTerms maxTerms calls =
      (glossaryStep u cfg transcript glossaryTerms maxTerms).attempt calls := by
  funext made
  rw [applyGlossaryCorrection, glossaryStep]
  by_cases hrelevant : (filterRelevant u glossaryTerms transcript maxTerms).isEmpty = true
  · rw [if_pos hrelevant, if_pos hrelevant, ite_self]
    rfl
  · rw [if_neg hrelevant, if_neg hrelevant, ← runLlmRewrite_eq]
    split
    · rename_i hskip
      rcases Bool.or_eq_true_iff.mp hskip with hblank | hterms
      · rw [runLlmRewrite, if_pos hblank]
      · -- No glossary, no relevant term.
        exact absurd (by simp [filterRelevant, List.isEmpty_iff.mp hterms]) hrelevant
    · rfl

/-! ## Title and key points -/

/-- What `suggest_metadata` returns. -/
structure Metadata where
  title : Str
  keyPoints : List Str

/-- `_FORBIDDEN_FILENAME_CHARS_RE` -/
def forbiddenFilenameChars : List Char := "\\/:<>|?*\"".toList

/-- `(out.get("title") or "").strip()`: what is neither falsy nor a string has no `strip`. -/
def rawTitle (fields : List (Str × Json)) : Except Str Str :=
  match Json.get? fields "title".toList with
  | none => .ok []
  | some v =>
      if v.truthy then
        match v with
        | .str s => .ok (strip s)
        | _ => .error "AttributeError".toList
      else .ok []

/-- The title, cleaned. -/
def cleanTitle (raw : Str) : Str :=
  let title := raw.map fun c => if forbiddenFilenameChars.contains c then ' ' else c
  let title := ([' '].intercalate (split title)).take 80
  if title = [] then "Compte-rendu".toList else title

/-- The key points that are texts, at most five. -/
def cleanPoints (fields : List (Str × Json)) : List Str :=
  match Json.get? fields "key_points".toList with
  | some (.list items) =>
      (items.filterMap fun
        | .str s => if isBlank s then none else some (strip s)
        | _ => none).take 5
  | _ => []

/-- What is made of the answer. -/
def metadataOf : Json → Except Str (Option Metadata)
  | .obj fields => (rawTitle fields).map fun raw => some ⟨cleanTitle raw, cleanPoints fields⟩
  | _ => .ok none

/-- `suggest_metadata(transcript, llm, model)` -/
def suggestMetadata (transcript : Str) (calls : Calls Json) : Attempt Metadata := fun made =>
  if isBlank transcript then (.ok none, made)
  else
    match askOnce calls made with
    | (.error name, made) => (.error name, made)
    | (.ok none, made) => (.ok none, made)
    | (.ok (some out), made) => (metadataOf out, made)

/-- An object whose title, if it has one, is a text. -/
def usableMetadata : Json → Bool
  | .obj fields => (rawTitle fields).toOption.isSome
  | _ => false

theorem metadataOf_of_usable : ∀ out, usableMetadata out = true →
    ∃ a : Metadata, metadataOf out = .ok (some a) ∧ false = false
  | .obj fields, h => by
      rw [usableMetadata] at h
      cases hraw : rawTitle fields with
      | error name => rw [hraw] at h; cases h
      | ok raw => exact ⟨⟨cleanTitle raw, cleanPoints fields⟩, by rw [metadataOf, hraw]; rfl, rfl⟩

def metadataStep (transcript : Str) : Step Json Metadata :=
  Step.once (!isBlank transcript) metadataOf (fun _ => false) usableMetadata metadataOf_of_usable

theorem suggestMetadata_eq {transcript : Str} {calls : Calls Json} :
    suggestMetadata transcript calls = (metadataStep transcript).attempt calls := by
  funext made
  rw [suggestMetadata, metadataStep]
  cases isBlank transcript with
  | true => rfl
  | false =>
      rw [if_neg (by simp), Bool.not_false, Step.once_attempt, askOnce]
      cases (calls made).caught with
      | error name => rfl
      | ok r => cases r <;> rfl

/-- The title is never empty. -/
theorem cleanTitle_ne_nil (raw : Str) : cleanTitle raw ≠ [] := by
  rw [cleanTitle]
  split
  · decide
  · assumption

/-- What the step returns has a title. -/
theorem title_of_make {transcript : Str} {rs : List (Option Json)} {info : Metadata}
    (h : (metadataStep transcript).make rs = .ok (some info)) : info.title ≠ [] := by
  have hof : ∀ out, metadataOf out = .ok (some info) → info.title ≠ [] := by
    intro out hout
    cases out with
    | obj fields =>
        rw [metadataOf] at hout
        cases hraw : rawTitle fields with
        | error name => rw [hraw] at hout; cases hout
        | ok raw =>
            rw [hraw] at hout
            cases hout
            exact cleanTitle_ne_nil raw
    | _ => cases hout
  rw [metadataStep, Step.once] at h
  dsimp only at h
  split at h
  · exact hof _ h
  · cases h

/-- `serialize_key_points` -/
def serializeKeyPoints (points : List Str) : Option Str :=
  if points = [] then none else some (joinLines (points.map ("- ".toList ++ ·)))

/-! ## Analysis and summary -/

/-- `analyse_meeting(transcript, llm, model)`: `json.loads` reads `null` as `None`. -/
def analyseMeeting (transcript : Str) (calls : Calls Json) : Attempt Json := fun made =>
  if isBlank transcript then (.ok none, made)
  else
    match askOnce calls made with
    | (.ok (some .null), made) => (.ok none, made)
    | asked => asked

/-- `isinstance(result, str) and not result.strip()` -/
def isBlankJson : Json → Bool
  | .str s => isBlank s
  | _ => false

/-- What is made of the answer. -/
def analysisOf : Json → Except Str (Option Json)
  | .null => .ok none
  | out => .ok (some out)

/-- Neither `None` nor a blank text. -/
def usableAnalysis : Json → Bool
  | .null => false
  | out => !isBlankJson out

theorem analysisOf_of_usable : ∀ out, usableAnalysis out = true →
    ∃ a, analysisOf out = .ok (some a) ∧ isBlankJson a = false := by
  intro out h
  cases out with
  | null => cases h
  | _ => exact ⟨_, rfl, by simpa [usableAnalysis] using h⟩

def analysisStep (transcript : Str) : Step Json Json :=
  Step.once (!isBlank transcript) analysisOf isBlankJson usableAnalysis analysisOf_of_usable

theorem analyseMeeting_eq {transcript : Str} {calls : Calls Json} :
    analyseMeeting transcript calls = (analysisStep transcript).attempt calls := by
  funext made
  rw [analyseMeeting, analysisStep]
  cases isBlank transcript with
  | true => rfl
  | false =>
      rw [if_neg (by simp), Bool.not_false, Step.once_attempt, askOnce]
      cases (calls made).caught with
      | error name => rfl
      | ok r =>
          cases r with
          | none => rfl
          | some out => cases out <;> rfl

/-- `summarise_for_absentee(transcript, llm, model)` -/
def summariseForAbsentee (transcript : Str) (calls : Calls Str) : Attempt Str := fun made =>
  if isBlank transcript then (.ok none, made) else askOnce calls made

def summaryStep (transcript : Str) : Step Str Str :=
  Step.once (!isBlank transcript) (fun out => .ok (some out)) isBlank (fun out => !isBlank out)
    fun out h => ⟨out, rfl, by simpa using h⟩

theorem summariseForAbsentee_eq {transcript : Str} {calls : Calls Str} :
    summariseForAbsentee transcript calls = (summaryStep transcript).attempt calls := by
  funext made
  rw [summariseForAbsentee, summaryStep]
  cases isBlank transcript with
  | true => rfl
  | false =>
      rw [if_neg (by simp), Bool.not_false, Step.once_attempt, askOnce]
      cases (calls made).caught with
      | error name => rfl
      | ok r => cases r <;> rfl

end MesReunions.Llm
