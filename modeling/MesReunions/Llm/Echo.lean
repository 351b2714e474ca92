import MesReunions.Llm.Steps

/-!
# Rewriting by a model that changes nothing

`_chunk_text` and `_run_llm_rewrite` of `meeting_intelligence.py`, with a model that answers every
text with this text, or not at all.

* `chunkEnd_spec` — where a chunk ends.
* `Echo` — the model that changes nothing; some of its calls fail, and one succeeds.
* `Intact` — the result is the transcript, cut into as many sections as there were calls.
* **`echo_iff`** — it is exactly when one call is enough, or when the chunks do not overlap.
* **`passage_repeated`** — a transcript that is one character too long for one call.
-/

namespace MesReunions.Llm

open Str

/-! ## Where the chunks end -/

theorem rfind_cases (text sep : Str) (lo hi : Nat) : rfind text sep lo hi = -1 ∨
    ((lo : Int) ≤ rfind text sep lo hi ∧ rfind text sep lo hi + sep.length ≤ hi) := by
  rw [rfind]
  split
  · rename_i i hi'
    have hmem := List.mem_range'_1.mp (List.mem_reverse.mp (List.mem_of_find?_eq_some hi'))
    have hfits := List.find?_some hi'
    simp only [Bool.and_eq_true, decide_eq_true_eq] at hfits
    omega
  · exact Or.inl rfl

/-- The best separator so far lies in the window. -/
theorem foldl_best_cases (text : Str) (lo hi : Nat) {seps : List Str} (h : ∀ s ∈ seps, s ≠ []) :
    ∀ best : Int, (best = -1 ∨ ((lo : Int) < best ∧ best ≤ hi)) →
      let last := seps.foldl (fun best sep =>
        let idx := rfind text sep lo hi
        if best < idx then idx + sep.length else best) best
      last = -1 ∨ ((lo : Int) < last ∧ last ≤ hi) := by
  induction seps with
  | nil => exact fun best hbest => hbest
  | cons sep seps ih =>
      intro best hbest
      rw [List.foldl_cons]
      refine ih (fun s hs => h s (List.mem_cons_of_mem _ hs)) _ ?_
      have hlen := List.length_pos_iff.mpr (h sep List.mem_cons_self)
      dsimp only
      split
      · rcases rfind_cases text sep lo hi with hnone | hsome
        · omega
        · omega
      · exact hbest

/-- **Where a chunk ends.** At its full size, or at a separator, two characters in at least. -/
theorem chunkEnd_spec (cfg : ChunkConfig) (text : Str) (pos : Nat) :
    chunkEnd cfg text pos = min (pos + cfg.size) text.length ∨
      (pos + 1 < chunkEnd cfg text pos ∧
        chunkEnd cfg text pos ≤ min (pos + cfg.size) text.length) := by
  have hbest := foldl_best_cases text (max (pos + cfg.size - 2000) (pos + 1))
    (min (pos + cfg.size) text.length) (show ∀ s ∈ chunkSeparators, s ≠ [] by decide) (-1)
    (Or.inl rfl)
  rw [chunkEnd]
  dsimp only at hbest ⊢
  split
  · split
    · rcases hbest with hnone | ⟨hlo, hhi⟩
      · omega
      · have hstart : pos + 1 ≤ max (pos + cfg.size - 2000) (pos + 1) := le_max_right _ _
        exact Or.inr ⟨by omega, by omega⟩
    · exact Or.inl rfl
  · exact Or.inl rfl

/-! ## The chunks together -/

/-- Chunks that do not overlap are the text. -/
theorem flatten_chunksFrom {cfg : ChunkConfig} (hsize : 0 < cfg.size)
    (h : cfg.overlap = 0 ∨ cfg.size = 1) (text : Str) (pos : Nat) :
    (chunksFrom cfg text pos).flatten = text.drop pos := by
  induction pos using chunksFrom.induct cfg text with
  | case1 pos hpos stop hstop =>
      rw [chunksFrom, if_pos hpos]
      dsimp only
      rw [if_pos hstop, List.flatten_singleton, List.take_of_length_le]
      rw [List.length_drop]
      exact Nat.sub_le_sub_right hstop pos
  | case2 pos hpos stop hstop ih =>
      have hend := chunkEnd_spec cfg text pos
      have hnext : max (stop - cfg.overlap) (pos + 1) = stop := by
        change max (chunkEnd cfg text pos - cfg.overlap) (pos + 1) = chunkEnd cfg text pos
        omega
      have hdrop : text.drop stop = (text.drop pos).drop (stop - pos) := by
        rw [List.drop_drop]
        congr 1
        change chunkEnd cfg text pos = pos + (chunkEnd cfg text pos - pos)
        omega
      rw [hnext] at ih
      rw [chunksFrom, if_pos hpos]
      dsimp only
      rw [if_neg hstop, List.flatten_cons, hnext, ih, hdrop, List.take_append_drop]
  | case3 pos hpos =>
      rw [chunksFrom, if_neg hpos, List.drop_of_length_le (not_lt.mp hpos)]
      rfl

/-- No character is left out. -/
theorem le_length_chunksFrom {cfg : ChunkConfig} (hsize : 0 < cfg.size) (text : Str)
    (pos : Nat) : text.length - pos ≤ (chunksFrom cfg text pos).flatten.length := by
  induction pos using chunksFrom.induct cfg text with
  | case1 pos hpos stop hstop =>
      rw [chunksFrom, if_pos hpos]
      dsimp only
      rw [if_pos hstop, List.flatten_singleton, List.length_take, List.length_drop]
      exact le_min (Nat.sub_le_sub_right hstop pos) le_rfl
  | case2 pos hpos stop hstop ih =>
      have hend := chunkEnd_spec cfg text pos
      have hrest : text.length - max (chunkEnd cfg text pos - cfg.overlap) (pos + 1) ≤
        (chunksFrom cfg text
          (max (chunkEnd cfg text pos - cfg.overlap) (pos + 1))).flatten.length := ih
      rw [chunksFrom, if_pos hpos]
      dsimp only
      rw [if_neg hstop, List.flatten_cons, List.length_append, List.length_take,
        List.length_drop]
      omega
  | case3 pos hpos => omega

/-- **Overlaps.** Two chunks or more are longer than the text. -/
theorem lt_length_chunkText {cfg : ChunkConfig} {text : Str} (hlong : cfg.size < text.length)
    (hsize : 1 < cfg.size) (hoverlap : 0 < cfg.overlap) :
    text.length < (chunkText cfg text).flatten.length := by
  have hend := chunkEnd_spec cfg text 0
  have hrest := le_length_chunksFrom (show 0 < cfg.size by omega) text
    (max (chunkEnd cfg text 0 - cfg.overlap) (0 + 1))
  rw [chunkText, if_neg (by omega), chunksFrom, if_pos (by omega)]
  dsimp only
  rw [if_neg (by omega), List.flatten_cons, List.length_append, List.length_take,
    List.length_drop]
  omega

/-- Chunks of no character leave everything out. -/
theorem flatten_chunksFrom_zero {cfg : ChunkConfig} (hsize : cfg.size = 0) (text : Str)
    (pos : Nat) : (chunksFrom cfg text pos).flatten = [] := by
  induction pos using chunksFrom.induct cfg text with
  | case1 pos hpos stop hstop =>
      have hend := chunkEnd_spec cfg text pos
      have hstop' : stop = chunkEnd cfg text pos := rfl
      omega
  | case2 pos hpos stop hstop ih =>
      have hend := chunkEnd_spec cfg text pos
      have hstop' : stop - pos = 0 := by
        change chunkEnd cfg text pos - pos = 0
        omega
      rw [chunksFrom, if_pos hpos]
      dsimp only
      rw [if_neg hstop, List.flatten_cons, ih, hstop']
      rfl
  | case3 pos hpos =>
      rw [chunksFrom, if_neg hpos]
      rfl

/-- One call is enough for the transcript, or the chunks follow each other. -/
def Apart (cfg : ChunkConfig) (transcript : Str) : Prop :=
  transcript.length ≤ cfg.threshold ∨ transcript.length ≤ cfg.size ∨
    0 < cfg.size ∧ (cfg.overlap = 0 ∨ cfg.size = 1)

instance (cfg : ChunkConfig) (transcript : Str) : Decidable (Apart cfg transcript) := by
  unfold Apart
  infer_instance

theorem flatten_chunkText {cfg : ChunkConfig} {transcript : Str}
    (hlong : ¬ transcript.length ≤ cfg.threshold) (h : Apart cfg transcript) :
    (chunkText cfg transcript).flatten = transcript := by
  rw [chunkText]
  split
  · exact List.flatten_singleton
  · rename_i hsize
    obtain ⟨hpos, hap⟩ := (h.resolve_left hlong).resolve_left hsize
    exact flatten_chunksFrom hpos hap transcript 0

theorem apart_of_length {cfg : ChunkConfig} {transcript : Str}
    (h : (chunkText cfg transcript).flatten.length = transcript.length) :
    Apart cfg transcript := by
  by_contra hnot
  simp only [Apart, not_or, not_le, not_and] at hnot
  obtain ⟨-, hlong, hsize⟩ := hnot
  rcases Nat.eq_zero_or_pos cfg.size with hzero | hpos
  · rw [chunkText, if_neg (by omega), flatten_chunksFrom_zero hzero] at h
    simp at h
    omega
  · obtain ⟨hoverlap, hone⟩ := hsize hpos
    have hlt := lt_length_chunkText hlong (by omega) (by omega)
    omega

/-! ## The model -/

/-- The texts that the model is asked to rewrite. -/
def asked (cfg : ChunkConfig) (transcript : Str) : List Str :=
  if isBlank transcript then []
  else if transcript.length ≤ cfg.threshold then [transcript]
  else chunkText cfg transcript

/-- The model answers each text with this text, or the call fails; one call succeeds. -/
structure Echo (texts : List Str) (calls : Calls Str) (made : Nat) : Prop where
  replies : ∀ i (h : i < texts.length),
    calls (made + i) = .answer texts[i] ∨ ∃ e, calls (made + i) = .error e
  succeeds : ∃ i, ∃ h : i < texts.length, calls (made + i) = .answer texts[i]

/-- The result is the transcript, cut into as many sections as there were calls, an empty
line between two of them. -/
def Intact (cfg : ChunkConfig) (transcript : Str) (calls : Calls Str) (made : Nat) : Prop :=
  ∃ sections : List Str, sections.flatten = transcript ∧
    runLlmRewrite cfg transcript calls made =
      (.ok (some ("\n\n".toList.intercalate sections)), made + sections.length)

/-- A chunk and its echo are the same, and so is the raw text of a chunk that failed. -/
theorem rewriteChunks_echo {calls : Calls Str} {texts : List Str} : ∀ {made : Nat},
    (∀ i (h : i < texts.length),
      calls (made + i) = .answer texts[i] ∨ ∃ e, calls (made + i) = .error e) →
    ∃ success, rewriteChunks calls texts made = (.ok (texts, success), made + texts.length) ∧
      ((∃ i, ∃ h : i < texts.length, calls (made + i) = .answer texts[i]) → success = true) := by
  induction texts with
  | nil =>
      refine fun _ => ⟨false, rfl, ?_⟩
      rintro ⟨i, hi, -⟩
      exact absurd hi (by simp)
  | cons text texts ih =>
      intro made hreplies
      have hshift : ∀ i, made + 1 + i = made + (i + 1) := fun i => by omega
      obtain ⟨success, hrest, hsuccess⟩ := @ih (made + 1) (fun i hi => by
        rw [hshift]
        exact hreplies (i + 1) (Nat.succ_lt_succ hi))
      rcases hreplies 0 (Nat.succ_pos _) with hanswer | ⟨e, herror⟩
      · rw [Nat.add_zero, List.getElem_cons_zero] at hanswer
        refine ⟨true, ?_, fun _ => rfl⟩
        rw [rewriteChunks, hanswer]
        dsimp only
        rw [hrest, List.length_cons]
        simp only [Except.map, ite_self, Prod.mk.injEq, true_and]
        omega
      · rw [Nat.add_zero] at herror
        refine ⟨success, ?_, ?_⟩
        · rw [rewriteChunks, herror]
          dsimp only
          rw [hrest, List.length_cons]
          simp only [Except.map, Prod.mk.injEq, true_and]
          omega
        · rintro ⟨i, hi, hanswer⟩
          cases i with
          | zero =>
              rw [Nat.add_zero, herror] at hanswer
              cases hanswer
          | succ i =>
              refine hsuccess ⟨i, Nat.lt_of_succ_lt_succ hi, ?_⟩
              rw [hshift, hanswer, List.getElem_cons_succ]

theorem length_intercalate (sep : Str) (x : Str) (xs : List Str) :
    (sep.intercalate (x :: xs)).length =
      (x :: xs).flatten.length + sep.length * xs.length := by
  induction xs generalizing x with
  | nil => simp
  | cons y ys ih =>
      rw [List.intercalate_cons_cons, List.length_append, List.length_append, ih,
        List.flatten_cons (l := x), List.length_append, List.length_cons, Nat.mul_succ]
      omega

/-- A long transcript comes back as its chunks. -/
theorem runLlmRewrite_echo {cfg : ChunkConfig} {transcript : Str} {calls : Calls Str}
    {made : Nat} (h : Echo (asked cfg transcript) calls made) :
    runLlmRewrite cfg transcript calls made =
      (.ok (some ("\n\n".toList.intercalate (asked cfg transcript))),
        made + (asked cfg transcript).length) := by
  obtain ⟨success, hparts, hsuccess⟩ := rewriteChunks_echo h.replies
  have hsome := hsuccess h.succeeds
  obtain ⟨i, hi, hanswer⟩ := h.succeeds
  rw [runLlmRewrite]
  by_cases hblank : isBlank transcript = true
  · -- Nothing is asked.
    rw [asked, if_pos hblank] at hi
    exact absurd hi (Nat.not_lt_zero i)
  rw [if_neg hblank]
  by_cases hshort : transcript.length ≤ cfg.threshold
  · have hasked : asked cfg transcript = [transcript] := by
      rw [asked, if_neg hblank, if_pos hshort]
    simp only [hasked, List.length_singleton, Nat.lt_one_iff] at hi hanswer ⊢
    subst hi
    rw [Nat.add_zero, List.getElem_cons_zero] at hanswer
    rw [if_pos hshort, askOnce, hanswer, Reply.caught, List.intercalate_singleton]
  · have hasked : asked cfg transcript = chunkText cfg transcript := by
      rw [asked, if_neg hblank, if_neg hshort]
    rw [hasked] at hparts ⊢
    rw [if_neg hshort, hparts, hsome]
    rfl

theorem flatten_asked {cfg : ChunkConfig} {transcript : Str} {calls : Calls Str} {made : Nat}
    (h : Echo (asked cfg transcript) calls made) (hap : Apart cfg transcript) :
    (asked cfg transcript).flatten = transcript := by
  obtain ⟨i, hi, -⟩ := h.succeeds
  rw [asked] at hi ⊢
  split
  · rename_i hblank
    rw [if_pos hblank] at hi
    exact absurd hi (Nat.not_lt_zero i)
  · split
    · exact List.flatten_singleton
    · rename_i hlong
      exact flatten_chunkText hlong hap

theorem apart_of_intact {cfg : ChunkConfig} {transcript : Str} {calls : Calls Str} {made : Nat}
    (h : Echo (asked cfg transcript) calls made) (hintact : Intact cfg transcript calls made) :
    Apart cfg transcript := by
  obtain ⟨sections, hflat, hrun⟩ := hintact
  rw [runLlmRewrite_echo h] at hrun
  simp only [Prod.mk.injEq, Except.ok.injEq, Option.some.injEq, Nat.add_left_cancel_iff] at hrun
  obtain ⟨hjoin, hcount⟩ := hrun
  -- As many sections as chunks: the separators take the same room.
  have hlength : (asked cfg transcript).flatten.length = transcript.length := by
    obtain ⟨i, hi, -⟩ := h.succeeds
    have hlen := congrArg List.length hjoin
    cases hasked : asked cfg transcript with
    | nil =>
        rw [hasked] at hi
        exact absurd hi (Nat.not_lt_zero i)
    | cons x xs =>
        cases sections with
        | nil =>
            rw [hasked] at hcount
            cases hcount
        | cons y ys =>
            rw [hasked, List.length_cons, List.length_cons, Nat.succ_inj] at hcount
            rw [hasked, length_intercalate, length_intercalate, hflat, hcount] at hlen
            omega
  rw [asked] at hlength
  split at hlength
  · rename_i hblank
    obtain ⟨i, hi, -⟩ := h.succeeds
    rw [asked, if_pos hblank] at hi
    exact absurd hi (Nat.not_lt_zero i)
  · split at hlength
    · rename_i hshort
      exact Or.inl hshort
    · exact apart_of_length hlength

/-- **Rewriting a transcript by echo.** It comes back intact exactly when one call is enough,
or when the chunks do not overlap. -/
theorem echo_iff {cfg : ChunkConfig} {transcript : Str} {calls : Calls Str} {made : Nat}
    (h : Echo (asked cfg transcript) calls made) :
    Intact cfg transcript calls made ↔ Apart cfg transcript := by
  refine ⟨apart_of_intact h, fun hap => ?_⟩
  exact ⟨asked cfg transcript, flatten_asked h hap, runLlmRewrite_echo h⟩

/-- The configuration without a variable of the environment. -/
def defaultChunks : ChunkConfig := ⟨50000, 25000, 500⟩

/-- A short transcript. -/
theorem echo_iff_short : Intact defaultChunks ['O', 'u', 'i', '.']
    (fun _ => .answer ['O', 'u', 'i', '.']) 0 := by
  have hasked : asked defaultChunks ['O', 'u', 'i', '.'] = [['O', 'u', 'i', '.']] := by decide
  refine (echo_iff ⟨fun i hi => ?_, ?_⟩).mpr (Or.inl (by decide))
  · simp only [hasked, List.length_singleton, Nat.lt_one_iff] at hi
    subst hi
    exact Or.inl (by simp [hasked])
  · exact ⟨0, by rw [hasked]; decide, by simp [hasked]⟩

/-- A model that echoes every text there is to rewrite. -/
def echoAll (texts : List Str) : Calls Str := fun i => .answer (texts.getD i [])

theorem echo_echoAll {texts : List Str} (h : texts ≠ []) : Echo texts (echoAll texts) 0 := by
  have hpos := List.length_pos_iff.mpr h
  refine ⟨fun i hi => Or.inl ?_, 0, hpos, ?_⟩
  · simp [echoAll, hi]
  · simp [echoAll, hpos]

theorem asked_ne_nil {cfg : ChunkConfig} {transcript : Str} (h : isBlank transcript = false)
    (hap : ¬ Apart cfg transcript) : asked cfg transcript ≠ [] := by
  simp only [Apart, not_or, not_le, not_and] at hap
  obtain ⟨hthreshold, hlong, -⟩ := hap
  rw [asked, h, if_neg (by simp), if_neg (by omega), chunkText, if_neg (by omega), chunksFrom,
    if_pos (by omega)]
  dsimp only
  split <;> simp

/-- **A passage is repeated.** One character more than one call takes, and every call
succeeds. -/
theorem passage_repeated :
    let transcript := List.replicate 50001 'a'
    let calls := echoAll (asked defaultChunks transcript)
    Echo (asked defaultChunks transcript) calls 0 ∧
      ¬ Intact defaultChunks transcript calls 0 := by
  intro transcript calls
  have hlength : transcript.length = 50001 := List.length_replicate
  have hblank : isBlank transcript = false :=
    isBlank_eq_false_iff.mpr ⟨'a', List.mem_replicate.mpr ⟨by omega, rfl⟩, by decide⟩
  have hap : ¬ Apart defaultChunks transcript := by
    rw [Apart, hlength]
    decide
  have hecho := echo_echoAll (asked_ne_nil hblank hap)
  exact ⟨hecho, fun hintact => hap (apart_of_intact hecho hintact)⟩

end MesReunions.Llm
