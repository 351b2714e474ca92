import MesReunions.Llm.Steps

/-!
# The relevant terms of a glossary

`filter_relevant` of `glossary_loader.py`: the terms with the best scores, in the order of the
alphabet.

* `relevance` — the score of a term, `0` when it has no letter.
* `Best` — what is selected.
* **`best_filterRelevant`** — at most `max_terms` terms, and none left out that scores more.
* **`not_by_score`** — the order is not that of the scores.
-/

namespace MesReunions.Glossary

open Str Llm

variable (u : Unicode)

/-! ## The selection -/

/-- `norm_compact` -/
def normCompact (transcript : Str) : Str :=
  collapse ((u.lower transcript).map fun c =>
    if u.isWord c || isSpace c || c = '\'' then c else ' ')

/-- The score of a term. -/
def relevance (transcript term : Str) : Nat :=
  if (term.filter isLetter).isEmpty then 0
  else score u (normCompact u transcript) (split (normCompact u transcript)) term

/-- `candidates` -/
def candidates (terms : List Str) (transcript : Str) : List (Nat × Str) :=
  terms.filterMap fun term =>
    if 0 < relevance u transcript term then some (relevance u transcript term, term) else none

/-- `(-x[0], x[1])` -/
def byScore (a b : Nat × Str) : Bool := b.1 < a.1 || (a.1 == b.1 && decide (a.2 ≤ b.2))

/-- `xs[:n]` -/
def upTo {α : Type} (n : Int) (xs : List α) : List α :=
  if 0 ≤ n then xs.take n.toNat else xs.take (xs.length - (-n).toNat)

/-- `filter_relevant(terms, transcript, max_terms)` -/
def filterRelevant (terms : List Str) (transcript : Str) (maxTerms : Int) : List Str :=
  if terms = [] ∨ transcript = [] then []
  else
    let best := (candidates u terms transcript).mergeSort byScore
    ((upTo maxTerms best).map (·.2)).dedup.mergeSort fun a b => decide (a ≤ b)

/-- What the correction of a transcript asks for. -/
theorem filterRelevant_natCast (terms : List Str) (transcript : Str) (maxTerms : Nat) :
    filterRelevant u terms transcript maxTerms =
      Llm.filterRelevant u terms transcript maxTerms := by
  have hcandidates : candidates u terms transcript = terms.filterMap fun term =>
      if (term.filter isLetter).isEmpty then none
      else
        let points := score u (normCompact u transcript) (split (normCompact u transcript)) term
        if 0 < points then some (points, term) else none := by
    refine List.filterMap_congr fun term _ => ?_
    rw [relevance]
    split
    · rfl
    · rfl
  have hupTo : ∀ xs : List (Nat × Str), upTo (maxTerms : Int) xs = xs.take maxTerms := fun xs => by
    rw [upTo, if_pos (Int.natCast_nonneg _), Int.toNat_natCast]
  simp only [filterRelevant, hcandidates, hupTo]
  rfl

/-! ## What is selected -/

/-- The selection keeps the best terms. -/
structure Best (terms : List Str) (transcript : Str) (maxTerms : Int) (out : List Str) : Prop where
  nodup : out.Nodup
  short : 0 ≤ maxTerms → out.length ≤ maxTerms
  relevant : ∀ t ∈ out, t ∈ terms ∧ 0 < relevance u transcript t
  best : ∀ t ∈ terms, t ∉ out → ∀ t' ∈ out, relevance u transcript t ≤ relevance u transcript t'
  full : transcript ≠ [] → ∀ t ∈ terms, 0 < relevance u transcript t → t ∉ out →
    maxTerms < (terms.filter fun t => 0 < relevance u transcript t).length
  alphabetical : out.Pairwise (· ≤ ·)

/-- A prefix, and what is after it. -/
theorem exists_upTo {α : Type} (n : Int) (xs : List α) : ∃ rest, xs = upTo n xs ++ rest ∧
    (0 ≤ n → (upTo n xs).length ≤ n) ∧ (rest ≠ [] → n < xs.length) := by
  rw [upTo]
  split
  · rename_i hn
    refine ⟨xs.drop n.toNat, (List.take_append_drop _ _).symm, fun _ => ?_, fun hrest => ?_⟩
    · have hle := List.length_take_le n.toNat xs
      omega
    · rw [ne_eq, List.drop_eq_nil_iff] at hrest
      omega
  · rename_i hn
    exact ⟨xs.drop (xs.length - (-n).toNat), (List.take_append_drop _ _).symm,
      fun h => absurd h hn, fun _ => by omega⟩

theorem mem_candidates {terms : List Str} {transcript : Str} {p : Nat × Str} :
    p ∈ candidates u terms transcript ↔
      p.2 ∈ terms ∧ 0 < relevance u transcript p.2 ∧ p.1 = relevance u transcript p.2 := by
  rw [candidates, List.mem_filterMap]
  constructor
  · rintro ⟨term, hterm, hsome⟩
    split at hsome
    · rename_i hpos
      cases hsome
      exact ⟨hterm, hpos, rfl⟩
    · cases hsome
  · rintro ⟨hterm, hpos, hpoints⟩
    refine ⟨p.2, hterm, ?_⟩
    rw [if_pos hpos, ← hpoints]

theorem length_candidates (terms : List Str) (transcript : Str) :
    (candidates u terms transcript).length =
      (terms.filter fun t => 0 < relevance u transcript t).length := by
  induction terms with
  | nil => rfl
  | cons t terms ih =>
      by_cases hpos : 0 < relevance u transcript t
      · rw [List.filter_cons_of_pos (by simpa using hpos), List.length_cons, ← ih]
        simp only [candidates, List.filterMap_cons, if_pos hpos, List.length_cons]
      · rw [List.filter_cons_of_neg (by simpa using hpos), ← ih]
        simp only [candidates, List.filterMap_cons, if_neg hpos]

theorem byScore_trans (a b c : Nat × Str) (hab : byScore a b = true) (hbc : byScore b c = true) :
    byScore a c = true := by
  simp only [byScore, Bool.or_eq_true, Bool.and_eq_true, decide_eq_true_eq, beq_iff_eq] at *
  rcases hab with hab | ⟨hab, hle⟩
  · exact Or.inl (by omega)
  · rcases hbc with hbc | ⟨hbc, hle'⟩
    · exact Or.inl (by omega)
    · exact Or.inr ⟨hab.trans hbc, hle.trans hle'⟩

theorem byScore_total (a b : Nat × Str) : (byScore a b || byScore b a) = true := by
  simp only [byScore, Bool.or_eq_true, Bool.and_eq_true, decide_eq_true_eq, beq_iff_eq]
  rcases lt_trichotomy a.1 b.1 with h | h | h
  · exact Or.inr (Or.inl h)
  · rcases le_total a.2 b.2 with hle | hle
    · exact Or.inl (Or.inr ⟨h, hle⟩)
    · exact Or.inr (Or.inr ⟨h.symm, hle⟩)
  · exact Or.inl (Or.inl h)

theorem score_le_of_byScore {a b : Nat × Str} (h : byScore a b = true) : b.1 ≤ a.1 := by
  simp only [byScore, Bool.or_eq_true, Bool.and_eq_true, decide_eq_true_eq, beq_iff_eq] at h
  rcases h with h | ⟨h, -⟩
  · exact h.le
  · exact h.ge

/-- **The selection.** -/
theorem best_filterRelevant (terms : List Str) (transcript : Str) (maxTerms : Int) :
    Best u terms transcript maxTerms (filterRelevant u terms transcript maxTerms) := by
  rw [filterRelevant]
  split
  · rename_i hempty
    refine ⟨.nil, fun h => h, nofun, fun _ _ _ => nofun, fun hne t ht => ?_, .nil⟩
    rw [hempty.resolve_right hne] at ht
    cases ht
  · have hperm := List.mergeSort_perm (candidates u terms transcript) byScore
    have hsorted : ((candidates u terms transcript).mergeSort byScore).Pairwise
        fun a b => byScore a b = true :=
      List.pairwise_mergeSort byScore_trans byScore_total _
    have hlength := hperm.length_eq
    rw [length_candidates] at hlength
    generalize (candidates u terms transcript).mergeSort byScore = sorted at hperm hsorted hlength
    obtain ⟨rest, hsplit, hshort, hrest⟩ := exists_upTo maxTerms sorted
    dsimp only
    have hperm' := List.mergeSort_perm ((upTo maxTerms sorted).map (·.2)).dedup
      fun a b => decide (a ≤ b)
    have hmem : ∀ t, t ∈ ((upTo maxTerms sorted).map (·.2)).dedup.mergeSort
        (fun a b => decide (a ≤ b)) ↔ ∃ p ∈ upTo maxTerms sorted, p.2 = t := fun t => by
      rw [hperm'.mem_iff, List.mem_dedup, List.mem_map]
    have hcandidate : ∀ p ∈ sorted, p.2 ∈ terms ∧ 0 < relevance u transcript p.2 ∧
        p.1 = relevance u transcript p.2 := fun p hp => (mem_candidates u).mp (hperm.mem_iff.mp hp)
    have htaken : ∀ p ∈ upTo maxTerms sorted, p ∈ sorted := fun p hp => by
      rw [hsplit]
      exact List.mem_append_left _ hp
    -- A relevant term that is left out is in the rest.
    have hleft : ∀ t ∈ terms, 0 < relevance u transcript t →
        t ∉ ((upTo maxTerms sorted).map (·.2)).dedup.mergeSort (fun a b => decide (a ≤ b)) →
          (relevance u transcript t, t) ∈ rest := by
      intro t ht hpos hout
      have hin : (relevance u transcript t, t) ∈ sorted :=
        hperm.mem_iff.mpr ((mem_candidates u).mpr ⟨ht, hpos, rfl⟩)
      rw [hsplit] at hin
      refine (List.mem_append.mp hin).resolve_left fun hin => hout ?_
      exact (hmem t).mpr ⟨_, hin, rfl⟩
    refine ⟨?_, fun hn => ?_, fun t ht => ?_, fun t ht hout t' ht' => ?_,
      fun _ t ht hpos hout => ?_, ?_⟩
    · exact hperm'.nodup_iff.mpr (List.nodup_dedup _)
    · have hdedup := (List.dedup_sublist ((upTo maxTerms sorted).map (·.2))).length_le
      rw [List.length_map] at hdedup
      have hn' := hshort hn
      rw [hperm'.length_eq]
      omega
    · obtain ⟨p, hp, rfl⟩ := (hmem t).mp ht
      obtain ⟨hterm, hpos, -⟩ := hcandidate p (htaken p hp)
      exact ⟨hterm, hpos⟩
    · obtain ⟨p, hp, rfl⟩ := (hmem t').mp ht'
      rcases Nat.eq_zero_or_pos (relevance u transcript t) with hzero | hpos
      · rw [hzero]
        exact Nat.zero_le _
      · rw [hsplit, List.pairwise_append] at hsorted
        have hle := score_le_of_byScore (hsorted.2.2 p hp _ (hleft t ht hpos hout))
        rwa [(hcandidate p (htaken p hp)).2.2] at hle
    · rw [← hlength]
      exact hrest (List.ne_nil_of_mem (hleft t ht hpos hout))
    · have hle := @List.pairwise_mergeSort Str (fun a b => decide (a ≤ b))
        (fun a b c hab hbc => by simpa using le_trans (by simpa using hab) (by simpa using hbc))
        (fun a b => by simpa using le_total a b) ((upTo maxTerms sorted).map (·.2)).dedup
      exact hle.imp fun h => by simpa using h

/-! ## Two terms -/

/-- What `lower` and `\w` are on ASCII. -/
def ascii : Unicode := ⟨List.map Char.toLower, fun c => c.isAlphanum || c = '_'⟩

/-- **The order.** It is that of the alphabet, not that of the scores. -/
theorem not_by_score : ¬ ∀ (u : Unicode) (terms : List Str) (transcript : Str) (maxTerms : Int),
    (filterRelevant u terms transcript maxTerms).Pairwise fun a b =>
      relevance u transcript b ≤ relevance u transcript a := by
  intro h
  have hpair := h ascii ["alto".toList, "zebra".toList] "zebra alpin".toList 2
  have hcandidates : candidates ascii ["alto".toList, "zebra".toList] "zebra alpin".toList =
      [(1, "alto".toList), (11, "zebra".toList)] := by
    decide +kernel
  have hsorted : [(1, "alto".toList), (11, "zebra".toList)].mergeSort byScore =
      [(11, "zebra".toList), (1, "alto".toList)] := by
    simp [List.mergeSort, List.MergeSort.Internal.splitInTwo, byScore]
  have hout : ["zebra".toList, "alto".toList].mergeSort (fun a b => decide (a ≤ b)) =
      ["alto".toList, "zebra".toList] := by
    have hlt : ['a', 'l', 't', 'o'] < ['z', 'e', 'b', 'r', 'a'] := by decide
    simp [List.mergeSort, List.MergeSort.Internal.splitInTwo, hlt]
  have hdedup : ((upTo 2 [(11, "zebra".toList), (1, "alto".toList)]).map (·.2)).dedup =
      ["zebra".toList, "alto".toList] := by
    decide +kernel
  rw [filterRelevant, if_neg (by decide), hcandidates, hsorted] at hpair
  dsimp only at hpair
  rw [hdedup, hout] at hpair
  revert hpair
  decide +kernel

end MesReunions.Glossary
