import MesReunions.Base.Lines

/-!
# Replacing a string

`s.replace(old, new)` for a non-empty `old`: the occurrences are taken from the left and
do not overlap.

* **`lines_replace`** — a replacement without line breaks works line by line.
* **`replace_of_absent`** — it leaves alone what does not contain `old`.
-/

namespace MesReunions.Str

/-- The rest of the text, of which `skip` characters have already been replaced. -/
def replaceFrom (old new : Str) : Nat → Str → Str
  | _, [] => []
  | skip + 1, _ :: s => replaceFrom old new skip s
  | 0, c :: s =>
      if old.isPrefixOf (c :: s) then new ++ replaceFrom old new (old.length - 1) s
      else c :: replaceFrom old new 0 s

/-- `s.replace(old, new)` -/
def replace (old new s : Str) : Str := replaceFrom old new 0 s

/-- `old in s` -/
def contains (old : Str) : Str → Bool
  | [] => old.isPrefixOf []
  | c :: s => old.isPrefixOf (c :: s) || contains old s

@[simp] theorem replace_nil (old new : Str) : replace old new [] = [] := rfl

theorem replace_of_absent {old s : Str} (new : Str) (h : contains old s = false) :
    replace old new s = s := by
  induction s with
  | nil => rfl
  | cons c s ih =>
      simp only [contains, Bool.or_eq_false_iff] at h
      rw [replace, replaceFrom, if_neg (by simp [h.1]), ← replace, ih h.2]

/-- Every character comes from the text or from the new string. -/
theorem mem_replaceFrom {old new : Str} {c : Char} {s : Str} :
    ∀ {skip}, c ∈ replaceFrom old new skip s → c ∈ s ∨ c ∈ new := by
  induction s with
  | nil => intro skip h; cases skip <;> simp [replaceFrom] at h
  | cons d s ih =>
      intro skip h
      cases skip with
      | succ skip =>
          rcases ih h with h | h
          · exact Or.inl (List.mem_cons_of_mem _ h)
          · exact Or.inr h
      | zero =>
          rw [replaceFrom] at h
          split at h
          · rcases List.mem_append.mp h with h | h
            · exact Or.inr h
            · rcases ih h with h | h
              · exact Or.inl (List.mem_cons_of_mem _ h)
              · exact Or.inr h
          · rcases List.mem_cons.mp h with rfl | h
            · exact Or.inl List.mem_cons_self
            · rcases ih h with h | h
              · exact Or.inl (List.mem_cons_of_mem _ h)
              · exact Or.inr h

/-- If `old` occurs, the new string is put there. -/
theorem mem_replace_of_contains {old new : Str} (hne : old ≠ []) {c : Char} (hc : c ∈ new) {s : Str}
    (h : contains old s = true) : c ∈ replace old new s := by
  induction s with
  | nil => cases old with
    | nil => exact absurd rfl hne
    | cons d old => cases h
  | cons d s ih =>
      rw [replace, replaceFrom]
      split
      · exact List.mem_append_left _ hc
      · rename_i hpre
        simp only [contains, Bool.or_eq_true] at h
        exact List.mem_cons_of_mem _ (ih (h.resolve_left hpre))

/-- What contains the string contains its characters. -/
theorem contains_of_not_mem {old : Str} {c : Char} (hc : c ∈ old) {s : Str} (hs : c ∉ s) :
    contains old s = false := by
  have hpre : ∀ {t : Str}, c ∉ t → old.isPrefixOf t = false := by
    intro t ht
    rw [Bool.eq_false_iff]
    exact fun h => ht ((List.isPrefixOf_iff_prefix.mp h).subset hc)
  induction s with
  | nil => exact hpre hs
  | cons d s ih =>
      rw [contains, hpre hs, ih fun h => hs (List.mem_cons_of_mem _ h)]
      rfl

/-- An occurrence without a line break lies within a line. -/
theorem isPrefixOf_append_newline {old : Str} (h : '\n' ∉ old) (s t : Str) :
    old.isPrefixOf (s ++ '\n' :: t) = old.isPrefixOf s := by
  rw [Bool.eq_iff_iff, List.isPrefixOf_iff_prefix, List.isPrefixOf_iff_prefix]
  constructor
  · intro hpre
    rcases Nat.lt_or_ge s.length old.length with hlt | hle
    · have hline : s ++ ['\n'] <+: s ++ '\n' :: t := ⟨t, by simp⟩
      have hmem : '\n' ∈ s ++ ['\n'] := by simp
      exact absurd ((List.prefix_of_prefix_length_le hline hpre (by simpa using hlt)).subset hmem) h
    · exact List.prefix_of_prefix_length_le hpre (List.prefix_append _ _) hle
  · exact fun hpre => hpre.trans (List.prefix_append _ _)

theorem replaceFrom_append {old : Str} (new : Str) (hne : old ≠ []) (h : '\n' ∉ old) (s t : Str) :
    ∀ {skip}, skip ≤ s.length → replaceFrom old new skip (s ++ '\n' :: t) =
      replaceFrom old new skip s ++ '\n' :: replace old new t := by
  induction s with
  | nil =>
      intro skip hskip
      obtain rfl : skip = 0 := Nat.le_zero.mp hskip
      have hpre : old.isPrefixOf ('\n' :: t) = false := by
        rw [← List.nil_append ('\n' :: t), isPrefixOf_append_newline h]
        cases old with
        | nil => exact absurd rfl hne
        | cons c old => rfl
      have hnil : replaceFrom old new 0 [] = [] := rfl
      rw [List.nil_append, hnil, replaceFrom, hpre]
      rfl
  | cons c s ih =>
      intro skip hskip
      cases skip with
      | succ skip => exact ih (Nat.le_of_succ_le_succ hskip)
      | zero =>
          have hpre := isPrefixOf_append_newline h (c :: s) t
          rw [List.cons_append] at hpre
          rw [List.cons_append, replaceFrom, replaceFrom, hpre]
          split
          · rename_i hmatch
            have hlen := (List.isPrefixOf_iff_prefix.mp hmatch).length_le
            rw [List.length_cons] at hlen
            rw [ih (by omega), List.append_assoc]
          · rw [ih (Nat.zero_le _), List.cons_append]

theorem replace_append {old : Str} (new : Str) (hne : old ≠ []) (h : '\n' ∉ old) (s t : Str) :
    replace old new (s ++ '\n' :: t) = replace old new s ++ '\n' :: replace old new t :=
  replaceFrom_append new hne h s t (Nat.zero_le _)

theorem replace_joinLines {old : Str} (new : Str) (hne : old ≠ []) (h : '\n' ∉ old)
    (ls : List Str) : replace old new (joinLines ls) = joinLines (ls.map (replace old new)) := by
  induction ls with
  | nil => rfl
  | cons l ls ih =>
      by_cases hls : ls = []
      · subst hls
        simp
      · rw [joinLines_cons hls, replace_append new hne h, ih, List.map_cons,
          joinLines_cons (by simpa using hls)]

/-- **Line by line.** -/
theorem lines_replace {old new : Str} (hne : old ≠ []) (hold : '\n' ∉ old) (hnew : '\n' ∉ new)
    (s : Str) : lines (replace old new s) = (lines s).map (replace old new) := by
  have hline : ∀ l ∈ lines s, lines (replace old new l) = [replace old new l] := by
    intro l hl
    refine lines_of_not_mem fun hmem => ?_
    rcases mem_replaceFrom hmem with h | h
    · exact not_mem_of_mem_lines hl h
    · exact hnew h
  conv_lhs => rw [← joinLines_lines s, replace_joinLines new hne hold]
  rw [lines_joinLines (by simpa using lines_ne_nil s), List.flatMap_map, List.flatMap_congr hline,
    ← List.map_eq_flatMap]

end MesReunions.Str
