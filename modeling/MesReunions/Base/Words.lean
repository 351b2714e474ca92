import MesReunions.Base.Lines

/-!
# A text inside another one

`Within sep s x` says that `x` contains `s` with a separator, or an end of `x`, on either side.
What is done to a text one word at a time is done to `s` wherever it stands.

* **`Within.infix_lower`** — `str.lower`, which looks no further than the word a letter is in.
* `within_intercalate`, `within_lines`, `within_strip` — the parts of a text.
* `Within.strip` — a stripped part is still there when the whole is stripped.
-/

namespace MesReunions.Str

variable {sep : Char → Bool}

/-- `x` contains `s`, set off by separators. -/
def Within (sep : Char → Bool) (s x : Str) : Prop :=
  ∃ a b, x = a ++ s ++ b ∧ (∀ c ∈ a.getLast?, sep c = true) ∧ ∀ c ∈ b.head?, sep c = true

/-- What is known of `str.lower`: a separator is left as it is, and the letters on one side of
it do not change what becomes of those on the other. -/
structure Lowers (sep : Char → Bool) (lower : Str → Str) : Prop where
  nil : lower [] = []
  at_sep : ∀ {a b : Str} {c : Char}, sep c = true → lower (a ++ c :: b) = lower a ++ c :: lower b

theorem Within.refl (s : Str) : Within sep s s := ⟨[], [], by simp, by simp, by simp⟩

theorem Within.trans {s x y : Str} (h : Within sep s x) (h' : Within sep x y) : Within sep s y := by
  obtain ⟨a, b, rfl, ha, hb⟩ := h
  obtain ⟨a', b', rfl, ha', hb'⟩ := h'
  refine ⟨a' ++ a, b ++ b', by simp, fun c hc => ?_, fun c hc => ?_⟩
  · cases hlast : a.getLast? with
    | none =>
        rw [List.getLast?_append, hlast] at hc
        exact ha' c hc
    | some d =>
        rw [List.getLast?_append, hlast] at hc
        exact ha c (hlast.trans hc)
  · cases hhead : b.head? with
    | none =>
        rw [List.head?_append, hhead] at hc
        exact hb' c hc
    | some d =>
        rw [List.head?_append, hhead] at hc
        exact hb c (hhead.trans hc)

/-- **Lower case, inside a text.** -/
theorem Within.infix_lower {lower : Str → Str} (hlower : Lowers sep lower) {s x : Str}
    (h : Within sep s x) : lower s <:+: lower x := by
  obtain ⟨a, b, rfl, ha, hb⟩ := h
  have hright : lower s <+: lower (s ++ b) := by
    cases b with
    | nil => rw [List.append_nil]
    | cons c b =>
        rw [hlower.at_sep (hb c rfl)]
        exact List.prefix_append ..
  have hleft : lower (s ++ b) <:+ lower (a ++ (s ++ b)) := by
    induction a using List.reverseRecOn with
    | nil => exact List.suffix_rfl
    | append_singleton a c _ =>
        rw [List.append_assoc, List.singleton_append, hlower.at_sep (ha c (by simp))]
        exact (List.suffix_cons ..).trans (List.suffix_append ..)
  rw [List.append_assoc]
  exact hright.isInfix.trans hleft.isInfix

/-- The parts of a text that a separator joins. -/
theorem within_intercalate {c : Char} (hc : sep c = true) {xs : List Str} {x : Str} (hx : x ∈ xs) :
    Within sep x ([c].intercalate xs) := by
  induction xs with
  | nil => cases hx
  | cons y ys ih =>
      by_cases hys : ys = []
      · subst hys
        rw [List.mem_singleton.mp hx]
        simpa [List.intercalate] using @Within.refl sep y
      · rw [List.intercalate_cons_of_ne_nil hys]
        rcases List.mem_cons.mp hx with rfl | hx
        · refine ⟨[], [c] ++ [c].intercalate ys, by simp, by simp, fun d hd => ?_⟩
          injection hd with hd
          rw [← hd]
          exact hc
        · refine (ih hx).trans ⟨y ++ [c], [], by simp, fun d hd => ?_, by simp⟩
          simp only [List.getLast?_append, List.getLast?_singleton, Option.some_or,
            Option.mem_some_iff] at hd
          rw [← hd]
          exact hc

theorem within_lines (hsep : sep '\n' = true) {l x : Str} (hl : l ∈ lines x) : Within sep l x := by
  have h := within_intercalate hsep hl
  rwa [show ['\n'].intercalate (lines x) = x from joinLines_lines x] at h

theorem within_strip (hsep : ∀ c, isSpace c = true → sep c = true) (x : Str) :
    Within sep (strip x) x := by
  have hl : Within sep (lstrip x) x := by
    refine ⟨x.takeWhile isSpace, [], ?_, fun c hc => ?_, by simp⟩
    · rw [List.append_nil, lstrip, List.takeWhile_append_dropWhile]
    · exact hsep c (List.mem_takeWhile_imp (List.mem_of_getLast? hc))
  refine Within.trans ?_ hl
  obtain ⟨b, hb⟩ := prefix_of_rstrip (lstrip x)
  refine ⟨[], b, hb.symm, by simp, fun c hc => ?_⟩
  -- What follows a stripped text begins with a blank.
  cases b with
  | nil => cases hc
  | cons d b =>
      injection hc with hc
      subst hc
      cases hd : isSpace d with
      | true => exact hsep d hd
      | false =>
          have hlong : rstrip (rstrip (lstrip x) ++ d :: b) =
              rstrip (lstrip x) ++ d :: rstrip b := by
            rw [← rstrip_cons_of_not hd]
            exact rstrip_append (by rw [rstrip_cons_of_not hd]; exact List.cons_ne_nil _ _)
          rw [hb] at hlong
          simp at hlong

theorem within_lstripChar {c : Char} (hc : sep c = true) (x : Str) :
    Within sep (lstripChar c x) x := by
  refine ⟨x.takeWhile (· == c), [], ?_, fun d hd => ?_, by simp⟩
  · rw [List.append_nil, lstripChar, List.takeWhile_append_dropWhile]
  · have hd := List.mem_takeWhile_imp (List.mem_of_getLast? hd)
    rw [beq_iff_eq.mp hd]
    exact hc

/-- A part without blanks at its ends is there when the whole is stripped. -/
theorem Within.strip {s x : Str} (h : Within sep s x) (hs : strip s = s) (hne : s ≠ []) :
    Within sep s (strip x) := by
  obtain ⟨a, b, rfl, ha, hb⟩ := h
  have hlead : lstrip (s ++ b) = s ++ b := by
    obtain ⟨c, cs, rfl⟩ := List.exists_cons_of_ne_nil hne
    have hc : isSpace c = false := lstrip_head_not (s := c :: cs) (by rw [← hs, lstrip_strip, hs]; rfl)
    exact lstrip_of_head hc
  have hleft : lstrip (a ++ s ++ b) = lstrip a ++ s ++ b := by
    rw [List.append_assoc, lstrip, List.dropWhile_append]
    split
    · rename_i hblank
      have hnil : lstrip a = [] := List.isEmpty_iff.mp hblank
      rw [hnil, List.nil_append]
      exact hlead
    · rw [lstrip, List.append_assoc]
  have hright : rstrip (lstrip a ++ s ++ b) = lstrip a ++ s ++ rstrip b := by
    refine rstrip_append_of_rstrip ?_ b
    have hr : rstrip s = s := by rw [← hs, rstrip_strip]
    rw [rstrip_append (by rw [hr]; exact hne), hr]
  refine ⟨lstrip a, rstrip b, by rw [Str.strip, hleft, hright], fun c hc => ?_, fun c hc => ?_⟩
  · obtain ⟨pre, hpre⟩ : lstrip a <:+ a := List.dropWhile_suffix isSpace
    refine ha c ?_
    rw [← hpre, List.getLast?_append, Option.mem_def.mp hc]
    rfl
  · obtain ⟨post, hpost⟩ := prefix_of_rstrip b
    refine hb c ?_
    rw [← hpost, List.head?_append, Option.mem_def.mp hc]
    rfl

end MesReunions.Str
