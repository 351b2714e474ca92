import Mathlib.Data.List.Basic

/-!
# Gathering distinct elements up to a limit

A loop that appends what it has not seen yet, and stops as soon as the list is long enough.

* `firsts` — the elements of a list that are not among some others, each at its first place.
* `gather` — the loop, and whether it stopped.
* **`gather_eq`** — it keeps the first elements, up to the limit.
* `gather_append` — two lists are gathered one after the other.
* **`mem_take_firsts`** — an element is kept when few distinct ones come before it.
-/

namespace MesReunions

variable {α β : Type} [DecidableEq α]

/-! ## First occurrences -/

/-- The elements that are not in `seen`, each one once. -/
def firsts (seen : List α) : List α → List α
  | [] => []
  | x :: xs => if x ∈ seen then firsts seen xs else x :: firsts (x :: seen) xs

theorem firsts_congr {s s' : List α} (h : ∀ x, x ∈ s ↔ x ∈ s') (xs : List α) :
    firsts s xs = firsts s' xs := by
  induction xs generalizing s s' with
  | nil => rfl
  | cons x xs ih =>
      have hcons : ∀ y, y ∈ x :: s ↔ y ∈ x :: s' := fun y => by
        rw [List.mem_cons, List.mem_cons, h y]
      by_cases hx : x ∈ s
      · rw [firsts, firsts, if_pos hx, if_pos ((h x).mp hx), ih h]
      · rw [firsts, firsts, if_neg hx, if_neg fun hx' => hx ((h x).mpr hx'), ih hcons]

theorem mem_firsts {seen xs : List α} {x : α} : x ∈ firsts seen xs ↔ x ∈ xs ∧ x ∉ seen := by
  induction xs generalizing seen with
  | nil => simp [firsts]
  | cons y xs ih =>
      rw [firsts]
      split
      · rename_i hy
        rw [ih, List.mem_cons]
        constructor
        · exact fun h => ⟨Or.inr h.1, h.2⟩
        · rintro ⟨rfl | hx, hseen⟩
          · exact absurd hy hseen
          · exact ⟨hx, hseen⟩
      · rename_i hy
        rw [List.mem_cons, ih, List.mem_cons, List.mem_cons]
        by_cases hxy : x = y
        · subst hxy
          simp [hy]
        · simp [hxy]

theorem firsts_append (seen xs ys : List α) :
    firsts seen (xs ++ ys) = firsts seen xs ++ firsts (xs ++ seen) ys := by
  induction xs generalizing seen with
  | nil => rfl
  | cons x xs ih =>
      rw [List.cons_append, firsts, firsts]
      split
      · rename_i hx
        rw [ih]
        refine congrArg _ (firsts_congr (fun y => ?_) ys)
        simp only [List.mem_append, List.cons_append, List.mem_cons]
        constructor
        · exact fun h => Or.inr h
        · rintro (rfl | h)
          · exact Or.inr hx
          · exact h
      · rw [ih, List.cons_append]
        refine congrArg _ (congrArg _ (firsts_congr (fun y => ?_) ys))
        simp only [List.mem_append, List.cons_append, List.mem_cons]
        tauto

/-- The first elements split where one of them comes. -/
theorem firsts_split {seen pre post : List α} {x : α} (hpre : x ∉ pre) (hseen : x ∉ seen) :
    firsts seen (pre ++ x :: post) =
      firsts seen pre ++ x :: firsts (x :: (pre ++ seen)) post := by
  have hx : x ∉ pre ++ seen := fun h => (List.mem_append.mp h).elim hpre hseen
  rw [firsts_append, firsts, if_neg hx]

/-! ## The first ones of a list -/

/-- An element stands among the first `n` when fewer come before it. -/
theorem mem_take_split {a b : List β} {x : β} (ha : x ∉ a) (n : Nat) :
    x ∈ (a ++ x :: b).take n ↔ a.length < n := by
  constructor
  · intro h
    by_contra hn
    rw [List.take_append_of_le_length (Nat.not_lt.mp hn)] at h
    exact ha (List.mem_of_mem_take h)
  · intro h
    obtain ⟨k, rfl⟩ := Nat.exists_eq_add_of_lt h
    rw [show a.length + k + 1 = a.length + (k + 1) by omega, List.take_length_add_append]
    exact List.mem_append_right _ List.mem_cons_self

/-- **Where an element comes for the first time** decides whether it is among the first `m` distinct
ones, and among the first `n` of these that a condition lets through. -/
theorem mem_take_firsts {pre post : List α} {x : α} {p : α → Bool} (hpre : x ∉ pre)
    (hx : p x = true) (m n : Nat) :
    x ∈ (((firsts [] (pre ++ x :: post)).take m).filter p).take n ↔
      (firsts [] pre).length < m ∧ ((firsts [] pre).filter p).length < n := by
  have hfirst : x ∉ firsts [] pre := fun h => hpre (mem_firsts.mp h).1
  rw [firsts_split hpre List.not_mem_nil]
  by_cases hm : (firsts [] pre).length < m
  · obtain ⟨k, rfl⟩ := Nat.exists_eq_add_of_lt hm
    rw [show (firsts [] pre).length + k + 1 = (firsts [] pre).length + (k + 1) by omega,
      List.take_length_add_append, List.take_succ_cons, List.filter_append,
      List.filter_cons_of_pos hx,
      mem_take_split fun h => hfirst (List.mem_filter.mp h).1]
    exact ⟨fun h => ⟨by omega, h⟩, fun h => h.2⟩
  · constructor
    · intro h
      rw [List.take_append_of_le_length (Nat.not_lt.mp hm)] at h
      exact absurd (List.mem_of_mem_take (List.mem_filter.mp (List.mem_of_mem_take h)).1) hfirst
    · exact fun h => absurd h.1 hm

/-! ## The loop -/

/-- The loop: `clean` says what is appended for an element, if anything. The second part says that
the limit was reached. -/
def gather (limit : Nat) (clean : β → Option α) : List β → List α → List α × Bool
  | [], out => (out, false)
  | y :: ys, out =>
      match clean y with
      | none => gather limit clean ys out
      | some x =>
          if x ∈ out then gather limit clean ys out
          else if limit ≤ (out ++ [x]).length then (out ++ [x], true)
          else gather limit clean ys (out ++ [x])

section Gather

variable {limit : Nat} {clean : β → Option α}

/-- **What is gathered**: the first elements, up to the limit. -/
theorem gather_eq (ys : List β) {out : List α} (h : out.length < limit) :
    gather limit clean ys out =
      ((out ++ firsts out (ys.filterMap clean)).take limit,
        decide (limit ≤ (out ++ firsts out (ys.filterMap clean)).length)) := by
  induction ys generalizing out with
  | nil =>
      have hlimit : ¬ limit ≤ out.length := Nat.not_le.mpr h
      simp [gather, firsts, List.take_of_length_le (Nat.le_of_lt h), hlimit]
  | cons y ys ih =>
      rw [gather]
      cases hclean : clean y with
      | none =>
          rw [List.filterMap_cons_none hclean]
          exact ih h
      | some x =>
          rw [List.filterMap_cons_some hclean, firsts]
          dsimp only
          split
          · exact ih h
          · have hlength : (out ++ [x]).length = out.length + 1 := by simp
            have hmore : out ++ x :: firsts (x :: out) (ys.filterMap clean) =
                out ++ [x] ++ firsts (out ++ [x]) (ys.filterMap clean) := by
              rw [List.append_assoc, List.singleton_append]
              refine congrArg (out ++ x :: ·) (firsts_congr (fun z => ?_) _)
              simp only [List.mem_cons, List.mem_append, List.not_mem_nil, or_false]
              tauto
            rw [hmore]
            split
            · rename_i hfull
              have hexact : (out ++ [x]).length = limit := by omega
              have hlong : limit ≤ (out ++ [x] ++
                  firsts (out ++ [x]) (ys.filterMap clean)).length := by
                rw [List.length_append]
                omega
              rw [List.take_append_of_le_length (by omega), List.take_of_length_le (by omega),
                decide_eq_true hlong]
            · rename_i hfull
              exact ih (by omega)

theorem gather_append (ys zs : List β) (out : List α) :
    gather limit clean (ys ++ zs) out =
      if (gather limit clean ys out).2 = true then gather limit clean ys out
      else gather limit clean zs (gather limit clean ys out).1 := by
  induction ys generalizing out with
  | nil => rfl
  | cons y ys ih =>
      rw [List.cons_append, gather, gather]
      cases clean y with
      | none => exact ih out
      | some x =>
          dsimp only
          split
          · exact ih out
          · split
            · rfl
            · exact ih _

/-- Nothing is gathered but what was there or what is cleaned. -/
theorem mem_of_mem_gather {ys : List β} {out : List α} {x : α}
    (h : x ∈ (gather limit clean ys out).1) : x ∈ out ∨ ∃ y ∈ ys, clean y = some x := by
  induction ys generalizing out with
  | nil => exact Or.inl h
  | cons y ys ih =>
      have hrest : ∀ {out}, x ∈ (gather limit clean ys out).1 →
          x ∈ out ∨ ∃ z ∈ y :: ys, clean z = some x := fun h =>
        (ih h).imp_right fun ⟨z, hz, hclean⟩ => ⟨z, List.mem_cons_of_mem _ hz, hclean⟩
      rw [gather] at h
      split at h
      · exact hrest h
      · rename_i w hclean
        have happended : x ∈ out ++ [w] → x ∈ out ∨ ∃ z ∈ y :: ys, clean z = some x := by
          intro hmem
          rcases List.mem_append.mp hmem with hout | hw
          · exact Or.inl hout
          · rw [List.mem_singleton.mp hw]
            exact Or.inr ⟨y, List.mem_cons_self, hclean⟩
        split at h
        · exact hrest h
        · split at h
          · exact happended h
          · rcases hrest h with hmem | hmem
            · exact happended hmem
            · exact Or.inr hmem

end Gather

end MesReunions
