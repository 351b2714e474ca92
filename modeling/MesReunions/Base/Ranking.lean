import Mathlib

/-!
# The leader of a ranking

A list is ranked by a key, and its first element is chosen where it is far enough from the second.

* `ranked`, `leader` — the ranking, and the choice.
* `Leads` — one element is far from all the others.
* **`not_mem_take_ranked`** — what is left out of the first ones.
* **`leader_ranked_iff`** — what is chosen leads, and what leads is chosen.
-/

namespace MesReunions.Ranking

universe u v

variable {α : Type u} {κ : Type v} [LinearOrder κ] (key : α → κ) (far : κ → κ → Bool)

/-- From the highest key down; equal keys keep their order. -/
def ranked (xs : List α) : List α := xs.mergeSort fun a b => decide (key b ≤ key a)

/-- The first element, where it is far from the second. -/
def leader : List α → Option α
  | [] => none
  | [x] => some x
  | x :: y :: _ => if far (key x) (key y) then some x else none

/-- An element is far from all the others. -/
def Leads (xs : List α) (x : α) : Prop := x ∈ xs ∧ ∀ y ∈ xs, y ≠ x → far (key x) (key y) = true

variable {key far} {xs : List α} {x : α}

theorem mem_ranked (key : α → κ) : x ∈ ranked key xs ↔ x ∈ xs :=
  (List.mergeSort_perm xs _).mem_iff

theorem nodup_ranked (key : α → κ) (h : xs.Nodup) : (ranked key xs).Nodup :=
  (List.mergeSort_perm xs _).nodup_iff.mpr h

theorem pairwise_ranked (key : α → κ) (xs : List α) :
    (ranked key xs).Pairwise fun a b => key b ≤ key a := by
  have hsorted := List.pairwise_mergeSort
    (fun (a b c : α) hab hbc =>
      decide_eq_true ((of_decide_eq_true hbc).trans (of_decide_eq_true hab) : key c ≤ key a))
    (fun a b => by simpa using le_total (key b) (key a)) xs
  exact hsorted.imp fun h => of_decide_eq_true h

/-- An element that is not among the first ones is below them, and these are all there. -/
theorem not_mem_take_ranked {n : Nat} (h : x ∈ xs) (hnot : x ∉ (ranked key xs).take n) :
    ((ranked key xs).take n).length = n ∧ ∀ y ∈ (ranked key xs).take n, key x ≤ key y := by
  have hsplit := List.take_append_drop n (ranked key xs)
  have hdrop : x ∈ (ranked key xs).drop n := by
    have hin : x ∈ ranked key xs := (mem_ranked key).mpr h
    rw [← hsplit, List.mem_append] at hin
    exact hin.resolve_left hnot
  have hlength : n ≤ (ranked key xs).length := by
    by_contra hlt
    rw [List.drop_of_length_le (by omega)] at hdrop
    cases hdrop
  refine ⟨List.length_take_of_le hlength, fun y hy => ?_⟩
  have hsorted := pairwise_ranked key xs
  rw [← hsplit, List.pairwise_append] at hsorted
  exact hsorted.2.2 y hy x hdrop

theorem leads_of_leader (hmono : ∀ {a b c}, far a b = true → c ≤ b → far a c = true)
    (h : leader key far (ranked key xs) = some x) : Leads key far xs x := by
  have hsorted := pairwise_ranked key xs
  have hmem : ∀ y, y ∈ ranked key xs ↔ y ∈ xs := fun y => mem_ranked key
  generalize ranked key xs = ys at h hsorted hmem
  match ys, h with
  | [z], h =>
      cases h
      refine ⟨(hmem x).mp List.mem_cons_self, fun y hy hne => ?_⟩
      exact absurd (List.mem_singleton.mp ((hmem y).mpr hy)) hne
  | z :: second :: rest, h =>
      obtain ⟨hfar, heq⟩ := Option.ite_none_right_eq_some.mp h
      cases heq
      refine ⟨(hmem x).mp List.mem_cons_self, fun y hy hne => ?_⟩
      -- All the others are at most at the second.
      have htail : y ∈ second :: rest := (List.mem_cons.mp ((hmem y).mpr hy)).resolve_left hne
      refine hmono hfar ?_
      rcases List.mem_cons.mp htail with rfl | hrest
      · exact le_refl _
      · exact List.rel_of_pairwise_cons (List.pairwise_cons.mp hsorted).2 hrest

theorem leader_of_leads (hfar : ∀ {a b}, far a b = true → b < a) (hnodup : xs.Nodup)
    (h : Leads key far xs x) : leader key far (ranked key xs) = some x := by
  have hsorted := pairwise_ranked key xs
  have hmem : ∀ y, y ∈ ranked key xs ↔ y ∈ xs := fun y => mem_ranked key
  have hnodup := nodup_ranked key hnodup
  generalize ranked key xs = ys at hsorted hmem hnodup ⊢
  match ys with
  | [] => exact absurd ((hmem x).mpr h.1) List.not_mem_nil
  | first :: rest =>
      have hfirst : first = x := by
        by_contra hne
        have hlt := hfar (h.2 first ((hmem first).mp List.mem_cons_self) hne)
        have hrest : x ∈ rest := (List.mem_cons.mp ((hmem x).mpr h.1)).resolve_left (Ne.symm hne)
        exact absurd (List.rel_of_pairwise_cons hsorted hrest) (not_le.mpr hlt)
      subst hfirst
      match rest with
      | [] => rfl
      | second :: rest =>
          have hne : second ≠ first := by
            rintro rfl
            exact (List.nodup_cons.mp hnodup).1 List.mem_cons_self
          have hsecond : second ∈ xs :=
            (hmem second).mp (List.mem_cons_of_mem _ List.mem_cons_self)
          exact if_pos (h.2 second hsecond hne)

/-- **What is chosen leads, and what leads is chosen.** -/
theorem leader_ranked_iff (hfar : ∀ {a b}, far a b = true → b < a)
    (hmono : ∀ {a b c}, far a b = true → c ≤ b → far a c = true) (hnodup : xs.Nodup) :
    leader key far (ranked key xs) = some x ↔ Leads key far xs x :=
  ⟨leads_of_leader hmono, leader_of_leads hfar hnodup⟩

end MesReunions.Ranking
