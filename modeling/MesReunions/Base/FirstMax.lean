import Mathlib.Data.List.Induction
import Mathlib.Order.Lattice

/-!
# The first of the largest

A loop that keeps the best element so far, with its score, and replaces it only by one that
does strictly better.

* `FirstMax` — an element no other beats, and that every earlier one is below.
* **`foldl_keepBest`** — the loop ends with it, or with nothing when no score is above the
  one it starts from.
-/

namespace MesReunions

variable {α β : Type*} [LinearOrder β]

/-- The elements before `x` score less, those after it no more. -/
def FirstMax (score : α → β) (xs : List α) (x : α) : Prop :=
  ∃ before after, xs = before ++ x :: after ∧
    (∀ y ∈ before, score y < score x) ∧ ∀ y ∈ after, score y ≤ score x

namespace FirstMax

variable {score : α → β} {xs : List α} {x y : α}

theorem mem (h : FirstMax score xs x) : x ∈ xs := by
  obtain ⟨before, after, rfl, -, -⟩ := h
  exact List.mem_append_right _ List.mem_cons_self

theorem le (h : FirstMax score xs x) (hy : y ∈ xs) : score y ≤ score x := by
  obtain ⟨before, after, rfl, hbefore, hafter⟩ := h
  rcases List.mem_append.mp hy with hy | hy
  · exact (hbefore y hy).le
  · rcases List.mem_cons.mp hy with rfl | hy
    · exact le_rfl
    · exact hafter y hy

/-- One more element that does no better. -/
theorem concat (h : FirstMax score xs x) (hy : score y ≤ score x) :
    FirstMax score (xs ++ [y]) x := by
  obtain ⟨before, after, rfl, hbefore, hafter⟩ := h
  refine ⟨before, after ++ [y], by simp, hbefore, fun z hz => ?_⟩
  rcases List.mem_append.mp hz with hz | hz
  · exact hafter z hz
  · rwa [List.mem_singleton.mp hz]

end FirstMax

/-- The body of the loop. -/
def keepBest (score : α → β) (best : Option α × β) (x : α) : Option α × β :=
  if best.2 < score x then (some x, score x) else best

/-- What the loop holds: nothing, and the score it started from, or the first of the
largest. -/
def Holds (score : α → β) (least : β) (xs : List α) (best : Option α × β) : Prop :=
  match best.1 with
  | none => best.2 = least ∧ ∀ x ∈ xs, score x ≤ least
  | some x => best.2 = score x ∧ least < score x ∧ FirstMax score xs x

/-- **The loop finds the first of the largest scores.** -/
theorem foldl_keepBest (score : α → β) (least : β) (xs : List α) :
    Holds score least xs (xs.foldl (keepBest score) (none, least)) := by
  induction xs using List.reverseRecOn with
  | nil => exact ⟨rfl, by simp⟩
  | append_singleton xs y ih =>
      rw [List.foldl_append]
      generalize xs.foldl (keepBest score) (none, least) = best at ih ⊢
      obtain ⟨o, v⟩ := best
      cases o with
      | none =>
          obtain ⟨rfl, hle⟩ := ih
          by_cases hy : v < score y
          · have hnew : [y].foldl (keepBest score) (none, v) = (some y, score y) := if_pos hy
            rw [hnew]
            exact ⟨rfl, hy, xs, [], rfl, fun x hx => (hle x hx).trans_lt hy, by simp⟩
          · have hkept : [y].foldl (keepBest score) (none, v) = (none, v) := if_neg hy
            rw [hkept]
            refine ⟨rfl, fun x hx => ?_⟩
            rcases List.mem_append.mp hx with hx | hx
            · exact hle x hx
            · rw [List.mem_singleton.mp hx]
              exact not_lt.mp hy
      | some x =>
          obtain ⟨rfl, hleast, hfirst⟩ := ih
          by_cases hy : score x < score y
          · have hnew : [y].foldl (keepBest score) (some x, score x) = (some y, score y) :=
              if_pos hy
            rw [hnew]
            exact ⟨rfl, hleast.trans hy, xs, [], rfl, fun z hz => (hfirst.le hz).trans_lt hy,
              by simp⟩
          · have hkept : [y].foldl (keepBest score) (some x, score x) = (some x, score x) :=
              if_neg hy
            rw [hkept]
            exact ⟨rfl, hleast, hfirst.concat (not_lt.mp hy)⟩

end MesReunions
