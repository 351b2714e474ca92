import Mathlib.Data.List.MinMax
import Mathlib.Data.Set.Basic

/-!
# The next element after a bound

* `NextAfter` — the least element of a set whose key is past a bound, none when there is none.
* **`nextAfter_iff`** — the next element past a later bound is the next one past an earlier bound
  exactly when nothing lies between the two.
* **`nextAfter_firstAfter`** — the search in a list.
-/

namespace MesReunions

variable {α β : Type} [LinearOrder β] {s : Set α} {key : α → β}

/-- The first of the elements of `s` whose key is past `t`. -/
def NextAfter (s : Set α) (key : α → β) (t : β) : Option α → Prop
  | none => ∀ x ∈ s, key x ≤ t
  | some x => x ∈ s ∧ t < key x ∧ ∀ y ∈ s, t < key y → key x ≤ key y

/-- **A later bound.** Nothing is lost when nothing lies between the two bounds, and only then. -/
theorem nextAfter_iff {t t' : β} (hle : t ≤ t') {o : Option α} (ho : NextAfter s key t' o) :
    NextAfter s key t o ↔ ∀ x ∈ s, t < key x → t' < key x := by
  cases o with
  | none =>
      constructor
      · intro h x hx ht
        exact absurd (h x hx) (not_le.mpr ht)
      · intro h x hx
        by_contra hlt
        exact absurd (ho x hx) (not_le.mpr (h x hx (not_le.mp hlt)))
  | some y =>
      obtain ⟨hy, hafter, hleast⟩ := ho
      constructor
      · intro h x hx ht
        exact lt_of_lt_of_le hafter (h.2.2 x hx ht)
      · intro h
        refine ⟨hy, lt_of_le_of_lt hle hafter, fun x hx ht => ?_⟩
        exact hleast x hx (h x hx ht)

/-! ## The search in a list -/

/-- The first element of a list whose key is past `t`, in the order of the keys. -/
def firstAfter (xs : List α) (key : α → β) (t : β) : Option α :=
  (xs.filter fun x => t < key x).argmin key

theorem nextAfter_firstAfter (xs : List α) (key : α → β) (t : β) :
    NextAfter {x | x ∈ xs} key t (firstAfter xs key t) := by
  cases hfirst : firstAfter xs key t with
  | none =>
      intro x hx
      have hnil : (xs.filter fun x => t < key x) = [] := List.argmin_eq_none.mp hfirst
      have hnot := List.filter_eq_nil_iff.mp hnil x hx
      rw [decide_eq_true_eq] at hnot
      exact not_lt.mp hnot
  | some x =>
      have hx : x ∈ xs.filter fun x => t < key x := List.argmin_mem hfirst
      rw [List.mem_filter, decide_eq_true_eq] at hx
      refine ⟨hx.1, hx.2, fun y hy ht => List.le_of_mem_argmin ?_ hfirst⟩
      rw [List.mem_filter, decide_eq_true_eq]
      exact ⟨hy, ht⟩

end MesReunions
