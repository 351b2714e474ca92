import Mathlib.Data.Int.Order.Basic
import Mathlib.Tactic.Linarith

/-!
# Binary search

The loop over a window `[lo, hi]` of positions. `side i` says where what is sought lies from
position `i`: before it, after it, or there.

* **`search_sound`** — a position that is returned is one where it lies. Nothing is assumed.
* **`search_complete`** — where the sides are in order, and it lies in the window, one is returned.
* `search_of_le` — a loop that has ended returns the same with more fuel.
-/

namespace MesReunions.BinarySearch

/-- `while (lo <= hi)`, with `hi` as it may become `-1`. -/
def search (side : Nat → Ordering) : (fuel : Nat) → (lo hi : Int) → Option Nat
  | 0, _, _ => none
  | fuel + 1, lo, hi =>
      if lo ≤ hi then
        let mid := (lo + hi) / 2
        match side mid.toNat with
        | .lt => search side fuel lo (mid - 1)
        | .gt => search side fuel (mid + 1) hi
        | .eq => some mid.toNat
      else none

variable {side : Nat → Ordering}

theorem search_sound {fuel i : Nat} {lo hi : Int} (h : search side fuel lo hi = some i) :
    side i = .eq := by
  induction fuel generalizing lo hi with
  | zero => cases h
  | succ fuel ih =>
      rw [search] at h
      split at h
      · dsimp only at h
        split at h
        · exact ih h
        · exact ih h
        · rename_i hside
          cases h
          exact hside
      · cases h

/-- The sides go from after to before, as the positions go up. -/
structure Sorted (side : Nat → Ordering) : Prop where
  lt : ∀ {i j : Nat}, i ≤ j → side i = .lt → side j = .lt
  gt : ∀ {i j : Nat}, i ≤ j → side j = .gt → side i = .gt

theorem search_complete (hsorted : Sorted side) {fuel k : Nat} {lo hi : Int} (hlo : 0 ≤ lo)
    (hk : lo ≤ k ∧ (k : Int) ≤ hi) (hside : side k = .eq) (hfuel : hi + 1 - lo ≤ fuel) :
    ∃ i, search side fuel lo hi = some i := by
  induction fuel generalizing lo hi with
  | zero => omega
  | succ fuel ih =>
      rw [search, if_pos (by omega)]
      dsimp only
      have hmid : (((lo + hi) / 2).toNat : Int) = (lo + hi) / 2 := Int.toNat_of_nonneg (by omega)
      split
      · rename_i hbefore
        have hlt : k < ((lo + hi) / 2).toNat := by
          by_contra hle
          have := hsorted.lt (Nat.not_lt.mp hle) hbefore
          rw [hside] at this
          cases this
        exact ih hlo (by omega) (by omega)
      · rename_i hafter
        have hlt : ((lo + hi) / 2).toNat < k := by
          by_contra hle
          have := hsorted.gt (Nat.not_lt.mp hle) hafter
          rw [hside] at this
          cases this
        exact ih (by omega) (by omega) (by omega)
      · exact ⟨_, rfl⟩

/-- The window shrinks at each turn. -/
theorem search_of_le {fuel more : Nat} {lo hi : Int} (hlo : 0 ≤ lo) (hfuel : hi + 1 - lo ≤ fuel)
    (hmore : fuel ≤ more) : search side more lo hi = search side fuel lo hi := by
  induction fuel generalizing lo hi more with
  | zero =>
      cases more with
      | zero => rfl
      | succ more => rw [search, search, if_neg (by omega)]
  | succ fuel ih =>
      obtain ⟨more, rfl⟩ : ∃ n, more = n + 1 := ⟨more - 1, by omega⟩
      rw [search, search]
      split
      · dsimp only
        split
        · exact ih hlo (by omega) (by omega)
        · exact ih (by omega) (by omega) (by omega)
        · rfl
      · rfl

end MesReunions.BinarySearch
