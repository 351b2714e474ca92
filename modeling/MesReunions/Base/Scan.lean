import Mathlib.Data.List.Basic
import Mathlib.Data.List.TakeWhile
import Mathlib.Tactic

/-!
# Scanning from the left

The two moves of a deterministic scanner, each with the equation that says when it
succeeds and what it leaves:

* **`lit w s`** — drop the word `w` from the front of `s`.
* **`run1 p s`** — the longest run of `p`, which must not be empty.

A regular expression in which no part can end where the next one may begin is a
sequence of these.
-/

namespace MesReunions.Scan

universe u

variable {α : Type u}

/-- `s` without its prefix `w`. -/
def lit [DecidableEq α] (w s : List α) : Option (List α) := s.dropPrefix? w

theorem lit_eq_some [DecidableEq α] {w s r : List α} : lit w s = some r ↔ s = w ++ r := by
  simp [lit, List.dropPrefix?_eq_some_iff]

@[simp] theorem lit_append [DecidableEq α] (w r : List α) : lit w (w ++ r) = some r := lit_eq_some.mpr rfl

theorem lit_eq_none [DecidableEq α] {w s : List α} (h : ¬ w <+: s) : lit w s = none := by
  cases hl : lit w s with
  | none => rfl
  | some r => exact absurd ⟨r, (lit_eq_some.mp hl).symm⟩ h

/-- The longest non-empty run of `p`, and what follows it. -/
def run1 (p : α → Bool) (s : List α) : Option (List α × List α) :=
  if s.takeWhile p = [] then none else some (s.takeWhile p, s.dropWhile p)

/-- What is dropped is a run of `p`. -/
theorem exists_eq_append_dropWhile (p : α → Bool) (s : List α) :
    ∃ x, (∀ a ∈ x, p a = true) ∧ s = x ++ s.dropWhile p :=
  ⟨s.takeWhile p, fun _ ha => List.mem_takeWhile_imp ha,
    (List.takeWhile_append_dropWhile (p := p) (l := s)).symm⟩

/-- A run of `p` is dropped whole when what follows does not continue it. -/
theorem dropWhile_append_stop {p : α → Bool} {x r : List α} (hx : ∀ a ∈ x, p a = true)
    (hr : ∀ a, r.head? = some a → p a = false) : (x ++ r).dropWhile p = r := by
  rw [List.dropWhile_append_of_pos hx]
  cases r with
  | nil => rfl
  | cons a r => simp [hr a rfl]

theorem takeWhile_append_stop {p : α → Bool} {x r : List α} (hx : ∀ a ∈ x, p a = true)
    (hr : ∀ a, r.head? = some a → p a = false) : (x ++ r).takeWhile p = x := by
  rw [List.takeWhile_append_of_pos hx]
  cases r with
  | nil => simp
  | cons a r => simp [hr a rfl]

/-- Where a run of `p` ends is determined. -/
theorem append_inj_of_stop {p : α → Bool} {a b c d : List α} (ha : ∀ x ∈ a, p x = true)
    (hb : ∀ x, b.head? = some x → p x = false) (hc : ∀ x ∈ c, p x = true)
    (hd : ∀ x, d.head? = some x → p x = false) (h : a ++ b = c ++ d) : a = c ∧ b = d := by
  have hrun := congrArg (List.takeWhile p) h
  rw [takeWhile_append_stop ha hb, takeWhile_append_stop hc hd] at hrun
  subst hrun
  exact ⟨rfl, List.append_cancel_left h⟩

theorem run1_append {p : α → Bool} {x r : List α} (hne : x ≠ []) (hx : ∀ a ∈ x, p a = true)
    (hr : ∀ a, r.head? = some a → p a = false) : run1 p (x ++ r) = some (x, r) := by
  rw [run1, takeWhile_append_stop hx hr, dropWhile_append_stop hx hr, if_neg hne]

theorem run1_eq_some {p : α → Bool} {s x r : List α} (h : run1 p s = some (x, r)) :
    x ≠ [] ∧ (∀ a ∈ x, p a = true) ∧ s = x ++ r := by
  unfold run1 at h
  split at h
  · cases h
  · rename_i hne
    simp only [Option.some.injEq, Prod.mk.injEq] at h
    obtain ⟨rfl, rfl⟩ := h
    exact ⟨hne, fun _ ha => List.mem_takeWhile_imp ha, List.takeWhile_append_dropWhile.symm⟩

/-- No run where the first letter is no `p`. -/
theorem run1_eq_none {p : α → Bool} {s : List α} (h : ∀ a, s.head? = some a → p a = false) :
    run1 p s = none := by
  cases s with
  | nil => rfl
  | cons a s => simp [run1, h a rfl]

end MesReunions.Scan
