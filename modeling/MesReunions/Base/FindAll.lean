import MesReunions.Base.Str

/-!
# All the matches of an expression

`re.finditer`, for an expression given by what it finds at one place: it is tried from left to
right, and goes on behind what it found.

* **`findAll_append`** — where no match goes over a border, both sides are searched alone.
* **`findAll_quiet`** — a part in which nothing is found is passed over.
-/

namespace MesReunions.Str

variable {β : Type}

/-- The matches in a text. `prev` is the character before it, and the next `skip` characters
belong to a match already found. -/
def findAll (find : Option Char → Str → Option (β × Nat)) : Option Char → Nat → Str → List β
  | _, _, [] => []
  | _, skip + 1, c :: s => findAll find (some c) skip s
  | prev, 0, c :: s =>
      match find prev (c :: s) with
      | some (b, n) => b :: findAll find (some c) (n - 1) s
      | none => findAll find (some c) 0 s

/-- The character before what follows `s`. -/
def lastOr (prev : Option Char) (s : Str) : Option Char := s.getLast?.or prev

@[simp] theorem lastOr_nil (prev : Option Char) : lastOr prev [] = prev := rfl

theorem lastOr_cons (prev : Option Char) (c : Char) (s : Str) :
    lastOr prev (c :: s) = lastOr (some c) s := by
  cases s <;> simp [lastOr, List.getLast?_cons]

theorem lastOr_append (prev : Option Char) (s t : Str) :
    lastOr prev (s ++ t) = lastOr (lastOr prev s) t := by
  induction s generalizing prev with
  | nil => rfl
  | cons c s ih => rw [List.cons_append, lastOr_cons, lastOr_cons, ih]

theorem lastOr_of_ne_nil {s : Str} (h : s ≠ []) (prev : Option Char) :
    lastOr prev s = some (s.getLast h) := by
  rw [lastOr, List.getLast?_eq_some_getLast h, Option.some_or]

section

variable {find : Option Char → Str → Option (β × Nat)}

/-- **Two parts that no match goes over.** -/
theorem findAll_append (hlen : ∀ {p s b n}, find p s = some (b, n) → n ≤ s.length) {b : Str} :
    ∀ {a : Str} {prev : Option Char} {skip : Nat}, skip ≤ a.length →
      (∀ x s, a = x ++ s → s ≠ [] → find (lastOr prev x) (s ++ b) = find (lastOr prev x) s) →
      findAll find prev skip (a ++ b) =
        findAll find prev skip a ++ findAll find (lastOr prev a) 0 b := by
  intro a
  induction a with
  | nil =>
      intro prev skip hskip _
      obtain rfl : skip = 0 := by simpa using hskip
      simp [findAll]
  | cons c a ih =>
      intro prev skip hskip hlocal
      have htail : ∀ x s, a = x ++ s → s ≠ [] →
          find (lastOr (some c) x) (s ++ b) = find (lastOr (some c) x) s := by
        intro x s ha hs
        have hsame := hlocal (c :: x) s (by rw [ha, List.cons_append]) hs
        rwa [lastOr_cons] at hsame
      rw [List.cons_append, lastOr_cons]
      cases skip with
      | succ skip =>
          rw [findAll, findAll]
          exact ih (by simpa using hskip) htail
      | zero =>
          have hhead := hlocal [] (c :: a) rfl (List.cons_ne_nil _ _)
          rw [lastOr_nil, List.cons_append] at hhead
          rw [findAll, findAll, hhead]
          cases hfind : find prev (c :: a) with
          | none => exact ih (Nat.zero_le _) htail
          | some found =>
              obtain ⟨l, n⟩ := found
              have hn := hlen hfind
              dsimp only
              rw [List.cons_append, ih (by rw [List.length_cons] at hn; omega) htail]

/-- **A part in which nothing begins.** -/
theorem findAll_quiet {b : Str} : ∀ {a : Str} {prev : Option Char},
    (∀ x s, a = x ++ s → s ≠ [] → find (lastOr prev x) (s ++ b) = none) →
      findAll find prev 0 (a ++ b) = findAll find (lastOr prev a) 0 b := by
  intro a
  induction a with
  | nil => intros; rfl
  | cons c a ih =>
      intro prev hquiet
      have hhead := hquiet [] (c :: a) rfl (List.cons_ne_nil _ _)
      rw [lastOr_nil, List.cons_append] at hhead
      rw [List.cons_append, lastOr_cons, findAll, hhead]
      refine ih fun x s ha hs => ?_
      have hnone := hquiet (c :: x) s (by rw [ha, List.cons_append]) hs
      rwa [lastOr_cons] at hnone

/-- What is found was found somewhere. -/
theorem exists_of_mem_findAll {l : β} : ∀ {a : Str} {prev : Option Char} {skip : Nat},
    l ∈ findAll find prev skip a → ∃ p s n, find p s = some (l, n) := by
  intro a
  induction a with
  | nil => exact fun h => absurd h List.not_mem_nil
  | cons c a ih =>
      intro prev skip h
      cases skip with
      | succ skip => exact ih h
      | zero =>
          rw [findAll] at h
          cases hfind : find prev (c :: a) with
          | none =>
              rw [hfind] at h
              exact ih h
          | some found =>
              rw [hfind] at h
              rcases List.mem_cons.mp h with rfl | h
              · exact ⟨prev, c :: a, found.2, hfind⟩
              · exact ih h

end

end MesReunions.Str
