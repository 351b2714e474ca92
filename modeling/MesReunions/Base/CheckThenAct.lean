import Mathlib.Logic.Basic

/-!
# Check, then act

Agents look whether a key is free and take it in a later step. `holds k o` says that `o` has
the key `k`, `pending k a` that agent `a` found `k` free and has not taken it yet, and
`mine a o` that `o` is what `a` would take a key for.

* **`Exclusive`** — one holder and one pending agent a key, and a pending agent whose key is
  held finds its own there.
* `Exclusive.quiet`, `Exclusive.check`, `Exclusive.act` — the three kinds of step. A check
  needs more than the look itself: no other agent may be pending for that key.
-/

namespace MesReunions.CheckThenAct

universe u v w

variable {κ : Type u} {ο : Type v} {α : Type w} {mine : α → ο → Prop}

/-- At most one holder a key, with checks in flight. -/
structure Exclusive (mine : α → ο → Prop) (holds : κ → ο → Prop) (pending : κ → α → Prop) :
    Prop where
  one : ∀ {k o o'}, holds k o → holds k o' → o = o'
  alone : ∀ {k a a'}, pending k a → pending k a' → a = a'
  free : ∀ {k a o}, pending k a → holds k o → mine a o

namespace Exclusive

variable {holds holds' : κ → ο → Prop} {pending pending' : κ → α → Prop}

/-- Keys are given back and agents give up. -/
theorem quiet (h : Exclusive mine holds pending) (hholds : ∀ k o, holds' k o → holds k o)
    (hpending : ∀ k a, pending' k a → pending k a) : Exclusive mine holds' pending' where
  one := fun ho ho' => h.one (hholds _ _ ho) (hholds _ _ ho')
  alone := fun ha ha' => h.alone (hpending _ _ ha) (hpending _ _ ha')
  free := fun ha ho => h.free (hpending _ _ ha) (hholds _ _ ho)

/-- Agent `a` finds `k` free, and no other agent is pending for it. -/
theorem check (h : Exclusive mine holds pending) {k : κ} {a : α}
    (hfree : ∀ o, holds k o → mine a o) (halone : ∀ a', pending k a' → a' = a)
    (hholds : ∀ k o, holds' k o → holds k o)
    (hpending : ∀ k' a', pending' k' a' → pending k' a' ∨ k' = k ∧ a' = a) :
    Exclusive mine holds' pending' where
  one := fun ho ho' => h.one (hholds _ _ ho) (hholds _ _ ho')
  alone := by
    intro k' a₁ a₂ h₁ h₂
    rcases hpending _ _ h₁ with h₁ | ⟨rfl, rfl⟩ <;> rcases hpending _ _ h₂ with h₂ | ⟨hk, rfl⟩
    · exact h.alone h₁ h₂
    · subst hk
      exact halone _ h₁
    · exact (halone _ h₂).symm
    · rfl
  free := by
    intro k' a' o ha ho
    rcases hpending _ _ ha with ha | ⟨rfl, rfl⟩
    · exact h.free ha (hholds _ _ ho)
    · exact hfree o (hholds _ _ ho)

/-- Agent `a`, pending for `k`, takes it for `o`. -/
theorem act (h : Exclusive mine holds pending) {k : κ} {a : α} {o : ο} (ha : pending k a)
    (hsame : ∀ o', holds k o' → mine a o' → o' = o)
    (hholds : ∀ k' o', holds' k' o' → holds k' o' ∨ k' = k ∧ o' = o)
    (hpending : ∀ k' a', pending' k' a' → pending k' a')
    (hleft : pending' k a → mine a o) : Exclusive mine holds' pending' where
  one := by
    intro k' o₁ o₂ h₁ h₂
    rcases hholds _ _ h₁ with h₁ | ⟨rfl, rfl⟩ <;> rcases hholds _ _ h₂ with h₂ | ⟨hk, rfl⟩
    · exact h.one h₁ h₂
    · subst hk
      exact hsame _ h₁ (h.free ha h₁)
    · exact (hsame _ h₂ (h.free ha h₂)).symm
    · rfl
  alone := fun h₁ h₂ => h.alone (hpending _ _ h₁) (hpending _ _ h₂)
  free := by
    intro k' a' o' ha' ho'
    rcases hholds _ _ ho' with ho' | ⟨rfl, rfl⟩
    · exact h.free (hpending _ _ ha') ho'
    · -- whoever is still pending for the key is `a` itself
      have hsame' : a' = a := h.alone (hpending _ _ ha') ha
      subst hsame'
      exact hleft ha'

end Exclusive

end MesReunions.CheckThenAct
