/-!
# Attributes of a loaded row

A session of SQLAlchemy loads a row, lets the program assign to its attributes and writes
them at the flush. Only the attributes whose value differs from the one that was loaded are
in the `UPDATE`; the others keep what the row has by then.
-/

namespace MesReunions

universe u

variable {α : Type u} [DecidableEq α]

/-- An attribute after a commit: `new` where it differs from the value that was loaded. -/
def written (loaded new current : α) : α := if loaded = new then current else new

@[simp] theorem written_self (v current : α) : written v v current = current := if_pos rfl

theorem written_of_ne {loaded new : α} (h : loaded ≠ new) (current : α) :
    written loaded new current = new := if_neg h

theorem written_eq (loaded new current : α) :
    written loaded new current = new ∨ written loaded new current = current := by
  unfold written
  split
  · exact .inr rfl
  · exact .inl rfl

end MesReunions
