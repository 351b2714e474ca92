import MesReunions.Base.Str

/-!
# Slices, and lengths in UTF-16 units

* `slice` — `x[lo:hi]`, with positions that count from the start.
* `utf16` — the units of a text; a character beyond the BMP has two.
* **`slice_utf16`** — between the lengths of what comes before a part and of what comes with
  it, the units are those of the part.
-/

namespace MesReunions

open Str

/-! ## Slices -/

/-- `x[lo:hi]` -/
def slice {α : Type*} (x : List α) (lo hi : Nat) : List α := (x.take hi).drop lo

section Slices

variable {α : Type*} {x : List α}

theorem length_slice (x : List α) (lo hi : Nat) :
    (slice x lo hi).length = min hi x.length - lo := by
  rw [slice, List.length_drop, List.length_take]

theorem getElem?_slice (x : List α) {lo hi i : Nat} (h : lo + i < hi) :
    (slice x lo hi)[i]? = x[lo + i]? := by
  rw [slice, List.getElem?_drop, List.getElem?_take_of_lt h]

theorem take_slice_drop (x : List α) {lo hi : Nat} (h : lo ≤ hi) :
    x.take lo ++ slice x lo hi ++ x.drop hi = x := by
  have htake : x.take lo = (x.take hi).take lo := by rw [List.take_take, min_eq_left h]
  rw [htake, slice, List.take_append_drop, List.take_append_drop]

theorem slice_append (x : List α) {a b c : Nat} (hab : a ≤ b) (hbc : b ≤ c) :
    slice x a b ++ slice x b c = slice x a c := by
  have htake : x.take b = (x.take c).take b := by rw [List.take_take, min_eq_left hbc]
  have hdrop : (x.take c).drop b = ((x.take c).drop a).drop (b - a) := by
    rw [List.drop_drop, show a + (b - a) = b by omega]
  rw [slice, slice, slice, htake, List.drop_take, hdrop, List.take_append_drop]

theorem slice_mid (a b c : List α) :
    slice (a ++ b ++ c) a.length (a.length + b.length) = b := by
  rw [slice, ← List.length_append, List.take_left, List.drop_left]

end Slices

/-! ## UTF-16 -/

/-- The units of one character. -/
def units (c : Char) : List Nat :=
  if c.toNat < 0x10000 then [c.toNat]
  else [0xD800 + (c.toNat - 0x10000) / 0x400, 0xDC00 + (c.toNat - 0x10000) % 0x400]

/-- `s.encode("utf-16-le")`, two octets a unit. -/
def utf16 (s : Str) : List Nat := s.flatMap units

/-- `utf16_len(s)` -/
def utf16Len (s : Str) : Nat := (utf16 s).length

theorem utf16_append (s t : Str) : utf16 (s ++ t) = utf16 s ++ utf16 t := List.flatMap_append

theorem utf16Len_append (s t : Str) : utf16Len (s ++ t) = utf16Len s + utf16Len t := by
  rw [utf16Len, utf16_append, List.length_append]
  rfl

/-- **The units of a part of a text.** -/
theorem slice_utf16 (s t u : Str) :
    slice (utf16 (s ++ t ++ u)) (utf16Len s) (utf16Len (s ++ t)) = utf16 t := by
  rw [utf16_append, slice, utf16Len, utf16Len, List.take_left, utf16_append, List.drop_left]

end MesReunions
