import Mathlib

/-!
# Python strings

A Python `str` is a list of code points. This module fixes the representation
(`Str`) and the handful of `str` methods a text-processing program leans on:
`strip`, `split("\n")`, `join`, `startswith`, `replace`, and the character
classes `\s` and `\d` of the two regular-expression dialects in use (Python's
`re` on `str`, and ECMAScript without the `u` flag).

Nothing here knows about transcripts, queues or jobs.
-/

namespace MesReunions

/-- A Python `str`: its code points, in order. -/
abbrev Str := List Char

instance : LawfulBEq Str := inferInstance

namespace Str

/-! ## Character classes -/

/-- `c.isspace()`, which is also what `\s` matches in a `str` pattern. -/
def isSpace (c : Char) : Bool :=
  let n := c.toNat
  (9 ≤ n && n ≤ 13) || (28 ≤ n && n ≤ 32) || n == 0x85 || n == 0xA0 || n == 0x1680 ||
    (0x2000 ≤ n && n ≤ 0x200A) || n == 0x2028 || n == 0x2029 || n == 0x202F ||
    n == 0x205F || n == 0x3000

/-- ECMAScript `WhiteSpace` and `LineTerminator`: what `\s` matches there and
what `trim` removes. It lacks U+001C..U+001F and U+0085 and has U+FEFF. -/
def isSpaceJs (c : Char) : Bool :=
  let n := c.toNat
  (9 ≤ n && n ≤ 13) || n == 32 || n == 0xA0 || n == 0x1680 ||
    (0x2000 ≤ n && n ≤ 0x200A) || n == 0x2028 || n == 0x2029 || n == 0x202F ||
    n == 0x205F || n == 0x3000 || n == 0xFEFF

/-- The zero of every run of ten decimal digits (general category `Nd`). -/
def decimalZeros : List Nat :=
  [0x30, 0x660, 0x6F0, 0x7C0, 0x966, 0x9E6, 0xA66, 0xAE6, 0xB66, 0xBE6, 0xC66, 0xCE6,
   0xD66, 0xDE6, 0xE50, 0xED0, 0xF20, 0x1040, 0x1090, 0x17E0, 0x1810, 0x1946, 0x19D0,
   0x1A80, 0x1A90, 0x1B50, 0x1BB0, 0x1C40, 0x1C50, 0xA620, 0xA8D0, 0xA900, 0xA9D0,
   0xA9F0, 0xAA50, 0xABF0, 0xFF10, 0x104A0, 0x10D30, 0x11066, 0x110F0, 0x11136,
   0x111D0, 0x112F0, 0x11450, 0x114D0, 0x11650, 0x116C0, 0x11730, 0x118E0, 0x11950,
   0x11C50, 0x11D50, 0x11DA0, 0x11F50, 0x16A60, 0x16AC0, 0x16B50, 0x1D7CE, 0x1D7D8,
   0x1D7E2, 0x1D7EC, 0x1D7F6, 0x1E140, 0x1E2F0, 0x1E4F0, 0x1E950, 0x1FBF0]

/-- The value of a decimal digit of any script, `none` for another character. -/
def digitVal? (c : Char) : Option Nat :=
  (decimalZeros.find? fun z => z ≤ c.toNat && c.toNat < z + 10).map (c.toNat - ·)

/-- What `\d` matches in a `str` pattern. -/
def isDigit (c : Char) : Bool := (digitVal? c).isSome

/-- What `\d` matches in ECMAScript. -/
def isDigitJs (c : Char) : Bool := 48 ≤ c.toNat && c.toNat ≤ 57

/-- The number a run of digits denotes (`int` on what `\d+` matched). -/
def natOfDigits (s : Str) : Nat :=
  s.foldl (fun acc c => 10 * acc + (digitVal? c).getD 0) 0

/-! ## Stripping -/

/-- `s.lstrip()` -/
def lstrip (s : Str) : Str := s.dropWhile isSpace

/-- `s.rstrip()` -/
def rstrip (s : Str) : Str := s.rdropWhile isSpace

/-- `s.strip()` -/
def strip (s : Str) : Str := rstrip (lstrip s)

/-- `s.lstrip(c)` -/
def lstripChar (c : Char) (s : Str) : Str := s.dropWhile (· == c)

@[simp] theorem rstrip_nil : rstrip [] = [] := by simp [rstrip]

@[simp] theorem lstrip_nil : lstrip [] = [] := rfl

@[simp] theorem strip_nil : strip [] = [] := by simp [strip]

theorem prefix_of_rstrip (s : Str) : rstrip s <+: s := List.rdropWhile_prefix isSpace s

theorem mem_of_mem_rstrip {c : Char} {s : Str} (h : c ∈ rstrip s) : c ∈ s :=
  (prefix_of_rstrip s).subset h

theorem mem_of_mem_strip {c : Char} {s : Str} (h : c ∈ strip s) : c ∈ s :=
  (List.dropWhile_suffix isSpace).subset (mem_of_mem_rstrip h)

@[simp] theorem rstrip_rstrip (s : Str) : rstrip (rstrip s) = rstrip s :=
  List.rdropWhile_idempotent isSpace s

theorem rstrip_concat_of_not {s : Str} {c : Char} (h : isSpace c = false) :
    rstrip (s ++ [c]) = s ++ [c] :=
  List.rdropWhile_concat_neg isSpace s c (by simp [h])

theorem rstrip_concat_of_space {s : Str} {c : Char} (h : isSpace c = true) :
    rstrip (s ++ [c]) = rstrip s :=
  List.rdropWhile_concat_pos isSpace s c h

/-- Trailing blanks of the second half are all `rstrip` looks at, unless that
half is blank. -/
theorem rstrip_append {s t : Str} (h : rstrip t ≠ []) : rstrip (s ++ t) = s ++ rstrip t := by
  induction t using List.reverseRecOn with
  | nil => simp at h
  | append_singleton t c ih =>
      cases hc : isSpace c with
      | true =>
          rw [rstrip_concat_of_space hc] at h
          rw [← List.append_assoc, rstrip_concat_of_space hc, rstrip_concat_of_space hc, ih h]
      | false =>
          rw [← List.append_assoc, rstrip_concat_of_not hc, rstrip_concat_of_not hc,
            List.append_assoc]

/-- A blank tail disappears. -/
theorem rstrip_append_blank {s t : Str} (h : rstrip t = []) : rstrip (s ++ t) = rstrip s := by
  induction t using List.reverseRecOn with
  | nil => simp
  | append_singleton t c ih =>
      cases hc : isSpace c with
      | true =>
          rw [rstrip_concat_of_space hc] at h
          rw [← List.append_assoc, rstrip_concat_of_space hc, ih h]
      | false => rw [rstrip_concat_of_not hc] at h; simp at h

theorem rstrip_cons_of_not {c : Char} (h : isSpace c = false) (s : Str) :
    rstrip (c :: s) = c :: rstrip s := by
  by_cases hs : rstrip s = []
  · rw [show c :: s = [c] ++ s from rfl, rstrip_append_blank hs, hs]
    exact rstrip_concat_of_not (s := []) h
  · rw [show c :: s = [c] ++ s from rfl, rstrip_append hs]
    rfl

/-- `rstrip` keeps the first character of a string that does not start blank. -/
theorem head?_rstrip_of_not {c : Char} {s : Str} (h : isSpace c = false) :
    (rstrip s).head? = some c ↔ s.head? = some c := by
  cases s with
  | nil => simp
  | cons d s =>
      cases hd : isSpace d with
      | false => rw [rstrip_cons_of_not hd]; simp
      | true =>
          have hne : d ≠ c := fun he => by rw [he, h] at hd; cases hd
          constructor
          · intro hh
            obtain ⟨t, ht⟩ := prefix_of_rstrip (d :: s)
            cases hr : rstrip (d :: s) with
            | nil => rw [hr] at hh; simp at hh
            | cons e r =>
                rw [hr] at hh ht
                injection ht with he
                simp only [List.head?_cons, Option.some.injEq] at hh
                exact absurd (he.symm.trans hh) hne
          · intro hh
            simp only [List.head?_cons, Option.some.injEq] at hh
            exact absurd hh hne

/-- What ends in a character that is no blank stays. -/
theorem rstrip_append_of_rstrip {s : Str} (h : rstrip s = s) (t : Str) :
    rstrip (s ++ t) = s ++ rstrip t := by
  by_cases ht : rstrip t = []
  · rw [rstrip_append_blank ht, h, ht, List.append_nil]
  · exact rstrip_append ht

theorem lstrip_of_head {c : Char} {s : Str} (h : isSpace c = false) :
    lstrip (c :: s) = c :: s := by
  simp [lstrip, h]

/-- `strip` changes nothing exactly on what has no blank at either end. -/
theorem strip_eq_self_of_ends {s : Str} (hl : lstrip s = s) (hr : rstrip s = s) :
    strip s = s := by rw [strip, hl, hr]

theorem lstrip_head_not {s : Str} {c : Char} (h : (lstrip s).head? = some c) :
    isSpace c = false := by
  have hnot := List.head?_dropWhile_not isSpace s
  rw [← lstrip.eq_1 s, h] at hnot
  exact hnot

@[simp] theorem lstrip_strip (s : Str) : lstrip (strip s) = strip s := by
  cases hs : lstrip s with
  | nil => simp [strip, hs]
  | cons c t =>
      have hc : isSpace c = false := lstrip_head_not (s := s) (by rw [hs]; rfl)
      rw [strip, hs, rstrip_cons_of_not hc, lstrip_of_head hc]

@[simp] theorem rstrip_strip (s : Str) : rstrip (strip s) = strip s := rstrip_rstrip _

@[simp] theorem strip_strip (s : Str) : strip (strip s) = strip s :=
  strip_eq_self_of_ends (lstrip_strip s) (rstrip_strip s)

/-- One blank before a stripped string is what `strip` removes. -/
theorem strip_space_cons {c : Char} (h : isSpace c = true) (s : Str) :
    strip (c :: s) = strip s := by
  simp [strip, lstrip, h]

@[simp] theorem strip_rstrip (s : Str) : strip (rstrip s) = strip s := by
  induction s with
  | nil => simp
  | cons c s ih =>
      cases hc : isSpace c with
      | false =>
          rw [rstrip_cons_of_not hc, strip, strip, lstrip_of_head hc, lstrip_of_head hc,
            rstrip_cons_of_not hc, rstrip_cons_of_not hc, rstrip_rstrip]
      | true =>
          rw [strip_space_cons hc, ← ih]
          by_cases hs : rstrip s = []
          · rw [show c :: s = [c] ++ s from rfl, rstrip_append_blank hs, hs, strip_nil,
              show [c] = [] ++ [c] from rfl, rstrip_concat_of_space hc, rstrip_nil, strip_nil]
          · rw [show c :: s = [c] ++ s from rfl, rstrip_append hs, List.singleton_append,
              strip_space_cons hc]

/-- Only blanks are stripped. -/
theorem mem_rstrip_iff {c : Char} (h : isSpace c = false) {s : Str} : c ∈ rstrip s ↔ c ∈ s := by
  refine ⟨mem_of_mem_rstrip, fun hc => ?_⟩
  induction s using List.reverseRecOn with
  | nil => cases hc
  | append_singleton s d ih =>
      cases hd : isSpace d with
      | false => rwa [rstrip_concat_of_not hd]
      | true =>
          rw [rstrip_concat_of_space hd]
          rcases List.mem_append.mp hc with hc | hc
          · exact ih hc
          · rw [List.mem_singleton.mp hc, hd] at h
            cases h

theorem mem_strip_iff {c : Char} (h : isSpace c = false) {s : Str} : c ∈ strip s ↔ c ∈ s := by
  rw [strip, mem_rstrip_iff h, lstrip]
  refine ⟨fun hc => (List.dropWhile_suffix isSpace).subset hc, fun hc => ?_⟩
  rw [← List.takeWhile_append_dropWhile (p := isSpace) (l := s), List.mem_append] at hc
  rcases hc with hc | hc
  · rw [List.mem_takeWhile_imp hc] at h
    cases h
  · exact hc

end Str

end MesReunions
