import MesReunions.Base.Num
import MesReunions.Base.Scan

/-!
# Block headers

The regular expression that both parsers of a `speaker_tagged_text` use, in Python
(`puller.py`, `_reparse_speaker_tagged_blocks`) and in JavaScript (`legacy.js`,
`_parseSpeakerTagged`):

    ^\*\*([^*]+)\*\*\s*_\((\d+):(\d+(?:\.\d+)?)\s*→\s*(\d+):(\d+(?:\.\d+)?)\)_

It is the same text with two meanings, since `\s` and `\d` differ. No part of it can
end where the next may begin, so the match is a scan from the left.

* **`headRe_eq_some`** — the scan succeeds exactly on the lines of that shape.
-/

namespace MesReunions.Transcript

open Str Scan

/-! ## Character classes -/

/-- What `\s` and `\d` match. They are disjoint, and neither matches a character
the expression names. -/
structure Classes where
  space : Char → Bool
  digit : Char → Bool
  disjoint : ∀ c, space c = true → digit c = false
  marks : ∀ c ∈ ['_', '(', ')', ':', '.', '→', '*', '>'], space c = false ∧ digit c = false

/-- The code points of `str.isspace`. -/
def spaceCodes : List Nat :=
  [9, 10, 11, 12, 13, 28, 29, 30, 31, 32, 0x85, 0xA0, 0x1680, 0x2000, 0x2001, 0x2002, 0x2003,
   0x2004, 0x2005, 0x2006, 0x2007, 0x2008, 0x2009, 0x200A, 0x2028, 0x2029, 0x202F, 0x205F,
   0x3000]

theorem isSpace_codes {c : Char} (h : isSpace c = true) : c.toNat ∈ spaceCodes := by
  simp only [isSpace, Bool.or_eq_true, Bool.and_eq_true, decide_eq_true_eq, beq_iff_eq] at h
  simp only [spaceCodes, List.mem_cons, List.not_mem_nil, or_false]
  omega

theorem isSpace_not_digit {c : Char} (h : isSpace c = true) : isDigit c = false := by
  have hall : ∀ n ∈ spaceCodes,
      (decimalZeros.find? fun z => decide (z ≤ n) && decide (n < z + 10)) = none := by decide
  simp only [isDigit, digitVal?, hall _ (isSpace_codes h), Option.map_none, Option.isSome_none]

theorem isSpaceJs_not_digit {c : Char} (h : isSpaceJs c = true) : isDigitJs c = false := by
  simp only [isSpaceJs, Bool.or_eq_true, Bool.and_eq_true, decide_eq_true_eq, beq_iff_eq] at h
  simp only [isDigitJs, Bool.and_eq_false_iff, decide_eq_false_iff_not]
  omega

/-- Python's `re` on `str`. -/
def Classes.py : Classes where
  space := isSpace
  digit := isDigit
  disjoint _ := isSpace_not_digit
  marks c hc := by
    simp only [List.mem_cons, List.not_mem_nil, or_false] at hc
    rcases hc with rfl | rfl | rfl | rfl | rfl | rfl | rfl | rfl <;> exact ⟨rfl, rfl⟩

/-- ECMAScript without the `u` flag. -/
def Classes.js : Classes where
  space := isSpaceJs
  digit := isDigitJs
  disjoint _ := isSpaceJs_not_digit
  marks c hc := by
    simp only [List.mem_cons, List.not_mem_nil, or_false] at hc
    rcases hc with rfl | rfl | rfl | rfl | rfl | rfl | rfl | rfl <;> exact ⟨rfl, rfl⟩

/-! ## The scan -/

/-- The five groups. -/
structure Head where
  speaker : Str
  minStart : Str
  secStart : Str
  minEnd : Str
  secEnd : Str
  deriving DecidableEq

/-- `\d+(?:\.\d+)?` -/
def scanSeconds (cc : Classes) (s : Str) : Option (Str × Str) := do
  let (whole, rest) ← run1 cc.digit s
  match rest with
  | '.' :: rest' =>
      match run1 cc.digit rest' with
      | some (frac, rest'') => some (whole ++ '.' :: frac, rest'')
      | none => some (whole, rest)
  | _ => some (whole, rest)

/-- `(\d+):(\d+(?:\.\d+)?)` -/
def scanClock (cc : Classes) (s : Str) : Option ((Str × Str) × Str) := do
  let (minutes, s) ← run1 cc.digit s
  let s ← lit [':'] s
  let (seconds, s) ← scanSeconds cc s
  some ((minutes, seconds), s)

/-- `head_re.match(line)` -/
def headRe (cc : Classes) (line : Str) : Option Head := do
  let s ← lit ['*', '*'] line
  let (speaker, s) ← run1 (· != '*') s
  let s ← lit ['*', '*'] s
  let s ← lit ['_', '('] (s.dropWhile cc.space)
  let (start, s) ← scanClock cc s
  let s ← lit ['→'] (s.dropWhile cc.space)
  let (stop, s) ← scanClock cc (s.dropWhile cc.space)
  let _ ← lit [')', '_'] s
  some ⟨speaker, start.1, start.2, stop.1, stop.2⟩

/-! ## What it matches -/

/-- A non-empty run of digits. -/
structure Digits (cc : Classes) (x : Str) : Prop where
  ne : x ≠ []
  all : ∀ c ∈ x, cc.digit c = true

/-- Digits, or digits, a point and digits. -/
def Seconds (cc : Classes) (x : Str) : Prop :=
  ∃ whole, Digits cc whole ∧ (x = whole ∨ ∃ frac, Digits cc frac ∧ x = whole ++ '.' :: frac)

/-- The groups a match can have. -/
structure Head.Valid (cc : Classes) (h : Head) : Prop where
  speaker_ne : h.speaker ≠ []
  speaker : '*' ∉ h.speaker
  minStart : Digits cc h.minStart
  secStart : Seconds cc h.secStart
  minEnd : Digits cc h.minEnd
  secEnd : Seconds cc h.secEnd

def clockText (minutes seconds : Str) : Str := minutes ++ ':' :: seconds

/-- The text of a header, with given blanks. -/
def Head.text (h : Head) (sp₁ sp₂ sp₃ : Str) : Str :=
  ['*', '*'] ++ (h.speaker ++ (['*', '*'] ++ (sp₁ ++ (['_', '('] ++
    (clockText h.minStart h.secStart ++ (sp₂ ++ (['→'] ++ (sp₃ ++
      (clockText h.minEnd h.secEnd ++ [')', '_'])))))))))

section Clocks

variable {cc : Classes}

theorem mark_digit (cc : Classes) {c : Char} (h : c ∈ ['_', '(', ')', ':', '.', '→', '*', '>']) :
    cc.digit c = false := (cc.marks c h).2

theorem mark_space (cc : Classes) {c : Char} (h : c ∈ ['_', '(', ')', ':', '.', '→', '*', '>']) :
    cc.space c = false := (cc.marks c h).1

/-- What may follow a clock: it is over. -/
def Stops (cc : Classes) (r : Str) : Prop :=
  ∀ c, r.head? = some c → cc.digit c = false ∧ c ≠ '.'

theorem scanSeconds_append {x r : Str} (hx : Seconds cc x) (hr : Stops cc r) :
    scanSeconds cc (x ++ r) = some (x, r) := by
  obtain ⟨whole, hwhole, rfl | ⟨frac, hfrac, rfl⟩⟩ := hx
  · have hrun : run1 cc.digit (x ++ r) = some (x, r) :=
      run1_append hwhole.ne hwhole.all fun c hc => (hr c hc).1
    simp only [scanSeconds, hrun, Option.bind_eq_bind, Option.bind_some]
    split
    · exact absurd rfl (hr '.' rfl).2
    · rfl
  · have hrun : run1 cc.digit (whole ++ '.' :: frac ++ r) =
        some (whole, '.' :: (frac ++ r)) := by
      rw [List.append_assoc, List.cons_append]
      refine run1_append hwhole.ne hwhole.all fun c hc => ?_
      injection hc with hc
      rw [← hc]
      exact mark_digit cc (by decide)
    have hrun' : run1 cc.digit (frac ++ r) = some (frac, r) :=
      run1_append hfrac.ne hfrac.all fun c hc => (hr c hc).1
    simp only [scanSeconds, hrun, Option.bind_eq_bind, Option.bind_some, hrun']

theorem scanSeconds_eq_some {s x r : Str} (h : scanSeconds cc s = some (x, r)) :
    Seconds cc x ∧ s = x ++ r := by
  simp only [scanSeconds, Option.bind_eq_bind, Option.bind_eq_some_iff] at h
  obtain ⟨⟨whole, rest⟩, hrun, h⟩ := h
  obtain ⟨hne, hall, hs⟩ := run1_eq_some hrun
  dsimp only at h
  split at h
  · split at h
    · rename_i rest' frac rest'' hfrac
      obtain ⟨hfne, hfall, hrest⟩ := run1_eq_some hfrac
      simp only [Option.some.injEq, Prod.mk.injEq] at h
      obtain ⟨rfl, rfl⟩ := h
      exact ⟨⟨whole, ⟨hne, hall⟩, Or.inr ⟨frac, ⟨hfne, hfall⟩, rfl⟩⟩, by rw [hs, hrest]; simp⟩
    · simp only [Option.some.injEq, Prod.mk.injEq] at h
      obtain ⟨rfl, rfl⟩ := h
      exact ⟨⟨whole, ⟨hne, hall⟩, Or.inl rfl⟩, hs⟩
  · simp only [Option.some.injEq, Prod.mk.injEq] at h
    obtain ⟨rfl, rfl⟩ := h
    exact ⟨⟨whole, ⟨hne, hall⟩, Or.inl rfl⟩, hs⟩

theorem scanClock_append {m x r : Str} (hm : Digits cc m) (hx : Seconds cc x)
    (hr : Stops cc r) : scanClock cc (clockText m x ++ r) = some ((m, x), r) := by
  have hrun : run1 cc.digit (clockText m x ++ r) = some (m, [':'] ++ (x ++ r)) := by
    rw [clockText, List.append_assoc]
    refine run1_append hm.ne hm.all fun c hc => ?_
    injection hc with hc
    rw [← hc]
    exact mark_digit cc (by decide)
  simp only [scanClock, hrun, Option.bind_eq_bind, Option.bind_some, lit_append,
    scanSeconds_append hx hr]

theorem scanClock_eq_some {s m x r : Str} (h : scanClock cc s = some ((m, x), r)) :
    Digits cc m ∧ Seconds cc x ∧ s = clockText m x ++ r := by
  simp only [scanClock, Option.bind_eq_bind, Option.bind_eq_some_iff] at h
  obtain ⟨⟨m', rest⟩, hrun, rest', hlit, ⟨x', r'⟩, hsec, h⟩ := h
  obtain ⟨hne, hall, hs⟩ := run1_eq_some hrun
  obtain ⟨hx, hrest⟩ := scanSeconds_eq_some hsec
  simp only [Option.some.injEq, Prod.mk.injEq] at h
  obtain ⟨⟨rfl, rfl⟩, rfl⟩ := h
  refine ⟨⟨hne, hall⟩, hx, ?_⟩
  rw [hs, show rest = [':'] ++ rest' from lit_eq_some.mp hlit, hrest, clockText]
  simp

end Clocks

/-- Blanks, then a mark, end a clock. -/
theorem stops_blank_mark (cc : Classes) {s r : Str} {c : Char}
    (hsp : ∀ a ∈ s, cc.space a = true) (hc : c ∈ ['_', '(', ')', ':', '→', '*', '>']) :
    Stops cc (s ++ c :: r) := by
  have hmark : c ∈ ['_', '(', ')', ':', '.', '→', '*', '>'] := by
    revert hc
    simp only [List.mem_cons, List.not_mem_nil, or_false]
    tauto
  intro a ha
  cases s with
  | nil =>
      injection ha with ha
      rw [← ha]
      refine ⟨mark_digit cc hmark, ?_⟩
      rintro rfl
      simp at hc
  | cons b s =>
      injection ha with ha
      have hb : cc.space a = true := by rw [← ha]; exact hsp b List.mem_cons_self
      refine ⟨cc.disjoint a hb, ?_⟩
      rintro rfl
      rw [mark_space cc (by decide)] at hb
      cases hb

/-- Blanks before a mark are what `\s*` takes. -/
theorem dropWhile_blank (cc : Classes) {sp r : Str} (hsp : ∀ a ∈ sp, cc.space a = true)
    (hr : ∀ a, r.head? = some a → cc.space a = false) : (sp ++ r).dropWhile cc.space = r :=
  dropWhile_append_stop hsp hr

/-- A digit is no blank. -/
theorem digit_not_space {cc : Classes} {c : Char} (h : cc.digit c = true) :
    cc.space c = false := by
  by_contra hs
  rw [cc.disjoint c (by simpa using hs)] at h
  cases h

theorem clockText_head (cc : Classes) {m x r : Str} (hm : Digits cc m) (a : Char)
    (h : (clockText m x ++ r).head? = some a) : cc.space a = false := by
  cases m with
  | nil => exact absurd rfl hm.ne
  | cons b m =>
      injection h with h
      rw [← h]
      exact digit_not_space (hm.all b List.mem_cons_self)

/-- **The header expression.** A line matches exactly when it begins with a header
text, and the groups are those of that text. -/
theorem headRe_eq_some {cc : Classes} {line : Str} {h : Head} :
    headRe cc line = some h ↔ h.Valid cc ∧ ∃ sp₁ sp₂ sp₃ rest,
      (∀ c ∈ sp₁, cc.space c = true) ∧ (∀ c ∈ sp₂, cc.space c = true) ∧
      (∀ c ∈ sp₃, cc.space c = true) ∧ line = h.text sp₁ sp₂ sp₃ ++ rest := by
  constructor
  · intro hre
    simp only [headRe, Option.bind_eq_bind, Option.bind_eq_some_iff] at hre
    obtain ⟨s1, h1, ⟨speaker, s2⟩, h2, s3, h3, s4, h4, ⟨⟨m1, x1⟩, s5⟩, h5, s6, h6,
      ⟨⟨m2, x2⟩, s7⟩, h7, s8, h8, hh⟩ := hre
    injection hh with hh
    subst hh
    dsimp only at h3 h6 h7 h8
    obtain ⟨hne, hstar, h2⟩ := run1_eq_some h2
    obtain ⟨sp1, hsp1, hd1⟩ := exists_eq_append_dropWhile cc.space s3
    obtain ⟨hm1, hx1, h5⟩ := scanClock_eq_some h5
    obtain ⟨sp2, hsp2, hd2⟩ := exists_eq_append_dropWhile cc.space s5
    obtain ⟨sp3, hsp3, hd3⟩ := exists_eq_append_dropWhile cc.space s6
    obtain ⟨hm2, hx2, h7⟩ := scanClock_eq_some h7
    refine ⟨⟨hne, fun hmem => ?_, hm1, hx1, hm2, hx2⟩, sp1, sp2, sp3, s8, hsp1, hsp2, hsp3, ?_⟩
    · simpa using hstar '*' hmem
    · rw [lit_eq_some.mp h1, h2, lit_eq_some.mp h3, hd1, lit_eq_some.mp h4, h5, hd2,
        lit_eq_some.mp h6, hd3, h7, lit_eq_some.mp h8, Head.text]
      simp only [List.append_assoc]
  · rintro ⟨⟨hne, hstar, hm1, hx1, hm2, hx2⟩, sp1, sp2, sp3, rest, hsp1, hsp2, hsp3, rfl⟩
    have hspeaker : ∀ r : Str, run1 (· != '*') (h.speaker ++ (['*', '*'] ++ r)) =
        some (h.speaker, ['*', '*'] ++ r) := fun r =>
      run1_append hne (fun a ha => by
        simp only [bne_iff_ne, ne_eq]
        rintro rfl
        exact hstar ha) (fun a ha => by injection ha with ha; rw [← ha]; rfl)
    have hopen : ∀ r : Str, (sp1 ++ (['_', '('] ++ r)).dropWhile cc.space = ['_', '('] ++ r :=
      fun r => dropWhile_blank cc hsp1 fun a ha => by
        injection ha with ha; rw [← ha]; exact mark_space cc (by decide)
    have harrow : ∀ r : Str, (sp2 ++ (['→'] ++ r)).dropWhile cc.space = ['→'] ++ r :=
      fun r => dropWhile_blank cc hsp2 fun a ha => by
        injection ha with ha; rw [← ha]; exact mark_space cc (by decide)
    have hclock : ∀ r : Str, (sp3 ++ (clockText h.minEnd h.secEnd ++ r)).dropWhile cc.space =
        clockText h.minEnd h.secEnd ++ r :=
      fun r => dropWhile_blank cc hsp3 (clockText_head cc hm2)
    have hstart : ∀ r : Str, scanClock cc (clockText h.minStart h.secStart ++
        (sp2 ++ (['→'] ++ r))) = some ((h.minStart, h.secStart), sp2 ++ (['→'] ++ r)) :=
      fun r => scanClock_append hm1 hx1 (stops_blank_mark cc hsp2 (by decide))
    have hstop : ∀ r : Str, scanClock cc (clockText h.minEnd h.secEnd ++ ([')', '_'] ++ r)) =
        some ((h.minEnd, h.secEnd), [')', '_'] ++ r) :=
      fun r => scanClock_append hm2 hx2
        (stops_blank_mark cc (s := []) (fun a ha => absurd ha List.not_mem_nil) (by decide))
    simp only [headRe, Head.text, List.append_assoc, lit_append, hspeaker, hopen, hstart, harrow,
      hclock, hstop, Option.bind_eq_bind, Option.bind_some]

end MesReunions.Transcript
