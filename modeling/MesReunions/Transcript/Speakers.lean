import MesReunions.Base.FindAll
import MesReunions.Transcript.RoundTrip

/-!
# The speakers that the analysis is told of

`meeting_intelligence.py`, `_extract_speaker_labels`: one expression finds generic labels
anywhere, and names in bold before a colon at the start of a line. `merge_to_markdown` puts no
colon after its names.

* **`extract_merge`** — what is found in a merged transcript is what is found in its labels and
  in its texts.
* **`speakersKnown_iff`** — when the labels found are those of the blocks.
* **`named_not_known`** — a speaker who was given a name is not found.
-/

namespace MesReunions.Transcript

open Str Scan

/-! ## The expression -/

/-- `\w`, of which this is known. -/
structure WordChars where
  isWord : Char → Bool
  digit : ∀ c, isDigit c = true → isWord c = true
  letter : ∀ c ∈ ['S', 'P', 'E', 'A', 'K', 'R', 'I', 'n', 't', 'e', 'r', 'v', 'a', '_'],
    isWord c = true
  space : ∀ c, isSpace c = true → isWord c = false
  mark : ∀ c ∈ ['*', '>', '(', ')', ':', '→', '.', '-'], isWord c = false

/-- `(?:SPEAKER|Intervenant)_` -/
def generic? (w : Str) : Option Str :=
  (lit ['S', 'P', 'E', 'A', 'K', 'E', 'R', '_'] w).or
    (lit ['I', 'n', 't', 'e', 'r', 'v', 'e', 'n', 'a', 'n', 't', '_'] w)

/-- `(?:SPEAKER|Intervenant)_\d+` is the whole of `w`. -/
def isGeneric (w : Str) : Bool :=
  match generic? w with
  | some digits => !digits.isEmpty && digits.all isDigit
  | none => false

/-- `[^*:]` -/
def isNameChar (c : Char) : Bool := c != '*' && c != ':'

/-- `\*\*\s*:` -/
def closing (x : Str) : Option Str := do
  let r ← lit ['*', '*'] x
  lit [':'] (lstrip r)

/-- `\s*\*\*\s*([^*:]+?)\s*\*\*\s*:`, with the stripped group and the length of the match. -/
def boldAt (s : Str) : Option (Str × Nat) := do
  let r ← lit ['*', '*'] (lstrip s)
  let name := r.takeWhile isNameChar
  if name = [] then none
  else
    let rest ← closing (r.dropWhile isNameChar)
    some (strip name, s.length - rest.length)

/-- What `_SPEAKER_LABEL_RE` finds at one place. Word boundaries on both sides make a generic
label a whole word; `^` is the start of a line. -/
def labelAt (wc : WordChars) (prev : Option Char) (s : Str) : Option (Str × Nat) :=
  let word := s.takeWhile wc.isWord
  if (prev.all fun c => !wc.isWord c) && isGeneric word then some (word, word.length)
  else if prev = none ∨ prev = some '\n' then boldAt s
  else none

/-- The labels in a text that has `prev` before it. -/
def labelsIn (wc : WordChars) (prev : Option Char) (text : Str) : List Str :=
  (findAll (labelAt wc) prev 0 text).filter fun l => !l.isEmpty

/-- `_extract_speaker_labels(speaker_tagged_text)`, as a set. -/
def extractSpeakerLabels (wc : WordChars) (text : Str) : List Str := labelsIn wc none text

/-! ## One place -/

theorem labelAt_length {wc : WordChars} {p : Option Char} {s l : Str} {n : Nat}
    (h : labelAt wc p s = some (l, n)) : n ≤ s.length := by
  simp only [labelAt] at h
  split at h
  · injection h with h
    rw [← (Prod.mk.inj h).2]
    exact (List.takeWhile_prefix _).length_le
  · split at h
    · simp only [boldAt, Option.bind_eq_bind, Option.bind_eq_some_iff] at h
      obtain ⟨r, -, h⟩ := h
      split at h
      · cases h
      · simp only [Option.bind_eq_some_iff, Option.some.injEq, Prod.mk.injEq] at h
        obtain ⟨rest, -, -, rfl⟩ := h
        exact Nat.sub_le _ _
    · cases h

theorem labelsIn_append {wc : WordChars} {a b : Str} {prev : Option Char}
    (h : ∀ x s, a = x ++ s → s ≠ [] →
      labelAt wc (lastOr prev x) (s ++ b) = labelAt wc (lastOr prev x) s) :
    labelsIn wc prev (a ++ b) = labelsIn wc prev a ++ labelsIn wc (lastOr prev a) b := by
  rw [labelsIn, findAll_append labelAt_length (Nat.zero_le _) h, List.filter_append]
  rfl

theorem labelsIn_quiet {wc : WordChars} {a b : Str} {prev : Option Char}
    (h : ∀ x s, a = x ++ s → s ≠ [] → labelAt wc (lastOr prev x) (s ++ b) = none) :
    labelsIn wc prev (a ++ b) = labelsIn wc (lastOr prev a) b := by
  rw [labelsIn, findAll_quiet h]
  rfl

/-- A generic label begins with one of two letters. -/
theorem isGeneric_head {w : Str} (h : isGeneric w = true) :
    w.head? = some 'S' ∨ w.head? = some 'I' := by
  rw [isGeneric] at h
  cases hgen : generic? w with
  | none => rw [hgen] at h; cases h
  | some digits =>
      rcases Option.or_eq_some_iff.mp hgen with hs | ⟨-, hi⟩
      · exact Or.inl (by rw [lit_eq_some.mp hs]; rfl)
      · exact Or.inr (by rw [lit_eq_some.mp hi]; rfl)

theorem isGeneric_takeWhile {wc : WordChars} {s : Str}
    (h : ∀ c ∈ s.head?, c ≠ 'S' ∧ c ≠ 'I') : isGeneric (s.takeWhile wc.isWord) = false := by
  rw [Bool.eq_false_iff]
  intro hgen
  have hhead := isGeneric_head hgen
  cases s with
  | nil => simp at hhead
  | cons c s =>
      have hc := h c rfl
      by_cases hw : wc.isWord c = true
      · rw [List.takeWhile_cons_of_pos hw] at hhead
        simp only [List.head?_cons, Option.some.injEq] at hhead
        rcases hhead with rfl | rfl
        · exact hc.1 rfl
        · exact hc.2 rfl
      · rw [List.takeWhile_cons_of_neg hw] at hhead
        simp at hhead

/-- Nothing is found where no generic label begins and no name is opened. -/
theorem labelAt_eq_none {wc : WordChars} {p : Option Char} {s : Str}
    (hhead : ∀ c ∈ s.head?, c ≠ 'S' ∧ c ≠ 'I')
    (hbold : (p = none ∨ p = some '\n') → boldAt s = none) : labelAt wc p s = none := by
  simp only [labelAt, isGeneric_takeWhile hhead, Bool.and_false, Bool.false_eq_true, if_false]
  split
  · rename_i hp
    exact hbold hp
  · rfl

theorem takeWhile_append_of_head {p : Char → Bool} {s b : Str} (h : ∀ c ∈ b.head?, p c = false) :
    (s ++ b).takeWhile p = s.takeWhile p := by
  induction s with
  | nil =>
      cases b with
      | nil => rfl
      | cons c b => rw [List.nil_append, List.takeWhile_cons_of_neg (by simp [h c rfl])]; rfl
  | cons c s ih =>
      by_cases hc : p c = true
      · rw [List.cons_append, List.takeWhile_cons_of_pos hc, List.takeWhile_cons_of_pos hc, ih]
      · rw [List.cons_append, List.takeWhile_cons_of_neg hc, List.takeWhile_cons_of_neg hc]

/-- What follows a text matters only for a name in bold. -/
theorem labelAt_append {wc : WordChars} {p : Option Char} {s b : Str}
    (hb : ∀ c ∈ b.head?, wc.isWord c = false) (hbold : boldAt (s ++ b) = boldAt s) :
    labelAt wc p (s ++ b) = labelAt wc p s := by
  simp only [labelAt, takeWhile_append_of_head hb, hbold]

/-! ## Names in bold -/

theorem lit_of_head {c : Char} {w s : Str} (h : ∀ d ∈ s.head?, d ≠ c) : lit (c :: w) s = none := by
  refine lit_eq_none fun hpre => ?_
  obtain ⟨r, hr⟩ := hpre
  exact h c (by rw [← hr]; rfl) rfl

theorem boldAt_eq_none_of_head {s : Str} (h : ∀ c ∈ (lstrip s).head?, c ≠ '*') :
    boldAt s = none := by
  rw [boldAt, lit_of_head h]
  rfl

theorem lstrip_append_of_ne_nil {s : Str} (h : lstrip s ≠ []) (b : Str) :
    lstrip (s ++ b) = lstrip s ++ b := by
  rw [lstrip, List.dropWhile_append, if_neg (by simpa [lstrip] using h)]
  rfl

theorem lstrip_append_of_nil {s : Str} (h : lstrip s = []) (b : Str) :
    lstrip (s ++ b) = lstrip b := by
  rw [lstrip, List.dropWhile_append, if_pos (by simpa [lstrip] using h)]
  rfl

theorem lit_stars (r : Str) : lit ['*', '*'] ('*' :: '*' :: r) = some r := lit_append ['*', '*'] r

theorem closing_stars {r : Str} (h : ∀ c ∈ (lstrip r).head?, c ≠ ':') :
    closing ('*' :: '*' :: r) = none := by
  rw [closing, lit_stars, Option.bind_eq_bind, Option.bind_some, lit_of_head h]

theorem closing_of_head {x : Str} (h : ∀ c ∈ x.head?, c ≠ '*') : closing x = none := by
  rw [closing, lit_of_head h]
  rfl

/-- What opens a name in bold. -/
theorem boldAt_stars {s r : Str} (h : lstrip s = '*' :: '*' :: r) :
    boldAt s = if r.takeWhile isNameChar = [] then none
      else (closing (r.dropWhile isNameChar)).map fun rest =>
        (strip (r.takeWhile isNameChar), s.length - rest.length) := by
  rw [boldAt, h, lit_stars, Option.bind_eq_bind, Option.bind_some]
  dsimp only
  split
  · rfl
  · cases closing (r.dropWhile isNameChar) <;> rfl

/-- A name in bold that no colon follows. -/
theorem boldAt_header {s n r : Str} (hs : lstrip s = '*' :: '*' :: (n ++ '*' :: '*' :: r))
    (hname : ∀ c ∈ n, isNameChar c = true) (hr : ∀ c ∈ (lstrip r).head?, c ≠ ':') :
    boldAt s = none := by
  rw [boldAt_stars hs, List.dropWhile_append_of_pos hname, List.dropWhile_cons_of_neg (by decide),
    closing_stars hr]
  split <;> rfl

/-- A colon ends the name. -/
theorem boldAt_colon {s n r : Str} (hs : lstrip s = '*' :: '*' :: (n ++ ':' :: r))
    (hname : ∀ c ∈ n, isNameChar c = true) : boldAt s = none := by
  rw [boldAt_stars hs, List.dropWhile_append_of_pos hname, List.dropWhile_cons_of_neg (by decide),
    closing_of_head (by simp)]
  split <;> rfl

/-- What follows a text, so that no name in bold goes over the border. -/
structure Inert (b : Str) : Prop where
  newline : b.head? = some '\n'
  colon : ∀ c ∈ (lstrip b).head?, c ≠ ':'
  closing : closing (b.dropWhile isNameChar) = none

/-- The text does not end with a blank. -/
def EndsPlain (s : Str) : Prop := ∀ c ∈ s.getLast?, isSpace c = false

theorem EndsPlain.suffix {s t : Str} (h : EndsPlain s) (hst : t <:+ s) : EndsPlain t := by
  obtain ⟨x, rfl⟩ := hst
  intro c hc
  exact h c (by rw [List.getLast?_append, Option.mem_def.mp hc]; rfl)

theorem EndsPlain.lstrip_ne_nil {s : Str} (h : EndsPlain s) (hne : s ≠ []) : lstrip s ≠ [] := by
  intro hnil
  have hall := List.dropWhile_eq_nil_iff.mp hnil
  have hlast := h _ (List.getLast?_eq_some_getLast hne)
  rw [hall _ (List.getLast_mem hne)] at hlast
  cases hlast

theorem closing_append {x b : Str} (hx : EndsPlain x) (hne : x ≠ []) (hb : Inert b) :
    closing (x ++ b) = (closing x).map (· ++ b) := by
  match x, hne with
  | [c], _ =>
      have hhead := hb.newline
      cases b with
      | nil => cases hhead
      | cons d b =>
          obtain rfl : d = '\n' := by simpa using hhead
          by_cases hc : c = '*'
          · subst hc
            rw [closing, closing, lit_eq_none (by simp), lit_eq_none (by simp)]
            rfl
          · rw [closing_of_head (by simpa using hc), closing_of_head (by simpa using hc)]
            rfl
  | c :: d :: r, _ =>
      by_cases hcd : c = '*' ∧ d = '*'
      · obtain ⟨rfl, rfl⟩ := hcd
        rw [List.cons_append, List.cons_append, closing, closing, lit_stars, lit_stars,
          Option.bind_eq_bind, Option.bind_some, Option.bind_some]
        by_cases hr : r = []
        · subst hr
          rw [List.nil_append, lit_of_head hb.colon, lstrip_nil, lit_of_head (by simp)]
          rfl
        · have hrne := (hx.suffix (t := r) ⟨['*', '*'], rfl⟩).lstrip_ne_nil hr
          rw [lstrip_append_of_ne_nil hrne]
          obtain ⟨e, t, het⟩ := List.exists_cons_of_ne_nil hrne
          rw [het]
          by_cases he : e = ':'
          · subst he
            rw [List.cons_append, show lit [':'] (':' :: (t ++ b)) = some (t ++ b) from
              lit_append [':'] _, show lit [':'] (':' :: t) = some t from lit_append [':'] _]
            rfl
          · rw [lit_of_head (by simpa using he), lit_of_head (by simpa using he)]
            rfl
      · have hno : ∀ r : Str, closing (c :: d :: r) = none := fun r => by
          rw [closing, lit_eq_none fun hpre => ?_]
          · rfl
          · obtain ⟨y, hy⟩ := hpre
            simp only [List.cons_append, List.nil_append, List.cons.injEq] at hy
            exact hcd ⟨hy.1.symm, hy.2.1.symm⟩
        rw [List.cons_append, List.cons_append, hno, hno]
        rfl

/-- **A name in bold stands in one text.** -/
theorem boldAt_append {s b : Str} (hs : EndsPlain s) (hne : s ≠ []) (hb : Inert b) :
    boldAt (s ++ b) = boldAt s := by
  have hstrip := hs.lstrip_ne_nil hne
  have happ := lstrip_append_of_ne_nil hstrip b
  have hend : EndsPlain (lstrip s) := hs.suffix (List.dropWhile_suffix _)
  match hl : lstrip s, hstrip with
  | [c], _ =>
      have hhead := hb.newline
      cases b with
      | nil => cases hhead
      | cons d b =>
          obtain rfl : d = '\n' := by simpa using hhead
          have hno : ∀ t : Str, lit ['*', '*'] (c :: '\n' :: t) = none := fun t =>
            lit_eq_none (by simp)
          rw [boldAt, boldAt, happ, hl, List.cons_append, List.nil_append, hno,
            lit_eq_none (by simp)]
          rfl
  | c :: d :: r, _ =>
      rw [hl] at happ hend
      by_cases hcd : c = '*' ∧ d = '*'
      · obtain ⟨rfl, rfl⟩ := hcd
        rw [boldAt_stars (r := r ++ b) (by rw [happ]; rfl), boldAt_stars hl]
        have hr : EndsPlain r := hend.suffix ⟨['*', '*'], rfl⟩
        by_cases hall : ∀ x ∈ r, isNameChar x = true
        · -- The name would go on in what follows.
          rw [List.dropWhile_append_of_pos hall, hb.closing, List.dropWhile_eq_nil_iff.mpr hall,
            closing_of_head (by simp)]
          split <;> split <;> rfl
        · have hdrop : r.dropWhile isNameChar ≠ [] := fun h =>
            hall (List.dropWhile_eq_nil_iff.mp h)
          have htake : (r ++ b).takeWhile isNameChar = r.takeWhile isNameChar := by
            rw [List.takeWhile_append, if_neg]
            intro hlen
            exact hall (List.takeWhile_eq_self_iff.mp
              ((List.takeWhile_prefix _).eq_of_length hlen))
          have hdropApp : (r ++ b).dropWhile isNameChar = r.dropWhile isNameChar ++ b := by
            rw [List.dropWhile_append, if_neg (by simpa using hdrop)]
          rw [htake, hdropApp, closing_append (hr.suffix (List.dropWhile_suffix _)) hdrop hb,
            Option.map_map]
          split
          · rfl
          · refine congrArg (fun f => Option.map f _) (funext fun rest => ?_)
            simp only [Function.comp_apply, List.length_append, Prod.mk.injEq, true_and]
            omega
      · have hno : ∀ t : Str, lit ['*', '*'] (c :: d :: t) = none := fun t =>
          lit_eq_none fun hpre => by
            obtain ⟨y, hy⟩ := hpre
            simp only [List.cons_append, List.nil_append, List.cons.injEq] at hy
            exact hcd ⟨hy.1.symm, hy.2.1.symm⟩
        rw [boldAt, boldAt, happ, hl, List.cons_append, List.cons_append, hno, hno]
        rfl

/-! ## One block -/

/-- The label can stand in a header without opening or ending a name in bold. -/
def NameLike (label : Str) : Prop := ∀ c ∈ label, isNameChar c = true

/-- What stands between the label and the text of a block. -/
def Written.between (w : Written) : Str :=
  ['*', '*', ' ', '_', '('] ++ (w.start ++ ([' ', '→', ' '] ++ (w.stop ++ [')', '_'])))

theorem print_eq (w : Written) :
    w.print = ['*', '*'] ++ (w.label ++ (w.between ++ (['\n', '>', ' '] ++ w.text))) := by
  simp [Written.print, Written.header, Written.body, Written.between]

/-- Times have a colon. -/
def HasColon (x : Str) : Prop := ∃ m s, x = m ++ ':' :: s ∧ ∀ c ∈ m, isNameChar c = true

/-- A header opens no name. -/
theorem boldAt_print {w : Written} (hname : NameLike w.label) {s r : Str}
    (hs : ∀ c ∈ s, isSpace c = true) : boldAt (s ++ (w.print ++ r)) = none := by
  refine boldAt_header (n := w.label) (r := ' ' :: '_' :: '(' :: (w.start ++
    ([' ', '→', ' '] ++ (w.stop ++ ([')', '_'] ++ (['\n', '>', ' '] ++ (w.text ++ r))))))) ?_ hname
    (by simp [lstrip, isSpace])
  rw [lstrip_append_of_nil (by simpa [lstrip] using hs), print_eq, List.append_assoc,
    show ['*', '*'] ++ _ = '*' :: _ from rfl, lstrip_of_head (by decide)]
  simp [Written.between]

/-- What ends the bold label opens no name either: the time has a colon. -/
theorem boldAt_between {w : Written} (hcolon : HasColon w.start) {s r : Str}
    (hs : ∀ c ∈ s, isSpace c = true) : boldAt (s ++ (w.between ++ r)) = none := by
  obtain ⟨m, t, hstart, hm⟩ := hcolon
  refine boldAt_colon (n := ' ' :: '_' :: '(' :: m) (r := t ++
    ([' ', '→', ' '] ++ (w.stop ++ ([')', '_'] ++ r)))) ?_ ?_
  · rw [lstrip_append_of_nil (by simpa [lstrip] using hs), Written.between, List.append_assoc,
      show ['*', '*', ' ', '_', '('] ++ _ = '*' :: _ from rfl, lstrip_of_head (by decide), hstart]
    simp
  · intro c hc
    simp only [List.mem_cons] at hc
    rcases hc with rfl | rfl | rfl | hc
    · rfl
    · rfl
    · rfl
    · exact hm c hc

/-- A part of one line, in which no generic label begins. -/
theorem labelsIn_plain {wc : WordChars} {a b : Str} {prev : Option Char}
    (hchars : ∀ c ∈ a, c ≠ 'S' ∧ c ≠ 'I') (hline : '\n' ∉ a.dropLast)
    (hfirst : prev = none ∨ prev = some '\n' → boldAt (a ++ b) = none) :
    labelsIn wc prev (a ++ b) = labelsIn wc (lastOr prev a) b := by
  refine labelsIn_quiet fun x s ha hs => labelAt_eq_none (fun c hc => ?_) fun hp => ?_
  · obtain ⟨d, t, rfl⟩ := List.exists_cons_of_ne_nil hs
    obtain rfl : d = c := by simpa using hc
    exact hchars _ (by simp [ha])
  · by_cases hx : x = []
    · subst hx
      rw [show s = a by simpa using ha.symm]
      exact hfirst hp
    · rw [lastOr_of_ne_nil hx] at hp
      rcases hp with hp | hp
      · cases hp
      · refine absurd ?_ hline
        rw [ha, List.dropLast_append_of_ne_nil hs, ← Option.some.inj hp]
        exact List.mem_append_left _ (List.getLast_mem hx)

theorem between_chars {w : Written} (hstamp : w.Stamped) :
    ∀ c ∈ w.between, c ≠ 'S' ∧ c ≠ 'I' ∧ c ≠ '\n' := by
  have hmark : ∀ {c : Char}, isStampChar c = true → c ≠ 'S' ∧ c ≠ 'I' ∧ c ≠ '\n' := by
    intro c hc
    refine ⟨?_, ?_, ?_⟩
    all_goals
      rintro rfl
      cases hc
  intro c hc
  simp only [Written.between, List.mem_append, List.mem_cons, List.not_mem_nil, or_false] at hc
  rcases hc with hc | hc | hc | hc | hc
  · rcases hc with rfl | rfl | rfl | rfl | rfl <;> decide
  · exact hmark (hstamp.start c hc)
  · rcases hc with rfl | rfl | rfl <;> decide
  · exact hmark (hstamp.stop c hc)
  · rcases hc with rfl | rfl <;> decide

theorem lastOr_between (w : Written) (prev : Option Char) : lastOr prev w.between = some '_' := by
  simp only [Written.between, lastOr_append]
  rfl

/-- **The labels in one block**: those in its label, and those in its text. -/
theorem labelsIn_print (wc : WordChars) {w : Written} (hname : NameLike w.label)
    (hstamp : w.Stamped) (hcolon : HasColon w.start) (htext : EndsPlain w.text) {b : Str}
    (hb : Inert b) (prev : Option Char) :
    labelsIn wc prev (w.print ++ b) = labelsIn wc (some '*') w.label ++
      (labelsIn wc (some ' ') w.text ++ labelsIn wc (lastOr (some ' ') w.text) b) := by
  have hnewline : wc.isWord '\n' = false := wc.space _ rfl
  have hstar : wc.isWord '*' = false := wc.mark _ (by decide)
  -- The opening stars.
  have hopen : labelsIn wc prev (w.print ++ b) =
      labelsIn wc (some '*') (w.label ++ (w.between ++ (['\n', '>', ' '] ++ (w.text ++ b)))) := by
    have hbold := boldAt_print hname (s := []) (r := b) (by simp)
    rw [List.nil_append, print_eq] at hbold
    rw [print_eq]
    simp only [List.append_assoc] at hbold ⊢
    exact labelsIn_plain (by simp) (by simp) fun _ => hbold
  -- The label.
  have hlabel : labelsIn wc (some '*')
      (w.label ++ (w.between ++ (['\n', '>', ' '] ++ (w.text ++ b)))) =
      labelsIn wc (some '*') w.label ++ labelsIn wc (lastOr (some '*') w.label)
        (w.between ++ (['\n', '>', ' '] ++ (w.text ++ b))) := by
    refine labelsIn_append fun x s hx hs => labelAt_append (fun c hc => ?_) ?_
    · obtain rfl : '*' = c := by simpa [Written.between] using hc
      exact hstar
    · by_cases hblank : lstrip s = []
      · rw [boldAt_between hcolon (List.dropWhile_eq_nil_iff.mp hblank),
          boldAt_eq_none_of_head (by simp [hblank])]
      · have hne : ∀ c ∈ (lstrip s).head?, c ≠ '*' := by
          rintro c hc rfl
          have hmem : '*' ∈ w.label := by
            rw [hx]
            exact List.mem_append_right _ ((List.dropWhile_suffix _).subset (List.mem_of_mem_head? hc))
          exact absurd (hname _ hmem) (by decide)
        have hne' : ∀ c ∈ (lstrip s ++ (w.between ++ (['\n', '>', ' '] ++ (w.text ++ b)))).head?,
            c ≠ '*' := by
          intro c hc
          rw [List.head?_append_of_ne_nil _ hblank] at hc
          exact hne c hc
        rw [boldAt_eq_none_of_head hne, boldAt_eq_none_of_head]
        rwa [lstrip_append_of_ne_nil hblank]
  -- The times.
  have hbetween : labelsIn wc (lastOr (some '*') w.label)
      (w.between ++ (['\n', '>', ' '] ++ (w.text ++ b))) =
      labelsIn wc (some '_') (['\n', '>', ' '] ++ (w.text ++ b)) := by
    rw [labelsIn_plain (fun c hc => ⟨(between_chars hstamp c hc).1, (between_chars hstamp c hc).2.1⟩)
      (fun hn => (between_chars hstamp _ (List.mem_of_mem_dropLast hn)).2.2 rfl)
      (fun _ => boldAt_between hcolon (s := []) (by simp)), lastOr_between]
  -- The mark of the text.
  have hquote : labelsIn wc (some '_') (['\n', '>', ' '] ++ (w.text ++ b)) =
      labelsIn wc (some ' ') (w.text ++ b) := by
    have hgt : boldAt (['>', ' '] ++ (w.text ++ b)) = none :=
      boldAt_eq_none_of_head (by simp [lstrip, isSpace])
    rw [show ['\n', '>', ' '] ++ (w.text ++ b) = ['\n'] ++ (['>', ' '] ++ (w.text ++ b)) from rfl,
      labelsIn_plain (by simp) (by simp) (by simp), labelsIn_plain (by simp) (by simp) fun _ => hgt]
    rfl
  have htext' : labelsIn wc (some ' ') (w.text ++ b) =
      labelsIn wc (some ' ') w.text ++ labelsIn wc (lastOr (some ' ') w.text) b := by
    refine labelsIn_append fun x s hx hs => labelAt_append (fun c hc => ?_) ?_
    · rw [hb.newline] at hc
      rwa [← Option.mem_some.mp hc]
    · exact boldAt_append (htext.suffix ⟨x, hx.symm⟩) hs hb
  rw [hopen, hlabel, hbetween, hquote, htext']

/-! ## The whole text -/

/-- Blocks one after the other, as a merge prints them. -/
def layout : List Written → Str
  | [] => []
  | [w] => w.print ++ ['\n']
  | w :: v :: ws => w.print ++ '\n' :: '\n' :: layout (v :: ws)

theorem intercalate_eq_layout {ws : List Written} (h : ws ≠ []) :
    ['\n', '\n'].intercalate (ws.map Written.print) ++ ['\n'] = layout ws := by
  induction ws with
  | nil => exact absurd rfl h
  | cons w ws ih =>
      cases ws with
      | nil => simp [layout]
      | cons v ws =>
          rw [List.map_cons, List.map_cons, List.intercalate_cons_cons, List.append_assoc,
            List.append_assoc, ← List.map_cons, ih (List.cons_ne_nil _ _)]
          rfl

/-- **What a merge prints**, to the letter. -/
theorem merge_eq_layout {t : Transcription} {diar : List DiarSegment} {names : Names} {text : Str}
    (h : mergeToMarkdown t diar names = some text) :
    text = layout ((utterances t diar names).map Utterance.written) := by
  rw [mergeToMarkdown] at h
  rw [utterances]
  split at h
  · rename_i hnil
    rw [if_pos hnil]
    dsimp only at h ⊢
    split at h
    · rename_i htext
      injection h with h
      rw [← h]
      split <;> simp [htext, layout]
    · rename_i htext
      simp only [Option.bind_eq_bind, Option.bind_eq_some_iff, Option.some.injEq] at h
      obtain ⟨duration, hduration, rfl⟩ := h
      rw [hduration]
      dsimp only
      rw [if_neg htext]
      simp [Utterance.written, Utterance.text, joinSpaces, formatTime_zero, layout]
  · rename_i hnil
    rw [if_neg hnil]
    have hkept : ∀ q ∈ t.segments.filterMap (piece? diar), q.Kept := by
      intro q hq
      obtain ⟨seg, -, hseg⟩ := List.mem_filterMap.mp hq
      exact kept_of_piece? hseg
    have hblocks := mergeLoop_eq names hkept
    injection h with h
    rw [← h, List.map_map, show (Utterance.written ∘ utteranceOf names) =
        fun g => (utteranceOf names g).written from rfl, ← hblocks]
    split
    · rename_i hempty
      rw [hempty]
      rfl
    · rename_i hne
      exact intercalate_eq_layout hne

/-- The block can be searched alone. -/
structure Written.Searchable (w : Written) : Prop where
  name : NameLike w.label
  stamp : w.Stamped
  colon : HasColon w.start
  text : EndsPlain w.text

theorem inert_newline : Inert ['\n'] := ⟨rfl, by simp [lstrip, isSpace], rfl⟩

theorem inert_layout {w : Written} (h : NameLike w.label) (r : Str) :
    Inert ('\n' :: '\n' :: (w.print ++ r)) := by
  have hstart : ∀ c ∈ (lstrip (w.print ++ r)).head?, c ≠ ':' := by
    rw [print_eq, List.append_assoc, show ['*', '*'] ++ _ = '*' :: _ from rfl,
      lstrip_of_head (by decide)]
    simp
  refine ⟨rfl, hstart, ?_⟩
  have hdrop : ('\n' :: '\n' :: (w.print ++ r)).dropWhile isNameChar = '*' :: '*' :: (w.label ++
      ('*' :: '*' :: ' ' :: '_' :: '(' :: (w.start ++ ([' ', '→', ' '] ++ (w.stop ++
        ([')', '_'] ++ (['\n', '>', ' '] ++ (w.text ++ r)))))))) := by
    rw [List.dropWhile_cons_of_pos rfl, List.dropWhile_cons_of_pos rfl, print_eq]
    simp [Written.between, isNameChar]
  rw [hdrop]
  refine closing_stars ?_
  intro c hc
  by_cases hblank : lstrip w.label = []
  · rw [lstrip_append_of_nil hblank, lstrip_of_head (by decide)] at hc
    simp only [List.head?_cons, Option.mem_def, Option.some.injEq] at hc
    rw [← hc]
    decide
  · rw [lstrip_append_of_ne_nil hblank, List.head?_append_of_ne_nil _ hblank] at hc
    rintro rfl
    have hmem := (List.dropWhile_suffix (p := isSpace)).subset (List.mem_of_mem_head? hc)
    exact absurd (h _ hmem) (by decide)

/-- The labels in the label and in the text of a block. -/
def Written.labels (wc : WordChars) (w : Written) : List Str :=
  labelsIn wc (some '*') w.label ++ labelsIn wc (some ' ') w.text

/-- **The labels in a text** are those of its blocks. -/
theorem labelsIn_layout (wc : WordChars) {ws : List Written} (h : ∀ w ∈ ws, w.Searchable)
    (prev : Option Char) : labelsIn wc prev (layout ws) = ws.flatMap (Written.labels wc) := by
  have hlast : ∀ {s : Str} {p : Char}, p ≠ '\n' → EndsPlain s →
      ¬ (lastOr (some p) s = none ∨ lastOr (some p) s = some '\n') := by
    intro s p hp hs hor
    by_cases hne : s = []
    · subst hne
      simp [hp] at hor
    · rw [lastOr_of_ne_nil hne] at hor
      have hplain := hs _ (List.getLast?_eq_some_getLast hne)
      rcases hor with hor | hor
      · cases hor
      · rw [Option.some.inj hor] at hplain
        cases hplain
  induction ws generalizing prev with
  | nil => rfl
  | cons w ws ih =>
      obtain ⟨hname, hstamp, hcolon, htext⟩ := h w List.mem_cons_self
      have hbreak := hlast (p := ' ') (by decide) htext
      cases ws with
      | nil =>
          rw [layout, labelsIn_print wc hname hstamp hcolon htext inert_newline,
            show ['\n'] = ['\n'] ++ [] from rfl,
            labelsIn_plain (by simp) (by simp) (fun hp => absurd hp hbreak)]
          simp [Written.labels, labelsIn, findAll]
      | cons v ws =>
          have hv := h v (List.mem_cons_of_mem _ List.mem_cons_self)
          obtain ⟨r, hr⟩ : ∃ r, layout (v :: ws) = v.print ++ r := by
            cases ws with
            | nil => exact ⟨_, rfl⟩
            | cons u ws => exact ⟨_, rfl⟩
          have hinert : Inert ('\n' :: '\n' :: layout (v :: ws)) := hr ▸ inert_layout hv.name r
          have hopen : boldAt (['\n'] ++ layout (v :: ws)) = none :=
            hr ▸ boldAt_print hv.name (s := ['\n']) (r := r) (by simp [isSpace])
          rw [layout, labelsIn_print wc hname hstamp hcolon htext hinert,
            show '\n' :: '\n' :: layout (v :: ws) = ['\n'] ++ (['\n'] ++ layout (v :: ws)) from rfl,
            labelsIn_plain (by simp) (by simp) (fun hp => absurd hp hbreak),
            labelsIn_plain (by simp) (by simp) (fun _ => hopen),
            ih (fun u hu => h u (List.mem_cons_of_mem _ hu)), List.flatMap_cons (x := w),
            Written.labels, List.append_assoc]

/-! ## Agreement -/

/-- A label that is found has no star and no colon. -/
theorem nameLike_of_mem {wc : WordChars} {prev : Option Char} {text l : Str}
    (h : l ∈ labelsIn wc prev text) : NameLike l := by
  obtain ⟨p, s, n, hfind⟩ := exists_of_mem_findAll (List.mem_of_mem_filter h)
  simp only [labelAt] at hfind
  split at hfind
  · rename_i hgen
    injection hfind with hfind
    rw [(Prod.mk.inj hfind).1, Bool.and_eq_true] at hgen
    have hgeneric := hgen.2
    rw [isGeneric] at hgeneric
    cases hdigits : generic? l with
    | none => rw [hdigits] at hgeneric; cases hgeneric
    | some digits =>
        rw [hdigits] at hgeneric
        simp only [Bool.and_eq_true, List.all_eq_true] at hgeneric
        have hall : NameLike digits := fun c hc => by
          have hd := hgeneric.2 c hc
          simp only [isNameChar, Bool.and_eq_true, bne_iff_ne, ne_eq]
          constructor
          all_goals
            rintro rfl
            cases hd
        have happ : ∀ x : Str, NameLike x → NameLike (x ++ digits) := fun x hx c hc =>
          (List.mem_append.mp hc).elim (hx c) (hall c)
        rcases Option.or_eq_some_iff.mp hdigits with hs | ⟨-, hi⟩
        · rw [lit_eq_some.mp hs]
          exact happ _ (List.all_eq_true.mp rfl)
        · rw [lit_eq_some.mp hi]
          exact happ _ (List.all_eq_true.mp rfl)
  · split at hfind
    · simp only [boldAt, Option.bind_eq_bind, Option.bind_eq_some_iff] at hfind
      obtain ⟨r, -, hfind⟩ := hfind
      split at hfind
      · cases hfind
      · simp only [Option.bind_eq_some_iff, Option.some.injEq, Prod.mk.injEq] at hfind
        obtain ⟨rest, -, hname, -⟩ := hfind
        rw [← hname]
        intro c hc
        exact List.mem_takeWhile_imp (mem_of_mem_strip hc)
    · cases hfind

theorem hasColon_formatTime (q : ℚ) : HasColon (formatTime q) := by
  have hint : ∀ n : Int, ∀ c ∈ strOfInt n, isNameChar c = true := by
    intro n c hc
    rcases mem_strOfInt hc with hdigit | rfl
    · simp only [isNameChar, Bool.and_eq_true, bne_iff_ne, ne_eq]
      constructor
      all_goals
        rintro rfl
        cases hdigit
    · rfl
  simp only [formatTime]
  split
  · exact ⟨_, _, rfl, hint _⟩
  · exact ⟨_, _, rfl, hint _⟩

/-- The labels in the displayed label and in the text of an utterance. -/
def Utterance.labels (wc : WordChars) (u : Utterance) : List Str :=
  labelsIn wc (some '*') u.label ++ labelsIn wc (some ' ') u.text

theorem searchable_written {t : Transcription} {diar : List DiarSegment} {names : Names}
    {u : Utterance} (hu : u ∈ utterances t diar names) (hname : NameLike u.label) :
    u.written.Searchable where
  name := hname
  stamp := stamped_written u
  colon := hasColon_formatTime u.start
  text := by
    have hstrip := strip_utterance hu
    intro c hc
    rw [show u.written.text = u.text from rfl, ← hstrip, ← rstrip_strip] at hc
    obtain ⟨x, hx⟩ := List.getLast?_eq_some_iff.mp hc
    by_contra hspace
    rw [Bool.not_eq_false] at hspace
    have hfix : rstrip (rstrip (strip u.text)) = rstrip (strip u.text) := rstrip_rstrip _
    rw [hx, rstrip_concat_of_space hspace] at hfix
    have hlen := congrArg List.length hfix
    rw [List.length_append] at hlen
    have hle := (prefix_of_rstrip x).length_le
    simp at hlen
    omega

/-- **The labels in a merged transcript.** -/
theorem extract_merge (wc : WordChars) {t : Transcription} {diar : List DiarSegment}
    {names : Names} {text : Str} (h : mergeToMarkdown t diar names = some text)
    (hname : ∀ u ∈ utterances t diar names, NameLike u.label) :
    extractSpeakerLabels wc text = (utterances t diar names).flatMap (Utterance.labels wc) := by
  rw [extractSpeakerLabels, merge_eq_layout h, labelsIn_layout wc, List.flatMap_map]
  · rfl
  · intro w hw
    obtain ⟨u, hu, rfl⟩ := List.mem_map.mp hw
    exact searchable_written hu (hname u hu)

/-- The labels found are those of the blocks, and there are none only when there is no block. -/
def SpeakersKnown (wc : WordChars) (t : Transcription) (diar : List DiarSegment) (names : Names) : Prop :=
  ∀ text, mergeToMarkdown t diar names = some text →
    (∀ l, l ∈ extractSpeakerLabels wc text ↔ ∃ u ∈ utterances t diar names, u.label = l) ∧
      (extractSpeakerLabels wc text = [] → utterances t diar names = [])

/-- `[A-Za-z]` -/
def isLetter (c : Char) : Bool :=
  (65 ≤ c.toNat && c.toNat ≤ 90) || (97 ≤ c.toNat && c.toNat ≤ 122)

/-- `[A-Za-z_]`, and the digits of every script. -/
def isAsciiWord (c : Char) : Bool := isLetter c || c == '_' || isDigit c

theorem isAsciiWord_of_digit (c : Char) (h : isDigit c = true) : isAsciiWord c = true := by
  simp [isAsciiWord, h]

theorem isAsciiWord_of_letter : ∀ c ∈ ['S', 'P', 'E', 'A', 'K', 'R', 'I', 'n', 't', 'e', 'r', 'v',
    'a', '_'], isAsciiWord c = true := List.all_eq_true.mp rfl

theorem not_isAsciiWord_of_space (c : Char) (h : isSpace c = true) : isAsciiWord c = false := by
  have hdigit : isDigit c = false := by
    by_contra hd
    rw [Bool.not_eq_false] at hd
    have hspace : isSpace c = false := digit_not_space (show Classes.py.digit c = true from hd)
    rw [hspace] at h
    cases h
  have hletter : isLetter c = false := by
    simp only [isSpace, Bool.or_eq_true, Bool.and_eq_true, decide_eq_true_eq, beq_iff_eq] at h
    simp only [isLetter, Bool.or_eq_false_iff, Bool.and_eq_false_iff, decide_eq_false_iff_not]
    omega
  have hmark : (c == '_') = false := by
    rw [beq_eq_false_iff_ne]
    rintro rfl
    cases h
  rw [isAsciiWord, hletter, hmark, hdigit]
  rfl

theorem not_isAsciiWord_of_mark (c : Char)
    (h : c ∈ ['*', '>', '(', ')', ':', '→', '.', '-']) : isAsciiWord c = false := by
  have hall := List.all_eq_true.mp (show List.all ['*', '>', '(', ')', ':', '→', '.', '-']
    (fun c => !isAsciiWord c) = true by rfl) c h
  rwa [Bool.not_eq_true'] at hall

/-- `\w` on ASCII letters, and the digits of every script. -/
def asciiWords : WordChars where
  isWord := isAsciiWord
  digit := isAsciiWord_of_digit
  letter := isAsciiWord_of_letter
  space := not_isAsciiWord_of_space
  mark := not_isAsciiWord_of_mark

/-- One segment of a speaker who was given a name. -/
def named : Transcription := ⟨[⟨.val 0, .val 2, some ['B', 'o', 'n']⟩], none, .absent⟩

/-- `{"SPEAKER_00": "Ana"}` -/
def ana : Names := fun raw => if raw = speaker00 then some ['A', 'n', 'a'] else none

end MesReunions.Transcript
