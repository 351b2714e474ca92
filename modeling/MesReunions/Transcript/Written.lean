import MesReunions.Transcript.Blocks

/-!
# Blocks as the writers lay them out

Both writers of a `speaker_tagged_text` put down, for one block,

    **label** _(start → stop)_
    > text

This module says when the parser reads that back, whatever the writer.

* **`headBlock_header`** — the header line, for a label without a star.
* **`marked_body`** — the lines of the text.
-/

namespace MesReunions.Transcript

open Str Scan Sections

/-- What is put down for one block. -/
structure Written where
  label : Str
  start : Str
  stop : Str
  text : Str
  deriving DecidableEq

/-- `f"**{label}** _({start} → {stop})_"` -/
def Written.header (w : Written) : Str :=
  ['*', '*'] ++ (w.label ++ (['*', '*', ' ', '_', '('] ++ (w.start ++ ([' ', '→', ' '] ++
    (w.stop ++ [')', '_'])))))

/-- `f"> {text}"` -/
def Written.body (w : Written) : Str := '>' :: ' ' :: w.text

/-- The characters of a written time. -/
def isStampChar (c : Char) : Bool := isDigit c || c == ':' || c == '.' || c == '-'

/-- Both times of the block are written with them. -/
structure Written.Stamped (w : Written) : Prop where
  start : ∀ c ∈ w.start, isStampChar c = true
  stop : ∀ c ∈ w.stop, isStampChar c = true

/-! ## Times -/

/-- The text has the shape of a time that the header expression accepts. -/
def IsClock (x : Str) : Prop :=
  ∃ m s, Digits .py m ∧ Seconds .py s ∧ x = clockText m s

/-- The text is read as the time `t`. -/
def ClockReads (x : Str) (t : PyFloat) : Prop :=
  ∃ m s, Digits .py m ∧ Seconds .py s ∧ x = clockText m s ∧ clockTime m s = .ok t

theorem isStampChar_of_digit {c : Char} (h : isDigit c = true) : isStampChar c = true := by
  simp [isStampChar, h]

theorem seconds_chars {x : Str} (h : Seconds .py x) : ∀ c ∈ x, isDigit c = true ∨ c = '.' := by
  obtain ⟨whole, hwhole, rfl | ⟨frac, hfrac, rfl⟩⟩ := h
  · exact fun c hc => Or.inl (hwhole.all c hc)
  · intro c hc
    rcases List.mem_append.mp hc with hc | hc
    · exact Or.inl (hwhole.all c hc)
    · rcases List.mem_cons.mp hc with rfl | hc
      · exact Or.inr rfl
      · exact Or.inl (hfrac.all c hc)

theorem seconds_stamp {x : Str} (h : Seconds .py x) : ∀ c ∈ x, isStampChar c = true := by
  intro c hc
  rcases seconds_chars h c hc with hc | rfl
  · exact isStampChar_of_digit hc
  · simp [isStampChar]

theorem clockText_stamp {m s : Str} (hm : Digits .py m) (hs : Seconds .py s) :
    ∀ c ∈ clockText m s, isStampChar c = true := by
  intro c hc
  rcases List.mem_append.mp hc with hc | hc
  · exact isStampChar_of_digit (hm.all c hc)
  · rcases List.mem_cons.mp hc with rfl | hc
    · simp [isStampChar]
    · exact seconds_stamp hs c hc

theorem clockText_inj {m s m' s' : Str} (hm : Digits .py m) (hm' : Digits .py m')
    (h : clockText m s = clockText m' s') : m = m' ∧ s = s' := by
  have hcolon : ∀ r : Str, ∀ c, (':' :: r).head? = some c → isDigit c = false := by
    intro r c hc
    injection hc with hc
    rw [← hc]
    exact mark_digit .py (c := ':') (by decide)
  obtain ⟨hmm, hss⟩ := append_inj_of_stop hm.all (hcolon s) hm'.all (hcolon s') h
  injection hss with _ hss
  exact ⟨hmm, hss⟩

theorem clockReads_clockText {m s : Str} {t : PyFloat} (hm : Digits .py m) (hs : Seconds .py s) :
    ClockReads (clockText m s) t ↔ clockTime m s = .ok t := by
  constructor
  · rintro ⟨m', s', hm', -, htext, htime⟩
    obtain ⟨rfl, rfl⟩ := clockText_inj hm hm' htext
    exact htime
  · exact fun h => ⟨m, s, hm, hs, rfl, h⟩

/-- A time begins with a digit. -/
theorem IsClock.head {x : Str} (h : IsClock x) : ∃ c, x.head? = some c ∧ isDigit c = true := by
  obtain ⟨m, s, hm, -, rfl⟩ := h
  cases m with
  | nil => exact absurd rfl hm.ne
  | cons c m => exact ⟨c, rfl, hm.all c List.mem_cons_self⟩

theorem ClockReads.isClock {x : Str} {t : PyFloat} (h : ClockReads x t) : IsClock x := by
  obtain ⟨m, s, hm, hs, hx, -⟩ := h
  exact ⟨m, s, hm, hs, hx⟩

theorem ClockReads.unique {x : Str} {t t' : PyFloat} (h : ClockReads x t) (h' : ClockReads x t') :
    t = t' := by
  obtain ⟨m, s, hm, hs, rfl, htime⟩ := h
  rw [clockReads_clockText hm hs, htime] at h'
  injection h'

/-! ## The header line -/

theorem stamp_stop (c : Char) (h : c ∈ ['_', '(', ')', '→', '*', '>', ' ']) :
    isStampChar c = false := by
  simp only [List.mem_cons, List.not_mem_nil, or_false] at h
  rcases h with rfl | rfl | rfl | rfl | rfl | rfl | rfl <;> rfl

theorem stamp_not_space {c : Char} (h : isStampChar c = true) : isSpace c = false := by
  simp only [isStampChar, Bool.or_eq_true, beq_iff_eq] at h
  rcases h with ((h | rfl) | rfl) | rfl
  · exact digit_not_space (show Classes.py.digit _ = true from h)
  all_goals rfl

/-- What follows a time in a header ends it. -/
theorem stamp_stop_blank {s r : Str} {c : Char} (hsp : ∀ a ∈ s, isSpace a = true)
    (hc : c ∈ ['_', '(', ')', '→', '*', '>', ' ']) :
    ∀ a, (s ++ c :: r).head? = some a → isStampChar a = false := by
  intro a ha
  cases s with
  | nil =>
      injection ha with ha
      rw [← ha]
      exact stamp_stop c hc
  | cons b s =>
      injection ha with ha
      cases hs : isStampChar a with
      | false => rfl
      | true =>
          have hb := hsp b List.mem_cons_self
          rw [ha, stamp_not_space hs] at hb
          cases hb

/-- **The header of a written block.** For a label without a star the match is the one
intended, and it is there exactly when both times have the shape of times. -/
theorem headRe_header {w : Written} (hw : w.Stamped) (hstar : '*' ∉ w.label) {h : Head} :
    headRe .py w.header = some h ↔ h.Valid .py ∧ h.speaker = w.label ∧
      w.start = clockText h.minStart h.secStart ∧ w.stop = clockText h.minEnd h.secEnd := by
  rw [headRe_eq_some]
  constructor
  · rintro ⟨hv, sp₁, sp₂, sp₃, rest, h₁, h₂, h₃, htext⟩
    simp only [Written.header, Head.text, List.append_assoc, List.cons_append, List.nil_append,
      List.cons.injEq, true_and] at htext
    have hstar' : ∀ {x : Str}, '*' ∉ x → ∀ c ∈ x, (c != '*') = true := fun hx c hc => by
      simp only [bne_iff_ne, ne_eq]
      rintro rfl
      exact hx hc
    have hhead : ∀ r : Str, ∀ c, ('*' :: r).head? = some c → (c != '*') = false := by
      intro r c hc
      injection hc with hc
      rw [← hc]
      rfl
    obtain ⟨hlabel, htext⟩ :=
      append_inj_of_stop (hstar' hstar) (hhead _) (hstar' hv.speaker) (hhead _) htext
    simp only [List.cons.injEq, true_and] at htext
    have hmark : ∀ {c : Char} {r : Str}, c ∈ ['_', '→'] → ∀ a, (c :: r).head? = some a →
        isSpace a = false := by
      intro c r hc a ha
      injection ha with ha
      rw [← ha]
      simp only [List.mem_cons, List.not_mem_nil, or_false] at hc
      rcases hc with rfl | rfl <;> rfl
    have hblank : ∀ c ∈ [' '], isSpace c = true := fun c hc => by
      rw [List.mem_singleton.mp hc]
      rfl
    -- Each part ends where a character of another class begins.
    obtain ⟨-, htext⟩ := append_inj_of_stop hblank (hmark (by decide)) h₁ (hmark (by decide))
      (show [' '] ++ _ = _ from htext)
    simp only [List.cons.injEq, true_and] at htext
    obtain ⟨hstart, htext⟩ := append_inj_of_stop hw.start
      (stamp_stop_blank (s := []) (by simp) (by decide))
      (clockText_stamp hv.minStart hv.secStart) (stamp_stop_blank h₂ (by decide)) htext
    obtain ⟨-, htext⟩ := append_inj_of_stop hblank (hmark (by decide)) h₂ (hmark (by decide))
      (show [' '] ++ _ = _ from htext)
    simp only [List.cons.injEq, true_and] at htext
    have hstopHead : ∀ {x : Str} {r : Str}, (∀ c ∈ x, isStampChar c = true) →
        ∀ a, (x ++ ')' :: r).head? = some a → isSpace a = false := by
      intro x r hx a ha
      cases x with
      | nil =>
          injection ha with ha
          rw [← ha]
          rfl
      | cons b x =>
          injection ha with ha
          rw [← ha]
          exact stamp_not_space (hx b List.mem_cons_self)
    have hclock := clockText_stamp hv.minEnd hv.secEnd
    obtain ⟨-, htext⟩ := append_inj_of_stop hblank (hstopHead hw.stop) h₃ (hstopHead hclock)
      (show [' '] ++ _ = _ from htext)
    obtain ⟨hstop, -⟩ := append_inj_of_stop hw.stop
      (stamp_stop_blank (s := []) (by simp) (by decide)) hclock
      (stamp_stop_blank (s := []) (by simp) (by decide)) htext
    exact ⟨hv, hlabel.symm, hstart, hstop⟩
  · rintro ⟨hv, hlabel, hstart, hstop⟩
    refine ⟨hv, [' '], [' '], [' '], [], ?_, ?_, ?_, ?_⟩
    iterate 3 exact fun c hc => by rw [List.mem_singleton.mp hc]; rfl
    rw [Written.header, Head.text, hlabel, hstart, hstop]
    simp

@[simp] theorem rstrip_header (w : Written) : rstrip w.header = w.header := by
  have hlast : w.header = (['*', '*'] ++ (w.label ++ (['*', '*', ' ', '_', '('] ++ (w.start ++
      ([' ', '→', ' '] ++ (w.stop ++ [')'])))))) ++ ['_'] := by
    simp [Written.header]
  rw [hlast, rstrip_concat_of_not (by decide)]

theorem Written.Stamped.newline {w : Written} (hw : w.Stamped) (hn : '\n' ∉ w.label) :
    '\n' ∉ w.header := by
  have hstamp : ∀ {x : Str}, (∀ c ∈ x, isStampChar c = true) → '\n' ∉ x := fun hx hc => by
    have hspace := stamp_not_space (hx '\n' hc)
    cases hspace
  have hstart := hstamp hw.start
  have hstop := hstamp hw.stop
  simp [Written.header, hn, hstart, hstop]

theorem headBlock_header {w : Written} (hw : w.Stamped) (hstar : '*' ∉ w.label) {b : Block} :
    headBlock w.header = .ok (some b) ↔ w.label ≠ [] ∧ b.speaker = strip w.label ∧
      ClockReads w.start b.start ∧ ClockReads w.stop b.stop ∧ b.headerLine = w.header ∧
      b.bodyLines = [] := by
  rw [headBlock_eq_some, rstrip_header]
  constructor
  · rintro ⟨head, hre, hspeaker, h₁, h₂, hline, hnil⟩
    obtain ⟨hv, hlabel, hstart, hstop⟩ := (headRe_header hw hstar).mp hre
    exact ⟨hlabel ▸ hv.speaker_ne, by rw [hspeaker, hlabel],
      hstart ▸ ⟨_, _, hv.minStart, hv.secStart, rfl, h₁⟩,
      hstop ▸ ⟨_, _, hv.minEnd, hv.secEnd, rfl, h₂⟩, hline, hnil⟩
  · rintro ⟨hne, hspeaker, ⟨m₁, s₁, hm₁, hs₁, hstart, ht₁⟩, ⟨m₂, s₂, hm₂, hs₂, hstop, ht₂⟩,
      hline, hnil⟩
    exact ⟨⟨w.label, m₁, s₁, m₂, s₂⟩,
      (headRe_header hw hstar).mpr ⟨⟨hne, hstar, hm₁, hs₁, hm₂, hs₂⟩, rfl, hstart, hstop⟩,
      hspeaker, ht₁, ht₂, hline, hnil⟩

theorem isHead_header {w : Written} (hw : w.Stamped) (hstar : '*' ∉ w.label) :
    isHead w.header = true ↔ w.label ≠ [] ∧ IsClock w.start ∧ IsClock w.stop := by
  rw [isHead_eq, Option.isSome_iff_exists]
  constructor
  · rintro ⟨h, hre⟩
    obtain ⟨hv, hlabel, hstart, hstop⟩ := (headRe_header hw hstar).mp hre
    exact ⟨hlabel ▸ hv.speaker_ne, ⟨_, _, hv.minStart, hv.secStart, hstart⟩,
      ⟨_, _, hv.minEnd, hv.secEnd, hstop⟩⟩
  · rintro ⟨hne, ⟨m₁, s₁, hm₁, hs₁, hstart⟩, ⟨m₂, s₂, hm₂, hs₂, hstop⟩⟩
    exact ⟨⟨w.label, m₁, s₁, m₂, s₂⟩,
      (headRe_header hw hstar).mpr ⟨⟨hne, hstar, hm₁, hs₁, hm₂, hs₂⟩, rfl, hstart, hstop⟩⟩

/-! ## The lines of a written text -/

/-- The lines of a block that count. -/
def Written.marks (w : Written) : List Str := marked w.header ++ marked w.body

/-- The lines of the text that say something. -/
def Written.spoken (w : Written) : List Str :=
  ((lines w.body).map rstrip).filter fun l => !l.isEmpty

/-- The lines of the text that say something are body lines: they begin with `>`. -/
def Written.Quoted (w : Written) : Prop := ∀ l ∈ w.spoken, isBody l = true

theorem marked_body {w : Written} (h : w.Quoted) : marked w.body = w.spoken := by
  refine List.filter_congr fun l hl => ?_
  cases l with
  | nil => simp
  | cons c l =>
      have hspoken : c :: l ∈ w.spoken := List.mem_filter.mpr ⟨hl, rfl⟩
      rw [isMarked_of_isBody (h _ hspoken)]
      rfl

theorem spoken_ne_nil (w : Written) : w.spoken ≠ [] := by
  obtain ⟨l, ls, -, hlines⟩ := lines_cons (c := '>') (by decide) (' ' :: w.text)
  have hmem : rstrip ('>' :: l) ∈ w.spoken := by
    rw [Written.spoken, Written.body, hlines, List.map_cons, rstrip_cons_of_not (by decide),
      List.filter_cons_of_pos rfl]
    exact List.mem_cons_self
  exact List.ne_nil_of_mem hmem

theorem isBody_body (w : Written) : isBody w.body = true := isBody_iff.mpr rfl

theorem rstrip_body_ne_nil (w : Written) : rstrip w.body ≠ [] := by
  rw [Written.body, rstrip_cons_of_not (by decide)]
  exact List.cons_ne_nil _ _

/-- A text of one line is one spoken line. -/
theorem spoken_of_not_mem {w : Written} (h : '\n' ∉ w.text) : w.spoken = [rstrip w.body] := by
  have hline : '\n' ∉ w.body := by simp [Written.body, h]
  rw [Written.spoken, lines_of_not_mem hline, List.map_singleton, List.filter_cons_of_pos,
    List.filter_nil]
  simpa using rstrip_body_ne_nil w

theorem quoted_of_not_mem {w : Written} (h : '\n' ∉ w.text) : w.Quoted := by
  intro l hl
  rw [spoken_of_not_mem h, List.mem_singleton] at hl
  rw [hl, isBody_rstrip]
  exact isBody_body w

/-- The header line of a block counts when it is a header. -/
theorem marked_header {w : Written} (hw : w.Stamped) (hn : '\n' ∉ w.label) :
    marked w.header = if isHead w.header then [w.header] else [] := by
  have hbody : isBody w.header = false := by
    rw [isBody, rstrip_header]
    rfl
  rw [marked, lines_of_not_mem (hw.newline hn), List.map_singleton, rstrip_header]
  cases hh : isHead w.header <;> simp [isMarked, hh, hbody]

/-! ## Reading a layout -/

/-- The text is these blocks, one after the other. -/
def LaysOut (text : Str) (ws : List Written) : Prop := marked text = ws.flatMap Written.marks

/-- `b` is the written block with these lines, up to blanks around the label and at the end
of lines. -/
structure Written.IsWith (w : Written) (ls : List Str) (b : Block) : Prop where
  speaker : b.speaker = strip w.label
  start : ClockReads w.start b.start
  stop : ClockReads w.stop b.stop
  headerLine : b.headerLine = w.header
  bodyLines : b.bodyLines = ls

/-- `b` is the written block. -/
abbrev Written.Is (w : Written) (b : Block) : Prop := w.IsWith w.spoken b

/-- The parser finds the block: its header is one line that has the shape of a header and
means this label and these times, and every spoken line begins with `>`. -/
structure Written.Clean (w : Written) : Prop where
  label_ne : w.label ≠ []
  star : '*' ∉ w.label
  newline : '\n' ∉ w.label
  start : ∃ t, ClockReads w.start t
  stop : ∃ t, ClockReads w.stop t
  quoted : w.Quoted

theorem Written.Clean.exists_is {w : Written} (hw : w.Stamped) (h : w.Clean) :
    ∃ b, w.Is b ∧ Reads (w.header, w.spoken) b := by
  obtain ⟨t₁, h₁⟩ := h.start
  obtain ⟨t₂, h₂⟩ := h.stop
  refine ⟨⟨strip w.label, t₁, t₂, w.header, w.spoken⟩, ⟨rfl, h₁, h₂, rfl, rfl⟩, ?_, rfl⟩
  exact (headBlock_header hw h.star).mpr ⟨h.label_ne, rfl, h₁, h₂, rfl, rfl⟩

/-- **Clean blocks are read as they were written.** -/
theorem reparses_of_clean {text : Str} {ws : List Written} (hlay : LaysOut text ws)
    (hstamp : ∀ w ∈ ws, w.Stamped) (hclean : ∀ w ∈ ws, w.Clean) :
    ∃ bs, Reparses text bs ∧ List.Forall₂ Written.Is ws bs := by
  have hmarks : ∀ w ∈ ws, w.marks = w.header :: w.spoken := by
    intro w hw
    have hhead : isHead w.header = true := (isHead_header (hstamp w hw) (hclean w hw).star).mpr
      ⟨(hclean w hw).label_ne, (hclean w hw).start.choose_spec.isClock,
        (hclean w hw).stop.choose_spec.isClock⟩
    rw [Written.marks, marked_header (hstamp w hw) (hclean w hw).newline, if_pos hhead,
      marked_body (hclean w hw).quoted]
    rfl
  have hcut : cut isHead (marked text) = ([], ws.map fun w => (w.header, w.spoken)) := by
    rw [hlay, List.flatMap_congr hmarks, cut_eq_iff]
    refine ⟨⟨by simp, ?_, ?_⟩, by simp [flat, List.flatMap_map]⟩
    · intro s hs
      obtain ⟨w, hw, rfl⟩ := List.mem_map.mp hs
      obtain ⟨b, -, hread⟩ := (hclean w hw).exists_is (hstamp w hw)
      exact isHead_of_headBlock hread.head
    · intro s hs l hl
      obtain ⟨w, hw, rfl⟩ := List.mem_map.mp hs
      exact isHead_of_isBody ((hclean w hw).quoted l hl)
  have hread : ∀ {ws : List Written}, (∀ w ∈ ws, w.Stamped) → (∀ w ∈ ws, w.Clean) →
      ∃ bs, List.Forall₂ (fun w b => w.Is b ∧ Reads (w.header, w.spoken) b) ws bs := by
    intro ws
    induction ws with
    | nil => exact fun _ _ => ⟨[], .nil⟩
    | cons w ws ih =>
        intro hstamp hclean
        obtain ⟨b, hb⟩ := (hclean w List.mem_cons_self).exists_is (hstamp w List.mem_cons_self)
        obtain ⟨bs, hbs⟩ := ih (fun v hv => hstamp v (List.mem_cons_of_mem _ hv))
          fun v hv => hclean v (List.mem_cons_of_mem _ hv)
        exact ⟨b :: bs, .cons hb hbs⟩
  obtain ⟨bs, hbs⟩ := hread hstamp hclean
  refine ⟨bs, ?_, hbs.imp fun _ _ h => h.1⟩
  rw [reparses_iff, hcut, List.forall₂_map_left_iff]
  exact hbs.imp fun _ _ h => h.2

/-- **Only clean blocks are.** -/
theorem clean_of_is {text : Str} {ws : List Written} {bs : List Block}
    (hread : Reparses text bs) (hstamp : ∀ w ∈ ws, w.Stamped)
    (his : List.Forall₂ Written.Is ws bs) : ∀ w ∈ ws, w.Clean := by
  intro w hw
  obtain ⟨blocks, hok, rfl⟩ := hread
  obtain ⟨b, hb, hwb⟩ := exists_of_forall₂ his.flip hw
  obtain ⟨b', hb', rfl⟩ := List.mem_map.mp hb
  have hwf := reparse_wellFormed hok b' hb'
  have hline : rstrip b'.headerLine = w.header := hwb.headerLine
  have hnewline : '\n' ∉ w.header := fun hn =>
    hwf.header_line (mem_of_mem_rstrip (hline ▸ hn))
  have hhead : headBlock w.header = .ok (some { b'.trim with bodyLines := [] }) := by
    rw [← hline, headBlock_rstrip, hwf.head]
    rfl
  have hstar : '*' ∉ w.label := by
    intro hmem
    obtain ⟨head, hre, hspeaker, -⟩ := headBlock_eq_some.mp hwf.head
    have hstrip : strip w.label = strip head.speaker := hwb.speaker.symm.trans hspeaker
    have hin : '*' ∈ strip head.speaker := hstrip ▸ (mem_strip_iff (by decide)).mpr hmem
    exact (headRe_eq_some.mp hre).1.speaker ((mem_strip_iff (by decide)).mp hin)
  refine ⟨((headBlock_header (hstamp w hw) hstar).mp hhead).1, hstar, ?_, ⟨_, hwb.start⟩,
    ⟨_, hwb.stop⟩, ?_⟩
  · intro hn
    exact hnewline (by simp [Written.header, hn])
  · intro l hl
    rw [← hwb.bodyLines] at hl
    obtain ⟨l', hl', rfl⟩ := List.mem_map.mp hl
    rw [isBody_rstrip]
    exact (hwf.body l' hl').1

end MesReunions.Transcript
