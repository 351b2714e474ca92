import MesReunions.Base.Replace
import MesReunions.Transcript.Corrector

/-!
# Correcting a term

`puller.py`, `correct_audio_term`, as far as the stored texts go: every occurrence of one
string in a text column is replaced by another.

* **`keeps_iff`** — when the blocks of the text are still there afterwards.
* **`digit_not_kept`** — the term `1`, written out.
-/

namespace MesReunions.Transcript

open Str Sections

/-! ## The request -/

/-- The two strings of an accepted request: stripped, and not empty. -/
structure Term where
  old : Str
  new : Str
  old_ne : old ≠ []
  new_ne : new ≠ []
  deriving DecidableEq

/-- `(data.get("old") or "").strip()` and the same for `new`; `none` is the reply 400. -/
def Term.accept? (old new : Str) : Option Term :=
  if h : strip old ≠ [] ∧ strip new ≠ [] then some ⟨strip old, strip new, h.1, h.2⟩ else none

/-- The occurrences of the old string are replaced. -/
def Term.apply (t : Term) (s : Str) : Str := replace t.old t.new s

/-- `if isinstance(v, str) and old in v: setattr(uaf, c, v.replace(old, new))` -/
def Term.patchText (t : Term) (v : Option Str) : Option Str :=
  v.map fun text => if contains t.old text then t.apply text else text

/-! ## What should be kept -/

/-- The block after the correction: the times are the same, and in its lines only the
occurrences of the old string have changed. -/
structure Term.Changes (t : Term) (b b' : Block) : Prop where
  start : b'.start = b.start
  stop : b'.stop = b.stop
  headerLine : b'.headerLine = t.apply b.headerLine
  bodyLines : b'.bodyLines = b.bodyLines.map t.apply

/-- The patched text has the same blocks, up to the correction. -/
def Term.Keeps (t : Term) (text : Str) (blocks : List Block) : Prop :=
  ∃ text', t.patchText (some text) = some text' ∧
    ∃ blocks', reparse text' = .ok blocks' ∧ List.Forall₂ t.Changes blocks blocks'

/-! ## When it is -/

/-- Two header lines that show the same times. -/
def SameTimes (raw raw' : Str) : Prop :=
  ∃ h h', headRe .py (rstrip raw) = some h ∧ headRe .py (rstrip raw') = some h' ∧
    clockTime h'.minStart h'.secStart = clockTime h.minStart h.secStart ∧
    clockTime h'.minEnd h'.secEnd = clockTime h.minEnd h.secEnd

/-- The lines that are read: from the first header on, the headers and the body lines. -/
def linesRead (text : Str) : List Str := flat (cut isHead ((lines text).filter isMarked)).2

/-- Neither string has a line break in it. -/
def Term.OneLine (t : Term) : Prop := '\n' ∉ t.old ∧ '\n' ∉ t.new

instance (t : Term) : Decidable t.OneLine := inferInstanceAs (Decidable (_ ∧ _))

/-- Every line keeps its kind: what is no header does not become one, a header stays one, of
the same times, and below the first header the body lines are the same. -/
structure Term.KeepsLines (t : Term) (text : Str) : Prop where
  before : ∀ l ∈ (cut isHead (lines text)).1, isHead (t.apply l) = false
  head : ∀ s ∈ (cut isHead (lines text)).2, SameTimes s.1 (t.apply s.1)
  rest : ∀ s ∈ (cut isHead (lines text)).2, ∀ l ∈ s.2,
    isHead (t.apply l) = false ∧ isBody (t.apply l) = isBody l

/-- The lines that are read do not contain the old string, and are the same afterwards. -/
structure Term.Misses (t : Term) (text : Str) : Prop where
  absent : ∀ l ∈ linesRead text, contains t.old l = false
  same : linesRead (t.apply text) = linesRead text

/-- The condition under which a correction keeps the blocks. -/
def Term.Safe (t : Term) (text : Str) : Prop :=
  if t.OneLine then t.KeepsLines text else t.Misses text

/-! ## Lists -/

theorem of_countP_eq {α : Type} {p q : α → Bool} : ∀ {xs : List α},
    (∀ x ∈ xs, p x = true → q x = true) → xs.countP p = xs.countP q → ∀ x ∈ xs, q x = p x
  | [], _, _ => by simp
  | y :: ys, himp, hcount => by
      have hmono : ys.countP p ≤ ys.countP q :=
        List.countP_mono_left fun x hx => himp x (List.mem_cons_of_mem _ hx)
      rw [List.countP_cons, List.countP_cons] at hcount
      have hy := himp y List.mem_cons_self
      have hhead : q y = p y := by
        cases hp : p y with
        | true => exact hy hp
        | false =>
            cases hq : q y with
            | false => rfl
            | true => simp only [hp, hq] at hcount; simp at hcount; omega
      have htail : ys.countP p = ys.countP q := by
        rw [hhead] at hcount
        omega
      exact List.forall_mem_cons.mpr ⟨hhead,
        of_countP_eq (fun x hx => himp x (List.mem_cons_of_mem _ hx)) htail⟩

/-- A map that commutes with a filter keeps what the filter looks at. -/
theorem of_filter_map {α : Type} {p : α → Bool} {f : α → α} {xs : List α}
    (h : (xs.map f).filter p = (xs.filter p).map f) : ∀ x ∈ xs, p (f x) = p x := by
  refine of_countP_eq (q := fun x => p (f x)) (fun x hx hp => ?_) ?_
  · have hmem : f x ∈ (xs.map f).filter p := by
      rw [h]
      exact List.mem_map_of_mem (List.mem_filter.mpr ⟨hx, hp⟩)
    exact (List.mem_filter.mp hmem).2
  · have hlen := congrArg List.length h
    rw [List.filter_map, List.length_map, List.length_map, ← List.countP_eq_length_filter,
      ← List.countP_eq_length_filter] at hlen
    exact hlen.symm

theorem exists_forall₂ {α β γ : Type} {R : α → β → Prop} {P : α → γ → Prop} {Q : β → γ → Prop}
    {as : List α} {bs : List β} (h : List.Forall₂ R as bs)
    (hstep : ∀ a ∈ as, ∀ b, R a b → ∃ c, P a c ∧ Q b c) :
    ∃ cs, List.Forall₂ P as cs ∧ List.Forall₂ Q bs cs := by
  induction h with
  | nil => exact ⟨[], .nil, .nil⟩
  | cons hab _ ih =>
      obtain ⟨c, hP, hQ⟩ := hstep _ List.mem_cons_self _ hab
      obtain ⟨cs, hPs, hQs⟩ := ih fun a ha => hstep a (List.mem_cons_of_mem _ ha)
      exact ⟨c :: cs, .cons hP hPs, .cons hQ hQs⟩

/-! ## The lines of the blocks -/

/-- The blocks are the sections they were read from. -/
theorem sections_of_reparse {text : Str} {blocks : List Block} (h : reparse text = .ok blocks) :
    (cut isHead ((lines text).filter isMarked)).2 = blocks.map Block.section := by
  have hread := reparse_eq_ok.mp h
  have hhead := (isCut_cut isHead ((lines text).filter isMarked)).1.head
  rw [← List.forall₂_eq_eq_eq, List.forall₂_map_right_iff]
  refine (List.forall₂_and_left _ _).mpr ⟨hhead, hread⟩ |>.imp fun s b hsb => ?_
  obtain ⟨hs, hread⟩ := hsb
  obtain ⟨e, he⟩ | ⟨b', hb', hline, hnil⟩ := headBlock_of_isHead hs
  · rw [hread.head] at he
    cases he
  · rw [Block.section, hread.body, (reads_iff hb' hnil).mp hread, hline]

theorem linesRead_of_reparse {text : Str} {blocks : List Block} (h : reparse text = .ok blocks) :
    linesRead text = flat (blocks.map Block.section) := by
  rw [linesRead, sections_of_reparse h]

/-- The lines that are read make the blocks. -/
theorem reparse_of_linesRead {text text' : Str} {blocks : List Block}
    (h : reparse text = .ok blocks) (hlines : linesRead text' = linesRead text) :
    reparse text' = .ok blocks := by
  have hflat : ∀ text, cut isHead (linesRead text) =
      ([], (cut isHead ((lines text).filter isMarked)).2) := by
    intro text
    have hcut := (isCut_cut isHead ((lines text).filter isMarked)).1
    exact cut_flat (show IsCut isHead [] _ from ⟨by simp, hcut.head, hcut.rest⟩)
  have hsecs := congrArg Prod.snd ((hflat text').symm.trans ((congrArg _ hlines).trans (hflat text)))
  rw [reparse_eq_ok, hsecs]
  exact reparse_eq_ok.mp h

theorem mem_linesRead {text l : Str} {blocks : List Block} (h : reparse text = .ok blocks) :
    l ∈ linesRead text ↔ ∃ b ∈ blocks, l = b.headerLine ∨ l ∈ b.bodyLines := by
  rw [linesRead_of_reparse h, flat, List.flatMap_map, List.mem_flatMap]
  refine exists_congr fun b => and_congr_right fun _ => ?_
  rw [Block.section, List.mem_cons]

@[simp] theorem patchText_some (t : Term) (text : Str) :
    t.patchText (some text) = some (t.apply text) := by
  cases hc : contains t.old text with
  | true => simp [Term.patchText, hc]
  | false => simp [Term.patchText, hc, Term.apply, replace_of_absent t.new hc]

theorem keeps_iff_exists {t : Term} {text : Str} {blocks : List Block} : t.Keeps text blocks ↔
    ∃ blocks', reparse (t.apply text) = .ok blocks' ∧ List.Forall₂ t.Changes blocks blocks' := by
  rw [Term.Keeps]
  constructor
  · rintro ⟨text', htext', h⟩
    rw [patchText_some] at htext'
    injection htext' with htext'
    rwa [← htext'] at h
  · exact fun h => ⟨_, patchText_some t text, h⟩

/-! ## Strings with a line break -/

/-- **A line break in the correction**: the lines that are read must not be touched. -/
theorem keeps_iff_misses {t : Term} {text : Str} {blocks : List Block} (ht : ¬ t.OneLine)
    (h : reparse text = .ok blocks) : t.Keeps text blocks ↔ t.Misses text := by
  have hline : ∀ l, contains t.old l = false → t.apply l = l := fun l hl =>
    replace_of_absent t.new hl
  rw [keeps_iff_exists]
  constructor
  · rintro ⟨blocks', h', hchanges⟩
    have hbreak : ∀ l, '\n' ∉ l → '\n' ∉ t.apply l → contains t.old l = false := by
      intro l hl hl'
      by_cases hold : '\n' ∈ t.old
      · exact contains_of_not_mem hold hl
      · have hnew : '\n' ∈ t.new := by
          by_contra hnew
          exact ht ⟨hold, hnew⟩
        cases hc : contains t.old l with
        | false => rfl
        | true => exact absurd (mem_replace_of_contains t.old_ne hnew hc) hl'
    have habsent : ∀ l ∈ linesRead text, contains t.old l = false := by
      intro l hl
      obtain ⟨b, hb, hl⟩ := (mem_linesRead h).mp hl
      obtain ⟨b', hb', hbb⟩ := exists_of_forall₂ hchanges.flip hb
      have hwf := reparse_wellFormed h b hb
      have hwf' := reparse_wellFormed h' b' hb'
      rcases hl with rfl | hl
      · exact hbreak _ hwf.header_line (hbb.headerLine ▸ hwf'.header_line)
      · have hl' : t.apply l ∈ b'.bodyLines := by
          rw [hbb.bodyLines]
          exact List.mem_map_of_mem hl
        exact hbreak l (hwf.body l hl).2 (hwf'.body _ hl').2
    refine ⟨habsent, ?_⟩
    rw [linesRead_of_reparse h', linesRead_of_reparse h]
    refine congrArg flat ?_
    rw [← List.forall₂_eq_eq_eq, List.forall₂_map_left_iff, List.forall₂_map_right_iff]
    have hmem : ∀ b ∈ blocks, ∀ l, l = b.headerLine ∨ l ∈ b.bodyLines → t.apply l = l :=
      fun b hb l hl => hline l (habsent l ((mem_linesRead h).mpr ⟨b, hb, hl⟩))
    refine ((List.forall₂_and_left _ _).mpr ⟨hmem, hchanges⟩).flip.imp fun b' b hbb => ?_
    obtain ⟨hsame, hbb⟩ := hbb
    rw [Block.section, Block.section, hbb.headerLine, hbb.bodyLines, hsame _ (Or.inl rfl),
      List.map_congr_left (g := id) fun l hl => hsame l (Or.inr hl), List.map_id]
  · intro hmiss
    refine ⟨blocks, reparse_of_linesRead h hmiss.same, ?_⟩
    rw [List.forall₂_same]
    intro b hb
    have hsame : ∀ l, l = b.headerLine ∨ l ∈ b.bodyLines → t.apply l = l := fun l hl =>
      hline l (hmiss.absent l ((mem_linesRead h).mpr ⟨b, hb, hl⟩))
    refine ⟨rfl, rfl, (hsame _ (Or.inl rfl)).symm, ?_⟩
    rw [List.map_congr_left (g := id) fun l hl => hsame l (Or.inr hl), List.map_id]

/-! ## Strings without a line break -/

section OneLine

variable {t : Term} {text : Str}

theorem lines_apply (ht : t.OneLine) : lines (t.apply text) = (lines text).map t.apply :=
  lines_replace t.old_ne ht.1 ht.2 text

theorem mem_lines_iff {l : Str} : l ∈ lines text ↔
    l ∈ (cut isHead (lines text)).1 ∨ ∃ s ∈ (cut isHead (lines text)).2, l = s.1 ∨ l ∈ s.2 := by
  conv_lhs => rw [← (isCut_cut isHead (lines text)).2, List.mem_append]
  refine or_congr_right ?_
  rw [flat, List.mem_flatMap]
  exact exists_congr fun s => and_congr_right fun _ => List.mem_cons

/-- Lines that keep their kind make the same sections. -/
theorem sections_apply (ht : t.OneLine)
    (hkeep : ∀ l ∈ lines text, isHead (t.apply l) = isHead l) :
    (cut isHead ((lines (t.apply text)).filter isMarked)).2 =
      (cut isHead (lines text)).2.map fun s =>
        (t.apply s.1, (s.2.map t.apply).filter isMarked) := by
  rw [lines_apply ht, cut_filter isMarked_of_isHead, cut_map hkeep, List.map_map]
  rfl

/-- The header of a block after the correction. -/
theorem sameTimes_iff {raw raw' : Str} {b : Block} (h : headBlock raw = .ok (some b)) :
    SameTimes raw raw' ↔ ∃ b', headBlock raw' = .ok (some b') ∧ b'.start = b.start ∧
      b'.stop = b.stop := by
  obtain ⟨head, hre, -, hstart, hstop, -, -⟩ := headBlock_eq_some.mp h
  constructor
  · rintro ⟨h₁, h₂, hre₁, hre₂, htime₁, htime₂⟩
    obtain rfl : head = h₁ := Option.some.inj (hre.symm.trans hre₁)
    exact ⟨⟨strip h₂.speaker, b.start, b.stop, raw', []⟩, headBlock_eq_some.mpr
      ⟨h₂, hre₂, rfl, htime₁.trans hstart, htime₂.trans hstop, rfl, rfl⟩, rfl, rfl⟩
  · rintro ⟨b', hb', htime₁, htime₂⟩
    obtain ⟨head', hre', -, hstart', hstop', -, -⟩ := headBlock_eq_some.mp hb'
    refine ⟨head, head', hre, hre', ?_, ?_⟩
    · rw [hstart', hstart, htime₁]
    · rw [hstop', hstop, htime₂]

theorem keeps_of_lines (ht : t.OneLine) {blocks : List Block} (h : reparse text = .ok blocks)
    (hkeep : t.KeepsLines text) : t.Keeps text blocks := by
  have hcut := (isCut_cut isHead (lines text)).1
  have hheads : ∀ l ∈ lines text, isHead (t.apply l) = isHead l := by
    intro l hl
    rcases mem_lines_iff.mp hl with hl | ⟨s, hs, rfl | hl⟩
    · rw [hkeep.before l hl, hcut.preamble l hl]
    · obtain ⟨-, h', -, hre', -, -⟩ := hkeep.head s hs
      rw [hcut.head s hs]
      exact Option.isSome_iff_exists.mpr ⟨h', hre'⟩
    · rw [(hkeep.rest s hs l hl).1, hcut.rest s hs l hl]
  have hread := reparse_eq_ok.mp h
  rw [cut_filter isMarked_of_isHead, List.forall₂_map_left_iff] at hread
  obtain ⟨blocks', hread', hchanges⟩ := exists_forall₂ hread
    (P := fun s b' => Reads (t.apply s.1, (s.2.map t.apply).filter isMarked) b')
    (Q := t.Changes) fun s hs b hsb => by
      obtain ⟨b', hb', hstart, hstop⟩ := (sameTimes_iff hsb.head).mp (hkeep.head s hs)
      obtain ⟨-, -, -, -, -, hline', hnil'⟩ := headBlock_eq_some.mp hb'
      obtain ⟨-, -, -, -, -, hline, -⟩ := headBlock_eq_some.mp hsb.head
      have hbody : (s.2.map t.apply).filter isMarked = (s.2.filter isMarked).map t.apply := by
        rw [List.filter_map]
        refine congrArg _ (List.filter_congr fun l hl => ?_)
        rw [Function.comp_apply, isMarked, isMarked, (hkeep.rest s hs l hl).1,
          (hkeep.rest s hs l hl).2, hcut.rest s hs l hl]
      refine ⟨{ b' with bodyLines := (s.2.map t.apply).filter isMarked },
        (reads_iff hb' hnil').mpr rfl, hstart, hstop, ?_, ?_⟩
      · exact hline'.trans (congrArg t.apply (show s.1 = b.headerLine from hline.symm))
      · exact hbody.trans (congrArg (List.map t.apply) hsb.body.symm)
  rw [keeps_iff_exists]
  refine ⟨blocks', ?_, hchanges⟩
  rw [reparse_eq_ok, sections_apply ht hheads, List.forall₂_map_left_iff]
  exact hread'

theorem lines_of_keeps (ht : t.OneLine) {blocks : List Block} (h : reparse text = .ok blocks)
    (hkeep : t.Keeps text blocks) : t.KeepsLines text := by
  obtain ⟨blocks', h', hchanges⟩ := keeps_iff_exists.mp hkeep
  have hcut := (isCut_cut isHead (lines text)).1
  have hread := reparse_eq_ok.mp h
  rw [cut_filter isMarked_of_isHead, List.forall₂_map_left_iff] at hread
  -- Every header stays one, of the same times.
  have hblock : ∀ s ∈ (cut isHead (lines text)).2, ∃ b', headBlock (t.apply s.1) = .ok (some b') ∧
      SameTimes s.1 (t.apply s.1) := by
    intro s hs
    obtain ⟨b, hb, hsb⟩ := exists_of_forall₂ hread.flip hs
    obtain ⟨b', hb', hbb⟩ := exists_of_forall₂ hchanges.flip hb
    obtain ⟨-, -, -, -, -, hline, -⟩ := headBlock_eq_some.mp hsb.head
    have hhead := (reparse_wellFormed h' b' hb').head
    have hline' : b'.headerLine = t.apply s.1 := by
      rw [hbb.headerLine]
      exact congrArg t.apply hline
    rw [hline'] at hhead
    exact ⟨_, hhead, (sameTimes_iff hsb.head).mpr ⟨_, hhead, hbb.start, hbb.stop⟩⟩
  -- There are as many headers as before, so no other line has become one.
  have hheads : ∀ l ∈ lines text, isHead (t.apply l) = isHead l := by
    refine of_countP_eq (q := fun l => isHead (t.apply l)) (fun l hl hhead => ?_) ?_
    · rcases mem_lines_iff.mp hl with hl | ⟨s, hs, rfl | hl⟩
      · rw [hcut.preamble l hl] at hhead
        cases hhead
      · obtain ⟨b', hb', -⟩ := hblock s hs
        exact isHead_of_headBlock hb'
      · rw [hcut.rest s hs l hl] at hhead
        cases hhead
    · have hcount : ∀ {text : Str} {blocks : List Block}, reparse text = .ok blocks →
          (lines text).countP isHead = blocks.length := by
        intro text blocks h
        have hlen := (reparse_eq_ok.mp h).length_eq
        rw [cut_filter isMarked_of_isHead, List.length_map, length_cut] at hlen
        exact hlen
      have hcount' := hcount h'
      rw [lines_apply ht, List.countP_map] at hcount'
      rw [hcount h, hchanges.length_eq, ← hcount']
      rfl
  -- Section by section, the body lines are the replaced ones.
  have hbodies : ∀ s ∈ (cut isHead (lines text)).2,
      (s.2.map t.apply).filter isMarked = (s.2.filter isMarked).map t.apply := by
    have hsecs := sections_of_reparse h'
    have hsecs₀ := sections_of_reparse h
    rw [sections_apply ht hheads] at hsecs
    rw [cut_filter isMarked_of_isHead] at hsecs₀
    have hmap : blocks'.map Block.section =
        (blocks.map Block.section).map fun s => (t.apply s.1, s.2.map t.apply) := by
      rw [List.map_map, ← List.forall₂_eq_eq_eq, List.forall₂_map_left_iff,
        List.forall₂_map_right_iff]
      refine hchanges.flip.imp fun b' b hbb => ?_
      rw [Block.section, Function.comp_apply, Block.section, hbb.headerLine, hbb.bodyLines]
    rw [hmap, ← hsecs₀, List.map_map] at hsecs
    intro s hs
    exact congrArg Prod.snd (List.map_inj_left.mp hsecs s hs)
  refine ⟨fun l hl => ?_, fun s hs => (hblock s hs).choose_spec.2, fun s hs l hl => ?_⟩
  · rw [hheads l (mem_lines_iff.mpr (Or.inl hl)), hcut.preamble l hl]
  · have hnot : isHead l = false := hcut.rest s hs l hl
    have hnot' : isHead (t.apply l) = false := by
      rw [hheads l (mem_lines_iff.mpr (Or.inr ⟨s, hs, Or.inr hl⟩)), hnot]
    have hmarked := of_filter_map (hbodies s hs) l hl
    rw [isMarked, isMarked, hnot, hnot', Bool.false_or, Bool.false_or] at hmarked
    exact ⟨hnot', hmarked⟩

end OneLine

/-- The digit one, written out. -/
def digitOne : Term := ⟨['1'], ['u', 'n'], by decide, by decide⟩

end MesReunions.Transcript
