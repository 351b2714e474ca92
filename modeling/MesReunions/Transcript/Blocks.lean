import MesReunions.Base.Lines
import MesReunions.Base.Sections
import MesReunions.Transcript.Header

/-!
# The blocks of a transcript

The parser and the printer of a `speaker_tagged_text` on the server (`puller.py`,
`_reparse_speaker_tagged_blocks` and `_rebuild_speaker_tagged`).

* **`reparse_eq_ok`** — a text is read by cutting its marked lines at the headers.
* **`reparses_iff`** — the same up to blanks at the end of lines.
* **`reparses_rebuild`** — what the printer writes is read back.
-/

namespace MesReunions.Transcript

open Str Sections

/-! ## Reading -/

/-- One element of the parser's result. -/
structure Block where
  speaker : Str
  start : PyFloat
  stop : PyFloat
  headerLine : Str
  bodyLines : List Str
  deriving DecidableEq

/-- The number that a match of `\d+(?:\.\d+)?` denotes. -/
def secondsValue (x : Str) : ℚ :=
  let frac := (x.dropWhile (· != '.')).drop 1
  natOfDigits (x.takeWhile (· != '.')) + natOfDigits frac / 10 ^ frac.length

/-- `int(minutes) * 60 + float(seconds)` -/
def clockTime (minutes seconds : Str) : Except PyError PyFloat :=
  if maxStrDigits < minutes.length then .error .valueError
  else
    let m : ℚ := (natOfDigits minutes * 60 : Nat)
    if overflowAt ≤ m then .error .overflowError
    else .ok (.add (.ofRat m) (.ofRat (secondsValue seconds)))

/-- The block that a line opens, when it is a header. -/
def headBlock (raw : Str) : Except PyError (Option Block) :=
  match headRe .py (rstrip raw) with
  | none => .ok none
  | some h => do
      let start ← clockTime h.minStart h.secStart
      let stop ← clockTime h.minEnd h.secEnd
      .ok (some ⟨strip h.speaker, start, stop, raw, []⟩)

/-- `line.startswith(">")` on the stripped line -/
def isBody (raw : Str) : Bool := (rstrip raw).head? == some '>'

/-- The loop over the lines: `current` is the open block. -/
def scanLines : Option Block → List Str → Except PyError (List Block)
  | current, [] => .ok current.toList
  | current, raw :: rest => do
      match ← headBlock raw with
      | some b =>
          let blocks ← scanLines (some b) rest
          .ok (current.toList ++ blocks)
      | none =>
          match current with
          | none => scanLines none rest
          | some c =>
              if isBody raw then
                scanLines (some { c with bodyLines := c.bodyLines ++ [raw] }) rest
              else scanLines (some c) rest

/-- `_reparse_speaker_tagged_blocks(text)` -/
def reparse (text : Str) : Except PyError (List Block) :=
  if text = [] then .ok [] else scanLines none (lines text)

/-- `_rebuild_speaker_tagged(blocks)` -/
def rebuild (blocks : List Block) : Str :=
  rstrip (joinLines (blocks.flatMap fun b => b.headerLine :: (b.bodyLines ++ [[]]))) ++ ['\n']

/-! ## Lines that count -/

/-- The line is a header. -/
def isHead (raw : Str) : Bool := (headRe .py (rstrip raw)).isSome

/-- The line is a header or belongs to a body. -/
def isMarked (raw : Str) : Bool := isHead raw || isBody raw

/-- A match ends before the blanks at the end of its line. -/
theorem headRe_rstrip (line : Str) : headRe .py (rstrip line) = headRe .py line := by
  have htext : ∀ (h : Head) sp₁ sp₂ sp₃, rstrip (h.text sp₁ sp₂ sp₃) = h.text sp₁ sp₂ sp₃ := by
    intro h sp₁ sp₂ sp₃
    have hlast : ∃ pre, h.text sp₁ sp₂ sp₃ = pre ++ ['_'] := by
      refine ⟨['*', '*'] ++ (h.speaker ++ (['*', '*'] ++ (sp₁ ++ (['_', '('] ++
        (clockText h.minStart h.secStart ++ (sp₂ ++ (['→'] ++ (sp₃ ++
          (clockText h.minEnd h.secEnd ++ [')']))))))))), ?_⟩
      simp [Head.text]
    obtain ⟨pre, hpre⟩ := hlast
    rw [hpre, rstrip_concat_of_not (by decide)]
  ext h
  simp only [headRe_eq_some]
  constructor
  · rintro ⟨hv, sp₁, sp₂, sp₃, rest, h₁, h₂, h₃, hline⟩
    obtain ⟨blank, hblank⟩ := prefix_of_rstrip line
    refine ⟨hv, sp₁, sp₂, sp₃, rest ++ blank, h₁, h₂, h₃, ?_⟩
    rw [← hblank, hline, List.append_assoc]
  · rintro ⟨hv, sp₁, sp₂, sp₃, rest, h₁, h₂, h₃, rfl⟩
    exact ⟨hv, sp₁, sp₂, sp₃, rstrip rest, h₁, h₂, h₃, rstrip_append_of_rstrip (htext ..) rest⟩

theorem isHead_eq (raw : Str) : isHead raw = (headRe .py raw).isSome := by
  rw [isHead, headRe_rstrip]

@[simp] theorem isHead_rstrip (raw : Str) : isHead (rstrip raw) = isHead raw := by
  rw [isHead, rstrip_rstrip, isHead]

@[simp] theorem isBody_rstrip (raw : Str) : isBody (rstrip raw) = isBody raw := by
  rw [isBody, rstrip_rstrip, isBody]

@[simp] theorem isMarked_rstrip (raw : Str) : isMarked (rstrip raw) = isMarked raw := by
  simp [isMarked]

theorem isBody_iff {raw : Str} : isBody raw = true ↔ raw.head? = some '>' := by
  rw [isBody, beq_iff_eq, head?_rstrip_of_not (by decide)]

/-- A header begins with a star. -/
theorem head?_of_isHead {raw : Str} (h : isHead raw = true) : raw.head? = some '*' := by
  rw [isHead_eq, Option.isSome_iff_exists] at h
  obtain ⟨head, h⟩ := h
  obtain ⟨-, sp₁, sp₂, sp₃, rest, -, -, -, rfl⟩ := headRe_eq_some.mp h
  rfl

theorem isHead_of_head? {raw : Str} (h : raw.head? ≠ some '*') : isHead raw = false := by
  cases hh : isHead raw with
  | false => rfl
  | true => exact absurd (head?_of_isHead hh) h

theorem isHead_of_isBody {raw : Str} (h : isBody raw = true) : isHead raw = false :=
  isHead_of_head? (by rw [isBody_iff.mp h]; decide)

theorem isMarked_of_isHead (raw : Str) (h : isHead raw = true) : isMarked raw = true := by
  simp [isMarked, h]

theorem isMarked_of_isBody {raw : Str} (h : isBody raw = true) : isMarked raw = true := by
  simp [isMarked, h]

@[simp] theorem isMarked_nil : isMarked [] = false := by
  rw [isMarked, isHead_of_head? (by decide), isBody, rstrip_nil]
  rfl

/-- A marked line is a header or a body line, not both. -/
theorem isMarked_iff {raw : Str} :
    isMarked raw = true ↔ isHead raw = true ∨ isHead raw = false ∧ isBody raw = true := by
  cases hh : isHead raw with
  | true => simp [isMarked, hh]
  | false => simp [isMarked, hh]

theorem headBlock_eq_none {raw : Str} (h : isHead raw = false) : headBlock raw = .ok none := by
  rw [headBlock, Option.isSome_eq_false_iff.mp h |> Option.isNone_iff_eq_none.mp]

/-- **The block of a header line**: its groups, its own text, no body yet. -/
theorem headBlock_eq_some {raw : Str} {b : Block} : headBlock raw = .ok (some b) ↔
    ∃ h, headRe .py (rstrip raw) = some h ∧ b.speaker = strip h.speaker ∧
      clockTime h.minStart h.secStart = .ok b.start ∧ clockTime h.minEnd h.secEnd = .ok b.stop ∧
      b.headerLine = raw ∧ b.bodyLines = [] := by
  rw [headBlock]
  constructor
  · intro hb
    split at hb
    · cases hb
    · rename_i h hre
      cases hstart : clockTime h.minStart h.secStart with
      | error e => rw [hstart] at hb; cases hb
      | ok start =>
          cases hstop : clockTime h.minEnd h.secEnd with
          | error e => rw [hstart, hstop] at hb; cases hb
          | ok stop =>
              rw [hstart, hstop] at hb
              injection hb with hb
              injection hb with hb
              subst hb
              exact ⟨h, hre, rfl, hstart, hstop, rfl, rfl⟩
  · rintro ⟨h, hre, hspeaker, hstart, hstop, hline, hnil⟩
    rw [hre]
    dsimp only
    rw [hstart, hstop, ← hspeaker, ← hline, ← hnil]
    rfl

/-- A header line opens a block of its own line, or its times cannot be read. -/
theorem headBlock_of_isHead {raw : Str} (h : isHead raw = true) :
    (∃ e, headBlock raw = .error e) ∨
      ∃ b, headBlock raw = .ok (some b) ∧ b.headerLine = raw ∧ b.bodyLines = [] := by
  obtain ⟨head, hre⟩ := Option.isSome_iff_exists.mp h
  cases hb : headBlock raw with
  | error e => exact Or.inl ⟨e, rfl⟩
  | ok o =>
      cases o with
      | none =>
          rw [headBlock, hre] at hb
          dsimp only at hb
          cases h₁ : clockTime head.minStart head.secStart with
          | error e => rw [h₁] at hb; cases hb
          | ok start => cases h₂ : clockTime head.minEnd head.secEnd <;> rw [h₁, h₂] at hb <;> cases hb
      | some b =>
          obtain ⟨-, -, -, -, -, hline, hnil⟩ := headBlock_eq_some.mp hb
          exact Or.inr ⟨b, rfl, hline, hnil⟩

theorem isHead_of_headBlock {raw : Str} {b : Block} (h : headBlock raw = .ok (some b)) :
    isHead raw = true := by
  obtain ⟨head, hre, -⟩ := headBlock_eq_some.mp h
  exact Option.isSome_iff_exists.mpr ⟨head, hre⟩

/-! ## A text as sections -/

/-- The section of a text that a block is read from. -/
structure Reads (s : Str × List Str) (b : Block) : Prop where
  head : headBlock s.1 = .ok (some { b with bodyLines := [] })
  body : b.bodyLines = s.2

theorem reads_iff {raw : Str} {b b' : Block} {ls : List Str}
    (h : headBlock raw = .ok (some b)) (hnil : b.bodyLines = []) :
    Reads (raw, ls) b' ↔ b' = { b with bodyLines := ls } := by
  constructor
  · rintro ⟨hhead, rfl⟩
    rw [h] at hhead
    injection hhead with hhead
    injection hhead with hhead
    rw [hhead]
  · rintro rfl
    refine ⟨?_, rfl⟩
    rw [h, ← hnil]

/-- The body lines of a list go to the open block. -/
def extend (current : Option Block) (ls : List Str) : List Block :=
  (current.map fun c => { c with bodyLines := c.bodyLines ++ ls }).toList

theorem scanLines_head {raw : Str} {b : Block} (h : headBlock raw = .ok (some b))
    (current : Option Block) (ls : List Str) : scanLines current (raw :: ls) =
      (scanLines (some b) ls).map (current.toList ++ ·) := by
  simp only [scanLines, h, Except.bind, bind, Except.map]

theorem scanLines_error {raw : Str} {e : PyError} (h : headBlock raw = .error e)
    (current : Option Block) (ls : List Str) : scanLines current (raw :: ls) = .error e := by
  simp only [scanLines, h, Except.bind, bind]

theorem scanLines_other {raw : Str} (h : isHead raw = false) (current : Option Block)
    (ls : List Str) : scanLines current (raw :: ls) =
      scanLines (extend current ([raw].filter isBody)).head? ls := by
  have hb := headBlock_eq_none h
  cases current with
  | none => simp [scanLines, hb, Except.bind, bind, extend]
  | some c =>
      cases hbody : isBody raw <;> simp [scanLines, hb, Except.bind, bind, extend, hbody]

/-- **The loop reads sections.** The lines before the first header go to the open block;
then every header and the lines up to the next make one block. -/
theorem scanLines_eq_ok {ls : List Str} : ∀ {current : Option Block} {blocks : List Block},
    scanLines current ls = .ok blocks ↔
      ∃ rest, blocks = extend current ((cut isHead ls).1.filter isBody) ++ rest ∧
        List.Forall₂ (fun s b => Reads (s.1, s.2.filter isBody) b) (cut isHead ls).2 rest := by
  induction ls with
  | nil =>
      intro current blocks
      cases current <;> simp [scanLines, extend, eq_comm]
  | cons raw ls ih =>
      intro current blocks
      cases hh : isHead raw with
      | true =>
          rw [cut_head hh]
          obtain ⟨e, he⟩ | ⟨b, hb, -, hnil⟩ := headBlock_of_isHead hh
          · rw [scanLines_error he]
            constructor
            · intro h; cases h
            · rintro ⟨rest, -, hrest⟩
              cases hrest with
              | cons hread _ => rw [hread.head] at he; cases he
          · have hextend : extend current ([].filter isBody) = current.toList := by
              cases current <;> simp [extend]
            have hopen : ∀ ls, extend (some b) ls = [{ b with bodyLines := ls }] := by
              intro ls
              simp [extend, hnil]
            rw [scanLines_head hb, hextend]
            constructor
            · intro h
              cases hscan : scanLines (some b) ls with
              | error e => rw [hscan] at h; cases h
              | ok bs =>
                  rw [hscan] at h
                  injection h with h
                  obtain ⟨rest, rfl, hrest⟩ := ih.mp hscan
                  rw [hopen] at h
                  exact ⟨_, h.symm, .cons ((reads_iff hb hnil).mpr rfl) hrest⟩
            · rintro ⟨rest, rfl, hrest⟩
              cases hrest with
              | cons hread hrest =>
                  rw [ih.mpr ⟨_, rfl, hrest⟩, hopen, ← (reads_iff hb hnil).mp hread]
                  rfl
      | false =>
          rw [cut_other hh, scanLines_other hh, ih]
          cases current with
          | none => simp [extend]
          | some c => cases hbody : isBody raw <;> simp [extend, hbody]

/-- The lines of a text that count, without the blanks at their end. -/
def marked (text : Str) : List Str := ((lines text).map rstrip).filter isMarked

/-- **A text is read by cutting it at its headers.** -/
theorem reparse_eq_ok {text : Str} {blocks : List Block} : reparse text = .ok blocks ↔
    List.Forall₂ Reads (cut isHead ((lines text).filter isMarked)).2 blocks := by
  have hbody : ∀ s ∈ (cut isHead (lines text)).2, s.2.filter isMarked = s.2.filter isBody := by
    intro s hs
    refine List.filter_congr fun raw hraw => ?_
    rw [isMarked, (isCut_cut isHead (lines text)).1.rest s hs raw hraw, Bool.false_or]
  have hscan : scanLines none (lines text) = .ok blocks ↔
      List.Forall₂ Reads (cut isHead ((lines text).filter isMarked)).2 blocks := by
    rw [scanLines_eq_ok, cut_filter isMarked_of_isHead, List.map_congr_left fun s hs => by
      rw [hbody s hs], List.forall₂_map_left_iff]
    simp [extend]
  rw [reparse]
  split
  · rename_i hnil
    rw [← hscan, hnil, lines_nil, scanLines_other (isHead_of_head? (by decide))]
    rfl
  · exact hscan

/-! ## Up to blanks at the end of lines -/

/-- A block without the blanks at the end of its lines. -/
def Block.trim (b : Block) : Block :=
  { b with headerLine := rstrip b.headerLine, bodyLines := b.bodyLines.map rstrip }

/-- The section a block was read from. -/
def Block.section (b : Block) : Str × List Str := (b.headerLine, b.bodyLines)

theorem headBlock_rstrip (raw : Str) : headBlock (rstrip raw) =
    (headBlock raw).map (Option.map fun b => { b with headerLine := rstrip b.headerLine }) := by
  rw [headBlock, headBlock, rstrip_rstrip]
  cases headRe .py (rstrip raw) with
  | none => rfl
  | some h =>
      dsimp only
      cases clockTime h.minStart h.secStart with
      | error e => rfl
      | ok start => cases clockTime h.minEnd h.secEnd <;> rfl

theorem reads_rstrip {s : Str × List Str} {b : Block} :
    Reads (rstrip s.1, s.2.map rstrip) b ↔ ∃ b', Reads s b' ∧ b'.trim = b := by
  constructor
  · rintro ⟨hhead, hbody⟩
    have hh := isHead_of_headBlock hhead
    rw [isHead_rstrip] at hh
    rw [headBlock_rstrip] at hhead
    obtain ⟨e, he⟩ | ⟨b', hb', hline, hnil⟩ := headBlock_of_isHead hh
    · rw [he] at hhead; cases hhead
    · refine ⟨{ b' with bodyLines := s.2 }, (reads_iff hb' hnil).mpr rfl, ?_⟩
      rw [hb'] at hhead
      simp only [Except.map, Option.map_some, Except.ok.injEq, Option.some.injEq,
        Block.mk.injEq] at hhead
      obtain ⟨h₁, h₂, h₃, h₄, -⟩ := hhead
      simp only [Block.trim, h₁, h₂, h₃, h₄]
      rw [show s.2.map rstrip = b.bodyLines from hbody.symm]
  · rintro ⟨b', ⟨hhead, hbody⟩, rfl⟩
    refine ⟨?_, by rw [Block.trim, hbody]⟩
    rw [headBlock_rstrip, hhead]
    rfl

/-- The text is read as these blocks, up to blanks at the end of lines. -/
def Reparses (text : Str) (blocks : List Block) : Prop :=
  ∃ bs, reparse text = .ok bs ∧ bs.map Block.trim = blocks

/-- **Reading, up to blanks at the end of lines.** -/
theorem reparses_iff {text : Str} {blocks : List Block} :
    Reparses text blocks ↔ List.Forall₂ Reads (cut isHead (marked text)).2 blocks := by
  have hmarked : marked text = ((lines text).filter isMarked).map rstrip := by
    rw [marked, List.filter_map]
    congr 2
    funext raw
    exact isMarked_rstrip raw
  rw [hmarked, cut_map fun raw _ => isHead_rstrip raw, List.forall₂_map_left_iff]
  constructor
  · rintro ⟨bs, hbs, rfl⟩
    rw [List.forall₂_map_right_iff]
    exact (reparse_eq_ok.mp hbs).imp fun s b hread => reads_rstrip.mpr ⟨b, hread, rfl⟩
  · intro h
    have hex : ∀ {secs : List (Str × List Str)} {blocks : List Block},
        List.Forall₂ (fun s b => Reads (rstrip s.1, s.2.map rstrip) b) secs blocks →
          ∃ bs, List.Forall₂ Reads secs bs ∧ bs.map Block.trim = blocks := by
      intro secs blocks h
      induction h with
      | nil => exact ⟨[], .nil, rfl⟩
      | cons hread _ ih =>
          obtain ⟨b, hb, rfl⟩ := reads_rstrip.mp hread
          obtain ⟨bs, hbs, rfl⟩ := ih
          exact ⟨b :: bs, .cons hb hbs, rfl⟩
    obtain ⟨bs, hbs, rfl⟩ := hex h
    exact ⟨bs, reparse_eq_ok.mpr hbs, rfl⟩

/-! ## Printing -/

/-- What the parser returns: a header line of its own, body lines, one line each. -/
structure Block.WellFormed (b : Block) : Prop where
  head : headBlock b.headerLine = .ok (some { b with bodyLines := [] })
  header_line : '\n' ∉ b.headerLine
  body : ∀ l ∈ b.bodyLines, isBody l = true ∧ '\n' ∉ l

theorem exists_of_forall₂ {α β : Type} {R : α → β → Prop} {as : List α} {bs : List β}
    (h : List.Forall₂ R as bs) {b : β} (hb : b ∈ bs) : ∃ a ∈ as, R a b := by
  induction h with
  | nil => cases hb
  | cons hab _ ih =>
      rcases List.mem_cons.mp hb with rfl | hb
      · exact ⟨_, List.mem_cons_self, hab⟩
      · obtain ⟨a, ha, hab⟩ := ih hb
        exact ⟨a, List.mem_cons_of_mem _ ha, hab⟩

theorem reparse_wellFormed {text : Str} {blocks : List Block} (h : reparse text = .ok blocks) :
    ∀ b ∈ blocks, b.WellFormed := by
  intro b hb
  obtain ⟨s, hs, hread⟩ := exists_of_forall₂ (reparse_eq_ok.mp h) hb
  have hmem := mem_of_mem_cut hs
  have hcut := (isCut_cut isHead ((lines text).filter isMarked)).1
  have hline : b.headerLine = s.1 := by
    obtain ⟨e, he⟩ | ⟨b', hb', hline, hnil⟩ := headBlock_of_isHead (hcut.head s hs)
    · rw [hread.head] at he; cases he
    · rw [← hline, (reads_iff hb' hnil).mp hread]
  refine ⟨(congrArg headBlock hline).trans hread.head, ?_, fun l hl => ?_⟩
  · rw [hline]
    exact not_mem_of_mem_lines (List.mem_filter.mp (hmem s.1 List.mem_cons_self)).1
  · rw [hread.body] at hl
    obtain ⟨hline, hmark⟩ := List.mem_filter.mp (hmem l (List.mem_cons_of_mem _ hl))
    have hnot := hcut.rest s hs l hl
    refine ⟨?_, not_mem_of_mem_lines hline⟩
    rcases isMarked_iff.mp hmark with hhead | ⟨-, hbody⟩
    · rw [hhead] at hnot; cases hnot
    · exact hbody

/-! ## Lines that say something -/

/-- The lines of a text that are not blank, without the blanks at their end. -/
def contentLines (text : Str) : List Str :=
  ((lines text).map rstrip).filter fun l => !l.isEmpty

theorem marked_eq (text : Str) : marked text = (contentLines text).filter isMarked := by
  rw [contentLines, List.filter_filter, marked]
  refine List.filter_congr fun l _ => ?_
  cases l with
  | nil => simp
  | cons c l => simp

theorem contentLines_append (s t : Str) :
    contentLines (s ++ '\n' :: t) = contentLines s ++ contentLines t := by
  rw [contentLines, lines_append, List.map_append, List.filter_append]
  rfl

@[simp] theorem contentLines_nil : contentLines [] = [] := by
  simp [contentLines]

@[simp] theorem contentLines_rstrip (s : Str) : contentLines (rstrip s) = contentLines s := by
  obtain ⟨k, hk⟩ := lines_rstrip s
  rw [contentLines, contentLines, hk, List.filter_append, List.filter_replicate_of_neg (by simp),
    List.append_nil]

theorem contentLines_joinLines {ls : List Str} :
    contentLines (joinLines ls) = ls.flatMap contentLines := by
  induction ls with
  | nil => rw [joinLines_nil, contentLines_nil, List.flatMap_nil]
  | cons l ls ih =>
      by_cases hls : ls = []
      · subst hls
        simp
      · rw [joinLines_cons hls, contentLines_append, ih, List.flatMap_cons]

/-- A line that is not blank is all that a text of one line says. -/
theorem contentLines_line {l : Str} (hn : '\n' ∉ l) (hne : rstrip l ≠ []) :
    contentLines l = [rstrip l] := by
  rw [contentLines, lines_of_not_mem hn, List.map_singleton, List.filter_cons_of_pos (by simpa using hne),
    List.filter_nil]

theorem marked_append (s t : Str) : marked (s ++ '\n' :: t) = marked s ++ marked t := by
  rw [marked_eq, contentLines_append, List.filter_append, ← marked_eq, ← marked_eq]

@[simp] theorem marked_nil : marked [] = [] := by
  rw [marked_eq, contentLines_nil, List.filter_nil]

theorem marked_rstrip (s : Str) : marked (rstrip s) = marked s := by
  rw [marked_eq, contentLines_rstrip, ← marked_eq]

theorem marked_joinLines {ls : List Str} : marked (joinLines ls) = ls.flatMap marked := by
  rw [marked_eq, contentLines_joinLines, List.filter_flatMap]
  exact List.flatMap_congr fun l _ => (marked_eq l).symm

/-- A marked line is all that counts in it. -/
theorem marked_line {l : Str} (hn : '\n' ∉ l) (hm : isMarked l = true) : marked l = [rstrip l] := by
  rw [marked, lines_of_not_mem hn, List.map_singleton, List.filter_cons_of_pos (by simpa using hm),
    List.filter_nil]

/-- **What the printer writes is read back.** -/
theorem reparses_rebuild {blocks : List Block} (h : ∀ b ∈ blocks, b.WellFormed) :
    Reparses (rebuild blocks) (blocks.map Block.trim) := by
  have hblock : ∀ b ∈ blocks, (b.headerLine :: (b.bodyLines ++ [[]])).flatMap marked =
      b.trim.headerLine :: b.trim.bodyLines := by
    intro b hb
    have hwf := h b hb
    have hbody : ∀ l ∈ b.bodyLines, marked l = [rstrip l] := fun l hl =>
      marked_line (hwf.body l hl).2 (isMarked_of_isBody (hwf.body l hl).1)
    have hhead : marked b.headerLine = [rstrip b.headerLine] :=
      marked_line hwf.header_line (isMarked_of_isHead _ (isHead_of_headBlock hwf.head))
    rw [List.flatMap_cons, List.flatMap_append, hhead, List.flatMap_singleton, marked_nil,
      List.append_nil, List.flatMap_congr hbody, ← List.map_eq_flatMap]
    rfl
  have hmarked : marked (rebuild blocks) = flat (blocks.map fun b => b.trim.section) := by
    rw [rebuild, marked_append, marked_nil, List.append_nil, marked_rstrip, marked_joinLines,
      List.flatMap_assoc, List.flatMap_congr hblock, flat, List.flatMap_map]
    rfl
  have hcut : IsCut isHead [] (blocks.map fun b => b.trim.section) := by
    refine ⟨by simp, ?_, ?_⟩
    · intro s hs
      obtain ⟨b, hb, rfl⟩ := List.mem_map.mp hs
      rw [Block.section, Block.trim, isHead_rstrip]
      exact isHead_of_headBlock (h b hb).head
    · intro s hs line hline
      obtain ⟨b, hb, rfl⟩ := List.mem_map.mp hs
      obtain ⟨l, hl, rfl⟩ := List.mem_map.mp hline
      rw [isHead_rstrip]
      exact isHead_of_isBody ((h b hb).body l hl).1
  rw [reparses_iff, hmarked, show flat (blocks.map fun b => b.trim.section) =
    [] ++ flat (blocks.map fun b => b.trim.section) from rfl, cut_flat hcut,
    List.forall₂_map_left_iff, List.forall₂_map_right_iff, List.forall₂_same]
  intro b hb
  exact reads_rstrip (s := b.section).mpr ⟨b, ⟨(h b hb).head, rfl⟩, rfl⟩

end MesReunions.Transcript
