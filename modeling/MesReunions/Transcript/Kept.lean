import MesReunions.Transcript.Filter

/-!
# What re-filter leaves of blocks of one line

`api_re_filter_forbidden` reads the stored text, drops the body lines that match and then the
blocks without a line, and writes the rest. Here the text is that of blocks whose label and text
are one line each.

* **`contentLines_reFilter`** — what is written is what is kept of each section.
* **`bodies_kept`** — the lines kept are those that do not match, read or not.
* **`kept_of_heads`** — if the header of every block kept is read, the blocks kept are left whole.
-/

namespace MesReunions.Transcript

open Str Sections

variable {lower : Str → Str} {phrases : List (Str × Str)}

/-! ## Sections -/

/-- The sections with the lines that are kept, where there are any. -/
def sectionsKept (lower : Str → Str) (phrases : List (Str × Str)) (secs : List (Str × List Str)) :
    List (Str × List Str) :=
  (secs.map fun s => (s.1, keepLines lower phrases s.2)).filter fun s => !s.2.isEmpty

theorem sectionsKept_cons (s : Str × List Str) (secs : List (Str × List Str)) :
    sectionsKept lower phrases (s :: secs) =
      (if keepLines lower phrases s.2 = [] then [] else [(s.1, keepLines lower phrases s.2)]) ++
        sectionsKept lower phrases secs := by
  rw [sectionsKept, List.map_cons, List.filter_cons]
  cases keepLines lower phrases s.2 with
  | nil => simp [sectionsKept]
  | cons l ls => simp [sectionsKept]

theorem section_of_reads {s : Str × List Str} {b : Block} (h : Reads s b) : b.section = s := by
  obtain ⟨-, -, -, -, -, hline, -⟩ := headBlock_eq_some.mp h.head
  exact Prod.ext hline h.body

theorem sections_of_reads {secs : List (Str × List Str)} {bs : List Block}
    (h : List.Forall₂ Reads secs bs) : bs.map Block.section = secs := by
  induction h with
  | nil => rfl
  | cons hread _ ih => rw [List.map_cons, section_of_reads hread, ih]

/-- The lines that the printer puts down. -/
theorem contentLines_rebuild {blocks : List Block} (h : ∀ b ∈ blocks, b.WellFormed) :
    contentLines (rebuild blocks) = flat (blocks.map fun b => b.trim.section) := by
  have hblock : ∀ b ∈ blocks, (b.headerLine :: (b.bodyLines ++ [[]])).flatMap contentLines =
      b.trim.headerLine :: b.trim.bodyLines := by
    intro b hb
    have hwf := h b hb
    have hmarked : ∀ {l : Str}, '\n' ∉ l → isMarked l = true → contentLines l = [rstrip l] := by
      intro l hn hmark
      refine contentLines_line hn fun hnil => ?_
      rw [← isMarked_rstrip, hnil, isMarked_nil] at hmark
      cases hmark
    have hbody : ∀ l ∈ b.bodyLines, contentLines l = [rstrip l] := fun l hl =>
      hmarked (hwf.body l hl).2 (isMarked_of_isBody (hwf.body l hl).1)
    have hhead : contentLines b.headerLine = [rstrip b.headerLine] :=
      hmarked hwf.header_line (isMarked_of_isHead _ (isHead_of_headBlock hwf.head))
    rw [List.flatMap_cons, List.flatMap_append, hhead, List.flatMap_singleton, contentLines_nil,
      List.append_nil, List.flatMap_congr hbody, ← List.map_eq_flatMap]
    rfl
  rw [rebuild, contentLines_append, contentLines_nil, List.append_nil, contentLines_rstrip,
    contentLines_joinLines, List.flatMap_assoc, List.flatMap_congr hblock, flat, List.flatMap_map]
  rfl

/-- **What re-filter writes.** -/
theorem contentLines_reFilter {text : Str} {blocks : List Block} (h : reparse text = .ok blocks) :
    contentLines (rebuild (filterBlocks lower phrases blocks)) =
      flat (sectionsKept lower phrases (cut isHead (marked text)).2) := by
  have hsections := sections_of_reads (reparses_iff.mp ⟨blocks, h, rfl⟩)
  have hwf : ∀ b ∈ filterBlocks lower phrases blocks, b.WellFormed := by
    intro b hb
    obtain ⟨b', hb', rfl⟩ := List.mem_map.mp (List.mem_filter.mp hb).1
    exact wellFormed_filterLines (reparse_wellFormed h b' hb')
  rw [contentLines_rebuild hwf, ← hsections]
  congr 1
  clear h hsections hwf
  induction blocks with
  | nil => rfl
  | cons b blocks ih =>
      rw [List.map_cons, List.map_cons, sectionsKept_cons, ← ih, filterBlocks, List.map_cons,
        List.filter_cons]
      have hkeep : keepLines lower phrases b.trim.section.2 =
          (keepLines lower phrases b.bodyLines).map rstrip := (keepLines_rstrip b.bodyLines).symm
      rw [hkeep]
      cases hk : keepLines lower phrases b.bodyLines with
      | nil =>
          simp only [Block.filterLines, hk]
          rfl
      | cons l ls =>
          simp only [Block.filterLines, hk]
          rfl

/-- Nothing but headers and body lines is written. -/
theorem isMarked_of_mem_kept {text l : Str}
    (hl : l ∈ flat (sectionsKept lower phrases (cut isHead (marked text)).2)) :
    isMarked l = true := by
  obtain ⟨s, hs, hl⟩ := List.mem_flatMap.mp hl
  obtain ⟨s', hs', rfl⟩ := List.mem_map.mp (List.mem_filter.mp hs).1
  have hmem : l ∈ s'.1 :: s'.2 := by
    rcases List.mem_cons.mp hl with rfl | hl
    · exact List.mem_cons_self
    · exact List.mem_cons_of_mem _ (List.mem_filter.mp hl).1
  exact (List.mem_filter.mp (mem_of_mem_cut hs' l hmem)).2

/-! ## Blocks of one line -/

/-- A label and a text of one line each. -/
structure Written.OneLine (w : Written) : Prop where
  stamped : w.Stamped
  label : '\n' ∉ w.label
  star : '*' ∉ w.label
  text : '\n' ∉ w.text
  strip : strip w.text = w.text
  ne : w.text ≠ []

/-- The one line of the text. -/
def Written.line (w : Written) : Str := rstrip w.body

/-- Re-filter keeps the line. -/
def Written.kept (lower : Str → Str) (phrases : List (Str × Str)) (w : Written) : Bool :=
  !isForbidden lower phrases w.text

section OneLine

variable {w : Written} {ws : List Written}

theorem Written.OneLine.line_eq (h : w.OneLine) : w.line = '>' :: ' ' :: w.text := by
  have hr : rstrip w.text = w.text := by rw [← h.strip, rstrip_strip]
  have hblank : rstrip (' ' :: w.text) = ' ' :: w.text := by
    have happ := rstrip_append (s := [' ']) (hr.symm ▸ h.ne)
    rwa [hr] at happ
  rw [Written.line, Written.body, rstrip_cons_of_not (by decide), hblank]

theorem spokenText_line (h : w.OneLine) : spokenText w.line = w.text := by
  rw [h.line_eq, spokenText, lstripChar, List.dropWhile_cons_of_pos (by decide),
    List.dropWhile_cons_of_neg (by decide), strip_space_cons (by decide), h.strip]

theorem isBody_line (w : Written) : isBody w.line = true := by
  rw [Written.line, isBody_rstrip]
  exact isBody_body w

theorem isHead_line (w : Written) : isHead w.line = false := isHead_of_isBody (isBody_line w)

theorem isBody_header (w : Written) : isBody w.header = false := by
  rw [isBody, rstrip_header]
  rfl

theorem contentLines_header (h : w.OneLine) : contentLines w.header = [w.header] := by
  rw [contentLines_line (h.stamped.newline h.label), rstrip_header]
  rw [rstrip_header]
  exact List.cons_ne_nil _ _

theorem contentLines_body (h : w.OneLine) : contentLines w.body = [w.line] :=
  spoken_of_not_mem h.text

theorem marks_of_oneLine (h : w.OneLine) :
    w.marks = (if isHead w.header then [w.header] else []) ++ [w.line] := by
  rw [Written.marks, marked_header h.stamped h.label, marked_body (quoted_of_not_mem h.text),
    spoken_of_not_mem h.text]
  rfl

theorem keepLines_line (h : w.OneLine) (ls : List Str) : keepLines lower phrases (w.line :: ls) =
    (if w.kept lower phrases then [w.line] else []) ++ keepLines lower phrases ls := by
  rw [keepLines, List.filter_cons, spokenText_line h, Written.kept]
  split <;> rfl

/-- The blocks of a text, cut at the headers that are read. -/
theorem cut_marks (h : w.OneLine) (ws : List Written) :
    let c := cut isHead (ws.flatMap Written.marks)
    cut isHead ((w :: ws).flatMap Written.marks) =
      if isHead w.header then ([], (w.header, w.line :: c.1) :: c.2) else (w.line :: c.1, c.2) := by
  intro c
  have hline : cut isHead ([w.line] ++ ws.flatMap Written.marks) = (w.line :: c.1, c.2) :=
    cut_other (isHead_line w) _
  rw [List.flatMap_cons, marks_of_oneLine h]
  cases hh : isHead w.header with
  | true =>
      rw [if_pos rfl, if_pos rfl, List.append_assoc, List.singleton_append, cut_head hh, hline]
  | false =>
      rw [if_neg Bool.false_ne_true, if_neg Bool.false_ne_true, List.nil_append]
      exact hline

/-- **The lines that are kept**: those before the first header that is read, which are not
written, and those in the sections. -/
theorem bodies_kept (h : ∀ w ∈ ws, w.OneLine) :
    let c := cut isHead (ws.flatMap Written.marks)
    (∀ l ∈ c.1, isBody l = true) ∧ keepLines lower phrases c.1 ++
        (flat (sectionsKept lower phrases c.2)).filter isBody =
      (ws.filter (Written.kept lower phrases)).map Written.line := by
  induction ws with
  | nil => exact ⟨fun l hl => absurd hl List.not_mem_nil, rfl⟩
  | cons w ws ih =>
      obtain ⟨hbodies, hkept⟩ := ih fun v hv => h v (List.mem_cons_of_mem _ hv)
      have hw := h w List.mem_cons_self
      have hhead := cut_marks hw ws
      intro c
      generalize cut isHead (ws.flatMap Written.marks) = c' at hbodies hkept hhead
      have hline : ((w :: ws).filter (Written.kept lower phrases)).map Written.line =
          (if w.kept lower phrases then [w.line] else []) ++
            (keepLines lower phrases c'.1 ++
              (flat (sectionsKept lower phrases c'.2)).filter isBody) := by
        rw [hkept, List.filter_cons]
        split <;> rfl
      have hlines : ∀ l ∈ w.line :: c'.1, isBody l = true := by
        intro l hl
        rcases List.mem_cons.mp hl with rfl | hl
        · exact isBody_line w
        · exact hbodies l hl
      dsimp only at hhead
      rw [hline]
      change cut isHead _ = _ at hhead
      show (∀ l ∈ (cut isHead _).1, _) ∧ keepLines _ _ (cut isHead _).1 ++
        (flat (sectionsKept _ _ (cut isHead _).2)).filter isBody = _
      rw [hhead]
      split
      · -- The header is read: its section holds the line and what stood before the next header.
        refine ⟨fun l hl => absurd hl List.not_mem_nil, ?_⟩
        have hkeep : keepLines lower phrases [] = [] := rfl
        rw [hkeep, List.nil_append, sectionsKept_cons, ← List.append_assoc,
          ← keepLines_line hw]
        have hall : (keepLines lower phrases (w.line :: c'.1)).filter isBody =
            keepLines lower phrases (w.line :: c'.1) :=
          List.filter_eq_self.mpr fun l hl => hlines l (List.mem_filter.mp hl).1
        dsimp only
        split
        · rename_i hnil
          rw [hnil]
          rfl
        · rw [List.singleton_append, flat_cons, List.filter_cons_of_neg, List.filter_append, hall]
          rw [isBody_header]
          exact Bool.false_ne_true
      · refine ⟨hlines, ?_⟩
        rw [keepLines_line hw, List.append_assoc]

/-- **Blocks that are kept are left whole**, if their headers are read. -/
theorem kept_of_heads (h : ∀ w ∈ ws, w.OneLine)
    (hheads : ∀ w ∈ ws, w.kept lower phrases = true → isHead w.header = true) :
    let c := cut isHead (ws.flatMap Written.marks)
    keepLines lower phrases c.1 = [] ∧ flat (sectionsKept lower phrases c.2) =
      (ws.filter (Written.kept lower phrases)).flatMap fun w => [w.header, w.line] := by
  induction ws with
  | nil => exact ⟨rfl, rfl⟩
  | cons w ws ih =>
      obtain ⟨hbefore, hkept⟩ := ih (fun v hv => h v (List.mem_cons_of_mem _ hv))
        fun v hv => hheads v (List.mem_cons_of_mem _ hv)
      have hw := h w List.mem_cons_self
      have hhead := cut_marks hw ws
      intro c
      generalize cut isHead (ws.flatMap Written.marks) = c' at hbefore hkept hhead
      show keepLines _ _ (cut isHead _).1 = [] ∧ flat (sectionsKept _ _ (cut isHead _).2) = _
      rw [hhead, List.filter_cons]
      have hkeep : keepLines lower phrases (w.line :: c'.1) =
          (if w.kept lower phrases then [w.line] else []) ++ keepLines lower phrases c'.1 :=
        keepLines_line hw c'.1
      rw [hbefore, List.append_nil] at hkeep
      cases hk : w.kept lower phrases with
      | true =>
          rw [hk, if_pos rfl] at hkeep
          rw [if_pos (hheads w List.mem_cons_self hk), if_pos rfl]
          refine ⟨rfl, ?_⟩
          rw [sectionsKept_cons, hkeep, if_neg (List.cons_ne_nil _ _), List.singleton_append,
            flat_cons, hkept, List.flatMap_cons]
          rfl
      | false =>
          rw [hk, if_neg Bool.false_ne_true] at hkeep
          rw [if_neg Bool.false_ne_true]
          split
          · refine ⟨rfl, ?_⟩
            rw [sectionsKept_cons, hkeep, if_pos rfl, List.nil_append, hkept]
          · exact ⟨hkeep, hkept⟩

end OneLine

end MesReunions.Transcript
