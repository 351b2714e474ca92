import MesReunions.Formats.Blocks

/-!
# Markdown, normalised

`text_to_md_string` of `mesreunions-web/app/transcript_formats.py`: the blocks are written one a
line, with an empty line before each section, and the empty lines are counted.

* `Spaced` — the lines of a document as the loop leaves them.
* `emit_spaced` — a block keeps them so; `emit_lines` — and lines that are so are written again
  as they stand.
* **`md_normal`** — the result is a fixed point, with the blocks of the text.
-/

namespace MesReunions.Formats

open Str

/-- `if out and out[-1] != "": out.append("")` -/
def blankBefore (out : List Str) : List Str :=
  if out.getLast?.any (· ≠ []) then out ++ [[]] else out

/-- One turn of the loop of `text_to_md_string`. -/
def emit (out : List Str) (b : Block) : List Str :=
  match b.kind with
  | .blank => blankBefore out
  | .heading | .speaker => blankBefore out ++ [mdLine b]
  | _ => out ++ [mdLine b]

/-- At most one empty line in a row; `prevBlank` when one has been kept. -/
def dedupeBlank : (prevBlank : Bool) → List Str → List Str
  | _, [] => []
  | prevBlank, [] :: ls =>
      if prevBlank then dedupeBlank true ls else [] :: dedupeBlank true ls
  | _, l :: ls => l :: dedupeBlank false ls

/-- The end of `text_to_md_string` and of `text_to_plain_string`. -/
def finish (out : List Str) : Str :=
  joinLines ((dedupeBlank false out).rdropWhile (· = [])) ++ ['\n']

/-- `text_to_md_string(text)` -/
def textToMdString (text : Str) : Str := finish ((iterBlocks text).foldl emit [])

/-- The blocks of a text that are not blank. -/
def solid (bs : List Block) : List Block := bs.filter (·.kind ≠ .blank)

/-! ## Lines as the loop leaves them -/

/-- Two lines in a row: not both empty, and a section has an empty line before it. -/
def Follows (a b : Str) : Prop := (a = [] → b ≠ []) ∧ ((blockOf b).IsSection → a = [])

/-- A line that `text_to_md_string` writes. -/
structure Written (l : Str) : Prop where
  unbroken : Unbroken l
  read : l ≠ [] → (blockOf l).kind ≠ .blank ∧ mdLine (blockOf l) = l

structure Spaced (out : List Str) : Prop where
  start : out.head? ≠ some []
  follows : out.IsChain Follows
  written : ∀ l ∈ out, Written l

theorem blockOf_nil : blockOf [] = ⟨.blank, 0, []⟩ := by decide

theorem written_nil : Written [] := ⟨fun _ h => absurd h List.not_mem_nil, fun h => absurd rfl h⟩

theorem mdLine_ne_nil {b : Block} (h : blockOf (mdLine b) = b) (hb : b.kind ≠ .blank) :
    mdLine b ≠ [] := by
  intro hnil
  rw [hnil, blockOf_nil] at h
  rw [← h] at hb
  exact hb rfl

/-- The line of a block that was read. -/
theorem written_mdLine {raw : Str} (hraw : Unbroken raw) (h : (blockOf raw).kind ≠ .blank) :
    Written (mdLine (blockOf raw)) where
  unbroken := unbroken_mdLine hraw
  read _ := by
    rw [blockOf_mdLine h]
    exact ⟨h, rfl⟩

theorem Spaced.append {out : List Str} {l : Str} (h : Spaced out) (hl : Written l)
    (hstart : out = [] → l ≠ []) (hfollows : ∀ a ∈ out.getLast?, Follows a l) :
    Spaced (out ++ [l]) where
  start := by
    cases out with
    | nil => simpa using hstart rfl
    | cons a out => exact h.start
  follows := by
    rw [List.isChain_append]
    refine ⟨h.follows, List.isChain_singleton l, fun a ha b hb => ?_⟩
    obtain rfl := Option.some.inj hb
    exact hfollows a ha
  written := by
    intro x hx
    rcases List.mem_append.mp hx with hx | hx
    · exact h.written x hx
    · obtain rfl := List.mem_singleton.mp hx
      exact hl

/-- What is written next to an empty line that `blankBefore` may have put there. -/
theorem spaced_blankBefore {out : List Str} (h : Spaced out) :
    Spaced (blankBefore out) ∧ ∀ a ∈ (blankBefore out).getLast?, a = [] := by
  rw [blankBefore]
  split
  · rename_i hlast
    refine ⟨h.append written_nil ?_ ?_, by simp⟩
    · rintro rfl
      cases hlast
    · intro a ha
      have hout : out.getLast? = some a := ha
      have hne : a ≠ [] := by simpa [hout] using hlast
      exact ⟨fun hnil => absurd hnil hne, fun hsec => absurd hsec (by decide)⟩
  · rename_i hlast
    refine ⟨h, fun a ha => ?_⟩
    have hout : out.getLast? = some a := ha
    simpa [hout] using hlast

/-- **A block keeps the lines spaced.** -/
theorem emit_spaced {out : List Str} (h : Spaced out) {raw : Str} (hraw : Unbroken raw) :
    Spaced (emit out (blockOf raw)) := by
  obtain ⟨hblank, hlast⟩ := spaced_blankBefore h
  by_cases hkind : (blockOf raw).kind = .blank
  · rw [emit, hkind]
    exact hblank
  · have hself := blockOf_mdLine hkind
    have hne := mdLine_ne_nil hself hkind
    have hwritten := written_mdLine hraw hkind
    by_cases hsec : (blockOf raw).IsSection
    · have hemit : emit out (blockOf raw) = blankBefore out ++ [mdLine (blockOf raw)] := by
        rcases hsec with hsec | hsec <;> rw [emit, hsec]
      rw [hemit]
      exact hblank.append hwritten (fun _ => hne) fun a ha => ⟨fun _ => hne, fun _ => hlast a ha⟩
    · have hemit : emit out (blockOf raw) = out ++ [mdLine (blockOf raw)] := by
        rw [emit]
        cases hk : (blockOf raw).kind with
        | heading => exact absurd (Or.inl hk) hsec
        | speaker => exact absurd (Or.inr hk) hsec
        | blank => exact absurd hk hkind
        | bullet => rfl
        | blockquote => rfl
        | para => rfl
      rw [hemit]
      refine h.append hwritten (fun _ => hne) fun a _ => ⟨fun _ => hne, fun hs => ?_⟩
      rw [hself] at hs
      exact absurd hs hsec

theorem spaced_nil : Spaced [] := ⟨by simp, List.IsChain.nil, by simp⟩

/-- The lines of the loop. -/
theorem spaced_foldl {raws : List Str} (hraws : ∀ l ∈ raws, Unbroken l) {out : List Str}
    (h : Spaced out) : Spaced ((raws.map blockOf).foldl emit out) := by
  induction raws generalizing out with
  | nil => exact h
  | cons raw raws ih =>
      exact ih (fun l hl => hraws l (List.mem_cons_of_mem _ hl))
        (emit_spaced h (hraws raw List.mem_cons_self))

/-! ## The end of the function -/

theorem dedupeBlank_eq {ls : List Str} (h : ls.IsChain Follows) :
    ∀ {prevBlank : Bool}, (prevBlank = true → ls.head? ≠ some []) →
      dedupeBlank prevBlank ls = ls := by
  induction ls with
  | nil => exact fun _ => rfl
  | cons l ls ih =>
      intro prevBlank hprev
      have hrest : ∀ a ∈ ls.head?, Follows l a := (List.isChain_cons.mp h).1
      have htail := @ih (List.isChain_cons.mp h).2
      cases l with
      | nil =>
          have hkept : prevBlank = false := by
            cases prevBlank with
            | false => rfl
            | true => exact absurd rfl (hprev rfl)
          rw [hkept, dedupeBlank, if_neg (by simp), htail]
          intro _ hhead
          exact (hrest [] hhead).1 rfl rfl
      | cons c l =>
          rw [dedupeBlank, htail (fun hf => by cases hf)]
          simp

/-- The lines without the empty ones at the end. -/
def trimmed (out : List Str) : List Str := out.rdropWhile (· = [])

theorem spaced_trimmed {out : List Str} (h : Spaced out) : Spaced (trimmed out) := by
  have hpre : trimmed out <+: out := List.rdropWhile_prefix _ _
  refine ⟨?_, h.follows.prefix hpre, fun l hl => h.written l (hpre.subset hl)⟩
  intro hhead
  obtain ⟨t, ht⟩ := hpre
  have hstart := h.start
  rw [← ht, List.head?_append, hhead] at hstart
  exact hstart rfl

theorem finish_eq {out : List Str} (h : Spaced out) :
    finish out = joinLines (trimmed out) ++ ['\n'] := by
  rw [finish, dedupeBlank_eq h.follows (fun hf => by cases hf), trimmed]

theorem solid_append (bs bs' : List Block) : solid (bs ++ bs') = solid bs ++ solid bs' :=
  List.filter_append _ _

theorem solid_trimmed (out : List Str) :
    solid ((trimmed out).map blockOf) = solid (out.map blockOf) := by
  induction out using List.reverseRecOn with
  | nil => rfl
  | append_singleton out l ih =>
      rw [trimmed] at ih ⊢
      by_cases hl : l = []
      · rw [List.rdropWhile_concat_pos _ _ _ (by simpa using hl), ih, hl, List.map_append,
          solid_append]
        simp [solid, blockOf_nil]
      · rw [List.rdropWhile_concat_neg _ _ _ (by simpa using hl)]

/-! ## The blocks of the result -/

theorem solid_blankBefore (out : List Str) :
    solid ((blankBefore out).map blockOf) = solid (out.map blockOf) := by
  rw [blankBefore]
  split
  · rw [List.map_append, solid_append]
    simp [solid, blockOf_nil]
  · rfl

/-- A block is there, as it was read. -/
theorem solid_emit (out : List Str) (raw : Str) :
    solid ((emit out (blockOf raw)).map blockOf) =
      solid (out.map blockOf) ++ solid [blockOf raw] := by
  cases hk : (blockOf raw).kind with
  | blank =>
      have hnone : solid [blockOf raw] = [] := by simp [solid, hk]
      rw [emit, hk, hnone, List.append_nil]
      exact solid_blankBefore out
  | heading | speaker =>
      have hself := blockOf_mdLine (show (blockOf raw).kind ≠ .blank by simp [hk])
      rw [emit, hk]
      simp [solid_append, solid_blankBefore, hself]
  | bullet | blockquote | para =>
      have hself := blockOf_mdLine (show (blockOf raw).kind ≠ .blank by simp [hk])
      rw [emit, hk]
      simp [solid_append, hself]

theorem solid_foldl (raws : List Str) (out : List Str) :
    solid (((raws.map blockOf).foldl emit out).map blockOf) =
      solid (out.map blockOf) ++ solid (raws.map blockOf) := by
  induction raws generalizing out with
  | nil => simp [solid]
  | cons raw raws ih =>
      rw [List.map_cons, List.foldl_cons, ih, solid_emit, List.append_assoc, ← solid_append]
      rfl

/-- A line that may stand there is written as it stands. -/
theorem emit_line {ls : List Str} {l : Str} (hl : Written l) (hstart : ls = [] → l ≠ [])
    (hfollows : ∀ a ∈ ls.getLast?, Follows a l) : emit ls (blockOf l) = ls ++ [l] := by
  by_cases hnil : l = []
  · subst hnil
    obtain ⟨a, ha⟩ := Option.ne_none_iff_exists'.mp fun hnone =>
      hstart (List.getLast?_eq_none_iff.mp hnone) rfl
    have hne : a ≠ [] := fun h => (hfollows a ha).1 h rfl
    rw [blockOf_nil, emit, blankBefore, if_pos (by simp [ha, hne])]
  · obtain ⟨hkind, hself⟩ := hl.read hnil
    by_cases hsec : (blockOf l).IsSection
    · have hkept : blankBefore ls = ls := by
        rw [blankBefore, if_neg]
        intro hlast
        cases hls : ls.getLast? with
        | none => simp [hls] at hlast
        | some a =>
            have hnil := (hfollows a hls).2 hsec
            simp [hls, hnil] at hlast
      rcases hsec with hk | hk <;> rw [emit, hk] <;> simp only [hkept, hself]
    · rw [emit, hself]
      cases hk : (blockOf l).kind with
      | heading => exact absurd (Or.inl hk) hsec
      | speaker => exact absurd (Or.inr hk) hsec
      | blank => exact absurd hk hkind
      | bullet | blockquote | para => rfl

/-- **Spaced lines are written again as they stand.** -/
theorem emit_lines {ls : List Str} (h : Spaced ls) : (ls.map blockOf).foldl emit [] = ls := by
  induction ls using List.reverseRecOn with
  | nil => rfl
  | append_singleton ls l ih =>
      obtain ⟨hchain, -, hlast⟩ := List.isChain_append.mp h.follows
      have hspaced : Spaced ls := by
        refine ⟨fun hhead => h.start ?_, hchain, fun x hx => h.written x (by simp [hx])⟩
        rw [List.head?_append, hhead, Option.some_or]
      have hstart : ls = [] → l ≠ [] := by
        rintro rfl rfl
        exact h.start rfl
      rw [List.map_append, List.foldl_append, ih hspaced]
      exact emit_line (h.written l (by simp)) hstart fun a ha => hlast a ha l rfl

/-! ## The result -/

theorem trimmed_trimmed (out : List Str) : trimmed (trimmed out) = trimmed out :=
  List.rdropWhile_idempotent _ _

/-- The lines of the result, before they are joined. -/
def resultLines (text : Str) : List Str := trimmed ((iterBlocks text).foldl emit [])

theorem spaced_resultLines (text : Str) : Spaced (resultLines text) :=
  spaced_trimmed (spaced_foldl (unbroken_of_mem_splitlines text) spaced_nil)

theorem textToMdString_eq (text : Str) :
    textToMdString text = joinLines (resultLines text) ++ ['\n'] :=
  finish_eq (spaced_foldl (unbroken_of_mem_splitlines text) spaced_nil)

theorem solid_resultLines (text : Str) :
    solid ((resultLines text).map blockOf) = solid (iterBlocks text) := by
  rw [resultLines, solid_trimmed, iterBlocks, solid_foldl]
  rfl

/-- The blocks of the result are those of its lines; a result without lines is one empty line. -/
theorem iterBlocks_md (text : Str) :
    iterBlocks (textToMdString text) = (resultLines text).map blockOf ∨
      resultLines text = [] ∧ iterBlocks (textToMdString text) = [⟨.blank, 0, []⟩] := by
  rw [textToMdString_eq]
  by_cases hne : resultLines text = []
  · exact Or.inr ⟨hne, by rw [hne]; decide⟩
  · have hlines : ∀ l ∈ resultLines text, Unbroken l :=
      fun l hl => ((spaced_resultLines text).written l hl).unbroken
    rw [iterBlocks, splitlines_joinLines hne hlines]
    exact Or.inl rfl

theorem isChain_blocks {R : Block → Block → Prop} {out : List Str} (h : Spaced out)
    (hR : ∀ a b, Written a → Written b → Follows a b → R (blockOf a) (blockOf b)) :
    (out.map blockOf).IsChain R := by
  rw [List.isChain_map]
  exact h.follows.imp_of_mem_imp fun a b ha hb hab =>
    hR a b (h.written a ha) (h.written b hb) hab

theorem Written.eq_nil {l : Str} (h : Written l) (hblank : (blockOf l).kind = .blank) : l = [] :=
  by_contra fun hne => (h.read hne).1 hblank

/-- Two empty lines in a row. -/
def BothBlank (a b : Block) : Prop := a.kind = .blank ∧ b.kind = .blank

/-- **The Markdown export is idempotent and keeps the blocks**, with no two empty lines in a row
and an empty line before each section that is not first. -/
theorem md_normal (text : Str) :
    textToMdString (textToMdString text) = textToMdString text ∧
      solid (iterBlocks (textToMdString text)) = solid (iterBlocks text) ∧
      (iterBlocks (textToMdString text)).IsChain (fun a b => ¬ BothBlank a b) ∧
      (iterBlocks (textToMdString text)).IsChain (fun a b => b.IsSection → a.kind = .blank) := by
  have hspaced := spaced_resultLines text
  have hsolid := solid_resultLines text
  have hblank : ∀ a : Str, a = [] → (blockOf a).kind = .blank := by
    rintro a rfl
    rfl
  rcases iterBlocks_md text with hblocks | ⟨hnil, hblocks⟩
  · refine ⟨?_, by rw [hblocks, hsolid], ?_, ?_⟩
    · rw [textToMdString, hblocks, emit_lines hspaced, finish_eq hspaced, textToMdString_eq,
        resultLines, trimmed_trimmed]
    · rw [hblocks]
      refine isChain_blocks hspaced fun a b ha hb hab hboth => ?_
      exact hab.1 (ha.eq_nil hboth.1) (hb.eq_nil hboth.2)
    · rw [hblocks]
      exact isChain_blocks hspaced fun a b _ _ hab hsec => hblank a (hab.2 hsec)
  · refine ⟨?_, ?_, ?_, ?_⟩
    · rw [textToMdString, hblocks, textToMdString_eq, hnil]
      decide
    · rw [hblocks, ← hsolid, hnil]
      decide
    · rw [hblocks]
      exact List.isChain_singleton _
    · rw [hblocks]
      exact List.isChain_singleton _

end MesReunions.Formats
