import MesReunions.Base.Scan
import MesReunions.Base.SplitLines

/-!
# The blocks of a document

`_iter_blocks` of `mesreunions-web/app/transcript_formats.py`: each line is a heading, a bullet, a
quote, a speaker line, a paragraph or blank. `mdLine` writes a block as `text_to_md_string` does.

* `blockOf` — the block of a line; it does not look beyond the line.
* **`blockOf_mdLine`** — a block that was read and is written again is read as the same block.
-/

namespace MesReunions.Formats

open Str Scan

/-! ## The expressions -/

/-- `_HEADING_RE`: the level, and the rest without the blanks in front. -/
def headingRe (line : Str) : Option (Nat × Str) :=
  let level := (line.takeWhile (· == '#')).length
  let rest := line.dropWhile (· == '#')
  if 1 ≤ level ∧ level ≤ 6 ∧ rest.head?.any isSpace then some (level, lstrip rest) else none

/-- `_BULLET_RE` -/
def bulletRe : Str → Option Str
  | c :: rest =>
      if (c == '-' || c == '*') && rest.head?.any isSpace then some (lstrip rest) else none
  | [] => none

/-- `_BLOCKQUOTE_RE` -/
def blockquoteRe : Str → Option Str
  | '>' :: c :: rest => some (if isSpace c then rest else c :: rest)
  | '>' :: [] => some []
  | _ => none

/-- `_\([^)]+\)_` -/
def scanTimes (s : Str) : Option Str := do
  let s ← lit ['_', '('] s
  let (_, s) ← run1 (· != ')') s
  lit [')', '_'] s

/-- `_SPEAKER_RE` -/
def speakerRe (line : Str) : Bool :=
  ((do
    let s ← lit ['*', '*'] line
    let (_, s) ← run1 (· != '*') s
    lit ['*', '*'] s).map lstrip).any fun s => (((scanTimes s).getD s).all isSpace)

/-! ## Blocks -/

inductive Kind where
  | heading
  | bullet
  | blockquote
  | speaker
  | para
  | blank
  deriving DecidableEq

structure Block where
  kind : Kind
  level : Nat
  content : Str
  deriving DecidableEq

/-- One turn of `_iter_blocks`. -/
def blockOf (raw : Str) : Block :=
  let line := rstrip raw
  if strip line = [] then ⟨.blank, 0, []⟩
  else match headingRe line with
  | some (level, rest) => ⟨.heading, level, strip rest⟩
  | none => match bulletRe line with
    | some rest => ⟨.bullet, 0, strip rest⟩
    | none => match blockquoteRe line with
      | some rest => ⟨.blockquote, 0, strip rest⟩
      | none => if speakerRe line then ⟨.speaker, 0, line⟩ else ⟨.para, 0, line⟩

/-- `_iter_blocks(text)` -/
def iterBlocks (text : Str) : List Block := (splitlines text).map blockOf

/-- A heading or a speaker line, which an empty line goes before. -/
def Block.IsSection (b : Block) : Prop := b.kind = .heading ∨ b.kind = .speaker

instance (b : Block) : Decidable b.IsSection := inferInstanceAs (Decidable (_ ∨ _))

/-- The line `text_to_md_string` writes for a block that is not blank. -/
def mdLine (b : Block) : Str :=
  match b.kind with
  | .heading => List.replicate b.level '#' ++ ' ' :: b.content
  | .bullet => '-' :: ' ' :: b.content
  | .blockquote => '>' :: ' ' :: b.content
  | _ => b.content

/-! ## What a line holds -/

/-- A line without blanks at its end, from some character on. -/
theorem rstrip_of_append {a x : Str} (h : rstrip (a ++ x) = a ++ x) (hx : x ≠ []) :
    rstrip x = x := by
  by_cases hb : rstrip x = []
  · rw [rstrip_append_blank hb] at h
    have hlen := (prefix_of_rstrip a).length_le
    rw [h, List.length_append] at hlen
    have := List.length_pos_of_ne_nil hx
    omega
  · rw [rstrip_append hb] at h
    exact List.append_cancel_left h

/-- What follows a mark and blanks is not blank, where the line does not end with blanks. -/
theorem lstrip_ne_nil {a x : Str} (h : rstrip (a ++ x) = a ++ x) (hx : x ≠ []) :
    lstrip x ≠ [] := by
  intro hnil
  have hblank : rstrip x = [] :=
    List.rdropWhile_eq_nil_iff.mpr (List.dropWhile_eq_nil_iff.mp hnil)
  exact hx ((rstrip_of_append h hx).symm.trans hblank)

theorem rstrip_lstrip {x : Str} (h : rstrip x = x) : rstrip (lstrip x) = lstrip x := by
  obtain ⟨a, ha⟩ := List.dropWhile_suffix (p := isSpace) (l := x)
  by_cases hnil : lstrip x = []
  · rw [hnil, rstrip_nil]
  · rw [← ha] at h
    exact rstrip_of_append h hnil

/-- What follows a mark and blanks, which `strip` leaves as it is. -/
theorem strip_lstrip {a x : Str} (h : rstrip (a ++ x) = a ++ x) (hx : x ≠ []) :
    strip (lstrip x) = lstrip x := by
  refine strip_eq_self_of_ends ?_ (rstrip_lstrip (rstrip_of_append h hx))
  exact List.dropWhile_idempotent _ _

theorem headingRe_eq_some {line rest : Str} {n : Nat} (h : headingRe line = some (n, rest)) :
    1 ≤ n ∧ n ≤ 6 ∧ ∃ a x, line = a ++ x ∧ (∀ c ∈ a, c = '#') ∧ x ≠ [] ∧ rest = lstrip x := by
  rw [headingRe] at h
  split at h
  · rename_i hcond
    obtain ⟨h1, h6, hspace⟩ := hcond
    injection h with h
    injection h with hn hrest
    subst hn
    refine ⟨h1, h6, _, _, (List.takeWhile_append_dropWhile).symm, ?_, ?_, hrest.symm⟩
    · exact fun c hc => by simpa using List.mem_takeWhile_imp hc
    intro hnil
    rw [hnil] at hspace
    cases hspace
  · cases h

theorem bulletRe_eq_some {line rest : Str} (h : bulletRe line = some rest) :
    ∃ c x, line = [c] ++ x ∧ (c = '-' ∨ c = '*') ∧ x ≠ [] ∧ rest = lstrip x := by
  cases line with
  | nil => cases h
  | cons c x =>
      rw [bulletRe] at h
      split at h
      · rename_i hcond
        simp only [Bool.and_eq_true, Bool.or_eq_true, beq_iff_eq] at hcond
        refine ⟨c, x, rfl, hcond.1, ?_, (Option.some.inj h).symm⟩
        rintro rfl
        cases hcond.2
      · cases h

/-! ## The lines that are written -/

theorem rstrip_append_self {a x : Str} (hx : rstrip x = x) (hne : x ≠ []) :
    rstrip (a ++ x) = a ++ x := by
  have h : rstrip x ≠ [] := by rwa [hx]
  rw [rstrip_append h, hx]

theorem strip_ne_nil_of_rstrip {x : Str} (hx : rstrip x = x) (hne : x ≠ []) : strip x ≠ [] := by
  have h := lstrip_ne_nil (a := []) hx hne
  rwa [strip, rstrip_lstrip hx]

theorem blockOf_heading {n : Nat} (hn : 1 ≤ n) (hn6 : n ≤ 6) {x : Str} (hx : strip x = x)
    (hne : x ≠ []) : blockOf (List.replicate n '#' ++ ' ' :: x) = ⟨.heading, n, x⟩ := by
  have hr : rstrip x = x := by rw [← hx, rstrip_strip]
  have hl : lstrip (' ' :: x) = x := by
    rw [lstrip, List.dropWhile_cons_of_pos (by decide), ← lstrip, ← hx, lstrip_strip]
  have hline : rstrip (List.replicate n '#' ++ ' ' :: x) = List.replicate n '#' ++ ' ' :: x := by
    have := rstrip_append_self (a := List.replicate n '#' ++ [' ']) hr hne
    simpa using this
  have htake : (List.replicate n '#' ++ ' ' :: x).takeWhile (· == '#') = List.replicate n '#' :=
    takeWhile_append_stop (by simp) (by simp)
  have hdrop : (List.replicate n '#' ++ ' ' :: x).dropWhile (· == '#') = ' ' :: x :=
    dropWhile_append_stop (by simp) (by simp)
  have hmatch : headingRe (List.replicate n '#' ++ ' ' :: x) = some (n, x) := by
    rw [headingRe]
    simp only [htake, hdrop, List.length_replicate, hl]
    exact if_pos ⟨hn, hn6, rfl⟩
  rw [blockOf, hline, if_neg (strip_ne_nil_of_rstrip hline (by simp)), hmatch]
  simp only [hx]

theorem blockOf_bullet {x : Str} (hx : strip x = x) (hne : x ≠ []) :
    blockOf ('-' :: ' ' :: x) = ⟨.bullet, 0, x⟩ := by
  have hr : rstrip x = x := by rw [← hx, rstrip_strip]
  have hl : lstrip (' ' :: x) = x := by
    rw [lstrip, List.dropWhile_cons_of_pos (by decide), ← lstrip, ← hx, lstrip_strip]
  have hline : rstrip ('-' :: ' ' :: x) = '-' :: ' ' :: x :=
    rstrip_append_self (a := ['-', ' ']) hr hne
  have hmatch : bulletRe ('-' :: ' ' :: x) = some x := by
    rw [bulletRe, if_pos (by simp [isSpace]), hl]
  rw [blockOf, hline, if_neg (strip_ne_nil_of_rstrip hline (by simp)), hmatch]
  simp [headingRe, hx]

theorem blockOf_blockquote {x : Str} (hx : strip x = x) :
    blockOf ('>' :: ' ' :: x) = ⟨.blockquote, 0, x⟩ := by
  by_cases hne : x = []
  · subst hne
    decide
  · have hr : rstrip x = x := by rw [← hx, rstrip_strip]
    have hline : rstrip ('>' :: ' ' :: x) = '>' :: ' ' :: x :=
      rstrip_append_self (a := ['>', ' ']) hr hne
    rw [blockOf, hline, if_neg (strip_ne_nil_of_rstrip hline (by simp))]
    simp [headingRe, bulletRe, blockquoteRe, isSpace, hx]

/-- **A block that is written is read again.** -/
theorem blockOf_mdLine {raw : Str} (h : (blockOf raw).kind ≠ .blank) :
    blockOf (mdLine (blockOf raw)) = blockOf raw := by
  have hline : rstrip (rstrip raw) = rstrip raw := rstrip_rstrip raw
  have hself : blockOf (rstrip raw) = blockOf raw := by rw [blockOf, blockOf, hline]
  cases hb : blockOf raw with
  | mk kind level content =>
  rw [hb] at h hself
  rw [blockOf] at hb
  split at hb
  · obtain ⟨rfl, rfl, rfl⟩ := Block.mk.inj hb
    exact absurd rfl h
  split at hb
  · rename_i n rest hmatch
    obtain ⟨rfl, rfl, rfl⟩ := Block.mk.inj hb
    obtain ⟨h1, h6, a, x, hax, -, hx, rfl⟩ := headingRe_eq_some hmatch
    rw [hax] at hline
    rw [strip_lstrip hline hx]
    exact blockOf_heading h1 h6 (strip_lstrip hline hx) (lstrip_ne_nil hline hx)
  split at hb
  · rename_i rest hmatch
    obtain ⟨rfl, rfl, rfl⟩ := Block.mk.inj hb
    obtain ⟨a, x, hax, -, hx, rfl⟩ := bulletRe_eq_some hmatch
    rw [hax] at hline
    rw [strip_lstrip hline hx]
    exact blockOf_bullet (strip_lstrip hline hx) (lstrip_ne_nil hline hx)
  split at hb
  · obtain ⟨rfl, rfl, rfl⟩ := Block.mk.inj hb
    exact blockOf_blockquote (strip_strip _)
  split at hb
  all_goals
    obtain ⟨rfl, rfl, rfl⟩ := Block.mk.inj hb
    exact hself

theorem mem_of_mem_lstrip {c : Char} {s : Str} (h : c ∈ lstrip s) : c ∈ s :=
  (List.dropWhile_suffix _).subset h

theorem mem_of_blockquoteRe {line rest : Str} (h : blockquoteRe line = some rest) {c : Char}
    (hc : c ∈ rest) : c ∈ line := by
  rw [blockquoteRe.eq_def] at h
  split at h
  · rename_i d x
    injection h with h
    subst h
    split at hc
    · exact List.mem_cons_of_mem _ (List.mem_cons_of_mem _ hc)
    · exact List.mem_cons_of_mem _ hc
  · injection h with h
    subst h
    exact absurd hc List.not_mem_nil
  · cases h

/-- The text of a block comes from its line. -/
theorem mem_of_mem_content {raw : Str} {c : Char} (h : c ∈ (blockOf raw).content) : c ∈ raw := by
  refine mem_of_mem_rstrip ?_
  rw [blockOf] at h
  split at h
  · exact absurd h List.not_mem_nil
  split at h
  · rename_i hmatch
    obtain ⟨-, -, a, x, hax, -, -, rfl⟩ := headingRe_eq_some hmatch
    rw [hax]
    exact List.mem_append_right _ (mem_of_mem_lstrip (mem_of_mem_strip h))
  split at h
  · rename_i hmatch
    obtain ⟨a, x, hax, -, -, rfl⟩ := bulletRe_eq_some hmatch
    rw [hax]
    exact List.mem_append_right _ (mem_of_mem_lstrip (mem_of_mem_strip h))
  split at h
  · rename_i hmatch
    exact mem_of_blockquoteRe hmatch (mem_of_mem_strip h)
  split at h
  · exact h
  · exact h

/-- A block is written on one line. -/
theorem unbroken_mdLine {raw : Str} (h : Unbroken raw) : Unbroken (mdLine (blockOf raw)) := by
  have hcontent : Unbroken (blockOf raw).content := fun c hc => h c (mem_of_mem_content hc)
  have hmark : ∀ {d : Char} {x : Str}, isBreak d = false → Unbroken x → Unbroken (d :: x) := by
    intro d x hd hx c hc
    rcases List.mem_cons.mp hc with rfl | hc
    · exact hd
    · exact hx c hc
  rw [mdLine]
  split
  · intro c hc
    rcases List.mem_append.mp hc with hc | hc
    · obtain ⟨-, rfl⟩ := List.mem_replicate.mp hc
      decide
    · exact hmark (by decide) hcontent c hc
  · exact hmark (by decide) (hmark (by decide) hcontent)
  · exact hmark (by decide) (hmark (by decide) hcontent)
  · exact hcontent

end MesReunions.Formats
