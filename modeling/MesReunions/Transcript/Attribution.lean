import MesReunions.Base.FirstMax
import MesReunions.Transcript.Filter

/-!
# Who says what in a merge

The segments that have a text are cut into turns, one speaker at a time; nothing else is
printed, and the names of the speakers only change the labels.

* `BestSpeaker` — the speaker of the first interval that overlaps the segment most.
* `Turn` — consecutive segments of one speaker.
* **`merge_turns`** — the text is the turns of the segments.
-/

namespace MesReunions.Transcript

open Str Scan

/-! ## Numeric times -/

/-- `float` accepts the field. -/
def Field.Numeric : Field → Prop
  | .absent | .val _ => True
  | .null | .other => False

instance : DecidablePred Field.Numeric := fun x => by
  cases x <;> unfold Field.Numeric <;> infer_instance

theorem Field.Numeric.float? {x : Field} (h : x.Numeric) (q : ℚ) :
    x.float? q = some ((x.float? q).getD 0) := by
  cases x with
  | absent => rfl
  | val _ => rfl
  | null => exact h.elim
  | other => exact h.elim

/-- Both times of a segment are numbers. -/
def Segment.Numeric (seg : Segment) : Prop := seg.start.Numeric ∧ seg.stop.Numeric

/-- Both bounds of an interval are numbers. -/
def DiarSegment.Numeric (d : DiarSegment) : Prop := d.start.Numeric ∧ d.stop.Numeric

def Segment.startTime (seg : Segment) : ℚ := (seg.start.float? 0).getD 0

def Segment.stopTime (seg : Segment) : ℚ := (seg.stop.float? seg.startTime).getD 0

def DiarSegment.startTime (d : DiarSegment) : ℚ := (d.start.float? 0).getD 0

def DiarSegment.stopTime (d : DiarSegment) : ℚ := (d.stop.float? 0).getD 0

/-! ## The speaker of a segment -/

/-- The overlap of the interval with the segment, as `_overlap` computes it. -/
def overlapWith (start stop : ℚ) (d : DiarSegment) : ℚ :=
  overlap start stop d.startTime d.stopTime

/-- The speaker of the first interval whose overlap is the largest, or `SPEAKER_00` when no
interval overlaps. -/
def BestSpeaker (diar : List DiarSegment) (start stop : ℚ) (raw : Str) : Prop :=
  (raw = speaker00 ∧ ∀ d ∈ diar, overlapWith start stop d = 0) ∨
    ∃ d, FirstMax (overlapWith start stop) diar d ∧ 0 < overlapWith start stop d ∧ raw = d.label

theorem overlap_nonneg (a b c d : ℚ) : 0 ≤ overlap a b c d := le_max_left _ _

/-- A fold that keeps the best segment under its label. -/
theorem foldl_labelled {score : DiarSegment → ℚ} {step : Str × ℚ → DiarSegment → Str × ℚ}
    {diar : List DiarSegment}
    (h : ∀ d ∈ diar, ∀ best : Option DiarSegment × ℚ,
      step (best.1.elim speaker00 DiarSegment.label, best.2) d =
        ((keepBest score best d).1.elim speaker00 DiarSegment.label, (keepBest score best d).2))
    (best : Option DiarSegment × ℚ) :
    diar.foldl step (best.1.elim speaker00 DiarSegment.label, best.2) =
      ((diar.foldl (keepBest score) best).1.elim speaker00 DiarSegment.label,
        (diar.foldl (keepBest score) best).2) := by
  induction diar generalizing best with
  | nil => rfl
  | cons d diar ih =>
      rw [List.foldl_cons, List.foldl_cons, h d List.mem_cons_self best]
      exact ih (fun x hx => h x (List.mem_cons_of_mem _ hx)) (keepBest score best d)

/-- The loop of `_assign_speaker` keeps the best interval. -/
theorem assignSpeaker_eq {diar : List DiarSegment} (h : ∀ d ∈ diar, d.Numeric)
    (start stop : ℚ) :
    assignSpeaker start stop diar =
      ((diar.foldl (keepBest (overlapWith start stop)) (none, 0)).1.elim speaker00
        DiarSegment.label) := by
  rw [assignSpeaker]
  refine congrArg Prod.fst (foldl_labelled (fun d hd best => ?_) (none, 0))
  obtain ⟨hstart, hstop⟩ := h d hd
  dsimp only
  rw [hstart.float? 0, hstop.float? 0]
  by_cases hbest : best.2 < overlapWith start stop d
  · rw [keepBest, if_pos hbest]
    exact if_pos hbest
  · rw [keepBest, if_neg hbest]
    exact if_neg hbest

/-- **The speaker a segment is given.** -/
theorem bestSpeaker_assignSpeaker {diar : List DiarSegment} (h : ∀ d ∈ diar, d.Numeric)
    (start stop : ℚ) : BestSpeaker diar start stop (assignSpeaker start stop diar) := by
  have hbest := foldl_keepBest (overlapWith start stop) 0 diar
  rw [assignSpeaker_eq h]
  generalize diar.foldl (keepBest (overlapWith start stop)) (none, 0) = best at hbest ⊢
  obtain ⟨o, v⟩ := best
  cases o with
  | none =>
      obtain ⟨-, hle⟩ := hbest
      exact Or.inl ⟨rfl, fun d hd => le_antisymm (hle d hd) (overlap_nonneg _ _ _ _)⟩
  | some d =>
      obtain ⟨-, hpos, hfirst⟩ := hbest
      exact Or.inr ⟨d, hfirst, hpos, rfl⟩

/-! ## The turns -/

/-- What the merge keeps of a segment. -/
def Segment.piece (diar : List DiarSegment) (seg : Segment) : Piece :=
  ⟨assignSpeaker seg.startTime seg.stopTime diar, seg.startTime, seg.stopTime, seg.said⟩

theorem Segment.Numeric.piece? {seg : Segment} (h : seg.Numeric) (diar : List DiarSegment) :
    piece? diar seg = if seg.said = [] then none else some (seg.piece diar) := by
  obtain ⟨hstart, hstop⟩ := h
  rw [Transcript.piece?, hstart.float? 0]
  simp only [Option.bind_eq_bind, Option.bind_some]
  rw [hstop.float? _]
  rfl

/-- The segments kept are those that have a text. -/
theorem filterMap_piece? {segments : List Segment} (h : ∀ seg ∈ segments, seg.Numeric)
    (diar : List DiarSegment) :
    segments.filterMap (piece? diar) =
      (segments.filter fun seg => seg.said ≠ []).map (Segment.piece diar) := by
  induction segments with
  | nil => rfl
  | cons seg segments ih =>
      have hrest := ih fun x hx => h x (List.mem_cons_of_mem _ hx)
      have hseg := (h seg List.mem_cons_self).piece? diar
      by_cases hsaid : seg.said = []
      · rw [if_pos hsaid] at hseg
        rw [List.filterMap_cons_none hseg, hrest, List.filter_cons_of_neg (by simpa using hsaid)]
      · rw [if_neg hsaid] at hseg
        rw [List.filterMap_cons_some hseg, hrest, List.filter_cons_of_pos (by simpa using hsaid),
          List.map_cons]

/-- Consecutive segments of one speaker. -/
structure Turn where
  first : Piece
  rest : List Piece
  sameRaw : ∀ p ∈ rest, p.raw = first.raw

def Turn.pieces (u : Turn) : List Piece := u.first :: u.rest

def Turn.raw (u : Turn) : Str := u.first.raw

def Turn.last (u : Turn) : Piece := u.pieces.getLast (List.cons_ne_nil _ _)

theorem Turn.raw_of_mem {u : Turn} {p : Piece} (h : p ∈ u.pieces) : p.raw = u.raw := by
  rcases List.mem_cons.mp h with rfl | h
  · rfl
  · exact u.sameRaw p h

/-- The block of a turn: the label, from the start of the first segment to the end of the
last, and their texts one space apart. -/
def Turn.block (names : Names) (u : Turn) : Written :=
  ⟨labelOf names u.raw, formatTime u.first.start, formatTime u.last.stop,
    joinSpaces (u.pieces.map Piece.text)⟩

/-- The blocks, an empty line between two of them. -/
def document (names : Names) (turns : List Turn) : Str :=
  if turns = [] then []
  else ['\n', '\n'].intercalate (turns.map fun u => (u.block names).print) ++ ['\n']

theorem utteranceOf_turn (names : Names) (u : Turn) :
    (utteranceOf names u.pieces).written = u.block names := rfl

theorem raw_of_isChain {p : Piece} {ps : List Piece}
    (h : (p :: ps).IsChain fun x y => sameSpeaker x y = true) : ∀ q ∈ ps, q.raw = p.raw := by
  induction ps generalizing p with
  | nil => simp
  | cons q ps ih =>
      obtain ⟨hpq, hrest⟩ := List.isChain_cons_cons.mp h
      have hraw : p.raw = q.raw := by simpa [sameSpeaker] using hpq
      intro x hx
      rcases List.mem_cons.mp hx with rfl | hx
      · exact hraw.symm
      · exact (ih hrest x hx).trans hraw.symm

/-- Runs that are not empty and have one speaker are turns. -/
theorem exists_turns {gs : List (List Piece)} (hne : ∀ g ∈ gs, g ≠ [])
    (hsame : ∀ g ∈ gs, g.IsChain fun x y => sameSpeaker x y = true) :
    ∃ turns : List Turn, turns.map Turn.pieces = gs := by
  induction gs with
  | nil => exact ⟨[], rfl⟩
  | cons g gs ih =>
      obtain ⟨turns, hturns⟩ := ih (fun x hx => hne x (List.mem_cons_of_mem _ hx))
        (fun x hx => hsame x (List.mem_cons_of_mem _ hx))
      cases g with
      | nil => exact absurd rfl (hne [] List.mem_cons_self)
      | cons p ps =>
          refine ⟨⟨p, ps, raw_of_isChain (hsame _ List.mem_cons_self)⟩ :: turns, ?_⟩
          rw [List.map_cons, hturns]
          rfl

/-- **The turns of a list of segments.** -/
theorem splitBy_turns (ps : List Piece) :
    ∃ turns : List Turn, turns.map Turn.pieces = ps.splitBy sameSpeaker ∧
      turns.flatMap Turn.pieces = ps ∧ turns.IsChain fun u v => u.raw ≠ v.raw := by
  have hruns : ∃ turns : List Turn, turns.map Turn.pieces = ps.splitBy sameSpeaker :=
    exists_turns (fun g hg => List.ne_nil_of_mem_splitBy hg)
      (fun g hg => List.isChain_of_mem_splitBy hg)
  obtain ⟨turns, hturns⟩ := hruns
  refine ⟨turns, hturns, ?_, ?_⟩
  · rw [List.flatMap_def, hturns, List.flatten_splitBy]
  · have hchain := List.isChain_getLast_head_splitBy sameSpeaker ps
    rw [← hturns, List.isChain_map] at hchain
    refine hchain.imp fun u v huv hraw => ?_
    obtain ⟨hu, hv, hdiffer⟩ := huv
    have hlast : (u.pieces.getLast hu).raw = u.raw := Turn.raw_of_mem (List.getLast_mem hu)
    have hhead : (v.pieces.head hv).raw = v.raw := rfl
    rw [sameSpeaker, hlast, hhead, hraw] at hdiffer
    simp at hdiffer

/-! ## The merge -/

/-- The turns hold every segment that has a text, once and in order; a turn and the next
have different speakers; and every segment is in a turn of its best speaker. -/
structure Turns (t : Transcription) (diar : List DiarSegment) (turns : List Turn) : Prop where
  pieces : turns.flatMap Turn.pieces =
    (t.segments.filter fun seg => seg.said ≠ []).map (Segment.piece diar)
  differ : turns.IsChain fun u v => u.raw ≠ v.raw
  best : ∀ u ∈ turns, ∀ p ∈ u.pieces, BestSpeaker diar p.start p.stop u.raw

/-- A text without segments is one block, or none; the names only change its label. -/
theorem merge_of_no_segments {t : Transcription} (h : t.segments = [])
    (diar : List DiarSegment) :
    ∃ block : Option (Option Str), ∀ names, mergeToMarkdown t diar names = block.map fun
      | none => []
      | some after => ['*', '*'] ++ (fallbackLabel diar names ++ after) := by
  by_cases htext : strip (t.text.getD []) = []
  · refine ⟨some none, fun names => ?_⟩
    rw [mergeToMarkdown, if_pos h]
    exact if_pos htext
  · cases hduration : t.duration.float? 0 with
    | none =>
        refine ⟨none, fun names => ?_⟩
        rw [mergeToMarkdown, if_pos h]
        simp [htext, hduration]
    | some duration =>
        refine ⟨some (some (['*', '*', ' ', '_', '('] ++ (['0', ':', '0', '0'] ++
          ([' ', '→', ' '] ++ (formatTime duration ++ [')', '_']))) ++
            '\n' :: '>' :: ' ' :: strip (t.text.getD []) ++ ['\n'])), fun names => ?_⟩
        rw [mergeToMarkdown, if_pos h]
        simp [htext, hduration, Written.print, Written.header, Written.body]

/-- **The merge loses nothing, and names its best speakers.** The same turns are printed
for all names. -/
theorem merge_turns (t : Transcription) (diar : List DiarSegment)
    (hseg : ∀ seg ∈ t.segments, seg.Numeric) (hdiar : ∀ d ∈ diar, d.Numeric) :
    ∃ turns, Turns t diar turns ∧
      (t.segments ≠ [] → ∀ names, mergeToMarkdown t diar names = some (document names turns)) ∧
      (t.segments = [] → ∃ block : Option (Option Str), ∀ names,
        mergeToMarkdown t diar names = block.map fun
          | none => []
          | some after => ['*', '*'] ++ (fallbackLabel diar names ++ after)) := by
  have hkept := filterMap_piece? hseg diar
  obtain ⟨turns, hgroups, hpieces, hdiffer⟩ :=
    splitBy_turns (t.segments.filterMap (piece? diar))
  refine ⟨turns, ⟨hpieces.trans hkept, hdiffer, ?_⟩, ?_, fun h => merge_of_no_segments h diar⟩
  · intro u hu p hp
    have hmem : p ∈ turns.flatMap Turn.pieces := List.mem_flatMap.mpr ⟨u, hu, hp⟩
    rw [hpieces, hkept] at hmem
    obtain ⟨seg, -, rfl⟩ := List.mem_map.mp hmem
    rw [← Turn.raw_of_mem hp]
    exact bestSpeaker_assignSpeaker hdiar _ _
  · intro hne names
    have hall : ∀ q ∈ t.segments.filterMap (piece? diar), q.Kept := by
      intro q hq
      obtain ⟨seg, -, hpiece⟩ := List.mem_filterMap.mp hq
      exact kept_of_piece? hpiece
    have hblocks : mergeLoop names none (t.segments.filterMap (piece? diar)) =
        turns.map (Turn.block names) := by
      rw [mergeLoop_eq names hall, ← hgroups, List.map_map]
      rfl
    rw [mergeToMarkdown, if_neg hne, hblocks, document]
    dsimp only
    rw [List.map_map]
    simp only [List.map_eq_nil_iff]
    rfl

/-- Two speakers, and a segment of each. -/
theorem merge_turns_two :
    let t : Transcription :=
      ⟨[⟨.val 0, .val 10, some ['A', '.']⟩, ⟨.val 10, .val 20, some ['B', '.']⟩], none, .val 20⟩
    let diar : List DiarSegment :=
      [⟨.val 0, .val 10, some (some speaker00)⟩,
        ⟨.val 10, .val 20, some (some ['S', 'P', 'E', 'A', 'K', 'E', 'R', '_', '0', '1'])⟩]
    ∃ turns, Turns t diar turns ∧
      ∀ names, mergeToMarkdown t diar names = some (document names turns) := by
  intro t diar
  obtain ⟨turns, hturns, hmerge, -⟩ := merge_turns t diar
    (by simp [t, Segment.Numeric, Field.Numeric])
    (by simp [diar, DiarSegment.Numeric, Field.Numeric])
  exact ⟨turns, hturns, hmerge (by simp [t])⟩

end MesReunions.Transcript
