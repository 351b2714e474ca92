import MesReunions.Base.Runs
import MesReunions.Transcript.Kept

/-!
# Filtering afterwards

`api_re_filter_forbidden` on a transcript that was stored without the phrases, against a
transcription with them. Ingestion drops segments; re-filter drops lines, and a line of the
speaker-tagged text is a whole turn.

* **`Agrees`** — both leave the same texts, up to blank lines.
* `TurnsWhole` — the turns that are kept or dropped as wholes.
* **`reFilter_agrees_iff`** — for texts and labels of one line they agree in no other case.
* **`mixed_turn`** — a turn of which ingestion drops one segment is dropped altogether.
-/

namespace MesReunions.Transcript

open Str Sections Runs

/-! ## The two ways -/

section Statement

variable (lower : Str → Str) (phrases : List (Str × Str))

/-- The row after re-filter. Where the request fails, nothing is committed. -/
def reFiltered (row : Audio) : Audio :=
  match reFilterForbidden lower phrases row with
  | .ok (_, row') => row'
  | .error _ => row

/-- Transcribing without phrases and filtering afterwards stores what transcribing with them
stores: the same text, and the same lines of the speaker-tagged text. -/
def Agrees (t : Transcription) (diar : List DiarSegment) (names : Names) : Prop :=
  let afterwards := reFiltered lower phrases (ingested lower [] t diar names)
  let atOnce := ingested lower phrases t diar names
  afterwards.transcriptionText = atOnce.transcriptionText ∧
    contentLines (afterwards.speakerTaggedText.getD []) =
      contentLines (atOnce.speakerTaggedText.getD [])

/-! ## When they agree -/

/-- Neither way finds anything: no segment matches, and no line that re-filter reads. -/
def NothingFound (t : Transcription) (diar : List DiarSegment) (names : Names) : Prop :=
  (∀ seg ∈ t.segments, matchesAny lower phrases seg.said = false) ∧
    ∀ blocks, reparse ((ingested lower [] t diar names).speakerTaggedText.getD []) = .ok blocks →
      NothingMatches lower phrases (ingested lower [] t diar names) blocks

/-- Every text and every label is one line, and no label has a star. -/
structure OneLined (t : Transcription) (diar : List DiarSegment) (names : Names) : Prop where
  said : ∀ seg ∈ t.segments, '\n' ∉ seg.said
  raw : '\n' ∉ strip (t.text.getD [])
  label : ∀ u ∈ utterances t diar names, '\n' ∉ u.label ∧ '*' ∉ u.label

/-- The segments that the merger looks at. -/
def pieces (t : Transcription) (diar : List DiarSegment) : List Piece :=
  t.segments.filterMap (piece? diar)

/-- The turns of the speakers. -/
def turns (t : Transcription) (diar : List DiarSegment) : List (List Piece) :=
  runs Piece.raw (pieces t diar)

/-- The piece does not match. -/
def Piece.clear (p : Piece) : Bool := !matchesAny lower phrases p.text

/-- Turns are kept or dropped as wholes. Of a turn either every segment matches, or none does,
nor the line they make, and its header is one the parser reads; and no two turns of one speaker
come together when those between them are dropped. -/
structure TurnsWhole (t : Transcription) (diar : List DiarSegment) (names : Names) : Prop where
  whole : ∀ g ∈ turns t diar, (∀ p ∈ g, p.clear lower phrases = false) ∨
    (∀ p ∈ g, p.clear lower phrases = true) ∧
      matchesAny lower phrases (utteranceOf names g).text = false ∧
        isHead (utteranceOf names g).written.header = true
  apart : ((turns t diar).filter fun g => g.all (Piece.clear lower phrases)).IsChain
    (Apart Piece.raw)

/-- Where filtering afterwards is as good. -/
def FiltersAlike (t : Transcription) (diar : List DiarSegment) (names : Names) : Prop :=
  NothingFound lower phrases t diar names ∨
    OneLined t diar names ∧ t.segments ≠ [] ∧
      ((∃ seg ∈ t.segments, matchesAny lower phrases seg.said = false) ∨
        strip (t.text.getD []) = []) ∧
      TurnsWhole lower phrases t diar names

end Statement

variable {lower : Str → Str} {phrases : List (Str × Str)}

/-! ## Turns -/

theorem splitBy_sameSpeaker (ps : List Piece) : ps.splitBy sameSpeaker = runs Piece.raw ps := by
  have hsame : sameSpeaker = fun p q : Piece => p.raw == q.raw := rfl
  have heq : (fun p q : Piece => p.raw == q.raw) = fun p q => decide (p.raw = q.raw) := by
    funext p q
    exact beq_eq_decide p.raw q.raw
  rw [hsame, heq]
  rfl

theorem utterances_eq {t : Transcription} (h : t.segments ≠ []) (diar : List DiarSegment)
    (names : Names) : utterances t diar names = (turns t diar).map (utteranceOf names) := by
  rw [utterances, if_neg h, splitBy_sameSpeaker]
  rfl

theorem text_of_piece? {diar : List DiarSegment} {seg : Segment} {p : Piece}
    (h : piece? diar seg = some p) : p.text = seg.said := by
  simp only [piece?, Option.bind_eq_bind, Option.bind_eq_some_iff] at h
  obtain ⟨start, -, stop, -, h⟩ := h
  split at h
  · cases h
  · injection h with h
    rw [← h]
    rfl

theorem piece_of_mem {t : Transcription} {diar : List DiarSegment} {p : Piece}
    (h : p ∈ pieces t diar) : p.Kept ∧ ∃ seg ∈ t.segments, p.text = seg.said := by
  obtain ⟨seg, hseg, hp⟩ := List.mem_filterMap.mp h
  exact ⟨kept_of_piece? hp, seg, hseg, text_of_piece? hp⟩

theorem mem_pieces_of_turn {t : Transcription} {diar : List DiarSegment} {g : List Piece}
    (hg : g ∈ turns t diar) {p : Piece} (hp : p ∈ g) : p ∈ pieces t diar := by
  rw [← @flatten_runs _ _ _ Piece.raw (pieces t diar)]
  exact List.mem_flatten_of_mem hg hp

/-- The pieces of the segments that are kept are the pieces that do not match. -/
theorem pieces_of_kept {t t' : Transcription} (diar : List DiarSegment)
    (h : t'.segments = keptSegments lower phrases t.segments) :
    pieces t' diar = (pieces t diar).filter (Piece.clear lower phrases) := by
  rw [pieces, pieces, h, keptSegments]
  induction t.segments with
  | nil => rfl
  | cons seg segs ih =>
      rw [List.filter_cons]
      cases hp : piece? diar seg with
      | none =>
          rw [List.filterMap_cons_none hp, ← ih]
          split
          · rw [List.filterMap_cons_none hp]
          · rfl
      | some p =>
          rw [List.filterMap_cons_some hp, List.filter_cons, ← ih, Piece.clear, text_of_piece? hp]
          split
          · rw [List.filterMap_cons_some hp]
          · rfl

/-- The line of a turn matches as soon as a segment of it does. -/
theorem matches_turn (hlower : Lowers isWordEnd lower) {names : Names} {g : List Piece} {p : Piece}
    (hp : p ∈ g) (h : matchesAny lower phrases p.text = true) :
    matchesAny lower phrases (utteranceOf names g).text = true := by
  obtain ⟨q, qs, rfl⟩ := List.exists_cons_of_ne_nil (List.ne_nil_of_mem hp)
  refine matchesAny_of_within hlower ?_ h
  exact within_intercalate (by decide) (List.mem_map_of_mem hp)

theorem isRun_of_turn {t : Transcription} {diar : List DiarSegment} {g : List Piece}
    (hg : g ∈ turns t diar) : IsRun Piece.raw g := isRun_of_mem hg

/-- Every label is the label of a turn. -/
theorem OneLined.labelOf {t : Transcription} {diar : List DiarSegment} {names : Names}
    (h : OneLined t diar names) (hne : t.segments ≠ []) {p : Piece} (hp : p ∈ pieces t diar) :
    '\n' ∉ labelOf names p.raw ∧ '*' ∉ labelOf names p.raw := by
  rw [← @flatten_runs _ _ _ Piece.raw (pieces t diar)] at hp
  obtain ⟨g, hg, hpg⟩ := List.mem_flatten.mp hp
  obtain ⟨q, qs, rfl⟩ := List.exists_cons_of_ne_nil (isRun_of_turn hg).1
  rw [(isRun_of_turn hg).2 p hpg q List.mem_cons_self]
  refine h.label (utteranceOf names (q :: qs)) ?_
  rw [utterances_eq hne]
  exact List.mem_map_of_mem hg

/-- What one speaker says in one-line segments makes a block of one line. -/
theorem oneLine_of_pieces {t : Transcription} {diar : List DiarSegment} {names : Names}
    (h : OneLined t diar names) (hne : t.segments ≠ []) {g : List Piece} (hg : g ≠ [])
    (hmem : ∀ p ∈ g, p ∈ pieces t diar) : (utteranceOf names g).written.OneLine := by
  obtain ⟨p, ps, rfl⟩ := List.exists_cons_of_ne_nil hg
  have htexts : ∀ x ∈ (p :: ps).map Piece.text, strip x = x ∧ x ≠ [] := by
    intro x hx
    obtain ⟨q, hq, rfl⟩ := List.mem_map.mp hx
    exact (piece_of_mem (hmem q hq)).1
  obtain ⟨hnewline, hstar⟩ := h.labelOf hne (hmem p List.mem_cons_self)
  refine ⟨stamped_written _, hnewline, hstar, fun hn => ?_, strip_joinSpaces htexts, fun hnil => ?_⟩
  · obtain ⟨x, hx, hn⟩ := (mem_joinSpaces (by decide)).mp hn
    obtain ⟨q, hq, rfl⟩ := List.mem_map.mp hx
    obtain ⟨-, seg, hseg, htext⟩ := piece_of_mem (hmem q hq)
    exact h.said seg hseg (htext ▸ hn)
  · -- The first text stands in the line.
    have hwithin : Within isSpace p.text (joinSpaces ((p :: ps).map Piece.text)) :=
      within_intercalate (by decide) (List.mem_map_of_mem List.mem_cons_self)
    rw [show joinSpaces ((p :: ps).map Piece.text) = [] from hnil] at hwithin
    obtain ⟨a, b, heq, -, -⟩ := hwithin
    simp [(htexts p.text (by simp)).2] at heq

theorem oneLine_of_turn {t : Transcription} {diar : List DiarSegment} {names : Names}
    (h : OneLined t diar names) (hne : t.segments ≠ []) {g : List Piece} (hg : g ∈ turns t diar) :
    (utteranceOf names g).written.OneLine :=
  oneLine_of_pieces h hne (isRun_of_turn hg).1 fun _ => mem_pieces_of_turn hg

/-! ## The row -/

theorem reFiltered_of_nothing {row : Audio}
    (h : ∀ blocks, reparse (row.speakerTaggedText.getD []) = .ok blocks →
      NothingMatches lower phrases row blocks) : reFiltered lower phrases row = row := by
  rw [reFiltered]
  cases hread : reparse (row.speakerTaggedText.getD []) with
  | ok blocks =>
      obtain ⟨dropped, row', hfilter, -, ⟨rfl, -⟩ | ⟨hsome, -⟩⟩ :=
        reFilterForbidden_eq lower phrases hread
      · rw [hfilter]
      · exact absurd (h blocks hread) hsome
  | error e =>
      rw [reFilterForbidden]
      by_cases hphrases : phrases = []
      · rw [if_pos hphrases]
      · have hne : row.speakerTaggedText.getD [] ≠ [] := by
          intro hnil
          rw [hnil] at hread
          cases hread
        simp only [if_neg hphrases, taggedBlocks, if_neg hne, hread, bind, Except.bind]

theorem reFiltered_of_some {row : Audio} {blocks : List Block}
    (hread : reparse (row.speakerTaggedText.getD []) = .ok blocks)
    (h : ¬ NothingMatches lower phrases row blocks) :
    (reFiltered lower phrases row).transcriptionText =
        textKept lower phrases row.transcriptionText ∧
      contentLines ((reFiltered lower phrases row).speakerTaggedText.getD []) =
        flat (sectionsKept lower phrases
          (cut isHead (marked (row.speakerTaggedText.getD []))).2) := by
  obtain ⟨dropped, row', hfilter, -, ⟨-, hnone⟩ | ⟨-, htext, htagged⟩⟩ :=
    reFilterForbidden_eq lower phrases hread
  · exact absurd hnone h
  · have hrow : reFiltered lower phrases row = row' := by rw [reFiltered, hfilter]
    rw [hrow]
    refine ⟨htext, ?_⟩
    rw [htagged]
    split
    · rename_i hnil
      rw [hnil, contentLines_nil, marked_nil]
      rfl
    · exact contentLines_reFilter hread

/-! ## The text -/

/-- Lines, stripped and not empty. -/
def Liners (xs : List Str) : Prop := ∀ x ∈ xs, '\n' ∉ x ∧ strip x = x ∧ x ≠ []

section Text

variable {xs : List Str}

theorem Liners.filter (h : Liners xs) (p : Str → Bool) : Liners (xs.filter p) :=
  fun x hx => h x (List.mem_filter.mp hx).1

theorem Liners.lines_eq (h : Liners xs) (hne : xs ≠ []) : lines (joinLines xs) = xs := by
  rw [lines_joinLines hne, List.flatMap_congr fun x hx => lines_of_not_mem (h x hx).1,
    List.flatMap_singleton']

theorem Liners.joinLines_ne (h : Liners xs) (hne : xs ≠ []) : joinLines xs ≠ [] := by
  intro hnil
  have hlines := h.lines_eq hne
  rw [hnil, lines_nil] at hlines
  exact (h [] (by rw [← hlines]; exact List.mem_cons_self)).2.2 rfl

/-- What re-filter drops of them. -/
theorem Liners.textDropped (h : Liners xs) : textDropped lower phrases (joinLines xs) = [] ↔
    ∀ x ∈ xs, isForbidden lower phrases x = false := by
  by_cases hnil : xs = []
  · subst hnil
    simp [Transcript.textDropped]
  · rw [Transcript.textDropped, if_neg (h.joinLines_ne hnil), h.lines_eq hnil,
      List.map_eq_nil_iff, List.filter_eq_nil_iff]
    simp

/-- What re-filter keeps of them. -/
theorem Liners.textKept (h : Liners xs) : textKept lower phrases (some (joinLines xs)) =
    some (joinLines (xs.filter fun x => !isForbidden lower phrases x)) := by
  by_cases hnil : xs = []
  · subst hnil
    rfl
  · rw [Transcript.textKept, Option.getD_some, if_neg (h.joinLines_ne hnil), h.lines_eq hnil]
    exact congrArg some (strip_joinLines fun x hx => (h.filter _ x hx).2)

end Text

theorem liners_saidTexts {segments : List Segment} (h : ∀ seg ∈ segments, '\n' ∉ seg.said) :
    Liners (saidTexts segments) := by
  intro x hx
  obtain ⟨hne, seg, hseg, rfl⟩ := mem_saidTexts.mp hx
  exact ⟨h seg hseg, strip_said seg, hne⟩

theorem saidTexts_kept (segments : List Segment) :
    saidTexts (keptSegments lower phrases segments) =
      (saidTexts segments).filter fun x => !matchesAny lower phrases x := by
  rw [saidTexts, saidTexts, keptSegments, List.filter_filter]
  rw [show (fun seg : Segment => !matchesAny lower phrases seg.said) =
    (fun x => !matchesAny lower phrases x) ∘ Segment.said from rfl, ← List.filter_map,
    List.filter_filter]
  exact List.filter_congr fun x _ => Bool.and_comm ..

/-! ## At ingestion -/

theorem filterWhisperSegments_noop {t : Transcription}
    (h : ∀ seg ∈ t.segments, matchesAny lower phrases seg.said = false) :
    filterWhisperSegments lower phrases t = t := by
  have hall : t.segments.all (fun seg => !matchesAny lower phrases seg.said) = true :=
    List.all_eq_true.mpr fun seg hseg => by rw [h seg hseg]; rfl
  simp only [filterWhisperSegments, hall, if_true, ite_self]

theorem segments_filter (t : Transcription) : (filterWhisperSegments lower phrases t).segments =
    keptSegments lower phrases t.segments := by
  rcases @filterWhisperSegments_cases lower phrases t with ⟨hsame, hnone⟩ | ⟨hkept, -⟩ |
    ⟨hall, hnil, -⟩
  · rw [hsame, keptSegments, List.filter_eq_self.mpr]
    exact fun seg hseg => by rw [hnone seg hseg]; rfl
  · exact hkept
  · rw [hnil, keptSegments, List.filter_eq_nil_iff.mpr]
    exact fun seg hseg => by rw [hall seg hseg]; exact Bool.false_ne_true

/-- Where no segment is left, the text that is stored is the raw one. -/
theorem text_filter {t : Transcription} (h : keptSegments lower phrases t.segments = []) :
    (filterWhisperSegments lower phrases t).text = t.text := by
  rcases @filterWhisperSegments_cases lower phrases t with ⟨hsame, -⟩ | ⟨-, hne⟩ | ⟨-, -, htext, -⟩
  · rw [hsame]
  · exact absurd h hne
  · exact htext

/-- A segment is left, or nothing is stored in its place. -/
def Covered (lower : Str → Str) (phrases : List (Str × Str)) (t : Transcription) : Prop :=
  (∃ seg ∈ t.segments, matchesAny lower phrases seg.said = false) ∨ strip (t.text.getD []) = []

theorem Covered.raw {t : Transcription} (h : Covered lower phrases t)
    (hnil : keptSegments lower phrases t.segments = []) :
    strip ((filterWhisperSegments lower phrases t).text.getD []) = [] := by
  rw [text_filter hnil]
  refine h.resolve_left ?_
  rintro ⟨seg, hseg, hclear⟩
  have hmem : seg ∈ keptSegments lower phrases t.segments :=
    List.mem_filter.mpr ⟨hseg, by rw [hclear]; rfl⟩
  rw [hnil] at hmem
  cases hmem

theorem transcriptionText_filter {t : Transcription} (h : Covered lower phrases t) :
    transcriptionText (filterWhisperSegments lower phrases t) =
      joinLines ((saidTexts t.segments).filter fun x => !matchesAny lower phrases x) := by
  rw [← saidTexts_kept, ← segments_filter]
  by_cases hnil : (filterWhisperSegments lower phrases t).segments = []
  · rw [transcriptionText, if_neg (by simp [hnil]), h.raw (segments_filter t ▸ hnil), hnil]
    rfl
  · exact transcriptionText_eq hnil

theorem utterances_filter {t : Transcription} (h : Covered lower phrases t)
    (diar : List DiarSegment) (names : Names) :
    utterances (filterWhisperSegments lower phrases t) diar names =
      (turns (filterWhisperSegments lower phrases t) diar).map (utteranceOf names) := by
  by_cases hnil : (filterWhisperSegments lower phrases t).segments = []
  · have hturns : turns (filterWhisperSegments lower phrases t) diar = [] := by
      rw [turns, pieces, hnil]
      rfl
    rw [utterances, if_pos hnil, hturns, h.raw (segments_filter t ▸ hnil)]
    dsimp only
    split <;> simp
  · exact utterances_eq hnil diar names

/-! ## The speaker-tagged text -/

/-- The blocks of the turns. -/
def turnBlocks (t : Transcription) (diar : List DiarSegment) (names : Names) : List Written :=
  (turns t diar).map fun g => (utteranceOf names g).written

theorem written_utterances {t : Transcription} {diar : List DiarSegment} {names : Names}
    (h : utterances t diar names = (turns t diar).map (utteranceOf names)) :
    (utterances t diar names).map Utterance.written = turnBlocks t diar names := by
  rw [h, List.map_map]
  rfl

theorem contentLines_tagged (t : Transcription) (diar : List DiarSegment) (names : Names) :
    contentLines ((mergeToMarkdown t diar names).getD []) =
      ((utterances t diar names).map Utterance.written).flatMap fun w => contentLines w.print := by
  cases h : mergeToMarkdown t diar names with
  | none => rw [utterances_eq_nil h, Option.getD_none, contentLines_nil]; rfl
  | some text => exact contentLines_merge h

theorem marked_tagged (t : Transcription) (diar : List DiarSegment) (names : Names) :
    marked ((mergeToMarkdown t diar names).getD []) =
      ((utterances t diar names).map Utterance.written).flatMap Written.marks := by
  cases h : mergeToMarkdown t diar names with
  | none => rw [utterances_eq_nil h, Option.getD_none, marked_nil]; rfl
  | some text => exact laysOut_merge h

theorem contentLines_print_oneLine {w : Written} (h : w.OneLine) :
    contentLines w.print = [w.header, w.line] := by
  rw [contentLines_print, contentLines_header h, contentLines_body h]
  rfl

/-- The header of an utterance is read, if it has the shape of one. -/
theorem reads_header {u : Utterance} (h : u.written.OneLine) (hhead : isHead u.written.header = true)
    (ls : List Str) : ∃ b, Reads (u.written.header, ls) b := by
  obtain ⟨hlabel, hstart, hstop⟩ := (isHead_header h.stamped h.star).mp hhead
  have hstart := clockReads_of_bounds (isClock_formatTime.mp hstart)
  have hstop := clockReads_of_bounds (isClock_formatTime.mp hstop)
  refine ⟨⟨strip u.label, .fin (roundHalfEven u.start), .fin (roundHalfEven u.stop),
    u.written.header, ls⟩, ?_, rfl⟩
  exact (headBlock_header h.stamped h.star).mpr ⟨hlabel, rfl, hstart, hstop, rfl, rfl⟩

/-- **Blocks of one line are always read.** -/
theorem reparse_of_oneLine {text : Str} {us : List Utterance}
    (hlay : LaysOut text (us.map Utterance.written)) (h : ∀ u ∈ us, u.written.OneLine) :
    ∃ blocks, reparse text = .ok blocks := by
  have hread : ∀ s ∈ (cut isHead (marked text)).2, ∃ b, Reads s b := by
    intro s hs
    have hhead := (isCut_cut isHead (marked text)).1.head s hs
    have hmem := mem_of_mem_cut hs s.1 List.mem_cons_self
    rw [hlay] at hmem
    obtain ⟨w, hw, hmem⟩ := List.mem_flatMap.mp hmem
    obtain ⟨u, hu, rfl⟩ := List.mem_map.mp hw
    rw [marks_of_oneLine (h u hu)] at hmem
    rcases List.mem_append.mp hmem with hmem | hmem
    · have hheader : s.1 = u.written.header := by
        split at hmem
        · exact List.mem_singleton.mp hmem
        · cases hmem
      rw [hheader] at hhead
      obtain ⟨b, hb⟩ := reads_header (h u hu) hhead s.2
      exact ⟨b, by rw [← hheader] at hb; exact hb⟩
    · rw [List.mem_singleton.mp hmem, isHead_line] at hhead
      cases hhead
  have hall : ∀ {secs : List (Str × List Str)}, (∀ s ∈ secs, ∃ b, Reads s b) →
      ∃ bs, List.Forall₂ Reads secs bs := by
    intro secs
    induction secs with
    | nil => exact fun _ => ⟨[], .nil⟩
    | cons s secs ih =>
        intro hsecs
        obtain ⟨b, hb⟩ := hsecs s List.mem_cons_self
        obtain ⟨bs, hbs⟩ := ih fun s' hs' => hsecs s' (List.mem_cons_of_mem _ hs')
        exact ⟨b :: bs, .cons hb hbs⟩
  obtain ⟨bs, hbs⟩ := hall hread
  obtain ⟨blocks, hblocks, -⟩ := reparses_iff.mpr hbs
  exact ⟨blocks, hblocks⟩

/-- What re-filter reads of blocks of one line are their texts. -/
theorem droppedLines_of_oneLine {text : Str} {ws : List Written} {blocks : List Block}
    (hlay : LaysOut text ws) (h : ∀ w ∈ ws, w.OneLine) (hread : reparse text = .ok blocks)
    (hclear : ∀ w ∈ ws, isForbidden lower phrases w.text = false) :
    ∀ b ∈ blocks, b.droppedLines lower phrases = [] := by
  intro b hb
  refine List.filter_eq_nil_iff.mpr fun x hx => ?_
  obtain ⟨l, hl, rfl⟩ := List.mem_map.mp hx
  have hbody := ((reparse_wellFormed hread b hb).body l hl).1
  have hsection : b.trim.section ∈ (cut isHead (marked text)).2 := by
    rw [← sections_of_reads (reparses_iff.mp ⟨blocks, hread, rfl⟩), List.map_map]
    exact List.mem_map_of_mem hb
  have hmem := mem_of_mem_cut hsection (rstrip l) (List.mem_cons_of_mem _ (List.mem_map_of_mem hl))
  rw [hlay] at hmem
  obtain ⟨w, hw, hmem⟩ := List.mem_flatMap.mp hmem
  rw [marks_of_oneLine (h w hw)] at hmem
  have hline : rstrip l = w.line := by
    rcases List.mem_append.mp hmem with hmem | hmem
    · split at hmem
      · rw [← isBody_rstrip, List.mem_singleton.mp hmem, isBody_header] at hbody
        cases hbody
      · cases hmem
    · exact List.mem_singleton.mp hmem
  rw [← spokenText_rstrip, hline, spokenText_line (h w hw), hclear w hw]
  exact Bool.false_ne_true

/-! ## Both ways -/

theorem ingested_nil (t : Transcription) (diar : List DiarSegment) (names : Names) :
    ingested lower [] t diar names = ⟨some (transcriptionText t), mergeToMarkdown t diar names, []⟩ := by
  have hsame : filterWhisperSegments lower [] t = t := by
    rw [filterWhisperSegments, if_pos (.inr rfl)]
  rw [ingested, hsame]

section Ways

variable {rows : List Str} {t : Transcription} {diar : List DiarSegment} {names : Names}

/-- A transcript of one-line blocks can be filtered. -/
theorem reparse_ingested (h : OneLined t diar names) (hne : t.segments ≠ []) :
    ∃ blocks, reparse ((mergeToMarkdown t diar names).getD []) = .ok blocks := by
  refine reparse_of_oneLine (marked_tagged t diar names) fun u hu => ?_
  rw [utterances_eq hne] at hu
  obtain ⟨g, hg, rfl⟩ := List.mem_map.mp hu
  exact oneLine_of_turn h hne hg

theorem forbidden_eq (hlower : Lowers isWordEnd lower) :
    (fun x => !isForbidden lower (activePhrases lower rows) x) =
      fun x => !matchesAny lower (activePhrases lower rows) x :=
  funext fun x => by rw [isForbidden_eq hlower]

/-- Where re-filter drops nothing, there was nothing to find. -/
theorem nothingFound_of_nothing (hlower : Lowers isWordEnd lower) (h : OneLined t diar names)
    (hne : t.segments ≠ []) {blocks : List Block}
    (hread : reparse ((mergeToMarkdown t diar names).getD []) = .ok blocks)
    (hnothing : NothingMatches lower (activePhrases lower rows)
      ⟨some (transcriptionText t), mergeToMarkdown t diar names, []⟩ blocks) :
    NothingFound lower (activePhrases lower rows) t diar names := by
  refine ⟨fun seg hseg => ?_, fun blocks' hread' => ?_⟩
  · -- A segment that matches is a line of the text.
    rw [← Bool.not_eq_true]
    intro hmatch
    have hsaid : seg.said ≠ [] := by
      intro hnil
      rw [hnil, not_matchesAny_nil hlower] at hmatch
      cases hmatch
    have htext := hnothing.1
    rw [Option.getD_some, transcriptionText_eq hne, (liners_saidTexts h.said).textDropped] at htext
    have hnot := htext seg.said (mem_saidTexts.mpr ⟨hsaid, seg, hseg, rfl⟩)
    rw [isForbidden_eq hlower, hmatch] at hnot
    cases hnot
  · rw [ingested_nil] at hread' ⊢
    have hsame : blocks = blocks' := Except.ok.inj (hread.symm.trans hread')
    exact hsame ▸ hnothing

/-- **Filtering afterwards**, where something is found. -/
theorem afterwards_eq (hlower : Lowers isWordEnd lower) (h : OneLined t diar names)
    (hne : t.segments ≠ [])
    (hfound : ¬ NothingFound lower (activePhrases lower rows) t diar names) :
    let row := reFiltered lower (activePhrases lower rows) (ingested lower [] t diar names)
    row.transcriptionText = some (joinLines ((saidTexts t.segments).filter
        fun x => !matchesAny lower (activePhrases lower rows) x)) ∧
      contentLines (row.speakerTaggedText.getD []) =
        flat (sectionsKept lower (activePhrases lower rows)
          (cut isHead ((turnBlocks t diar names).flatMap Written.marks)).2) := by
  obtain ⟨blocks, hread⟩ := reparse_ingested h hne
  rw [ingested_nil]
  obtain ⟨htext, htagged⟩ := @reFiltered_of_some lower (activePhrases lower rows)
    ⟨some (transcriptionText t), mergeToMarkdown t diar names, []⟩ blocks hread fun hnothing =>
      hfound (nothingFound_of_nothing hlower h hne hread hnothing)
  have hkept := @Liners.textKept lower (activePhrases lower rows) _ (liners_saidTexts h.said)
  rw [← transcriptionText_eq hne, forbidden_eq hlower] at hkept
  rw [marked_tagged, written_utterances (utterances_eq hne diar names)] at htagged
  exact ⟨htext.trans hkept, htagged⟩

theorem oneLine_turnBlocks (h : OneLined t diar names) (hne : t.segments ≠ []) :
    ∀ w ∈ turnBlocks t diar names, w.OneLine := by
  intro w hw
  obtain ⟨g, hg, rfl⟩ := List.mem_map.mp hw
  exact oneLine_of_turn h hne hg

theorem oneLine_turnBlocks_filter (h : OneLined t diar names) (hne : t.segments ≠ []) :
    ∀ w ∈ turnBlocks (filterWhisperSegments lower phrases t) diar names, w.OneLine := by
  intro w hw
  obtain ⟨g, hg, rfl⟩ := List.mem_map.mp hw
  refine oneLine_of_pieces h hne (isRun_of_turn hg).1 fun p hp => ?_
  have hmem := mem_pieces_of_turn hg hp
  rw [pieces_of_kept diar (segments_filter t)] at hmem
  exact (List.mem_filter.mp hmem).1

/-- **Filtering at ingestion.** -/
theorem atOnce_eq (h : OneLined t diar names)
    (hne : t.segments ≠ []) (hcovered : Covered lower (activePhrases lower rows) t) :
    let row := ingested lower (activePhrases lower rows) t diar names
    row.transcriptionText = some (joinLines ((saidTexts t.segments).filter
        fun x => !matchesAny lower (activePhrases lower rows) x)) ∧
      contentLines (row.speakerTaggedText.getD []) =
        (turnBlocks (filterWhisperSegments lower (activePhrases lower rows) t) diar names).flatMap
          fun w => [w.header, w.line] := by
  refine ⟨congrArg some (transcriptionText_filter hcovered), ?_⟩
  have htagged := contentLines_tagged (filterWhisperSegments lower (activePhrases lower rows) t)
    diar names
  rw [written_utterances (utterances_filter hcovered diar names)] at htagged
  exact htagged.trans (List.flatMap_congr fun w hw =>
    contentLines_print_oneLine (oneLine_turnBlocks_filter h hne w hw))

theorem kept_turn (hlower : Lowers isWordEnd lower) (g : List Piece) :
    (utteranceOf names g).written.kept lower (activePhrases lower rows) =
      !matchesAny lower (activePhrases lower rows) (utteranceOf names g).text := by
  rw [Written.kept, isForbidden_eq hlower]
  rfl

/-- A turn that re-filter keeps has no segment that matches. -/
theorem clear_of_kept (hlower : Lowers isWordEnd lower) {g : List Piece}
    (h : (utteranceOf names g).written.kept lower (activePhrases lower rows) = true) :
    ∀ p ∈ g, p.clear lower (activePhrases lower rows) = true := by
  intro p hp
  rw [kept_turn hlower, Bool.not_eq_true'] at h
  rw [Piece.clear, Bool.not_eq_true', ← Bool.not_eq_true]
  intro hmatch
  rw [matches_turn hlower hp hmatch] at h
  cases h

/-- The turns left by ingestion are those that re-filter keeps, where turns are kept or dropped
as wholes. -/
theorem turnBlocks_filter (hlower : Lowers isWordEnd lower)
    (hwhole : ∀ g ∈ turns t diar, (∀ p ∈ g, p.clear lower (activePhrases lower rows) = false) ∨
      (∀ p ∈ g, p.clear lower (activePhrases lower rows) = true) ∧
        matchesAny lower (activePhrases lower rows) (utteranceOf names g).text = false)
    (hapart : ((turns t diar).filter fun g => g.all (Piece.clear lower (activePhrases lower rows))).IsChain
      (Apart Piece.raw)) :
    turnBlocks (filterWhisperSegments lower (activePhrases lower rows) t) diar names =
      (turnBlocks t diar names).filter (Written.kept lower (activePhrases lower rows)) := by
  have hturns : turns (filterWhisperSegments lower (activePhrases lower rows) t) diar =
      (turns t diar).filter fun g => g.all (Piece.clear lower (activePhrases lower rows)) := by
    rw [turns, pieces_of_kept diar (segments_filter t)]
    exact runs_filter (fun g hg => (hwhole g hg).imp_right And.left) hapart
  rw [turnBlocks, turnBlocks, hturns, List.filter_map]
  congr 1
  refine List.filter_congr fun g hg => ?_
  rw [Function.comp_apply]
  rcases hwhole g hg with hnone | ⟨hall, hclear⟩
  · have hnot : (utteranceOf names g).written.kept lower (activePhrases lower rows) = false := by
      obtain ⟨p, hp⟩ := List.exists_mem_of_ne_nil g (isRun_of_turn hg).1
      rw [← Bool.not_eq_true]
      intro hkept
      have hboth := clear_of_kept hlower hkept p hp
      rw [hnone p hp] at hboth
      cases hboth
    obtain ⟨p, ps, rfl⟩ := List.exists_cons_of_ne_nil (isRun_of_turn hg).1
    rw [hnot, List.all_cons, hnone p List.mem_cons_self, Bool.false_and]
  · rw [kept_turn hlower, hclear, List.all_eq_true.mpr hall]
    rfl

/-- Filtering afterwards is as good, under the condition. -/
theorem agrees_of_alike (hlower : Lowers isWordEnd lower)
    (h : FiltersAlike lower (activePhrases lower rows) t diar names) :
    Agrees lower (activePhrases lower rows) t diar names := by
  by_cases hfound : NothingFound lower (activePhrases lower rows) t diar names
  · have hsame := filterWhisperSegments_noop hfound.1
    have hrow := reFiltered_of_nothing hfound.2
    have honce : ingested lower (activePhrases lower rows) t diar names =
        ingested lower [] t diar names := by
      rw [ingested_nil, ingested, hsame]
    rw [Agrees, hrow, honce]
    exact ⟨rfl, rfl⟩
  · obtain ⟨hone, hne, hcovered, hturns⟩ := h.resolve_left hfound
    obtain ⟨htext, htagged⟩ := afterwards_eq hlower hone hne hfound
    obtain ⟨htext', htagged'⟩ := atOnce_eq hone hne hcovered
    refine ⟨htext.trans htext'.symm, htagged.trans (Eq.trans ?_ htagged'.symm)⟩
    rw [turnBlocks_filter hlower
      (fun g hg => (hturns.whole g hg).imp_right fun hg => ⟨hg.1, hg.2.1⟩) hturns.apart]
    refine (kept_of_heads (oneLine_turnBlocks hone hne) fun w hw hkept => ?_).2
    obtain ⟨g, hg, rfl⟩ := List.mem_map.mp hw
    rcases hturns.whole g hg with hnone | ⟨-, -, hhead⟩
    · obtain ⟨p, hp⟩ := List.exists_mem_of_ne_nil g (isRun_of_turn hg).1
      have hboth := clear_of_kept hlower hkept p hp
      rw [hnone p hp] at hboth
      cases hboth
    · exact hhead

end Ways

/-! ## Where nothing is lost -/

/-- The characters of a text that are no blanks. -/
def ink (s : Str) : Nat := s.countP fun c => !isSpace c

/-- Those of what some pieces say. -/
def inkOf (g : List Piece) : Nat := (g.map fun p => ink p.text).sum

theorem ink_joinSpaces (xs : List Str) : ink (joinSpaces xs) = (xs.map ink).sum := by
  induction xs with
  | nil => rfl
  | cons x xs ih =>
      by_cases hxs : xs = []
      · subst hxs
        simp
      · have hblank : ink (' ' :: joinSpaces xs) = ink (joinSpaces xs) :=
          List.countP_cons_of_neg (by decide)
        rw [joinSpaces_cons hxs, ink, List.countP_append, List.map_cons, List.sum_cons, ← ih,
          ← hblank]
        rfl

theorem ink_turn (names : Names) (g : List Piece) : ink (utteranceOf names g).text = inkOf g := by
  cases g with
  | nil => rfl
  | cons p ps =>
      rw [Utterance.text, ink_joinSpaces, utteranceOf, List.map_map]
      rfl

theorem ink_pos {x : Str} (hstrip : strip x = x) (hne : x ≠ []) : 0 < ink x := by
  obtain ⟨c, cs, rfl⟩ := List.exists_cons_of_ne_nil hne
  have hc : isSpace c = false := by
    refine lstrip_head_not (s := c :: cs) ?_
    rw [← hstrip, lstrip_strip, hstrip]
    rfl
  exact List.countP_pos_iff.mpr ⟨c, List.mem_cons_self, by rw [hc]; rfl⟩

theorem inkOf_flatten (L : List (List Piece)) : inkOf L.flatten = (L.map inkOf).sum := by
  induction L with
  | nil => rfl
  | cons g L ih =>
      rw [List.flatten_cons, List.map_cons, List.sum_cons, ← ih]
      simp [inkOf]

/-- What is clear is in the turns that are kept, and in the others. -/
theorem inkOf_clear (clear : Piece → Bool) (keep : List Piece → Bool) {L : List (List Piece)}
    (h : ∀ g ∈ L, keep g = true → ∀ p ∈ g, clear p = true) :
    inkOf (L.flatten.filter clear) = ((L.filter keep).map inkOf).sum +
      ((L.filter fun g => !keep g).map fun g => inkOf (g.filter clear)).sum := by
  induction L with
  | nil => rfl
  | cons g L ih =>
      have ih := ih fun g' hg' => h g' (List.mem_cons_of_mem _ hg')
      have hsplit : inkOf ((g :: L).flatten.filter clear) =
          inkOf (g.filter clear) + inkOf (L.flatten.filter clear) := by
        simp [inkOf]
      rw [hsplit, ih, List.filter_cons, List.filter_cons]
      cases hk : keep g with
      | true =>
          rw [List.filter_eq_self.mpr (h g List.mem_cons_self hk)]
          simp only [Bool.not_true, if_true, List.map_cons, List.sum_cons]
          rw [if_neg Bool.false_ne_true, Nat.add_assoc]
      | false =>
          simp only [Bool.not_false, if_true, List.map_cons, List.sum_cons]
          rw [if_neg Bool.false_ne_true]
          omega

section Lost

variable {rows : List Str} {t : Transcription} {diar : List DiarSegment} {names : Names}

/-- The texts that both ways store are those that re-filter keeps, and the lines before the first
header that is read are not stored. -/
theorem texts_of_agreement (h : OneLined t diar names) (hne : t.segments ≠ [])
    (hagree : flat (sectionsKept lower (activePhrases lower rows)
        (cut isHead ((turnBlocks t diar names).flatMap Written.marks)).2) =
      (turnBlocks (filterWhisperSegments lower (activePhrases lower rows) t) diar names).flatMap
        fun w => [w.header, w.line]) :
    ∃ before : List Str, before ++
        (turnBlocks (filterWhisperSegments lower (activePhrases lower rows) t) diar names).map
          Written.text =
      ((turnBlocks t diar names).filter (Written.kept lower (activePhrases lower rows))).map
        Written.text := by
  obtain ⟨-, hkept⟩ := @bodies_kept lower (activePhrases lower rows) _ (oneLine_turnBlocks h hne)
  have hbodies : ∀ ws : List Written, (ws.flatMap fun w => [w.header, w.line]).filter isBody =
      ws.map Written.line := by
    intro ws
    rw [List.filter_flatMap, List.map_eq_flatMap]
    refine List.flatMap_congr fun w _ => ?_
    rw [List.filter_cons_of_neg (by rw [isBody_header]; exact Bool.false_ne_true),
      List.filter_cons_of_pos (isBody_line w)]
    rfl
  have hspoken : ∀ ws : List Written, (∀ w ∈ ws, w.OneLine) →
      (ws.map Written.line).map spokenText = ws.map Written.text := by
    intro ws hws
    rw [List.map_map]
    exact List.map_congr_left fun w hw => spokenText_line (hws w hw)
  rw [hagree, hbodies] at hkept
  have hkept := congrArg (List.map spokenText) hkept
  rw [List.map_append, hspoken _ (oneLine_turnBlocks_filter h hne),
    hspoken _ fun w hw => oneLine_turnBlocks h hne w (List.mem_filter.mp hw).1] at hkept
  exact ⟨_, hkept⟩

/-- Re-filter keeps the line of the turn. -/
def keptTurn (lower : Str → Str) (phrases : List (Str × Str)) (names : Names)
    (g : List Piece) : Bool :=
  (utteranceOf names g).written.kept lower phrases

theorem eq_zero_of_inkOf {g : List Piece} (h : inkOf g = 0) {p : Piece} (hp : p ∈ g) :
    ink p.text = 0 :=
  List.sum_eq_zero_iff_forall_eq_nat.mp h _ (List.mem_map_of_mem hp)

/-- **Counting what is said.** Where both ways store the same texts, a turn that re-filter drops
has no segment left, and re-filter keeps as many turns as there are. -/
theorem dropped_of_agreement (hlower : Lowers isWordEnd lower) (h : OneLined t diar names)
    (hne : t.segments ≠ []) {before : List Str}
    (htexts : before ++
        (turnBlocks (filterWhisperSegments lower (activePhrases lower rows) t) diar names).map
          Written.text =
      ((turnBlocks t diar names).filter (Written.kept lower (activePhrases lower rows))).map
        Written.text) :
    (∀ g ∈ turns t diar, keptTurn lower (activePhrases lower rows) names g = false →
      ∀ p ∈ g, p.clear lower (activePhrases lower rows) = false) ∧
    (turns (filterWhisperSegments lower (activePhrases lower rows) t) diar).length =
      ((turns t diar).filter (keptTurn lower (activePhrases lower rows) names)).length := by
  have hink : ∀ L : List (List Piece),
      ((L.map fun g => (utteranceOf names g).written).map Written.text).map ink = L.map inkOf := by
    intro L
    rw [List.map_map, List.map_map]
    exact List.map_congr_left fun g _ => ink_turn names g
  have hkept : (turnBlocks t diar names).filter (Written.kept lower (activePhrases lower rows)) =
      ((turns t diar).filter (keptTurn lower (activePhrases lower rows) names)).map
        fun g => (utteranceOf names g).written := List.filter_map
  -- Both sides, in characters.
  have hsum := congrArg (fun xs => (List.map ink xs).sum) htexts
  rw [hkept, turnBlocks, List.map_append, List.sum_append, hink, hink, ← inkOf_flatten, turns,
    flatten_runs, pieces_of_kept diar (segments_filter t)] at hsum
  have hclear := inkOf_clear (Piece.clear lower (activePhrases lower rows))
    (keptTurn lower (activePhrases lower rows) names)
    fun g (_ : g ∈ turns t diar) hk => clear_of_kept hlower hk
  have hflat : (turns t diar).flatten = pieces t diar := flatten_runs _
  rw [hflat] at hclear
  rw [hclear] at hsum
  have hnone : ∀ {a b c : Nat}, a + (b + c) = b → a = 0 ∧ c = 0 := by omega
  obtain ⟨hbefore, hdropped⟩ := hnone hsum
  refine ⟨fun g hg hnot p hp => ?_, ?_⟩
  · have hzero := List.sum_eq_zero_iff_forall_eq_nat.mp hdropped _
      (List.mem_map_of_mem (List.mem_filter.mpr ⟨hg, by rw [hnot]; rfl⟩))
    rw [← Bool.not_eq_true]
    intro hp'
    have hpos := ink_pos (piece_of_mem (mem_pieces_of_turn hg hp)).1.1
      (piece_of_mem (mem_pieces_of_turn hg hp)).1.2
    rw [eq_zero_of_inkOf hzero (List.mem_filter.mpr ⟨hp, hp'⟩)] at hpos
    cases hpos
  · have hnil : before = [] := by
      refine List.eq_nil_iff_forall_not_mem.mpr fun x hx => ?_
      have hmem := List.mem_append_left
        ((turnBlocks (filterWhisperSegments lower (activePhrases lower rows) t) diar names).map
          Written.text) hx
      rw [htexts] at hmem
      obtain ⟨w, hw, rfl⟩ := List.mem_map.mp hmem
      have hw := oneLine_turnBlocks h hne w (List.mem_filter.mp hw).1
      have hpos := ink_pos hw.strip hw.ne
      rw [List.sum_eq_zero_iff_forall_eq_nat.mp hbefore _ (List.mem_map_of_mem hx)] at hpos
      cases hpos
    have hlength := congrArg List.length htexts
    rw [hnil, hkept] at hlength
    simpa [turnBlocks] using hlength

/-- A text that is what the segments left say is not the raw one. -/
theorem covered_of_text
    (h : some (joinLines ((saidTexts t.segments).filter
        fun x => !matchesAny lower (activePhrases lower rows) x)) =
      (ingested lower (activePhrases lower rows) t diar names).transcriptionText) :
    Covered lower (activePhrases lower rows) t := by
  by_cases hnil : keptSegments lower (activePhrases lower rows) t.segments = []
  · right
    have hraw : transcriptionText (filterWhisperSegments lower (activePhrases lower rows) t) =
        strip (t.text.getD []) := by
      rw [transcriptionText, segments_filter, hnil, if_neg (fun hne => hne rfl), text_filter hnil]
    rw [← saidTexts_kept, hnil, ingested, hraw] at h
    exact (Option.some.inj h).symm
  · left
    obtain ⟨seg, hseg⟩ := List.exists_mem_of_ne_nil _ hnil
    exact ⟨seg, (List.mem_filter.mp hseg).1, not_matches_of_kept hseg⟩

/-- Without segments there is one block, of the raw text. -/
theorem oneLine_of_raw (h : OneLined t diar names) (hnil : t.segments = []) :
    ∀ u ∈ utterances t diar names, u.written.OneLine ∧ u.text = strip (t.text.getD []) := by
  intro u hu
  have hlabel := h.label u hu
  rw [utterances, if_pos hnil] at hu
  dsimp only at hu
  split at hu
  · split at hu
    · cases hu
    · rename_i hne
      have htext : u.text = strip (t.text.getD []) := by
        rw [List.mem_singleton.mp hu]
        exact joinSpaces_singleton _
      refine ⟨⟨stamped_written u, hlabel.1, hlabel.2, ?_, ?_, ?_⟩, htext⟩
      · exact fun hn => h.raw (htext ▸ hn)
      · show strip u.text = u.text
        rw [htext, strip_strip]
      · exact fun hblank => hne (htext.symm.trans hblank)
  · cases hu

/-- Without segments both ways store the raw text only where it does not match. -/
theorem nothingFound_of_raw (hlower : Lowers isWordEnd lower) (h : OneLined t diar names)
    (hnil : t.segments = []) (hagree : Agrees lower (activePhrases lower rows) t diar names) :
    NothingFound lower (activePhrases lower rows) t diar names := by
  have hsegments : ∀ seg ∈ t.segments,
      matchesAny lower (activePhrases lower rows) seg.said = false := by
    intro seg hseg
    rw [hnil] at hseg
    cases hseg
  have htext : transcriptionText t = strip (t.text.getD []) := by
    rw [transcriptionText, if_neg (by simp [hnil])]
  have hone := oneLine_of_raw h hnil
  have hwritten : ∀ w ∈ (utterances t diar names).map Utterance.written,
      w.OneLine ∧ w.text = strip (t.text.getD []) := by
    intro w hw
    obtain ⟨u, hu, rfl⟩ := List.mem_map.mp hw
    exact hone u hu
  have hliners : strip (t.text.getD []) ≠ [] → Liners [strip (t.text.getD [])] := by
    intro hne x hx
    rw [List.mem_singleton.mp hx]
    exact ⟨h.raw, strip_strip _, hne⟩
  cases hmatch : matchesAny lower (activePhrases lower rows) (strip (t.text.getD [])) with
  | false =>
      refine ⟨hsegments, fun blocks hread => ?_⟩
      rw [ingested_nil] at hread ⊢
      refine ⟨?_, ?_⟩
      · rw [Option.getD_some, htext]
        by_cases hne : strip (t.text.getD []) = []
        · rw [hne]
          rfl
        · have hdropped := @Liners.textDropped lower (activePhrases lower rows) _ (hliners hne)
          rw [joinLines_singleton] at hdropped
          refine hdropped.mpr fun x hx => ?_
          rw [List.mem_singleton.mp hx, isForbidden_eq hlower, hmatch]
      · refine droppedLines_of_oneLine (marked_tagged t diar names) (fun w hw => (hwritten w hw).1)
          hread fun w hw => ?_
        rw [(hwritten w hw).2, isForbidden_eq hlower, hmatch]
  | true =>
      -- It is dropped by re-filter, and stored at ingestion.
      exfalso
      have hne : strip (t.text.getD []) ≠ [] := by
        intro hblank
        rw [hblank, not_matchesAny_nil hlower] at hmatch
        cases hmatch
      have hdropped := @Liners.textDropped lower (activePhrases lower rows) _ (hliners hne)
      have hkept := @Liners.textKept lower (activePhrases lower rows) _ (hliners hne)
      rw [joinLines_singleton, ← htext] at hdropped hkept
      have hforbidden : isForbidden lower (activePhrases lower rows) (transcriptionText t) = true := by
        rw [isForbidden_eq hlower, htext, hmatch]
      obtain ⟨blocks, hread⟩ := reparse_of_oneLine (marked_tagged t diar names)
        fun u hu => (hone u hu).1
      rw [Agrees, ingested_nil, ingested, filterWhisperSegments_noop hsegments] at hagree
      have hrow := @reFiltered_of_some lower (activePhrases lower rows)
        ⟨some (transcriptionText t), mergeToMarkdown t diar names, []⟩ blocks hread
        fun hnothing => by
          rw [hdropped.mp hnothing.1 _ (by rw [htext]; exact List.mem_cons_self)] at hforbidden
          cases hforbidden
      have hstored := hrow.1.symm.trans hagree.1
      rw [hkept, List.filter_cons_of_neg (by simp [hforbidden])] at hstored
      injection hstored with hstored
      exact hne (htext ▸ hstored.symm)

/-- Where something is found, filtering afterwards is as good under the condition only. -/
theorem alike_of_agrees (hlower : Lowers isWordEnd lower) (hone : OneLined t diar names)
    (hagree : Agrees lower (activePhrases lower rows) t diar names) :
    FiltersAlike lower (activePhrases lower rows) t diar names := by
  by_cases hfound : NothingFound lower (activePhrases lower rows) t diar names
  · exact .inl hfound
  have hne : t.segments ≠ [] := fun hnil => hfound (nothingFound_of_raw hlower hone hnil hagree)
  obtain ⟨htext, htagged⟩ := afterwards_eq hlower hone hne hfound
  have hcovered := covered_of_text (htext.symm.trans hagree.1)
  obtain ⟨htext', htagged'⟩ := atOnce_eq hone hne hcovered
  have hagree := htagged.symm.trans (hagree.2.trans htagged')
  obtain ⟨before, htexts⟩ := texts_of_agreement hone hne hagree
  obtain ⟨hdropped, hlength⟩ := dropped_of_agreement hlower hone hne htexts
  -- Turns are kept or dropped as wholes.
  have hwhole : ∀ g ∈ turns t diar, (∀ p ∈ g, p.clear lower (activePhrases lower rows) = false) ∨
      (∀ p ∈ g, p.clear lower (activePhrases lower rows) = true) ∧
        matchesAny lower (activePhrases lower rows) (utteranceOf names g).text = false := by
    intro g hg
    cases hk : keptTurn lower (activePhrases lower rows) names g with
    | false => exact .inl (hdropped g hg hk)
    | true =>
        refine .inr ⟨clear_of_kept hlower hk, ?_⟩
        rw [keptTurn, kept_turn hlower] at hk
        simpa using hk
  have hall : (turns t diar).filter (keptTurn lower (activePhrases lower rows) names) =
      (turns t diar).filter fun g => g.all (Piece.clear lower (activePhrases lower rows)) := by
    refine List.filter_congr fun g hg => ?_
    cases hk : keptTurn lower (activePhrases lower rows) names g with
    | false =>
        obtain ⟨p, ps, rfl⟩ := List.exists_cons_of_ne_nil (isRun_of_turn hg).1
        rw [List.all_cons, hdropped _ hg hk p List.mem_cons_self, Bool.false_and]
    | true => exact (List.all_eq_true.mpr (clear_of_kept hlower hk)).symm
  have hapart : ((turns t diar).filter fun g =>
      g.all (Piece.clear lower (activePhrases lower rows))).IsChain (Apart Piece.raw) := by
    refine (apart_of_length fun g hg => isRun_of_turn (List.mem_filter.mp hg).1).2 ?_
    have hflat := @filter_eq_flatten _ _ _ Piece.raw (Piece.clear lower (activePhrases lower rows))
      (pieces t diar) fun g hg => (hwhole g hg).imp_right And.left
    rw [hall, turns, pieces_of_kept diar (segments_filter t), hflat] at hlength
    exact hlength
  refine .inr ⟨hone, hne, hcovered, fun g hg => ?_, hapart⟩
  refine (hwhole g hg).imp_right fun hclear => ⟨hclear.1, hclear.2, ?_⟩
  -- A header that is stored is one that was read.
  have hmem : (utteranceOf names g).written ∈
      turnBlocks (filterWhisperSegments lower (activePhrases lower rows) t) diar names := by
    rw [turnBlocks_filter hlower hwhole hapart]
    refine List.mem_filter.mpr ⟨List.mem_map_of_mem hg, ?_⟩
    rw [kept_turn hlower, hclear.2]
    rfl
  have hheader : (utteranceOf names g).written.header ∈
      (turnBlocks (filterWhisperSegments lower (activePhrases lower rows) t) diar names).flatMap
        fun w => [w.header, w.line] := List.mem_flatMap.mpr ⟨_, hmem, List.mem_cons_self⟩
  rw [← hagree, ← written_utterances (utterances_eq hne diar names), ← marked_tagged] at hheader
  have hmarked := isMarked_of_mem_kept hheader
  rw [isMarked, isBody_header, Bool.or_false] at hmarked
  exact hmarked

end Lost

/-- **Filtering afterwards.** It agrees with filtering at ingestion where nothing is found, and
where turns are kept or dropped as wholes; with one-line texts, nowhere else. -/
theorem reFilter_agrees_iff {lower : Str → Str} (hlower : Lowers isWordEnd lower) (rows : List Str)
    (t : Transcription) (diar : List DiarSegment) (names : Names) :
    (FiltersAlike lower (activePhrases lower rows) t diar names →
        Agrees lower (activePhrases lower rows) t diar names) ∧
      (OneLined t diar names → Agrees lower (activePhrases lower rows) t diar names →
        FiltersAlike lower (activePhrases lower rows) t diar names) :=
  ⟨agrees_of_alike hlower, alike_of_agrees hlower⟩

/-! ## Who speaks next to a credit -/

/-- The first speaker, up to the silence. -/
def untilSilence : DiarSegment :=
  ⟨.val 0, .val 2, some (some "SPEAKER_07".toList)⟩

theorem spokenAndCredit_pieces : pieces spokenAndCredit [untilSilence] =
    [⟨"SPEAKER_07".toList, 0, 2, "Bonjour.".toList⟩, ⟨speaker00, 2, 4, credit⟩] := by
  have hzero : fl 0 = 0 := by exact_mod_cast fl_natCast (n := 0) (by decide)
  have htwo : fl 2 = 2 := by exact_mod_cast fl_natCast (n := 2) (by decide)
  have hfirst : overlap 0 2 0 2 = 2 := by norm_num [overlap, htwo]
  have hsecond : overlap 2 4 0 2 = 0 := by norm_num [overlap, hzero]
  have hlabel : untilSilence.label = "SPEAKER_07".toList := by decide
  have hspeaker₁ : assignSpeaker 0 2 [untilSilence] = "SPEAKER_07".toList := by
    show (if (0 : ℚ) < overlap 0 2 0 2 then (untilSilence.label, overlap 0 2 0 2)
      else (speaker00, 0)).1 = _
    rw [hfirst, if_pos (by norm_num), hlabel]
  have hspeaker₂ : assignSpeaker 2 4 [untilSilence] = speaker00 := by
    show (if (0 : ℚ) < overlap 2 4 0 2 then (untilSilence.label, overlap 2 4 0 2)
      else (speaker00, 0)).1 = _
    rw [hsecond, if_neg (lt_irrefl 0)]
  have hpiece : ∀ {start stop : ℚ} {text speaker : Str}, strip text = text → text ≠ [] →
      assignSpeaker start stop [untilSilence] = speaker →
        piece? [untilSilence] ⟨.val start, .val stop, some text⟩ =
          some ⟨speaker, start, stop, text⟩ := by
    intro start stop text speaker hstrip hne hspeaker
    simp [piece?, Field.float?, hstrip, hne, hspeaker]
  rw [pieces, spokenAndCredit,
    List.filterMap_cons_some (hpiece (by decide) (by decide) hspeaker₁),
    List.filterMap_cons_some (hpiece (by decide) (by decide) hspeaker₂)]
  rfl

/-- The credit, which no one says, is a turn of its own. -/
theorem filtersAlike_spokenAndCredit : FiltersAlike lowerAscii (activePhrases lowerAscii [credit])
    spokenAndCredit [untilSilence] fun _ => none := by
  have hturns : turns spokenAndCredit [untilSilence] =
      [[⟨"SPEAKER_07".toList, 0, 2, "Bonjour.".toList⟩], [⟨speaker00, 2, 4, credit⟩]] := by
    rw [turns, spokenAndCredit_pieces]
    decide +kernel
  refine .inr ⟨⟨by decide +kernel, by decide +kernel, ?_⟩, by decide +kernel,
    .inl ⟨_, List.mem_cons_self, by decide +kernel⟩, ⟨?_, ?_⟩⟩
  · rw [utterances_eq (by decide +kernel), hturns]
    decide +kernel
  · rw [hturns]
    decide +kernel
  · rw [hturns]
    decide +kernel

theorem spokenAndCredit_agrees : Agrees lowerAscii (activePhrases lowerAscii [credit])
    spokenAndCredit [untilSilence] fun _ => none :=
  (reFilter_agrees_iff lowers_lowerAscii [credit] spokenAndCredit [untilSilence]
    fun _ => none).1 filtersAlike_spokenAndCredit

/-- **A turn of two segments.** The same speaker says both: re-filter drops what was said. -/
theorem mixed_turn : ¬ ∀ lower, Lowers isWordEnd lower → ∀ rows t diar names,
    Agrees lower (activePhrases lower rows) t diar names := by
  intro h
  have hagree := (h lowerAscii lowers_lowerAscii [credit] spokenAndCredit [] fun _ => none).2
  revert hagree
  decide +kernel

end MesReunions.Transcript
