import MesReunions.Transcript.RoundTrip
import MesReunions.Transcript.Sentences

/-!
# Editing a transcript

The two endpoints that rewrite a `speaker_tagged_text`: delete-hidden-blocks and re-filter
(`puller.py`, `api_delete_hidden_blocks` and `api_re_filter_forbidden`), on the texts of
both writers.

* **`holds_delete`**, **`holds_filter`** — on clean blocks each removes what it was asked to.
* **`editsKeep_iff`** — and only on clean blocks.
* **`hour_not_editsKeep`** — a block past the first hour goes with the one before it.
-/

namespace MesReunions.Transcript

open Str Sections

/-! ## The row and the endpoints -/

/-- The columns of `UserAudioFile` that the editing endpoints read and write. -/
structure Audio where
  transcriptionText : Option Str
  speakerTaggedText : Option Str
  hiddenBlockIndices : List Nat
  deriving DecidableEq

/-- `[b for i, b in enumerate(blocks) if i not in hidden]` -/
def dropIndices {α : Type} (hidden : List Nat) (xs : List α) : List α :=
  (xs.zipIdx.filter fun p => !hidden.contains p.2).map Prod.fst

/-- The reply of delete-hidden-blocks. -/
structure DeleteReply where
  deleted : Nat
  kept : Nat
  reason : Option Str
  deriving DecidableEq

def noHiddenBlocks : Str := "no_hidden_blocks".toList

def noBlocksParseable : Str := "no_blocks_parseable".toList

/-- `api_delete_hidden_blocks`, on the row found. -/
def deleteHiddenBlocks (row : Audio) : Except PyError (DeleteReply × Audio) :=
  if row.hiddenBlockIndices = [] then .ok (⟨0, 0, some noHiddenBlocks⟩, row)
  else do
    let blocks ← reparse (row.speakerTaggedText.getD [])
    if blocks = [] then .ok (⟨0, 0, some noBlocksParseable⟩, row)
    else
      let kept := dropIndices row.hiddenBlockIndices blocks
      let newText := if kept = [] then [] else rebuild kept
      .ok (⟨blocks.length - kept.length, kept.length, none⟩,
        { row with speakerTaggedText := some newText, hiddenBlockIndices := [] })

section Phrases

-- `str.lower`, and the pairs of a normalised and an original phrase.
variable (lower : Str → Str) (phrases : List (Str × Str))

/-- `_normalize(s)` -/
def normalize (s : Str) : Str := lower (strip s)

/-- `_segment_matches_any(seg_text, phrases_norm)` -/
def segmentMatchesAny (segText : Str) : Option Str :=
  let norm := normalize lower segText
  if norm = [] then none
  else (phrases.find? fun p => p.1 ≠ [] && decide (p.1 <:+: norm)).map Prod.snd

/-- `if m:` on the result. -/
def isForbidden (text : Str) : Bool := !((segmentMatchesAny lower phrases text).getD []).isEmpty

/-- `body_line.lstrip(">").strip()` -/
def spokenText (bodyLine : Str) : Str := strip (lstripChar '>' bodyLine)

/-- The lines that re-filter keeps. -/
def keepLines (ls : List Str) : List Str :=
  ls.filter fun l => !isForbidden lower phrases (spokenText l)

/-- The block with `cleaned_body`. -/
def Block.filterLines (b : Block) : Block :=
  { b with bodyLines := keepLines lower phrases b.bodyLines }

/-- The lines that re-filter drops from a block. -/
def Block.droppedLines (b : Block) : List Str :=
  (b.bodyLines.map spokenText).filter (isForbidden lower phrases)

/-- The blocks, when there is a text. -/
def taggedBlocks (tagged : Str) : Except PyError (List Block) :=
  if tagged = [] then .ok [] else reparse tagged

/-- The lines that re-filter drops from `transcription_text`. -/
def textDropped (text : Str) : List Str :=
  if text = [] then [] else ((lines text).filter (isForbidden lower phrases)).map strip

/-- `transcription_text` without them. -/
def textKept (text : Option Str) : Option Str :=
  if text.getD [] = [] then text
  else some (strip (joinLines ((lines (text.getD [])).filter fun l =>
    !isForbidden lower phrases l)))

/-- `api_re_filter_forbidden`, on the row found: the lines dropped, and the row. Nothing is
committed when no line is dropped. -/
def reFilterForbidden (row : Audio) : Except PyError (List Str × Audio) :=
  if phrases = [] then .ok ([], row)
  else do
    let droppedText := textDropped lower phrases (row.transcriptionText.getD [])
    let newText := textKept lower phrases row.transcriptionText
    let tagged := row.speakerTaggedText.getD []
    let blocks ← taggedBlocks tagged
    let droppedTagged := blocks.flatMap (Block.droppedLines lower phrases)
    let kept := (blocks.map (Block.filterLines lower phrases)).filter fun b =>
      !b.bodyLines.isEmpty
    let newTagged := if tagged = [] then row.speakerTaggedText else some (rebuild kept)
    if droppedText ++ droppedTagged = [] then .ok ([], row)
    else .ok (droppedText ++ droppedTagged,
      { row with transcriptionText := newText, speakerTaggedText := newTagged })

end Phrases

/-! ## What is written, and what is left of it -/

/-- What the pipeline stores a text for. -/
inductive Source where
  | whisper (t : Transcription) (diar : List DiarSegment) (names : Names)
  | subtitles (sentences : List Sentence) (label : Str)

def Source.text : Source → Option Str
  | whisper t diar names => mergeToMarkdown t diar names
  | subtitles sentences label => formatSpeakerTagged sentences label

/-- The blocks that the text is made of. -/
def Source.blocks : Source → List Written
  | whisper t diar names => (utterances t diar names).map Utterance.written
  | subtitles sentences label => (sentenceBlocks sentences label).getD []

theorem Source.laysOut {s : Source} {text : Str} (h : s.text = some text) :
    LaysOut text s.blocks := by
  cases s with
  | whisper t diar names => exact laysOut_merge h
  | subtitles sentences label =>
      rw [Source.text] at h
      cases hblocks : sentenceBlocks sentences label with
      | none => rw [formatSpeakerTagged, hblocks] at h; cases h
      | some ws =>
          rw [Source.blocks, hblocks]
          exact laysOut_sentences hblocks h

theorem Source.stamped (s : Source) : ∀ w ∈ s.blocks, w.Stamped := by
  cases s with
  | whisper t diar names =>
      intro w hw
      obtain ⟨u, -, rfl⟩ := List.mem_map.mp hw
      exact stamped_written u
  | subtitles sentences label =>
      rw [Source.blocks]
      cases hblocks : sentenceBlocks sentences label with
      | none => simp
      | some ws => exact sentenceBlocks_stamped hblocks

theorem Source.blocks_eq_nil {s : Source} (h : s.text = none) : s.blocks = [] := by
  cases s with
  | whisper t diar names => rw [Source.blocks, utterances_eq_nil h, List.map_nil]
  | subtitles sentences label =>
      rw [Source.text, formatSpeakerTagged] at h
      rw [Source.blocks]
      cases hblocks : sentenceBlocks sentences label with
      | none => rfl
      | some ws => rw [hblocks] at h; cases h

/-- The text, parsed, is exactly these blocks with these lines. -/
def Holds (text : Str) (parts : List (Written × List Str)) : Prop :=
  ∃ bs, Reparses text bs ∧ List.Forall₂ (fun p b => p.1.IsWith p.2 b) parts bs

/-- A block and the lines of its text. -/
def Written.whole (w : Written) : Written × List Str := (w, w.spoken)

/-- The row after an edit holds these parts. -/
def Leaves {α : Type} (result : Except PyError (α × Audio)) (parts : List (Written × List Str)) :
    Prop :=
  ∃ reply row text, result = .ok (reply, row) ∧ row.speakerTaggedText = some text ∧
    Holds text parts

/-- The blocks without those at hidden indices. -/
def afterDelete (hidden : List Nat) (ws : List Written) : List (Written × List Str) :=
  (dropIndices hidden ws).map Written.whole

/-- The blocks without the lines that match a phrase, and without those left empty. -/
def afterFilter (lower : Str → Str) (phrases : List (Str × Str)) (ws : List Written) :
    List (Written × List Str) :=
  (ws.map fun w => (w, keepLines lower phrases w.spoken)).filter fun p => !p.2.isEmpty

/-- Both edits remove what was selected and nothing else, whatever is selected. -/
def Source.EditsKeep (s : Source) : Prop :=
  ∀ text, s.text = some text → ∀ transcriptionText hidden,
    Leaves (deleteHiddenBlocks ⟨transcriptionText, some text, hidden⟩)
        (afterDelete hidden s.blocks) ∧
      ∀ lower phrases, Leaves (reFilterForbidden lower phrases ⟨transcriptionText, some text, hidden⟩)
        (afterFilter lower phrases s.blocks)

/-! ## Deleting -/

theorem forall₂_dropIndices {α β : Type} {R : α → β → Prop} {as : List α} {bs : List β}
    (h : List.Forall₂ R as bs) (hidden : List Nat) :
    List.Forall₂ R (dropIndices hidden as) (dropIndices hidden bs) := by
  have haux : ∀ k, List.Forall₂ R
      (((as.zipIdx k).filter fun p => !hidden.contains p.2).map Prod.fst)
      (((bs.zipIdx k).filter fun p => !hidden.contains p.2).map Prod.fst) := by
    induction h with
    | nil => exact fun _ => .nil
    | @cons a b as bs hab _ ih =>
        intro k
        have ih := ih (k + 1)
        rw [List.zipIdx_cons, List.zipIdx_cons]
        cases hk : hidden.contains k with
        | true => rwa [List.filter_cons_of_neg (by simpa using hk),
            List.filter_cons_of_neg (by simpa using hk)]
        | false =>
            rw [List.filter_cons_of_pos (by simpa using hk),
              List.filter_cons_of_pos (by simpa using hk)]
            exact .cons hab ih
  exact haux 0

theorem mem_of_mem_dropIndices {α : Type} {hidden : List Nat} {xs : List α} {x : α}
    (h : x ∈ dropIndices hidden xs) : x ∈ xs := by
  obtain ⟨p, hp, rfl⟩ := List.mem_map.mp h
  exact List.fst_mem_of_mem_zipIdx (List.mem_filter.mp hp).1

@[simp] theorem dropIndices_nil {α : Type} (xs : List α) : dropIndices [] xs = xs := by
  simp [dropIndices]

theorem forall₂_whole {ws : List Written} {bs : List Block} :
    List.Forall₂ (fun p b => p.1.IsWith p.2 b) (ws.map Written.whole) bs ↔
      List.Forall₂ Written.Is ws bs :=
  List.forall₂_map_left_iff

/-- The text without the hidden blocks. -/
def withoutHidden (hidden : List Nat) (blocks : List Block) : Str :=
  if dropIndices hidden blocks = [] then [] else rebuild (dropIndices hidden blocks)

theorem deleteHiddenBlocks_eq (row : Audio) {blocks : List Block}
    (hhidden : row.hiddenBlockIndices ≠ [])
    (hread : reparse (row.speakerTaggedText.getD []) = .ok blocks) (hblocks : blocks ≠ []) :
    ∃ reply, deleteHiddenBlocks row = .ok (reply, { row with
      speakerTaggedText := some (withoutHidden row.hiddenBlockIndices blocks),
      hiddenBlockIndices := [] }) := by
  refine ⟨⟨blocks.length - (dropIndices row.hiddenBlockIndices blocks).length,
    (dropIndices row.hiddenBlockIndices blocks).length, none⟩, ?_⟩
  simp only [deleteHiddenBlocks, if_neg hhidden, hread, bind, Except.bind, if_neg hblocks]
  rfl

theorem deleteHiddenBlocks_noop (row : Audio)
    (h : row.hiddenBlockIndices = [] ∨ reparse (row.speakerTaggedText.getD []) = .ok []) :
    ∃ reply, deleteHiddenBlocks row = .ok (reply, row) := by
  by_cases hhidden : row.hiddenBlockIndices = []
  · exact ⟨_, by rw [deleteHiddenBlocks, if_pos hhidden]⟩
  · refine ⟨⟨0, 0, some noBlocksParseable⟩, ?_⟩
    simp only [deleteHiddenBlocks, if_neg hhidden, h.resolve_left hhidden, bind, Except.bind]
    rfl

theorem reparses_withoutHidden {text : Str} {blocks : List Block}
    (hread : reparse text = .ok blocks) (hidden : List Nat) :
    Reparses (withoutHidden hidden blocks) ((dropIndices hidden blocks).map Block.trim) := by
  rw [withoutHidden]
  split
  · rename_i hnil
    rw [hnil]
    exact ⟨[], rfl, rfl⟩
  · exact reparses_rebuild fun b hb => reparse_wellFormed hread b (mem_of_mem_dropIndices hb)

/-- **Deleting, on clean blocks.** -/
theorem holds_delete {text : Str} {ws : List Written} (hlay : LaysOut text ws)
    (hstamp : ∀ w ∈ ws, w.Stamped) (hclean : ∀ w ∈ ws, w.Clean) (transcriptionText : Option Str)
    (hidden : List Nat) :
    Leaves (deleteHiddenBlocks ⟨transcriptionText, some text, hidden⟩) (afterDelete hidden ws) := by
  obtain ⟨bs, ⟨blocks, hread, rfl⟩, his⟩ := reparses_of_clean hlay hstamp hclean
  by_cases hnoop : hidden = [] ∨ blocks = []
  · -- Nothing is hidden, or there is nothing to hide.
    obtain ⟨reply, hdelete⟩ :=
      deleteHiddenBlocks_noop ⟨transcriptionText, some text, hidden⟩
        (hnoop.imp_right fun (h : blocks = []) => h ▸ hread)
    refine ⟨reply, _, text, hdelete, rfl, blocks.map Block.trim, ⟨blocks, hread, rfl⟩, ?_⟩
    rcases hnoop with rfl | rfl
    · rw [afterDelete, dropIndices_nil, forall₂_whole]
      exact his
    · cases his
      exact .nil
  · rw [not_or] at hnoop
    obtain ⟨reply, hdelete⟩ :=
      deleteHiddenBlocks_eq ⟨transcriptionText, some text, hidden⟩ hnoop.1 hread hnoop.2
    refine ⟨reply, _, _, hdelete, rfl, _, reparses_withoutHidden hread hidden, ?_⟩
    rw [List.forall₂_map_right_iff] at his ⊢
    rw [afterDelete, List.forall₂_map_left_iff]
    exact forall₂_dropIndices his hidden

/-! ## Filtering -/

theorem spokenText_rstrip (l : Str) : spokenText (rstrip l) = spokenText l := by
  have hmark : lstripChar '>' (rstrip l) = rstrip (lstripChar '>' l) := by
    induction l with
    | nil => simp [lstripChar]
    | cons c l ih =>
        by_cases hc : c = '>'
        · subst hc
          rw [rstrip_cons_of_not (by decide), lstripChar, lstripChar,
            List.dropWhile_cons_of_pos (by decide), List.dropWhile_cons_of_pos (by decide)]
          exact ih
        · have hstay : ∀ s : Str, s.head? ≠ some '>' → lstripChar '>' s = s := by
            intro s hs
            cases s with
            | nil => rfl
            | cons d s =>
                refine List.dropWhile_cons_of_neg ?_
                simpa using hs
          rw [hstay (c :: l) (by simpa using hc), hstay]
          rw [Ne, head?_rstrip_of_not (by decide)]
          simpa using hc
  rw [spokenText, hmark, strip_rstrip, spokenText]

section Filter

variable {lower : Str → Str} {phrases : List (Str × Str)}

theorem keepLines_rstrip (ls : List Str) :
    (keepLines lower phrases ls).map rstrip = keepLines lower phrases (ls.map rstrip) := by
  rw [keepLines, keepLines, List.filter_map]
  congr 2
  funext l
  rw [Function.comp_apply, spokenText_rstrip]

theorem trim_filterLines (b : Block) :
    (b.filterLines lower phrases).trim = b.trim.filterLines lower phrases := by
  simp [Block.filterLines, Block.trim, keepLines_rstrip]

theorem wellFormed_filterLines {b : Block} (h : b.WellFormed) :
    (b.filterLines lower phrases).WellFormed :=
  ⟨h.head, h.header_line, fun l hl => h.body l (List.mem_filter.mp hl).1⟩

/-- What is left of the blocks. -/
def filterBlocks (lower : Str → Str) (phrases : List (Str × Str)) (blocks : List Block) :
    List Block :=
  (blocks.map (Block.filterLines lower phrases)).filter fun b => !b.bodyLines.isEmpty

theorem reparses_filterBlocks {text : Str} {blocks : List Block}
    (hread : reparse text = .ok blocks) :
    Reparses (rebuild (filterBlocks lower phrases blocks))
      ((filterBlocks lower phrases blocks).map Block.trim) := by
  refine reparses_rebuild fun b hb => ?_
  obtain ⟨b', hb', rfl⟩ := List.mem_map.mp (List.mem_filter.mp hb).1
  exact wellFormed_filterLines (reparse_wellFormed hread b' hb')

theorem isForbidden_nil (text : Str) : isForbidden lower [] text = false := by
  rw [isForbidden, segmentMatchesAny]
  split <;> rfl

theorem forall₂_filterBlocks {ws : List Written} {blocks : List Block}
    (h : List.Forall₂ (fun w b => w.Is b.trim) ws blocks) :
    List.Forall₂ (fun p b => p.1.IsWith p.2 b) (afterFilter lower phrases ws)
      ((filterBlocks lower phrases blocks).map Block.trim) := by
  induction h with
  | nil => exact .nil
  | @cons w b ws blocks hwb _ ih =>
      have hlines : (keepLines lower phrases b.bodyLines).map rstrip =
          keepLines lower phrases w.spoken := by
        rw [keepLines_rstrip]
        exact congrArg _ hwb.bodyLines
      have hempty : (b.filterLines lower phrases).bodyLines.isEmpty =
          (keepLines lower phrases w.spoken).isEmpty := by
        rw [← hlines, List.isEmpty_map]
        rfl
      rw [afterFilter, filterBlocks, List.map_cons, List.map_cons]
      cases hk : (keepLines lower phrases w.spoken).isEmpty with
      | true =>
          rw [List.filter_cons_of_neg (by simpa using hk),
            List.filter_cons_of_neg (by simpa using hempty.trans hk)]
          exact ih
      | false =>
          rw [List.filter_cons_of_pos (by simp [hk]),
            List.filter_cons_of_pos (by simp [hempty.trans hk]), List.map_cons]
          refine .cons ⟨hwb.speaker, hwb.start, hwb.stop, hwb.headerLine, ?_⟩ ih
          exact hlines

/-- When no line matches, everything is left. -/
theorem afterFilter_eq_whole {ws : List Written}
    (h : ∀ w ∈ ws, ∀ l ∈ w.spoken, isForbidden lower phrases (spokenText l) = false) :
    afterFilter lower phrases ws = ws.map Written.whole := by
  have hkeep : ∀ w ∈ ws, (w, keepLines lower phrases w.spoken) = w.whole := fun w hw => by
    rw [keepLines, List.filter_eq_self.mpr fun l hl => by rw [h w hw l hl]; rfl]
    rfl
  rw [afterFilter, List.map_congr_left hkeep, List.filter_eq_self]
  intro p hp
  obtain ⟨w, -, rfl⟩ := List.mem_map.mp hp
  simpa [Written.whole] using spoken_ne_nil w

/-- Filtering the row drops no line. -/
def NothingMatches (lower : Str → Str) (phrases : List (Str × Str)) (row : Audio)
    (blocks : List Block) : Prop :=
  textDropped lower phrases (row.transcriptionText.getD []) = [] ∧
    ∀ b ∈ blocks, b.droppedLines lower phrases = []

theorem nothingMatches_nil (row : Audio) (blocks : List Block) :
    NothingMatches lower [] row blocks := by
  refine ⟨?_, fun b _ => ?_⟩
  · rw [textDropped]
    split
    · rfl
    · rw [List.map_eq_nil_iff, List.filter_eq_nil_iff]
      exact fun x _ => by rw [isForbidden_nil]; exact Bool.false_ne_true
  · rw [Block.droppedLines, List.filter_eq_nil_iff]
    exact fun x _ => by rw [isForbidden_nil]; exact Bool.false_ne_true

variable (lower phrases) in
/-- The row is kept when no line matches, and otherwise rewritten. -/
theorem reFilterForbidden_eq {row : Audio} {blocks : List Block}
    (hread : reparse (row.speakerTaggedText.getD []) = .ok blocks) :
    ∃ dropped row', reFilterForbidden lower phrases row = .ok (dropped, row') ∧
      row'.hiddenBlockIndices = row.hiddenBlockIndices ∧
      (row' = row ∧ NothingMatches lower phrases row blocks ∨
        ¬ NothingMatches lower phrases row blocks ∧
          row'.transcriptionText = textKept lower phrases row.transcriptionText ∧
          row'.speakerTaggedText = if row.speakerTaggedText.getD [] = [] then row.speakerTaggedText
            else some (rebuild (filterBlocks lower phrases blocks))) := by
  by_cases hphrases : phrases = []
  · subst hphrases
    exact ⟨[], row, by rw [reFilterForbidden, if_pos rfl], rfl,
      Or.inl ⟨rfl, nothingMatches_nil row blocks⟩⟩
  have hblocks : taggedBlocks (row.speakerTaggedText.getD []) = .ok blocks := by
    rw [taggedBlocks]
    split
    · rename_i hnil
      rw [← hread, hnil]
      rfl
    · exact hread
  have hmatches : NothingMatches lower phrases row blocks ↔
      textDropped lower phrases (row.transcriptionText.getD []) ++
        blocks.flatMap (Block.droppedLines lower phrases) = [] := by
    rw [List.append_eq_nil_iff, List.flatMap_eq_nil_iff, NothingMatches]
  simp only [reFilterForbidden, if_neg hphrases, hblocks, bind, Except.bind]
  by_cases hnothing : NothingMatches lower phrases row blocks
  · exact ⟨[], row, by rw [if_pos (hmatches.mp hnothing)], rfl, Or.inl ⟨rfl, hnothing⟩⟩
  · rw [if_neg fun h => hnothing (hmatches.mpr h)]
    exact ⟨_, _, rfl, rfl, Or.inr ⟨hnothing, rfl, rfl⟩⟩

/-- **Filtering, on clean blocks.** -/
theorem holds_filter {text : Str} {ws : List Written} (hlay : LaysOut text ws)
    (hstamp : ∀ w ∈ ws, w.Stamped) (hclean : ∀ w ∈ ws, w.Clean) (transcriptionText : Option Str)
    (hidden : List Nat) :
    Leaves (reFilterForbidden lower phrases ⟨transcriptionText, some text, hidden⟩)
      (afterFilter lower phrases ws) := by
  obtain ⟨bs, ⟨blocks, hread, rfl⟩, his⟩ := reparses_of_clean hlay hstamp hclean
  rw [List.forall₂_map_right_iff] at his
  obtain ⟨dropped, row', hfilter, -, ⟨rfl, hnone⟩ | ⟨-, -, htext⟩⟩ :=
    reFilterForbidden_eq lower phrases
      (show reparse ((Audio.mk transcriptionText (some text) hidden).speakerTaggedText.getD []) =
        .ok blocks from hread)
  · refine ⟨dropped, _, text, hfilter, rfl, blocks.map Block.trim, ⟨blocks, hread, rfl⟩, ?_⟩
    rw [afterFilter_eq_whole, forall₂_whole, List.forall₂_map_right_iff]
    · exact his
    · intro w hw line hline
      obtain ⟨b, hb, hwb⟩ := exists_of_forall₂ his.flip hw
      rw [← hwb.bodyLines] at hline
      obtain ⟨l, hl, rfl⟩ := List.mem_map.mp hline
      rw [spokenText_rstrip, ← Bool.not_eq_true]
      exact List.filter_eq_nil_iff.mp (hnone.2 b hb) _ (List.mem_map_of_mem hl)
  · dsimp only [Option.getD_some] at htext
    split at htext
    · -- An empty text has no blocks.
      rename_i hnil
      subst hnil
      cases hread
      cases his
      exact ⟨dropped, row', [], hfilter, htext, [], ⟨[], rfl, rfl⟩, .nil⟩
    · exact ⟨dropped, row', _, hfilter, htext, _, reparses_filterBlocks hread,
        forall₂_filterBlocks his⟩

end Filter

/-! ## Both edits -/

/-- **Editing removes only what was selected**, for both writers and both edits, exactly when
every block of the text is clean. -/
theorem editsKeep_iff (s : Source) : s.EditsKeep ↔ ∀ w ∈ s.blocks, w.Clean := by
  constructor
  · intro h
    cases htext : s.text with
    | none =>
        rw [Source.blocks_eq_nil htext]
        exact fun w hw => absurd hw List.not_mem_nil
    | some text =>
        -- The edit that selects nothing must leave every block.
        obtain ⟨⟨reply, row, text', hdelete, hrow, bs, hread, his⟩, -⟩ := h text htext none []
        rw [deleteHiddenBlocks, if_pos rfl] at hdelete
        injection hdelete with hdelete
        injection hdelete with _ hdelete
        rw [← hdelete] at hrow
        injection hrow with hrow
        rw [afterDelete, dropIndices_nil, forall₂_whole] at his
        exact clean_of_is (hrow ▸ hread) s.stamped his
  · intro h text htext transcriptionText hidden
    exact ⟨holds_delete (Source.laysOut htext) s.stamped h transcriptionText hidden,
      fun lower phrases => holds_filter (Source.laysOut htext) s.stamped h transcriptionText hidden⟩

/-- The first speaker, in the diarization. -/
def firstHour : DiarSegment :=
  ⟨.val 0, .val 3605, some (some ['S', 'P', 'E', 'A', 'K', 'E', 'R', '_', '0', '7'])⟩

/-- Two speakers; the second talks after the first hour. -/
def overAnHour : Source := .whisper
  ⟨[⟨.val 0, .val 10, some ['B', 'o', 'n']⟩, ⟨.val 3605, .val 3610, some ['O', 'u', 'i']⟩], none,
    .absent⟩ [firstHour] fun _ => none

theorem overAnHour_blocks : ∃ w, overAnHour.blocks = [w, ⟨labelOf (fun _ => none) speaker00,
    formatTime 3605, formatTime 3610, ['O', 'u', 'i']⟩] := by
  have hten : fl 10 = 10 := by exact_mod_cast fl_natCast (n := 10) (by decide)
  have hzero : fl 0 = 0 := by exact_mod_cast fl_natCast (n := 0) (by decide)
  have hfirst : overlap 0 10 0 3605 = 10 := by norm_num [overlap, hten]
  have hsecond : overlap 3605 3610 0 3605 = 0 := by norm_num [overlap, hzero]
  have hpiece₁ : piece? [firstHour] ⟨.val 0, .val 10, some ['B', 'o', 'n']⟩ =
      some ⟨firstHour.label, 0, 10, ['B', 'o', 'n']⟩ := by
    have hstrip : strip ['B', 'o', 'n'] = ['B', 'o', 'n'] := by decide
    simp [piece?, Field.float?, assignSpeaker, firstHour, hfirst, hstrip]
  have hpiece₂ : piece? [firstHour] ⟨.val 3605, .val 3610, some ['O', 'u', 'i']⟩ =
      some ⟨speaker00, 3605, 3610, ['O', 'u', 'i']⟩ := by
    have hstrip : strip ['O', 'u', 'i'] = ['O', 'u', 'i'] := by decide
    simp [piece?, Field.float?, assignSpeaker, firstHour, hsecond, hstrip]
  refine ⟨⟨labelOf (fun _ => none) firstHour.label, formatTime 0, formatTime 10,
    ['B', 'o', 'n']⟩, ?_⟩
  rw [overAnHour, Source.blocks, utterances, if_neg (List.cons_ne_nil _ _)]
  rw [List.filterMap_cons_some hpiece₁, List.filterMap_cons_some hpiece₂]
  rfl

/-- Deleting the first block deletes what the second speaker said. -/
theorem hour_not_editsKeep : ¬ overAnHour.EditsKeep := by
  intro h
  obtain ⟨⟨reply, row, text, -, -, bs, -, his⟩, -⟩ := h _ rfl none [0]
  obtain ⟨w, hblocks⟩ := overAnHour_blocks
  rw [hblocks] at his
  cases his with
  | cons hread _ =>
      have hlt := (isClock_formatTime.mp hread.start.isClock).2
      have hround : roundHalfEven 3605 = 3605 := roundHalfEven_intCast 3605
      rw [hround] at hlt
      exact absurd hlt (by decide)

end MesReunions.Transcript
