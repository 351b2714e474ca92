import MesReunions.Subtitles.Chunks

/-!
# Sentences out of chunks

`services/dmz-to-internal-bridge/app/external_source.py`: the chunks of a video are cut into
sentences again, and a sentence that repeats the one before it is taken for the overlap.

* `sentenceAlignSegments` — the segmentation, with times by position in the text.
* `Clean` — each chunk has no text of the one before it, or that text is its first sentence, which
  repeats the last one kept; nothing else repeats, and no new text has no duration.
* **`survives_of_clean`** — then the sentences spell the subtitles.
* **`overlap_repeated`** — an overlap of two sentences is given twice.
-/

namespace MesReunions.Subtitles

open Str

/-! ## The segmentation -/

/-- A coarse segment: its text, and what `float(… or 0.0)` makes of its times, if it does not
raise. -/
structure Coarse where
  text : Option Str
  startSeconds : Option PyFloat
  endSeconds : Option PyFloat

/-- A sentence. -/
structure Piece where
  startSeconds : PyFloat
  endSeconds : PyFloat
  text : Str
  deriving DecidableEq

/-- The marks of `_SENTENCE_BOUNDARY_RE`. -/
def isSentenceEnd (c : Char) : Bool := c == '.' || c == '!' || c == '?' || c == '…'

/-- The marks of `_SOFT_BOUNDARY_RE`. -/
def isSoftEnd (c : Char) : Bool := c == ',' || c == ';' || c == ':'

/-- `_LONG_PHRASE_THRESHOLD_SEC` -/
def longPhraseThreshold : ℚ := 20

/-- `sum(len(p) for p in parts) or 1` -/
def totalOf (parts : List Str) : Nat :=
  let total := (parts.map List.length).sum
  if total = 0 then 1 else total

/-- `min(1.0, x)` -/
def minOne (x : PyFloat) : PyFloat := if x.lt (.fin 1) then x else .fin 1

/-- The loop over `parts`: times by position in the text. -/
def place (t0 duration : PyFloat) (total : Nat) (cursor : Nat) : List Str → List Piece
  | [] => []
  | p :: parts =>
      let p := strip p
      if p = [] then place t0 duration total cursor parts
      else
        { startSeconds := (t0.add ((PyFloat.ratio cursor total).mul duration)).round2
          endSeconds :=
            (t0.add ((minOne (PyFloat.ratio (cursor + p.length + 1) total)).mul duration)).round2
          text := p } :: place t0 duration total (cursor + p.length + 1) parts

/-- The parts of a long phrase, or the phrase itself. -/
def placed (seg : Piece) (parts : List Str) : List Piece :=
  let out := place seg.startSeconds (seg.endSeconds.sub seg.startSeconds) (totalOf parts) 0 parts
  if out = [] then [seg] else out

/-- `_split_long_phrase(seg)` -/
def splitLongPhrase (seg : Piece) : Except PyError (List Piece) :=
  let dur := seg.endSeconds.sub seg.startSeconds
  let parts := cutAfter isSoftEnd false seg.text
  if 1 < parts.length then .ok (placed seg parts)
  else do
    let n ← (dur.divRat 15).toInt
    let ws := words seg.text
    if ws = [] then .ok [seg]
    else
      let perChunk := max 1 (ws.length / (max 1 n).toNat)
      .ok (placed seg ((packets perChunk ws).map joinWords))

/-- A sentence of more than twenty seconds is cut again. -/
def splitIfLong (seg : Piece) : Except PyError (List Piece) :=
  if PyFloat.lt (.fin longPhraseThreshold) (seg.endSeconds.sub seg.startSeconds) then
    splitLongPhrase seg
  else .ok [seg]

/-- The sentences of one coarse segment. -/
def alignOne (c : Coarse) : Except PyError (List Piece) :=
  let text := strip (c.text.getD [])
  if text = [] then .ok []
  else
    match c.startSeconds, c.endSeconds with
    | some t0, some t1 =>
        let length := t1.sub t0
        let duration := if PyFloat.lt (.fin 0) length then length else .fin 0
        if duration.le (.fin 0) then .ok []
        else do
          let parts := cutAfter isSentenceEnd false text
          let pieces ← (place t0 duration (totalOf parts) 0 parts).mapM splitIfLong
          .ok pieces.flatten
    | _, _ => .ok []

/-- `cur` is taken for a repetition of `prev`. -/
def Piece.repeats (prev cur : Piece) : Bool :=
  decide (strip cur.text = strip prev.text) &&
    (cur.startSeconds.sub prev.startSeconds).abs.lt (.fin 20)

/-- The loop of `_dedupe_overlap`; `prev` is the last sentence of `out`. -/
def dedupeAfter (prev : Option Piece) : List Piece → List Piece
  | [] => []
  | cur :: rest =>
      if prev.any (·.repeats cur) then dedupeAfter prev rest
      else cur :: dedupeAfter (some cur) rest

/-- `_dedupe_overlap(segments)` -/
def dedupeOverlap (segments : List Piece) : List Piece := dedupeAfter none segments

/-- `sentence_align_segments(coarse_segments)` -/
def sentenceAlignSegments (coarse : List Coarse) : Except PyError (List Piece) := do
  let pieces ← coarse.mapM alignOne
  .ok (dedupeOverlap pieces.flatten)

/-- A chunk, as it is read. -/
def ChunkDict.coarse (c : ChunkDict) : Coarse := ⟨some c.text, some c.startSeconds, some c.endSeconds⟩

/-! ## Statements -/

/-- The sentences spell the text of the segments in start order, up to blanks. -/
def Survives (segments : List Segment) : Prop :=
  ∃ out, sentenceAlignSegments
      ((chunk segments targetSeconds overlapSeconds).map ChunkDict.coarse) = .ok out ∧
    words (joinWords (out.map Piece.text)) = words (fullText (inOrder segments))

def wordsIn (segs : List Segment) : List Str := segs.flatMap fun s => words s.text

/-- None of the sentences repeats the one before it. -/
def Fresh (prev : Option Piece) (ps : List Piece) : Prop :=
  (prev.toList ++ ps).IsChain fun p q => p.repeats q = false

/-- What the chunks share is a sentence of its own. `prev` is the last sentence kept, and the first
`covered` segments are those of a chunk before. -/
inductive Clean : Option Piece → Nat → List Run → Prop
  | done {prev : Option Piece} {covered : Nat} : Clean prev covered []
  /-- A chunk without a sentence has no new text. -/
  | silent {prev : Option Piece} {covered : Nat} {r : Run} {rest : List Run}
      (hps : alignOne r.chunk.coarse = .ok [])
      (hnew : wordsIn (r.segs.drop covered) = [])
      (hrest : Clean prev (max covered r.segs.length - r.advance) rest) :
      Clean prev covered (r :: rest)
  /-- A chunk shares no text with those before. -/
  | apart {prev : Option Piece} {covered : Nat} {r : Run} {rest : List Run} {p : Piece}
      {ps : List Piece} (hps : alignOne r.chunk.coarse = .ok (p :: ps))
      (hshared : wordsIn (r.segs.take covered) = [])
      (hfresh : Fresh prev (p :: ps))
      (hrest : Clean (some (ps.getLastD p)) (max covered r.segs.length - r.advance) rest) :
      Clean prev covered (r :: rest)
  /-- Or it shares its first sentence, which is the last one that was kept. -/
  | joined {q : Piece} {covered : Nat} {r : Run} {rest : List Run} {p : Piece}
      {ps : List Piece} (hps : alignOne r.chunk.coarse = .ok (p :: ps))
      (hshared : words p.text = wordsIn (r.segs.take covered))
      (hrepeats : q.repeats p = true)
      (hfresh : Fresh (some q) ps)
      (hrest : Clean (some (ps.getLastD q)) (max covered r.segs.length - r.advance) rest) :
      Clean (some q) covered (r :: rest)

/-! ## Words -/

theorem words_textOf (segs : List Segment) : words (textOf segs) = wordsIn segs := by
  have hfilter := words_filter_strip (segs.map Segment.text)
  rw [List.map_map] at hfilter
  rw [textOf, words_joinWords, wordsIn]
  exact hfilter.trans (List.flatMap_map ..)

theorem wordsIn_append (xs ys : List Segment) : wordsIn (xs ++ ys) = wordsIn xs ++ wordsIn ys :=
  List.flatMap_append

def wordsOf (ps : List Piece) : List Str := ps.flatMap fun p => words p.text

theorem wordsOf_append (ps qs : List Piece) : wordsOf (ps ++ qs) = wordsOf ps ++ wordsOf qs :=
  List.flatMap_append

theorem wordsOf_cons (p : Piece) (ps : List Piece) :
    wordsOf (p :: ps) = words p.text ++ wordsOf ps := List.flatMap_cons

theorem wordsOf_place {t0 duration : PyFloat} {total cursor : Nat} {parts : List Str} :
    wordsOf (place t0 duration total cursor parts) = parts.flatMap words := by
  induction parts generalizing cursor with
  | nil => rfl
  | cons p parts ih =>
      rw [List.flatMap_cons, place]
      split
      · rename_i hblank
        rw [ih, words_of_strip hblank, List.nil_append]
      · rw [wordsOf_cons, ih, words_strip]

theorem wordsOf_placed {seg : Piece} {parts : List Str} (h : parts.flatMap words = words seg.text) :
    wordsOf (placed seg parts) = words seg.text := by
  rw [placed]
  split
  · simp [wordsOf]
  · rw [wordsOf_place, h]

theorem wordsOf_splitLongPhrase {seg : Piece} {ps : List Piece}
    (h : splitLongPhrase seg = .ok ps) : wordsOf ps = words seg.text := by
  simp only [splitLongPhrase] at h
  split at h
  · cases h
    exact wordsOf_placed (words_cutAfter ..)
  · cases hn : ((seg.endSeconds.sub seg.startSeconds).divRat 15).toInt with
    | error e =>
        rw [hn] at h
        cases h
    | ok n =>
        rw [hn] at h
        simp only [bind, Except.bind] at h
        split at h
        · cases h
          simp [wordsOf]
        · cases h
          refine wordsOf_placed ?_
          -- A packet is some of the words, and each of them is one word.
          have hpacket : ∀ packet ∈ packets (max 1 ((words seg.text).length / (max 1 n).toNat))
              (words seg.text), words (joinWords packet) = packet := by
            intro packet hpacket
            rw [words_joinWords]
            refine flatMap_words_of_words fun w hw => words_of_mem (s := seg.text) ?_
            rw [← flatten_packets _ (words seg.text)]
            exact List.mem_flatten_of_mem hpacket hw
          rw [List.flatMap_map, List.flatMap_congr hpacket, List.flatMap_id']
          exact flatten_packets ..

theorem wordsOf_splitIfLong {seg : Piece} {ps : List Piece} (h : splitIfLong seg = .ok ps) :
    wordsOf ps = words seg.text := by
  rw [splitIfLong] at h
  split at h
  · exact wordsOf_splitLongPhrase h
  · cases h
    simp [wordsOf]

/-- What a chain of computations that did not raise has gone through. -/
theorem ok_of_bind {ε α β : Type} {x : Except ε α} {f : α → Except ε β} {b : β}
    (h : (x >>= f) = .ok b) : ∃ a, x = .ok a ∧ f a = .ok b := by
  cases x with
  | error e => cases h
  | ok a => exact ⟨a, rfl, h⟩

theorem wordsOf_mapM {segs : List Piece} {pss : List (List Piece)}
    (h : segs.mapM splitIfLong = .ok pss) : wordsOf pss.flatten = wordsOf segs := by
  induction segs generalizing pss with
  | nil =>
      cases h
      rfl
  | cons seg segs ih =>
      rw [List.mapM_cons] at h
      obtain ⟨ps, hps, h⟩ := ok_of_bind h
      obtain ⟨qss, hqss, h⟩ := ok_of_bind h
      cases h
      rw [List.flatten_cons, wordsOf_append, wordsOf_cons, ih hqss, wordsOf_splitIfLong hps]

/-- What a chunk goes through that gives a sentence. -/
theorem alignOne_cases {c : Coarse} {ps : List Piece} (h : alignOne c = .ok ps) (hne : ps ≠ []) :
    ∃ t0 t1 pss, c.startSeconds = some t0 ∧ c.endSeconds = some t1 ∧
      PyFloat.lt (.fin 0) (t1.sub t0) = true ∧
      (place t0 (t1.sub t0) (totalOf (cutAfter isSentenceEnd false (strip (c.text.getD [])))) 0
        (cutAfter isSentenceEnd false (strip (c.text.getD [])))).mapM splitIfLong = .ok pss ∧
      ps = pss.flatten := by
  have hsilent : ¬ (.ok [] : Except PyError (List Piece)) = .ok ps := by
    intro hnil
    cases hnil
    exact hne rfl
  rw [alignOne] at h
  dsimp only at h
  split at h
  · exact absurd h hsilent
  · split at h
    · rename_i t0 t1 ht0 ht1
      by_cases hpos : PyFloat.lt (.fin 0) (t1.sub t0) = true
      · rw [if_pos hpos] at h
        split at h
        · exact absurd h hsilent
        · obtain ⟨pss, hpss, h⟩ := ok_of_bind h
          cases h
          exact ⟨t0, t1, pss, ht0, ht1, hpos, hpss, rfl⟩
      · rw [if_neg hpos, if_pos (by decide)] at h
        exact absurd h hsilent
    · exact absurd h hsilent

/-- **Segmentation keeps the words**, of a chunk that gives a sentence at all. -/
theorem wordsOf_alignOne {c : Coarse} {ps : List Piece} (h : alignOne c = .ok ps) (hne : ps ≠ []) :
    wordsOf ps = words (c.text.getD []) := by
  obtain ⟨t0, t1, pss, -, -, -, hpss, rfl⟩ := alignOne_cases h hne
  rw [wordsOf_mapM hpss, wordsOf_place, words_cutAfter, words_strip]

theorem wordsOf_run {r : Run} {ps : List Piece} (h : alignOne r.chunk.coarse = .ok ps)
    (hne : ps ≠ []) : wordsOf ps = wordsIn r.segs :=
  (wordsOf_alignOne h hne).trans (words_textOf r.segs)

/-! ## Repetitions -/

/-- Sentences that do not repeat are kept. -/
theorem dedupeAfter_fresh {prev : Option Piece} {ps rest : List Piece} (h : Fresh prev ps) :
    dedupeAfter prev (ps ++ rest) = ps ++ dedupeAfter (ps.getLast?.or prev) rest := by
  induction ps generalizing prev with
  | nil => rfl
  | cons p ps ih =>
      have hkept : prev.any (·.repeats p) = false := by
        cases prev with
        | none => rfl
        | some q => exact (List.isChain_cons_cons.mp h).1
      have hrest : Fresh (some p) ps := by
        cases prev with
        | none => exact h
        | some q => exact (List.isChain_cons_cons.mp h).2
      rw [List.cons_append, dedupeAfter, if_neg (by rw [hkept]; exact Bool.false_ne_true), ih hrest,
        List.cons_append]
      cases ps with
      | nil => rfl
      | cons q ps => rfl

/-- The last sentence that is kept. -/
theorem getLast?_or (q : Piece) (ps : List Piece) :
    ps.getLast?.or (some q) = some (ps.getLastD q) := by
  cases h : ps.getLast? with
  | none => simp [List.getLastD_eq_getLast?, h]
  | some p => simp [List.getLastD_eq_getLast?, h]

/-! ## Runs -/

/-- What is left after a piece of it, but for what was there before. -/
theorem drop_prefix {α : Type} {segs xs : List α} (h : segs <+: xs) (k : Nat) :
    xs.drop k = segs.drop k ++ xs.drop (max k segs.length) := by
  obtain ⟨t, rfl⟩ := h
  rw [List.drop_append, List.drop_append, List.drop_eq_nil_of_le (le_max_right k segs.length),
    List.nil_append]
  congr 2
  omega

/-- After a chunk, the loop goes on with what is left. -/
theorem runsAt_next {target overlap : ℚ} {xs : List Segment} {r : Run} {rest : List Run}
    (h : runsAt target overlap 0 xs = r :: rest) :
    r.segs <+: xs ∧ ∃ ys, rest = runsAt target overlap 0 ys ∧ ∀ k,
      ys.drop (max k r.segs.length - r.advance) = xs.drop (max k r.segs.length) := by
  have hne : xs ≠ [] := by
    rintro rfl
    cases h
  obtain ⟨r', rest', hruns, hpre, -, hnext⟩ := runsAt_spec target overlap hne
  rw [h] at hruns
  cases hruns
  refine ⟨hpre, ?_⟩
  rcases hnext with ⟨hall, rfl⟩ | ⟨-, hle, rfl⟩
  · refine ⟨[], rfl, fun k => ?_⟩
    rw [List.drop_nil, hall, List.drop_eq_nil_of_le (le_max_right ..)]
  · refine ⟨_, rfl, fun k => ?_⟩
    rw [List.drop_drop]
    congr 1
    omega

/-- **The sentences of the chunks from here on** spell the text that is new. -/
theorem words_of_clean {target overlap : ℚ} {prev : Option Piece} {covered : Nat} {rs : List Run}
    (hclean : Clean prev covered rs) : ∀ xs, rs = runsAt target overlap 0 xs →
      ∃ pss, rs.mapM (fun r => alignOne r.chunk.coarse) = .ok pss ∧
        wordsOf (dedupeAfter prev pss.flatten) = wordsIn (xs.drop covered) := by
  induction hclean with
  | done =>
      intro xs hxs
      refine ⟨[], rfl, ?_⟩
      cases xs with
      | nil =>
          rw [List.drop_nil]
          rfl
      | cons x xs =>
          obtain ⟨r, rest, hruns, -⟩ := runsAt_spec target overlap
            (List.cons_ne_nil x xs)
          rw [← hxs] at hruns
          cases hruns
  | @silent prev covered r rest hps hnew hrest ih =>
      intro xs hxs
      obtain ⟨hpre, ys, hys, hdrop⟩ := runsAt_next hxs.symm
      obtain ⟨pss, hpss, hwords⟩ := ih ys hys
      refine ⟨[] :: pss, ?_, ?_⟩
      · rw [List.mapM_cons, hps, hpss]
        rfl
      · rw [List.flatten_cons, List.nil_append, hwords, hdrop, drop_prefix hpre covered,
          wordsIn_append, hnew, List.nil_append]
  | @apart prev covered r rest p ps hps hshared hfresh hrest ih =>
      intro xs hxs
      obtain ⟨hpre, ys, hys, hdrop⟩ := runsAt_next hxs.symm
      obtain ⟨pss, hpss, hwords⟩ := ih ys hys
      refine ⟨(p :: ps) :: pss, ?_, ?_⟩
      · rw [List.mapM_cons, hps, hpss]
        rfl
      · have hrun : wordsOf (p :: ps) = wordsIn (r.segs.drop covered) := by
          rw [wordsOf_run hps (List.cons_ne_nil _ _), ← List.take_append_drop covered r.segs,
            wordsIn_append, hshared, List.nil_append, List.take_append_drop]
        have hlast : (p :: ps).getLast?.or prev = some (ps.getLastD p) := by
          rw [List.getLast?_cons, Option.some_or, List.getLastD_eq_getLast?]
        rw [List.flatten_cons, dedupeAfter_fresh hfresh, hlast, wordsOf_append, hwords, hdrop,
          drop_prefix hpre covered, wordsIn_append, hrun]
  | @joined q covered r rest p ps hps hshared hrepeats hfresh hrest ih =>
      intro xs hxs
      obtain ⟨hpre, ys, hys, hdrop⟩ := runsAt_next hxs.symm
      obtain ⟨pss, hpss, hwords⟩ := ih ys hys
      refine ⟨(p :: ps) :: pss, ?_, ?_⟩
      · rw [List.mapM_cons, hps, hpss]
        rfl
      · have hrun : wordsOf ps = wordsIn (r.segs.drop covered) := by
          have hall := wordsOf_run hps (List.cons_ne_nil _ _)
          rw [wordsOf_cons, hshared, ← List.take_append_drop covered r.segs, wordsIn_append,
            List.take_append_drop] at hall
          exact List.append_cancel_left hall
        have hdropped : dedupeAfter (some q) ((p :: ps) ++ pss.flatten) =
            dedupeAfter (some q) (ps ++ pss.flatten) := by
          rw [List.cons_append, dedupeAfter, if_pos (by simpa using hrepeats)]
        rw [List.flatten_cons, hdropped, dedupeAfter_fresh hfresh, getLast?_or, wordsOf_append,
          hwords, hdrop, drop_prefix hpre covered, wordsIn_append, hrun]

/-- **Where the text survives.** Where the text that a chunk shares with the one before is none, or
one sentence that ends the one and starts the other, no sentence else repeats the one before it
within twenty seconds, and no chunk with new text is without duration, the sentences spell the
subtitles. -/
theorem survives_of_clean {segments : List Segment}
    (h : Clean none 0 (runs segments targetSeconds overlapSeconds)) : Survives segments := by
  obtain ⟨pss, hpss, hwords⟩ := words_of_clean h (inOrder segments) rfl
  refine ⟨dedupeOverlap pss.flatten, ?_, ?_⟩
  · rw [sentenceAlignSegments, chunk, List.map_map, List.mapM_map]
    exact congrArg (fun x => x >>= fun pieces : List (List Piece) =>
      (.ok (dedupeOverlap pieces.flatten) : Except PyError (List Piece))) hpss
  · rw [words_joinWords, List.flatMap_map, fullText, words_textOf]
    rw [List.drop_zero] at hwords
    exact hwords

/-- Three captions; the second one is in two chunks. -/
def oneShared : List Segment :=
  [⟨['B', 'i', 'e', 'n', '.'], 0, 62⟩, ⟨['A', 'h', '.'], 62, 8⟩,
    ⟨['F', 'i', 'n', 'i', '.'], 70, 10⟩]

theorem oneShared_survives : Survives oneShared := by
  refine survives_of_clean ?_
  have hruns : runs oneShared targetSeconds overlapSeconds =
      [⟨oneShared.take 2, 1⟩, ⟨oneShared.drop 1, 2⟩] := by
    rw [runs, inOrder_of_pairwise (by simp [oneShared]; norm_num)]
    decide +kernel
  have hfirst : alignOne (Run.chunk ⟨oneShared.take 2, 1⟩).coarse =
      .ok [⟨.fin 0, .fin (105 / 2), ['B', 'i', 'e', 'n', '.']⟩,
        ⟨.fin (105 / 2), .fin 70, ['A', 'h', '.']⟩] := by
    decide +kernel
  have hsecond : alignOne (Run.chunk ⟨oneShared.drop 1, 2⟩).coarse =
      .ok [⟨.fin 62, .fin 71, ['A', 'h', '.']⟩,
        ⟨.fin 71, .fin 80, ['F', 'i', 'n', 'i', '.']⟩] := by
    decide +kernel
  rw [hruns]
  refine .apart hfirst rfl ?_ (.joined hsecond ?_ ?_ ?_ .done)
  · rw [Fresh]
    decide +kernel
  · decide +kernel
  · decide +kernel
  · rw [Fresh]
    decide +kernel

/-- Four captions; two of them are in two chunks. -/
def twoShared : List Segment :=
  [⟨['B', 'i', 'e', 'n', '.'], 0, 60⟩, ⟨['U', 'n', '.'], 60, 5⟩, ⟨['D', 'e', 'u', 'x', '.'], 65, 5⟩,
    ⟨['F', 'i', 'n', 'i', '.'], 70, 10⟩]

/-- **An overlap of two sentences is given twice**: neither repeats the one before it. -/
theorem overlap_repeated : ¬ ∀ segments : List Segment, Survives segments := by
  intro h
  obtain ⟨out, hout, hwords⟩ := h twoShared
  have hsorted : inOrder twoShared = twoShared :=
    inOrder_of_pairwise (by simp [twoShared]; norm_num)
  have hchunks : chunk twoShared targetSeconds overlapSeconds =
      (runsAt targetSeconds overlapSeconds 0 twoShared).map Run.chunk := by
    rw [chunk, runs, hsorted]
  have hlength : (sentenceAlignSegments (((runsAt targetSeconds overlapSeconds 0 twoShared).map
      Run.chunk).map ChunkDict.coarse)).map (fun out => (words (joinWords (out.map Piece.text))).length)
        = .ok 6 := by
    decide +kernel
  rw [← hchunks, hout] at hlength
  have hsix : (words (joinWords (out.map Piece.text))).length = 6 := Except.ok.inj hlength
  rw [hwords, hsorted] at hsix
  exact absurd hsix (by decide +kernel)

end MesReunions.Subtitles
