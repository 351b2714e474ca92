import MesReunions.Subtitles.Align

/-!
# Times of words

`flatten_segments_to_synthetic_words` of
`services/dmz-to-internal-bridge/app/external_source.py`: each word of a sentence gets a share of
the time of the sentence, by its length.

* `timesFrom` — the loop over the words of a sentence.
* `WellTimed` — what the docstring of the function promises.
* **`wellTimed_of_successive`** — it holds where each sentence starts after the one before it stops.
* **`words_overlap`** — the two copies of an overlap are given the same time.
-/

namespace MesReunions.Subtitles

open Str PyFloat

/-- A word, as `{"w": …, "s": …, "e": …}`. -/
structure Timed where
  w : Str
  s : PyFloat
  e : PyFloat
  deriving DecidableEq

/-- `max(0.0, end - start)` -/
def Piece.duration (p : Piece) : PyFloat :=
  let length := p.endSeconds.sub p.startSeconds
  if PyFloat.lt (.fin 0) length then length else .fin 0

/-- `sum(max(1, len(w)) for w in words)` -/
def totalChars (ws : List Str) : Nat := (ws.map fun w => max 1 w.length).sum

/-- The loop over `words`, from `cursor` on. -/
def timesFrom (p : Piece) (total : Nat) (cursor : PyFloat) : List Str → List Timed
  | [] => []
  | w :: ws =>
      let share := PyFloat.ratio (max 1 w.length) total
      let next := cursor.add (p.duration.mul share)
      let wEnd := if next.lt p.endSeconds then next else p.endSeconds
      ⟨w, cursor.round3, wEnd.round3⟩ :: timesFrom p total wEnd ws

/-- The words of one sentence. -/
def segmentWords (p : Piece) : List Timed :=
  let text := strip p.text
  if text = [] then []
  else
    let ws := words text
    if p.duration.le (.fin 0) then ws.map fun w => ⟨w, p.startSeconds, p.startSeconds⟩
    else timesFrom p (totalChars ws) p.startSeconds ws

/-- `flatten_segments_to_synthetic_words(segments)` -/
def flattenSegmentsToSyntheticWords (segments : List Piece) : List Timed :=
  segments.flatMap segmentWords

/-! ## Statements -/

/-- The words are sorted by `s`, none ends before it starts, they are those of the sentences, and
those of a sentence do not start before those of a sentence before it have ended. -/
structure WellTimed (segments : List Piece) : Prop where
  sorted : (flattenSegmentsToSyntheticWords segments).Pairwise fun x y => x.s.le y.s = true
  ordered : ∀ x ∈ flattenSegmentsToSyntheticWords segments, x.s.le x.e = true
  spelled : (flattenSegmentsToSyntheticWords segments).map Timed.w =
    segments.flatMap fun p => words p.text
  apart : (segments.map segmentWords).Pairwise fun xs ys =>
    ∀ x ∈ xs, ∀ y ∈ ys, x.e.le y.s = true

/-- Where the words of a sentence stop: a sentence without a duration is an instant. -/
def Piece.stop (p : Piece) : PyFloat :=
  if p.duration.le (.fin 0) then p.startSeconds else p.endSeconds

/-- Every sentence has a start, and it is not before the stop of the one before it. -/
structure Successive (segments : List Piece) : Prop where
  timed : ∀ p ∈ segments, p.startSeconds ≠ .nan
  chain : segments.IsChain fun p q => p.stop.le q.startSeconds = true

/-! ## The words of a sentence -/

/-- The times of a sentence are of hundredths. -/
structure Piece.Rounded (p : Piece) : Prop where
  start : ∃ x, p.startSeconds = round2 x
  stop : ∃ x, p.endSeconds = round2 x

theorem Piece.Rounded.startSeconds_eq {p : Piece} (h : p.Rounded) :
    p.startSeconds.round3 = p.startSeconds := by
  obtain ⟨x, hx⟩ := h.start
  rw [hx, round3_of_round2]

theorem Piece.Rounded.endSeconds_eq {p : Piece} (h : p.Rounded) :
    p.endSeconds.round3 = p.endSeconds := by
  obtain ⟨x, hx⟩ := h.stop
  rw [hx, round3_of_round2]

theorem Piece.duration_nonneg (p : Piece) : le (fin 0) p.duration = true := by
  rw [Piece.duration]
  split
  · rename_i hpos
    exact PyFloat.le_of_lt hpos
  · exact PyFloat.le_refl nofun

theorem map_timesFrom {p : Piece} {total : Nat} (cursor : PyFloat) (ws : List Str) :
    (timesFrom p total cursor ws).map Timed.w = ws := by
  induction ws generalizing cursor with
  | nil => rfl
  | cons w ws ih =>
      rw [timesFrom, List.map_cons, ih]

/-- **One turn of the loop** keeps the cursor before the end of the sentence. -/
theorem cursor_step {p : Piece} {n : Nat} (total : Nat) {cursor next : PyFloat}
    (hnext : next = cursor.add (p.duration.mul (ratio n total))) (hcursor : IsNumber cursor)
    (hend : IsNumber p.endSeconds) (hle : le cursor p.endSeconds = true) :
    let wEnd := if next.lt p.endSeconds then next else p.endSeconds
    IsNumber wEnd ∧ le cursor wEnd = true ∧ le wEnd p.endSeconds = true := by
  intro wEnd
  by_cases hlt : next.lt p.endSeconds = true
  · have hw : wEnd = next := if_pos hlt
    have hne : next ≠ nan := (ne_nan_of_le (PyFloat.le_of_lt hlt)).1
    rw [hw]
    refine ⟨?_, ?_, PyFloat.le_of_lt hlt⟩
    · subst hnext
      exact isNumber_add hcursor hne
    · subst hnext
      have hmul : p.duration.mul (ratio n total) ≠ nan := by
        intro hnan
        rw [hnan, add_nan] at hne
        exact hne rfl
      exact le_add hcursor (PyFloat.mul_nonneg p.duration_nonneg (ratio_nonneg n total) hmul) hne
  · have hw : wEnd = p.endSeconds := if_neg hlt
    rw [hw]
    exact ⟨hend, hle, PyFloat.le_refl hend.ne_nan⟩

/-- **The loop.** The words come one after the other, between the cursor and the end of the
sentence. -/
theorem timesFrom_spec {p : Piece} (total : Nat) (hend : IsNumber p.endSeconds) (ws : List Str) :
    ∀ cursor, IsNumber cursor → le cursor p.endSeconds = true →
      (∀ x ∈ timesFrom p total cursor ws, le cursor.round3 x.s = true ∧ le x.s x.e = true ∧
        le x.e p.endSeconds.round3 = true) ∧
      (timesFrom p total cursor ws).Pairwise fun x y => x.e.le y.s = true := by
  induction ws with
  | nil =>
      intro cursor _ _
      exact ⟨fun x hx => absurd hx List.not_mem_nil, List.Pairwise.nil⟩
  | cons w ws ih =>
      intro cursor hcursor hle
      obtain ⟨hnumber, hstep, hstop⟩ := cursor_step (n := max 1 w.length) total rfl
        hcursor hend hle
      obtain ⟨hbounds, hpairs⟩ := ih _ hnumber hstop
      rw [timesFrom]
      constructor
      · intro x hx
        rcases List.mem_cons.mp hx with rfl | hx
        · have hrefl := round3_mono (PyFloat.le_refl hcursor.ne_nan)
          exact ⟨hrefl, round3_mono hstep, round3_mono hstop⟩
        · obtain ⟨hs, he, hlast⟩ := hbounds x hx
          exact ⟨PyFloat.le_trans (round3_mono hstep) hs, he, hlast⟩
      · refine List.pairwise_cons.mpr ⟨fun y hy => ?_, hpairs⟩
        exact (hbounds y hy).1

theorem lt_or_duration_le {p : Piece} (h : ¬ p.duration.le (fin 0) = true) :
    le p.startSeconds p.endSeconds = true := by
  rw [Piece.duration] at h
  by_cases hpos : lt (fin 0) (p.endSeconds.sub p.startSeconds) = true
  · exact le_of_sub_pos hpos
  · rw [if_neg hpos] at h
    exact absurd (PyFloat.le_refl (x := fin 0) nofun) h

/-- A sentence does not stop before it starts. -/
theorem Piece.start_le_stop {p : Piece} (h : p.startSeconds ≠ nan) :
    le p.startSeconds p.stop = true := by
  rw [Piece.stop]
  split
  · exact PyFloat.le_refl h
  · rename_i hd
    exact lt_or_duration_le hd

/-- **The words of a sentence** are sorted, and inside of it. -/
theorem segmentWords_spec {p : Piece} (hr : p.Rounded) (hstart : p.startSeconds ≠ nan) :
    (∀ x ∈ segmentWords p, le p.startSeconds x.s = true ∧ le x.s x.e = true ∧
      le x.e p.stop = true) ∧
    (segmentWords p).Pairwise fun x y => x.s.le y.s = true := by
  have hrefl := PyFloat.le_refl hstart
  simp only [segmentWords]
  split
  · exact ⟨fun x hx => absurd hx List.not_mem_nil, List.Pairwise.nil⟩
  · split
    · rename_i hd
      -- All the words are at the start.
      have hstop : p.stop = p.startSeconds := if_pos hd
      have hall : ∀ x ∈ (words (strip p.text)).map fun w =>
          (⟨w, p.startSeconds, p.startSeconds⟩ : Timed),
          x.s = p.startSeconds ∧ x.e = p.startSeconds := by
        intro x hx
        obtain ⟨w, -, rfl⟩ := List.mem_map.mp hx
        exact ⟨rfl, rfl⟩
      constructor
      · intro x hx
        obtain ⟨hs, he⟩ := hall x hx
        rw [hs, he, hstop]
        exact ⟨hrefl, hrefl, hrefl⟩
      · exact List.pairwise_map.mpr (List.pairwise_of_forall fun _ _ => hrefl)
    · rename_i hd
      have hle := lt_or_duration_le hd
      have hstop : p.stop = p.endSeconds := if_neg hd
      have hnumber : ∀ {z : PyFloat}, z ≠ nan → (∃ x, z = round2 x) → IsNumber z := by
        rintro z hz ⟨x, rfl⟩
        refine isNumber_round2 ?_
        rintro rfl
        exact hz rfl
      obtain ⟨hbounds, hpairs⟩ := timesFrom_spec (totalChars (words (strip p.text)))
        (hnumber (ne_nan_of_le hle).2 hr.stop) (words (strip p.text)) p.startSeconds
        (hnumber hstart hr.start) hle
      rw [hr.startSeconds_eq, hr.endSeconds_eq] at hbounds
      rw [hstop]
      refine ⟨hbounds, hpairs.imp_of_mem ?_⟩
      intro x y hx _ hxy
      exact PyFloat.le_trans (hbounds x hx).2.1 hxy

theorem map_segmentWords (p : Piece) : (segmentWords p).map Timed.w = words p.text := by
  simp only [segmentWords]
  split
  · rename_i hblank
    rw [words_of_strip hblank]
    rfl
  · split
    · rw [List.map_map, words_strip]
      exact List.map_id _
    · rw [map_timesFrom, words_strip]

/-! ## Sentences one after the other -/

theorem Successive.tail {p : Piece} {ps : List Piece} (h : Successive (p :: ps)) :
    Successive ps :=
  ⟨fun q hq => h.timed q (List.mem_cons_of_mem p hq), h.chain.tail⟩

/-- A sentence stops before each of the later ones starts. -/
theorem Successive.stop_le {p : Piece} {ps : List Piece} (h : Successive (p :: ps)) :
    ∀ q ∈ ps, le p.stop q.startSeconds = true := by
  induction ps generalizing p with
  | nil => exact fun q hq => absurd hq List.not_mem_nil
  | cons r ps ih =>
      intro q hq
      have hfirst := (List.isChain_cons_cons.mp h.chain).1
      rcases List.mem_cons.mp hq with rfl | hq
      · exact hfirst
      · have hr := Piece.start_le_stop (h.timed r (List.mem_cons_of_mem p List.mem_cons_self))
        exact PyFloat.le_trans hfirst (PyFloat.le_trans hr (ih h.tail q hq))

theorem wellTimed_of_rounded {segments : List Piece} (hr : ∀ p ∈ segments, p.Rounded)
    (h : Successive segments) : WellTimed segments := by
  induction segments with
  | nil => exact ⟨List.Pairwise.nil, fun x hx => absurd hx List.not_mem_nil, rfl, List.Pairwise.nil⟩
  | cons p ps ih =>
      have hrest := ih (fun q hq => hr q (List.mem_cons_of_mem p hq)) h.tail
      obtain ⟨hbounds, hsorted⟩ := segmentWords_spec (hr p List.mem_cons_self)
        (h.timed p List.mem_cons_self)
      have hbetween : ∀ x ∈ segmentWords p, ∀ q ∈ ps, ∀ y ∈ segmentWords q,
          le x.e y.s = true := by
        intro x hx q hq y hy
        have hq' := List.mem_cons_of_mem p hq
        have hlast := PyFloat.le_trans (hbounds x hx).2.2 (h.stop_le q hq)
        exact PyFloat.le_trans hlast
          ((segmentWords_spec (hr q hq') (h.timed q hq')).1 y hy).1
      have hcons : flattenSegmentsToSyntheticWords (p :: ps) =
          segmentWords p ++ flattenSegmentsToSyntheticWords ps := rfl
      refine ⟨?_, ?_, ?_, ?_⟩
      · rw [hcons, List.pairwise_append]
        refine ⟨hsorted, hrest.sorted, fun x hx y hy => ?_⟩
        obtain ⟨q, hq, hy⟩ := List.mem_flatMap.mp hy
        exact PyFloat.le_trans (hbounds x hx).2.1 (hbetween x hx q hq y hy)
      · intro x hx
        rw [hcons] at hx
        rcases List.mem_append.mp hx with hx | hx
        · exact (hbounds x hx).2.1
        · exact hrest.ordered x hx
      · rw [hcons, List.map_append, map_segmentWords, hrest.spelled]
        rfl
      · rw [List.map_cons, List.pairwise_cons]
        refine ⟨?_, hrest.apart⟩
        intro ys hys x hx y hy
        obtain ⟨q, hq, rfl⟩ := List.mem_map.mp hys
        exact hbetween x hx q hq y hy

/-! ## The sentences of a transcript -/

theorem rounded_of_mem_place {t0 duration : PyFloat} {total : Nat} {parts : List Str} :
    ∀ cursor, ∀ p ∈ place t0 duration total cursor parts, p.Rounded := by
  induction parts with
  | nil => exact fun _ p hp => absurd hp List.not_mem_nil
  | cons q parts ih =>
      intro cursor p hp
      rw [place] at hp
      split at hp
      · exact ih _ p hp
      · rcases List.mem_cons.mp hp with rfl | hp
        · exact ⟨⟨_, rfl⟩, ⟨_, rfl⟩⟩
        · exact ih _ p hp

theorem rounded_of_mem_placed {seg : Piece} {parts : List Str} (h : seg.Rounded) :
    ∀ p ∈ placed seg parts, p.Rounded := by
  intro p hp
  simp only [placed] at hp
  split at hp
  · rw [List.mem_singleton.mp hp]
    exact h
  · exact rounded_of_mem_place _ p hp

theorem rounded_of_splitIfLong {seg : Piece} {ps : List Piece} (h : seg.Rounded)
    (hps : splitIfLong seg = .ok ps) : ∀ p ∈ ps, p.Rounded := by
  have hself : ∀ p ∈ [seg], p.Rounded := by
    intro p hp
    rw [List.mem_singleton.mp hp]
    exact h
  rw [splitIfLong] at hps
  split at hps
  · simp only [splitLongPhrase] at hps
    split at hps
    · cases hps
      exact rounded_of_mem_placed h
    · obtain ⟨n, -, hps⟩ := ok_of_bind hps
      split at hps
      · cases hps
        exact hself
      · cases hps
        exact rounded_of_mem_placed h
  · cases hps
    exact hself

/-- What a loop that did not raise has put together. -/
theorem mem_of_mapM {α β : Type} {f : α → Except PyError (List β)} {xs : List α}
    {yss : List (List β)} (h : xs.mapM f = .ok yss) {y : β} (hy : y ∈ yss.flatten) :
    ∃ x ∈ xs, ∃ ys, f x = .ok ys ∧ y ∈ ys := by
  induction xs generalizing yss with
  | nil =>
      cases h
      exact absurd hy List.not_mem_nil
  | cons x xs ih =>
      rw [List.mapM_cons] at h
      obtain ⟨ys, hys, h⟩ := ok_of_bind h
      obtain ⟨zss, hzss, h⟩ := ok_of_bind h
      cases h
      rw [List.flatten_cons] at hy
      rcases List.mem_append.mp hy with hy | hy
      · exact ⟨x, List.mem_cons_self, ys, hys, hy⟩
      · obtain ⟨x', hx', hmem⟩ := ih hzss hy
        exact ⟨x', List.mem_cons_of_mem x hx', hmem⟩

theorem rounded_of_alignOne {c : Coarse} {ps : List Piece} (h : alignOne c = .ok ps) :
    ∀ p ∈ ps, p.Rounded := by
  intro p hp
  obtain ⟨t0, t1, pss, -, -, -, hpss, rfl⟩ := alignOne_cases h (List.ne_nil_of_mem hp)
  obtain ⟨seg, hseg, ps, hps, hmem⟩ := mem_of_mapM hpss hp
  exact rounded_of_splitIfLong (rounded_of_mem_place _ seg hseg) hps p hmem

theorem dedupeAfter_sublist (prev : Option Piece) (ps : List Piece) :
    (dedupeAfter prev ps).Sublist ps := by
  induction ps generalizing prev with
  | nil => exact List.Sublist.refl []
  | cons p ps ih =>
      rw [dedupeAfter]
      split
      · exact (ih prev).cons p
      · exact (ih (some p)).cons_cons p

theorem rounded_of_sentences {coarse : List Coarse} {out : List Piece}
    (h : sentenceAlignSegments coarse = .ok out) : ∀ p ∈ out, p.Rounded := by
  obtain ⟨pss, hpss, h⟩ := ok_of_bind h
  cases h
  intro p hp
  obtain ⟨c, -, ps, hps, hmem⟩ := mem_of_mapM hpss ((dedupeAfter_sublist none _).subset hp)
  exact rounded_of_alignOne hps p hmem

/-- **Well-formed times.** Where each sentence of a transcript starts when the one before it has
stopped, the words are sorted, none ends before it starts, they are those of the sentences, and
those of two sentences do not overlap. -/
theorem wellTimed_of_successive {segments : List Segment} {out : List Piece}
    (hout : sentenceAlignSegments
      ((chunk segments targetSeconds overlapSeconds).map ChunkDict.coarse) = .ok out)
    (h : Successive out) : WellTimed out :=
  wellTimed_of_rounded (rounded_of_sentences hout) h

/-- The sentences of `oneShared`. -/
def oneSharedSentences : List Piece :=
  [⟨.fin 0, .fin (105 / 2), ['B', 'i', 'e', 'n', '.']⟩,
    ⟨.fin (105 / 2), .fin 70, ['A', 'h', '.']⟩, ⟨.fin 71, .fin 80, ['F', 'i', 'n', 'i', '.']⟩]

theorem oneShared_wellTimed :
    sentenceAlignSegments ((chunk oneShared targetSeconds overlapSeconds).map ChunkDict.coarse) =
      .ok oneSharedSentences ∧ WellTimed oneSharedSentences := by
  have hout : sentenceAlignSegments
      ((chunk oneShared targetSeconds overlapSeconds).map ChunkDict.coarse) =
        .ok oneSharedSentences := by
    rw [chunk, runs, inOrder_of_pairwise (by simp [oneShared]; norm_num)]
    decide +kernel
  refine ⟨hout, wellTimed_of_successive hout ⟨?_, ?_⟩⟩
  · decide
  · decide +kernel

/-- **The two copies of an overlap** are given the same time. -/
theorem words_overlap : ¬ ∀ (segments : List Segment) (out : List Piece),
    sentenceAlignSegments ((chunk segments targetSeconds overlapSeconds).map ChunkDict.coarse) =
      .ok out → WellTimed out := by
  intro h
  have hover : (sentenceAlignSegments ((chunk twoShared targetSeconds overlapSeconds).map
      ChunkDict.coarse)).map (fun out => decide
        ((out.map segmentWords).Pairwise fun xs ys => ∀ x ∈ xs, ∀ y ∈ ys, x.e.le y.s = true)) =
      .ok false := by
    rw [chunk, runs, inOrder_of_pairwise (by simp [twoShared]; norm_num)]
    decide +kernel
  cases hout : sentenceAlignSegments
      ((chunk twoShared targetSeconds overlapSeconds).map ChunkDict.coarse) with
  | error e =>
      rw [hout] at hover
      cases hover
  | ok out =>
      rw [hout] at hover
      exact of_decide_eq_false (Except.ok.inj hover) (h twoShared out hout).apart

end MesReunions.Subtitles
