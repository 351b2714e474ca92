import MesReunions.Transcript.Merger

/-!
# A merged transcript, parsed again

`merge_to_markdown` prints utterances; `_reparse_speaker_tagged_blocks` should return
them.

* **`sameAs_of_plain`** — a plain utterance is read as it was said.
* **`heads_of_length`** — as many blocks as utterances means every header was recognised.
* **`roundTrips_iff`** — the round trip holds exactly when every utterance is plain.
* **`hour_not_roundTrips`** — it fails from the first hour on.
-/

namespace MesReunions.Transcript

open Str Sections

/-! ## Joined texts -/

theorem joinSpaces_cons {xs : List Str} (h : xs ≠ []) (x : Str) :
    joinSpaces (x :: xs) = x ++ ' ' :: joinSpaces xs := by
  simp [joinSpaces, List.intercalate_cons_of_ne_nil h]

@[simp] theorem joinSpaces_singleton (x : Str) : joinSpaces [x] = x := by
  simp [joinSpaces, List.intercalate]

theorem mem_joinSpaces {c : Char} (hc : c ≠ ' ') {xs : List Str} :
    c ∈ joinSpaces xs ↔ ∃ x ∈ xs, c ∈ x := by
  induction xs with
  | nil => simp [joinSpaces, List.intercalate]
  | cons x xs ih =>
      by_cases hxs : xs = []
      · subst hxs
        simp
      · simp [joinSpaces_cons hxs, ih, hc]

/-- Stripped texts, joined, are a stripped text. -/
theorem strip_joinSpaces {xs : List Str} (h : ∀ x ∈ xs, strip x = x ∧ x ≠ []) :
    strip (joinSpaces xs) = joinSpaces xs := by
  have hr : ∀ {xs : List Str}, xs ≠ [] → (∀ x ∈ xs, strip x = x ∧ x ≠ []) →
      rstrip (joinSpaces xs) = joinSpaces xs ∧ joinSpaces xs ≠ [] := by
    intro xs
    induction xs with
    | nil => exact fun hne => absurd rfl hne
    | cons x xs ih =>
        intro _ h
        obtain ⟨hx, hxne⟩ := h x List.mem_cons_self
        have hxr : rstrip x = x := by rw [← hx, rstrip_strip]
        by_cases hxs : xs = []
        · subst hxs
          rw [joinSpaces_singleton]
          exact ⟨hxr, hxne⟩
        · obtain ⟨hjoin, hne⟩ := ih hxs fun y hy => h y (List.mem_cons_of_mem _ hy)
          have hblank : rstrip (' ' :: joinSpaces xs) = ' ' :: joinSpaces xs := by
            have happ := rstrip_append (s := [' ']) (hjoin.symm ▸ hne)
            rwa [hjoin] at happ
          rw [joinSpaces_cons hxs]
          refine ⟨?_, by simp⟩
          rw [rstrip_append (by rw [hblank]; exact List.cons_ne_nil _ _), hblank]
  cases xs with
  | nil => simp [joinSpaces, List.intercalate]
  | cons x xs =>
      refine strip_eq_self_of_ends ?_ (hr (List.cons_ne_nil _ _) h).1
      obtain ⟨hx, hxne⟩ := h x List.mem_cons_self
      obtain ⟨c, cs, rfl⟩ := List.exists_cons_of_ne_nil hxne
      have hc : isSpace c = false := by
        refine lstrip_head_not (s := c :: cs) ?_
        rw [← hx, lstrip_strip, hx]
        rfl
      by_cases hxs : xs = []
      · subst hxs
        rw [joinSpaces_singleton, lstrip_of_head hc]
      · rw [joinSpaces_cons hxs, List.cons_append, lstrip_of_head hc]

theorem strip_utterance {t : Transcription} {diar : List DiarSegment} {names : Names}
    {u : Utterance} (hu : u ∈ utterances t diar names) : strip u.text = u.text := by
  rw [utterances] at hu
  split at hu
  · dsimp only at hu
    split at hu
    · split at hu
      · cases hu
      · rw [List.mem_singleton.mp hu, Utterance.text, joinSpaces_singleton, strip_strip]
    · cases hu
  · obtain ⟨g, hg, rfl⟩ := List.mem_map.mp hu
    obtain ⟨p, ps, rfl⟩ := List.exists_cons_of_ne_nil (List.ne_nil_of_mem_splitBy hg)
    refine strip_joinSpaces fun x hx => ?_
    obtain ⟨q, hq, rfl⟩ := List.mem_map.mp hx
    have hmem : q ∈ t.segments.filterMap (piece? diar) := by
      rw [← List.flatten_splitBy sameSpeaker (t.segments.filterMap (piece? diar))]
      exact List.mem_flatten_of_mem hg hq
    obtain ⟨seg, -, hseg⟩ := List.mem_filterMap.mp hmem
    exact kept_of_piece? hseg

/-! ## What a block says -/

/-- `" ".join(line.strip().lstrip(">").strip() for line in body_lines)` -/
def Block.text (b : Block) : Str :=
  joinSpaces (b.bodyLines.map fun l => strip (lstripChar '>' (strip l)))

@[simp] theorem text_trim (b : Block) : b.trim.text = b.text := by
  simp [Block.text, Block.trim, Function.comp_def]

/-- The line of a text says the text. -/
theorem strip_body (w : Written) : strip (lstripChar '>' (strip w.body)) = strip w.text := by
  have hmark : strip w.body = '>' :: rstrip (' ' :: w.text) := by
    rw [Written.body, strip, lstrip_of_head (by decide), rstrip_cons_of_not (by decide)]
  have hquote : lstripChar '>' (strip w.body) = rstrip (' ' :: w.text) := by
    rw [hmark, lstripChar, List.dropWhile_cons_of_pos (by decide)]
    by_cases htext : rstrip w.text = []
    · rw [show ' ' :: w.text = [' '] ++ w.text from rfl, rstrip_append_blank htext,
        show [' '] = [] ++ [' '] from rfl, rstrip_concat_of_space (by decide), rstrip_nil]
      rfl
    · rw [show ' ' :: w.text = [' '] ++ w.text from rfl, rstrip_append htext]
      rfl
  rw [hquote, strip_rstrip, strip_space_cons (by decide)]

/-- The block says what the utterance said. -/
structure Utterance.SameAs (u : Utterance) (b : Block) : Prop where
  speaker : b.speaker = u.label
  start : b.start = .fin (roundHalfEven u.start)
  stop : b.stop = .fin (roundHalfEven u.stop)
  text : b.text = u.text

/-- The parser returns the utterances that were printed, in order. -/
def RoundTrips (t : Transcription) (diar : List DiarSegment) (names : Names) : Prop :=
  ∀ text, mergeToMarkdown t diar names = some text →
    ∃ bs, reparse text = .ok bs ∧ List.Forall₂ Utterance.SameAs (utterances t diar names) bs

/-- The utterance can be printed as a block: the label is a stripped, non-empty line without
a star, no text goes over several lines, and it starts and ends within the first hour. -/
structure Utterance.Plain (u : Utterance) : Prop where
  label_ne : u.label ≠ []
  label_strip : strip u.label = u.label
  star : '*' ∉ u.label
  newline : '\n' ∉ u.label
  texts : ∀ x ∈ u.texts, '\n' ∉ x
  start : 0 ≤ roundHalfEven u.start ∧ roundHalfEven u.start < 3600
  stop : 0 ≤ roundHalfEven u.stop ∧ roundHalfEven u.stop < 3600

theorem clockReads_of_bounds {q : ℚ} (h : 0 ≤ roundHalfEven q ∧ roundHalfEven q < 3600) :
    ClockReads (formatTime q) (.fin (roundHalfEven q)) := by
  obtain ⟨n, hn⟩ := Int.eq_ofNat_of_zero_le h.1
  rw [hn]
  exact_mod_cast clockReads_formatTime hn (by omega)

theorem Utterance.Plain.clean {u : Utterance} (h : u.Plain) : u.written.Clean where
  label_ne := h.label_ne
  star := h.star
  newline := h.newline
  start := ⟨_, clockReads_of_bounds h.start⟩
  stop := ⟨_, clockReads_of_bounds h.stop⟩
  quoted := quoted_of_not_mem fun hmem => by
    obtain ⟨x, hx, hn⟩ := (mem_joinSpaces (by decide)).mp hmem
    exact h.texts x hx hn

theorem sameAs_of_plain {u : Utterance} (h : u.Plain) (hstrip : strip u.text = u.text)
    {b : Block} (hb : u.written.Is b) : u.SameAs b where
  speaker := hb.speaker.trans h.label_strip
  start := hb.start.unique (clockReads_of_bounds h.start)
  stop := hb.stop.unique (clockReads_of_bounds h.stop)
  text := by
    have hline : '\n' ∉ u.written.text := fun hmem => by
      obtain ⟨x, hx, hn⟩ := (mem_joinSpaces (by decide)).mp hmem
      exact h.texts x hx hn
    rw [Block.text, hb.bodyLines, spoken_of_not_mem hline, List.map_singleton,
      joinSpaces_singleton, strip_rstrip, strip_body]
    exact hstrip

/-! ## What a block cannot say -/

theorem newline_not_mem_text {b : Block} (h : b.WellFormed) : '\n' ∉ b.text := by
  intro hmem
  obtain ⟨x, hx, hn⟩ := (mem_joinSpaces (by decide)).mp hmem
  obtain ⟨l, hl, rfl⟩ := List.mem_map.mp hx
  exact (h.body l hl).2
    (mem_of_mem_strip ((List.dropWhile_suffix _).subset (mem_of_mem_strip hn)))

/-- A parsed speaker is a stripped line without a star. -/
theorem speaker_of_wellFormed {b : Block} (h : b.WellFormed) :
    strip b.speaker = b.speaker ∧ '*' ∉ b.speaker ∧ '\n' ∉ b.speaker := by
  obtain ⟨head, hre, hspeaker, -⟩ := headBlock_eq_some.mp h.head
  obtain ⟨hv, sp₁, sp₂, sp₃, rest, -, -, -, hline⟩ := headRe_eq_some.mp hre
  dsimp only at hspeaker
  rw [hspeaker]
  refine ⟨strip_strip _, fun hs => hv.speaker (mem_of_mem_strip hs), fun hn => ?_⟩
  have hmem : '\n' ∈ rstrip b.headerLine := by
    rw [hline, Head.text]
    simp [mem_of_mem_strip hn]
  exact h.header_line (mem_of_mem_rstrip hmem)

/-- **Counting headers.** Where no line goes astray, a block for every one written means
that every header is one. -/
theorem heads_of_length {text : Str} {ws : List Written} {bs : List Block}
    (hlay : LaysOut text ws) (hstamp : ∀ w ∈ ws, w.Stamped)
    (hline : ∀ w ∈ ws, '\n' ∉ w.label ∧ '\n' ∉ w.text) (hread : Reparses text bs)
    (hlen : ws.length = bs.length) : ∀ w ∈ ws, isHead w.header = true := by
  have hcount : ∀ w ∈ ws, w.marks.countP isHead = [w].countP fun w => isHead w.header := by
    intro w hw
    obtain ⟨hlabel, htext⟩ := hline w hw
    have hbody : isHead (rstrip w.body) = false := by
      rw [isHead_rstrip]
      exact isHead_of_isBody (isBody_body w)
    rw [Written.marks, marked_header (hstamp w hw) hlabel,
      marked_body (quoted_of_not_mem htext), spoken_of_not_mem htext, List.countP_append]
    cases hh : isHead w.header <;> simp [hh, hbody]
  have htotal : (marked text).countP isHead = ws.countP fun w => isHead w.header := by
    rw [hlay, List.countP_flatMap]
    clear hlay hread hlen hstamp hline
    induction ws with
    | nil => rfl
    | cons w ws ih =>
        rw [List.map_cons, List.sum_cons, ih fun v hv => hcount v (List.mem_cons_of_mem _ hv),
          Function.comp_apply, hcount w List.mem_cons_self, List.countP_cons, List.countP_cons]
        simp [Nat.add_comm]
  have hsections := (reparses_iff.mp hread).length_eq
  rw [length_cut, htotal, ← hlen, List.countP_eq_length] at hsections
  exact hsections

/-! ## The round trip -/

theorem utterances_eq_nil {t : Transcription} {diar : List DiarSegment} {names : Names}
    (h : mergeToMarkdown t diar names = none) : utterances t diar names = [] := by
  rw [mergeToMarkdown] at h
  split at h
  · rename_i hnil
    dsimp only at h
    split at h
    · cases h
    · rw [utterances, if_pos hnil]
      dsimp only
      cases hduration : t.duration.float? 0 with
      | none => rfl
      | some duration => rw [hduration] at h; cases h
  · cases h

theorem plain_of_sameAs {text : Str} {us : List Utterance} {bs : List Block}
    (hlay : LaysOut text (us.map Utterance.written)) (hread : reparse text = .ok bs)
    (hsame : List.Forall₂ Utterance.SameAs us bs) : ∀ u ∈ us, u.Plain := by
  have hline : ∀ u ∈ us, (strip u.label = u.label ∧ '*' ∉ u.label ∧ '\n' ∉ u.label) ∧
      '\n' ∉ u.text := by
    intro u hu
    obtain ⟨b, hb, hub⟩ := exists_of_forall₂ hsame.flip hu
    have hwf := reparse_wellFormed hread b hb
    rw [← hub.speaker, ← hub.text]
    exact ⟨speaker_of_wellFormed hwf, newline_not_mem_text hwf⟩
  have hheads := heads_of_length hlay (by simpa using fun u _ => stamped_written u)
    (by simpa using fun u hu => ⟨(hline u hu).1.2.2, (hline u hu).2⟩) ⟨bs, hread, rfl⟩
    (by simpa using hsame.length_eq)
  intro u hu
  obtain ⟨⟨hstrip, hstar, hnewline⟩, htext⟩ := hline u hu
  obtain ⟨hne, hstart, hstop⟩ := (isHead_header (stamped_written u) hstar).mp
    (hheads _ (List.mem_map_of_mem hu))
  refine ⟨hne, hstrip, hstar, hnewline, fun x hx hn => ?_, isClock_formatTime.mp hstart,
    isClock_formatTime.mp hstop⟩
  exact htext ((mem_joinSpaces (by decide)).mpr ⟨x, hx, hn⟩)

/-- **The round trip of a merged transcript.** The parser returns what was said exactly
when every utterance is plain. -/
theorem roundTrips_iff (t : Transcription) (diar : List DiarSegment) (names : Names) :
    RoundTrips t diar names ↔ ∀ u ∈ utterances t diar names, u.Plain := by
  cases hmerge : mergeToMarkdown t diar names with
  | none =>
      rw [utterances_eq_nil hmerge]
      constructor
      · exact fun _ u hu => absurd hu List.not_mem_nil
      · intro _ text htext
        rw [hmerge] at htext
        cases htext
  | some text =>
      have hlay := laysOut_merge hmerge
      constructor
      · intro h
        obtain ⟨bs, hread, hsame⟩ := h text hmerge
        exact plain_of_sameAs hlay hread hsame
      · intro h text' htext'
        rw [hmerge] at htext'
        injection htext' with htext'
        subst htext'
        obtain ⟨bs, ⟨blocks, hread, rfl⟩, his⟩ := reparses_of_clean hlay
          (by simpa using fun u _ => stamped_written u) (by simpa using fun u hu => (h u hu).clean)
        refine ⟨blocks, hread, ?_⟩
        rw [List.forall₂_map_left_iff, List.forall₂_map_right_iff] at his
        have hplain := (List.forall₂_and_left _ _).mpr
          ⟨fun u hu => (⟨h u hu, strip_utterance hu⟩ : u.Plain ∧ strip u.text = u.text), his⟩
        refine hplain.imp fun u b hub => ?_
        have hsame := sameAs_of_plain hub.1.1 hub.1.2 hub.2
        exact ⟨hsame.speaker, hsame.start, hsame.stop, by rw [← hsame.text, text_trim]⟩

/-- One segment that ends at the end of the first hour. -/
def hourLong : Transcription := ⟨[⟨.val 0, .val 3600, some ['B', 'o', 'n']⟩], none, .absent⟩

/-- Its end is printed `1:00:00`, and its only block is lost. -/
theorem hour_not_roundTrips : ¬ RoundTrips hourLong [] fun _ => none := by
  intro h
  obtain ⟨bs, hread, hsame⟩ := h _ rfl
  have hmem : (⟨labelOf (fun _ => none) speaker00, 0, 3600, [['B', 'o', 'n']]⟩ : Utterance) ∈
      utterances hourLong [] fun _ => none := List.mem_singleton.mpr rfl
  have hlt := (plain_of_sameAs (laysOut_merge rfl) hread hsame _ hmem).stop.2
  have hround : roundHalfEven 3600 = 3600 := roundHalfEven_intCast 3600
  rw [hround] at hlt
  exact absurd hlt (by decide)

end MesReunions.Transcript
