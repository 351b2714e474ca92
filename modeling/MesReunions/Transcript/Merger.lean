import Mathlib.Data.List.SplitBy
import MesReunions.Transcript.Written

/-!
# Merging a transcription with a diarization

`diarization_merger.py`: every Whisper segment is given to the speaker whose pyannote
interval overlaps it most, consecutive segments of one speaker make one block, and the
blocks are printed with their times.

* **`mergeLoop_eq`** — the loop's blocks are the maximal runs of one speaker.
* **`laysOut_merge`** — the text printed is those runs, one after the other.
* **`isClock_formatTime`** — a printed time has the shape of a time below one hour only.
-/

namespace MesReunions.Transcript

open Str Scan Sections

/-! ## The documents -/

/-- A field that should hold a number: missing, `null` or another falsy value, another
value that `float` refuses, or a number. -/
inductive Field where
  | absent
  | null
  | other
  | val (q : ℚ)
  deriving DecidableEq

/-- `float(obj.get(key, default))` -/
def Field.float? (x : Field) (default : ℚ) : Option ℚ :=
  match x with
  | absent => some default
  | null | other => none
  | val q => some q

/-- A segment of the `verbose_json` transcription. `text` is `str` of the field. -/
structure Segment where
  start : Field
  stop : Field
  text : Option Str

structure Transcription where
  segments : List Segment
  text : Option Str
  duration : Field

/-- A pyannote interval. The label may be missing or `null`. -/
structure DiarSegment where
  start : Field
  stop : Field
  speaker : Option (Option Str)

/-- `speaker_names.get` -/
abbrev Names := Str → Option Str

def speaker00 : Str := ['S', 'P', 'E', 'A', 'K', 'E', 'R', '_', '0', '0']

/-! ## The functions of the module -/

/-- `_to_display_label(raw_label)`: `$` also matches before a newline that ends the text. -/
def toDisplayLabel (raw : Str) : Str :=
  match (lit ['S', 'P', 'E', 'A', 'K', 'E', 'R', '_'] raw).bind (run1 isDigit) with
  | some (digits, rest) =>
      if rest = [] ∨ rest = ['\n'] then
        ['I', 'n', 't', 'e', 'r', 'v', 'e', 'n', 'a', 'n', 't', '_'] ++ digits
      else raw
  | none => raw

/-- `_format_time(seconds)` -/
def formatTime (seconds : ℚ) : Str :=
  let s := roundHalfEven seconds
  if s < 3600 then strOfInt (s / 60) ++ ':' :: pad2 (s % 60).toNat
  else strOfInt (s / 3600) ++ ':' :: (pad2 (s % 3600 / 60).toNat ++ ':' :: pad2 (s % 60).toNat)

/-- `_overlap(a_start, a_end, b_start, b_end)` -/
def overlap (aStart aEnd bStart bEnd : ℚ) : ℚ := max 0 (fl (min aEnd bEnd - max aStart bStart))

/-- `str(d.get("speaker") or "SPEAKER_00")` -/
def DiarSegment.label (d : DiarSegment) : Str :=
  match d.speaker with
  | some (some (c :: cs)) => c :: cs
  | _ => speaker00

/-- `_assign_speaker(segment_start, segment_end, diar_segments)`: the first of the largest
overlaps. -/
def assignSpeaker (start stop : ℚ) (diar : List DiarSegment) : Str :=
  (diar.foldl (fun (best : Str × ℚ) d =>
    match d.start.float? 0, d.stop.float? 0 with
    | some dStart, some dEnd =>
        let ov := overlap start stop dStart dEnd
        if best.2 < ov then (d.label, ov) else best
    | _, _ => best) (speaker00, 0)).1

/-- `speaker_names.get(raw) or _to_display_label(raw)` -/
def labelOf (names : Names) (raw : Str) : Str :=
  match names raw with
  | some (c :: cs) => c :: cs
  | _ => toDisplayLabel raw

/-- A segment that is kept: its times, its stripped text, its speaker. -/
structure Piece where
  raw : Str
  start : ℚ
  stop : ℚ
  text : Str
  deriving DecidableEq

/-- The body of the loop, up to the choice of the speaker. -/
def piece? (diar : List DiarSegment) (seg : Segment) : Option Piece := do
  let start ← seg.start.float? 0
  let stop ← seg.stop.float? start
  let text := strip (seg.text.getD [])
  if text = [] then none else some ⟨assignSpeaker start stop diar, start, stop, text⟩

/-- `" ".join(xs)` -/
def joinSpaces (xs : List Str) : Str := [' '].intercalate xs

/-- `current_speaker_raw`, `current_start`, `current_text` and `current_end`. -/
structure Current where
  raw : Str
  start : ℚ
  text : List Str
  stop : ℚ

/-- `_flush()` -/
def flush (names : Names) (current : Option Current) : List Written :=
  match current with
  | none => []
  | some c =>
      if c.text = [] then []
      else [⟨labelOf names c.raw, formatTime c.start, formatTime c.stop,
        joinSpaces ((c.text.map strip).filter fun s => !s.isEmpty)⟩]

/-- The rest of the loop, over the segments that are kept. -/
def mergeLoop (names : Names) : Option Current → List Piece → List Written
  | current, [] => flush names current
  | none, p :: ps => mergeLoop names (some ⟨p.raw, p.start, [p.text], p.stop⟩) ps
  | some c, p :: ps =>
      if p.raw ≠ c.raw then
        flush names (some c) ++ mergeLoop names (some ⟨p.raw, p.start, [p.text], p.stop⟩) ps
      else mergeLoop names (some { c with text := c.text ++ [p.text], stop := p.stop }) ps

/-- One block of the text. -/
def Written.print (w : Written) : Str := w.header ++ '\n' :: w.body

/-- The label of the block when the transcription has no segments. -/
def fallbackLabel (diar : List DiarSegment) (names : Names) : Str :=
  match diar.head?.map DiarSegment.speaker with
  | some (some none) => ['N', 'o', 'n', 'e']
  | some (some (some raw)) => labelOf names raw
  | _ => labelOf names speaker00

/-- `merge_to_markdown(transcription, diarization, speaker_names)`, or `none` when
`float(duration)` raises. -/
def mergeToMarkdown (t : Transcription) (diar : List DiarSegment) (names : Names) :
    Option Str :=
  if t.segments = [] then
    let text := strip (t.text.getD [])
    if text = [] then some []
    else do
      let duration ← t.duration.float? 0
      some ((⟨fallbackLabel diar names, ['0', ':', '0', '0'], formatTime duration, text⟩ :
        Written).print ++ ['\n'])
  else
    let blocks := mergeLoop names none (t.segments.filterMap (piece? diar))
    some (if blocks = [] then [] else ['\n', '\n'].intercalate (blocks.map Written.print) ++ ['\n'])

/-! ## What a merge says -/

/-- One speaker talks for a while. -/
structure Utterance where
  label : Str
  start : ℚ
  stop : ℚ
  texts : List Str
  deriving DecidableEq

def Utterance.text (u : Utterance) : Str := joinSpaces u.texts

/-- The block that stands for it. -/
def Utterance.written (u : Utterance) : Written :=
  ⟨u.label, formatTime u.start, formatTime u.stop, u.text⟩

def sameSpeaker (p q : Piece) : Bool := p.raw == q.raw

/-- A run of segments is one utterance, from the first start to the last end. -/
def utteranceOf (names : Names) : List Piece → Utterance
  | [] => ⟨[], 0, 0, []⟩
  | p :: ps => ⟨labelOf names p.raw, p.start, ((p :: ps).getLast (List.cons_ne_nil _ _)).stop,
      (p :: ps).map Piece.text⟩

/-- What the two documents say: the maximal runs of segments of one speaker, or the plain
text as a whole when there are no segments. -/
def utterances (t : Transcription) (diar : List DiarSegment) (names : Names) :
    List Utterance :=
  if t.segments = [] then
    let text := strip (t.text.getD [])
    match t.duration.float? 0 with
    | some duration => if text = [] then [] else [⟨fallbackLabel diar names, 0, duration, [text]⟩]
    | none => []
  else ((t.segments.filterMap (piece? diar)).splitBy sameSpeaker).map (utteranceOf names)

/-! ## The loop -/

/-- The accumulators after a run of segments. -/
def currentOf (p : Piece) (ps : List Piece) : Current :=
  ⟨p.raw, p.start, (p :: ps).map Piece.text,
    ((p :: ps).getLast (List.cons_ne_nil _ _)).stop⟩

theorem currentOf_concat (p : Piece) (ps : List Piece) (q : Piece) :
    currentOf p (ps ++ [q]) = { currentOf p ps with
      text := (currentOf p ps).text ++ [q.text], stop := q.stop } := by
  simp [currentOf]

/-- The texts that are kept: stripped, and not empty. -/
def Piece.Kept (p : Piece) : Prop := strip p.text = p.text ∧ p.text ≠ []

theorem kept_of_piece? {diar : List DiarSegment} {seg : Segment} {p : Piece}
    (h : piece? diar seg = some p) : p.Kept := by
  simp only [piece?, Option.bind_eq_bind, Option.bind_eq_some_iff] at h
  obtain ⟨start, -, stop, -, h⟩ := h
  split at h
  · cases h
  · rename_i hne
    injection h with h
    rw [← h]
    exact ⟨strip_strip _, hne⟩

theorem flush_currentOf (names : Names) {p : Piece} {ps : List Piece}
    (h : ∀ q ∈ p :: ps, q.Kept) :
    flush names (some (currentOf p ps)) = [(utteranceOf names (p :: ps)).written] := by
  have htexts : (((p :: ps).map Piece.text).map strip).filter (fun s => !s.isEmpty) =
      (p :: ps).map Piece.text := by
    have hstrip : ((p :: ps).map Piece.text).map strip = (p :: ps).map Piece.text := by
      rw [List.map_map]
      exact List.map_congr_left fun q hq => (h q hq).1
    rw [hstrip, List.filter_eq_self]
    intro x hx
    obtain ⟨q, hq, rfl⟩ := List.mem_map.mp hx
    simpa using (h q hq).2
  have hne : (currentOf p ps).text ≠ [] := by simp [currentOf]
  rw [flush, if_neg hne]
  exact congrArg (fun text => [(⟨_, _, _, joinSpaces text⟩ : Written)]) htexts

theorem splitBy_run {p : Piece} {run : List Piece} (h : ∀ q ∈ run, q.raw = p.raw) :
    (p :: run).splitBy sameSpeaker = [p :: run] := by
  have hall : ∀ q ∈ p :: run, q.raw = p.raw := fun q hq => by
    rcases List.mem_cons.mp hq with rfl | hq
    · rfl
    · exact h q hq
  refine List.splitBy_of_isChain (List.cons_ne_nil _ _)
    (List.Pairwise.isChain (List.pairwise_of_forall_mem_list fun a ha b hb => ?_))
  simp [sameSpeaker, hall a ha, hall b hb]

/-- A run of one speaker, with more of the same or another speaker after it. -/
theorem mergeLoop_current (names : Names) {ps : List Piece} (hps : ∀ q ∈ ps, q.Kept) :
    ∀ {p : Piece} {r : List Piece}, (∀ q ∈ p :: r, q.Kept) → (∀ q ∈ r, q.raw = p.raw) →
      mergeLoop names (some (currentOf p r)) ps =
        ((p :: r ++ ps).splitBy sameSpeaker).map fun g => (utteranceOf names g).written := by
  induction ps with
  | nil =>
      intro p r hrun hraw
      rw [mergeLoop, flush_currentOf names hrun, List.append_nil, splitBy_run hraw]
      rfl
  | cons q ps ih =>
      intro p r hrun hraw
      have hq := hps q List.mem_cons_self
      have hps := fun x hx => hps x (List.mem_cons_of_mem _ hx)
      by_cases hsame : q.raw = p.raw
      · -- The run goes on.
        rw [mergeLoop, if_neg (by simpa [currentOf] using hsame), ← currentOf_concat, ih hps]
        · simp
        · intro x hx
          rcases List.mem_append.mp (List.cons_append .. ▸ hx) with hx | hx
          · exact hrun x hx
          · rwa [List.mem_singleton.mp hx]
        · intro x hx
          rcases List.mem_append.mp hx with hx | hx
          · exact hraw x hx
          · rwa [List.mem_singleton.mp hx]
      · -- Another speaker: the run is printed.
        have hnew : mergeLoop names (some ⟨q.raw, q.start, [q.text], q.stop⟩) ps = _ :=
          ih hps (p := q) (r := []) (by simpa using hq) (by simp)
        have hlast : ∀ x ∈ (p :: r).getLast?, sameSpeaker x q = false := by
          intro x hx
          have hx : x.raw = p.raw := by
            rcases List.mem_cons.mp (List.mem_of_getLast? hx) with rfl | hx
            · rfl
            · exact hraw x hx
          simp [sameSpeaker, hx, Ne.symm hsame]
        rw [mergeLoop, if_pos (by simpa [currentOf] using hsame), flush_currentOf names hrun,
          hnew, List.splitBy_append_cons ps hlast, splitBy_run hraw]
        rfl

/-- **The loop.** Its blocks are the maximal runs of one speaker. -/
theorem mergeLoop_eq (names : Names) {ps : List Piece} (hps : ∀ q ∈ ps, q.Kept) :
    mergeLoop names none ps =
      (ps.splitBy sameSpeaker).map fun g => (utteranceOf names g).written := by
  cases ps with
  | nil => rfl
  | cons p ps =>
      exact mergeLoop_current names (fun q hq => hps q (List.mem_cons_of_mem _ hq))
        (p := p) (r := []) (by simpa using hps p List.mem_cons_self) (by simp)

/-! ## Times -/

theorem digits_strOfNat (n : Nat) : Digits .py (strOfNat n) :=
  ⟨strOfNat_ne_nil n, fun _ hc => isDigit_of_js (js_of_mem_strOfNat hc)⟩

theorem digits_pad2 (n : Nat) : Digits .py (pad2 n) :=
  ⟨pad2_ne_nil n, fun _ hc => isDigit_of_js (js_of_mem_pad2 hc)⟩

/-- A time below one hour. -/
theorem formatTime_of_lt {q : ℚ} {n : Nat} (h : roundHalfEven q = n) (hn : n < 3600) :
    formatTime q = clockText (strOfNat (n / 60)) (pad2 (n % 60)) := by
  have hlt : ((n : Int) < 3600) := by omega
  simp only [formatTime, h, if_pos hlt]
  rw [show (n : Int) / 60 = ((n / 60 : Nat) : Int) from rfl, strOfInt_natCast,
    show (n : Int) % 60 = ((n % 60 : Nat) : Int) from rfl, Int.toNat_natCast]
  rfl

theorem formatTime_zero : formatTime 0 = ['0', ':', '0', '0'] :=
  formatTime_of_lt (n := 0) (roundHalfEven_intCast 0) (by decide)

theorem secondsValue_digits {x : Str} (h : Digits .py x) : secondsValue x = natOfDigits x := by
  have hall : ∀ c ∈ x, (c != '.') = true := by
    intro c hc
    simp only [bne_iff_ne, ne_eq]
    rintro rfl
    have hdot := h.all '.' hc
    cases hdot
  rw [secondsValue, List.takeWhile_eq_self_iff.mpr hall, List.dropWhile_eq_nil_iff.mpr hall]
  simp [natOfDigits]

/-- A time below one hour is read as the seconds it shows. -/
theorem clockReads_formatTime {q : ℚ} {n : Nat} (h : roundHalfEven q = n) (hn : n < 3600) :
    ClockReads (formatTime q) (.fin n) := by
  rw [formatTime_of_lt h hn, clockReads_clockText (digits_strOfNat _)
    ⟨_, digits_pad2 _, Or.inl rfl⟩, clockTime]
  have hlen : (strOfNat (n / 60)).length ≤ maxStrDigits :=
    le_trans (length_strOfNat_le (k := 2) (by decide) (by omega)) (by decide)
  have hover : ¬ overflowAt ≤ ((n / 60 * 60 : Nat) : ℚ) := by
    refine not_le.mpr (lt_trans ?_ overflowAt_gt)
    exact_mod_cast (show n / 60 * 60 < 2 ^ 53 by omega)
  rw [if_neg (by omega), secondsValue_digits (digits_pad2 _), natOfDigits_pad2, natOfDigits_strOfNat]
  dsimp only
  rw [if_neg hover, PyFloat.ofRat_natCast (by omega),
    PyFloat.ofRat_natCast (by omega), PyFloat.add, ← Nat.cast_add,
    PyFloat.ofRat_natCast (by omega)]
  congr 3
  omega

/-- **Times from one hour on are printed in a shape that no header has.** -/
theorem isClock_formatTime {q : ℚ} :
    IsClock (formatTime q) ↔ 0 ≤ roundHalfEven q ∧ roundHalfEven q < 3600 := by
  constructor
  · intro h
    by_contra hr
    rw [not_and_or, not_le, not_lt] at hr
    rcases hr with hneg | hlong
    · -- A sign comes first.
      obtain ⟨c, hc, hdigit⟩ := h.head
      have hminus : formatTime q = '-' :: (strOfNat (roundHalfEven q / 60).natAbs ++
          ':' :: pad2 (roundHalfEven q % 60).toNat) := by
        simp only [formatTime, if_pos (show roundHalfEven q < 3600 by omega), strOfInt,
          if_pos (show roundHalfEven q / 60 < 0 by omega)]
        rfl
      rw [hminus, List.head?_cons, Option.some.injEq] at hc
      rw [← hc] at hdigit
      cases hdigit
    · -- There is a second colon.
      obtain ⟨m, s, hm, hs, htext⟩ := h
      obtain ⟨k, hk⟩ := Int.eq_ofNat_of_zero_le (show 0 ≤ roundHalfEven q / 3600 by omega)
      simp only [formatTime, if_neg (show ¬ roundHalfEven q < 3600 by omega), hk,
        strOfInt_natCast] at htext
      obtain ⟨-, rfl⟩ := clockText_inj (digits_strOfNat k) hm htext
      rcases seconds_chars hs ':' (by simp) with hdigit | hdot
      · cases hdigit
      · revert hdot
        decide
  · rintro ⟨hpos, hlt⟩
    obtain ⟨n, hn⟩ := Int.eq_ofNat_of_zero_le hpos
    exact (clockReads_formatTime hn (by omega)).isClock

theorem formatTime_stamp (q : ℚ) : ∀ c ∈ formatTime q, isStampChar c = true := by
  have hint : ∀ (n : Int), ∀ c ∈ strOfInt n, isStampChar c = true := by
    intro n c hc
    rcases mem_strOfInt hc with h | rfl
    · exact isStampChar_of_digit (isDigit_of_js h)
    · simp [isStampChar]
  have hpad : ∀ (n : Nat), ∀ c ∈ pad2 n, isStampChar c = true := fun n c hc =>
    isStampChar_of_digit ((digits_pad2 n).all c hc)
  have hcolon : isStampChar ':' = true := by simp [isStampChar]
  simp only [formatTime]
  intro c hc
  split at hc
  · rcases List.mem_append.mp hc with hc | hc
    · exact hint _ c hc
    · rcases List.mem_cons.mp hc with rfl | hc
      · exact hcolon
      · exact hpad _ c hc
  · rcases List.mem_append.mp hc with hc | hc
    · exact hint _ c hc
    · rcases List.mem_cons.mp hc with rfl | hc
      · exact hcolon
      · rcases List.mem_append.mp hc with hc | hc
        · exact hpad _ c hc
        · rcases List.mem_cons.mp hc with rfl | hc
          · exact hcolon
          · exact hpad _ c hc

theorem stamped_written (u : Utterance) : u.written.Stamped :=
  ⟨formatTime_stamp u.start, formatTime_stamp u.stop⟩

/-! ## The text -/

theorem marked_print (w : Written) : marked w.print = w.marks := marked_append _ _

theorem contentLines_print (w : Written) :
    contentLines w.print = contentLines w.header ++ contentLines w.body :=
  contentLines_append _ _

/-- Blocks two line breaks apart, and a line break at the end. -/
theorem contentLines_intercalate (ws : List Written) :
    contentLines (['\n', '\n'].intercalate (ws.map Written.print) ++ ['\n']) =
      ws.flatMap fun w => contentLines w.print := by
  rw [contentLines_append, contentLines_nil, List.append_nil]
  induction ws with
  | nil => exact contentLines_nil
  | cons w ws ih =>
      cases ws with
      | nil => simp
      | cons v ws =>
          rw [List.map_cons, List.map_cons, List.intercalate_cons_cons, List.append_assoc,
            List.cons_append, contentLines_append, ← List.map_cons, List.cons_append,
            List.nil_append, show '\n' :: ['\n', '\n'].intercalate ((v :: ws).map Written.print) =
              [] ++ '\n' :: _ from rfl, contentLines_append, contentLines_nil, ih]
          rfl

/-- **What a merge prints.** -/
theorem contentLines_merge {t : Transcription} {diar : List DiarSegment} {names : Names}
    {text : Str} (h : mergeToMarkdown t diar names = some text) : contentLines text =
      ((utterances t diar names).map Utterance.written).flatMap fun w => contentLines w.print := by
  rw [mergeToMarkdown] at h
  rw [utterances]
  split at h
  · rename_i hnil
    rw [if_pos hnil]
    dsimp only at h ⊢
    split at h
    · rename_i htext
      injection h with h
      rw [← h, contentLines_nil]
      split <;> simp [htext]
    · rename_i htext
      simp only [Option.bind_eq_bind, Option.bind_eq_some_iff, Option.some.injEq] at h
      obtain ⟨duration, hduration, rfl⟩ := h
      rw [hduration]
      dsimp only
      rw [if_neg htext, contentLines_append, contentLines_nil, List.append_nil]
      simp [Utterance.written, Utterance.text, joinSpaces, formatTime_zero]
  · rename_i hnil
    rw [if_neg hnil]
    have hkept : ∀ q ∈ t.segments.filterMap (piece? diar), q.Kept := by
      intro q hq
      obtain ⟨seg, -, hseg⟩ := List.mem_filterMap.mp hq
      exact kept_of_piece? hseg
    have hblocks := mergeLoop_eq names hkept
    injection h with h
    rw [← h, List.map_map]
    split
    · rename_i hempty
      rw [hempty] at hblocks
      rw [contentLines_nil, show (Utterance.written ∘ utteranceOf names) =
        fun g => (utteranceOf names g).written from rfl, ← hblocks]
      rfl
    · rw [contentLines_intercalate, hblocks]
      rfl

/-- The blocks printed, in the order of what is said. -/
theorem laysOut_merge {t : Transcription} {diar : List DiarSegment} {names : Names} {text : Str}
    (h : mergeToMarkdown t diar names = some text) :
    LaysOut text ((utterances t diar names).map Utterance.written) := by
  rw [LaysOut, marked_eq, contentLines_merge h, List.filter_flatMap]
  exact List.flatMap_congr fun w _ => (marked_eq _).symm.trans (marked_print w)

end MesReunions.Transcript
