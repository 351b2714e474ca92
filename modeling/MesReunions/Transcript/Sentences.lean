import MesReunions.Transcript.Merger

/-!
# Transcripts of subtitles

`external_source.py`, `format_speaker_tagged_from_sentences`: one block a sentence, all of
one fictitious speaker, with times to the hundredth.

* **`laysOut_sentences`** — the text printed is the sentences, one after the other.
* **`exists_clockReads_fmt`** — a time that is not negative is printed so that it can be
  read.
-/

namespace MesReunions.Transcript

open Str

/-! ## The writer -/

/-- A sentence; an empty text counts as none. -/
structure Sentence where
  text : Option Str
  start : Field
  stop : Field

/-- `float(obj.get(key) or default)` -/
def Field.floatOr? (x : Field) (default : ℚ) : Option ℚ :=
  match x with
  | absent | null => some default
  | other => none
  | val q => some (if q = 0 then default else q)

/-- The integer part, towards zero. -/
def truncate (q : ℚ) : Int := if q < 0 then ⌈q⌉ else ⌊q⌋

/-- `t // 60` on floats: the remainder is exact, the rest is rounded. -/
def floorDiv60 (t : ℚ) : Int :=
  let r := t - 60 * truncate (t / 60)
  let div := fl (fl (t - r) / 60)
  let div := if r < 0 then fl (div - 1) else div
  if 1 / 2 < fl (div - ⌊div⌋) then ⌊div⌋ + 1 else ⌊div⌋

/-- `f"{s:05.2f}"` -/
def fixed2 (s : ℚ) : Str :=
  let cents := (roundHalfEven (100 * |s|)).toNat
  if s < 0 then '-' :: (strOfNat (cents / 100) ++ '.' :: pad2 (cents % 100))
  else pad2 (cents / 100) ++ '.' :: pad2 (cents % 100)

/-- `f"{m}:{t - m * 60:05.2f}"`, for `m * 60` as a float. -/
def fmtOf (t : ℚ) (m : Int) : PyFloat → Option Str
  | .fin x => some (strOfInt m ++ ':' :: fixed2 (fl (t - x)))
  | _ => none

/-- `_fmt(t)`, or `none` when `m * 60` overflows as a float. -/
def fmt (t : ℚ) : Option Str := fmtOf t (floorDiv60 t) (.ofRat (floorDiv60 t * 60 : Int))

/-- A sentence that is kept: its text and its times. -/
def Sentence.kept? (seg : Sentence) : Option (Str × ℚ × ℚ) := do
  let text := strip (seg.text.getD [])
  if text = [] then none
  else
    let start ← seg.start.floatOr? 0
    let stop ← seg.stop.floatOr? start
    some (text, start, stop)

/-- The blocks of the sentences. -/
def sentenceBlocks (sentences : List Sentence) (label : Str) : Option (List Written) :=
  (sentences.filterMap Sentence.kept?).mapM fun k => do
    let start ← fmt k.2.1
    let stop ← fmt k.2.2
    some ⟨label, start, stop, k.1⟩

/-- `format_speaker_tagged_from_sentences(sentences, speaker_label)` -/
def formatSpeakerTagged (sentences : List Sentence) (label : Str) : Option Str := do
  let blocks ← sentenceBlocks sentences label
  some (rstrip (joinLines (blocks.flatMap fun w => [w.header, w.body, []])) ++ ['\n'])

/-! ## What it prints -/

theorem laysOut_sentences {sentences : List Sentence} {label text : Str} {ws : List Written}
    (hblocks : sentenceBlocks sentences label = some ws)
    (h : formatSpeakerTagged sentences label = some text) : LaysOut text ws := by
  simp only [formatSpeakerTagged, hblocks, Option.bind_eq_bind, Option.bind_some,
    Option.some.injEq] at h
  rw [LaysOut, ← h, marked_append, marked_nil, List.append_nil, marked_rstrip, marked_joinLines,
    List.flatMap_assoc]
  refine List.flatMap_congr fun w _ => ?_
  simp [Written.marks]

theorem fmt_stamp {t : ℚ} {x : Str} (h : fmt t = some x) : ∀ c ∈ x, isStampChar c = true := by
  have hdigit : ∀ {c : Char}, isDigitJs c = true → isStampChar c = true := fun h =>
    isStampChar_of_digit (isDigit_of_js h)
  have hfixed : ∀ s : ℚ, ∀ c ∈ fixed2 s, isStampChar c = true := by
    intro s c hc
    simp only [fixed2] at hc
    split at hc
    · simp only [List.mem_cons, List.mem_append] at hc
      rcases hc with rfl | hc | rfl | hc
      · rfl
      · exact hdigit (js_of_mem_strOfNat hc)
      · rfl
      · exact hdigit (js_of_mem_pad2 hc)
    · simp only [List.mem_cons, List.mem_append] at hc
      rcases hc with hc | rfl | hc
      · exact hdigit (js_of_mem_pad2 hc)
      · rfl
      · exact hdigit (js_of_mem_pad2 hc)
  rw [fmt] at h
  generalize PyFloat.ofRat (floorDiv60 t * 60 : Int) = f at h
  cases f with
  | fin q =>
      rw [fmtOf] at h
      injection h with h
      subst h
      intro c hc
      simp only [List.mem_cons, List.mem_append] at hc
      rcases hc with hc | rfl | hc
      · rcases mem_strOfInt hc with hc | rfl
        · exact hdigit hc
        · rfl
      · rfl
      · exact hfixed _ c hc
  | inf _ => cases h
  | nan => cases h

theorem sentenceBlocks_stamped {sentences : List Sentence} {label : Str} {ws : List Written}
    (h : sentenceBlocks sentences label = some ws) : ∀ w ∈ ws, w.Stamped := by
  rw [sentenceBlocks] at h
  generalize sentences.filterMap Sentence.kept? = kept at h
  induction kept generalizing ws with
  | nil => simp at h; simp [h]
  | cons k kept ih =>
      simp only [List.mapM_cons, Option.bind_eq_bind, Option.bind_eq_some_iff,
        Option.pure_def, Option.some.injEq] at h
      obtain ⟨w, ⟨start, hstart, stop, hstop, rfl⟩, ws', hws, rfl⟩ := h
      intro v hv
      rcases List.mem_cons.mp hv with rfl | hv
      · exact ⟨fmt_stamp hstart, fmt_stamp hstop⟩
      · exact ih hws v hv

/-! ## Times that can be read -/

theorem floorDiv60_eq {t : ℚ} (hpos : 0 ≤ t) (hlt : t < 2 ^ 53) :
    ∃ n : Nat, floorDiv60 t = n ∧ n * 60 < 2 ^ 53 ∧ ((n * 60 : Nat) : ℚ) ≤ t ∧
      t < ((n * 60 + 60 : Nat) : ℚ) := by
  obtain ⟨n, hn⟩ := Int.eq_ofNat_of_zero_le (Int.floor_nonneg.mpr (show 0 ≤ t / 60 by positivity))
  have hle : (n : ℚ) ≤ t / 60 := by
    have hfloor := Int.floor_le (t / 60)
    rw [hn] at hfloor
    exact_mod_cast hfloor
  have hsmall : n * 60 < 2 ^ 53 := by
    have hq : (n : ℚ) * 60 < 2 ^ 53 := lt_of_le_of_lt (by linarith) hlt
    exact_mod_cast hq
  have hnext : t / 60 < (n : ℚ) + 1 := by
    have hfloor := Int.lt_floor_add_one (t / 60)
    rw [hn] at hfloor
    exact_mod_cast hfloor
  refine ⟨n, ?_, hsmall, by push_cast; linarith, by push_cast; linarith⟩
  have htrunc : truncate (t / 60) = n := by
    rw [truncate, if_neg (not_lt.mpr (by positivity)), hn]
  have hwhole : t - (t - 60 * (n : ℚ)) = ((n * 60 : Nat) : ℚ) := by
    push_cast
    ring
  have hdiv : ((n * 60 : Nat) : ℚ) / 60 = n := by
    push_cast
    ring
  have hrem : ¬ t - 60 * (n : ℚ) < 0 := by
    rw [not_lt]
    linarith
  simp only [floorDiv60, htrunc, Int.cast_natCast, hwhole, fl_natCast hsmall, hdiv, if_neg hrem,
    fl_natCast (show n < 2 ^ 53 by omega), Int.floor_natCast, sub_self]
  rw [show fl 0 = 0 by exact_mod_cast fl_natCast (n := 0) (by decide), if_neg (by norm_num)]

theorem seconds_fixed2 {s : ℚ} (h : 0 ≤ s) : Seconds .py (fixed2 s) := by
  simp only [fixed2, if_neg (not_lt.mpr h)]
  exact ⟨_, digits_pad2 _, Or.inr ⟨_, digits_pad2 _, rfl⟩⟩

/-- **A time that is not negative can be read.** -/
theorem exists_clockReads_fmt {t : ℚ} (hpos : 0 ≤ t) (hlt : t < 2 ^ 53) :
    ∃ x v, fmt t = some x ∧ ClockReads x v := by
  obtain ⟨n, hn, hsmall, hle, -⟩ := floorDiv60_eq hpos hlt
  have hcast : (((n : Int) * 60 : Int) : ℚ) = ((n * 60 : Nat) : ℚ) := by push_cast; ring
  refine ⟨clockText (strOfNat n) (fixed2 (fl (t - (n * 60 : Nat)))),
    .add (.ofRat (n * 60 : Nat)) (.ofRat (secondsValue (fixed2 (fl (t - (n * 60 : Nat)))))), ?_, ?_⟩
  · rw [fmt, hn, hcast, PyFloat.ofRat_natCast hsmall, fmtOf, strOfInt_natCast]
    rfl
  · rw [clockReads_clockText (digits_strOfNat n) (seconds_fixed2 (fl_nonneg (by linarith))),
      clockTime, natOfDigits_strOfNat]
    have hlen : (strOfNat n).length ≤ maxStrDigits :=
      le_trans (length_strOfNat_le (k := 16) (by decide) (by omega)) (by decide)
    have hover : ¬ overflowAt ≤ ((n * 60 : Nat) : ℚ) :=
      not_le.mpr (lt_trans (by exact_mod_cast hsmall) overflowAt_gt)
    rw [if_neg (by omega)]
    dsimp only
    rw [if_neg hover]

end MesReunions.Transcript
