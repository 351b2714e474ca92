import MesReunions.Base.Rounding
import MesReunions.Transcript.RoundTrip
import MesReunions.Transcript.Sentences

/-!
# An imported transcript, parsed again

`format_speaker_tagged_from_sentences` prints sentences; `_reparse_speaker_tagged_blocks`
should return them.

* **`near_of_shown`** — a time whose whole minutes are not past it is read to the hundredth.
* **`readsBack_iff`** — the sentences come back exactly when each one is a single line and
  its times are shown.
* **`lines_not_readsBack`** — a caption on two lines loses its second line.
-/

namespace MesReunions.Transcript

open Str Scan

/-! ## Times -/

/-- A finite float that is not negative. -/
structure IsTime (t : ℚ) : Prop where
  nonneg : 0 ≤ t
  isFloat : IsFloat t
  finite : t < overflowAt

/-- The whole minutes of the time, `int(t // 60) * 60` as a float, are not past it. -/
def Shown (t : ℚ) : Prop :=
  ∃ x, PyFloat.ofRat (floorDiv60 t * 60 : Int) = .fin x ∧ x ≤ t

theorem lt_overflowAt : (2 : ℚ) ^ 54 < overflowAt := by
  have hsplit : overflowAt = 2 ^ 970 * (2 ^ 54 - 1) := by
    rw [overflowAt, mul_sub, mul_one, ← pow_add]
  rw [hsplit]
  calc (2 : ℚ) ^ 54 < 2 ^ 970 * 1 := by
        rw [mul_one]
        exact pow_lt_pow_right₀ (by norm_num) (by norm_num)
    _ ≤ 2 ^ 970 * (2 ^ 54 - 1) := mul_le_mul_of_nonneg_left (by norm_num) (by positivity)

theorem overflowAt_lt : overflowAt < 2 ^ 1024 := by
  rw [overflowAt]
  exact sub_lt_self _ (by positivity)

theorem fl_ge {q : ℚ} (h : 1 ≤ q) : q * (15 / 16) ≤ fl q := by
  have hpos : |q| = q := abs_of_pos (by linarith)
  have hround := abs_fl_sub_le_of_one_le (hpos.symm ▸ h)
  rw [hpos, abs_le] at hround
  have hsmall : q / 2 ^ 53 ≤ q / 16 := div_le_div_of_nonneg_left (by linarith) (by norm_num)
    (by norm_num)
  linarith [hround.1]

theorem floorDiv60_ge {t : ℚ} (h : 2 ^ 53 ≤ t) : t * (3 / 4) ≤ (floorDiv60 t : ℚ) * 60 := by
  have hbig : (1000000 : ℚ) ≤ t := le_trans (by norm_num) h
  have htrunc : truncate (t / 60) = ⌊t / 60⌋ := by
    rw [truncate, if_neg (not_lt.mpr (by linarith))]
  have hle := Int.floor_le (t / 60)
  have hlt := Int.lt_floor_add_one (t / 60)
  have hrem : ¬ t - 60 * (⌊t / 60⌋ : ℚ) < 0 := by
    rw [not_lt]
    linarith
  have hwhole := fl_ge (q := t - (t - 60 * (⌊t / 60⌋ : ℚ))) (by linarith)
  have hdiv := fl_ge (q := fl (t - (t - 60 * (⌊t / 60⌋ : ℚ))) / 60) (by linarith)
  have hfloor := Int.lt_floor_add_one (fl (fl (t - (t - 60 * (⌊t / 60⌋ : ℚ))) / 60))
  have hmin : (⌊fl (fl (t - (t - 60 * (⌊t / 60⌋ : ℚ))) / 60)⌋ : ℚ) ≤ floorDiv60 t := by
    simp only [floorDiv60, htrunc, if_neg hrem]
    split
    · push_cast
      linarith
    · exact le_refl _
  linarith

/-- A float from `2 ^ 52` on is whole. -/
theorem exists_int {t : ℚ} (h : IsFloat t) (hbig : 2 ^ 52 ≤ t) : ∃ n : Int, t = n := by
  have hpos : |t| = t := abs_of_pos (by linarith)
  obtain ⟨n, hn⟩ := h.exists_multiple_of_le (k := 52) (by rw [hpos]; exact_mod_cast hbig)
  exact ⟨n, by simpa using hn⟩

theorem shown_of_lt {t : ℚ} (hpos : 0 ≤ t) (hlt : t < 2 ^ 53) : Shown t := by
  obtain ⟨n, hn, hsmall, hle, -⟩ := floorDiv60_eq hpos hlt
  have hcast : (((n : Int) * 60 : Int) : ℚ) = ((n * 60 : Nat) : ℚ) := by push_cast; ring
  exact ⟨(n * 60 : Nat), by rw [hn, hcast, PyFloat.ofRat_natCast hsmall], hle⟩

/-! ## The hundredths -/

theorem secondsValue_fixed2 {s : ℚ} (h : 0 ≤ s) :
    secondsValue (fixed2 s) = (roundHalfEven (100 * s) : ℚ) / 100 := by
  obtain ⟨c, hc⟩ := Int.eq_ofNat_of_zero_le (roundHalfEven_nonneg (show 0 ≤ 100 * s by linarith))
  have hall : ∀ d ∈ pad2 (c / 100), (d != '.') = true := fun d hd => by
    have hdigit := js_of_mem_pad2 hd
    simp only [bne_iff_ne, ne_eq]
    rintro rfl
    cases hdigit
  have hlen : (pad2 (c % 100)).length = 2 := by
    have hcases : ∀ n < 100, (pad2 n).length = 2 := by decide +kernel
    exact hcases _ (Nat.mod_lt _ (by decide))
  have htake : (pad2 (c / 100) ++ '.' :: pad2 (c % 100)).takeWhile (· != '.') = pad2 (c / 100) := by
    rw [List.takeWhile_append_of_pos hall, List.takeWhile_cons_of_neg (by decide), List.append_nil]
  have hdrop : ((pad2 (c / 100) ++ '.' :: pad2 (c % 100)).dropWhile (· != '.')).drop 1 =
      pad2 (c % 100) := by
    rw [List.dropWhile_append_of_pos hall, List.dropWhile_cons_of_neg (by decide)]
    rfl
  simp only [fixed2, if_neg (not_lt.mpr h), abs_of_nonneg h, hc, Int.toNat_natCast, secondsValue,
    htake, hdrop, hlen, natOfDigits_pad2, Int.cast_natCast]
  have hdiv : (c : ℚ) = ((c / 100 : Nat) : ℚ) * 100 + ((c % 100 : Nat) : ℚ) := by
    exact_mod_cast (Nat.div_add_mod' c 100).symm
  rw [hdiv]
  norm_num
  ring

/-- What is read of a time that is shown. -/
theorem clockReads_of_shown {t : ℚ} (ht : IsTime t) (h : Shown t) :
    ∃ x text, PyFloat.ofRat (floorDiv60 t * 60 : Int) = .fin x ∧ x ≤ t ∧ fmt t = some text ∧
      ClockReads text (.add (.fin x) (.ofRat ((roundHalfEven (100 * fl (t - x)) : ℚ) / 100))) := by
  obtain ⟨x, hx, hle⟩ := h
  have hnat : ∃ n : Nat, floorDiv60 t = n := by
    rcases lt_or_ge t (2 ^ 53) with hlt | hge
    · obtain ⟨n, hn, -⟩ := floorDiv60_eq ht.nonneg hlt
      exact ⟨n, hn⟩
    · refine Int.eq_ofNat_of_zero_le ?_
      have hbig := floorDiv60_ge hge
      have hq : (0 : ℚ) ≤ floorDiv60 t := by linarith
      exact_mod_cast hq
  obtain ⟨n, hn⟩ := hnat
  have hcast : (((n : Int) * 60 : Int) : ℚ) = ((n * 60 : Nat) : ℚ) := by push_cast; ring
  rw [hn, hcast] at hx
  have hover : ¬ overflowAt ≤ ((n * 60 : Nat) : ℚ) := by
    intro hge
    rw [PyFloat.ofRat, if_pos (le_trans hge (le_abs_self _))] at hx
    cases hx
  have hlen : (strOfNat n).length ≤ maxStrDigits := by
    refine length_strOfNat_le (by decide) ?_
    have hlt : ((n * 60 : Nat) : ℚ) < 2 ^ 1024 := lt_trans (not_le.mp hover) overflowAt_lt
    have hnat : n * 60 < 2 ^ 1024 := by exact_mod_cast hlt
    calc n ≤ n * 60 := Nat.le_mul_of_pos_right n (by decide)
      _ < 2 ^ 1024 := hnat
      _ ≤ 10 ^ maxStrDigits := by decide +kernel
  have hsec : 0 ≤ fl (t - x) := fl_nonneg (by linarith)
  refine ⟨x, clockText (strOfNat n) (fixed2 (fl (t - x))), by rw [hn, hcast, hx], hle, ?_, ?_⟩
  · rw [fmt, hn, hcast, hx, fmtOf, strOfInt_natCast]
    rfl
  · rw [clockReads_clockText (digits_strOfNat n) (seconds_fixed2 hsec), clockTime,
      natOfDigits_strOfNat, if_neg (by omega)]
    dsimp only
    rw [if_neg hover, hx, secondsValue_fixed2 hsec]

/-- A float that is close to a number is close to what the number rounds to. -/
theorem fl_near {t y : ℚ} (ht : IsFloat t) (hpos : 0 ≤ t) (h : |y - t| ≤ 51 / 10000) :
    |fl y - t| < 1 / 100 := by
  have hbounds := abs_le.mp h
  by_cases hfine : ulp y ≤ 1 / 128
  · have hround := abs_fl_sub_le y
    calc |fl y - t| ≤ |fl y - y| + |y - t| := abs_sub_le _ _ _
      _ < 1 / 100 := by linarith
  · -- Floats are far apart there, and `t` is the nearest one.
    have hlog : 46 ≤ ilog2 y := by
      by_contra hsmall
      refine hfine ?_
      rw [ulp, show (1 : ℚ) / 128 = 2 ^ (-7 : Int) by norm_num]
      exact zpow_le_zpow_right₀ (by norm_num) (by omega)
    have hulp : ulp y = 2 ^ (ilog2 y - 52) := by rw [ulp, max_eq_left (by omega)]
    have hwide : (1 : ℚ) / 64 ≤ 2 ^ (ilog2 y - 52) := by
      rw [show (1 : ℚ) / 64 = 2 ^ (-6 : Int) by norm_num]
      exact zpow_le_zpow_right₀ (by norm_num) (by omega)
    have hne : y ≠ 0 := by
      rintro rfl
      have hzero : ilog2 0 = -1 := by decide
      omega
    have hsplit : (2 : ℚ) ^ ilog2 y = 2 ^ 53 * 2 ^ (ilog2 y - 53) := by
      rw [show ilog2 y = 53 + (ilog2 y - 53) by omega, zpow_add₀ (by norm_num)]
      norm_num
    have hhalf : (2 : ℚ) ^ (ilog2 y - 52) = 2 * 2 ^ (ilog2 y - 53) := by
      rw [show ilog2 y - 52 = 1 + (ilog2 y - 53) by omega, zpow_add₀ (by norm_num)]
      norm_num
    have hy : (2 : ℚ) ^ ilog2 y ≤ y := by
      have hlow := (ilog2_spec hne).1
      rcases abs_choice y with habs | habs
      · rwa [habs] at hlow
      · rw [habs] at hlow
        have hlarge : (1 : ℚ) ≤ 2 ^ ilog2 y := one_le_zpow₀ (by norm_num) (by omega)
        linarith
    obtain ⟨m, hm⟩ : ∃ m : Int, t = m * ulp y := by
      rw [hulp]
      rcases le_or_gt ((2 : ℚ) ^ ilog2 y) t with hle | hlt
      · exact ht.exists_multiple_of_le (by rwa [abs_of_nonneg hpos])
      · obtain ⟨m, hm⟩ := ht.exists_multiple_of_le (k := ilog2 y - 1) (by
          rw [abs_of_nonneg hpos, show ilog2 y - 1 = 52 + (ilog2 y - 53) by omega,
            zpow_add₀ (by norm_num)]
          norm_num
          nlinarith)
        rw [show ilog2 y - 1 - 52 = ilog2 y - 53 by omega] at hm
        have hgap : (m : ℚ) < 2 ^ 53 := by
          rw [hm, hsplit] at hlt
          exact lt_of_mul_lt_mul_right hlt (by positivity)
        have hint : m + 1 ≤ 2 ^ 53 := by exact_mod_cast hgap
        have hstep : ((m : ℚ) + 1) * 2 ^ (ilog2 y - 53) ≤ 2 ^ 53 * 2 ^ (ilog2 y - 53) :=
          mul_le_mul_of_nonneg_right (by exact_mod_cast hint) (by positivity)
        exfalso
        linarith
    rw [fl_eq_of_near (n := m) (by rw [← hm, hulp]; linarith), ← hm, sub_self, abs_zero]
    norm_num

/-- Below one minute, a number moves little when it is rounded. -/
theorem abs_fl_sub_le_of_minute {s : ℚ} (hpos : 0 ≤ s) (hlt : s < 64) :
    |fl s - s| ≤ 1 / 2 ^ 48 := by
  have hulp := ulp_le_of_lt (q := s) (k := 6) (by norm_num) (by
    rw [abs_of_nonneg hpos]
    norm_num
    exact hlt)
  calc |fl s - s| ≤ ulp s / 2 := abs_fl_sub_le s
    _ ≤ 1 / 2 ^ 48 := by norm_num at hulp ⊢; linarith

/-- The seconds of a time, displayed: they stay within half a hundredth. -/
theorem hundredths_near {s : ℚ} (hpos : 0 ≤ s) (hlt : s < 60) :
    (roundHalfEven (100 * fl s) : ℚ) / 100 < 64 ∧
      |fl ((roundHalfEven (100 * fl s) : ℚ) / 100) - s| ≤ 51 / 10000 := by
  have hround := abs_le.mp (abs_fl_sub_le_of_minute hpos (by linarith))
  have hcents := abs_le.mp (abs_roundHalfEven_sub_le (100 * fl s))
  have hnonneg : (0 : ℚ) ≤ roundHalfEven (100 * fl s) := by
    exact_mod_cast roundHalfEven_nonneg (show 0 ≤ 100 * fl s by linarith [fl_nonneg hpos])
  have hlt' : (roundHalfEven (100 * fl s) : ℚ) / 100 < 64 := by
    norm_num at hround
    linarith
  have hsec := abs_le.mp (abs_fl_sub_le_of_minute (by linarith) hlt')
  refine ⟨hlt', ?_⟩
  rw [abs_le]
  norm_num at hround hsec ⊢
  constructor <;> linarith

theorem PyFloat.ofRat_of_lt {q : ℚ} (hpos : 0 ≤ q) (hlt : q < overflowAt) :
    PyFloat.ofRat q = .fin (fl q) := by
  rw [PyFloat.ofRat, if_neg (by rw [abs_of_nonneg hpos]; exact not_le.mpr hlt)]

theorem PyFloat.eq_of_ofRat {q x : ℚ} (h : PyFloat.ofRat q = .fin x) : x = fl q := by
  rw [PyFloat.ofRat] at h
  split at h
  · cases h
  · injection h with h
    exact h.symm

/-- **A time that is shown is read to the hundredth.** -/
theorem near_of_shown {t : ℚ} (ht : IsTime t) (h : Shown t) :
    ∃ text v, fmt t = some text ∧ ClockReads text (.fin v) ∧ |v - t| < 1 / 100 := by
  obtain ⟨x, text, hx, hle, hfmt, hread⟩ := clockReads_of_shown ht h
  have hover := lt_overflowAt
  have hcents : (0 : ℚ) ≤ (roundHalfEven (100 * fl (t - x)) : ℚ) / 100 := by
    have hnonneg := fl_nonneg (show 0 ≤ t - x by linarith)
    have hround : (0 : ℚ) ≤ roundHalfEven (100 * fl (t - x)) := by
      exact_mod_cast roundHalfEven_nonneg (show 0 ≤ 100 * fl (t - x) by linarith)
    linarith
  rcases lt_or_ge t (2 ^ 53) with hlt | hge
  · obtain ⟨n, hn, hsmall, hlow, hhigh⟩ := floorDiv60_eq ht.nonneg hlt
    have hcast : (((n : Int) * 60 : Int) : ℚ) = ((n * 60 : Nat) : ℚ) := by push_cast; ring
    rw [hn, hcast, PyFloat.ofRat_natCast hsmall] at hx
    injection hx with hx
    subst hx
    obtain ⟨hc, hnear⟩ := hundredths_near (s := t - ((n * 60 : Nat) : ℚ)) (by linarith)
      (by push_cast at hhigh ⊢; linarith)
    have hbounds := abs_le.mp hnear
    set c : ℚ := (roundHalfEven (100 * fl (t - ((n * 60 : Nat) : ℚ))) : ℚ) / 100
    have hsum : |((n * 60 : Nat) : ℚ) + fl c - t| ≤ 51 / 10000 := by
      rw [abs_le]
      constructor <;> linarith
    have hpos : (0 : ℚ) ≤ (n * 60 : Nat) := by positivity
    rw [PyFloat.ofRat_of_lt hcents (by norm_num at hover; linarith), PyFloat.add,
      PyFloat.ofRat_of_lt (by linarith [fl_nonneg hcents]) (by norm_num at hover hlt; linarith)]
      at hread
    exact ⟨text, _, hfmt, hread, fl_near ht.isFloat ht.nonneg hsum⟩
  · -- The seconds are whole, and nothing is rounded.
    have hmin := floorDiv60_ge hge
    have hmin1 : (1 : ℚ) ≤ ((floorDiv60 t * 60 : Int) : ℚ) := by
      push_cast
      norm_num at hge
      linarith
    have hhalf : t ≤ 2 * x := by
      have hfl := fl_ge hmin1
      rw [← PyFloat.eq_of_ofRat hx] at hfl
      push_cast at hfl
      linarith
    have hx52 : 2 ^ 52 ≤ x := by
      norm_num at hge ⊢
      linarith
    have hxFloat : IsFloat x := by
      rw [PyFloat.eq_of_ofRat hx]
      exact isFloat_fl _
    have hexact : fl (t - x) = t - x :=
      ht.isFloat.sub hxFloat (by norm_num at hx52; linarith) hle hhalf
    obtain ⟨a, ha⟩ := exists_int ht.isFloat (by norm_num at hge ⊢; linarith)
    obtain ⟨b, hb⟩ := exists_int hxFloat hx52
    have hwhole : (roundHalfEven (100 * fl (t - x)) : ℚ) / 100 = t - x := by
      have hint : 100 * fl (t - x) = ((100 * (a - b) : Int) : ℚ) := by
        rw [hexact, ha, hb]
        push_cast
        ring
      rw [hint, roundHalfEven_intCast, ha, hb]
      push_cast
      ring
    have hfinite := ht.finite
    have hx0 : 0 ≤ x := by
      norm_num at hx52
      linarith
    rw [hwhole, PyFloat.ofRat_of_lt (by linarith) (by linarith), hexact, PyFloat.add,
      add_sub_cancel, PyFloat.ofRat_of_lt ht.nonneg hfinite, ht.isFloat] at hread
    exact ⟨text, t, hfmt, hread, by norm_num⟩

/-- A time that is read as one is shown. -/
theorem shown_of_isClock {t : ℚ} (ht : IsTime t) {text : Str} (hfmt : fmt t = some text)
    (h : IsClock text) : Shown t := by
  rcases lt_or_ge t (2 ^ 53) with hlt | hge
  · exact shown_of_lt ht.nonneg hlt
  rw [fmt] at hfmt
  cases hx : PyFloat.ofRat (floorDiv60 t * 60 : Int) with
  | inf _ => rw [hx] at hfmt; cases hfmt
  | nan => rw [hx] at hfmt; cases hfmt
  | fin x =>
      refine ⟨x, hx, ?_⟩
      by_contra hlt
      rw [not_le] at hlt
      have hxFloat : IsFloat x := by
        rw [PyFloat.eq_of_ofRat hx]
        exact isFloat_fl _
      -- Both are whole, so that the seconds are negative.
      obtain ⟨a, ha⟩ := exists_int ht.isFloat (by norm_num at hge ⊢; linarith)
      obtain ⟨b, hb⟩ := exists_int hxFloat (by norm_num at hge ⊢; linarith)
      have hgap : t - x ≤ -1 := by
        rw [ha, hb] at hlt ⊢
        have hint : a + 1 ≤ b := by exact_mod_cast hlt
        have hq : (a : ℚ) + 1 ≤ b := by exact_mod_cast hint
        linarith
      have hneg : fl (t - x) < 0 := by
        have hround := abs_fl_sub_le_of_one_le (q := t - x) (by rw [abs_of_neg] <;> linarith)
        rw [abs_of_neg (show t - x < 0 by linarith)] at hround
        have hbound := (abs_le.mp hround).2
        norm_num at hbound
        linarith
      rw [hx, fmtOf] at hfmt
      injection hfmt with hfmt
      obtain ⟨m, sec, hm, hsec, htext⟩ := h
      have hnonneg : 0 ≤ floorDiv60 t := by
        have hmin := floorDiv60_ge hge
        norm_num at hge
        have hq : (0 : ℚ) ≤ floorDiv60 t := by linarith
        exact_mod_cast hq
      obtain ⟨n, hn⟩ := Int.eq_ofNat_of_zero_le hnonneg
      have hcolon : ∀ r : Str, ∀ c, (':' :: r).head? = some c → isDigit c = false := by
        intro r c hc
        injection hc with hc
        rw [← hc]
        exact mark_digit .py (c := ':') (by decide)
      rw [htext, hn, strOfInt_natCast, clockText] at hfmt
      obtain ⟨-, htail⟩ := append_inj_of_stop (digits_strOfNat n).all (hcolon _) hm.all (hcolon _)
        hfmt
      injection htail with _ htail
      have hminus : '-' ∈ sec := by
        rw [← htail, fixed2]
        simp only [if_pos hneg]
        exact List.mem_cons_self
      rcases seconds_chars hsec '-' hminus with hdigit | hdot
      · exact absurd hdigit (by rw [show isDigit '-' = false by decide]; decide)
      · cases hdot

/-! ## Sentences -/

/-- The time is a number, or is not given. -/
def Field.Timed : Field → Prop
  | .absent | .null => True
  | .other => False
  | .val q => IsTime q

/-- Both times of the sentence are. -/
structure Sentence.Timed (seg : Sentence) : Prop where
  start : seg.start.Timed
  stop : seg.stop.Timed

/-- The text of the sentence. -/
def Sentence.words (seg : Sentence) : Str := strip (seg.text.getD [])

/-- Where the sentence starts. -/
def Sentence.startTime (seg : Sentence) : ℚ := (seg.start.floatOr? 0).getD 0

/-- Where the sentence ends: where it starts when it does not say. -/
def Sentence.stopTime (seg : Sentence) : ℚ :=
  (seg.stop.floatOr? seg.startTime).getD seg.startTime

/-- The sentences that say something. -/
def nonBlank (sentences : List Sentence) : List Sentence :=
  sentences.filter fun seg => seg.words ≠ []

/-- The block says what the sentence says, to the hundredth of a second. -/
structure Sentence.ReadAs (label : Str) (seg : Sentence) (b : Block) : Prop where
  speaker : b.speaker = label
  start : ∃ v, b.start = .fin v ∧ |v - seg.startTime| < 1 / 100
  stop : ∃ v, b.stop = .fin v ∧ |v - seg.stopTime| < 1 / 100
  text : b.text = seg.words

/-- The parser returns the sentences that were printed, in order. -/
def ReadsBack (sentences : List Sentence) (label : Str) : Prop :=
  ∃ text, formatSpeakerTagged sentences label = some text ∧
    ∃ bs, reparse text = .ok bs ∧ List.Forall₂ (Sentence.ReadAs label) (nonBlank sentences) bs

/-- The sentence can be printed as a block: the label is a stripped, non-empty line without a
star, the text is one line, and both times are shown. -/
structure Sentence.Printable (label : Str) (seg : Sentence) : Prop where
  label_ne : label ≠ []
  label_strip : strip label = label
  star : '*' ∉ label
  newline : '\n' ∉ label
  words : '\n' ∉ seg.words
  start : Shown seg.startTime
  stop : Shown seg.stopTime

/-- What is put down for the sentence. -/
structure Sentence.WrittenAs (label : Str) (seg : Sentence) (w : Written) : Prop where
  label : w.label = label
  start : fmt seg.startTime = some w.start
  stop : fmt seg.stopTime = some w.stop
  text : w.text = seg.words

theorem isTime_zero : IsTime 0 where
  nonneg := le_refl _
  isFloat := isFloat_zero
  finite := lt_trans (by norm_num) lt_overflowAt

theorem Field.Timed.floatOr {x : Field} (h : x.Timed) {default : ℚ} (hdefault : IsTime default) :
    ∃ t, x.floatOr? default = some t ∧ IsTime t := by
  cases x with
  | absent => exact ⟨default, rfl, hdefault⟩
  | null => exact ⟨default, rfl, hdefault⟩
  | other => exact h.elim
  | val q =>
      refine ⟨_, rfl, ?_⟩
      split
      · exact hdefault
      · exact h

theorem Sentence.Timed.times {seg : Sentence} (h : seg.Timed) :
    IsTime seg.startTime ∧ IsTime seg.stopTime ∧
      seg.start.floatOr? 0 = some seg.startTime ∧
      seg.stop.floatOr? seg.startTime = some seg.stopTime := by
  obtain ⟨t, hstart, ht⟩ := h.start.floatOr isTime_zero
  have hval : seg.startTime = t := by rw [startTime, hstart, Option.getD_some]
  obtain ⟨t', hstop, ht'⟩ := h.stop.floatOr (hval ▸ ht)
  have hval' : seg.stopTime = t' := by rw [stopTime, hstop, Option.getD_some]
  exact ⟨hval ▸ ht, hval' ▸ ht', by rw [hstart, hval], by rw [hstop, hval']⟩

theorem Sentence.Timed.kept {seg : Sentence} (h : seg.Timed) :
    seg.kept? = if seg.words = [] then none else some (seg.words, seg.startTime, seg.stopTime) := by
  obtain ⟨-, -, hstart, hstop⟩ := h.times
  rw [kept?, words, hstart, Option.bind_eq_bind, Option.bind_some, hstop]
  rfl

theorem kept_of_timed {sentences : List Sentence} (h : ∀ seg ∈ sentences, seg.Timed) :
    sentences.filterMap Sentence.kept? =
      (nonBlank sentences).map fun seg => (seg.words, seg.startTime, seg.stopTime) := by
  induction sentences with
  | nil => rfl
  | cons seg sentences ih =>
      have hkept := (h seg List.mem_cons_self).kept
      rw [nonBlank, List.filterMap_cons, hkept, ih fun s hs => h s (List.mem_cons_of_mem _ hs)]
      by_cases hwords : seg.words = []
      · rw [if_pos hwords, List.filter_cons_of_neg (by simpa using hwords)]
        rfl
      · rw [if_neg hwords, List.filter_cons_of_pos (by simpa using hwords)]
        rfl

theorem sentenceBlocks_eq_some {sentences : List Sentence} {label : Str} {ws : List Written}
    (h : ∀ seg ∈ sentences, seg.Timed) : sentenceBlocks sentences label = some ws ↔
      List.Forall₂ (Sentence.WrittenAs label) (nonBlank sentences) ws := by
  rw [sentenceBlocks, kept_of_timed h]
  generalize nonBlank sentences = segs
  induction segs generalizing ws with
  | nil => simp [eq_comm]
  | cons seg segs ih =>
      simp only [List.map_cons, List.mapM_cons, Option.bind_eq_bind, Option.bind_eq_some_iff,
        Option.pure_def, Option.some.injEq, List.forall₂_cons_left_iff]
      constructor
      · rintro ⟨w, ⟨start, hstart, stop, hstop, rfl⟩, ws', hws, rfl⟩
        exact ⟨_, _, ⟨rfl, hstart, hstop, rfl⟩, ih.mp hws, rfl⟩
      · rintro ⟨w, ws', hw, hws, rfl⟩
        refine ⟨w, ⟨w.start, hw.start, w.stop, hw.stop, ?_⟩, ws', ih.mpr hws, rfl⟩
        rw [← hw.label, ← hw.text]

/-! ## The round trip -/

theorem printable_of_readsBack {sentences : List Sentence} {label : Str}
    (htimed : ∀ seg ∈ sentences, seg.Timed) (h : ReadsBack sentences label) :
    ∀ seg ∈ nonBlank sentences, seg.Printable label := by
  obtain ⟨text, hformat, bs, hread, hsame⟩ := h
  obtain ⟨ws, hblocks⟩ : ∃ ws, sentenceBlocks sentences label = some ws := by
    cases hblocks : sentenceBlocks sentences label with
    | none => simp [formatSpeakerTagged, hblocks] at hformat
    | some ws => exact ⟨ws, rfl⟩
  have hwritten := (sentenceBlocks_eq_some htimed).mp hblocks
  have hstamp := sentenceBlocks_stamped hblocks
  have hsays : ∀ seg ∈ nonBlank sentences,
      (strip label = label ∧ '*' ∉ label ∧ '\n' ∉ label) ∧ '\n' ∉ seg.words := by
    intro seg hseg
    obtain ⟨b, hb, hsb⟩ := exists_of_forall₂ hsame.flip hseg
    have hwf := reparse_wellFormed hread b hb
    rw [← hsb.text]
    exact ⟨hsb.speaker ▸ speaker_of_wellFormed hwf, newline_not_mem_text hwf⟩
  have hheads := heads_of_length (laysOut_sentences hblocks hformat) hstamp (by
    intro w hw
    obtain ⟨seg, hseg, hws⟩ := exists_of_forall₂ hwritten hw
    obtain ⟨⟨-, -, hlabel⟩, hwords⟩ := hsays seg hseg
    rw [hws.label, hws.text]
    exact ⟨hlabel, hwords⟩) ⟨bs, hread, rfl⟩ (by
    rw [List.length_map, ← hwritten.length_eq, hsame.length_eq])
  intro seg hseg
  obtain ⟨w, hw, hws⟩ := exists_of_forall₂ hwritten.flip hseg
  obtain ⟨⟨hstrip, hstar, hnewline⟩, hwords⟩ := hsays seg hseg
  obtain ⟨hne, hstart, hstop⟩ := (isHead_header (hstamp w hw) (hws.label ▸ hstar)).mp (hheads w hw)
  obtain ⟨htime, htime', -⟩ := (htimed seg (List.mem_of_mem_filter hseg)).times
  exact ⟨hws.label ▸ hne, hstrip, hstar, hnewline, hwords,
    shown_of_isClock htime hws.start hstart, shown_of_isClock htime' hws.stop hstop⟩

/-- A printable sentence is put down as a clean block, which says what it says. -/
theorem Sentence.Printable.written {label : Str} {seg : Sentence} (htimed : seg.Timed)
    (h : seg.Printable label) : ∃ w, seg.WrittenAs label w ∧ w.Clean ∧
      ∀ b : Block, w.Is b → seg.ReadAs label b := by
  obtain ⟨htime, htime', -⟩ := htimed.times
  obtain ⟨x, v, hfmt, hread, hnear⟩ := near_of_shown htime h.start
  obtain ⟨x', v', hfmt', hread', hnear'⟩ := near_of_shown htime' h.stop
  refine ⟨⟨label, x, x', seg.words⟩, ⟨rfl, hfmt, hfmt', rfl⟩,
    ⟨h.label_ne, h.star, h.newline, ⟨_, hread⟩, ⟨_, hread'⟩, quoted_of_not_mem h.words⟩, ?_⟩
  intro b hb
  refine ⟨hb.speaker.trans h.label_strip, ⟨v, hb.start.unique hread, hnear⟩,
    ⟨v', hb.stop.unique hread', hnear'⟩, ?_⟩
  rw [Block.text, hb.bodyLines, spoken_of_not_mem h.words, List.map_singleton,
    joinSpaces_singleton, strip_rstrip, strip_body]
  exact strip_strip _

/-- What holds along two lists, one after the other, holds from the first to the last. -/
theorem forall₂_through {α β γ : Type} {R : α → β → Prop} {S : β → γ → Prop} {T : α → γ → Prop}
    (h : ∀ a b c, R a b → S b c → T a c) {as : List α} {bs : List β} {cs : List γ}
    (hab : List.Forall₂ R as bs) (hbc : List.Forall₂ S bs cs) : List.Forall₂ T as cs := by
  induction hab generalizing cs with
  | nil =>
      cases hbc
      exact .nil
  | cons hr _ ih =>
      obtain ⟨c, cs, hs, hrest, rfl⟩ := List.forall₂_cons_left_iff.mp hbc
      exact .cons (h _ _ _ hr hs) (ih hrest)

/-- **The round trip of an imported transcript.** The parser returns the sentences exactly
when every one of them that says something can be printed. -/
theorem readsBack_iff (sentences : List Sentence) (label : Str)
    (htimed : ∀ seg ∈ sentences, seg.Timed) :
    ReadsBack sentences label ↔ ∀ seg ∈ nonBlank sentences, seg.Printable label := by
  refine ⟨printable_of_readsBack htimed, fun h => ?_⟩
  have hexists : ∃ ws, List.Forall₂ (fun seg w => seg.WrittenAs label w ∧ w.Clean ∧
      ∀ b : Block, w.Is b → seg.ReadAs label b) (nonBlank sentences) ws := by
    have hall : ∀ seg ∈ nonBlank sentences, ∃ w, seg.WrittenAs label w ∧ w.Clean ∧
        ∀ b : Block, w.Is b → seg.ReadAs label b := fun seg hseg =>
      (h seg hseg).written (htimed seg (List.mem_of_mem_filter hseg))
    clear h
    generalize nonBlank sentences = segs at hall
    induction segs with
    | nil => exact ⟨[], .nil⟩
    | cons seg segs ih =>
        obtain ⟨w, hw⟩ := hall seg List.mem_cons_self
        obtain ⟨ws, hws⟩ := ih fun s hs => hall s (List.mem_cons_of_mem _ hs)
        exact ⟨w :: ws, .cons hw hws⟩
  obtain ⟨ws, hws⟩ := hexists
  have hblocks := (sentenceBlocks_eq_some htimed).mpr (hws.imp fun _ _ hw => hw.1)
  have hformat : formatSpeakerTagged sentences label =
      some (rstrip (joinLines (ws.flatMap fun w => [w.header, w.body, []])) ++ ['\n']) := by
    rw [formatSpeakerTagged, hblocks]
    rfl
  obtain ⟨bs, ⟨blocks, hread, rfl⟩, his⟩ := reparses_of_clean (laysOut_sentences hblocks hformat)
    (sentenceBlocks_stamped hblocks) fun w hw => by
      obtain ⟨seg, -, hseg⟩ := exists_of_forall₂ hws hw
      exact hseg.2.1
  refine ⟨_, hformat, blocks, hread, ?_⟩
  rw [List.forall₂_map_right_iff] at his
  refine forall₂_through (fun seg w b hseg hb => ?_) hws his
  have hread := hseg.2.2 _ hb
  exact ⟨hread.speaker, hread.start, hread.stop, by rw [← text_trim, hread.text]⟩

/-- A caption on two lines. -/
def twoLines : List Sentence := [⟨some ['B', 'o', 'n', '\n', 'j', 'o', 'u', 'r'], .absent, .absent⟩]

/-- `speaker_label="Intervenant_01"` -/
def intervenant01 : Str := "Intervenant_01".toList

/-- Its second line does not begin with `>`, and is lost. -/
theorem lines_not_readsBack :
    (∀ seg ∈ twoLines, seg.Timed) ∧ ¬ ReadsBack twoLines intervenant01 := by
  have htimed : ∀ seg ∈ twoLines, seg.Timed := fun seg hseg => by
    rw [List.mem_singleton.mp hseg]
    exact ⟨trivial, trivial⟩
  refine ⟨htimed, fun h => ?_⟩
  have hline := (printable_of_readsBack htimed h _ (List.mem_filter.mpr
    ⟨List.mem_singleton.mpr rfl, by decide⟩)).words
  exact hline (by decide)

/-- A caption on one line comes back. -/
theorem line_readsBack : ReadsBack [⟨some ['B', 'o', 'n'], .absent, .absent⟩] intervenant01 := by
  have htimed : ∀ seg ∈ [(⟨some ['B', 'o', 'n'], .absent, .absent⟩ : Sentence)], seg.Timed :=
    fun seg hseg => by
      rw [List.mem_singleton.mp hseg]
      exact ⟨trivial, trivial⟩
  refine (readsBack_iff _ _ htimed).mpr fun seg hseg => ?_
  rw [List.mem_singleton.mp (List.mem_of_mem_filter hseg)]
  have hshown : Shown 0 := shown_of_lt (le_refl _) (by norm_num)
  exact ⟨by decide, by decide, by decide, by decide, by decide, hshown, hshown⟩

end MesReunions.Transcript
