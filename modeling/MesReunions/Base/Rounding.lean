import MesReunions.Base.Num

/-!
# How far binary64 rounding goes

* **`abs_fl_sub_le`** — a rounding moves a number by half a spacing at most.
* **`isFloat_of_multiple`** — a short multiple of a power of two is a float.
* **`IsFloat.exists_multiple`** — a float is a multiple of the spacing around it.
* **`fl_mono`** — rounding keeps the order.
* **`fl_eq_of_near`** — a number closer to a multiple than half a spacing rounds to it.
-/

namespace MesReunions

/-! ## To the nearest integer -/

theorem abs_roundHalfEven_sub_le (q : ℚ) : |(roundHalfEven q : ℚ) - q| ≤ 1 / 2 := by
  have hle := Int.floor_le q
  have hlt := Int.lt_floor_add_one q
  simp only [roundHalfEven]
  rw [abs_le]
  split
  · constructor <;> linarith
  · split
    · push_cast
      constructor <;> linarith
    · split
      · constructor <;> linarith
      · push_cast
        constructor <;> linarith

theorem roundHalfEven_of_near {q : ℚ} {n : Int} (h : |q - n| < 1 / 2) : roundHalfEven q = n := by
  have hround := abs_roundHalfEven_sub_le q
  have hclose : |((roundHalfEven q - n : Int) : ℚ)| < 1 := by
    push_cast
    calc |(roundHalfEven q : ℚ) - n| ≤ |(roundHalfEven q : ℚ) - q| + |q - n| := abs_sub_le _ _ _
      _ < 1 := by linarith
  have hint : |roundHalfEven q - n| < 1 := by exact_mod_cast hclose
  have hzero := Int.abs_lt_one_iff.mp hint
  omega

/-! ## The binade of a number -/

theorem ilog2_spec {q : ℚ} (h : q ≠ 0) : (2 : ℚ) ^ ilog2 q ≤ |q| ∧ |q| < 2 ^ (ilog2 q + 1) := by
  have hnum : q.num.natAbs ≠ 0 := Int.natAbs_ne_zero.mpr (Rat.num_ne_zero.mpr h)
  have habs : |q| = (q.num.natAbs : ℚ) / q.den := by
    rw [Nat.cast_natAbs, Int.cast_abs]
    conv_lhs => rw [← Rat.num_div_den q, abs_div, Nat.abs_cast]
  have hden : (0 : ℚ) < q.den := by exact_mod_cast q.den_pos
  have hnumLe : (2 : ℚ) ^ q.num.natAbs.log2 ≤ q.num.natAbs := by
    exact_mod_cast Nat.log2_self_le hnum
  have hnumLt : (q.num.natAbs : ℚ) < 2 ^ (q.num.natAbs.log2 + 1) := by
    exact_mod_cast Nat.lt_log2_self
  have hdenLe : (2 : ℚ) ^ q.den.log2 ≤ q.den := by exact_mod_cast Nat.log2_self_le q.den_ne_zero
  have hdenLt : (q.den : ℚ) < 2 ^ (q.den.log2 + 1) := by exact_mod_cast Nat.lt_log2_self
  have hlow : (2 : ℚ) ^ ((q.num.natAbs.log2 : Int) - q.den.log2 - 1) < |q| := by
    rw [habs, lt_div_iff₀ hden, sub_sub, zpow_sub₀ (by norm_num), zpow_natCast]
    have hpos : (0 : ℚ) < 2 ^ ((q.den.log2 : Int) + 1) := by positivity
    rw [div_mul_eq_mul_div, div_lt_iff₀ hpos]
    have hdenLt' : (q.den : ℚ) < 2 ^ ((q.den.log2 : Int) + 1) := by exact_mod_cast hdenLt
    calc (2 : ℚ) ^ q.num.natAbs.log2 * q.den ≤ q.num.natAbs * q.den :=
          mul_le_mul_of_nonneg_right hnumLe hden.le
      _ < q.num.natAbs * 2 ^ ((q.den.log2 : Int) + 1) :=
          mul_lt_mul_of_pos_left hdenLt' (by exact_mod_cast Nat.pos_of_ne_zero hnum)
  have hhigh : |q| < (2 : ℚ) ^ ((q.num.natAbs.log2 : Int) - q.den.log2 + 1) := by
    rw [habs, div_lt_iff₀ hden, sub_add_eq_add_sub, zpow_sub₀ (by norm_num), zpow_natCast,
      div_mul_eq_mul_div, lt_div_iff₀ (by positivity)]
    have hnumLt' : (q.num.natAbs : ℚ) < 2 ^ ((q.num.natAbs.log2 : Int) + 1) := by
      exact_mod_cast hnumLt
    calc (q.num.natAbs : ℚ) * 2 ^ q.den.log2 < 2 ^ ((q.num.natAbs.log2 : Int) + 1) * 2 ^ q.den.log2 :=
          mul_lt_mul_of_pos_right hnumLt' (by positivity)
      _ ≤ 2 ^ ((q.num.natAbs.log2 : Int) + 1) * q.den :=
          mul_le_mul_of_nonneg_left hdenLe (by positivity)
  simp only [ilog2]
  split
  · rename_i hle
    exact ⟨hle, hhigh⟩
  · rename_i hle
    exact ⟨hlow.le, by simpa using not_le.mp hle⟩

theorem le_ilog2_iff {q : ℚ} (h : q ≠ 0) {k : Int} : k ≤ ilog2 q ↔ (2 : ℚ) ^ k ≤ |q| := by
  obtain ⟨hle, hlt⟩ := ilog2_spec h
  constructor
  · exact fun hk => le_trans (zpow_le_zpow_right₀ (by norm_num) hk) hle
  · intro hk
    have hpow : (2 : ℚ) ^ k < 2 ^ (ilog2 q + 1) := lt_of_le_of_lt hk hlt
    have hexp := (zpow_lt_zpow_iff_right₀ (by norm_num)).mp hpow
    omega

/-! ## The spacing -/

/-- The spacing of the floats around `q`. -/
def ulp (q : ℚ) : ℚ := 2 ^ (max (ilog2 q) (-1022) - 52)

theorem fl_eq (q : ℚ) : fl q = roundHalfEven (q / ulp q) * ulp q := rfl

theorem ulp_pos (q : ℚ) : 0 < ulp q := by
  rw [ulp]
  positivity

theorem ulp_le_of_lt {q : ℚ} {k : Int} (hk : 0 ≤ k) (h : |q| < 2 ^ k) :
    ulp q ≤ 2 ^ (k - 53) := by
  refine zpow_le_zpow_right₀ (by norm_num) ?_
  by_cases hq : q = 0
  · subst hq
    have hlog : ilog2 0 = -1 := by decide
    omega
  · have hlog : ¬ k ≤ ilog2 q := fun hle => absurd ((le_ilog2_iff hq).mp hle) (not_le.mpr h)
    omega

/-- From one on, the spacing is small beside the number. -/
theorem ulp_le_of_one_le {q : ℚ} (h : 1 ≤ |q|) : ulp q ≤ |q| / 2 ^ 52 := by
  have hq : q ≠ 0 := by
    rintro rfl
    norm_num at h
  have hlog : 0 ≤ ilog2 q := (le_ilog2_iff hq).mpr (by simpa using h)
  rw [ulp, max_eq_left (by omega), zpow_sub₀ (by norm_num)]
  exact div_le_div_of_nonneg_right (ilog2_spec hq).1 (by positivity)

/-- **Rounding moves a number by half a spacing at most.** -/
theorem abs_fl_sub_le (q : ℚ) : |fl q - q| ≤ ulp q / 2 := by
  have hpos := ulp_pos q
  have hsplit : fl q - q = (roundHalfEven (q / ulp q) - q / ulp q) * ulp q := by
    rw [fl_eq, sub_mul, div_mul_cancel₀ _ hpos.ne']
  rw [hsplit, abs_mul, abs_of_pos hpos]
  calc |(roundHalfEven (q / ulp q) : ℚ) - q / ulp q| * ulp q ≤ 1 / 2 * ulp q :=
        mul_le_mul_of_nonneg_right (abs_roundHalfEven_sub_le _) hpos.le
    _ = ulp q / 2 := by ring

theorem abs_fl_sub_le_of_one_le {q : ℚ} (h : 1 ≤ |q|) : |fl q - q| ≤ |q| / 2 ^ 53 := by
  calc |fl q - q| ≤ ulp q / 2 := abs_fl_sub_le q
    _ ≤ |q| / 2 ^ 52 / 2 := div_le_div_of_nonneg_right (ulp_le_of_one_le h) (by norm_num)
    _ = |q| / 2 ^ 53 := by ring

/-- **A number near a multiple of the spacing rounds to it.** -/
theorem fl_eq_of_near {q : ℚ} {n : Int} (h : |q - n * ulp q| < ulp q / 2) :
    fl q = n * ulp q := by
  have hpos := ulp_pos q
  have hquot : |q / ulp q - n| < 1 / 2 := by
    have hsplit : q / ulp q - n = (q - n * ulp q) / ulp q := by
      rw [sub_div, mul_div_cancel_right₀ _ hpos.ne']
    rw [hsplit, abs_div, abs_of_pos hpos, div_lt_iff₀ hpos]
    linarith
  rw [fl_eq, roundHalfEven_of_near hquot]

/-! ## The floats -/

/-- The number is a binary64, up to the exponent. -/
def IsFloat (q : ℚ) : Prop := fl q = q

theorem isFloat_zero : IsFloat 0 := by
  exact_mod_cast fl_natCast (n := 0) (by decide)

theorem IsFloat.exists_multiple {q : ℚ} (h : IsFloat q) : ∃ n : Int, q = n * ulp q :=
  ⟨_, h.symm.trans (fl_eq q)⟩

/-- A multiple of a power of two is one of any smaller power. -/
theorem exists_multiple_of_le {q : ℚ} {n a b : Int} (h : q = n * 2 ^ a) (hab : b ≤ a) :
    ∃ m : Int, q = m * 2 ^ b := by
  obtain ⟨k, hk⟩ := Int.eq_ofNat_of_zero_le (sub_nonneg.mpr hab)
  refine ⟨n * 2 ^ k, ?_⟩
  rw [h, show a = k + b by omega, zpow_add₀ (by norm_num), zpow_natCast]
  push_cast
  ring

/-- **A short multiple of a power of two is a float.** -/
theorem isFloat_of_multiple {q : ℚ} {n e : Int} (h : q = n * 2 ^ e) (hn : |n| < 2 ^ 53)
    (he : -1074 ≤ e) : IsFloat q := by
  by_cases hq : q = 0
  · subst hq
    exact isFloat_zero
  -- The spacing around the number divides the power.
  have hlog : ilog2 q < e + 53 := by
    rw [← not_le, le_ilog2_iff hq, not_le, h, abs_mul, add_comm, zpow_add₀ (by norm_num),
      abs_of_pos (show (0 : ℚ) < 2 ^ e by positivity)]
    refine mul_lt_mul_of_pos_right ?_ (by positivity)
    exact_mod_cast hn
  obtain ⟨m, hm⟩ := exists_multiple_of_le h (show max (ilog2 q) (-1022) - 52 ≤ e by omega)
  have hpos := ulp_pos q
  have hmul : q = m * ulp q := hm
  have hnear : |q - m * ulp q| < ulp q / 2 := by
    rw [← hmul, sub_self, abs_zero]
    linarith
  exact (fl_eq_of_near hnear).trans hmul.symm

/-- A float from `2 ^ k` on is a multiple of the spacing there. -/
theorem IsFloat.exists_multiple_of_le {q : ℚ} (h : IsFloat q) {k : Int} (hk : (2 : ℚ) ^ k ≤ |q|) :
    ∃ m : Int, q = m * 2 ^ (k - 52) := by
  have hq : q ≠ 0 := by
    rintro rfl
    have hpos : (0 : ℚ) < 2 ^ k := by positivity
    rw [abs_zero] at hk
    linarith
  obtain ⟨n, hn⟩ := h.exists_multiple
  have hlog := (le_ilog2_iff hq).mpr hk
  exact MesReunions.exists_multiple_of_le hn (by omega)

/-- Rounding gives a float. -/
theorem isFloat_fl (q : ℚ) : IsFloat (fl q) := by
  have hpos := ulp_pos q
  have hquot : |q / ulp q| < 2 ^ 53 := by
    by_cases hq : q = 0
    · subst hq
      norm_num
    · rw [abs_div, abs_of_pos hpos, div_lt_iff₀ hpos]
      calc |q| < 2 ^ (ilog2 q + 1) := (ilog2_spec hq).2
        _ ≤ 2 ^ (53 + (max (ilog2 q) (-1022) - 52)) :=
            zpow_le_zpow_right₀ (by norm_num) (by omega)
        _ = 2 ^ 53 * ulp q := by rw [zpow_add₀ (by norm_num), ulp]; norm_cast
  have hround := abs_roundHalfEven_sub_le (q / ulp q)
  have hle : |roundHalfEven (q / ulp q)| ≤ 2 ^ 53 := by
    have hlt : |(roundHalfEven (q / ulp q) : ℚ)| < 2 ^ 53 + 1 := by
      calc |(roundHalfEven (q / ulp q) : ℚ)| ≤
            |(roundHalfEven (q / ulp q) : ℚ) - q / ulp q| + |q / ulp q| := by
            simpa using abs_add_le ((roundHalfEven (q / ulp q) : ℚ) - q / ulp q) (q / ulp q)
        _ < 2 ^ 53 + 1 := by linarith
    have hint : |roundHalfEven (q / ulp q)| < 2 ^ 53 + 1 := by exact_mod_cast hlt
    omega
  have hfl : fl q = roundHalfEven (q / ulp q) * 2 ^ (max (ilog2 q) (-1022) - 52) := fl_eq q
  rcases hle.lt_or_eq with hlt | heq
  · exact isFloat_of_multiple hfl hlt (by omega)
  · -- The largest multiple is a power of two.
    obtain ⟨m, hm⟩ : ∃ m : Int, roundHalfEven (q / ulp q) = m * 2 ∧ |m| < 2 ^ 53 := by
      rcases abs_choice (roundHalfEven (q / ulp q)) with h | h
      · exact ⟨2 ^ 52, by omega, by decide⟩
      · exact ⟨-2 ^ 52, by omega, by decide⟩
    refine isFloat_of_multiple (n := m) (e := max (ilog2 q) (-1022) - 51) ?_ hm.2 (by omega)
    rw [hfl, hm.1, show max (ilog2 q) (-1022) - 51 = 1 + (max (ilog2 q) (-1022) - 52) by omega,
      zpow_add₀ (by norm_num)]
    push_cast
    ring

/-- **A difference of floats within a factor of two is exact.** -/
theorem IsFloat.sub {x y : ℚ} (hx : IsFloat x) (hy : IsFloat y) (h₁ : 1 ≤ y) (hyx : y ≤ x)
    (h₂ : x ≤ 2 * y) : IsFloat (x - y) := by
  have hy0 : y ≠ 0 := by linarith
  have habs : |y| = y := abs_of_pos (by linarith)
  obtain ⟨hlow, hhigh⟩ := ilog2_spec hy0
  have hlog : 0 ≤ ilog2 y := (le_ilog2_iff hy0).mpr (by rw [habs]; simpa using h₁)
  obtain ⟨n, hn⟩ := hy.exists_multiple_of_le hlow
  obtain ⟨m, hm⟩ := hx.exists_multiple_of_le (k := ilog2 y) (by
    rw [abs_of_pos (by linarith)]
    rw [habs] at hlow
    linarith)
  have hdiff : x - y = ((m - n : Int) : ℚ) * 2 ^ (ilog2 y - 52) := by
    push_cast
    rw [sub_mul, ← hm, ← hn]
  refine isFloat_of_multiple hdiff ?_ (by omega)
  have hpow : (0 : ℚ) < 2 ^ (ilog2 y - 52) := by positivity
  have hlt : |((m - n : Int) : ℚ)| * 2 ^ (ilog2 y - 52) < 2 ^ 53 * 2 ^ (ilog2 y - 52) := by
    calc |((m - n : Int) : ℚ)| * 2 ^ (ilog2 y - 52) = |x - y| := by
          rw [hdiff, abs_mul, abs_of_pos hpow]
      _ ≤ |y| := by
          rw [abs_of_nonneg (by linarith), habs]
          linarith
      _ < 2 ^ (ilog2 y + 1) := hhigh
      _ = 2 ^ 53 * 2 ^ (ilog2 y - 52) := by
          rw [show ilog2 y + 1 = 53 + (ilog2 y - 52) by omega, zpow_add₀ (by norm_num)]
          norm_cast
  exact_mod_cast lt_of_mul_lt_mul_right hlt hpow.le

/-! ## Order -/

theorem roundHalfEven_mono {x y : ℚ} (h : x ≤ y) : roundHalfEven x ≤ roundHalfEven y := by
  by_contra hlt
  rw [not_le] at hlt
  have hx := abs_le.mp (abs_roundHalfEven_sub_le x)
  have hy := abs_le.mp (abs_roundHalfEven_sub_le y)
  have hstep : (roundHalfEven y : ℚ) + 1 ≤ roundHalfEven x := by exact_mod_cast hlt
  -- Both are half way between two integers, so they are the same.
  have heq : x = y := by linarith [hx.2, hy.1]
  rw [heq] at hlt
  exact lt_irrefl _ hlt

theorem roundHalfEven_neg (q : ℚ) : roundHalfEven (-q) = -roundHalfEven q := by
  by_cases hint : (⌊q⌋ : ℚ) = q
  · rw [← hint, ← Int.cast_neg, roundHalfEven_intCast, roundHalfEven_intCast]
  · have hle := lt_of_le_of_ne (Int.floor_le q) hint
    have hlt := Int.lt_floor_add_one q
    have hfloor : ⌊-q⌋ = -⌊q⌋ - 1 := by
      rw [Int.floor_eq_iff]
      push_cast
      constructor <;> linarith
    simp only [roundHalfEven, hfloor]
    push_cast
    -- The fraction of `-q` is what that of `q` lacks to one.
    rcases lt_trichotomy (q - ⌊q⌋) (1 / 2) with hd | hd | hd
    · rw [if_neg (by linarith), if_pos (by linarith), if_pos hd]
      omega
    · rw [if_neg (show ¬ -q - (-(⌊q⌋ : ℚ) - 1) < 1 / 2 by linarith),
        if_neg (show ¬ 1 / 2 < -q - (-(⌊q⌋ : ℚ) - 1) by linarith),
        if_neg (show ¬ q - ⌊q⌋ < 1 / 2 by linarith), if_neg (show ¬ 1 / 2 < q - ⌊q⌋ by linarith)]
      split <;> split <;> omega
    · rw [if_pos (by linarith), if_neg (by linarith), if_pos hd]
      omega

theorem ilog2_neg (q : ℚ) : ilog2 (-q) = ilog2 q := by
  simp [ilog2]

theorem fl_neg (q : ℚ) : fl (-q) = -fl q := by
  simp only [fl, ilog2_neg, neg_div, roundHalfEven_neg, Int.cast_neg, neg_mul]

/-- A multiple of the spacing is not rounded over. -/
theorem fl_le_multiple {q : ℚ} {n : Int} (h : q ≤ n * ulp q) : fl q ≤ n * ulp q := by
  have hpos := ulp_pos q
  have hround := roundHalfEven_mono ((div_le_iff₀ hpos).mpr h)
  rw [roundHalfEven_intCast] at hround
  rw [fl_eq]
  exact mul_le_mul_of_nonneg_right (by exact_mod_cast hround) hpos.le

theorem multiple_le_fl {q : ℚ} {n : Int} (h : n * ulp q ≤ q) : n * ulp q ≤ fl q := by
  have hpos := ulp_pos q
  have hround := roundHalfEven_mono ((le_div_iff₀ hpos).mpr h)
  rw [roundHalfEven_intCast] at hround
  rw [fl_eq]
  exact mul_le_mul_of_nonneg_right (by exact_mod_cast hround) hpos.le

theorem fl_mono_of_pos {x y : ℚ} (hx : 0 < x) (h : x ≤ y) : fl x ≤ fl y := by
  have hy : 0 < y := lt_of_lt_of_le hx h
  have hlog : ilog2 x ≤ ilog2 y := by
    rw [le_ilog2_iff hy.ne', abs_of_pos hy]
    exact le_trans (by simpa [abs_of_pos hx] using (ilog2_spec hx.ne').1) h
  by_cases hulp : max (ilog2 x) (-1022) = max (ilog2 y) (-1022)
  · -- In one binade the quotients are compared.
    have hsame : ulp x = ulp y := by rw [ulp, ulp, hulp]
    have hpos := ulp_pos y
    rw [fl_eq, fl_eq, hsame]
    refine mul_le_mul_of_nonneg_right ?_ hpos.le
    exact_mod_cast roundHalfEven_mono (div_le_div_of_nonneg_right h hpos.le)
  · -- Otherwise the power of two between them is.
    have hlt : ilog2 x < ilog2 y := by omega
    have hnormal : -1022 < ilog2 y := by omega
    have hbelow : x ≤ (2 : ℚ) ^ ilog2 y := by
      have hspec := (ilog2_spec hx.ne').2
      rw [abs_of_pos hx] at hspec
      exact hspec.le.trans (zpow_le_zpow_right₀ (by norm_num) (by omega))
    have habove : (2 : ℚ) ^ ilog2 y ≤ y := by
      have hspec := (ilog2_spec hy.ne').1
      rwa [abs_of_pos hy] at hspec
    have hmultiple : ∀ {q : ℚ}, max (ilog2 q) (-1022) ≤ ilog2 y →
        ∃ n : Int, (2 : ℚ) ^ ilog2 y = n * ulp q := by
      intro q hq
      exact exists_multiple_of_le (n := 1) (a := ilog2 y) (by simp) (by omega)
    obtain ⟨n, hn⟩ := hmultiple (q := x) (by omega)
    obtain ⟨m, hm⟩ := hmultiple (q := y) (by omega)
    calc fl x ≤ n * ulp x := fl_le_multiple (by rw [← hn]; exact hbelow)
      _ = m * ulp y := by rw [← hn, hm]
      _ ≤ fl y := multiple_le_fl (by rw [← hm]; exact habove)

/-- **Rounding keeps the order.** -/
theorem fl_mono {x y : ℚ} (h : x ≤ y) : fl x ≤ fl y := by
  rcases lt_or_ge 0 x with hx | hx
  · exact fl_mono_of_pos hx h
  · rcases lt_or_ge y 0 with hy | hy
    · have hneg := fl_mono_of_pos (neg_pos.mpr hy) (neg_le_neg h)
      rw [fl_neg, fl_neg] at hneg
      exact neg_le_neg_iff.mp hneg
    · have hneg := fl_nonneg (neg_nonneg.mpr hx)
      rw [fl_neg] at hneg
      linarith [fl_nonneg hy]

end MesReunions
