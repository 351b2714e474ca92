import MesReunions.Base.Rounding

/-!
# Arithmetic of floats

The operators of `float` that round, on `PyFloat`, and what the built-in functions make of their
results. The two zeros are one.

* `PyFloat.sub`, `mul`, `ratio` — IEEE operations.
* `PyFloat.lt`, `PyFloat.le` — a `nan` compares with nothing.
* `PyFloat.round2`, `PyFloat.round3` — `round(x, 2)` and `round(x, 3)`, correctly rounded.
* `PyFloat.toInt` — `int(x)`.
* `PyFloat.IsNumber` — what is not a `nan`, and what a `float` can hold; `PyFloat.Upto` — between
  `0` and a bound.
* **`round3_of_round2`** — hundredths are not rounded again.
-/

namespace MesReunions.PyFloat

/-- `x - y` -/
def sub (x y : PyFloat) : PyFloat := add x (neg y)

/-- The product of an infinity and a number. -/
def infMul (negative : Bool) (q : ℚ) : PyFloat :=
  if q = 0 then nan else inf (xor negative (decide (q < 0)))

/-- `x * y` -/
def mul : PyFloat → PyFloat → PyFloat
  | fin a, fin b => ofRat (a * b)
  | inf m, inf n => inf (xor m n)
  | inf m, fin b => infMul m b
  | fin a, inf n => infMul n a
  | _, _ => nan

/-- `m / n`, for a positive integer `n`. -/
def ratio (m n : Nat) : PyFloat := ofRat ((m : ℚ) / n)

/-- `x / y`, for a positive number `y`. -/
def divRat (x : PyFloat) (y : ℚ) : PyFloat :=
  match x with
  | fin a => ofRat (a / y)
  | x => x

/-- `abs(x)` -/
def abs : PyFloat → PyFloat
  | fin a => fin |a|
  | inf _ => inf false
  | nan => nan

/-- `x < y` -/
def lt : PyFloat → PyFloat → Bool
  | fin a, fin b => decide (a < b)
  | fin _, inf negative => !negative
  | inf negative, fin _ => negative
  | inf m, inf n => m && !n
  | _, _ => false

/-- `x <= y` -/
def le : PyFloat → PyFloat → Bool
  | fin a, fin b => decide (a ≤ b)
  | fin _, inf negative => !negative
  | inf negative, fin _ => negative
  | inf m, inf n => m || !n
  | _, _ => false

/-- `round(x, 2)` -/
def round2 : PyFloat → PyFloat
  | fin a => ofRat ((roundHalfEven (100 * a) : ℚ) / 100)
  | x => x

/-- `round(x, 3)` -/
def round3 : PyFloat → PyFloat
  | fin a => ofRat ((roundHalfEven (1000 * a) : ℚ) / 1000)
  | x => x

/-- `int(x)` -/
def toInt : PyFloat → Except PyError Int
  | fin a => .ok (if a < 0 then ⌈a⌉ else ⌊a⌋)
  | inf _ => .error .overflowError
  | nan => .error .valueError

/-! ## Order -/

theorem overflowAt_pos : 0 < overflowAt := lt_trans (by positivity) overflowAt_gt

theorem ofRat_of_lt {a : ℚ} (h : |a| < overflowAt) : ofRat a = fin (fl a) := by
  rw [ofRat, if_neg (not_le.mpr h)]

theorem ofRat_of_ge {a : ℚ} (h : overflowAt ≤ a) : ofRat a = inf false := by
  have hpos : 0 ≤ a := overflowAt_pos.le.trans h
  rw [ofRat, abs_of_nonneg hpos, if_pos h]
  simp [hpos]

/-- What a number is below of, its successors are above of. -/
theorem lt_ofRat_mono {t a b : ℚ} (hab : a ≤ b) (h : lt (fin t) (ofRat a) = true) :
    lt (fin t) (ofRat b) = true := by
  by_cases ha : overflowAt ≤ |a|
  · rw [ofRat, if_pos ha] at h
    have hneg : ¬ a < 0 := by simpa [lt] using h
    rw [abs_of_nonneg (not_lt.mp hneg)] at ha
    rw [ofRat_of_ge (ha.trans hab)]
    rfl
  · rw [not_le] at ha
    rw [ofRat_of_lt ha] at h
    by_cases hb : overflowAt ≤ b
    · rw [ofRat_of_ge hb]
      rfl
    · have hb' : |b| < overflowAt := by
        rw [abs_lt] at ha ⊢
        exact ⟨lt_of_lt_of_le ha.1 hab, not_le.mp hb⟩
      rw [ofRat_of_lt hb']
      have hlt : t < fl a := of_decide_eq_true h
      exact decide_eq_true (lt_of_lt_of_le hlt (fl_mono hab))

theorem ofRat_ne_nan (a : ℚ) : ofRat a ≠ nan := by
  unfold ofRat
  split <;> exact nofun

theorem add_fin_ne_nan {x : PyFloat} (hx : x ≠ nan) (a : ℚ) : add x (fin a) ≠ nan := by
  cases x with
  | fin b => exact ofRat_ne_nan (b + a)
  | inf negative => exact nofun
  | nan => exact absurd rfl hx

/-- What is not above a number is below it, or there. -/
theorem le_of_not_lt {x : PyFloat} {t : ℚ} (hx : x ≠ nan) (h : lt (fin t) x = false) :
    le x (fin t) = true := by
  cases x with
  | fin a => exact decide_eq_true (not_lt.mp (of_decide_eq_false h))
  | inf negative => simpa [lt, le] using h
  | nan => exact absurd rfl hx

protected theorem le_of_lt {x y : PyFloat} (h : lt x y = true) : le x y = true := by
  cases x with
  | fin a => cases y with
    | fin b => exact decide_eq_true (of_decide_eq_true h : a < b).le
    | inf n => exact h
    | nan => exact h
  | inf m => cases y with
    | fin b => exact h
    | inf n => cases m <;> cases n <;> trivial
    | nan => exact h
  | nan => exact h

theorem ne_nan_of_le {x y : PyFloat} (h : le x y = true) : x ≠ nan ∧ y ≠ nan := by
  constructor
  · rintro rfl
    exact Bool.false_ne_true h
  · rintro rfl
    cases x <;> exact Bool.false_ne_true h

protected theorem le_refl {x : PyFloat} (h : x ≠ nan) : le x x = true := by
  cases x with
  | fin a => exact decide_eq_true (le_refl a)
  | inf m => cases m <;> rfl
  | nan => exact absurd rfl h

protected theorem le_trans {x y z : PyFloat} (hxy : le x y = true) (hyz : le y z = true) :
    le x z = true := by
  cases y with
  | fin b =>
      cases x with
      | fin a =>
          cases z with
          | fin c =>
              exact decide_eq_true (le_trans (of_decide_eq_true hxy : a ≤ b) (of_decide_eq_true hyz))
          | inf n => exact hyz
          | nan => exact hyz
      | inf m =>
          have hm : m = true := hxy
          subst hm
          cases z with
          | fin c => rfl
          | inf n => rfl
          | nan => exact hyz
      | nan => exact hxy
  | inf k =>
      cases k with
      | false =>
          -- Nothing but itself is above it.
          cases z with
          | fin c => exact absurd hyz Bool.false_ne_true
          | inf n =>
              have hn : n = false := by simpa [le] using hyz
              subst hn
              exact hxy
          | nan => exact absurd rfl (ne_nan_of_le hyz).2
      | true =>
          cases x with
          | fin a => exact absurd hxy Bool.false_ne_true
          | inf m =>
              have hm : m = true := by simpa [le] using hxy
              subst hm
              exact hyz
          | nan => exact hxy
  | nan => exact absurd rfl (ne_nan_of_le hxy).2

theorem ofRat_of_le_neg {a : ℚ} (h : overflowAt ≤ -a) : ofRat a = inf true := by
  have hneg : a < 0 := by linarith [overflowAt_pos]
  rw [ofRat, abs_of_neg hneg, if_pos h]
  simp [hneg]

theorem le_top {x : PyFloat} (h : x ≠ nan) : le x (inf false) = true := by
  cases x with
  | fin a => rfl
  | inf m => cases m <;> rfl
  | nan => exact absurd rfl h

theorem bot_le {x : PyFloat} (h : x ≠ nan) : le (inf true) x = true := by
  cases x with
  | fin a => rfl
  | inf m => rfl
  | nan => exact absurd rfl h

/-- **Rounding keeps the order**, through overflow too. -/
theorem ofRat_mono {a b : ℚ} (h : a ≤ b) : le (ofRat a) (ofRat b) = true := by
  rcases le_or_gt overflowAt b with hb | hb
  · rw [ofRat_of_ge hb]
    exact le_top (ofRat_ne_nan a)
  · rcases le_or_gt overflowAt (-a) with ha | ha
    · rw [ofRat_of_le_neg ha]
      exact bot_le (ofRat_ne_nan b)
    · have ha' : |a| < overflowAt := abs_lt.mpr ⟨by linarith, by linarith⟩
      have hb' : |b| < overflowAt := abs_lt.mpr ⟨by linarith, by linarith⟩
      rw [ofRat_of_lt ha', ofRat_of_lt hb']
      exact decide_eq_true (fl_mono h)

/-! ## Numbers -/

/-- A number that a `float` holds, or an infinity. -/
def IsNumber : PyFloat → Prop
  | fin a => IsFloat a ∧ |a| < overflowAt
  | inf _ => True
  | nan => False

theorem IsNumber.ne_nan {x : PyFloat} (h : IsNumber x) : x ≠ nan := by
  rintro rfl
  exact h

theorem IsNumber.ofRat_eq {a : ℚ} (h : IsNumber (fin a)) : ofRat a = fin a := by
  rw [ofRat_of_lt h.2, show fl a = a from h.1]

theorem overflowAt_eq : overflowAt = 2 ^ 970 * (2 ^ 54 - 1) := by
  rw [overflowAt, mul_sub, mul_one, ← pow_add]

/-- What does not overflow is rounded to what does not. -/
theorem fl_lt_overflowAt {a : ℚ} (h : a < overflowAt) : fl a < overflowAt := by
  have hu : (0 : ℚ) < 2 ^ 970 := by positivity
  rcases lt_or_ge a (2 ^ (1023 : Int)) with hsmall | hlarge
  · have hfloat : IsFloat ((2 : ℚ) ^ (1023 : Int)) :=
      isFloat_of_multiple (n := 1) (e := 1023) (by norm_num) (by norm_num) (by norm_num)
    have hpow : (2 : ℚ) ^ (1023 : Int) = 2 ^ 970 * 2 ^ 53 := by
      rw [← pow_add, ← zpow_natCast]
      rfl
    calc fl a ≤ fl (2 ^ (1023 : Int)) := fl_mono hsmall.le
      _ = 2 ^ 970 * 2 ^ 53 := by rw [hfloat, hpow]
      _ < overflowAt := by
          rw [overflowAt_eq]
          exact mul_lt_mul_of_pos_left (by norm_num) hu
  · -- In the last binade, the next multiple of the spacing is too far away.
    have hpos : 0 < a := lt_of_lt_of_le (by positivity) hlarge
    have hlog : ilog2 a = 1023 := by
      have hle := (le_ilog2_iff hpos.ne').mpr (by rwa [abs_of_pos hpos])
      have hnot : ¬ 1024 ≤ ilog2 a := by
        rw [le_ilog2_iff hpos.ne', abs_of_pos hpos, not_le]
        calc a < overflowAt := h
          _ < 2 ^ 970 * 2 ^ 54 := by
              rw [overflowAt_eq]
              exact mul_lt_mul_of_pos_left (by norm_num) hu
          _ = 2 ^ (1024 : Int) := by
              rw [← pow_add, ← zpow_natCast]
              rfl
      omega
    have hulp : ulp a = 2 ^ 970 * 2 := by
      rw [ulp, hlog, ← pow_succ, ← zpow_natCast]
      rfl
    have hnear := (abs_le.mp (abs_fl_sub_le a)).2
    rw [hulp] at hnear
    rw [overflowAt_eq] at h ⊢
    rw [fl_eq, hulp] at hnear ⊢
    generalize roundHalfEven (a / (2 ^ 970 * 2)) = n at hnear ⊢
    generalize (2 : ℚ) ^ 970 = u at hu h hnear ⊢
    have hlt : (n : ℚ) * (u * 2) < 2 ^ 53 * (u * 2) := by linarith
    have hn : n < 2 ^ 53 := by exact_mod_cast lt_of_mul_lt_mul_right hlt (by positivity)
    have hn' : (n : ℚ) ≤ 2 ^ 53 - 1 := by exact_mod_cast Int.le_sub_one_of_lt hn
    calc (n : ℚ) * (u * 2) ≤ (2 ^ 53 - 1) * (u * 2) :=
          mul_le_mul_of_nonneg_right hn' (by positivity)
      _ = u * (2 ^ 54 - 1) - u := by ring
      _ < u * (2 ^ 54 - 1) := sub_lt_self _ hu

theorem isNumber_ofRat (a : ℚ) : IsNumber (ofRat a) := by
  rcases le_or_gt overflowAt |a| with ha | ha
  · rw [ofRat, if_pos ha]
    trivial
  · rw [ofRat_of_lt ha]
    obtain ⟨hlow, hhigh⟩ := abs_lt.mp ha
    refine ⟨isFloat_fl a, abs_lt.mpr ⟨?_, fl_lt_overflowAt hhigh⟩⟩
    have hneg := fl_lt_overflowAt (a := -a) (by linarith)
    rw [fl_neg] at hneg
    linarith

theorem add_nan (x : PyFloat) : add x nan = nan := by
  cases x <;> rfl

theorem ofRat_zero : ofRat 0 = fin 0 := by
  rw [ofRat_of_lt (by rw [abs_zero]; exact overflowAt_pos), isFloat_zero]

theorem ratio_nonneg (m n : Nat) : le (fin 0) (ratio m n) = true := by
  have hle := ofRat_mono (show (0 : ℚ) ≤ (m : ℚ) / n by positivity)
  rwa [ofRat_zero] at hle

theorem isNumber_add {x y : PyFloat} (hx : IsNumber x) (h : add x y ≠ nan) : IsNumber (add x y) := by
  cases x with
  | fin a =>
      cases y with
      | fin b => exact isNumber_ofRat (a + b)
      | inf n => trivial
      | nan => exact absurd rfl h
  | inf m =>
      cases y with
      | fin b => trivial
      | inf n =>
          cases hz : add (inf m) (inf n) with
          | fin c => cases m <;> cases n <;> cases hz
          | inf k => trivial
          | nan => exact absurd hz h
      | nan => exact absurd rfl h
  | nan => exact hx.elim

/-- A sum with what is not negative is no less. -/
theorem le_add {x y : PyFloat} (hx : IsNumber x) (hy : le (fin 0) y = true) (h : add x y ≠ nan) :
    le x (add x y) = true := by
  cases x with
  | fin a =>
      cases y with
      | fin b =>
          have hb : (0 : ℚ) ≤ b := of_decide_eq_true hy
          have hle := ofRat_mono (le_add_of_nonneg_right hb : a ≤ a + b)
          rwa [hx.ofRat_eq] at hle
      | inf n => exact hy
      | nan => exact absurd rfl h
  | inf m =>
      cases y with
      | fin b => exact PyFloat.le_refl hx.ne_nan
      | inf n =>
          cases n with
          | true => exact absurd hy Bool.false_ne_true
          | false =>
              cases m with
              | false => rfl
              | true => exact absurd rfl h
      | nan => exact absurd rfl h
  | nan => exact hx.elim

/-- A product of what is not negative is not. -/
protected theorem mul_nonneg {x y : PyFloat} (hx : le (fin 0) x = true) (hy : le (fin 0) y = true)
    (h : mul x y ≠ nan) : le (fin 0) (mul x y) = true := by
  have hinf : ∀ {n : Bool} {q : ℚ}, n = false → 0 ≤ q → infMul n q ≠ nan →
      le (fin 0) (infMul n q) = true := by
    intro n q hn hq hne
    subst hn
    unfold infMul at hne ⊢
    split
    · rename_i hq0
      exact absurd (if_pos hq0) hne
    · simp [le, hq]
  cases x with
  | fin a =>
      have ha : (0 : ℚ) ≤ a := of_decide_eq_true hx
      cases y with
      | fin b =>
          have hb : (0 : ℚ) ≤ b := of_decide_eq_true hy
          have hle := ofRat_mono (mul_nonneg ha hb)
          rwa [ofRat_zero] at hle
      | inf n => exact hinf (by simpa [le] using hy) ha h
      | nan => exact absurd rfl h
  | inf m =>
      have hm : m = false := by simpa [le] using hx
      cases y with
      | fin b => exact hinf hm (of_decide_eq_true hy) h
      | inf n =>
          have hn : n = false := by simpa [le] using hy
          subst hm hn
          rfl
      | nan => exact absurd rfl h
  | nan => exact absurd hx Bool.false_ne_true

/-- What a positive difference says. -/
theorem le_of_sub_pos {x y : PyFloat} (h : lt (fin 0) (sub y x) = true) : le x y = true := by
  cases y with
  | fin b =>
      cases x with
      | fin a =>
          refine decide_eq_true (le_of_not_gt fun hlt => ?_)
          have hle := ofRat_mono (show b + -a ≤ 0 by linarith)
          rw [ofRat_zero] at hle
          have hpos : lt (fin 0) (ofRat (b + -a)) = true := h
          cases hd : ofRat (b + -a) with
          | fin d =>
              rw [hd] at hle hpos
              exact absurd (of_decide_eq_true hpos : (0 : ℚ) < d)
                (not_lt.mpr (of_decide_eq_true hle))
          | inf n =>
              rw [hd] at hle hpos
              cases n with
              | true => exact Bool.false_ne_true hpos
              | false => exact Bool.false_ne_true hle
          | nan => exact absurd hd (ofRat_ne_nan _)
      | inf m => cases m with
        | true => rfl
        | false => exact absurd h Bool.false_ne_true
      | nan => exact absurd h Bool.false_ne_true
  | inf n =>
      cases n with
      | false =>
          refine le_top ?_
          rintro rfl
          exact Bool.false_ne_true h
      | true => cases x with
        | fin a => exact absurd h Bool.false_ne_true
        | inf m => cases m <;> exact absurd h Bool.false_ne_true
        | nan => exact absurd h Bool.false_ne_true
  | nan => cases x <;> exact absurd h Bool.false_ne_true

/-! ## Bounded numbers -/

/-- A float from `0` to `n`. -/
def Upto (n : Nat) (x : PyFloat) : Prop := ∃ q : ℚ, x = fin q ∧ IsFloat q ∧ 0 ≤ q ∧ q ≤ n

theorem upto_ofRat {n : Nat} {q : ℚ} (hn : n < 2 ^ 53) (h : 0 ≤ q) (hq : q ≤ n) :
    Upto n (ofRat q) := by
  have hlt : |q| < overflowAt := by
    rw [abs_of_nonneg h]
    calc q ≤ n := hq
      _ < 2 ^ 53 := by exact_mod_cast hn
      _ < overflowAt := overflowAt_gt
  refine ⟨fl q, ofRat_of_lt hlt, isFloat_fl q, ?_, ?_⟩
  · calc (0 : ℚ) = fl 0 := isFloat_zero.symm
      _ ≤ fl q := fl_mono h
  · calc fl q ≤ fl n := fl_mono hq
      _ = n := fl_natCast hn

theorem upto_natCast {m n : Nat} (hn : n < 2 ^ 53) (h : m ≤ n) : Upto n (fin m) :=
  ⟨m, rfl, fl_natCast (lt_of_le_of_lt h hn), by positivity, by exact_mod_cast h⟩

theorem upto_mul {x y : PyFloat} (hx : Upto 1 x) (hy : Upto 1 y) : Upto 1 (mul x y) := by
  obtain ⟨a, rfl, -, ha, ha'⟩ := hx
  obtain ⟨b, rfl, -, hb, hb'⟩ := hy
  rw [Nat.cast_one] at ha' hb'
  refine upto_ofRat (by norm_num) (mul_nonneg ha hb) ?_
  rw [Nat.cast_one]
  exact mul_le_one₀ ha' hb hb'

theorem upto_add {m n : Nat} {x y : PyFloat} (hmn : m + n < 2 ^ 53) (hx : Upto m x)
    (hy : Upto n y) : Upto (m + n) (add x y) := by
  obtain ⟨a, rfl, -, ha, ha'⟩ := hx
  obtain ⟨b, rfl, -, hb, hb'⟩ := hy
  refine upto_ofRat hmn (add_nonneg ha hb) ?_
  rw [Nat.cast_add]
  exact add_le_add ha' hb'

theorem upto_ratio {m n : Nat} (h : m ≤ n) : Upto 1 (ratio m n) := by
  refine upto_ofRat (by norm_num) (by positivity) ?_
  rw [Nat.cast_one]
  exact div_le_one_of_le₀ (by exact_mod_cast h) (by positivity)

theorem add_zero_of_upto {n : Nat} {x : PyFloat} (hn : n < 2 ^ 53) (h : Upto n x) :
    add x (fin 0) = x := by
  obtain ⟨q, rfl, hq, h0, hle⟩ := h
  have hlt : |q| < overflowAt := by
    rw [abs_of_nonneg h0]
    calc q ≤ n := hle
      _ < 2 ^ 53 := by exact_mod_cast hn
      _ < overflowAt := overflowAt_gt
  show ofRat (q + 0) = fin q
  rw [add_zero, ofRat_of_lt hlt, hq]

protected theorem lt_of_le_of_lt {x y z : PyFloat} (hxy : le x y = true) (hyz : lt y z = true) :
    lt x z = true := by
  have hxz : le x z = true := PyFloat.le_trans hxy (PyFloat.le_of_lt hyz)
  cases x with
  | fin a => cases z with
    | fin c => cases y with
      | fin b =>
          exact decide_eq_true
            (lt_of_le_of_lt (of_decide_eq_true hxy : a ≤ b) (of_decide_eq_true hyz))
      | inf n => cases n <;> contradiction
      | nan => exact absurd hyz Bool.false_ne_true
    | inf n => exact hxz
    | nan => exact hxz
  | inf m => cases z with
    | fin c => exact hxz
    | inf n => cases y with
      | fin b =>
          have hm : m = true := hxy
          have hn : n = false := by simpa [lt] using hyz
          subst hm hn
          rfl
      | inf k => cases m <;> cases k <;> cases n <;> trivial
      | nan => exact absurd hyz Bool.false_ne_true
    | nan => exact hxz
  | nan => exact hxz

/-- The difference to a lower number is no lower. -/
theorem sub_le_sub {a b c : ℚ} (h : c ≤ b) : le (sub (fin a) (fin b)) (sub (fin a) (fin c)) = true :=
  ofRat_mono (add_le_add_right (neg_le_neg h) a)

theorem sub_nonpos {a b : ℚ} (h : a ≤ b) : le (sub (fin a) (fin b)) (fin 0) = true := by
  have hle := ofRat_mono (show a + -b ≤ 0 by linarith)
  rwa [ofRat_zero] at hle

/-! ## Decimals -/

/-- Rounding to a decimal keeps the order. -/
theorem round_mono {f : PyFloat → PyFloat} {k : ℚ} (hk : 0 < k)
    (hfin : ∀ a, f (fin a) = ofRat ((roundHalfEven (k * a) : ℚ) / k))
    (hinf : ∀ n, f (inf n) = inf n) {x y : PyFloat} (h : le x y = true) : le (f x) (f y) = true := by
  have hne : ∀ {z : PyFloat}, z ≠ nan → f z ≠ nan := by
    intro z hz
    cases z with
    | fin a =>
        rw [hfin]
        exact ofRat_ne_nan _
    | inf n =>
        rw [hinf]
        exact nofun
    | nan => exact absurd rfl hz
  obtain ⟨hx, hy⟩ := ne_nan_of_le h
  cases x with
  | fin a =>
      cases y with
      | fin b =>
          have hab : a ≤ b := of_decide_eq_true h
          rw [hfin, hfin]
          refine ofRat_mono (div_le_div_of_nonneg_right ?_ hk.le)
          exact_mod_cast roundHalfEven_mono (mul_le_mul_of_nonneg_left hab hk.le)
      | inf n =>
          have hn : n = false := by simpa [le] using h
          subst hn
          rw [hinf]
          exact le_top (hne hx)
      | nan => exact absurd rfl hy
  | inf m =>
      cases m with
      | true =>
          rw [hinf]
          exact bot_le (hne hy)
      | false =>
          -- Only itself is above it.
          cases y with
          | fin b => exact absurd h Bool.false_ne_true
          | inf n =>
              rw [hinf, hinf]
              exact h
          | nan => exact absurd rfl hy
  | nan => exact absurd rfl hx

theorem round2_mono {x y : PyFloat} (h : le x y = true) : le x.round2 y.round2 = true :=
  round_mono (f := round2) (by norm_num) (fun _ => rfl) (fun _ => rfl) h

theorem round3_mono {x y : PyFloat} (h : le x y = true) : le x.round3 y.round3 = true :=
  round_mono (f := round3) (by norm_num) (fun _ => rfl) (fun _ => rfl) h

theorem isNumber_round2 {x : PyFloat} (h : x ≠ nan) : IsNumber x.round2 := by
  cases x with
  | fin a => exact isNumber_ofRat _
  | inf n => trivial
  | nan => exact absurd rfl h

/-- A number that is no less than a float is not rounded below it. -/
theorem le_abs_fl {t a : ℚ} (ht : IsFloat t) (h : t ≤ |a|) : t ≤ |fl a| := by
  rcases abs_choice a with ha | ha
  · rw [ha] at h
    calc t = fl t := ht.symm
      _ ≤ fl a := fl_mono h
      _ ≤ |fl a| := le_abs_self _
  · rw [ha] at h
    calc t = fl t := ht.symm
      _ ≤ fl (-a) := fl_mono h
      _ = -fl a := fl_neg a
      _ ≤ |fl a| := neg_le_abs _

/-- Nor is one that is no more rounded above it. -/
theorem abs_fl_le {t a : ℚ} (ht : IsFloat t) (h : |a| ≤ t) : |fl a| ≤ t := by
  obtain ⟨hlow, hhigh⟩ := abs_le.mp h
  have hneg : fl (-t) ≤ fl a := fl_mono hlow
  have hpos : fl a ≤ fl t := fl_mono hhigh
  rw [fl_neg, ht] at hneg
  rw [ht] at hpos
  exact abs_le.mpr ⟨hneg, hpos⟩

/-- Where the spacing is above a thousandth, thousandths are rounded back. -/
theorem fl_thousandths {y : ℚ} (hy : IsFloat y) (h : (2 : ℚ) ^ (43 : Int) ≤ y) :
    fl ((roundHalfEven (1000 * y) : ℚ) / 1000) = y := by
  have hpos : 0 < y := lt_of_lt_of_le (by positivity) h
  have habs : |y| = y := abs_of_pos hpos
  obtain ⟨hlow, hhigh⟩ := ilog2_spec hpos.ne'
  rw [habs] at hlow hhigh
  have hj : 43 ≤ ilog2 y := (le_ilog2_iff hpos.ne').mpr (by rwa [habs])
  have hulp : ulp y = 2 ^ (ilog2 y - 52) := by rw [ulp, max_eq_left (by omega)]
  have hspacing : (1 : ℚ) / 1000 < ulp y := by
    calc (1 : ℚ) / 1000 < 2 ^ (-9 : Int) := by norm_num
      _ ≤ ulp y := by
          rw [hulp]
          exact zpow_le_zpow_right₀ (by norm_num) (by omega)
  obtain ⟨n, hn⟩ := hy.exists_multiple
  have hbinade : ∀ e : Nat, (2 : ℚ) ^ (ilog2 y + e) = (2 ^ (52 + e) : Int) * ulp y := by
    intro e
    rw [hulp]
    push_cast
    rw [← zpow_natCast, ← zpow_add₀ (by norm_num)]
    congr 1
    push_cast
    ring
  have hround := abs_le.mp (abs_roundHalfEven_sub_le (1000 * y))
  generalize hr : (roundHalfEven (1000 * y) : ℚ) / 1000 = r at hround ⊢
  have hm : (roundHalfEven (1000 * y) : ℚ) = 1000 * r := by rw [← hr]; ring
  rw [hm] at hround
  rcases hlow.eq_or_lt with heq | hlt
  · -- A power of two is an integer here.
    obtain ⟨k, hk⟩ := Int.eq_ofNat_of_zero_le (show 0 ≤ ilog2 y by omega)
    have hint : 1000 * y = ((1000 * 2 ^ k : Int) : ℚ) := by
      rw [← heq, hk]
      push_cast
      rfl
    have hry : r = y := by
      rw [← hr, hint, roundHalfEven_intCast, ← hint]
      ring
    rw [hry]
    exact hy
  · -- Otherwise the two numbers are in one binade.
    have hstep := ulp_pos y
    have hn52 : (2 ^ 52 + 1 : Int) ≤ n := by
      have hb := hbinade 0
      rw [Nat.cast_zero, add_zero] at hb
      have hmul : ((2 ^ (52 + 0) : Int) : ℚ) * ulp y < n * ulp y := by rwa [← hb, ← hn]
      have hcast : (2 ^ (52 + 0) : Int) < n := by
        exact_mod_cast lt_of_mul_lt_mul_right hmul hstep.le
      omega
    have hn53 : n + 1 ≤ (2 ^ 53 : Int) := by
      have hb := hbinade 1
      rw [Nat.cast_one] at hb
      have hmul : n * ulp y < ((2 ^ (52 + 1) : Int) : ℚ) * ulp y := by rwa [← hb, ← hn]
      have hcast : n < (2 ^ (52 + 1) : Int) := by
        exact_mod_cast lt_of_mul_lt_mul_right hmul hstep.le
      omega
    have hrlow : (2 : ℚ) ^ ilog2 y ≤ r := by
      have hb := hbinade 0
      rw [Nat.cast_zero, add_zero] at hb
      have hmul : ((2 ^ 52 + 1 : Int) : ℚ) * ulp y ≤ n * ulp y :=
        mul_le_mul_of_nonneg_right (by exact_mod_cast hn52) hstep.le
      rw [← hn] at hmul
      rw [hb]
      push_cast at hmul ⊢
      linarith [hround.1]
    have hrhigh : r < (2 : ℚ) ^ (ilog2 y + 1) := by
      have hb := hbinade 1
      rw [Nat.cast_one] at hb
      have hmul : ((n + 1 : Int) : ℚ) * ulp y ≤ ((2 ^ 53 : Int) : ℚ) * ulp y :=
        mul_le_mul_of_nonneg_right (by exact_mod_cast hn53) hstep.le
      rw [Int.cast_add, add_mul, ← hn] at hmul
      rw [hb]
      push_cast at hmul ⊢
      linarith [hround.2]
    have hrpos : 0 < r := lt_of_lt_of_le (by positivity) hrlow
    have hrlog : ilog2 r = ilog2 y := by
      have hle := (le_ilog2_iff (k := ilog2 y) hrpos.ne').mpr (by rwa [abs_of_pos hrpos])
      have hnot : ¬ ilog2 y + 1 ≤ ilog2 r := by
        rw [le_ilog2_iff hrpos.ne', abs_of_pos hrpos, not_le]
        exact hrhigh
      omega
    have hrulp : ulp r = ulp y := by rw [ulp, ulp, hrlog]
    have hnear : |r - n * ulp r| < ulp r / 2 := by
      rw [hrulp, ← hn, abs_lt]
      constructor <;> linarith [hround.1, hround.2]
    rw [fl_eq_of_near hnear, hrulp, ← hn]

/-- A large number is one of thousandths. -/
theorem round3_of_large {y : ℚ} (hy : IsNumber (fin y)) (h : (2 : ℚ) ^ (43 : Int) ≤ |y|) :
    round3 (fin y) = fin y := by
  have hfl : fl ((roundHalfEven (1000 * y) : ℚ) / 1000) = y := by
    rcases abs_choice y with habs | habs
    · rw [habs] at h
      exact fl_thousandths hy.1 h
    · rw [habs] at h
      have hneg : IsFloat (-y) := by rw [IsFloat, fl_neg, hy.1]
      have hround := fl_thousandths hneg h
      rw [mul_neg, roundHalfEven_neg, Int.cast_neg, neg_div, fl_neg] at hround
      exact neg_inj.mp hround
  have hlt : |(roundHalfEven (1000 * y) : ℚ) / 1000| < overflowAt := by
    rcases lt_or_ge |y| (2 ^ 52) with hsmall | hlarge
    · have hround := abs_le.mp (abs_roundHalfEven_sub_le (1000 * y))
      obtain ⟨hlow, hhigh⟩ := abs_lt.mp hsmall
      refine lt_trans ?_ overflowAt_gt
      rw [abs_lt, lt_div_iff₀ (by norm_num), div_lt_iff₀ (by norm_num)]
      constructor <;> linarith [hround.1, hround.2]
    · obtain ⟨m, hm⟩ := hy.1.exists_multiple_of_le (k := 52) hlarge
      have hint : 1000 * y = ((1000 * m : Int) : ℚ) := by
        rw [hm]
        push_cast
        ring
      rw [hint, roundHalfEven_intCast, ← hint, mul_div_cancel_left₀ _ (by norm_num)]
      exact hy.2
  rw [round3, ofRat_of_lt hlt, hfl]

/-- **Hundredths are not rounded again.** -/
theorem round3_of_round2 (x : PyFloat) : x.round2.round3 = x.round2 := by
  cases x with
  | fin a =>
      generalize hk : roundHalfEven (100 * a) = k
      have hround : (fin a).round2 = ofRat ((k : ℚ) / 100) := by rw [round2, hk]
      rw [hround]
      rcases le_or_gt overflowAt |(k : ℚ) / 100| with hover | hlt
      · rw [ofRat, if_pos hover]
        rfl
      · have hnumber := isNumber_ofRat ((k : ℚ) / 100)
        rw [ofRat_of_lt hlt] at hnumber ⊢
        rcases lt_or_ge |fl ((k : ℚ) / 100)| (2 ^ (43 : Int)) with hsmall | hlarge
        · -- The number is nearer to its hundredths than half a thousandth.
          have hthousandths : roundHalfEven (1000 * fl ((k : ℚ) / 100)) = 10 * k := by
            have hq : |(k : ℚ) / 100| < 2 ^ (43 : Int) := by
              by_contra hge
              have hfloat : IsFloat ((2 : ℚ) ^ (43 : Int)) :=
                isFloat_of_multiple (n := 1) (e := 43) (by norm_num) (by norm_num) (by norm_num)
              exact absurd (le_abs_fl hfloat (not_lt.mp hge)) (not_le.mpr hsmall)
            have hulp := ulp_le_of_lt (by norm_num) hq
            have hnear := abs_le.mp (abs_fl_sub_le ((k : ℚ) / 100))
            refine roundHalfEven_of_near ?_
            rw [abs_lt]
            push_cast
            norm_num at hulp
            constructor <;> linarith [hnear.1, hnear.2]
          rw [round3, hthousandths]
          have hback : ((10 * k : Int) : ℚ) / 1000 = k / 100 := by
            push_cast
            ring
          rw [hback, ofRat_of_lt hlt]
        · exact round3_of_large hnumber hlarge
  | inf n => rfl
  | nan => rfl

end MesReunions.PyFloat
