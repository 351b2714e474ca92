import MesReunions.Base.Str

/-!
# Numbers as a Python program sees and prints them

* **Decimal text** — `strOfNat` is `str(n)`, `pad2` is `f"{n:02d}"`; both are
  read back by `Str.natOfDigits`.
* **Rounding** — `roundHalfEven` is the built-in `round(x)`; `fl` is rounding
  to the nearest binary64, ties to even. A finite float is represented by the
  rational it denotes, so an IEEE operation is `fl` of the exact one.
* **`PyFloat`** — a float that may also be infinite or a `nan`; `ofRat` rounds, and
  overflows where binary64 does.
-/

namespace MesReunions

open Str

/-- The exceptions of conversions and attribute lookups. -/
inductive PyError where
  | typeError
  | valueError
  | overflowError
  | attributeError
  deriving DecidableEq

/-- The most digits `int(s)` reads. -/
def maxStrDigits : Nat := 4300

/-! ## Decimal text -/

/-- The character of a digit below ten. -/
def digitChar (d : Nat) : Char := Char.ofNat (48 + d)

/-- `str(n)` -/
def strOfNat (n : Nat) : Str :=
  if n = 0 then ['0'] else (Nat.digits 10 n).reverse.map digitChar

/-- `str(n)` for a possibly negative `n`. -/
def strOfInt (n : Int) : Str :=
  if n < 0 then '-' :: strOfNat n.natAbs else strOfNat n.natAbs

/-- `f"{n:02d}"` for `n ≥ 0`. -/
def pad2 (n : Nat) : Str := if n < 10 then '0' :: strOfNat n else strOfNat n

/-- An ASCII digit has the same value in every dialect. -/
theorem digitVal?_of_js {c : Char} (h : isDigitJs c = true) :
    digitVal? c = some (c.toNat - 48) := by
  simp only [isDigitJs, Bool.and_eq_true, decide_eq_true_eq] at h
  have hfirst : (decide (0x30 ≤ c.toNat) && decide (c.toNat < 0x30 + 10)) = true := by
    simp only [Bool.and_eq_true, decide_eq_true_eq]
    omega
  simp only [digitVal?, decimalZeros, List.find?_cons, hfirst, Option.map_some]

theorem isDigit_of_js {c : Char} (h : isDigitJs c = true) : isDigit c = true := by
  simp [isDigit, digitVal?_of_js h]

theorem digitChar_js : ∀ d < 10, isDigitJs (digitChar d) = true := by decide

theorem digitVal?_digitChar {d : Nat} (h : d < 10) : digitVal? (digitChar d) = some d := by
  have hv : ∀ d < 10, (digitChar d).toNat - 48 = d := by decide
  rw [digitVal?_of_js (digitChar_js d h), hv d h]

theorem strOfNat_ne_nil (n : Nat) : strOfNat n ≠ [] := by
  unfold strOfNat
  split
  · simp
  · rename_i hn
    simpa [Nat.digits_eq_nil_iff_eq_zero] using hn

/-- A number below `10 ^ k` has at most `k` digits. -/
theorem length_strOfNat_le {n k : Nat} (hk : 0 < k) (h : n < 10 ^ k) :
    (strOfNat n).length ≤ k := by
  unfold strOfNat
  split
  · exact hk
  · rw [List.length_map, List.length_reverse]
    exact (Nat.digits_length_le_iff (by decide) n).mpr h

theorem js_of_mem_strOfNat {n : Nat} {c : Char} (h : c ∈ strOfNat n) :
    isDigitJs c = true := by
  unfold strOfNat at h
  split at h
  · rw [List.mem_singleton.mp h]; decide
  · obtain ⟨d, hd, rfl⟩ := List.mem_map.mp h
    exact digitChar_js d (Nat.digits_lt_base (by decide) (List.mem_reverse.mp hd))

/-- Reading a list of digit characters is `Nat.ofDigits` of their values. -/
theorem natOfDigits_map_digitChar (ds : List Nat) (h : ∀ d ∈ ds, d < 10) :
    natOfDigits (ds.reverse.map digitChar) = Nat.ofDigits 10 ds := by
  rw [Nat.ofDigits_eq_foldr, natOfDigits, List.foldl_map, List.foldl_reverse]
  induction ds with
  | nil => rfl
  | cons d ds ih =>
      have hd : d < 10 := h d List.mem_cons_self
      rw [List.foldr_cons, List.foldr_cons, ih fun x hx => h x (List.mem_cons_of_mem _ hx),
        digitVal?_digitChar hd]
      simp only [Option.getD_some, Nat.cast_id]
      omega

/-- **Decimal round trip.** -/
@[simp] theorem natOfDigits_strOfNat (n : Nat) : natOfDigits (strOfNat n) = n := by
  unfold strOfNat
  split
  · rename_i hn
    rw [hn]; decide
  · rw [natOfDigits_map_digitChar _ fun d hd => Nat.digits_lt_base (by decide) hd,
      Nat.ofDigits_digits]

theorem strOfInt_natCast (n : Nat) : strOfInt n = strOfNat n := by
  simp [strOfInt]

/-- A printed integer is digits, after a sign. -/
theorem mem_strOfInt {n : Int} {c : Char} (h : c ∈ strOfInt n) : isDigitJs c = true ∨ c = '-' := by
  unfold strOfInt at h
  split at h
  · rcases List.mem_cons.mp h with rfl | h
    · exact Or.inr rfl
    · exact Or.inl (js_of_mem_strOfNat h)
  · exact Or.inl (js_of_mem_strOfNat h)

theorem pad2_ne_nil (n : Nat) : pad2 n ≠ [] := by
  unfold pad2
  split
  · simp
  · exact strOfNat_ne_nil n

theorem js_of_mem_pad2 {n : Nat} {c : Char} (h : c ∈ pad2 n) : isDigitJs c = true := by
  unfold pad2 at h
  split at h
  · rcases List.mem_cons.mp h with rfl | h
    · decide
    · exact js_of_mem_strOfNat h
  · exact js_of_mem_strOfNat h

@[simp] theorem natOfDigits_pad2 (n : Nat) : natOfDigits (pad2 n) = n := by
  unfold pad2
  split
  · have hz : natOfDigits ('0' :: strOfNat n) = natOfDigits (strOfNat n) := by
      have hv : (digitVal? '0').getD 0 = 0 := by decide
      simp [natOfDigits, hv]
    rw [hz, natOfDigits_strOfNat]
  · exact natOfDigits_strOfNat n

/-! ## Rounding -/

/-- `round(x)`: the nearest integer, the even one of two. -/
def roundHalfEven (q : ℚ) : Int :=
  let f := ⌊q⌋
  let d := q - f
  if d < 1 / 2 then f
  else if 1 / 2 < d then f + 1
  else if f % 2 = 0 then f else f + 1

@[simp] theorem roundHalfEven_intCast (n : Int) : roundHalfEven (n : ℚ) = n := by
  simp [roundHalfEven]

@[simp] theorem roundHalfEven_natCast (n : Nat) : roundHalfEven (n : ℚ) = n := by
  simpa using roundHalfEven_intCast (n : Int)

theorem roundHalfEven_nonneg {q : ℚ} (h : 0 ≤ q) : 0 ≤ roundHalfEven q := by
  have hfloor : 0 ≤ ⌊q⌋ := Int.floor_nonneg.mpr h
  simp only [roundHalfEven]
  split
  · exact hfloor
  · split
    · omega
    · split <;> omega

/-- `⌊log₂ |q|⌋` for `q ≠ 0`. -/
def ilog2 (q : ℚ) : Int :=
  let k : Int := (Nat.log2 q.num.natAbs : Int) - (Nat.log2 q.den : Int)
  if (2 : ℚ) ^ k ≤ |q| then k else k - 1

/-- The nearest binary64, ties to even. -/
def fl (q : ℚ) : ℚ :=
  let ulp : ℚ := (2 : ℚ) ^ (max (ilog2 q) (-1022) - 52)
  roundHalfEven (q / ulp) * ulp

theorem fl_nonneg {q : ℚ} (h : 0 ≤ q) : 0 ≤ fl q := by
  have hulp : (0 : ℚ) < (2 : ℚ) ^ (max (ilog2 q) (-1022) - 52) := by positivity
  simp only [fl]
  exact mul_nonneg (Int.cast_nonneg (roundHalfEven_nonneg (div_nonneg h hulp.le))) hulp.le

theorem ilog2_natCast {n : Nat} (h : n ≠ 0) : ilog2 (n : ℚ) = Nat.log2 n := by
  have hpow : ((2 : ℚ) ^ ((Nat.log2 n : Nat) : Int)) ≤ |(n : ℚ)| := by
    rw [zpow_natCast, abs_of_nonneg (by positivity)]
    exact_mod_cast Nat.log2_self_le h
  have hden : Nat.log2 1 = 0 := by decide
  simp only [ilog2, Rat.num_natCast, Rat.den_natCast, Int.natAbs_natCast, hden,
    Nat.cast_zero, sub_zero]
  rw [if_pos hpow]

/-- An integer of at most 53 bits is a binary64. -/
theorem fl_natCast {n : Nat} (h : n < 2 ^ 53) : fl (n : ℚ) = n := by
  by_cases hn : n = 0
  · subst hn
    simp [fl, roundHalfEven]
  have hlog : Nat.log2 n < 53 := (Nat.log2_lt hn).mpr h
  obtain ⟨k, hk⟩ : ∃ k : Nat, k + Nat.log2 n = 52 := ⟨52 - Nat.log2 n, by omega⟩
  have hulp : (2 : ℚ) ^ (max (ilog2 (n : ℚ)) (-1022) - 52) = ((2 : ℚ) ^ k)⁻¹ := by
    rw [ilog2_natCast hn, max_eq_left (by omega), ← zpow_natCast, ← zpow_neg]
    congr 1
    omega
  have hint : (n : ℚ) / ((2 : ℚ) ^ k)⁻¹ = ((n * 2 ^ k : Nat) : ℚ) := by
    rw [div_inv_eq_mul]
    push_cast
    ring
  simp only [fl, hulp, hint, roundHalfEven_natCast]
  push_cast
  field_simp

/-! ## Floats -/

/-- A `float`: a finite one is the rational it denotes. -/
inductive PyFloat where
  | fin (q : ℚ)
  | inf (negative : Bool)
  | nan
  deriving DecidableEq

/-- From here on a magnitude rounds to infinity. -/
def overflowAt : ℚ := 2 ^ 1024 - 2 ^ 970

/-- The float nearest to a number. -/
def PyFloat.ofRat (q : ℚ) : PyFloat := if overflowAt ≤ |q| then .inf (q < 0) else .fin (fl q)

/-- `x + y` -/
def PyFloat.add : PyFloat → PyFloat → PyFloat
  | .fin a, .fin b => ofRat (a + b)
  | .fin _, y => y
  | x, .fin _ => x
  | .inf m, .inf n => if m = n then .inf m else .nan
  | _, _ => .nan

/-- `-x` -/
def PyFloat.neg : PyFloat → PyFloat
  | .fin a => .fin (-a)
  | .inf m => .inf !m
  | .nan => .nan

/-- `x * y` for a finite, positive `y`. -/
def PyFloat.scale (y : ℚ) : PyFloat → PyFloat
  | .fin a => ofRat (a * y)
  | x => x

/-- `x < y` for a finite `y`. -/
def PyFloat.ltRat (x : PyFloat) (y : ℚ) : Bool :=
  match x with
  | .fin a => a < y
  | .inf negative => negative
  | .nan => false

theorem overflowAt_gt : (2 : ℚ) ^ 53 < overflowAt := by
  have hsplit : overflowAt = 2 ^ 970 * (2 ^ 54 - 1) := by
    rw [overflowAt, mul_sub, mul_one, ← pow_add]
  have hone : (1 : ℚ) ≤ 2 ^ 970 := one_le_pow₀ (by norm_num)
  rw [hsplit]
  calc (2 : ℚ) ^ 53 < 1 * (2 ^ 54 - 1) := by norm_num
    _ ≤ 2 ^ 970 * (2 ^ 54 - 1) := mul_le_mul_of_nonneg_right hone (by norm_num)

/-- A small integer is a float. -/
theorem PyFloat.ofRat_natCast {n : Nat} (h : n < 2 ^ 53) : ofRat (n : ℚ) = .fin n := by
  have hlt : |(n : ℚ)| < overflowAt := by
    rw [abs_of_nonneg (by positivity)]
    exact lt_trans (by exact_mod_cast h) overflowAt_gt
  rw [ofRat, if_neg (not_le.mpr hlt), fl_natCast h]

end MesReunions
