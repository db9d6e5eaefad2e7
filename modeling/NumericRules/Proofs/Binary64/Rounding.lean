import NumericRules.Binary64.Nearest
import Mathlib.Algebra.Order.Field.Power
import Mathlib.Algebra.Order.Floor.Semifield
import Mathlib.Data.Int.Log
import Mathlib.Data.Rat.Floor
import Mathlib.Data.Nat.Log
import Mathlib.Tactic.Ring
import Mathlib.Tactic.Linarith
import Mathlib.Tactic.NormNum
import Mathlib.Tactic.FieldSimp
import Mathlib.Tactic.Positivity

/-! # Rounding of rational numbers

The size bits that a ratio or a decimal is rounded to depend on its value only,
however it is written.
-/

namespace NumericRules.Binary64

/-- The nearest natural number, a tie going to the even one. -/
def roundEven (value : ℚ) : Nat :=
  let below := ⌊value⌋₊
  if 2 * (value - below) < 1 then below
  else if 2 * (value - below) = 1 then below + below % 2
  else below + 1

/-- The size bits of the number nearest to a value that is not negative. -/
def nearestSize (value : ℚ) : Nat :=
  if value = 0 then 0
  else
    let exponent := max (Int.log 2 value - 52) leastExponent
    if greatestExponent < exponent then infiniteBits
    else
      let significand := roundEven (value / 2 ^ exponent)
      if significand = significandLimit then sizeBits (2 ^ 52) (exponent + 1)
      else sizeBits significand exponent

/-! ## Ratios -/

theorem roundQuotient_eq (numerator : Nat) {denominator : Nat} (positive : 0 < denominator) :
    roundQuotient numerator denominator = roundEven (numerator / denominator) := by
  have below : ⌊(numerator / denominator : ℚ)⌋₊ = numerator / denominator :=
    Nat.floor_div_eq_div ..
  have castPositive : (0 : ℚ) < denominator := by exact_mod_cast positive
  have remainder : (numerator / denominator : ℚ) - (numerator / denominator : Nat) =
      (numerator % denominator : Nat) / denominator := by
    have split : (numerator : ℚ) =
        denominator * (numerator / denominator : Nat) + (numerator % denominator : Nat) := by
      exact_mod_cast (Nat.div_add_mod numerator denominator).symm
    field_simp
    linarith
  have less : 2 * ((numerator % denominator : Nat) / denominator : ℚ) < 1 ↔
      2 * (numerator % denominator) < denominator := by
    rw [← mul_div_assoc, div_lt_one castPositive]
    exact_mod_cast Iff.rfl
  have equal : 2 * ((numerator % denominator : Nat) / denominator : ℚ) = 1 ↔
      2 * (numerator % denominator) = denominator := by
    rw [← mul_div_assoc, div_eq_one_iff_eq castPositive.ne']
    exact_mod_cast Iff.rfl
  simp only [roundQuotient, roundEven, below, remainder, less, equal]

theorem scaleRatio_eq (numerator : Nat) {denominator : Nat} (positive : 0 < denominator)
    (shift : Int) :
    0 < (scaleRatio numerator denominator shift).2 ∧
      ((scaleRatio numerator denominator shift).1 /
        (scaleRatio numerator denominator shift).2 : ℚ) =
        numerator / denominator / 2 ^ shift := by
  simp only [scaleRatio, Nat.pow_eq]
  split
  · rename_i negative
    refine ⟨positive, ?_⟩
    have power : (2 : ℚ) ^ shift = ((2 : ℚ) ^ (-shift).toNat)⁻¹ := by
      rw [← zpow_natCast, Int.toNat_of_nonneg (by omega), zpow_neg, inv_inv]
    rw [power]
    push_cast
    field_simp
  · rename_i nonnegative
    refine ⟨Nat.mul_pos positive (Nat.two_pow_pos _), ?_⟩
    have power : (2 : ℚ) ^ shift = (2 : ℚ) ^ shift.toNat := by
      rw [← zpow_natCast, Int.toNat_of_nonneg (by omega)]
    rw [power]
    push_cast
    field_simp

section Logarithms

variable {value : ℚ} (positive : 0 < value) (exponent : Int)

include positive

theorem log_lt_iff : Int.log 2 value < exponent ↔ value < 2 ^ exponent := by
  have bound := Int.lt_zpow_iff_log_lt (b := 2) (by decide) (x := exponent) positive
  exact_mod_cast bound.symm

theorem le_log_iff : exponent ≤ Int.log 2 value ↔ 2 ^ exponent ≤ value := by
  have bound := Int.zpow_le_iff_le_log (b := 2) (by decide) (x := exponent) positive
  exact_mod_cast bound.symm

end Logarithms

theorem log2_bounds {number : Nat} (positive : 0 < number) :
    (2 : ℚ) ^ (number.log2 : Int) ≤ number ∧ (number : ℚ) < 2 ^ ((number.log2 : Int) + 1) := by
  constructor
  · rw [zpow_natCast]
    exact_mod_cast Nat.log2_self_le positive.ne'
  · have upper : number < 2 ^ (number.log2 + 1) := Nat.lt_log2_self
    have cast : ((number.log2 : Int) + 1) = ((number.log2 + 1 : Nat) : Int) := by push_cast; rfl
    rw [cast, zpow_natCast]
    exact_mod_cast upper

/-- The leading digit is found from the lengths of both numbers. -/
theorem leadingExponent_eq {numerator denominator : Nat} (numeratorPositive : 0 < numerator)
    (denominatorPositive : 0 < denominator) :
    leadingExponent numerator denominator = Int.log 2 (numerator / denominator : ℚ) := by
  let value : ℚ := numerator / denominator
  let estimate : Int := (numerator.log2 : Int) - (denominator.log2 : Int)
  have castDenominator : (0 : ℚ) < denominator := by exact_mod_cast denominatorPositive
  have castNumerator : (0 : ℚ) < numerator := by exact_mod_cast numeratorPositive
  have positive : 0 < value := div_pos castNumerator castDenominator
  rcases log2_bounds numeratorPositive with ⟨numeratorLow, numeratorHigh⟩
  rcases log2_bounds denominatorPositive with ⟨denominatorLow, denominatorHigh⟩
  have low : 2 ^ (estimate - 1) ≤ value := by
    rw [le_div_iff₀ castDenominator]
    calc (2 : ℚ) ^ (estimate - 1) * denominator
        ≤ 2 ^ (estimate - 1) * 2 ^ ((denominator.log2 : Int) + 1) :=
          mul_le_mul_of_nonneg_left denominatorHigh.le (by positivity)
      _ = 2 ^ (numerator.log2 : Int) := by
          rw [← zpow_add₀ (by norm_num : (2 : ℚ) ≠ 0)]
          congr 1
          omega
      _ ≤ numerator := numeratorLow
  have high : value < 2 ^ (estimate + 1) := by
    rw [div_lt_iff₀ castDenominator]
    calc (numerator : ℚ) < 2 ^ ((numerator.log2 : Int) + 1) := numeratorHigh
      _ = 2 ^ (estimate + 1) * 2 ^ (denominator.log2 : Int) := by
          rw [← zpow_add₀ (by norm_num : (2 : ℚ) ≠ 0)]
          congr 1
          omega
      _ ≤ 2 ^ (estimate + 1) * denominator :=
          mul_le_mul_of_nonneg_left denominatorLow (by positivity)
  rcases scaleRatio_eq numerator denominatorPositive estimate with ⟨scaledPositive, scaled⟩
  have castScaled : (0 : ℚ) < (scaleRatio numerator denominator estimate).2 := by
    exact_mod_cast scaledPositive
  have below : (scaleRatio numerator denominator estimate).1 <
      (scaleRatio numerator denominator estimate).2 ↔ value < 2 ^ estimate := by
    rw [← div_lt_one (by positivity : (0 : ℚ) < 2 ^ estimate)]
    change _ ↔ (numerator / denominator : ℚ) / 2 ^ estimate < 1
    rw [← scaled, div_lt_one castScaled]
    exact_mod_cast Iff.rfl
  have lowLog := (le_log_iff positive (estimate - 1)).mpr low
  have highLog := (log_lt_iff positive (estimate + 1)).mpr high
  have splits := log_lt_iff positive estimate
  change leadingExponent numerator denominator = Int.log 2 value
  have unfolded : leadingExponent numerator denominator =
      if (scaleRatio numerator denominator estimate).1 <
        (scaleRatio numerator denominator estimate).2 then estimate - 1 else estimate := rfl
  rw [unfolded]
  split
  · rename_i less
    have logLess := splits.mpr (below.mp less)
    omega
  · rename_i notLess
    have logNotLess := mt splits.mp (mt below.mpr notLess)
    omega

theorem nearestRatio_eq (negative : Bool) (numerator : Nat) {denominator : Nat}
    (positive : 0 < denominator) :
    nearestRatio negative numerator denominator =
      ofSizeBits negative (nearestSize (numerator / denominator)) := by
  by_cases isZero : numerator = 0
  · subst isZero
    simp [nearestRatio, nearestSize, zero]
  · have numeratorPositive : 0 < numerator := Nat.pos_of_ne_zero isZero
    have valuePositive : (0 : ℚ) < numerator / denominator := by positivity
    have exponentEq := leadingExponent_eq numeratorPositive positive
    have rounded (exponent : Int) :
        roundQuotient (scaleRatio numerator denominator exponent).1
            (scaleRatio numerator denominator exponent).2 =
          roundEven (numerator / denominator / 2 ^ exponent) := by
      rcases scaleRatio_eq numerator positive exponent with ⟨scaledPositive, scaled⟩
      rw [roundQuotient_eq _ scaledPositive, scaled]
    rw [nearestRatio, if_neg isZero]
    simp only [nearestSizeBits, nearestSize, Nat.pow_eq, exponentEq, rounded, valuePositive.ne',
      if_false]

/-! ## Extreme values -/

/-- A value far below the smallest number is rounded to zero. -/
theorem nearestSize_of_tiny {value : ℚ} (nonnegative : 0 ≤ value)
    (tiny : value < 2 ^ (-1075 : Int)) :
    nearestSize value = 0 := by
  by_cases isZero : value = 0
  · rw [nearestSize, if_pos isZero]
  · have positive : 0 < value := lt_of_le_of_ne nonnegative (Ne.symm isZero)
    have logarithm : Int.log 2 value < -1075 := (log_lt_iff positive (-1075)).mpr tiny
    have exponent : max (Int.log 2 value - 52) leastExponent = leastExponent := by
      simp only [leastExponent]
      omega
    have scaled : value / 2 ^ leastExponent < 1 / 2 := by
      rw [div_lt_iff₀ (by positivity)]
      calc value < 2 ^ (-1075 : Int) := tiny
        _ = 1 / 2 * 2 ^ leastExponent := by
            rw [leastExponent, show (-1075 : Int) = -1 + -1074 by norm_num,
              zpow_add₀ (by norm_num : (2 : ℚ) ≠ 0), zpow_neg_one]
            norm_num
    have scaledNonnegative : 0 ≤ value / 2 ^ leastExponent := by positivity
    have below : ⌊value / 2 ^ leastExponent⌋₊ = 0 := by
      rw [Nat.floor_eq_zero]
      linarith
    have significand : roundEven (value / 2 ^ leastExponent) = 0 := by
      rw [roundEven, below, if_pos]
      push_cast
      linarith
    rw [nearestSize, if_neg isZero]
    simp only [exponent, significand]
    decide

/-- A value beyond the largest number is rounded to infinity. -/
theorem nearestSize_of_huge {value : ℚ} (huge : 2 ^ (1024 : Int) ≤ value) :
    nearestSize value = infiniteBits := by
  have positive : 0 < value := lt_of_lt_of_le (by positivity) huge
  have logarithm : 1024 ≤ Int.log 2 value := (le_log_iff positive 1024).mpr huge
  have beyond : greatestExponent < max (Int.log 2 value - 52) leastExponent := by
    simp only [greatestExponent, leastExponent]
    omega
  rw [nearestSize, if_neg positive.ne']
  simp only [beyond, if_true]

theorem lt_ten_pow (digits : Nat) : digits < 10 ^ ((digits.log2 + 1) / 3 + 1) := by
  calc digits < 2 ^ (digits.log2 + 1) := Nat.lt_log2_self
    _ ≤ 2 ^ (3 * ((digits.log2 + 1) / 3 + 1)) := Nat.pow_le_pow_right (by decide) (by omega)
    _ = 8 ^ ((digits.log2 + 1) / 3 + 1) := by rw [Nat.pow_mul]
    _ ≤ 10 ^ ((digits.log2 + 1) / 3 + 1) := Nat.pow_le_pow_left (by decide) _

theorem ten_pow_le {digits : Nat} (positive : 0 < digits) :
    10 ^ (3 * digits.log2 / 10) ≤ digits := by
  apply le_trans _ (Nat.log2_self_le positive.ne')
  rw [← Nat.pow_le_pow_iff_left (by decide : (10 : Nat) ≠ 0)]
  calc (10 ^ (3 * digits.log2 / 10)) ^ 10 = 10 ^ (3 * digits.log2 / 10 * 10) := by
        rw [← Nat.pow_mul]
    _ ≤ 10 ^ (3 * digits.log2) := Nat.pow_le_pow_right (by decide) (by omega)
    _ = 1000 ^ digits.log2 := by rw [Nat.pow_mul]
    _ ≤ 1024 ^ digits.log2 := Nat.pow_le_pow_left (by decide) _
    _ = (2 ^ digits.log2) ^ 10 := by
        rw [← Nat.pow_mul, Nat.mul_comm, Nat.pow_mul]

theorem two_pow_le_ten_pow {binary count decimal : Nat} (fewer : binary ≤ 33 * count + 1)
    (more : 10 * count + 1 ≤ decimal) : 2 ^ binary ≤ 10 ^ decimal := by
  calc 2 ^ binary ≤ 2 ^ (33 * count + 1) := Nat.pow_le_pow_right (by decide) fewer
    _ = (2 ^ 33) ^ count * 2 := by rw [Nat.pow_add_one, Nat.pow_mul]
    _ ≤ (10 ^ 10) ^ count * 10 := Nat.mul_le_mul (Nat.pow_le_pow_left (by decide) count) (by decide)
    _ = 10 ^ (10 * count + 1) := by rw [← Nat.pow_mul, ← Nat.pow_add_one]
    _ ≤ 10 ^ decimal := Nat.pow_le_pow_right (by decide) more

/-! ## Decimals -/

/-- A decimal is rounded by its value. -/
theorem nearestDecimal_eq (negative : Bool) (digits : Nat) (exponent : Int) :
    nearestDecimal negative digits exponent =
      ofSizeBits negative (nearestSize (digits * 10 ^ exponent)) := by
  have ten : (0 : ℚ) < 10 := by norm_num
  unfold nearestDecimal
  simp only
  split
  · rename_i small
    simp only [Bool.or_eq_true, decide_eq_true_eq] at small
    by_cases isZero : digits = 0
    · simp [isZero, nearestSize, zero]
    · have tiny : (digits * 10 ^ exponent : ℚ) < 2 ^ (-1075 : Int) := by
        have exponentLow := small.resolve_left isZero
        let count := (digits.log2 + 1) / 3 + 1
        have digitsLow : (digits : ℚ) < 10 ^ (count : Int) := by
          rw [zpow_natCast]
          exact_mod_cast lt_ten_pow digits
        have powers : (2 : ℚ) ^ (1075 : Int) ≤ 10 ^ (331 : Int) := by
          have wide : 2 ^ 1075 ≤ 10 ^ 331 :=
            two_pow_le_ten_pow (by decide : 1075 ≤ 33 * 33 + 1) (by decide)
          exact_mod_cast wide
        calc (digits * 10 ^ exponent : ℚ)
            < 10 ^ (count : Int) * 10 ^ exponent :=
              mul_lt_mul_of_pos_right digitsLow (by positivity)
          _ = 10 ^ ((count : Int) + exponent) := by rw [zpow_add₀ ten.ne']
          _ ≤ 10 ^ (-331 : Int) := zpow_le_zpow_right₀ (by norm_num) (by omega)
          _ = (10 ^ (331 : Int))⁻¹ := by rw [zpow_neg]
          _ ≤ (2 ^ (1075 : Int))⁻¹ := inv_anti₀ (by positivity) powers
          _ = 2 ^ (-1075 : Int) := by rw [zpow_neg]
      rw [nearestSize_of_tiny (by positivity) tiny, zero]
  · rename_i notSmall
    simp only [Bool.or_eq_true, decide_eq_true_eq, not_or] at notSmall
    have positive : 0 < digits := Nat.pos_of_ne_zero notSmall.1
    split
    · rename_i large
      have huge : (2 : ℚ) ^ (1024 : Int) ≤ digits * 10 ^ exponent := by
        let count := 3 * digits.log2 / 10
        have digitsHigh : (10 : ℚ) ^ (count : Int) ≤ digits := by
          rw [zpow_natCast]
          exact_mod_cast ten_pow_le positive
        have powers : (2 : ℚ) ^ (1024 : Int) ≤ 10 ^ (311 : Int) := by
          have wide : 2 ^ 1024 ≤ 10 ^ 311 :=
            two_pow_le_ten_pow (by decide : 1024 ≤ 33 * 31 + 1) (by decide)
          exact_mod_cast wide
        calc (2 : ℚ) ^ (1024 : Int) ≤ 10 ^ (311 : Int) := powers
          _ ≤ 10 ^ ((count : Int) + exponent) := zpow_le_zpow_right₀ (by norm_num) (by omega)
          _ = 10 ^ (count : Int) * 10 ^ exponent := by rw [zpow_add₀ ten.ne']
          _ ≤ digits * 10 ^ exponent := mul_le_mul_of_nonneg_right digitsHigh (by positivity)
      rw [nearestSize_of_huge huge, infinity]
    · split
      · rename_i fraction
        have power : (10 : ℚ) ^ exponent = ((10 ^ (-exponent).toNat : Nat) : ℚ)⁻¹ := by
          push_cast
          rw [← zpow_natCast, Int.toNat_of_nonneg (by omega), zpow_neg, inv_inv]
        rw [Nat.pow_eq, nearestRatio_eq negative digits (by positivity), power, div_eq_mul_inv]
      · rename_i whole
        have power : (10 : ℚ) ^ exponent = ((10 ^ exponent.toNat : Nat) : ℚ) := by
          push_cast
          rw [← zpow_natCast, Int.toNat_of_nonneg (by omega)]
        rw [Nat.pow_eq, nearestRatio_eq negative _ (by decide), power]
        push_cast
        rw [div_one]

/-! ## Exact values -/

/-- Significand and exponent of a finite number. -/
structure IsFinite (significand : Nat) (exponent : Int) : Prop where
  significand_lt : significand < significandLimit
  exponent_ge : leastExponent ≤ exponent
  exponent_le : exponent ≤ greatestExponent
  normal : significand < 2 ^ 52 → exponent = leastExponent

theorem roundEven_natCast (number : Nat) : roundEven number = number := by
  have below : ⌊(number : ℚ)⌋₊ = number := Nat.floor_natCast number
  simp [roundEven, below]

/-- A value of the format is rounded to itself. -/
theorem IsFinite.nearestSize_eq {significand : Nat} {exponent : Int}
    (finite : IsFinite significand exponent) (positive : 0 < significand) :
    nearestSize (significand * 2 ^ exponent) = sizeBits significand exponent := by
  have valuePositive : (0 : ℚ) < significand * 2 ^ exponent := by positivity
  have upper : Int.log 2 (significand * 2 ^ exponent : ℚ) < 53 + exponent := by
    rw [log_lt_iff valuePositive, zpow_add₀ (by norm_num : (2 : ℚ) ≠ 0)]
    apply mul_lt_mul_of_pos_right _ (by positivity)
    exact_mod_cast finite.significand_lt
  have chosen : max (Int.log 2 (significand * 2 ^ exponent : ℚ) - 52) leastExponent = exponent := by
    have low := finite.exponent_ge
    by_cases subnormal : significand < 2 ^ 52
    · rw [finite.normal subnormal] at upper ⊢
      have logarithm : Int.log 2 (significand * 2 ^ leastExponent : ℚ) < 52 + leastExponent := by
        rw [finite.normal subnormal] at valuePositive
        rw [log_lt_iff valuePositive, zpow_add₀ (by norm_num : (2 : ℚ) ≠ 0)]
        apply mul_lt_mul_of_pos_right _ (by positivity)
        exact_mod_cast subnormal
      omega
    · have logarithm : 52 + exponent ≤ Int.log 2 (significand * 2 ^ exponent : ℚ) := by
        rw [le_log_iff valuePositive, zpow_add₀ (by norm_num : (2 : ℚ) ≠ 0)]
        apply mul_le_mul_of_nonneg_right _ (by positivity)
        exact_mod_cast Nat.not_lt.mp subnormal
      omega
  have scaled : (significand * 2 ^ exponent / 2 ^ exponent : ℚ) = significand :=
    mul_div_cancel_right₀ _ (by positivity)
  have fits : ¬ greatestExponent < exponent := not_lt.mpr finite.exponent_le
  have notLimit : significand ≠ significandLimit := Nat.ne_of_lt finite.significand_lt
  rw [nearestSize, if_neg valuePositive.ne']
  simp only [chosen, fits, if_false, scaled, roundEven_natCast, notLimit]

end NumericRules.Binary64
