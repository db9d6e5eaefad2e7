import NumericRules.Binary64.Whole
import NumericRules.Proofs.Binary64.Decimal

/-! # Exact values

A finite number has an exact value, a rational. The whole part of a number is that
value with the fraction dropped, and an integer becomes the number whose value is
the nearest integer of at most 53 binary digits, zeros behind them not counted.
-/

namespace NumericRules.Binary64

/-! ## Values of finite numbers -/

/-- A size with a sign. -/
def applySign {α : Type} [Neg α] (negative : Bool) (size : α) : α :=
  if negative then -size else size

/-- The value of a finite number; 0 for what has none. -/
def exact (value : Binary64) : ℚ :=
  match parts value with
  | .finite negative significand exponent => applySign negative (significand * 2 ^ exponent)
  | _ => 0

/-- A value with its fraction dropped. -/
def truncated (value : ℚ) : ℤ := if value < 0 then ⌈value⌉ else ⌊value⌋

theorem natAbs_applySign (negative : Bool) (size : Nat) :
    (applySign negative (size : ℤ)).natAbs = size := by
  cases negative <;> simp [applySign]

theorem truncated_applySign (negative : Bool) {size : ℚ} (nonnegative : 0 ≤ size) :
    truncated (applySign negative size) = applySign negative ⌊size⌋ := by
  cases negative with
  | false => exact if_neg (not_lt.mpr nonnegative)
  | true =>
      simp only [applySign, if_true, truncated, Left.neg_neg_iff]
      split
      · rw [Int.ceil_neg]
      · rename_i zero
        have isZero : size = 0 := le_antisymm (not_lt.mp zero) nonnegative
        simp [isZero]

@[simp] theorem truncated_intCast (value : ℤ) : truncated value = value := by
  simp [truncated]

theorem truncated_le {value : ℚ} {bound : ℤ} (below : value ≤ bound) : truncated value ≤ bound := by
  rw [truncated]
  split
  · exact Int.ceil_le.mpr below
  · exact Int.cast_le.mp ((Int.floor_le value).trans below)

/-- Dropping the fraction moves a value by less than one. -/
theorem abs_sub_truncated_lt (value : ℚ) : |value - truncated value| < 1 := by
  rw [truncated, abs_lt]
  split
  · have above := Int.le_ceil value
    have near := Int.ceil_lt_add_one value
    constructor <;> linarith
  · have below := Int.floor_le value
    have near := Int.lt_floor_add_one value
    constructor <;> linarith

/-- Dropping the fraction lowers a value exactly if it is positive and has one. -/
theorem le_truncated_iff {value : ℚ} :
    value ≤ truncated value ↔ value ≤ 0 ∨ ∃ whole : ℤ, value = whole := by
  constructor
  · intro notLower
    rcases lt_or_ge value 0 with negative | nonnegative
    · exact .inl negative.le
    · rw [truncated, if_neg (not_lt.mpr nonnegative)] at notLower
      exact .inr ⟨⌊value⌋, le_antisymm notLower (Int.floor_le value)⟩
  · rintro (negative | ⟨whole, rfl⟩)
    · rw [truncated]
      split
      · exact Int.le_ceil value
      · rename_i nonnegative
        have zero : value = 0 := le_antisymm negative (not_lt.mp nonnegative)
        simp [zero]
    · rw [truncated_intCast]

/-- The whole part of a finite number is its value with the fraction dropped. -/
theorem wholePart?_eq {value : Binary64} (finite : value.isFinite = true) :
    wholePart? value = some (truncated value.exact) := by
  rcases parts_of_isFinite finite with ⟨significand, exponent, partsEq, -, -⟩
  have floor : ((if exponent < 0 then significand / Nat.pow 2 (-exponent).toNat
      else significand * Nat.pow 2 exponent.toNat : Nat) : ℤ) =
      ⌊(significand * 2 ^ exponent : ℚ)⌋ := by
    simp only [Nat.pow_eq]
    split
    · rename_i below
      have power : (2 : ℚ) ^ exponent = ((2 ^ (-exponent).toNat : Nat) : ℚ)⁻¹ := by
        push_cast
        rw [← zpow_natCast, Int.toNat_of_nonneg (by omega), zpow_neg, inv_inv]
      rw [power, ← div_eq_mul_inv, Rat.floor_natCast_div_natCast, Int.natCast_div]
    · rename_i whole
      have power : (2 : ℚ) ^ exponent = ((2 ^ exponent.toNat : Nat) : ℚ) := by
        push_cast
        rw [← zpow_natCast, Int.toNat_of_nonneg (by omega)]
      rw [power, ← Nat.cast_mul, Int.floor_natCast]
  have nonnegative : (0 : ℚ) ≤ significand * 2 ^ exponent := by positivity
  rw [wholePart?, exact, partsEq]
  simp only [truncated_applySign _ nonnegative, ← floor]
  rfl

/-- A large finite number has no fraction. -/
theorem exact_eq_truncated {value : Binary64} (finite : value.isFinite = true)
    (large : 2 ^ 53 ≤ |value.exact|) : value.exact = truncated value.exact := by
  rcases parts_of_isFinite finite with ⟨significand, exponent, partsEq, bounds, -⟩
  have limit := bounds.significand_lt
  simp only [significandLimit, Nat.pow_eq] at limit
  have exactEq : value.exact = applySign value.isNegative (significand * 2 ^ exponent : ℚ) := by
    rw [exact, partsEq]
  have nonnegative : (0 : ℚ) ≤ significand * 2 ^ exponent := by positivity
  have size : |value.exact| = significand * 2 ^ exponent := by
    rw [exactEq]
    cases value.isNegative <;> simp [applySign]
  have whole : 0 ≤ exponent := by
    by_contra negative
    have power : (2 : ℚ) ^ exponent ≤ 1 := by
      rw [← zpow_zero (2 : ℚ)]
      exact zpow_le_zpow_right₀ (by norm_num) (by omega)
    have limitCast : (significand : ℚ) < 2 ^ 53 := by exact_mod_cast limit
    have small : (significand : ℚ) * 2 ^ exponent ≤ significand :=
      mul_le_of_le_one_right (by positivity) power
    linarith
  have floor : ((⌊(significand * 2 ^ exponent : ℚ)⌋ : ℤ) : ℚ) = significand * 2 ^ exponent := by
    rw [← Int.toNat_of_nonneg whole, zpow_natCast]
    have natural : (significand * 2 ^ exponent.toNat : ℚ) =
        ((significand * 2 ^ exponent.toNat : Nat) : ℚ) := by push_cast; rfl
    rw [natural, Int.floor_natCast]
    rfl
  rw [exactEq, truncated_applySign _ nonnegative, ← floor]
  cases value.isNegative <;> simp [applySign]

/-- An integer held in a word of 64 bits stops at the ends of the word. -/
def clampedWord (value : ℤ) : ℤ := max leastWord (min greatestWord value)

theorem clampedWord_of_mem {value : ℤ} (low : leastWord ≤ value) (high : value ≤ greatestWord) :
    clampedWord value = value := by
  rw [clampedWord, min_eq_right high, max_eq_right low]

theorem clampedWord_of_lt {value : ℤ} (low : value < leastWord) :
    clampedWord value = leastWord := by
  rw [clampedWord, min_eq_right (low.le.trans (by decide)), max_eq_left low.le]

theorem clampedWord_of_gt {value : ℤ} (high : greatestWord < value) :
    clampedWord value = greatestWord := by
  rw [clampedWord, min_eq_left high.le, max_eq_right (by decide)]

/-- The word of a finite number holds its value with the fraction dropped, as far
as the word reaches. -/
theorem toWord_eq {value : Binary64} (finite : value.isFinite = true) :
    toWord value = clampedWord (truncated value.exact) := by
  have whole := wholePart?_eq finite
  rcases parts_of_isFinite finite with ⟨significand, exponent, partsEq, -, -⟩
  simp only [toWord, partsEq, whole, Option.getD_some, clampedWord]

/-! ## Numbers of given parts -/

section Parts

variable {significand : Nat} {exponent : Int} (finite : IsFinite significand exponent)

include finite

theorem IsFinite.sizeBits_lt : sizeBits significand exponent < infiniteBits := by
  have limit := finite.significand_lt
  have low := finite.exponent_ge
  have high := finite.exponent_le
  simp only [significandLimit, leastExponent, greatestExponent, Nat.pow_eq] at limit low high
  simp only [sizeBits, infiniteBits, Nat.pow_eq]
  split <;> omega

theorem IsFinite.toNat_ofSizeBits (negative : Bool) :
    (ofSizeBits negative (sizeBits significand exponent)).bits.toNat =
      (if negative then 2 ^ 63 else 0) + sizeBits significand exponent := by
  have less := finite.sizeBits_lt
  simp only [infiniteBits, Nat.pow_eq] at less
  simp only [ofSizeBits, Nat.pow_eq, UInt64.toNat_ofNat']
  cases negative <;> simp only [if_true, if_false, Bool.false_eq_true] <;> omega

/-- A number put together of parts has these parts. -/
theorem IsFinite.parts_ofSizeBits (negative : Bool) :
    parts (ofSizeBits negative (sizeBits significand exponent)) =
      .finite negative significand exponent := by
  have limit := finite.significand_lt
  have low := finite.exponent_ge
  have high := finite.exponent_le
  have normal := finite.normal
  simp only [significandLimit, leastExponent, greatestExponent, Nat.pow_eq] at limit low high normal
  rw [parts, finite.toNat_ofSizeBits]
  have less := finite.sizeBits_lt
  simp only [infiniteBits, Nat.pow_eq] at less
  generalize size : sizeBits significand exponent = bits at less ⊢
  simp only [sizeBits, Nat.pow_eq] at size
  have sign : (((if negative then 2 ^ 63 else 0) + bits) / 2 ^ 63 % 2 == 1) = negative := by
    cases negative <;> simp <;> omega
  have field : ((if negative then 2 ^ 63 else 0) + bits) / 2 ^ 52 % 2 ^ 11 = bits / 2 ^ 52 := by
    cases negative <;> simp only [if_true, if_false, Bool.false_eq_true] <;> omega
  have fraction : ((if negative then 2 ^ 63 else 0) + bits) % 2 ^ 52 = bits % 2 ^ 52 := by
    cases negative <;> simp only [if_true, if_false, Bool.false_eq_true] <;> omega
  simp only [Parts.ofBits, Nat.pow_eq, sign, field, fraction]
  have notSpecial : bits / 2 ^ 52 ≠ 2047 := by omega
  rw [if_neg notSpecial]
  by_cases subnormal : significand < 2 ^ 52
  · rw [if_pos subnormal] at size
    have noField : bits / 2 ^ 52 = 0 := by omega
    have same : bits % 2 ^ 52 = significand := by omega
    rw [if_pos noField, same, normal subnormal]
    rfl
  · rw [if_neg subnormal] at size
    have someField : bits / 2 ^ 52 = (exponent + 1075).toNat := by omega
    have notLeast : bits / 2 ^ 52 ≠ 0 := by omega
    have same : bits % 2 ^ 52 = significand - 2 ^ 52 := by omega
    have digits : 2 ^ 52 + (significand - 2 ^ 52) = significand :=
      Nat.add_sub_cancel' (Nat.not_lt.mp subnormal)
    have power : ((exponent + 1075).toNat : ℤ) - 1075 = exponent := by omega
    rw [if_neg notLeast, someField, same, digits, power]

theorem IsFinite.isFinite_ofSizeBits (negative : Bool) :
    (ofSizeBits negative (sizeBits significand exponent)).isFinite = true := by
  have less := finite.sizeBits_lt
  apply decide_eq_true
  rw [magnitude, finite.toNat_ofSizeBits]
  simp only [infiniteBits, Nat.pow_eq] at less ⊢
  cases negative <;> simp only [if_true, if_false, Bool.false_eq_true] <;> omega

theorem IsFinite.exact_ofSizeBits (negative : Bool) :
    (ofSizeBits negative (sizeBits significand exponent)).exact =
      applySign negative (significand * 2 ^ exponent : ℚ) := by
  rw [exact, finite.parts_ofSizeBits]

end Parts

/-! ## Integers of few digits -/

/-- A number of at most 53 binary digits with zeros behind them. -/
def FewDigits (number : Nat) : Prop :=
  ∃ significand shift, significand < 2 ^ 53 ∧ number = significand * 2 ^ shift

theorem fewDigits_of_lt {number : Nat} (small : number < 2 ^ 53) : FewDigits number :=
  ⟨number, 0, small, (Nat.mul_one number).symm⟩

/-- What is left of a number of few digits after taking away another one has few
digits: it is a multiple of the lower one of the two last places, and below both
numbers. -/
theorem FewDigits.mod {dividend divisor : Nat} (few : FewDigits dividend)
    (divisorFew : FewDigits divisor) : FewDigits (dividend % divisor) := by
  rcases few with ⟨significand, shift, small, rfl⟩
  rcases divisorFew with ⟨divisorSignificand, divisorShift, divisorSmall, rfl⟩
  rcases Nat.le_total shift divisorShift with lower | lower
  · have split : 2 ^ divisorShift = 2 ^ (divisorShift - shift) * 2 ^ shift := by
      rw [← Nat.pow_add, Nat.sub_add_cancel lower]
    refine ⟨significand % (divisorSignificand * 2 ^ (divisorShift - shift)), shift, ?_, ?_⟩
    · exact lt_of_le_of_lt (Nat.mod_le _ _) small
    · rw [split, ← Nat.mul_assoc, Nat.mul_mod_mul_right]
  · have split : 2 ^ shift = 2 ^ (shift - divisorShift) * 2 ^ divisorShift := by
      rw [← Nat.pow_add, Nat.sub_add_cancel lower]
    rcases Nat.eq_zero_or_pos divisorSignificand with none | positive
    · rw [none, Nat.zero_mul, Nat.mod_zero]
      exact ⟨significand, shift, small, rfl⟩
    · refine ⟨significand * 2 ^ (shift - divisorShift) % divisorSignificand, divisorShift, ?_, ?_⟩
      · exact lt_trans (Nat.mod_lt _ positive) divisorSmall
      · rw [split, ← Nat.mul_assoc, Nat.mul_mod_mul_right]

/-- The whole part of a finite number has few digits. -/
theorem fewDigits_truncated {value : Binary64} (finite : value.isFinite = true) :
    FewDigits (truncated value.exact).natAbs := by
  have whole := wholePart?_eq finite
  rcases parts_of_isFinite finite with ⟨significand, exponent, partsEq, bounds, -⟩
  have limit := bounds.significand_lt
  simp only [significandLimit, Nat.pow_eq] at limit
  simp only [wholePart?, partsEq, Nat.pow_eq, Option.some.injEq] at whole
  have size : (truncated value.exact).natAbs =
      if exponent < 0 then significand / 2 ^ (-exponent).toNat
      else significand * 2 ^ exponent.toNat := by
    rw [← whole, ← applySign, natAbs_applySign]
  rw [size]
  split
  · exact fewDigits_of_lt (lt_of_le_of_lt (Nat.div_le_self _ _) limit)
  · exact ⟨significand, exponent.toNat, limit, rfl⟩

/-! ## Integers as numbers -/

/-- How far apart the numbers about a natural number are, as long as they are
integers. -/
def spacing (number : Nat) : Nat := 2 ^ (number.log2 - 52)

/-- The nearest natural number of few digits, a tie going to the even digits. -/
def rounded (number : Nat) : Nat := roundQuotient number (spacing number) * spacing number

theorem spacing_pos (number : Nat) : 0 < spacing number := Nat.two_pow_pos _

theorem roundQuotient_bounds (numerator denominator : Nat) :
    numerator / denominator ≤ roundQuotient numerator denominator ∧
      roundQuotient numerator denominator ≤ numerator / denominator + 1 := by
  simp only [roundQuotient]
  split
  · omega
  · split <;> omega

theorem roundQuotient_mul_self (quotient : Nat) {denominator : Nat} (positive : 0 < denominator) :
    roundQuotient (quotient * denominator) denominator = quotient := by
  have noRemainder : quotient * denominator % denominator = 0 := Nat.mul_mod_left _ _
  simp only [roundQuotient, noRemainder, Nat.mul_zero, positive, if_true,
    Nat.mul_div_cancel _ positive]

section Naturals

variable {number : Nat} (positive : 0 < number)

include positive

/-- Shifted up, a number of up to 53 digits has just as many. -/
theorem shifted_bounds (few : number.log2 ≤ 52) :
    2 ^ 52 ≤ number * 2 ^ (52 - number.log2) ∧ number * 2 ^ (52 - number.log2) < 2 ^ 53 := by
  constructor
  · calc 2 ^ 52 = 2 ^ number.log2 * 2 ^ (52 - number.log2) := by
          rw [← Nat.pow_add]
          congr 1
          omega
      _ ≤ number * 2 ^ (52 - number.log2) :=
          Nat.mul_le_mul_right _ (Nat.log2_self_le positive.ne')
  · calc number * 2 ^ (52 - number.log2)
        < 2 ^ (number.log2 + 1) * 2 ^ (52 - number.log2) :=
          Nat.mul_lt_mul_of_pos_right Nat.lt_log2_self (Nat.two_pow_pos _)
      _ = 2 ^ 53 := by
          rw [← Nat.pow_add]
          congr 1
          omega

/-- Counted in spacings, a number of more digits has 53 of them. -/
theorem quotient_bounds (many : 52 < number.log2) :
    2 ^ 52 ≤ number / spacing number ∧ number / spacing number < 2 ^ 53 := by
  constructor
  · rw [Nat.le_div_iff_mul_le (spacing_pos number), spacing, ← Nat.pow_add,
      Nat.add_sub_cancel' many.le]
    exact Nat.log2_self_le positive.ne'
  · rw [Nat.div_lt_iff_lt_mul (spacing_pos number), spacing]
    calc number < 2 ^ (number.log2 + 1) := Nat.lt_log2_self
      _ = 2 ^ 53 * 2 ^ (number.log2 - 52) := by
          rw [← Nat.pow_add]
          congr 1
          omega

omit positive in
theorem rounded_of_log2_le (few : number.log2 ≤ 52) : rounded number = number := by
  have unit : spacing number = 1 := by rw [spacing, Nat.sub_eq_zero_of_le few, Nat.pow_zero]
  have whole := roundQuotient_mul_self number (Nat.one_pos)
  rw [Nat.mul_one] at whole
  rw [rounded, unit, whole, Nat.mul_one]

/-- A number of up to 53 digits is shifted up. -/
theorem nearestSize_of_few (few : number.log2 ≤ 52) :
    ∃ significand exponent, IsFinite significand exponent ∧
      nearestSize number = sizeBits significand exponent ∧
      (significand * 2 ^ exponent : ℚ) = rounded number := by
  rcases shifted_bounds positive few with ⟨lower, upper⟩
  have value : ((number * 2 ^ (52 - number.log2) : Nat) * 2 ^ ((number.log2 : ℤ) - 52) : ℚ) =
      number := by
    have power : (2 : ℚ) ^ ((number.log2 : ℤ) - 52) = (2 ^ (52 - number.log2))⁻¹ := by
      rw [← zpow_natCast, ← zpow_neg]
      congr 1
      omega
    rw [power]
    push_cast
    field_simp
  have finite : IsFinite (number * 2 ^ (52 - number.log2)) ((number.log2 : ℤ) - 52) := by
    refine ⟨upper, ?_, ?_, fun less => absurd less (Nat.not_lt.mpr lower)⟩
    · simp only [leastExponent]
      omega
    · simp only [greatestExponent]
      omega
  have bits := finite.nearestSize_eq (lt_of_lt_of_le (by decide) lower)
  rw [value] at bits
  exact ⟨_, _, finite, bits, by rw [value, rounded_of_log2_le few]⟩

/-- Of a number of more digits the quotient by the spacing is rounded. -/
theorem nearestSize_of_many (many : 52 < number.log2) (small : number < 2 ^ 64) :
    ∃ significand exponent, IsFinite significand exponent ∧
      nearestSize number = sizeBits significand exponent ∧
      (significand * 2 ^ exponent : ℚ) = rounded number := by
  have castPositive : (0 : ℚ) < number := by exact_mod_cast positive
  have length : number.log2 < 64 := (Nat.log2_lt positive.ne').mpr small
  rcases quotient_bounds positive many with ⟨lower, upper⟩
  rcases roundQuotient_bounds number (spacing number) with ⟨atLeast, atMost⟩
  have size : nearestSize number =
      if roundQuotient number (spacing number) = significandLimit
      then sizeBits (2 ^ 52) (((number.log2 - 52 : Nat) : ℤ) + 1)
      else sizeBits (roundQuotient number (spacing number)) ((number.log2 - 52 : Nat) : ℤ) := by
    have exponent : max (Int.log 2 (number : ℚ) - 52) leastExponent =
        ((number.log2 - 52 : Nat) : ℤ) := by
      rw [Int.log_natCast, ← Nat.log2_eq_log_two]
      simp only [leastExponent]
      omega
    have scaled : roundEven ((number : ℚ) / 2 ^ ((number.log2 - 52 : Nat) : ℤ)) =
        roundQuotient number (spacing number) := by
      rw [roundQuotient_eq _ (spacing_pos number), spacing, zpow_natCast]
      push_cast
      rfl
    have fits : ¬ greatestExponent < ((number.log2 - 52 : Nat) : ℤ) := by
      simp only [greatestExponent]
      omega
    rw [nearestSize, if_neg castPositive.ne']
    simp only [exponent, fits, if_false, scaled]
  rw [size]
  split
  · rename_i carried
    refine ⟨2 ^ 52, _, ⟨by decide, ?_, ?_, fun less => absurd less (by decide)⟩, rfl, ?_⟩
    · simp only [leastExponent]
      omega
    · simp only [greatestExponent]
      omega
    · rw [rounded, carried, zpow_add_one₀ (by norm_num : (2 : ℚ) ≠ 0), zpow_natCast, spacing]
      simp only [significandLimit, Nat.pow_eq]
      push_cast
      ring
  · rename_i notCarried
    simp only [significandLimit, Nat.pow_eq] at notCarried
    refine ⟨_, _, ⟨?_, ?_, ?_, fun less => ?_⟩, rfl, ?_⟩
    · simp only [significandLimit, Nat.pow_eq]
      omega
    · simp only [leastExponent]
      omega
    · simp only [greatestExponent]
      omega
    · omega
    · rw [rounded, zpow_natCast, spacing]
      push_cast
      rfl

/-- The number nearest to a natural number that fits into 64 bits. -/
theorem nearestSize_natCast (small : number < 2 ^ 64) :
    ∃ significand exponent, IsFinite significand exponent ∧
      nearestSize number = sizeBits significand exponent ∧
      (significand * 2 ^ exponent : ℚ) = rounded number := by
  rcases Nat.lt_or_ge 52 number.log2 with many | few
  · exact nearestSize_of_many positive many small
  · exact nearestSize_of_few positive few

end Naturals

/-- The integer whose value the number made from an integer has. -/
def nearestInteger (value : ℤ) : ℤ := applySign (value < 0) (rounded value.natAbs : ℤ)

/-- An integer of 64 bits becomes a finite number of the nearest integer value. -/
theorem ofInteger_spec {value : ℤ} (small : value.natAbs < 2 ^ 64) :
    (ofInteger value).isFinite = true ∧ (ofInteger value).exact = nearestInteger value := by
  by_cases isZero : value = 0
  · subst isZero
    have finite : IsFinite 0 leastExponent :=
      ⟨by decide, le_refl _, by decide, fun _ => rfl⟩
    refine ⟨finite.isFinite_ofSizeBits false, ?_⟩
    have none : nearestInteger 0 = 0 := by decide
    rw [none]
    exact (finite.exact_ofSizeBits false).trans (by simp [applySign])
  · have positive : 0 < value.natAbs := Int.natAbs_pos.mpr isZero
    rcases nearestSize_natCast positive small with ⟨significand, exponent, finite, bits, size⟩
    have number : ofInteger value =
        ofSizeBits (value < 0) (sizeBits significand exponent) := by
      have whole : ((value.natAbs : ℚ) / (1 : Nat)) = value.natAbs := by simp
      rw [ofInteger, nearestRatio_eq _ _ Nat.one_pos, whole, bits]
    rw [number]
    refine ⟨finite.isFinite_ofSizeBits _, ?_⟩
    rw [finite.exact_ofSizeBits, size, nearestInteger]
    cases decide (value < 0) <;> simp [applySign]

/-! ## What rounding keeps -/

theorem spacing_eq {number : Nat} (places : Nat) (low : 2 ^ (52 + places) ≤ number)
    (high : number < 2 ^ (53 + places)) : spacing number = 2 ^ places := by
  have nonzero : number ≠ 0 := (lt_of_lt_of_le (Nat.two_pow_pos _) low).ne'
  have length : number.log2 = 52 + places := by
    apply le_antisymm
    · have less := (Nat.log2_lt nonzero).mpr high
      omega
    · exact (Nat.le_log2 nonzero).mpr low
  rw [spacing, length, Nat.add_sub_cancel_left]

/-- A number of few digits is a multiple of the spacing of every number that is not
longer. -/
theorem FewDigits.spacing_dvd {number other : Nat} (few : FewDigits number)
    (longer : other ≤ number) : spacing other ∣ number := by
  rcases few with ⟨significand, shift, small, rfl⟩
  rcases Nat.eq_zero_or_pos (significand * 2 ^ shift) with zero | positive
  · rw [zero]
    exact Nat.dvd_zero _
  · have less : significand * 2 ^ shift < 2 ^ (53 + shift) := by
      rw [Nat.pow_add]
      exact Nat.mul_lt_mul_of_pos_right small (Nat.two_pow_pos _)
    have length : other.log2 < 53 + shift := by
      rcases Nat.eq_zero_or_pos other with none | some
      · rw [none, Nat.log2_zero]
        omega
      · exact (Nat.log2_lt some.ne').mpr (lt_of_le_of_lt longer less)
    apply Nat.dvd_mul_left_of_dvd
    exact Nat.pow_dvd_pow 2 (by omega)

/-- A number of few digits is rounded to itself. -/
theorem FewDigits.rounded_eq {number : Nat} (few : FewDigits number) : rounded number = number := by
  rcases few.spacing_dvd (le_refl number) with ⟨quotient, multiple⟩
  rw [Nat.mul_comm] at multiple
  calc rounded number = roundQuotient (quotient * spacing number) (spacing number) *
          spacing number := by rw [← multiple, rounded]
    _ = number := by rw [roundQuotient_mul_self _ (spacing_pos number), ← multiple]

/-- The size of a whole part is not that of the greatest word, whose 63 binary digits
are all set. -/
theorem natAbs_truncated_ne {value : Binary64} (finite : value.isFinite = true) :
    (truncated value.exact).natAbs ≠ greatestWord.natAbs := by
  intro equal
  have few := fewDigits_truncated finite
  rw [equal] at few
  have multiple : 1024 ∣ greatestWord.natAbs := by
    have unit : spacing greatestWord.natAbs = 1024 := by decide
    rw [← unit]
    exact few.spacing_dvd (le_refl _)
  exact absurd multiple (by decide)

theorem roundQuotient_mono {first second : Nat} (ordered : first ≤ second) (denominator : Nat) :
    roundQuotient first denominator ≤ roundQuotient second denominator := by
  have quotients : first / denominator ≤ second / denominator := Nat.div_le_div_right ordered
  rcases roundQuotient_bounds first denominator with ⟨-, firstMost⟩
  rcases roundQuotient_bounds second denominator with ⟨secondLeast, -⟩
  rcases Nat.lt_or_eq_of_le quotients with less | equal
  · omega
  · have remainders : first % denominator ≤ second % denominator := by
      have firstSplit := Nat.div_add_mod first denominator
      have secondSplit := Nat.div_add_mod second denominator
      rw [equal] at firstSplit
      omega
    simp only [roundQuotient, equal]
    split_ifs <;> omega

/-- Rounding a number stays between the powers of two about it. -/
theorem rounded_bounds {number : Nat} (positive : 0 < number) :
    2 ^ number.log2 ≤ rounded number ∧ rounded number ≤ 2 ^ (number.log2 + 1) := by
  have low : 2 ^ number.log2 ≤ number := Nat.log2_self_le positive.ne'
  have high : number ≤ 2 ^ (number.log2 + 1) := Nat.lt_log2_self.le
  have below : spacing number ∣ 2 ^ number.log2 := Nat.pow_dvd_pow 2 (by omega)
  have above : spacing number ∣ 2 ^ (number.log2 + 1) := Nat.pow_dvd_pow 2 (by omega)
  rcases below with ⟨least, leastEq⟩
  rcases above with ⟨most, mostEq⟩
  rw [Nat.mul_comm] at leastEq mostEq
  constructor
  · have ordered := roundQuotient_mono low (spacing number)
    rw [leastEq, roundQuotient_mul_self _ (spacing_pos number)] at ordered
    rw [leastEq, rounded]
    exact Nat.mul_le_mul_right _ ordered
  · have ordered := roundQuotient_mono high (spacing number)
    rw [mostEq, roundQuotient_mul_self _ (spacing_pos number)] at ordered
    rw [mostEq, rounded]
    exact Nat.mul_le_mul_right _ ordered

theorem rounded_mono {first second : Nat} (ordered : first ≤ second) :
    rounded first ≤ rounded second := by
  rcases Nat.eq_zero_or_pos first with zero | positive
  · rw [zero, (fewDigits_of_lt (by decide)).rounded_eq]
    exact Nat.zero_le _
  · have secondPositive : 0 < second := lt_of_lt_of_le positive ordered
    rcases Nat.lt_or_ge first.log2 second.log2 with shorter | longer
    · calc rounded first ≤ 2 ^ (first.log2 + 1) := (rounded_bounds positive).2
        _ ≤ 2 ^ second.log2 := Nat.pow_le_pow_right (by decide) shorter
        _ ≤ rounded second := (rounded_bounds secondPositive).1
    · have lengths : second.log2 = first.log2 := by
        apply le_antisymm longer
        rw [Nat.le_log2 secondPositive.ne']
        exact le_trans (Nat.log2_self_le positive.ne') ordered
      have units : spacing first = spacing second := by rw [spacing, spacing, lengths]
      rw [rounded, rounded, units]
      exact Nat.mul_le_mul_right _ (roundQuotient_mono ordered _)

/-- An integer of few digits becomes the number of that value. -/
theorem nearestInteger_eq {value : ℤ} (few : FewDigits value.natAbs) :
    nearestInteger value = value := by
  rw [nearestInteger, few.rounded_eq, applySign]
  split <;> rename_i sign <;> simp only [decide_eq_true_eq] at sign <;> omega

theorem ofInteger_of_fewDigits {value : ℤ} (few : FewDigits value.natAbs)
    (small : value.natAbs < 2 ^ 64) :
    (ofInteger value).isFinite = true ∧ (ofInteger value).exact = value := by
  rcases ofInteger_spec small with ⟨finite, exactEq⟩
  rw [nearestInteger_eq few] at exactEq
  exact ⟨finite, exactEq⟩

theorem ofInteger_of_lt (value : ℤ) (small : value.natAbs < 2 ^ 53) :
    (ofInteger value).isFinite = true ∧ (ofInteger value).exact = value :=
  ofInteger_of_fewDigits (fewDigits_of_lt small) (lt_trans small (by decide))

theorem nearestInteger_mono {first second : ℤ} (ordered : first ≤ second) :
    nearestInteger first ≤ nearestInteger second := by
  have zero : rounded 0 = 0 := (fewDigits_of_lt (by decide)).rounded_eq
  rcases lt_or_ge second 0 with negative | nonnegative
  · have sizes := rounded_mono (show second.natAbs ≤ first.natAbs by omega)
    have bothNegative : first < 0 := lt_of_le_of_lt ordered negative
    simp only [nearestInteger, applySign, negative, bothNegative, decide_true, if_true]
    omega
  · rcases lt_or_ge first 0 with below | positive
    · simp only [nearestInteger, applySign, below, not_lt.mpr nonnegative, decide_true,
        decide_false, if_true, Bool.false_eq_true, if_false]
      omega
    · have sizes := rounded_mono (show first.natAbs ≤ second.natAbs by omega)
      simp only [nearestInteger, applySign, not_lt.mpr nonnegative, not_lt.mpr positive,
        decide_false, Bool.false_eq_true, if_false]
      omega

end NumericRules.Binary64
