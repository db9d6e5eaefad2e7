import NumericRules.Binary64.Decimal
import NumericRules.Proofs.Binary64.Rounding
import NumericRules.Proofs.Grammar.Token

/-! # Decimal text reads back

A finite number is written as a numeral behind an optional minus, and the numeral
reads back to the number.
-/

namespace NumericRules.Binary64

open Grammar

/-! ## Digits -/

theorem digitsValue_eq_ofDigitChars (digits : List Char) :
    digitsValue digits = Nat.ofDigitChars 10 digits 0 := by
  rw [digitsValue_eq_foldl, Nat.ofDigitChars_eq_foldl]
  congr 1
  funext value digit
  rw [Nat.mul_comm, digitValue]

theorem all_isDigit_toDigits (number : Nat) : (Nat.toDigits 10 number).all Char.isDigit = true := by
  apply List.all_eq_true.mpr
  intro digit inside
  exact Nat.isDigit_of_mem_toDigits (by decide) (by decide) inside

theorem all_isDigit_replicate (count : Nat) :
    (List.replicate count '0').all Char.isDigit = true := by
  apply List.all_eq_true.mpr
  intro digit inside
  rw [List.eq_of_mem_replicate inside]
  decide

/-- Zeros before the digits do not count. -/
theorem digitsValue_padded (count number : Nat) :
    digitsValue (List.replicate count '0' ++ Nat.toDigits 10 number) = number := by
  rw [digitsValue_eq_ofDigitChars, Nat.ofDigitChars_append, Nat.ofDigitChars_replicate_zero,
    Nat.mul_zero, Nat.ofDigitChars_ten_toDigits]

/-- Zeros behind the digits are powers of ten. -/
theorem digitsValue_shifted (count number : Nat) :
    digitsValue (Nat.toDigits 10 number ++ List.replicate count '0') = number * 10 ^ count := by
  rw [digitsValue_eq_ofDigitChars, Nat.ofDigitChars_append, Nat.ofDigitChars_replicate_zero,
    Nat.ofDigitChars_ten_toDigits, Nat.mul_comm]

theorem readUnsigned?_digits {digits : List Char} (nonempty : digits ≠ [])
    (areDigits : digits.all Char.isDigit = true) (negative : Bool) :
    readUnsigned? negative digits = some (nearestDecimal negative (digitsValue digits) 0) := by
  have taken := takeWhile_isDigit areDigits []
  have dropped := dropWhile_isDigit areDigits []
  simp only [List.append_nil, List.takeWhile_nil, List.dropWhile_nil] at taken dropped
  simp [readUnsigned?, taken, dropped, nonempty]

theorem readUnsigned?_fraction {digits fraction : List Char} (nonempty : digits ≠ [])
    (areDigits : digits.all Char.isDigit = true) (areFraction : fraction.all Char.isDigit = true)
    (negative : Bool) :
    readUnsigned? negative (digits ++ '.' :: fraction) =
      some (nearestDecimal negative (digitsValue (digits ++ fraction)) (0 - fraction.length)) := by
  have taken := takeWhile_isDigit areDigits ('.' :: fraction)
  have dropped := dropWhile_isDigit areDigits ('.' :: fraction)
  have fractionTaken := takeWhile_isDigit areFraction []
  have fractionDropped := dropWhile_isDigit areFraction []
  simp only [List.append_nil, List.takeWhile_nil, List.dropWhile_nil]
    at fractionTaken fractionDropped
  simp only [List.takeWhile_cons, List.dropWhile_cons, isDigit_point] at taken dropped
  simp [readUnsigned?, taken, dropped, fractionTaken, fractionDropped, nonempty]

/-! ## Decimal sizes -/

/-- The value of a decimal size. -/
def DecimalSize.value (size : DecimalSize) : ℚ := size.digits * 10 ^ size.exponent

theorem DecimalSize.value_go (digits places : Nat) :
    (DecimalSize.trimmed.go digits places).value = digits * 10 ^ (-(places : Int)) := by
  induction places generalizing digits with
  | zero => rfl
  | succ places induction =>
      unfold DecimalSize.trimmed.go
      split
      · rename_i multiple
        have split : (digits : ℚ) = (digits / 10 : Nat) * 10 := by
          exact_mod_cast (Nat.div_mul_cancel (Nat.dvd_of_mod_eq_zero multiple)).symm
        have power : (10 : ℚ) ^ (-(places : Int)) = 10 * 10 ^ (-((places + 1 : Nat) : Int)) := by
          rw [← zpow_one_add₀ (by norm_num : (10 : ℚ) ≠ 0)]
          congr 1
          push_cast
          ring
        rw [induction, power, split]
        ring
      · rfl

/-- Dropping zeros keeps the value. -/
theorem DecimalSize.value_trimmed (size : DecimalSize) : size.trimmed.value = size.value := by
  unfold DecimalSize.trimmed
  split
  · rename_i fraction
    rw [DecimalSize.value_go, DecimalSize.value]
    congr 2
    omega
  · rfl

/-- The text of a decimal size is a numeral that is rounded as its value is. -/
theorem DecimalSize.text_reads (size : DecimalSize) :
    IsNumeral size.text ∧ ∀ negative,
      readUnsigned? negative size.text = some (ofSizeBits negative (nearestSize size.value)) := by
  have areDigits := all_isDigit_toDigits size.digits
  unfold DecimalSize.text
  simp only
  split
  · rename_i whole
    have nonempty : Nat.toDigits 10 size.digits ++ List.replicate size.exponent.toNat '0' ≠ [] := by
      simp [Nat.toDigits_ne_nil]
    have allDigits : (Nat.toDigits 10 size.digits ++
        List.replicate size.exponent.toNat '0').all Char.isDigit = true := by
      rw [List.all_append, areDigits, all_isDigit_replicate]
      rfl
    refine ⟨.integer nonempty allDigits, fun negative => ?_⟩
    have value :
        ((size.digits * 10 ^ size.exponent.toNat : Nat) : ℚ) * 10 ^ (0 : Int) = size.value := by
      have power : (10 : ℚ) ^ size.exponent = 10 ^ size.exponent.toNat := by
        rw [← zpow_natCast, Int.toNat_of_nonneg whole]
      rw [DecimalSize.value, power, zpow_zero, mul_one]
      push_cast
      rfl
    rw [readUnsigned?_digits nonempty allDigits, digitsValue_shifted, nearestDecimal_eq, value]
  · rename_i fraction
    let places := (-size.exponent).toNat
    let digits := Nat.toDigits 10 size.digits
    let padded := List.replicate (places + 1 - digits.length) '0' ++ digits
    let point := padded.length - places
    have paddedDigits : padded.all Char.isDigit = true := by
      rw [List.all_append, all_isDigit_replicate, areDigits]
      rfl
    have wide : places + 1 ≤ padded.length := by
      simp only [padded, List.length_append, List.length_replicate]
      omega
    have positive : 0 < places := by omega
    have wholeLength : (padded.take point).length = point := by
      rw [List.length_take]
      omega
    have fractionLength : (padded.drop point).length = places := by
      rw [List.length_drop]
      omega
    have wholeNonempty : padded.take point ≠ [] := by
      apply List.ne_nil_of_length_pos
      omega
    have fractionNonempty : padded.drop point ≠ [] := by
      apply List.ne_nil_of_length_pos
      omega
    have wholeDigits : (padded.take point).all Char.isDigit = true :=
      List.all_eq_true.mpr fun digit inside =>
        List.all_eq_true.mp paddedDigits digit (List.mem_of_mem_take inside)
    have fractionDigits : (padded.drop point).all Char.isDigit = true :=
      List.all_eq_true.mpr fun digit inside =>
        List.all_eq_true.mp paddedDigits digit (List.mem_of_mem_drop inside)
    refine ⟨.decimal wholeNonempty wholeDigits fractionNonempty fractionDigits, fun negative => ?_⟩
    have exponent : (0 - (places : Int)) = size.exponent := by omega
    have read := readUnsigned?_fraction wholeNonempty wholeDigits fractionDigits negative
    rw [List.take_append_drop, fractionLength, exponent, nearestDecimal_eq] at read
    rw [digitsValue_padded] at read
    exact read

/-! ## Finite numbers -/

theorem ofSizeBits_congr {left right : Nat} (equal : ofSizeBits false left = ofSizeBits false right)
    (negative : Bool) : ofSizeBits negative left = ofSizeBits negative right := by
  cases negative with
  | false => exact equal
  | true =>
      have words : UInt64.ofNat left = UInt64.ofNat right := by
        simpa [ofSizeBits] using congrArg Binary64.bits equal
      simp only [ofSizeBits, if_true, UInt64.ofNat_add, words]

theorem exactSize_value (significand : Nat) (exponent : Int) :
    (exactSize significand exponent).value = significand * 2 ^ exponent := by
  simp only [exactSize, Nat.pow_eq]
  split
  · rename_i negative
    have fives : (5 : ℚ) ^ (-exponent).toNat * 5 ^ exponent = 1 := by
      rw [← zpow_natCast, Int.toNat_of_nonneg (by omega), ← zpow_add₀ (by norm_num : (5 : ℚ) ≠ 0)]
      simp
    have tens : (10 : ℚ) ^ exponent = 2 ^ exponent * 5 ^ exponent := by
      rw [← mul_zpow]
      norm_num
    simp only [DecimalSize.value]
    push_cast
    rw [tens]
    calc (significand * 5 ^ (-exponent).toNat * (2 ^ exponent * 5 ^ exponent) : ℚ)
        = significand * 2 ^ exponent * (5 ^ (-exponent).toNat * 5 ^ exponent) := by ring
      _ = significand * 2 ^ exponent := by rw [fives, mul_one]
  · rename_i whole
    have power : (2 : ℚ) ^ exponent = 2 ^ exponent.toNat := by
      rw [← zpow_natCast, Int.toNat_of_nonneg (by omega)]
    simp only [DecimalSize.value, power, zpow_zero, mul_one]
    push_cast
    rfl

/-- The shortest size is rounded to the number. -/
theorem shortestSize_rounds {significand : Nat} {exponent : Int}
    (finite : IsFinite significand exponent) (positive : 0 < significand) (negative : Bool) :
    ofSizeBits negative (nearestSize (shortestSize significand exponent).value) =
      ofSizeBits negative (sizeBits significand exponent) := by
  apply ofSizeBits_congr
  unfold shortestSize
  simp only
  cases found : ((List.range 17).map fun count : Nat =>
      decimalLength (sizeRatio significand exponent).1 (sizeRatio significand exponent).2 -
        (count + 1 : Nat)).findSome? (neighbour? (sizeBits significand exponent)
          (sizeRatio significand exponent).1 (sizeRatio significand exponent).2) with
  | none =>
      rw [Option.getD_none, exactSize_value, finite.nearestSize_eq positive]
  | some size =>
      rcases List.exists_of_findSome?_eq_some found with ⟨grid, _, chosen⟩
      have reads : readsBack (sizeBits significand exponent) size = true :=
        List.find?_some chosen
      rw [readsBack, decide_eq_true_eq, nearestDecimal_eq] at reads
      exact reads

/-- A finite number is neither infinite nor not a number. -/
def isFinite (value : Binary64) : Bool := value.magnitude < infiniteBits

/-- The parts of a finite number. -/
theorem parts_of_isFinite {value : Binary64} (finite : value.isFinite = true) :
    ∃ significand exponent, parts value = .finite value.isNegative significand exponent ∧
      IsFinite significand exponent ∧ sizeBits significand exponent = value.magnitude := by
  let bits := value.bits.toNat
  let field := bits / 2 ^ 52 % 2 ^ 11
  let fraction := bits % 2 ^ 52
  have bound : bits < 2 ^ 64 := value.bits.toNat_lt
  have small : bits % 2 ^ 63 < 2047 * 2 ^ 52 := of_decide_eq_true finite
  have fieldLess : field < 2047 := by
    simp only [field]
    omega
  have sign : (bits / 2 ^ 63 % 2 == 1) = value.isNegative := by
    have places : bits / 2 ^ 63 % 2 = 1 ↔ 2 ^ 63 ≤ bits := by omega
    rw [Bool.eq_iff_iff, beq_iff_eq, isNegative, decide_eq_true_iff]
    exact places
  have unfolded : parts value = Parts.ofBits bits := rfl
  simp only [unfolded, Parts.ofBits, Nat.pow_eq, sign]
  have notSpecial : field ≠ 2047 := Nat.ne_of_lt fieldLess
  change ∃ significand exponent, (if field = 2047 then _ else if field = 0 then
    Parts.finite value.isNegative fraction leastExponent
    else .finite value.isNegative (2 ^ 52 + fraction) ((field : Int) - 1075)) = _ ∧ _
  rw [if_neg notSpecial]
  by_cases subnormal : field = 0
  · rw [if_pos subnormal]
    refine ⟨fraction, leastExponent, rfl, ⟨?_, Int.le_refl _, by decide, fun _ => rfl⟩, ?_⟩
    · simp only [fraction, significandLimit, Nat.pow_eq]
      omega
    · have less : fraction < 2 ^ 52 := Nat.mod_lt _ (by decide)
      simp only [sizeBits, Nat.pow_eq, if_pos less]
      simp only [field, fraction, magnitude, Nat.pow_eq, bits] at subnormal ⊢
      omega
  · rw [if_neg subnormal]
    have less : fraction < 2 ^ 52 := Nat.mod_lt _ (by decide)
    refine ⟨2 ^ 52 + fraction, (field : Int) - 1075, rfl, ⟨?_, ?_, ?_, ?_⟩, ?_⟩
    · simp only [significandLimit, Nat.pow_eq]
      omega
    · simp only [leastExponent]
      omega
    · simp only [greatestExponent]
      omega
    · intro small
      omega
    · simp only [sizeBits, Nat.pow_eq]
      rw [if_neg (by omega)]
      have toNat : ((field : Int) - 1075 + 1075).toNat = field := by omega
      rw [toNat, Nat.add_sub_cancel_left]
      simp only [field, fraction, magnitude, Nat.pow_eq, bits]
      omega

/-- A finite number is written as a numeral behind a minus if it is negative, and
the numeral reads back to the number with either sign. -/
theorem spell_of_isFinite {value : Binary64} (finite : value.isFinite = true) :
    ∃ numeral, spell value = signed value.isNegative numeral ∧ IsNumeral numeral ∧
      ∀ negative, readUnsigned? negative numeral = some (value.withSign negative) := by
  rcases parts_of_isFinite finite with ⟨significand, exponent, partsEq, isFinite, bits⟩
  let numeral := if significand = 0 then ['0'] else (shortestSize significand exponent).trimmed.text
  refine ⟨numeral, ?_, ?_⟩
  · simp only [spell, partsEq]
    rfl
  · by_cases isZero : significand = 0
    · have noSize : value.magnitude = 0 := by
        rw [← bits, isZero]
        rfl
      have single : numeral = ['0'] := if_pos isZero
      have nonempty : ['0'] ≠ [] := List.cons_ne_nil _ _
      have digit : ['0'].all Char.isDigit = true := by decide
      rw [single]
      refine ⟨.integer nonempty digit, fun negative => ?_⟩
      rw [readUnsigned?_digits nonempty digit, withSign, noSize]
      cases negative <;> rfl
    · have positive : 0 < significand := Nat.pos_of_ne_zero isZero
      have text : numeral = (shortestSize significand exponent).trimmed.text := if_neg isZero
      rcases DecimalSize.text_reads (shortestSize significand exponent).trimmed with
        ⟨isNumeral, reads⟩
      rw [text]
      refine ⟨isNumeral, fun negative => ?_⟩
      rw [reads, DecimalSize.value_trimmed, shortestSize_rounds isFinite positive, bits, withSign]

end NumericRules.Binary64
