import NumericRules.Binary64.Parts

/-! # The number nearest to a ratio

A ratio of two natural numbers is rounded to the nearest number of the format;
a tie goes to the even significand, and a size beyond the largest finite number
becomes infinite. The bits of consecutive sizes are consecutive, so rounding a
significand up to `2 ^ 53` carries into the exponent field by itself.
-/

namespace NumericRules.Binary64

/-- The quotient rounded to the nearest natural number, a tie going to the even
neighbour. -/
def roundQuotient (numerator denominator : Nat) : Nat :=
  let quotient := numerator / denominator
  let remainder := numerator % denominator
  if 2 * remainder < denominator then quotient
  else if 2 * remainder = denominator then quotient + quotient % 2
  else quotient + 1

/-- `numerator * 2 ^ -shift` over `denominator`, with both kept whole. -/
def scaleRatio (numerator denominator : Nat) (shift : Int) : Nat × Nat :=
  if shift < 0 then (numerator * Nat.pow 2 (-shift).toNat, denominator)
  else (numerator, denominator * Nat.pow 2 shift.toNat)

/-- The exponent of the leading binary digit of a positive ratio. -/
def leadingExponent (numerator denominator : Nat) : Int :=
  let estimate : Int := (numerator.log2 : Int) - (denominator.log2 : Int)
  let scaled := scaleRatio numerator denominator estimate
  if scaled.1 < scaled.2 then estimate - 1 else estimate

/-- Size bits of the number nearest to a positive ratio. -/
def nearestSizeBits (numerator denominator : Nat) : Nat :=
  let exponent := max (leadingExponent numerator denominator - 52) leastExponent
  if greatestExponent < exponent then infiniteBits
  else
    let scaled := scaleRatio numerator denominator exponent
    let significand := roundQuotient scaled.1 scaled.2
    if significand = significandLimit then sizeBits (Nat.pow 2 52) (exponent + 1)
    else sizeBits significand exponent

/-- The number nearest to `numerator / denominator`, with a sign. -/
def nearestRatio (negative : Bool) (numerator denominator : Nat) : Binary64 :=
  if numerator = 0 then zero negative
  else ofSizeBits negative (nearestSizeBits numerator denominator)

/-- The number nearest to `digits * 10 ^ exponent`, with a sign. Sizes that are
certainly beyond `10 ^ 310` are infinite and sizes certainly below `10 ^ -330`
are zero, which spares the powers of ten. A size of `2 ^ n` is at least
`10 ^ (3 * n / 10)` and less than `10 ^ (n / 3 + 1)`. -/
def nearestDecimal (negative : Bool) (digits : Nat) (exponent : Int) : Binary64 :=
  let atLeast : Int := (3 * digits.log2 / 10 : Nat)
  let below : Int := ((digits.log2 + 1) / 3 + 1 : Nat)
  if digits = 0 || below + exponent < -330 then zero negative
  else if 310 < atLeast + exponent then infinity negative
  else if exponent < 0 then nearestRatio negative digits (Nat.pow 10 (-exponent).toNat)
  else nearestRatio negative (digits * Nat.pow 10 exponent.toNat) 1

/-- The number nearest to an integer. Zero is positive. -/
def ofInteger (value : Int) : Binary64 :=
  nearestRatio (value < 0) value.natAbs 1

instance : OfNat Binary64 value where
  ofNat := ofInteger value

instance : OfScientific Binary64 where
  ofScientific digits negativeExponent exponent :=
    nearestDecimal false digits (if negativeExponent then -(exponent : Int) else exponent)

end NumericRules.Binary64
