import NumericRules.Binary64.Arithmetic

/-! # Whole parts and remainders

The whole part of a number is its value with the fraction dropped. Remainders
come in two kinds: of whole parts, in 64 bits, and of the numbers themselves.
-/

namespace NumericRules.Binary64

/-- The integer reached by dropping the fraction; `none` when there is none. -/
def wholePart? (value : Binary64) : Option Int :=
  match parts value with
  | .finite negative significand exponent =>
      let size := if exponent < 0 then significand / Nat.pow 2 (-exponent).toNat
        else significand * Nat.pow 2 exponent.toNat
      some (if negative then -(size : Int) else size)
  | _ => none

/-- The least signed integer of 64 bits. -/
def leastWord : Int := -0x8000000000000000

/-- The greatest signed integer of 64 bits. -/
def greatestWord : Int := 0x7FFFFFFFFFFFFFFF

/-- The whole part held in a signed word of 64 bits: sizes beyond the word
stop at its ends, and what is not a number counts as 0. -/
def toWord (value : Binary64) : Int :=
  match parts value with
  | .notANumber => 0
  | .infinite negative => if negative then leastWord else greatestWord
  | .finite .. => max leastWord (min greatestWord ((wholePart? value).getD 0))

/-- The greatest integer value that is not above a number. -/
def floor (value : Binary64) : Binary64 := ofUnary Float.floor value

/-- The least integer value that is not below a number. -/
def ceiling (value : Binary64) : Binary64 := ofUnary Float.ceil value

/-- The value with its fraction dropped, keeping the sign of a zero. -/
def truncate (value : Binary64) : Binary64 :=
  if value < 0 then value.ceiling else value.floor

/-- The integer value nearest to a number, a tie going to the even one. The
sign is kept, also that of a zero. -/
def roundTiesEven (value : Binary64) : Binary64 :=
  match parts value with
  | .finite negative significand exponent =>
      if exponent < 0 then
        nearestRatio negative (roundQuotient significand (Nat.pow 2 (-exponent).toNat)) 1
      else value
  | _ => value

/-- What is left of the dividend after taking away the divisor as often as it
fits; exact, with the sign of the dividend. -/
def remainder (dividend divisor : Binary64) : Binary64 :=
  match parts dividend, parts divisor with
  | .finite negative significand exponent, .finite _ divisorSignificand divisorExponent =>
      if divisorSignificand = 0 then noResult [dividend, divisor]
      else
        let unit := min exponent divisorExponent
        let left := significand * Nat.pow 2 (exponent - unit).toNat
        let right := divisorSignificand * Nat.pow 2 (divisorExponent - unit).toNat
        if unit < 0 then nearestRatio negative (left % right) (Nat.pow 2 (-unit).toNat)
        else nearestRatio negative (left % right * Nat.pow 2 unit.toNat) 1
  | .finite .., .infinite _ => dividend
  | _, _ => noResult [dividend, divisor]

end NumericRules.Binary64
