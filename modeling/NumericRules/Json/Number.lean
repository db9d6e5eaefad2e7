import NumericRules.Binary64.Arithmetic
import NumericRules.Json.Basic

/-! # Numbers of JSON texts

Whole numbers of up to 64 bits are read exactly. All other numbers are read as a
significand of at most 64 bits and a power of ten and formed by one
multiplication or division in the number format, so the last place is not always
the nearest. A number too great for the format has no value.
-/

namespace NumericRules.JsonNumber

inductive Value where
  | whole (value : Int)
  | float (value : Binary64)

def significandLimit : Nat := 0xFFFFFFFFFFFFFFFF

/-- The greatest size of an exponent that is counted. -/
def exponentLimit : Nat := 0x7FFFFFFF

/-- Take up digits as long as the significand stays within its limit. The answer
has the digits that are left. -/
def takeDigits (significand : Nat) : List Char → Nat × List Char
  | [] => (significand, [])
  | digit :: rest =>
      let next := significand * 10 + (digit.toNat - '0'.toNat)
      if significandLimit < next then (significand, digit :: rest)
      else takeDigits next rest

/-- `10 ^ exponent` in the number format, for exponents up to 308. -/
def powerOfTen (exponent : Nat) : Binary64 := Binary64.nearestDecimal false 1 exponent

/-- `value * 10 ^ exponent`; `none` when it is too great. A small result is
formed in steps of `10 ^ -308`. -/
def scale? (value : Binary64) (exponent : Int) : Nat → Option Binary64
  | 0 => some value
  | fuel + 1 =>
      if exponent.natAbs ≤ 308 then
        if 0 ≤ exponent then
          let scaled := value * powerOfTen exponent.natAbs
          if scaled.isInfinite then none else some scaled
        else some (value / powerOfTen exponent.natAbs)
      else if value == 0 then some value
      else if 0 ≤ exponent then none
      else scale? (value / powerOfTen 308) (exponent + 308) fuel

/-- The float of a significand and a power of ten, with a sign. Three steps make
every significand zero. -/
def ofParts? (negative : Bool) (significand : Nat) (exponent : Int) : Option Binary64 :=
  (scale? (Binary64.ofInteger significand) exponent 5).map fun size =>
    if negative then -size else size

def value? (number : JsonNumber) : Option Value :=
  let (significand, droppedWhole) := takeDigits 0 number.whole
  if droppedWhole.isEmpty && number.fraction.isEmpty && number.exponent.isNone then
    if !number.negative then some (.whole significand)
    else if significand = 0 || 0x8000000000000000 < significand then
      some (.float (-Binary64.ofInteger significand))
    else some (.whole (-(significand : Int)))
  else
    let (significand, droppedFraction) := takeDigits significand number.fraction
    let scaled : Int := (droppedWhole.length : Int) -
      ((number.fraction.length - droppedFraction.length : Nat) : Int)
    match number.exponent with
    | none => (ofParts? number.negative significand scaled).map .float
    | some (negative, digits) =>
        let size := Binary64.digitsValue digits
        if exponentLimit < size then
          if significand ≠ 0 && !negative then none
          else some (.float (Binary64.zero number.negative))
        else
          let exponent := if negative then scaled - size else scaled + size
          (ofParts? number.negative significand exponent).map .float

end NumericRules.JsonNumber
