import NumericRules.Binary64.Basic

/-! # The parts of a binary64 number

A finite number is a sign and a natural number of units of `2 ^ exponent`.
The arithmetic of this library that has to be exact (decimal text, whole
parts, remainders) is done on these parts, in `Nat` and `Int`.
-/

namespace NumericRules.Binary64

/-- A number taken apart. A finite number has the size
`significand * 2 ^ exponent`; both zeros have significand 0. -/
inductive Parts where
  | notANumber
  | infinite (negative : Bool)
  | finite (negative : Bool) (significand : Nat) (exponent : Int)
deriving DecidableEq, Repr

/-- The exponent of the smallest numbers, which is also the least exponent of
any finite number. -/
def leastExponent : Int := -1074

/-- The largest exponent of a finite number. -/
def greatestExponent : Int := 971

/-- Significands have fewer than 53 binary digits exactly when the exponent is
the least one; all others lie in the upper half of this range. -/
def significandLimit : Nat := Nat.pow 2 53

/-- Read sign, exponent field and fraction field from the interchange format. -/
def Parts.ofBits (bits : Nat) : Parts :=
  let negative := bits / Nat.pow 2 63 % 2 == 1
  let field : Nat := bits / Nat.pow 2 52 % Nat.pow 2 11
  let fraction : Nat := bits % Nat.pow 2 52
  if field = 2047 then
    if fraction = 0 then .infinite negative else .notANumber
  else if field = 0 then
    .finite negative fraction leastExponent
  else
    .finite negative (Nat.pow 2 52 + fraction) ((field : Int) - 1075)

def parts (value : Binary64) : Parts :=
  Parts.ofBits value.bits.toNat

/-- The interchange format of a size `significand * 2 ^ exponent` that is
exactly a number of the format: `significand < 2 ^ 53`, the exponent within
its limits, and a significand below `2 ^ 52` only at the least exponent. -/
def sizeBits (significand : Nat) (exponent : Int) : Nat :=
  if significand < Nat.pow 2 52 then significand
  else (exponent + 1075).toNat * Nat.pow 2 52 + (significand - Nat.pow 2 52)

end NumericRules.Binary64
