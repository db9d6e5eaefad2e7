/-! # Binary64 numbers

A number is held as the 64 bits of its interchange format: a sign bit and 63
bits of size. The bits of consecutive sizes are consecutive, so numbers are
compared as integers. What is not a number has a sign as well: no comparison
sees it, but it can be given to another number.
-/

namespace NumericRules

/-- A number of the binary64 format. -/
structure Binary64 where
  bits : UInt64
deriving DecidableEq, Inhabited, Repr

namespace Binary64

/-! ## Sign and size -/

/-- Whether the sign bit is set, as it is for `-0`. -/
def isNegative (value : Binary64) : Bool := Nat.pow 2 63 ≤ value.bits.toNat

/-- The bits of the size, which are all but the sign bit. -/
def magnitude (value : Binary64) : Nat := value.bits.toNat % Nat.pow 2 63

/-- The number with the given sign and bits of its size. -/
def ofSizeBits (negative : Bool) (bits : Nat) : Binary64 :=
  ⟨UInt64.ofNat (if negative then Nat.pow 2 63 + bits else bits)⟩

/-- The same size with the given sign. -/
def withSign (negative : Bool) (value : Binary64) : Binary64 :=
  ofSizeBits negative value.magnitude

/-- The size of the first number with the sign of the second. -/
def withSignOf (size sign : Binary64) : Binary64 := size.withSign sign.isNegative

/-- The size of a number. -/
def abs (value : Binary64) : Binary64 := value.withSign false

instance : Neg Binary64 where
  neg value := value.withSign (!value.isNegative)

/-! ## Special values -/

/-- The size bits of an infinity; those of what is not a number are greater. -/
def infiniteBits : Nat := 2047 * Nat.pow 2 52

/-- Infinity with the given sign. -/
def infinity (negative : Bool) : Binary64 := ofSizeBits negative infiniteBits

/-- Zero with the given sign. -/
def zero (negative : Bool) : Binary64 := ofSizeBits negative 0

/-- What is not a number, with the given sign. -/
def notANumber (negative : Bool) : Binary64 := ofSizeBits negative (infiniteBits + Nat.pow 2 51)

def isNotANumber (value : Binary64) : Bool := infiniteBits < value.magnitude

def isInfinite (value : Binary64) : Bool := value.magnitude = infiniteBits

/-! ## Order -/

/-- The place of a number in the order. Both zeros have place 0. -/
def place (value : Binary64) : Int :=
  if value.isNegative then -(value.magnitude : Int) else value.magnitude

/-- Whether both values are numbers, so that they can be compared. -/
def comparable (left right : Binary64) : Bool :=
  !left.isNotANumber && !right.isNotANumber

instance : BEq Binary64 where
  beq left right := comparable left right && left.place == right.place

instance : LT Binary64 where
  lt left right := comparable left right ∧ left.place < right.place

instance : LE Binary64 where
  le left right := comparable left right ∧ left.place ≤ right.place

instance (left right : Binary64) : Decidable (left < right) :=
  inferInstanceAs (Decidable (_ ∧ _))

instance (left right : Binary64) : Decidable (left ≤ right) :=
  inferInstanceAs (Decidable (_ ∧ _))

end Binary64

end NumericRules
