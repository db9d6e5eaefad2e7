/-! # Identifiers

A registered name is addressed by 32 bits: the upper 8 hold the tag of its type
and the lower 24 a raw number within that type. Tag 0 is kept for ordered
names, whose raw number is their place in the dense part of a store. A raw
number is never 0.
-/

namespace NumericRules

/-- The greatest raw number of a type, and of ordered names. -/
def maxRaw : Nat := 0xFFFFFF

/-- The greatest number of types. -/
def maxTypes : Nat := 0xFF

/-- The tag of a registered type. -/
structure TypeTag where
  number : Nat
  pos : 0 < number
  le : number ≤ maxTypes
deriving DecidableEq

/-- An identifier in its packed form. -/
structure Identifier where
  bits : UInt32
  raw_ne_zero : bits.toNat % 0x1000000 ≠ 0
deriving DecidableEq

namespace Identifier

/-- The number of the type, 0 for an ordered name. -/
def tag (id : Identifier) : Nat := id.bits.toNat / 0x1000000

/-- The number within the type. -/
def raw (id : Identifier) : Nat := id.bits.toNat % 0x1000000

def isOrdered (id : Identifier) : Bool := id.tag == 0

/-- The identifier with the given packed form, if its raw number is not 0. -/
def ofBits? (bits : UInt32) : Option Identifier :=
  if nonzero : bits.toNat % 0x1000000 ≠ 0 then some ⟨bits, nonzero⟩ else none

def pack? (tag raw : Nat) : Option Identifier :=
  if raw = 0 ∨ maxRaw < raw then none
  else ofBits? (UInt32.ofNat (tag * 0x1000000 + raw))

/-- The ordered identifier with the given place. -/
def ordered? (raw : Nat) : Option Identifier := pack? 0 raw

/-- The identifier with the given raw number in a type. -/
def typed? (tag : TypeTag) (raw : Nat) : Option Identifier := pack? tag.number raw

/-- The type of the name, `none` for an ordered name. -/
def typeTag? (id : Identifier) : Option TypeTag :=
  if pos : 0 < id.tag then
    some ⟨id.tag, pos, by
      have bound := id.bits.toNat_lt
      simp only [tag, maxTypes] at *
      omega⟩
  else none

/-- `#raw` for an ordered name and `tag:raw` for any other. -/
def text (id : Identifier) : String :=
  if id.isOrdered then s!"#{id.raw}" else s!"{id.tag}:{id.raw}"

/-- Identifiers are ordered by type and then by raw number, ordered names
first. -/
def before (left right : Identifier) : Bool := left.bits < right.bits

end Identifier

end NumericRules
