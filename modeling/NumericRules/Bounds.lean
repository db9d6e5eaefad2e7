import NumericRules.Binary64.Nearest

/-! # Bounds of values -/

namespace NumericRules

/-- The initial value of a name and the range its writes are kept in. A
greatest value of 0 means that there is none; by default values do not fall
below 0. -/
structure Bounds where
  initial : Binary64 := 0
  least : Binary64 := 0
  greatest : Binary64 := 0

namespace Bounds

/-- The value moved into the range. What is not a number stays. -/
def clamp (bounds : Bounds) (value : Binary64) : Binary64 :=
  if bounds.greatest != 0 && bounds.greatest < value then bounds.greatest
  else if value < bounds.least then bounds.least
  else value

end Bounds

end NumericRules
