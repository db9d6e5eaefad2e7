import NumericRules.Binary64.Arithmetic

/-! # Roots of sums of squares

The root of an exact sum of squares is found to many binary digits and rounded
once.
-/

namespace NumericRules.Binary64

/-- The greatest number whose square is at most `square`, one binary digit after
another; `root` has the digits found so far. -/
def wholeRootFrom (square root : Nat) : Nat → Nat
  | 0 => root
  | place + 1 =>
      let next := root + Nat.pow 2 place
      wholeRootFrom square (if next * next ≤ square then next else root) place

def wholeRoot (square : Nat) : Nat := wholeRootFrom square 0 (square.log2 / 2 + 1)

/-- How many more binary digits of a root are found than it has whole ones. -/
def rootPlaces : Nat := 64

/-- The number nearest to the root of `square * 4 ^ exponent`. A digit behind the
root tells whether there is more of it, so that no tie is mistaken. -/
def nearestRoot (square : Nat) (exponent : Int) : Binary64 :=
  let scaled := square * Nat.pow 4 rootPlaces
  let root := wholeRoot scaled
  let digits := 2 * root + if root * root = scaled then 0 else 1
  let ratio := scaleRatio digits 1 (rootPlaces + 1 - exponent)
  nearestRatio false ratio.1 ratio.2

/-- The length of a hypotenuse. An infinite side makes it infinite. -/
def hypotenuse (first second : Binary64) : Binary64 :=
  match parts first, parts second with
  | .infinite _, _ => infinity false
  | _, .infinite _ => infinity false
  | .finite _ significand exponent, .finite _ otherSignificand otherExponent =>
      let unit := min exponent otherExponent
      let side := significand * Nat.pow 2 (exponent - unit).toNat
      let otherSide := otherSignificand * Nat.pow 2 (otherExponent - unit).toNat
      nearestRoot (side * side + otherSide * otherSide) unit
  | _, _ => noResult [first, second]

end NumericRules.Binary64
