import NumericRules.Binary64.Root
import NumericRules.Binary64.Whole
import NumericRules.Function

/-! # The functions every engine has

The conditional function, random integers, minimum and maximum, and the usual
functions of mathematics.
-/

namespace NumericRules.Function

open Binary64

/-! ## Random integers -/

/-- An integer between the whole parts of two numbers, the upper one excluded;
the lower one when there is no such integer. -/
def drawBetween (low high : Binary64) : Plan σ :=
  if toWord high ≤ toWord low then .answer (ofInteger (toWord low))
  else .draw (toWord low) (toWord high) fun drawn => .answer (ofInteger drawn)

/-- A random integer from 0 up to its argument. -/
def randomBelow : Plan σ := .argument 0 fun high => drawBetween 0 high

/-- A random integer from its first argument up to its second. -/
def randomBetween : Plan σ :=
  .argument 0 fun low => .argument 1 fun high => drawBetween low high

/-! ## Mathematics -/

def squareRoot : Binary64 → Binary64 := ofUnary Float.sqrt

def exponential : Binary64 → Binary64 := ofUnary Float.exp

def logarithm : Binary64 → Binary64 := ofUnary Float.log

/-- A power. An odd power of what is not a number loses its sign. -/
def power (base exponent : Binary64) : Binary64 :=
  if base.isNotANumber && (remainder exponent 2).abs == 1 then base.abs
  else ofBinary Float.pow base exponent

/-- The angle of the point with the given sides, the one opposite it first. If
neither side is a number, the second is handed on. -/
def angle (opposite adjacent : Binary64) : Binary64 :=
  ofResult [adjacent, opposite] (Float.atan2 opposite.toFloat adjacent.toFloat)

def minimum (first second : Binary64) : Binary64 := if first < second then first else second

def maximum (first second : Binary64) : Binary64 := if second < first then first else second

def positiveDifference (first second : Binary64) : Binary64 :=
  if second < first then first - second else 0

/-- What is left of the dividend after taking away the multiple of the divisor
nearest to it. -/
def nearestRemainder (dividend divisor : Binary64) : Binary64 :=
  dividend - roundTiesEven (dividend / divisor) * divisor

/-- Infinity, negative for a negative argument. -/
def signedInfinity (sign : Binary64) : Binary64 := infinity (sign < 0)

/-- The logarithm of `1 + value`. The rounding error of the sum is made up for by
scaling with the sum that was really formed. -/
def logOnePlus (value : Binary64) : Binary64 :=
  let sum := 1 + value
  if sum == 1 then value
  else if sum.isInfinite || sum ≤ 0 then logarithm sum
  else logarithm sum * (value / (sum - 1))

/-- The exponential less 1, with the same remedy. -/
def expMinusOne (value : Binary64) : Binary64 :=
  let result := exponential value
  if result == 1 then value
  else if result.isInfinite then result
  else if result - 1 == -1 then -1
  else (result - 1) * (value / logarithm result)

def areaSine (value : Binary64) : Binary64 :=
  let size := value.abs
  let inverse := 1 / size
  withSignOf (logOnePlus (size + size / (hypotenuse 1 inverse + inverse))) value

def areaCosine (value : Binary64) : Binary64 :=
  if value < 1 then notANumber false
  else logarithm (value + squareRoot (value - 1) * squareRoot (value + 1))

def areaTangent (value : Binary64) : Binary64 :=
  0.5 * logOnePlus (2 * value / (1 - value))

/-! ## The table -/

def unaryFunctions : List (String × (Binary64 → Binary64)) := [
  ("Trunc", truncate), ("Cbrt", ofUnary Float.cbrt), ("Sqrt", squareRoot),
  ("Sin", ofUnary Float.sin), ("Cos", ofUnary Float.cos), ("Tan", ofUnary Float.tan),
  ("Log", logarithm), ("Log2", ofUnary Float.log2), ("Log10", ofUnaryPositive Float.log10),
  ("Log1p", logOnePlus), ("Abs", abs), ("Floor", floor), ("Ceil", ceiling),
  ("Round", ofUnary Float.round), ("Asin", ofUnaryPositive Float.asin),
  ("Acos", ofUnaryPositive Float.acos), ("Atan", ofUnary Float.atan),
  ("Sinh", ofUnary Float.sinh), ("Cosh", ofUnary Float.cosh), ("Tanh", ofUnary Float.tanh),
  ("Asinh", areaSine), ("Acosh", areaCosine), ("Atanh", areaTangent),
  ("Exp", exponential), ("Exp2", ofUnary Float.exp2), ("Expm1", expMinusOne),
  ("Pow10", power 10), ("Inf", signedInfinity)]

def binaryFunctions : List (String × (Binary64 → Binary64 → Binary64)) := [
  ("Min", minimum), ("Max", maximum), ("Hypot", hypotenuse), ("Mod", remainder),
  ("Pow", power), ("Copysign", withSignOf), ("Remainder", nearestRemainder),
  ("Dim", positiveDifference), ("Atan2", angle)]

/-- The table of a new engine. -/
def builtins : FunctionTable σ where
  entries :=
    [(chooseName, .choose),
     ("Random", .native [(1, randomBelow), (2, randomBetween)]),
     ("NaN", .native [(0, .answer (notANumber false))])] ++
    unaryFunctions.map (fun entry => (entry.1, .native [(1, .unary entry.2)])) ++
    binaryFunctions.map (fun entry => (entry.1, .native [(2, .binary entry.2)]))

/-! ## Constants -/

/-- The names of the mathematical constants and their values. -/
def constants : List (String × Binary64) := [
  ("E", 2.718281828459045), ("PI", 3.141592653589793), ("PHI", 1.618033988749895),
  ("SQRT2", 1.4142135623730951), ("SQRTE", 1.6487212707001282), ("SQRTPI", 1.772453850905516),
  ("SQRTPHI", 1.272019649514069), ("LN2", 0.6931471805599453), ("LOG2E", 1.4426950408889634),
  ("LOG10", 2.302585092994046), ("LOG10E", 0.4342944819032518)]

end NumericRules.Function
