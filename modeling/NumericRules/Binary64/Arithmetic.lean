import NumericRules.Binary64.Nearest

/-! # Arithmetic

Arithmetic is that of the machine, which rounds each result once. An operation
that has no result answers what is not a number: an operand that is none is
handed on with its sign, and one made anew has a negative sign.
-/

namespace NumericRules.Binary64

/-- The number in the machine's arithmetic, where what is not a number has no
sign. -/
def toFloat (value : Binary64) : Float := Float.ofBits value.bits

/-- The answer of an operation without a result: the first operand that is not a
number, or a new one. -/
def noResult (operands : List Binary64) : Binary64 :=
  (operands.find? isNotANumber).getD (notANumber true)

/-- The answer of an operation for which the machine has found a result. -/
def ofResult (operands : List Binary64) (result : Float) : Binary64 :=
  if result.isNaN then noResult operands else ⟨result.toBits⟩

/-- A function of one number. -/
def ofUnary (function : Float → Float) (value : Binary64) : Binary64 :=
  ofResult [value] (function value.toFloat)

/-- A function of one number whose answer has a positive sign where it has no
result. -/
def ofUnaryPositive (function : Float → Float) (value : Binary64) : Binary64 :=
  ofResult [value, notANumber false] (function value.toFloat)

/-- A function of two numbers. -/
def ofBinary (function : Float → Float → Float) (first second : Binary64) : Binary64 :=
  ofResult [first, second] (function first.toFloat second.toFloat)

instance : Add Binary64 where
  add := ofBinary (· + ·)

instance : Sub Binary64 where
  sub := ofBinary (· - ·)

instance : Mul Binary64 where
  mul := ofBinary (· * ·)

instance : Div Binary64 where
  div := ofBinary (· / ·)

end NumericRules.Binary64
