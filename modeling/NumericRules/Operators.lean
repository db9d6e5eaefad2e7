import NumericRules.Binary64.Whole

/-! # Operators

The operators of the rule languages and what they do with numbers. Division
and remainder by zero are defined: they keep the left operand.
-/

namespace NumericRules

open Binary64

/-- The binary operators of a formula. -/
inductive Operator where
  | add
  | subtract
  | multiply
  | divide
  | modulo
deriving DecidableEq, Repr

namespace Operator

def ofSymbol? : Char → Option Operator
  | '+' => some .add
  | '-' => some .subtract
  | '*' => some .multiply
  | '/' => some .divide
  | '%' => some .modulo
  | _ => none

def symbol : Operator → Char
  | .add => '+'
  | .subtract => '-'
  | .multiply => '*'
  | .divide => '/'
  | .modulo => '%'

/-- The multiplicative operators bind tighter than the additive ones. -/
def precedence : Operator → Nat
  | .add | .subtract => 1
  | .multiply | .divide | .modulo => 2

/-- The remainder of whole parts held in 64 bits, with the sign of the
dividend. -/
def remainderOfWords (left right : Binary64) : Binary64 :=
  if toWord right = 0 then left
  else ofInteger ((toWord left).tmod (toWord right))

def apply (operator : Operator) (left right : Binary64) : Binary64 :=
  match operator with
  | .add => left + right
  | .subtract => left - right
  | .multiply => left * right
  | .divide => if right == 0 then left else left / right
  | .modulo => remainderOfWords left right

end Operator

inductive Comparison where
  | greater
  | less
  | greaterOrEqual
  | lessOrEqual
  | equal
  | notEqual
deriving DecidableEq, Repr

namespace Comparison

def ofSymbol? : List Char → Option Comparison
  | ['>'] => some .greater
  | ['<'] => some .less
  | ['>', '='] => some .greaterOrEqual
  | ['<', '='] => some .lessOrEqual
  | ['='] => some .equal
  | ['!', '='] => some .notEqual
  | _ => none

def symbol : Comparison → String
  | .greater => ">"
  | .less => "<"
  | .greaterOrEqual => ">="
  | .lessOrEqual => "<="
  | .equal => "="
  | .notEqual => "!="

/-- What is not a number is unequal to everything and in no order. -/
def holds (comparison : Comparison) (left right : Binary64) : Bool :=
  match comparison with
  | .greater => right < left
  | .less => left < right
  | .greaterOrEqual => right ≤ left
  | .lessOrEqual => left ≤ right
  | .equal => left == right
  | .notEqual => left != right

end Comparison

/-- The connectives of a condition, written doubled. -/
inductive Connective where
  | and
  | or
deriving DecidableEq, Repr

namespace Connective

/-- The connective whose symbol repeats the given character. -/
def ofCharacter? : Char → Option Connective
  | '&' => some .and
  | '|' => some .or
  | _ => none

def symbol : Connective → String
  | .and => "&&"
  | .or => "||"

end Connective

/-- How a statement changes the value of its target. -/
inductive Update where
  | set
  | increase
  | decrease
  | multiply
  | divide
deriving DecidableEq, Repr

namespace Update

def symbol : Update → String
  | .set => "="
  | .increase => "+="
  | .decrease => "-="
  | .multiply => "*="
  | .divide => "/="

/-- The update written as a character followed by `=`. -/
def compound? : Char → Option Update
  | '+' => some .increase
  | '-' => some .decrease
  | '*' => some .multiply
  | '/' => some .divide
  | _ => none

def ofSymbol? (symbol : String) : Option Update :=
  match symbol.toList with
  | ['='] => some .set
  | [character, '='] => compound? character
  | _ => none

/-- The value after an update; division by zero keeps the current one. -/
def apply (update : Update) (current operand : Binary64) : Binary64 :=
  match update with
  | .set => operand
  | .increase => current + operand
  | .decrease => current - operand
  | .multiply => current * operand
  | .divide => if operand == 0 then current else current / operand

end Update

end NumericRules
