import NumericRules.Expression

/-! # Operator chains

The operands and operators read so far at one level of a formula. The tree is
built as they arrive: an operator that binds no tighter than the pending one
closes it into the left operand, and a tighter one joins its operand to the
pending right operand. The heights of both sides are kept beside them.
-/

namespace NumericRules.Grammar

structure Chain (ν : Type) where
  left : Formula ν
  pending : Option (Operator × Formula ν)
  leftDepth : Nat
  rightDepth : Nat

namespace Chain

def start (term : Formula ν) : Chain ν := ⟨term, none, term.depth, 0⟩

/-- The chain with one more operator and operand. -/
def push (chain : Chain ν) (operator : Operator) (term : Formula ν) : Chain ν :=
  match chain.pending with
  | none => { chain with pending := some (operator, term), rightDepth := term.depth }
  | some (pending, right) =>
      if operator.precedence ≤ pending.precedence then
        { left := .binary chain.left pending right
          pending := some (operator, term)
          leftDepth := 1 + max chain.leftDepth chain.rightDepth
          rightDepth := term.depth }
      else
        { chain with
          pending := some (pending, .binary right operator term)
          rightDepth := 1 + max chain.rightDepth term.depth }

/-- The height of the tree the chain stands for. -/
def depth (chain : Chain ν) : Nat :=
  match chain.pending with
  | none => chain.leftDepth
  | some _ => 1 + max chain.leftDepth chain.rightDepth

/-- The tree the chain stands for. -/
def finish (chain : Chain ν) : Formula ν :=
  match chain.pending with
  | none => chain.left
  | some (operator, right) => .binary chain.left operator right

end Chain

end NumericRules.Grammar
