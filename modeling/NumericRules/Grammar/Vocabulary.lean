import NumericRules.Expression
import NumericRules.Grammar.Cursor

/-! # What a text may mention

The parsers know names and functions only through a vocabulary. It also fixes
the separators, which are part of an engine's settings, and the nesting limit
that is quoted when a text is nested too deeply.
-/

namespace NumericRules.Grammar

/-- The argument counts a function accepts, and whether it is the conditional
function, whose first argument is a condition. -/
inductive Signature where
  | choose
  | native (accepted : List Nat)
deriving DecidableEq, Repr

namespace Signature

def accepted : Signature → List Nat
  | .choose => [3]
  | .native accepted => accepted

end Signature

structure Vocabulary (ν : Type) where
  resolve? : String → Option ν
  signature? : String → Option Signature
  argumentSeparator : Char
  stepSeparator : Char
  nestingLimit : Nat

/-- The parsers for what stands one level deeper. -/
structure Deeper (ν : Type) where
  formula : Cursor → Except Fault (Formula ν × Cursor)
  condition : Cursor → Except Fault (Condition ν × Cursor)

namespace Vocabulary

variable {ν : Type} (vocabulary : Vocabulary ν)

/-- The fault of a text nested too deeply at the cursor. -/
def depthFault (cursor : Cursor) : Fault :=
  cursor.fault (.tooDeep vocabulary.nestingLimit)

/-- Go one level deeper, unless no level is left. -/
def enter (deeper : Option (Deeper ν)) (cursor : Cursor) : Except Fault (Deeper ν) :=
  match deeper with
  | some deeper => pure deeper
  | none => throw (vocabulary.depthFault cursor)

/-- What a name stands for; `start` and the cursor bound the reported place. -/
def resolve (name : List Char) (start : Nat) (cursor : Cursor) : Except Fault ν :=
  match vocabulary.resolve? (String.ofList name) with
  | some reference => pure reference
  | none => throw (cursor.faultFrom start (.unknownName name))

end Vocabulary

/-- The rest of a bracketed group whose opening bracket is next, read one level
deeper. -/
def readGroup (vocabulary : Vocabulary ν) (deeper : Option (Deeper ν))
    (parse : Deeper ν → Cursor → Except Fault (α × Cursor)) (cursor : Cursor) :
    Except Fault (α × Cursor) := do
  let inner ← vocabulary.enter deeper cursor
  let (result, stop) ← parse inner (cursor.advance 1)
  let closing := stop.skip
  if closing.next? = some ')' then pure (result, closing.advance 1)
  else throw (closing.faultFrom cursor.index .unclosedGroup)

end NumericRules.Grammar
