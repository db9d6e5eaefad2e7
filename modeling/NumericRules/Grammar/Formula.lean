import NumericRules.Grammar.Chain
import NumericRules.Grammar.Vocabulary

/-! # Reading formulas

A formula is a chain of operands and operators up to the end of its part of the
text or to an unmatched closing bracket, which is left unread. An operand is a
number, a name, a call or a group, with an optional minus directly before it.
Every function here reads one level of nesting; what is nested is read by the
parsers it is given.
-/

namespace NumericRules.Grammar

open Text

/-- The fault of a missing operand, after an operator or at the start. -/
def missingOperand (after : Option Operator) (cursor : Cursor) : Fault :=
  cursor.fault <| match after with
    | some operator => .noRightOperand operator
    | none => .noOperand

/-! ## Tokens -/

/-- Characters that end a token without belonging to it. -/
def endsToken (separator character : Char) : Bool :=
  isBlank character || character == separator ||
    ['+', '*', '/', '%', '(', ')', ','].contains character

/-- Characters that no formula contains. -/
def isForeign (character : Char) : Bool :=
  ['<', '>', '=', '!', ':'].contains character

/-- Read the characters of a number or name, the read ones being passed in
reverse. A minus belongs to the token only at its start. -/
def tokenFrom (separator : Char) (read : List Char) (index : Nat) :
    List Char → Except Fault (List Char × Cursor)
  | [] => .ok (read.reverse, ⟨index, []⟩)
  | character :: rest =>
      if endsToken separator character || (character = '-' && !read.isEmpty) then
        .ok (read.reverse, ⟨index, character :: rest⟩)
      else if isForeign character then
        .error ⟨.unexpectedSymbol character, index, index⟩
      else tokenFrom separator (character :: read) (index + 1) rest

def readToken (separator : Char) (cursor : Cursor) : Except Fault (List Char × Cursor) :=
  tokenFrom separator [] cursor.index cursor.rest

/-- Tokens of digits and points are meant as numbers. -/
def isNumeric (token : List Char) : Bool :=
  !token.isEmpty && token.all fun character => character.isDigit || character = '.'

/-- The number written by digits, or by digits on both sides of one point. -/
def number? (negative : Bool) (token : List Char) : Option Binary64 :=
  let whole := token.takeWhile Char.isDigit
  match token.dropWhile Char.isDigit with
  | [] => if whole.isEmpty then none else Binary64.readUnsigned? negative token
  | _ :: fraction =>
      if whole.isEmpty || fraction.isEmpty || !fraction.all Char.isDigit then none
      else Binary64.readUnsigned? negative token

/-! ## Calls -/

/-- Read a list of arguments, the first fault in order being reported. -/
def readAll (parse : Cursor → Except Fault α) : List Cursor → Except Fault (List α)
  | [] => .ok []
  | argument :: rest => do
      let value ← parse argument
      let values ← readAll parse rest
      .ok (value :: values)

/-- Read the arguments of a call whose opening bracket is next. `start` is the
index of the function's name. -/
def readCall (vocabulary : Vocabulary ν) (deeper : Option (Deeper ν)) (start : Nat)
    (name : List Char) (cursor : Cursor) : Except Fault (Formula ν × Cursor) := do
  match vocabulary.signature? (String.ofList name) with
  | none => throw (cursor.faultFrom start (.undefinedFunction name))
  | some signature =>
      let inner ← vocabulary.enter deeper cursor
      let (arguments, stop) ← readArguments vocabulary.argumentSeparator cursor
      let wrongArity :=
        stop.faultFrom start (.wrongArity name signature.accepted arguments.length)
      match signature with
      | .choose =>
          match arguments with
          | [test, whenTrue, whenFalse] =>
              let test ← whole inner.condition test
              let whenTrue ← whole inner.formula whenTrue
              let whenFalse ← whole inner.formula whenFalse
              pure (.choose test whenTrue whenFalse, stop)
          | _ => throw wrongArity
      | .native accepted =>
          if accepted.contains arguments.length then
            let arguments ← readAll (whole inner.formula) arguments
            pure (.call (String.ofList name) arguments, stop)
          else throw wrongArity

/-! ## Operands -/

/-- A minus before an operand that is not a number. -/
def negateIf (negative : Bool) (formula : Formula ν) : Formula ν :=
  if negative then .negate formula else formula

/-- Read a number, a name, a call or a minus with a group. -/
def readAtom (vocabulary : Vocabulary ν) (deeper : Option (Deeper ν))
    (after : Option Operator) (cursor : Cursor) : Except Fault (Formula ν × Cursor) := do
  let (token, stop) ← readToken vocabulary.argumentSeparator cursor
  let negative := token.head? = some '-'
  let body := if negative then token.tail else token
  if isNumeric body then
    match number? negative body with
    | some value => pure (.constant value, stop)
    | none => throw (stop.faultFrom cursor.index (.invalidNumber token))
  else if body.isEmpty then
    if negative && stop.next? = some '(' then
      let (inner, stop) ← readGroup vocabulary deeper Deeper.formula stop
      pure (.negate inner, stop)
    else throw (missingOperand after stop)
  else if stop.next? = some '(' then
    let start := if negative then cursor.index + 1 else cursor.index
    let (call, stop) ← readCall vocabulary deeper start body stop
    pure (negateIf negative call, stop)
  else
    let reference ← vocabulary.resolve body cursor.index stop
    pure (negateIf negative (.name reference), stop)

def readOperand (vocabulary : Vocabulary ν) (deeper : Option (Deeper ν))
    (after : Option Operator) (cursor : Cursor) : Except Fault (Formula ν × Cursor) :=
  let cursor := cursor.skip
  match cursor.next? with
  | none => throw (missingOperand after cursor)
  | some ')' => throw (missingOperand after cursor)
  | some '(' => readGroup vocabulary deeper Deeper.formula cursor
  | some _ => readAtom vocabulary deeper after cursor

/-! ## Chains -/

/-- Read the operators and operands that follow a chain. A chain may not stand
for a tree higher than `budget`, the number of levels left. Each turn reads at
least its operator, so the length of the unread text is enough `fuel`. -/
def readChain (vocabulary : Vocabulary ν) (deeper : Option (Deeper ν)) (budget : Nat) :
    Nat → Chain ν → Cursor → Except Fault (Formula ν × Cursor)
  | 0, chain, cursor => .ok (chain.finish, cursor)
  | fuel + 1, chain, cursor => do
      let cursor := cursor.skip
      match cursor.next? with
      | none => pure (chain.finish, cursor)
      | some ')' => pure (chain.finish, cursor)
      | some symbol =>
          match Operator.ofSymbol? symbol with
          | none => throw (cursor.fault .extraSymbol)
          | some operator =>
              let (term, stop) ←
                readOperand vocabulary deeper (some operator) (cursor.advance 1)
              let chain := chain.push operator term
              if budget < chain.depth then throw (vocabulary.depthFault stop)
              else readChain vocabulary deeper budget fuel chain stop

def readFormula (vocabulary : Vocabulary ν) (deeper : Option (Deeper ν)) (budget : Nat)
    (cursor : Cursor) : Except Fault (Formula ν × Cursor) := do
  let cursor := cursor.skip
  match cursor.next? with
  | none => throw (cursor.fault .emptyExpression)
  | some ')' => throw (cursor.fault .emptyExpression)
  | some symbol =>
      match Operator.ofSymbol? symbol with
      | some .subtract | none =>
          let (term, stop) ← readOperand vocabulary deeper none cursor
          readChain vocabulary deeper budget (stop.rest.length + 1) (.start term) stop
      | some operator => throw (cursor.fault (.noLeftOperand operator))

end NumericRules.Grammar
