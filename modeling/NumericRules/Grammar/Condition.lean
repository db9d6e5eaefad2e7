import NumericRules.Grammar.Formula

/-! # Reading conditions

A condition is an operand, alone or followed by a connective and another
condition, so connectives nest to the right whatever they are. An operand is a
group, a comparison of two formulas, or `true` or `false`.
-/

namespace NumericRules.Grammar

open Text

/-! ## Groups and formulas in brackets -/

/-- Characters that follow a bracketed formula but no bracketed condition. -/
def continuesFormula (character : Char) : Bool :=
  ['<', '>', '=', '!', '+', '-', '*', '/', '%'].contains character

/-- Whether the first character that is not blank continues a formula. -/
def startsContinuation (rest : List Char) : Bool :=
  match rest.find? fun character => !isBlank character with
  | some character => continuesFormula character
  | none => false

/-- Whether the brackets open at `depth` belong to a formula, judged by what
follows the bracket that closes them. -/
def closesFormula (depth : Nat) : List Char → Bool
  | [] => false
  | character :: rest =>
      if character = '(' then closesFormula (depth + 1) rest
      else if character = ')' then
        if depth ≤ 1 then startsContinuation rest else closesFormula (depth - 1) rest
      else closesFormula depth rest

/-- Whether the bracket that is next opens a formula and not a condition. -/
def opensFormula (cursor : Cursor) : Bool := closesFormula 0 cursor.rest

/-! ## Comparisons -/

/-- The cursor behind one compared formula: before a connective, a closing
bracket or, on the left side, a comparison, all outside brackets. -/
def operandEnd (stopAtComparison : Bool) (depth index : Nat) : List Char → Cursor
  | [] => ⟨index, []⟩
  | character :: rest =>
      let stop : Cursor := ⟨index, character :: rest⟩
      if character = '(' then operandEnd stopAtComparison (depth + 1) (index + 1) rest
      else if character = ')' then
        if depth = 0 then stop else operandEnd stopAtComparison (depth - 1) (index + 1) rest
      else if depth = 0 && (character = '&' || character = '|') then stop
      else if depth = 0 && stopAtComparison &&
          ['<', '>', '=', '!'].contains character then stop
      else operandEnd stopAtComparison depth (index + 1) rest

/-- Skip over one compared formula. -/
def skipOperand (stopAtComparison : Bool) (cursor : Cursor) : Cursor :=
  operandEnd stopAtComparison 0 cursor.index cursor.rest

def isComparisonSymbol (character : Char) : Bool :=
  ['<', '>', '=', '!'].contains character

/-- The truth value a text names, in any letter case. -/
def literal? (text : List Char) : Option Bool :=
  if isWord "true" text then some true
  else if isWord "false" text then some false
  else none

/-- Read a comparison or a truth value. -/
def readComparison (parseFormula : Cursor → Except Fault (Formula ν × Cursor))
    (cursor : Cursor) : Except Fault (Condition ν × Cursor) := do
  let leftStop := skipOperand true cursor
  let left := cursor.upTo leftStop
  let leftText := trim left.rest
  if leftText.isEmpty then throw (leftStop.fault .noLeftComparand)
  let symbol := leftStop.rest.takeWhile isComparisonSymbol
  if symbol.isEmpty then
    match literal? leftText with
    | some value => pure (.literal value, leftStop)
    | none => throw (leftStop.fault (.noComparison leftText))
  else
    let right := leftStop.advance symbol.length
    match Comparison.ofSymbol? symbol with
    | none => throw (right.faultFrom leftStop.index (.invalidComparison symbol))
    | some comparison =>
        let rightStop := skipOperand false right
        let right := right.upTo rightStop
        if right.isBlank then throw (rightStop.fault (.noRightComparand symbol))
        let left ← whole parseFormula left
        let right ← whole parseFormula right
        pure (.compare left comparison right, rightStop)

/-! ## Connectives -/

/-- Read what follows an operand: the end of its part or a closing bracket,
which is left unread, or a connective and the condition on its right. -/
def readConnective (vocabulary : Vocabulary ν) (deeper : Option (Deeper ν))
    (left : Condition ν) (cursor : Cursor) : Except Fault (Condition ν × Cursor) := do
  let cursor := cursor.skip
  match cursor.next? with
  | none => pure (left, cursor)
  | some ')' => pure (left, cursor)
  | some symbol =>
      match Connective.ofCharacter? symbol with
      | none => throw (cursor.fault .extraAfterCondition)
      | some connective =>
          if cursor.second? ≠ some symbol then
            throw (cursor.fault (.singleConnective symbol))
          let right := (cursor.advance 2).skip
          if right.next? = none || right.next? = some ')' then
            throw (right.fault (.noRightCondition connective))
          let inner ← vocabulary.enter deeper right
          let (right, stop) ← inner.condition right
          pure (.connect left connective right, stop)

/-- Read one level of a condition; `parseFormula` reads the compared formulas at
this level. -/
def readCondition (vocabulary : Vocabulary ν) (deeper : Option (Deeper ν))
    (parseFormula : Cursor → Except Fault (Formula ν × Cursor)) (cursor : Cursor) :
    Except Fault (Condition ν × Cursor) := do
  let cursor := cursor.skip
  match cursor.next? with
  | none => throw (cursor.fault .emptyCondition)
  | some ')' => throw (cursor.fault .emptyCondition)
  | some symbol =>
      if symbol = '&' || symbol = '|' then throw (cursor.fault (.noLeftCondition symbol))
      let (left, stop) ←
        if symbol = '(' && !opensFormula cursor then
          readGroup vocabulary deeper Deeper.condition cursor
        else readComparison parseFormula cursor
      readConnective vocabulary deeper left stop

end NumericRules.Grammar
