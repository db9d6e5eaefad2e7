import NumericRules.Grammar.Expression
import NumericRules.Statement

/-! # Reading statements

Statements are separated by line ends or by the step separator. The value of an
assignment ends at the first separator outside brackets that does not follow an
operator, so an open expression goes on over separators and line ends.
-/

namespace NumericRules.Grammar

open Text

/-! ## Between statements -/

/-- Skip blanks, comments and step separators. -/
def skipSeparatorsFrom (separator : Char) (inComment : Bool) (index : Nat) :
    List Char → Cursor
  | [] => ⟨index, []⟩
  | character :: rest =>
      if inComment then skipSeparatorsFrom separator (character ≠ '\n') (index + 1) rest
      else if isBlank character then skipSeparatorsFrom separator false (index + 1) rest
      else if character = '/' && rest.head? = some '/' then
        skipSeparatorsFrom separator true (index + 1) rest
      else if character = separator then
        skipSeparatorsFrom separator false (index + 1) rest
      else ⟨index, character :: rest⟩

def skipSeparators (separator : Char) (cursor : Cursor) : Cursor :=
  skipSeparatorsFrom separator false cursor.index cursor.rest

/-! ## The extent of a value -/

/-- Characters after which a value goes on over separators. -/
def continuesValue (argumentSeparator character : Char) : Bool :=
  character == argumentSeparator ||
    ['+', '-', '*', '/', '%', '&', '|', '<', '>', '=', '!', ':', ','].contains character

/-- What has been seen of a value. `stop` is the index behind its last character,
`ended` tells that a separator was seen outside brackets since then, `spaced`
that blanks were, and `open` that the last character leaves the value open. -/
structure Extent where
  depth : Nat := 0
  stop : Nat
  ended : Bool := false
  spaced : Bool := false
  isOpen : Bool := false

namespace Extent

/-- A line end or a comment. -/
def endLine (extent : Extent) : Extent :=
  { extent with ended := extent.ended || extent.depth == 0, spaced := 0 < extent.depth }

/-- The extent after one more character of an operand. -/
def operand (depth index : Nat) : Extent :=
  { depth, stop := index + 1 }

/-- The extent after one more character of an operator. -/
def operator (extent : Extent) (index : Nat) : Extent :=
  { extent with stop := index + 1, spaced := false, isOpen := true }

end Extent

/-- Find where a value ends; the result is the index behind its last character
and the cursor before the next statement. -/
def valueEnd (separator argumentSeparator : Char) (inComment : Bool) (extent : Extent)
    (index : Nat) : List Char → Except Fault (Nat × Cursor)
  | [] => .ok (extent.stop, ⟨index, []⟩)
  | character :: rest =>
      let goOn (inComment : Bool) (extent : Extent) :=
        valueEnd separator argumentSeparator inComment extent (index + 1) rest
      let stop : Nat × Cursor := (extent.stop, ⟨index, character :: rest⟩)
      if inComment then goOn (character ≠ '\n') extent
      else if character = '/' && rest.head? = some '/' then goOn true extent.endLine
      else if character = '\n' then goOn false extent.endLine
      else if character = separator && separator ≠ ' ' && extent.depth = 0 then
        goOn false { extent with ended := true, spaced := false }
      else if isBlank character then goOn false { extent with spaced := true }
      else if character = ')' then
        if extent.depth = 0 then .error ⟨.unmatchedClosing, index, index⟩
        else goOn false (.operand (extent.depth - 1) index)
      else if continuesValue argumentSeparator character then
        goOn false (extent.operator index)
      else
        let depth := if character = '(' then extent.depth + 1 else extent.depth
        if extent.isOpen then goOn false (.operand depth index)
        else if extent.depth = 0 then
          if extent.ended then .ok stop
          else if extent.spaced then
            if separator = ' ' then .ok stop
            else .error ⟨.extraSymbol, index, index⟩
          else goOn false (.operand depth index)
        else if extent.spaced then .error ⟨.spaceBetweenOperands, index, index⟩
        else goOn false (.operand depth index)

/-- Read the extent of the value that is next, as a bounded cursor. -/
def readExtent (separator argumentSeparator : Char) (cursor : Cursor) :
    Except Fault (Cursor × Cursor) := do
  let (stop, next) ←
    valueEnd separator argumentSeparator false { stop := cursor.index } cursor.index cursor.rest
  pure (⟨cursor.index, cursor.rest.take (stop - cursor.index)⟩, next)

/-! ## Statements -/

def endsName (separator character : Char) : Bool :=
  isBlank character || character == separator ||
    ['=', ':', '+', '-', '*', '/', '(', ')'].contains character

/-- Read the update that is next, after a name. -/
def readUpdate (name : List Char) (start : Nat) (cursor : Cursor) :
    Except Fault (Update × Cursor) :=
  match cursor.next? with
  | none => throw (cursor.faultFrom start (.noUpdate name))
  | some symbol =>
      if symbol = '(' && !name.isEmpty then
        throw (cursor.faultFrom start (.notAStatement name))
      else if symbol = '=' || symbol = ':' then pure (.set, cursor.advance 1)
      else match Update.compound? symbol with
        | some update =>
            if cursor.second? = some '=' then pure (update, cursor.advance 2)
            else throw (cursor.fault (.incompleteUpdate symbol))
        | none => throw (cursor.fault (.notAnUpdate name symbol))

/-- Read the arguments of a return, whose opening bracket is next. -/
def readReturn (vocabulary : Vocabulary ν) (cursor : Cursor) :
    Except Fault (Step ν × Cursor) := do
  let (arguments, stop) ← readArguments vocabulary.argumentSeparator cursor
  match arguments with
  | [value] =>
      let value ← wholeFormula vocabulary value
      pure (.return none value, stop)
  | [test, value] =>
      let test ← wholeCondition vocabulary test
      let value ← wholeFormula vocabulary value
      pure (.return (some test) value, stop)
  | _ => throw (stop.faultFrom cursor.index (.wrongReturn arguments.length))

/-- Read one statement. Returns are statements only of a process. -/
def readStep (vocabulary : Vocabulary ν) (allowReturn : Bool) (cursor : Cursor) :
    Except Fault (Step ν × Cursor) := do
  let name := cursor.rest.takeWhile fun character =>
    !endsName vocabulary.stepSeparator character
  let afterName := (cursor.advance name.length).skip
  if allowReturn && isWord "return" name && afterName.next? = some '(' then
    readReturn vocabulary afterName
  else
    let (update, afterUpdate) ← readUpdate name cursor.index afterName
    if name.isEmpty then throw (afterUpdate.faultFrom cursor.index (.noTarget update))
    let target ← vocabulary.resolve name cursor.index afterUpdate
    let (extent, stop) ←
      readExtent vocabulary.stepSeparator vocabulary.argumentSeparator afterUpdate.skip
    if extent.rest.isEmpty then throw (stop.fault (.noValue name))
    let value ← wholeFormula vocabulary extent
    pure (.assign ⟨target, update, value⟩, stop)

/-- Read statements to the end of the text. Each takes at least one character,
so the length of the unread text is enough `fuel`. -/
def readSteps (vocabulary : Vocabulary ν) (allowReturn : Bool) :
    Nat → Cursor → Except Fault (List (Step ν) × Cursor)
  | 0, cursor => .ok ([], cursor)
  | fuel + 1, cursor => do
      let cursor := skipSeparators vocabulary.stepSeparator cursor
      if cursor.rest.isEmpty then pure ([], cursor)
      else
        let (step, stop) ← readStep vocabulary allowReturn cursor
        let (steps, stop) ← readSteps vocabulary allowReturn fuel stop
        pure (step :: steps, stop)

def wholeOperations (vocabulary : Vocabulary ν) (text : List Char) :
    Except Fault (List (Assignment ν)) := do
  let (steps, stop) ← readSteps vocabulary false (text.length + 1) (.start text)
  let assignments := steps.filterMap fun
    | .assign assignment => some assignment
    | .return _ _ => none
  if assignments.isEmpty then throw (stop.fault .emptyOperations)
  pure assignments

def wholeProcess (vocabulary : Vocabulary ν) (text : List Char) :
    Except Fault (List (Step ν)) := do
  let (steps, stop) ← readSteps vocabulary true (text.length + 1) (.start text)
  if steps.isEmpty then throw (stop.fault .emptyProcess)
  pure steps

end NumericRules.Grammar
