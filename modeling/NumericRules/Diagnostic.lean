import NumericRules.Operators
import NumericRules.Text.Blank

/-! # Diagnostics of the four languages

A parser reports a fault by its cause and by two places in the text, counted in
characters. A diagnostic locates the fault in the whole text: byte offsets, line
and column, and the rest of the line from there on.
-/

namespace NumericRules

/-- The languages. Faults of a formula inside a condition or a statement are
reported for the language of the whole text. -/
inductive Language where
  | formula
  | condition
  | operation
  | process
deriving DecidableEq, Repr

def Language.name : Language → String
  | .formula => "Formula"
  | .condition => "Condition"
  | .operation => "Operation"
  | .process => "Process"

/-- What is wrong with a text. -/
inductive Cause where
  | unclosedArguments
  | missingArgument
  | extraSeparator (separator : Char)
  | unmatchedClosing
  | trailing (character : Char)
  | tooDeep (limit : Nat)
  | noLeftOperand (operator : Operator)
  | noRightOperand (operator : Operator)
  | noOperand
  | extraSymbol
  | emptyExpression
  | unclosedGroup
  | unexpectedSymbol (character : Char)
  | invalidNumber (token : List Char)
  | unknownName (name : List Char)
  | undefinedFunction (name : List Char)
  | wrongArity (function : List Char) (accepted : List Nat) (given : Nat)
  | noLeftCondition (symbol : Char)
  | extraAfterCondition
  | emptyCondition
  | singleConnective (symbol : Char)
  | noRightCondition (connective : Connective)
  | noLeftComparand
  | noComparison (after : List Char)
  | invalidComparison (symbol : List Char)
  | noRightComparand (symbol : List Char)
  | notAStatement (name : List Char)
  | incompleteUpdate (symbol : Char)
  | noUpdate (name : List Char)
  | notAnUpdate (name : List Char) (found : Char)
  | noTarget (update : Update)
  | noValue (name : List Char)
  | wrongReturn (given : Nat)
  | spaceBetweenOperands
  | emptyOperations
  | emptyProcess
deriving DecidableEq, Repr

def quoted (text : List Char) : String := "'" ++ String.ofList text ++ "'"

def Cause.message : Cause → String
  | .unclosedArguments => "missing right parenthesis for argument list"
  | .missingArgument => "missing argument after separator"
  | .extraSeparator separator => "extra argument separator " ++ quoted [separator]
  | .unmatchedClosing => "unmatched right parenthesis"
  | .trailing character => "unexpected " ++ quoted [character] ++ " after expression"
  | .tooDeep limit => s!"expression nesting exceeds the limit of {limit}"
  | .noLeftOperand operator =>
      "operator " ++ quoted [operator.symbol] ++ " is missing its left operand"
  | .noRightOperand operator =>
      "operator " ++ quoted [operator.symbol] ++ " is missing its right operand"
  | .noOperand => "missing operand"
  | .extraSymbol => "extra symbol after expression"
  | .emptyExpression => "empty expression"
  | .unclosedGroup => "missing right parenthesis"
  | .unexpectedSymbol character => "unexpected " ++ quoted [character] ++ " in formula"
  | .invalidNumber token => "invalid number " ++ quoted token
  | .unknownName name => "unknown name " ++ quoted name
  | .undefinedFunction name => "undefined function " ++ quoted name
  | .wrongArity function accepted given =>
      "function " ++ quoted function ++ " takes " ++
        " or ".intercalate (accepted.map toString) ++ s!" argument(s), got {given}"
  | .noLeftCondition symbol =>
      "logic operator " ++ quoted [symbol, symbol] ++ " is missing its left operand"
  | .extraAfterCondition => "extra symbol after condition"
  | .emptyCondition => "empty condition"
  | .singleConnective symbol => "expected " ++ quoted [symbol, symbol]
  | .noRightCondition connective =>
      "logic operator " ++ quoted connective.symbol.toList ++ " is missing its right operand"
  | .noLeftComparand => "comparison is missing its left operand"
  | .noComparison after => "missing comparison operator after " ++ quoted after
  | .invalidComparison symbol => "invalid comparison operator " ++ quoted symbol
  | .noRightComparand symbol =>
      "comparison operator " ++ quoted symbol ++ " is missing its right operand"
  | .notAStatement name =>
      quoted name ++ " is not a statement; only Return(...) may be called here"
  | .incompleteUpdate symbol => "operator " ++ quoted [symbol] ++ " must be followed by '='"
  | .noUpdate name => "statement " ++ quoted name ++ " is missing an assignment operator"
  | .notAnUpdate name found =>
      "expected an assignment operator after " ++ quoted name ++ ", found " ++ quoted [found]
  | .noTarget update => "missing name before " ++ quoted update.symbol.toList
  | .noValue name => quoted name ++ " is missing its value expression"
  | .wrongReturn given => s!"Return takes 1 or 2 arguments, got {given}"
  | .spaceBetweenOperands => "unexpected space between operands"
  | .emptyOperations => "empty operation list"
  | .emptyProcess => "empty process"

/-- A cause with the character where the fault starts and the character up to
which the text was read. -/
structure Fault where
  cause : Cause
  start : Nat
  reached : Nat
deriving DecidableEq, Repr

/-- A place in a text: bytes before it, and its line and column from 1. -/
structure Position where
  offset : Nat
  line : Nat
  column : Nat
deriving DecidableEq, Repr

namespace Position

/-- The place after one more character. -/
def after (position : Position) (character : Char) : Position :=
  if character = '\n' then ⟨position.offset + character.utf8Size, position.line + 1, 1⟩
  else ⟨position.offset + character.utf8Size, position.line, position.column + 1⟩

/-- The place before the character with the given index, or the end of the
text. -/
def ofIndex (text : List Char) (index : Nat) : Position :=
  (text.take index).foldl after ⟨0, 1, 1⟩

end Position

/-- The greatest number of characters that a diagnostic quotes. -/
def excerptLength : Nat := 40

/-- A fault located in its text. `stop` and the offset of `start` are in bytes. -/
structure Diagnostic where
  language : Language
  cause : Cause
  start : Position
  stop : Nat
  remaining : List Char
deriving DecidableEq, Repr

namespace Diagnostic

def locate (language : Language) (text : List Char) (fault : Fault) : Diagnostic where
  language := language
  cause := fault.cause
  start := Position.ofIndex text fault.start
  stop := (Position.ofIndex text (max fault.reached fault.start)).offset
  remaining := Text.trimEnd (((text.drop fault.start).takeWhile (· ≠ '\n')).take excerptLength)

def message (diagnostic : Diagnostic) : String := diagnostic.cause.message

/-- The message with the language, the place and the quoted rest of the line. -/
def text (diagnostic : Diagnostic) : String :=
  s!"{diagnostic.language.name} error: {diagnostic.message} " ++
  s!"at line {diagnostic.start.line}, column {diagnostic.start.column}" ++
    if diagnostic.remaining.isEmpty then ""
    else " near `" ++ String.ofList diagnostic.remaining ++ "`"

end Diagnostic

end NumericRules
