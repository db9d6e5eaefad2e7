import NumericRules.Grammar.Statement
import NumericRules.Proofs.LooseTrees

/-! # Resolving names while reading

A reading is given what names stand for. The readings here ask for it one name after
another, in the order of the text, and every answer may change the state in which the
next name is resolved. They read loose trees: arguments are counted where a call is read.
-/

namespace NumericRules.Grammar

/-- What a text may mention, with names that are resolved in a state. -/
structure Lexicon (κ : Type) where
  resolve : String → κ → Option (Identifier × κ)
  signature? : String → Option Signature
  argumentSeparator : Char
  stepSeparator : Char
  nestingLimit : Nat

namespace Lexicon

/-- The same with names that stand for what `resolve?` tells, whatever was read before. -/
def vocabulary (lexicon : Lexicon κ) (resolve? : String → Option μ) : Vocabulary μ where
  resolve? := resolve?
  signature? := lexicon.signature?
  argumentSeparator := lexicon.argumentSeparator
  stepSeparator := lexicon.stepSeparator
  nestingLimit := lexicon.nestingLimit

/-- Names that are resolved one after another, with the identifiers they get. -/
inductive Resolves (lexicon : Lexicon κ) : κ → List Reference → κ → Prop
  | nil (state : κ) : Resolves lexicon state [] state
  | cons {name : String} {id : Identifier} {state between after : κ} {rest : List Reference} :
      lexicon.resolve name state = some (id, between) → Resolves lexicon between rest after →
      Resolves lexicon state (⟨id, name⟩ :: rest) after

/-- The names can be resolved one after another. -/
def CanResolve (lexicon : Lexicon κ) (state : κ) (names : List String) : Prop :=
  ∃ references after, lexicon.Resolves state references after ∧ references.map (·.name) = names

end Lexicon

/-! ## Chains of loose operands -/

/-- A chain whose operands are loose trees. -/
structure LooseChain (ν : Type) where
  left : LooseFormula ν
  pending : Option (Operator × LooseFormula ν)
  leftDepth : Nat
  rightDepth : Nat

namespace LooseChain

def start (term : LooseFormula ν) : LooseChain ν := ⟨term, none, term.depth, 0⟩

def push (chain : LooseChain ν) (operator : Operator) (term : LooseFormula ν) : LooseChain ν :=
  match chain.pending with
  | none => { chain with pending := some (operator, term), rightDepth := term.depth }
  | some (pending, right) =>
      if operator.precedence ≤ pending.precedence then
        { left := .binary chain.left pending right
          pending := some (operator, term)
          leftDepth := 1 + max chain.leftDepth chain.rightDepth
          rightDepth := term.depth }
      else
        { chain with
          pending := some (pending, .binary right operator term)
          rightDepth := 1 + max chain.rightDepth term.depth }

def depth (chain : LooseChain ν) : Nat :=
  match chain.pending with
  | none => chain.leftDepth
  | some _ => 1 + max chain.leftDepth chain.rightDepth

def finish (chain : LooseChain ν) : LooseFormula ν :=
  match chain.pending with
  | none => chain.left
  | some (operator, right) => .binary chain.left operator right

end LooseChain

/-! ## Readings with a state -/

/-- A reading in whose course names are resolved. -/
abbrev Resolving (κ α : Type) : Type := StateT κ (Except Fault) α

namespace Resolving

/-- The parsers for what stands one level deeper. -/
structure Inner (κ : Type) where
  formula : Cursor → Resolving κ (LooseFormula Reference × Cursor)
  condition : Cursor → Resolving κ (LooseCondition Reference × Cursor)

def whole (parse : Cursor → Resolving κ (α × Cursor)) (cursor : Cursor) : Resolving κ α := do
  let (result, stop) ← parse cursor
  stop.expectEnd
  pure result

def readAll (parse : Cursor → Resolving κ α) : List Cursor → Resolving κ (List α)
  | [] => pure []
  | argument :: rest => do
      let value ← parse argument
      let values ← readAll parse rest
      pure (value :: values)

/-- A minus before an operand that is not a number. -/
def negateIf (negative : Bool) (formula : LooseFormula ν) : LooseFormula ν :=
  if negative then .negate formula else formula

section Level

variable (lexicon : Lexicon κ) (deeper : Option (Inner κ)) (budget : Nat)

/-- The fault of a text nested too deeply at the cursor. -/
def depthFault (cursor : Cursor) : Fault := cursor.fault (.tooDeep lexicon.nestingLimit)

/-- Go one level deeper, unless no level is left. -/
def enter (cursor : Cursor) : Resolving κ (Inner κ) :=
  match deeper with
  | some inner => pure inner
  | none => throw (depthFault lexicon cursor)

/-- Resolve a name in the state that the earlier ones have left. -/
def resolve (name : List Char) (start : Nat) (cursor : Cursor) : Resolving κ Reference := do
  let state ← get
  match lexicon.resolve (String.ofList name) state with
  | some (id, after) =>
      set after
      pure ⟨id, String.ofList name⟩
  | none => throw (cursor.faultFrom start (.unknownName name))

def readGroup (parse : Inner κ → Cursor → Resolving κ (α × Cursor)) (cursor : Cursor) :
    Resolving κ (α × Cursor) := do
  let inner ← enter lexicon deeper cursor
  let (result, stop) ← parse inner (cursor.advance 1)
  let closing := stop.skip
  if closing.next? = some ')' then pure (result, closing.advance 1)
  else throw (closing.faultFrom cursor.index .unclosedGroup)

/-- The condition of a conditional call is read apart, and what stands behind it are the
branches. -/
def readCall (start : Nat) (name : List Char) (cursor : Cursor) :
    Resolving κ (LooseFormula Reference × Cursor) := do
  match lexicon.signature? (String.ofList name) with
  | none => throw (cursor.faultFrom start (.undefinedFunction name))
  | some signature =>
      let inner ← enter lexicon deeper cursor
      let (arguments, stop) ← readArguments lexicon.argumentSeparator cursor
      let wrongArity :=
        stop.faultFrom start (.wrongArity name signature.accepted arguments.length)
      match signature with
      | .choose =>
          match arguments with
          | [test, whenTrue, whenFalse] =>
              let test ← whole inner.condition test
              let whenTrue ← whole inner.formula whenTrue
              let whenFalse ← whole inner.formula whenFalse
              pure (.conditional (String.ofList name) test [whenTrue, whenFalse], stop)
          | _ => throw wrongArity
      | .native accepted =>
          if accepted.contains arguments.length then
            let arguments ← readAll (whole inner.formula) arguments
            pure (.call (String.ofList name) arguments, stop)
          else throw wrongArity

def readAtom (after : Option Operator) (cursor : Cursor) :
    Resolving κ (LooseFormula Reference × Cursor) := do
  let (token, stop) ← readToken lexicon.argumentSeparator cursor
  let negative := token.head? = some '-'
  let body := if negative then token.tail else token
  if isNumeric body then
    match number? negative body with
    | some value => pure (.constant value, stop)
    | none => throw (stop.faultFrom cursor.index (.invalidNumber token))
  else if body.isEmpty then
    if negative && stop.next? = some '(' then
      let (inner, stop) ← readGroup lexicon deeper Inner.formula stop
      pure (.negate inner, stop)
    else throw (missingOperand after stop)
  else if stop.next? = some '(' then
    let start := if negative then cursor.index + 1 else cursor.index
    let (call, stop) ← readCall lexicon deeper start body stop
    pure (negateIf negative call, stop)
  else
    let reference ← resolve lexicon body cursor.index stop
    pure (negateIf negative (.name reference), stop)

def readOperand (after : Option Operator) (cursor : Cursor) :
    Resolving κ (LooseFormula Reference × Cursor) :=
  let cursor := cursor.skip
  match cursor.next? with
  | none => throw (missingOperand after cursor)
  | some ')' => throw (missingOperand after cursor)
  | some '(' => readGroup lexicon deeper Inner.formula cursor
  | some _ => readAtom lexicon deeper after cursor

def readChain : Nat → LooseChain Reference → Cursor →
    Resolving κ (LooseFormula Reference × Cursor)
  | 0, chain, cursor => pure (chain.finish, cursor)
  | fuel + 1, chain, cursor => do
      let cursor := cursor.skip
      match cursor.next? with
      | none => pure (chain.finish, cursor)
      | some ')' => pure (chain.finish, cursor)
      | some symbol =>
          match Operator.ofSymbol? symbol with
          | none => throw (cursor.fault .extraSymbol)
          | some operator =>
              let (term, stop) ← readOperand lexicon deeper (some operator) (cursor.advance 1)
              let chain := chain.push operator term
              if budget < chain.depth then throw (depthFault lexicon stop)
              else readChain fuel chain stop

def readFormula (cursor : Cursor) : Resolving κ (LooseFormula Reference × Cursor) := do
  let cursor := cursor.skip
  match cursor.next? with
  | none => throw (cursor.fault .emptyExpression)
  | some ')' => throw (cursor.fault .emptyExpression)
  | some symbol =>
      match Operator.ofSymbol? symbol with
      | some .subtract | none =>
          let (term, stop) ← readOperand lexicon deeper none cursor
          readChain lexicon deeper budget (stop.rest.length + 1) (.start term) stop
      | some operator => throw (cursor.fault (.noLeftOperand operator))

def readComparison (parse : Cursor → Resolving κ (LooseFormula Reference × Cursor))
    (cursor : Cursor) : Resolving κ (LooseCondition Reference × Cursor) := do
  let leftStop := skipOperand true cursor
  let left := cursor.upTo leftStop
  let leftText := Text.trim left.rest
  if leftText.isEmpty then throw (leftStop.fault .noLeftComparand)
  else
    let symbol := leftStop.rest.takeWhile isComparisonSymbol
    if symbol.isEmpty then
      match literal? leftText with
      | some value => pure (.literal value, leftStop)
      | none => throw (leftStop.fault (.noComparison leftText))
    else
      let right := leftStop.advance symbol.length
      match Comparison.ofSymbol? symbol with
      | none => throw (right.faultFrom leftStop.index (.invalidComparison symbol))
      | some comparison =>
          let rightStop := skipOperand false right
          let right := right.upTo rightStop
          if right.isBlank then throw (rightStop.fault (.noRightComparand symbol))
          else
            let left ← whole parse left
            let right ← whole parse right
            pure (.compare left comparison right, rightStop)

def readConnective (left : LooseCondition Reference) (cursor : Cursor) :
    Resolving κ (LooseCondition Reference × Cursor) := do
  let cursor := cursor.skip
  match cursor.next? with
  | none => pure (left, cursor)
  | some ')' => pure (left, cursor)
  | some symbol =>
      match Connective.ofCharacter? symbol with
      | none => throw (cursor.fault .extraAfterCondition)
      | some connective =>
          if cursor.second? ≠ some symbol then
            throw (cursor.fault (.singleConnective symbol))
          else
            let right := (cursor.advance 2).skip
            if right.next? = none || right.next? = some ')' then
              throw (right.fault (.noRightCondition connective))
            else
              let inner ← enter lexicon deeper right
              let (right, stop) ← inner.condition right
              pure (.connect left connective right, stop)

def readCondition (cursor : Cursor) : Resolving κ (LooseCondition Reference × Cursor) := do
  let cursor := cursor.skip
  match cursor.next? with
  | none => throw (cursor.fault .emptyCondition)
  | some ')' => throw (cursor.fault .emptyCondition)
  | some symbol =>
      if symbol = '&' || symbol = '|' then throw (cursor.fault (.noLeftCondition symbol))
      else
        let (left, stop) ←
          if symbol = '(' && !opensFormula cursor then
            readGroup lexicon deeper Inner.condition cursor
          else readComparison (readFormula lexicon deeper budget) cursor
        readConnective lexicon deeper left stop

end Level

/-! ## All levels -/

/-- The parsers for what stands deeper, by the number of levels that are left. -/
def levels (lexicon : Lexicon κ) : Nat → Option (Inner κ)
  | 0 => none
  | budget + 1 => some
      ⟨readFormula lexicon (levels lexicon budget) budget,
        readCondition lexicon (levels lexicon budget) budget⟩

def wholeFormula (lexicon : Lexicon κ) (cursor : Cursor) :
    Resolving κ (LooseFormula Reference) :=
  whole (readFormula lexicon (levels lexicon lexicon.nestingLimit) lexicon.nestingLimit) cursor

def wholeCondition (lexicon : Lexicon κ) (cursor : Cursor) :
    Resolving κ (LooseCondition Reference) :=
  whole (readCondition lexicon (levels lexicon lexicon.nestingLimit) lexicon.nestingLimit) cursor

/-! ## Statements -/

section Statements

variable (lexicon : Lexicon κ)

def readReturn (cursor : Cursor) : Resolving κ (LooseStep Reference × Cursor) := do
  let (arguments, stop) ← readArguments lexicon.argumentSeparator cursor
  match arguments with
  | [value] =>
      let value ← wholeFormula lexicon value
      pure (.return none value, stop)
  | [test, value] =>
      let test ← wholeCondition lexicon test
      let value ← wholeFormula lexicon value
      pure (.return (some test) value, stop)
  | _ => throw (stop.faultFrom cursor.index (.wrongReturn arguments.length))

/-- The target of an assignment is resolved before the names of its value. -/
def readStep (allowReturn : Bool) (cursor : Cursor) :
    Resolving κ (LooseStep Reference × Cursor) :=
  let name := cursor.rest.takeWhile fun character =>
    !endsName lexicon.stepSeparator character
  let afterName := (cursor.advance name.length).skip
  if allowReturn && Text.isWord "return" name && afterName.next? = some '(' then
    readReturn lexicon afterName
  else do
    let (update, afterUpdate) ← readUpdate name cursor.index afterName
    if name.isEmpty then throw (afterUpdate.faultFrom cursor.index (.noTarget update))
    else
      let target ← resolve lexicon name cursor.index afterUpdate
      let (extent, stop) ←
        readExtent lexicon.stepSeparator lexicon.argumentSeparator afterUpdate.skip
      if extent.rest.isEmpty then throw (stop.fault (.noValue name))
      else
        let value ← wholeFormula lexicon extent
        pure (.assign ⟨target, update, value⟩, stop)

def readSteps (allowReturn : Bool) : Nat → Cursor →
    Resolving κ (List (LooseStep Reference) × Cursor)
  | 0, cursor => pure ([], cursor)
  | fuel + 1, cursor => do
      let cursor := skipSeparators lexicon.stepSeparator cursor
      if cursor.rest.isEmpty then pure ([], cursor)
      else
        let (step, stop) ← readStep lexicon allowReturn cursor
        let (steps, stop) ← readSteps allowReturn fuel stop
        pure (step :: steps, stop)

def wholeOperations (text : List Char) : Resolving κ (List (LooseAssignment Reference)) := do
  let (steps, stop) ← readSteps lexicon false (text.length + 1) (.start text)
  let assignments := steps.filterMap fun
    | .assign assignment => some assignment
    | .return _ _ => none
  if assignments.isEmpty then throw (stop.fault .emptyOperations)
  else pure assignments

def wholeProcess (text : List Char) : Resolving κ (List (LooseStep Reference)) := do
  let (steps, stop) ← readSteps lexicon true (text.length + 1) (.start text)
  if steps.isEmpty then throw (stop.fault .emptyProcess)
  else pure steps

end Statements

end Resolving

end NumericRules.Grammar
