import NumericRules.Proofs.Grammar.WindowScans

/-! # Readers on indices

The readers of formulas, conditions and statements once more, on windows of a text. What
they read and refuse is what the readers of cursors do; besides, they get stuck where an
index is wrong or a loop does not end.
-/

namespace NumericRules.Grammar

open Text

namespace Guarded

/-- The parsers for what stands one level deeper. -/
structure Inner (ν : Type) where
  formula : Window → Guarded (Formula ν × Window)
  condition : Window → Guarded (Condition ν × Window)

section Readers

variable (text : List Char)

def expectEnd (window : Window) : Guarded Unit := do
  let window ← skip text window
  match ← window.peek text 0 with
  | none => pure ()
  | some ')' => throw (window.here.fault .unmatchedClosing)
  | some character => throw (window.here.fault (.trailing character))

def whole (parse : Window → Guarded (α × Window)) (window : Window) : Guarded α := do
  let (result, stop) ← parse window
  expectEnd text stop
  pure result

def readAll (parse : Window → Guarded α) : List Window → Guarded (List α)
  | [] => pure []
  | argument :: rest => do
      let value ← parse argument
      let values ← readAll parse rest
      pure (value :: values)

variable (vocabulary : Vocabulary ν) (inner : Option (Inner ν))

def enter (window : Window) : Guarded (Inner ν) :=
  match inner with
  | some inner => pure inner
  | none => throw (vocabulary.depthFault window.here)

def resolve (name : List Char) (start : Nat) (window : Window) : Guarded ν :=
  match vocabulary.resolve? (String.ofList name) with
  | some reference => pure reference
  | none => throw (window.here.faultFrom start (.unknownName name))

/-! ### Formulas -/

def readGroup (parse : Inner ν → Window → Guarded (α × Window)) (window : Window) :
    Guarded (α × Window) := do
  let inner ← enter vocabulary inner window
  let (result, stop) ← parse inner window.bump
  let closing ← skip text stop
  if (← closing.peek text 0) = some ')' then pure (result, closing.bump)
  else throw (closing.here.faultFrom window.pos .unclosedGroup)

def readCall (start : Nat) (name : List Char) (window : Window) :
    Guarded (Formula ν × Window) := do
  match vocabulary.signature? (String.ofList name) with
  | none => throw (window.here.faultFrom start (.undefinedFunction name))
  | some signature =>
      let inner ← enter vocabulary inner window
      let (arguments, stop) ← readArguments text vocabulary.argumentSeparator window
      let wrongArity :=
        stop.here.faultFrom start (.wrongArity name signature.accepted arguments.length)
      match signature with
      | .choose =>
          match arguments with
          | [test, whenTrue, whenFalse] =>
              let test ← whole text inner.condition test
              let whenTrue ← whole text inner.formula whenTrue
              let whenFalse ← whole text inner.formula whenFalse
              pure (.choose test whenTrue whenFalse, stop)
          | _ => throw wrongArity
      | .native accepted =>
          if accepted.contains arguments.length then
            let arguments ← readAll (whole text inner.formula) arguments
            pure (.call (String.ofList name) arguments, stop)
          else throw wrongArity

def readAtom (after : Option Operator) (window : Window) : Guarded (Formula ν × Window) := do
  let (token, stop) ← readToken text vocabulary.argumentSeparator window
  let negative := token.head? = some '-'
  let body := if negative then token.tail else token
  let next ← stop.peek text 0
  if isNumeric body then
    match number? negative body with
    | some value => pure (.constant value, stop)
    | none => throw (stop.here.faultFrom window.pos (.invalidNumber token))
  else if body.isEmpty then
    if negative && next = some '(' then
      let (inner, stop) ← readGroup text vocabulary inner Inner.formula stop
      pure (.negate inner, stop)
    else throw (missingOperand after stop.here)
  else if next = some '(' then
    let start := if negative then window.pos + 1 else window.pos
    let (call, stop) ← readCall text vocabulary inner start body stop
    pure (negateIf negative call, stop)
  else
    let reference ← resolve vocabulary body window.pos stop
    pure (negateIf negative (.name reference), stop)

def readOperand (after : Option Operator) (window : Window) : Guarded (Formula ν × Window) := do
  let window ← skip text window
  match ← window.peek text 0 with
  | none => throw (missingOperand after window.here)
  | some ')' => throw (missingOperand after window.here)
  | some '(' => readGroup text vocabulary inner Inner.formula window
  | some _ => readAtom text vocabulary inner after window

/-- Read the operators and operands that follow a chain, in no more turns than the fuel. -/
def readChain (budget : Nat) : Nat → Chain ν → Window → Guarded (Formula ν × Window)
  | 0, _, _ => stuck
  | fuel + 1, chain, window => do
      let window ← skip text window
      match ← window.peek text 0 with
      | none => pure (chain.finish, window)
      | some ')' => pure (chain.finish, window)
      | some symbol =>
          match Operator.ofSymbol? symbol with
          | none => throw (window.here.fault .extraSymbol)
          | some operator =>
              let (term, stop) ← readOperand text vocabulary inner (some operator) window.bump
              let chain := chain.push operator term
              if budget < chain.depth then throw (vocabulary.depthFault stop.here)
              else readChain budget fuel chain stop

def readFormula (budget : Nat) (window : Window) : Guarded (Formula ν × Window) := do
  let window ← skip text window
  match ← window.peek text 0 with
  | none => throw (window.here.fault .emptyExpression)
  | some ')' => throw (window.here.fault .emptyExpression)
  | some symbol =>
      match Operator.ofSymbol? symbol with
      | some .subtract | none =>
          let (term, stop) ← readOperand text vocabulary inner none window
          readChain text vocabulary inner budget (stop.stop - stop.pos + 1) (.start term) stop
      | some operator => throw (window.here.fault (.noLeftOperand operator))

/-! ### Conditions -/

def readComparison (parse : Window → Guarded (Formula ν × Window)) (window : Window) :
    Guarded (Condition ν × Window) := do
  let leftStop ← skipOperand text true window
  let left ← slice text window.pos leftStop.pos
  let leftText := trim left
  if leftText.isEmpty then throw (leftStop.here.fault .noLeftComparand)
  else
    let (symbol, right) ← readWhile text isComparisonSymbol leftStop
    if symbol.isEmpty then
      match literal? leftText with
      | some value => pure (.literal value, leftStop)
      | none => throw (leftStop.here.fault (.noComparison leftText))
    else
      match Comparison.ofSymbol? symbol with
      | none => throw (right.here.faultFrom leftStop.pos (.invalidComparison symbol))
      | some comparison =>
          let rightStop ← skipOperand text false right
          let rightText ← slice text right.pos rightStop.pos
          if rightText.all isBlank then throw (rightStop.here.fault (.noRightComparand symbol))
          else
            let left ← whole text parse (.bounded text window.pos leftStop.pos)
            let right ← whole text parse (.bounded text right.pos rightStop.pos)
            pure (.compare left comparison right, rightStop)

def readConnective (left : Condition ν) (window : Window) : Guarded (Condition ν × Window) := do
  let window ← skip text window
  match ← window.peek text 0 with
  | none => pure (left, window)
  | some ')' => pure (left, window)
  | some symbol =>
      match Connective.ofCharacter? symbol with
      | none => throw (window.here.fault .extraAfterCondition)
      | some connective =>
          if (← window.peek text 1) ≠ some symbol then
            throw (window.here.fault (.singleConnective symbol))
          else
            let right ← skip text window.bump.bump
            let next ← right.peek text 0
            if next = none || next = some ')' then
              throw (right.here.fault (.noRightCondition connective))
            else
              let inner ← enter vocabulary inner right
              let (right, stop) ← inner.condition right
              pure (.connect left connective right, stop)

/-- Whether the next character opens a group that is a condition. -/
def opensCondition (symbol : Char) (window : Window) : Guarded Bool :=
  if symbol = '(' then do
    let opens ← opensFormula text window
    pure !opens
  else pure false

def readCondition (budget : Nat) (window : Window) : Guarded (Condition ν × Window) := do
  let window ← skip text window
  match ← window.peek text 0 with
  | none => throw (window.here.fault .emptyCondition)
  | some ')' => throw (window.here.fault .emptyCondition)
  | some symbol =>
      if symbol = '&' || symbol = '|' then throw (window.here.fault (.noLeftCondition symbol))
      else
        let (left, stop) ←
          if ← opensCondition text symbol window then
            readGroup text vocabulary inner Inner.condition window
          else readComparison text (readFormula text vocabulary inner budget) window
        readConnective text vocabulary inner left stop

/-! ### Levels -/

/-- The parsers for what stands deeper, by the number of levels that are left. -/
def levels : Nat → Option (Inner ν)
  | 0 => none
  | budget + 1 =>
      let inner := levels budget
      some ⟨readFormula text vocabulary inner budget, readCondition text vocabulary inner budget⟩

def wholeFormula (window : Window) : Guarded (Formula ν) :=
  let limit := vocabulary.nestingLimit
  whole text (readFormula text vocabulary (levels text vocabulary limit) limit) window

def wholeCondition (window : Window) : Guarded (Condition ν) :=
  let limit := vocabulary.nestingLimit
  whole text (readCondition text vocabulary (levels text vocabulary limit) limit) window

/-! ### Statements -/

def readUpdate (name : List Char) (start : Nat) (window : Window) : Guarded (Update × Window) := do
  match ← window.peek text 0 with
  | none => throw (window.here.faultFrom start (.noUpdate name))
  | some symbol =>
      if symbol = '(' && !name.isEmpty then
        throw (window.here.faultFrom start (.notAStatement name))
      else if symbol = '=' || symbol = ':' then pure (.set, window.bump)
      else match Update.compound? symbol with
        | some update =>
            if (← window.peek text 1) = some '=' then pure (update, window.bump.bump)
            else throw (window.here.fault (.incompleteUpdate symbol))
        | none => throw (window.here.fault (.notAnUpdate name symbol))

def readReturn (window : Window) : Guarded (Step ν × Window) := do
  let (arguments, stop) ← readArguments text vocabulary.argumentSeparator window
  match arguments with
  | [value] =>
      let value ← wholeFormula text vocabulary value
      pure (.return none value, stop)
  | [test, value] =>
      let test ← wholeCondition text vocabulary test
      let value ← wholeFormula text vocabulary value
      pure (.return (some test) value, stop)
  | _ => throw (stop.here.faultFrom window.pos (.wrongReturn arguments.length))

def readStep (allowReturn : Bool) (window : Window) : Guarded (Step ν × Window) := do
  let (name, behind) ←
    readWhile text (fun character => !endsName vocabulary.stepSeparator character) window
  let afterName ← skip text behind
  let next ← afterName.peek text 0
  if allowReturn && isWord "return" name && next = some '(' then
    readReturn text vocabulary afterName
  else
    let (update, afterUpdate) ← readUpdate text name window.pos afterName
    if name.isEmpty then throw (afterUpdate.here.faultFrom window.pos (.noTarget update))
    else
      let target ← resolve vocabulary name window.pos afterUpdate
      let start ← skip text afterUpdate
      let (extent, stop) ←
        readExtent text vocabulary.stepSeparator vocabulary.argumentSeparator start
      if extent.stop ≤ extent.pos then throw (stop.here.fault (.noValue name))
      else
        let value ← wholeFormula text vocabulary extent
        pure (.assign ⟨target, update, value⟩, stop)

/-- Read statements to the end of the text, no more of them than the fuel. -/
def readSteps (allowReturn : Bool) : Nat → Window → Guarded (List (Step ν) × Window)
  | 0, _ => stuck
  | fuel + 1, window => do
      let window ← skipSeparators text vocabulary.stepSeparator window
      if window.stop ≤ window.pos then pure ([], window)
      else
        let (step, stop) ← readStep text vocabulary allowReturn window
        let (steps, stop) ← readSteps allowReturn fuel stop
        pure (step :: steps, stop)

def wholeOperations : Guarded (List (Assignment ν)) := do
  let (steps, stop) ← readSteps text vocabulary false (text.length + 1) (.full text)
  let assignments := steps.filterMap fun
    | .assign assignment => some assignment
    | .return _ _ => none
  if assignments.isEmpty then throw (stop.here.fault .emptyOperations)
  else pure assignments

def wholeProcess : Guarded (List (Step ν)) := do
  let (steps, stop) ← readSteps text vocabulary true (text.length + 1) (.full text)
  if steps.isEmpty then throw (stop.here.fault .emptyProcess)
  else pure steps

end Readers

end Guarded

end NumericRules.Grammar
