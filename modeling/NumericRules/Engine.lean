import NumericRules.Evaluation
import NumericRules.Function.Library
import NumericRules.Grammar.Statement

/-! # Engines

An engine has the names, functions and settings that the readings and the stores
of a program share. A new engine already knows the type `text`, whose names read
as their own identifiers, and the mathematical constants.
-/

namespace NumericRules

/-- Separators and limits. A nesting level is taken by groups, calls, connectives
and the height of operator chains. -/
structure Settings where
  stepSeparator : Char := ' '
  argumentSeparator : Char := ','
  traceSteps : Bool := false
  maxSourceBytes : Nat := 1024 * 1024
  maxDepth : Nat := 100
deriving DecidableEq, Repr

structure Engine (σ : Type) where
  registry : Registry σ
  functions : FunctionTable σ
  settings : Settings

namespace Engine

/-! ## New engines -/

/-- The type whose names read as their own identifiers. -/
def textLabel : String := "text"

/-- The type of the mathematical constants. -/
def constantLabel : String := "mathconst"

/-- A name of text reads as its packed identifier. -/
def textHook : GetHook σ := fun id => .finish (.ok (Binary64.ofInteger id.bits.toNat))

/-- A constant reads as the value at the place of its raw number, and 0 beyond
the last one. -/
def constantHook : GetHook σ := fun id =>
  .finish (.ok ((Function.constants[id.raw - 1]?).map (·.2) |>.getD 0))

/-- Register names under a type with the raw numbers from `raw` on. -/
def registerNumbered (label : String) (raw : Nat) : List String → Registration σ Unit
  | [] => pure ()
  | name :: rest => do
      let _ ← Registry.registerName label name raw
      registerNumbered label (raw + 1) rest

/-- The names of a new engine. -/
def registerBuiltins : Registration σ Unit := do
  let _ ← Registry.registerType textLabel
  Registry.attachToType textLabel (.get textHook)
  let _ ← Registry.registerType constantLabel
  registerNumbered constantLabel 1 (Function.constants.map (·.1))
  Registry.attachToType constantLabel (.get constantHook)

/-- An engine with nothing but the built-in names and functions. -/
def new (settings : Settings := {}) : Engine σ where
  registry := (registerBuiltins.run {}).2
  functions := Function.builtins
  settings := settings

def register (engine : Engine σ) (registration : Registration σ α) :
    Except Error α × Engine σ :=
  let (result, registry) := registration.run engine.registry
  (result.mapError .registration, { engine with registry })

/-- Register a function of exactly `arity` arguments. -/
def registerFunction (engine : Engine σ) (name : String) (arity : Nat) (plan : Plan σ) :
    Except Error Unit × Engine σ :=
  match engine.functions.register name arity plan with
  | .ok functions => (.ok (), { engine with functions })
  | .error fault => (.error (.function fault), engine)

/-- The registered names but for those of mathematical constants, in the order of
their identifiers. -/
def namedRecords (engine : Engine σ) : List (NameRecord σ) :=
  engine.registry.sortedRecords.filter fun record =>
    engine.registry.typeLabel? record.id != some constantLabel

/-! ## Reading rules -/

/-- The words of a text whose names stand for what `resolve?` tells. -/
def vocabulary (engine : Engine σ) (resolve? : String → Option ν) : Grammar.Vocabulary ν where
  resolve? := resolve?
  signature? := engine.functions.signature?
  argumentSeparator := engine.settings.argumentSeparator
  stepSeparator := engine.settings.stepSeparator
  nestingLimit := engine.settings.maxDepth

/-- The registered name called so. -/
def reference? (engine : Engine σ) (name : String) : Option Reference :=
  (engine.registry.identifier? name).map (⟨·, name⟩)

/-- Read a text that is not too long, and locate the fault if there is one. -/
def readText (engine : Engine σ) (language : Language) (text : String)
    (parse : List Char → Except Fault α) : Except Error α :=
  if engine.settings.maxSourceBytes < text.utf8ByteSize then
    .error (.sourceTooLong engine.settings.maxSourceBytes text.utf8ByteSize)
  else (parse text.toList).mapError fun fault =>
    .parse (Diagnostic.locate language text.toList fault)

/-- Read a formula over registered names. -/
def readFormula (engine : Engine σ) (text : String) : Except Error (Formula Reference) :=
  engine.readText .formula text fun characters =>
    Grammar.wholeFormula (engine.vocabulary engine.reference?) (.start characters)

/-- Read a condition over registered names. -/
def readCondition (engine : Engine σ) (text : String) : Except Error (Condition Reference) :=
  engine.readText .condition text fun characters =>
    Grammar.wholeCondition (engine.vocabulary engine.reference?) (.start characters)

/-- Read assignments to registered names. -/
def readOperations (engine : Engine σ) (text : String) :
    Except Error (List (Assignment Reference)) :=
  engine.readText .operation text
    (Grammar.wholeOperations (engine.vocabulary engine.reference?))

/-- Read the steps of a process. Every name is allowed and stands for itself: slots are given
out when all steps are read, which comes to the same as long as there are numbers for them. -/
def readSteps (engine : Engine σ) (text : String) : Except Error (List (Step String)) :=
  engine.readText .process text (Grammar.wholeProcess (engine.vocabulary some))

/-- Number a successful reading. -/
def numbered (result : Except Error α) (rule : RuleId → α → β) : Run σ (Except Error β) :=
  match result with
  | .error error => pure (.error error)
  | .ok content => do
      let id ← Run.nextRule
      pure (.ok (rule id content))

def parseFormula (engine : Engine σ) (text : String) :
    Run σ (Except Error FormulaRule) :=
  numbered (engine.readFormula text) fun id root => ⟨id, root⟩

def parseCondition (engine : Engine σ) (text : String) :
    Run σ (Except Error ConditionRule) :=
  numbered (engine.readCondition text) fun id root => ⟨id, root⟩

def parseOperations (engine : Engine σ) (text : String) :
    Run σ (Except Error OperationRule) :=
  numbered (engine.readOperations text) fun id assignments =>
    ⟨id, assignments, engine.settings.stepSeparator⟩

def parseProcess (engine : Engine σ) (text : String) : Run σ (Except Error ProcessRule) :=
  numbered (engine.readSteps text) fun id steps =>
    ProcessRule.ofSteps id engine.settings.stepSeparator engine.registry.identifier? steps

/-! ## Going to work -/

/-- The state of an engine that has done nothing yet. -/
def start (engine : Engine σ) (host : σ) (dice : Dice) : World σ :=
  { host, store := .new engine.registry, dice }

end Engine

end NumericRules
