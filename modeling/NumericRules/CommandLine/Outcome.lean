import NumericRules.Catalog
import NumericRules.CommandLine.Help
import NumericRules.CommandLine.Table
import NumericRules.Execution

/-! # What the commands do

Each command reads a catalog if one is given, gives names the values of
`name=value` pairs, registering those that are not declared, and evaluates what
was asked for. The contents of files are given as a function, so that
everything here is computed without a file system.
-/

namespace NumericRules.CommandLine

/-- The content of a file, or why it could not be read. -/
abbrev Files := String → Except String String

/-- What the program leaves behind: its exit code, both outputs and the log. -/
structure Outcome where
  code : Nat := 0
  output : String := ""
  errors : String := ""
  log : List LogEntry := []

/-! ## Failures -/

/-- Why a command fails: an error of the library, or another one by its
message. -/
inductive Failure where
  | library (error : Error)
  | other (message : String)

namespace Failure

/-- The report of an error: faults of a text with their place, and the rest of the
line below. -/
def text : Failure → String
  | .library (.parse diagnostic) =>
      s!"Error: {diagnostic.language.name} error: {diagnostic.message} " ++
        s!"(line {diagnostic.start.line}, column {diagnostic.start.column})" ++
        if diagnostic.remaining.isEmpty then ""
        else "\nunparsed input: " ++ String.ofList diagnostic.remaining
  | .library (.sourceTooLong allowed actual) =>
      s!"Resource limit exceeded: {Error.sourceLimitName}\n" ++
        s!"  Limit: {allowed} bytes\n  Actual: {actual} bytes"
  | .library error => error.text
  | .other message => "Error: " ++ message

def outcome (failure : Failure) : Outcome where
  code := 1
  errors := failure.text ++ "\n"

end Failure

/-! ## Values from the command line -/

/-- A name and the value it is given. -/
structure Seed where
  name : String
  value : Binary64

/-- How a malformed number is reported. -/
def numberFault : Binary64.ReadFault → String
  | .empty => "cannot parse float from empty string"
  | .malformed => "invalid float literal"

/-- Read a `name=value` pair. Blanks around both are skipped. -/
def Seed.read (pair : String) : Except Failure Seed :=
  let characters := pair.toList
  let name := Text.trim (characters.takeWhile (· ≠ '='))
  match characters.dropWhile (· ≠ '=') with
  | [] => .error (.other s!"invalid value '{pair}': expected name=value")
  | _ :: value =>
      if name.isEmpty then .error (.other s!"invalid value '{pair}': missing name")
      else match Binary64.read (String.ofList (Text.trim value)) with
        | .ok value => .ok ⟨String.ofList name, value⟩
        | .error fault =>
            .error (.other s!"invalid number in '{pair}': {numberFault fault}")

/-! ## The engine of a command -/

/-- Engines of the command line have no hooks but the built-in ones. -/
abbrev PlainEngine := Engine Unit

def readCatalog (files : Files) (path : String) : Except Failure Catalog := do
  match files path with
  | .error reason => throw (.library (.catalog (.unreadable path reason)))
  | .ok text => (Catalog.read text).mapError .library

/-- The type of the names that only the command line mentions. -/
def seedLabel : String := "input"

/-- Register the names of seeds that are not registered yet. -/
def registerSeeds : List Seed → Registration Unit Unit
  | [] => pure ()
  | seed :: rest => do
      if ((← get).identifier? seed.name).isNone then
        let _ ← Registry.registerName seedLabel seed.name 0
      registerSeeds rest

/-- The engine with the declared names and those of the seeds. -/
def engineFor (files : Files) (catalog? : Option String) (seeds : List Seed) (traced : Bool) :
    Except Failure PlainEngine := do
  let catalog ← match catalog? with
    | some path => readCatalog files path
    | none => pure {}
  let settings := catalog.settings.getD {}
  let traced := { settings with traceSteps := settings.traceSteps || traced }
  let engine ← (Engine.ofCatalog { catalog with settings := some traced }).mapError .library
  let (outcome, engine) := engine.register (registerSeeds seeds)
  outcome.mapError .library
  pure engine

/-- Reads and writes of a plain engine; its hooks ask for nothing. -/
def responderOf (engine : PlainEngine) : Responder Unit := engine.respond 1

/-- Give the names of seeds their values. -/
def plant (engine : PlainEngine) (seeds : List Seed) : Run Unit Unit :=
  (responderOf engine).writeAll <| seeds.filterMap fun seed =>
    (engine.registry.identifier? seed.name).map (·, seed.value)

def work (engine : PlainEngine) (dice : Dice) (run : Run Unit (Except Failure Outcome)) :
    Outcome :=
  match run.run (engine.start () dice) with
  | some (.ok outcome, world) => { outcome with log := world.log }
  | some (.error failure, _) => failure.outcome
  | none => (Failure.other "hooks call each other without end").outcome

/-! ## Commands -/

/-- A table of one column. -/
def listing (lines : List String) : String :=
  Table.draw { alignments := [.left], rows := lines.map ([·]) }

/-- The names with their values in a table. -/
def valueTable (rows : List (String × Binary64)) : String :=
  if rows.isEmpty then "No names were assigned.\n"
  else Table.draw {
    alignments := [.left, .right]
    header := some ["Name", "Value"]
    rows := rows.map fun (name, value) => [name, Binary64.format value] }

def evaluate (engine : PlainEngine) (text : String) (seeds : List Seed) (raw : Bool) :
    Run Unit (Except Failure Outcome) := do
  match ← engine.parseFormula text with
  | .error error => pure (.error (.library error))
  | .ok rule => do
      plant engine seeds
      let value ← (responderOf engine).evaluate engine rule.root
      let form ← (responderOf engine).formulaForm rule.root
      let result := Binary64.format value
      let output :=
        if raw then result ++ "\n"
        else listing [String.ofList rule.root.form ++ " = " ++ result,
          "└─ = " ++ String.ofList form]
      pure (.ok { output })

/-- Check a condition. The exit code tells whether it holds. -/
def check (engine : PlainEngine) (text : String) (seeds : List Seed) (raw : Bool) :
    Run Unit (Except Failure Outcome) := do
  match ← engine.parseCondition text with
  | .error error => pure (.error (.library error))
  | .ok rule => do
      plant engine seeds
      let holds ← (responderOf engine).check engine rule.root
      let form ← (responderOf engine).conditionForm rule.root
      let result := if holds then "true" else "false"
      let output :=
        if raw then result ++ "\n"
        else listing [String.ofList rule.root.form ++ " is " ++ result,
          "└─ " ++ String.ofList form]
      pure (.ok { code := if holds then 0 else 2, output })

def namedValues (engine : PlainEngine) :
    List Identifier → Run Unit (List (String × Binary64))
  | [] => pure []
  | id :: rest => do
      let value ← (responderOf engine).read id
      let values ← namedValues engine rest
      match engine.registry.name? id with
      | some name => pure ((name, value) :: values)
      | none => pure values

/-- Show what a run at a workstation has produced. The result alone is that of a
process, or else the last value produced. -/
def showProduced (engine : PlainEngine) (station : StationId) (result : Option Binary64)
    (raw : Bool) : Run Unit (Except Failure Outcome) := do
  let store ← Run.store
  let values ← namedValues engine (store.produced station)
  let output :=
    if raw then
      Binary64.format ((result.or (values.getLast?.map (·.2))).getD 0) ++ "\n"
    else match result with
      | some value => "return = " ++ Binary64.format value ++ "\n" ++ valueTable values
      | none => valueTable values
  pure (.ok { output })

/-- Run assignments or a process at a workstation. -/
def run (engine : PlainEngine) (text : String) (seeds : List Seed) (isProcess raw : Bool) :
    Run Unit (Except Failure Outcome) := do
  let station ← Run.newStation
  plant engine seeds
  if isProcess then
    match ← engine.parseProcess text with
    | .error error => pure (.error (.library error))
    | .ok rule => do
        let value ← (responderOf engine).workProcess engine station rule true
        showProduced engine station (some value) raw
  else
    match ← engine.parseOperations text with
    | .error error => pure (.error (.library error))
    | .ok rule => do
        (responderOf engine).workOperations engine station rule true
        showProduced engine station none raw

/-- What a run is given: the text of a file, or else the first operand, and the
pairs that follow. -/
def runSource (files : Files) (operands : List String) (file? : Option String) :
    Except Failure (String × List String) :=
  match file?, operands with
  | some path, pairs => match files path with
      | .ok text => .ok (text, pairs)
      | .error reason => .error (.other s!"cannot read '{path}': {reason}")
  | none, text :: pairs => .ok (text, pairs)
  | none, [] => .error (.other "nothing to run: pass the statements or --file <PATH>")

def nameRow (engine : PlainEngine) (record : NameRecord Unit) : List String :=
  let bounds := record.bounds
  [record.name, (engine.registry.typeLabel? record.id).getD "(ordered)", record.id.text,
    record.cycle.name, Binary64.format bounds.initial, Binary64.format bounds.least,
    if bounds.greatest == 0 then "-" else Binary64.format bounds.greatest]

/-- List the names of a catalog in the order of their declarations. -/
def names (files : Files) (catalog? : Option String) : Except Failure Outcome := do
  let some path := catalog? | throw (.other "the names command needs --catalog <PATH>")
  let catalog ← readCatalog files path
  let engine : PlainEngine ← (Engine.ofCatalog catalog).mapError .library
  let declared := catalog.names.map (·.name) ++ catalog.ordered.map (·.name)
  let rows := (declared.filterMap engine.registry.recordNamed?).map (nameRow engine)
  let output :=
    if rows.isEmpty then "The catalog declares no names.\n"
    else Table.draw {
      alignments := List.replicate 7 .left
      header := some ["Name", "Type", "Id", "Cycle", "Init", "Min", "Max"]
      rows }
  pure { output }

/-! ## The program -/

/-- Carry out what was asked for. -/
def perform (files : Files) (dice : Dice) (invocation : Invocation) : Except Failure Outcome := do
  let prepare (pairs : List String) (traced : Bool) : Except Failure (List Seed × PlainEngine) := do
    let seeds ← pairs.mapM Seed.read
    let engine ← engineFor files invocation.catalog? seeds traced
    pure (seeds, engine)
  match invocation.command with
  | .evaluate formula pairs raw =>
      let (seeds, engine) ← prepare pairs false
      pure (work engine dice (evaluate engine formula seeds raw))
  | .check condition pairs raw =>
      let (seeds, engine) ← prepare pairs false
      pure (work engine dice (check engine condition seeds raw))
  | .run operands file? isProcess traced raw =>
      let (text, pairs) ← runSource files operands file?
      let (seeds, engine) ← prepare pairs traced
      pure (work engine dice (run engine text seeds isProcess raw))
  | .names => names files invocation.catalog?

/-- How misuse of the arguments is answered. -/
def misuse : Outcome where
  code := 2
  errors := "usage\n"

/-- The outcome for the arguments of the program. -/
def outcomeOf (files : Files) (dice : Dice) (words : List String) : Outcome :=
  match readArguments words with
  | .error .misuse => misuse
  | .error (.help command full) => { output := helpText command full }
  | .error .version => { output := versionText }
  | .ok invocation => match perform files dice invocation with
      | .ok outcome => outcome
      | .error failure => failure.outcome

end NumericRules.CommandLine
