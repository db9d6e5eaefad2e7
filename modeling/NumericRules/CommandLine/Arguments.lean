/-! # Arguments of the command line

The program has options of its own and then the name of a command, which has
options and operands. Short options may be written together, and the value of
an option may be attached to it. The word `--` ends the options of a command.
-/

namespace NumericRules.CommandLine

def programName : String := "numen"

/-- An option. `value?` is how its value is called, and `place` is where help lists
the option. -/
structure OptionSpec where
  short : Char
  long : String
  value? : Option String := none
  about : String
  place : Nat

/-- An operand of a command as help shows it. -/
structure OperandSpec where
  shown : String
  about : String := ""

inductive CommandKind where
  | evaluate
  | check
  | run
  | names
deriving DecidableEq, Repr

/-- A command. `details` are the paragraphs of help after the first. -/
structure CommandSpec where
  kind : CommandKind
  name : String
  about : String
  details : List String := []
  operands : List OperandSpec := []
  options : List OptionSpec := []

/-! ## Options and commands -/

def catalogOption : OptionSpec where
  short := 'c'
  long := "catalog"
  value? := some "CATALOG"
  about := "JSON catalog declaring types, names and engine configuration"
  place := 0

def verboseOption : OptionSpec where
  short := 'v'
  long := "verbose"
  about := "Log engine activity (equivalent to RUST_LOG=debug)"
  place := 1

def sharedOptions : List OptionSpec := [catalogOption, verboseOption]

def fileOption : OptionSpec where
  short := 'f'
  long := "file"
  value? := some "FILE"
  about := "Read the statements from a file"
  place := 0

def processOption : OptionSpec where
  short := 'p'
  long := "process"
  about := "Treat the statements as a process with Return(...) steps"
  place := 1

def traceOption : OptionSpec where
  short := 't'
  long := "trace"
  about := "Log every process step with its values"
  place := 2

/-- The letter of the option for the result alone. -/
def rawLetter : Char := 'r'

/-- The option for the result alone, described for one command. -/
def rawOption (about : String) (place : Nat) : OptionSpec where
  short := rawLetter
  long := "raw"
  about := about
  place := place

def evaluateSpec : CommandSpec where
  kind := .evaluate
  name := "eval"
  about := "Evaluate a formula"
  details := ["Examples: numen eval \"atk*2 - Min(def, 10)\" atk=12 def=4"]
  operands := [⟨"<FORMULA>", ""⟩,
    ⟨"[VALUES]...", "Values to seed before evaluating (format: name=value)"⟩]
  options := [rawOption "Output the value only" 0]

def checkSpec : CommandSpec where
  kind := .check
  name := "check"
  about := "Check a condition"
  details := ["Exits with status 0 when the condition holds and 2 when it does not."]
  operands := [⟨"<CONDITION>", ""⟩,
    ⟨"[VALUES]...", "Values to seed before checking (format: name=value)"⟩]
  options := [rawOption "Output true/false only" 0]

def runSpec : CommandSpec where
  kind := .run
  name := "run"
  about := "Run an operation list, or a process with --process"
  details := ["Prints the values of every name the statements assigned."]
  operands := [⟨"[[STATEMENTS] [NAME=VALUE]]...",
    "The statements followed by values to seed (format: name=value). " ++
      "With --file every argument is a value"⟩]
  options := [fileOption, processOption, traceOption,
    rawOption "Output the return value (or the last assigned value) only" 3]

def namesSpec : CommandSpec where
  kind := .names
  name := "names"
  about := "List the names declared by the catalog"

def commandSpecs : List CommandSpec := [evaluateSpec, checkSpec, runSpec, namesSpec]

/-! ## Reading options -/

/-- What ends the reading of arguments early: misuse, a request for help, in full or
in short, or a request for the version. -/
inductive Interruption where
  | misuse
  | help (command : Option CommandSpec) (full : Bool)
  | version

/-- What was given: options without a value, options with one, and operands. -/
structure Given where
  flags : List Char := []
  values : List (Char × String) := []
  operands : List String := []

namespace Given

def has (given : Given) (option : OptionSpec) : Bool :=
  given.flags.contains option.short || (given.values.lookup option.short).isSome

def value? (given : Given) (option : OptionSpec) : Option String :=
  given.values.lookup option.short

/-- Add an option without a value; none may be given twice. -/
def addFlag (given : Given) (option : OptionSpec) : Except Interruption Given :=
  if given.has option then .error .misuse
  else .ok { given with flags := option.short :: given.flags }

/-- Add an option with its value, which is not empty. -/
def addValue (given : Given) (option : OptionSpec) (value : List Char) :
    Except Interruption Given :=
  if given.has option || value.isEmpty then .error .misuse
  else .ok { given with values := (option.short, String.ofList value) :: given.values }

end Given

/-- The options that may be given at one place. -/
structure Scope where
  options : List OptionSpec
  command : Option CommandSpec

/-- What was given so far, and the option that waits for its value in the next
word. -/
abbrev Progress := Given × Option OptionSpec

namespace Scope

/-- The version is told before a command only. -/
def asksVersion (scope : Scope) (option : String) : Bool :=
  scope.command.isNone && (option == "version" || option == "V")

/-- Read the name of a long option, and its value if one is attached. -/
def readLong (scope : Scope) (given : Given) (word : List Char) : Except Interruption Progress :=
  let name := String.ofList (word.takeWhile (· ≠ '='))
  let attached := word.dropWhile (· ≠ '=')
  match scope.options.find? (·.long == name) with
  | some option =>
      match option.value?, attached with
      | none, [] => (given.addFlag option).map (·, none)
      | none, _ => .error .misuse
      | some _, [] => if given.has option then .error .misuse else .ok (given, some option)
      | some _, _ :: value => (given.addValue option value).map (·, none)
  | none =>
      if !attached.isEmpty then .error .misuse
      else if name == "help" then .error (.help scope.command true)
      else if scope.asksVersion name then .error .version
      else .error .misuse

/-- Read short options written together. The first with a value has the rest as
its value. -/
def readShort (scope : Scope) (given : Given) : List Char → Except Interruption Progress
  | [] => .ok (given, none)
  | letter :: rest =>
      match scope.options.find? (·.short == letter) with
      | some option =>
          if option.value?.isNone then do
            let given ← given.addFlag option
            scope.readShort given rest
          else match rest with
            | [] => if given.has option then .error .misuse else .ok (given, some option)
            | '=' :: value => (given.addValue option value).map (·, none)
            | value => (given.addValue option value).map (·, none)
      | none =>
          if letter = 'h' then .error (.help scope.command false)
          else if scope.asksVersion letter.toString then .error .version
          else .error .misuse

/-- Read words up to the end, or up to the first operand if `stopAtOperand`. After
`--` every word is an operand. -/
def readWords (scope : Scope) (stopAtOperand : Bool) (literal : Bool) (given : Given)
    (pending : Option OptionSpec) : List String → Except Interruption (Given × List String)
  | [] => if pending.isSome then .error .misuse else .ok (given, [])
  | word :: rest =>
      let operand : Except Interruption (Given × List String) :=
        if stopAtOperand then .ok (given, word :: rest)
        else if scope.command.any (·.operands.isEmpty) then .error .misuse
        else
          scope.readWords stopAtOperand literal
            { given with operands := given.operands ++ [word] } none rest
      match literal, pending, word.toList with
      | true, _, _ => operand
      | false, some _, '-' :: _ :: _ => .error .misuse
      | false, some option, value => do
          let given ← given.addValue option value
          scope.readWords stopAtOperand false given none rest
      | false, none, ['-', '-'] =>
          if stopAtOperand then .error .misuse
          else scope.readWords stopAtOperand true given none rest
      | false, none, '-' :: '-' :: long => do
          let (given, pending) ← scope.readLong given long
          scope.readWords stopAtOperand false given pending rest
      | false, none, '-' :: letter :: letters => do
          let (given, pending) ← scope.readShort given (letter :: letters)
          scope.readWords stopAtOperand false given pending rest
      | false, none, _ => operand

end Scope

/-! ## Reading commands -/

/-- What is to be done. -/
inductive Command where
  | evaluate (formula : String) (seeds : List String) (raw : Bool)
  | check (condition : String) (seeds : List String) (raw : Bool)
  | run (operands : List String) (file? : Option String) (isProcess traced raw : Bool)
  | names

structure Invocation where
  catalog? : Option String
  verbose : Bool
  command : Command

/-- The command with the options and operands it was given. A trace is only kept
of a process. -/
def commandOf (kind : CommandKind) (given : Given) : Option Command :=
  let raw := given.flags.contains rawLetter
  match kind, given.operands with
  | .evaluate, formula :: seeds => some (.evaluate formula seeds raw)
  | .check, condition :: seeds => some (.check condition seeds raw)
  | .run, operands =>
      if given.has traceOption && !given.has processOption then none
      else some (.run operands (given.value? fileOption) (given.has processOption)
        (given.has traceOption) raw)
  | .names, [] => some .names
  | _, _ => none

/-- Help on one command, or on the program. -/
def readHelp : List String → Interruption
  | [] => .help none true
  | [name] => match commandSpecs.find? (·.name == name) with
      | some spec => .help (some spec) true
      | none => .misuse
  | _ => .misuse

/-- Read the arguments of the program. The options of every command may be given
before it and after it; the one after it counts. -/
def readArguments (words : List String) : Except Interruption Invocation := do
  let outer : Scope := ⟨sharedOptions, none⟩
  let (before, rest) ← outer.readWords true false {} none words
  match rest with
  | [] => throw .misuse
  | name :: rest =>
      if name == "help" then throw (readHelp rest)
      match commandSpecs.find? (·.name == name) with
      | none => throw .misuse
      | some spec =>
          let inner : Scope := ⟨sharedOptions ++ spec.options, some spec⟩
          let (given, _) ← inner.readWords false false {} none rest
          match commandOf spec.kind given with
          | none => throw .misuse
          | some command =>
              pure {
                catalog? := (given.value? catalogOption).or (before.value? catalogOption)
                verbose := given.has verboseOption || before.has verboseOption
                command }

end NumericRules.CommandLine
