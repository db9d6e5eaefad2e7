import NumericRules.CommandLine.Arguments

/-! # Help

Help on the program and on its commands. Short help has one line for each entry
where there is room; full help has the description of an entry below it.
-/

namespace NumericRules.CommandLine

def versionText : String := programName ++ " 0.3.0\n"

def shortAbout : String := "Evaluate numen formulas, conditions, operations and processes."

def fullAbout : String :=
  "numen is a small numeric rule engine. Names are declared in a JSON catalog,\n" ++
    "values are seeded with name=value pairs and expressions are evaluated against them."

/-- An entry of a list: what it is called and what it does. -/
structure HelpEntry where
  shown : String
  about : String

namespace HelpEntry

def columns : Nat := 100

/-- The indentation of a description below its entry. -/
def indentation : String := "          "

def below (entry : HelpEntry) : String :=
  "  " ++ entry.shown ++ "\n" ++ indentation ++ entry.about

def beside (longest : Nat) (entry : HelpEntry) : String :=
  let blanks := String.ofList (List.replicate (longest - entry.shown.length) ' ')
  "  " ++ entry.shown ++ blanks ++ "  " ++ entry.about

/-- Whether a description beside the entries would be too long. -/
def overflows (longest : Nat) (entry : HelpEntry) : Bool :=
  let taken := longest + 12
  columns * 2 < taken * 5 && columns < taken + entry.about.length

def titled (title : String) (full : Bool) (entries : List HelpEntry) : String :=
  let longest := (entries.map (·.shown.length)).foldl max 0
  let lines :=
    if full then "\n\n".intercalate (entries.map below)
    else if entries.any (overflows longest) then "\n".intercalate (entries.map below)
    else "\n".intercalate (entries.map (beside longest))
  title ++ ":\n" ++ lines ++ "\n"

end HelpEntry

def OptionSpec.entry (option : OptionSpec) : HelpEntry where
  shown := s!"-{option.short}, --{option.long}" ++
    match option.value? with
    | some value => " <" ++ value ++ ">"
    | none => ""
  about := option.about

/-- Options in the order of their places and then of their letters. -/
def sortedOptions (options : List OptionSpec) : List OptionSpec :=
  options.mergeSort fun left right =>
    left.place < right.place || (left.place == right.place && left.short ≤ right.short)

/-- The entry of the option for help, where there is help of two lengths or of
one. -/
def helpEntry (twoLengths full : Bool) : HelpEntry where
  shown := "-h, --help"
  about :=
    if !twoLengths then "Print help"
    else if full then "Print help (see a summary with '-h')"
    else "Print help (see more with '--help')"

def CommandSpec.usage (spec : CommandSpec) : String :=
  " ".intercalate
    (["Usage:", programName, spec.name, "[OPTIONS]"] ++ spec.operands.map (·.shown)) ++ "\n"

def CommandSpec.help (spec : CommandSpec) (full : Bool) : String :=
  let twoLengths := !spec.details.isEmpty
  let full := full && twoLengths
  let about := spec.about :: (if full then spec.details else [])
  let operands := spec.operands.map fun operand => HelpEntry.mk operand.shown operand.about
  let options := (sortedOptions (sharedOptions ++ spec.options)).map OptionSpec.entry ++
    [helpEntry twoLengths full]
  "\n".intercalate (
    ["\n\n".intercalate about ++ "\n", spec.usage] ++
      (if operands.isEmpty then [] else [HelpEntry.titled "Arguments" full operands]) ++
      [HelpEntry.titled "Options" full options])

def programHelp (full : Bool) : String :=
  let commands := commandSpecs.map (fun spec => HelpEntry.mk spec.name spec.about) ++
    [⟨"help", "Print this message or the help of the given subcommand(s)"⟩]
  let options := (sortedOptions sharedOptions).map OptionSpec.entry ++
    [helpEntry true full, ⟨"-V, --version", "Print version"⟩]
  "\n".intercalate [
    (if full then fullAbout else shortAbout) ++ "\n",
    "Usage: " ++ programName ++ " [OPTIONS] <COMMAND>\n",
    HelpEntry.titled "Commands" false commands,
    HelpEntry.titled "Options" full options]

def helpText (command : Option CommandSpec) (full : Bool) : String :=
  match command with
  | some spec => spec.help full
  | none => programHelp full

end NumericRules.CommandLine
