import NumericRules.CommandLine.Outcome

/-! # The program

Reads the files that the arguments name, computes the outcome and writes it.
-/

namespace NumericRules.CommandLine

/-- Why a file could not be read, in the words of the system. -/
def readFailure : IO.Error → String
  | .noFileOrDirectory _ _ _ => "No such file or directory (os error 2)"
  | .permissionDenied _ _ _ => "Permission denied (os error 13)"
  | .inappropriateType _ _ _ => "Is a directory (os error 21)"
  | error => error.toString

def pathsOf (invocation : Invocation) : List String :=
  let file? := match invocation.command with
    | .run _ file? _ _ _ => file?
    | _ => none
  invocation.catalog?.toList ++ file?.toList

def readPath (path : String) : IO (String × Except String String) := do
  try
    let text ← IO.FS.readFile path
    pure (path, .ok text)
  catch error => pure (path, .error (readFailure error))

def logLine (entry : LogEntry) : String :=
  let fields := entry.fields.map fun (name, value) => name ++ "=" ++ value
  " ".intercalate ([entry.level, entry.message] ++ fields)

/-- Compute and write the outcome; warnings are logged, and everything else if that
is asked for. -/
def runProgram (words : List String) : IO UInt32 := do
  let invocation? := (readArguments words).toOption
  let contents ← ((invocation?.map pathsOf).getD []).mapM readPath
  let files : Files := fun path => (contents.lookup path).getD (.error "not read")
  let seed ← IO.rand 0 0xFFFFFFFFFFFFFFFF
  let outcome := outcomeOf files (.ofSeed (UInt64.ofNat seed)) words
  let verbose := (invocation?.map (·.verbose)).getD false
  for entry in outcome.log do
    if verbose || entry.level == "WARN" then IO.eprintln (logLine entry)
  IO.print outcome.output
  IO.eprint outcome.errors
  pure (UInt32.ofNat outcome.code)

end NumericRules.CommandLine

def main (words : List String) : IO UInt32 := NumericRules.CommandLine.runProgram words
