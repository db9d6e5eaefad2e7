import NumericRules.Diagnostic
import NumericRules.Identifier

/-! # Errors

The errors of the library by their causes, and their wording.
-/

namespace NumericRules

/-- Why a type, a name or a hook could not be registered. -/
inductive RegistrationFault where
  | tooManyTypes (label : String)
  | emptyName
  | nameTaken (name : String)
  | rawTooGreat (raw : Nat) (name : String)
  | rawTaken (raw : Nat) (name label : String)
  | typeFull (label : String)
  | orderedFull (name : String)
  | orderedOutOfRange (raw : Nat) (name : String)
  | orderedTaken (raw : Nat) (name : String)
  | unknownType (label : String)
  | unknownName (name : String)
  | unknownIdentifier (id : Identifier)
  | orderedHook (name : String)
deriving DecidableEq

def RegistrationFault.message : RegistrationFault → String
  | .tooManyTypes label =>
      s!"cannot register type '{label}': the limit of {maxTypes} types is reached"
  | .emptyName => "names cannot be empty"
  | .nameTaken name => s!"name '{name}' is already registered"
  | .rawTooGreat raw name => s!"raw id {raw} of '{name}' exceeds the per-type limit {maxRaw}"
  | .rawTaken raw name label =>
      s!"raw id {raw} of '{name}' is already claimed in type '{label}'"
  | .typeFull label => s!"type '{label}' cannot hold more than {maxRaw} names"
  | .orderedFull name =>
      s!"cannot register ordered name '{name}': the limit of {maxRaw} is reached"
  | .orderedOutOfRange raw name => s!"ordered raw id {raw} of '{name}' is out of range"
  | .orderedTaken raw name => s!"ordered raw id {raw} of '{name}' is already claimed"
  | .unknownType label => s!"type '{label}' is not registered"
  | .unknownName name => s!"name '{name}' is not registered"
  | .unknownIdentifier id => s!"identifier {id.text} is not registered"
  | .orderedHook name => s!"ordered name '{name}' cannot carry get/set hooks"

/-- Why a function could not be registered. -/
inductive FunctionFault where
  | emptyName
  | nameTaken (name : String)
deriving DecidableEq, Repr

def FunctionFault.message : FunctionFault → String
  | .emptyName => "function name cannot be empty"
  | .nameTaken name => s!"function '{name}' is already registered"

/-- Why a catalog could not be loaded. -/
inductive CatalogFault where
  | malformed
  | unreadable (path reason : String)
  | entry (name : String) (fault : RegistrationFault)
  | orderedEntry (name : String) (fault : RegistrationFault)
deriving DecidableEq

def CatalogFault.message : CatalogFault → String
  | .malformed => "invalid catalog JSON"
  | .unreadable path reason => s!"cannot read '{path}': {reason}"
  | .entry name fault => s!"name '{name}': Registry error: {fault.message}"
  | .orderedEntry name fault => s!"ordered name '{name}': Registry error: {fault.message}"

inductive Error where
  | parse (diagnostic : Diagnostic)
  | registration (fault : RegistrationFault)
  | function (fault : FunctionFault)
  | catalog (fault : CatalogFault)
  | sourceTooLong (allowed actual : Nat)
deriving DecidableEq

namespace Error

/-- The setting that bounds the length of a text. -/
def sourceLimitName : String := "max_source_bytes"

def text : Error → String
  | .parse diagnostic => diagnostic.text
  | .registration fault => "Registry error: " ++ fault.message
  | .function fault => "Function error: " ++ fault.message
  | .catalog fault => "Catalog error: " ++ fault.message
  | .sourceTooLong allowed actual =>
      s!"Resource limit exceeded: {sourceLimitName} " ++
        s!"(limit: {allowed} bytes, actual: {actual} bytes)"

end Error

end NumericRules
