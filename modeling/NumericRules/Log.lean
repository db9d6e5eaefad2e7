import NumericRules.Identifier
import NumericRules.Operators

/-! # The log

What the library logs while it works: failures of code of the host program,
writes and watches that reach nothing, and the steps of traced processes.
-/

namespace NumericRules

inductive LogEntry where
  | listenerFailed (id : Identifier) (update : Update) (message : String)
  | setHookFailed (id : Identifier) (name message : String)
  | getHookFailed (id : Identifier) (name message : String)
  | notRegistered (id : Identifier)
  | watchWithoutNames (condition : List Char)
  | step (number : Nat) (form valueForm : List Char)
deriving DecidableEq

namespace LogEntry

/-- Steps are logged for debugging; everything else is a warning. -/
def level : LogEntry → String
  | .step _ _ _ => "DEBUG"
  | _ => "WARN"

def message : LogEntry → String
  | .listenerFailed _ _ _ => "listener callback failed"
  | .setHookFailed _ _ _ => "set hook failed, write ignored"
  | .getHookFailed _ _ _ => "get hook failed"
  | .notRegistered _ => "oper on unregistered identifier ignored"
  | .watchWithoutNames _ => "watched condition references no names"
  | .step _ _ _ => "process step"

/-- The fields of an entry in their order. -/
def fields : LogEntry → List (String × String)
  | .listenerFailed id update message =>
      [("id", id.text), ("oper", update.symbol), ("error", message)]
  | .setHookFailed id name message => [("id", id.text), ("name", name), ("error", message)]
  | .getHookFailed id name message => [("id", id.text), ("name", name), ("error", message)]
  | .notRegistered id => [("id", id.text)]
  | .watchWithoutNames condition => [("condition", String.ofList condition)]
  | .step number form valueForm =>
      [("step", toString number), ("names", String.ofList form),
        ("values", String.ofList valueForm)]

end LogEntry

end NumericRules
