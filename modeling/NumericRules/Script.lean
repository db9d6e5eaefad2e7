import NumericRules.Cycle
import NumericRules.Error
import NumericRules.Rule

/-! # Code of the host program

Hooks and listeners are code of the program that uses the library. Such code is
given as a script: what it asks of a store and of its engine, step by step,
where each answer decides how it goes on. A script may also keep state of its
own, of a type `σ` chosen by the program, and it may fail with a message.

Reading scripts ask nothing that changes values; hooks that compute a value for
a reader are of this kind.
-/

namespace NumericRules

/-- A change of a value as listeners see it. -/
structure Change where
  id : Identifier
  update : Update
  operand : Binary64

/-- The handle of a subscription. -/
structure SubscriptionKey where
  number : Nat
deriving DecidableEq, Repr

/-- Where listeners subscribe: at the engine for the changes of every store, or
at one store. -/
inductive Tier where
  | engine
  | store
deriving DecidableEq, Repr

/-- The identity of a workstation. -/
structure StationId where
  number : Nat
deriving DecidableEq, Repr

def StationId.text (station : StationId) : String := s!"ws_{station.number}"

/-- Whether a script may change values. -/
inductive Access where
  | reading
  | writing
deriving DecidableEq, Repr

/-- What can be reset in a store. -/
inductive ResetRange where
  | identifier (id : Identifier)
  | cycle (cycle : Cycle)
  | all
  | produced (station : StationId)

inductive Script (σ : Type) : Access → Type where
  /-- End with a value or fail with a message. -/
  | finish (outcome : Except String Binary64) : Script σ access
  /-- Change the state of the host program, knowing what it was. -/
  | host (update : σ → σ) (next : σ → Script σ access) : Script σ access
  /-- The value of a name. -/
  | read (id : Identifier) (next : Binary64 → Script σ access) : Script σ access
  /-- The value stored for a name, whatever its hooks; `none` before the first
  touch. -/
  | stored (id : Identifier) (next : Option Binary64 → Script σ access) : Script σ access
  | evaluate (formula : Formula Reference) (next : Binary64 → Script σ access) : Script σ access
  | check (condition : Condition Reference) (next : Bool → Script σ access) : Script σ access
  /-- Read a text as a formula of the engine. -/
  | parse (text : String)
      (next : Except Error FormulaRule → Script σ access) : Script σ access
  | produced (station : StationId) (next : List Identifier → Script σ access) :
      Script σ access
  | isWatching (station : StationId) (condition : RuleId) (next : Bool → Script σ access) :
      Script σ access
  | subscribe (tier : Tier) (id : Identifier) (callback : Change → Script σ .writing)
      (next : SubscriptionKey → Script σ access) : Script σ access
  | unsubscribe (tier : Tier) (id : Identifier) (key : SubscriptionKey)
      (next : Bool → Script σ access) : Script σ access
  | unsubscribeAll (tier : Tier) (id : Identifier) (next : Nat → Script σ access) :
      Script σ access
  | clear (tier : Tier) (next : Script σ access) : Script σ access
  /-- Run a script against a new store of the engine. -/
  | elsewhere (body : Script σ .writing) (next : Except String Binary64 → Script σ access) :
      Script σ access
  /-- Change a value; the answer is the value retained. -/
  | write (id : Identifier) (update : Update) (operand : Binary64)
      (next : Binary64 → Script σ .writing) : Script σ .writing
  | reset (range : ResetRange) (next : Script σ .writing) : Script σ .writing
  | execute (operations : OperationRule) (next : Script σ .writing) : Script σ .writing
  | run (process : ProcessRule) (traced : Bool) (next : Binary64 → Script σ .writing) :
      Script σ .writing
  /-- Execute assignments at a workstation. -/
  | workOperations (station : StationId) (operations : OperationRule) (tracked : Bool)
      (next : Script σ .writing) : Script σ .writing
  /-- Run a process at a workstation. -/
  | workProcess (station : StationId) (process : ProcessRule) (tracked : Bool)
      (next : Binary64 → Script σ .writing) : Script σ .writing
  | watch (station : StationId) (condition : ConditionRule)
      (callback : Script σ .writing) (next : Script σ .writing) : Script σ .writing
  | unwatch (station : StationId) (condition : RuleId) (next : Bool → Script σ .writing) :
      Script σ .writing

namespace Script

/-- End with the value 0. -/
def done : Script σ access := .finish (.ok 0)

def fail (message : String) : Script σ access := .finish (.error message)

/-- Look at the state of the host program. -/
def askHost (next : σ → Script σ access) : Script σ access := .host id next

end Script

/-- Computes the value of a name for a reader. -/
abbrev GetHook (σ : Type) := Identifier → Script σ .reading

/-- Decides what value a write retains. -/
abbrev SetHook (σ : Type) := Identifier → Update → Binary64 → Script σ .writing

/-- Is told of a change; only a failure of its outcome matters. -/
abbrev Listener (σ : Type) := Change → Script σ .writing

end NumericRules
