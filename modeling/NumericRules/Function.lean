import NumericRules.Error
import NumericRules.Grammar.Vocabulary

/-! # Functions

A function of the rule languages is given as a plan: which arguments it asks
for, in which order, and how it goes on with their values. Only arguments that
are asked for are evaluated. A plan may also read the calling scope, keep state
of the host program and draw a random integer.
-/

namespace NumericRules

inductive Plan (σ : Type) where
  /-- End with a value. -/
  | answer (value : Binary64)
  /-- The value of an argument, counted from 0; 0 when there is none. -/
  | argument (index : Nat) (next : Binary64 → Plan σ)
  /-- The value of a registered name in the calling scope. -/
  | read (id : Identifier) (next : Binary64 → Plan σ)
  /-- Change the state of the host program, knowing what it was. -/
  | host (update : σ → σ) (next : σ → Plan σ)
  /-- An integer drawn from `low` up to but not including `high`. -/
  | draw (low high : Int) (next : Int → Plan σ)

namespace Plan

/-- A function of one number. -/
def unary (function : Binary64 → Binary64) : Plan σ :=
  .argument 0 fun value => .answer (function value)

/-- A function of two numbers. -/
def binary (function : Binary64 → Binary64 → Binary64) : Plan σ :=
  .argument 0 fun first => .argument 1 fun second => .answer (function first second)

end Plan

/-- What a function name stands for: the conditional function, or a plan for
each number of arguments that is accepted. -/
inductive FunctionKind (σ : Type) where
  | choose
  | native (overloads : List (Nat × Plan σ))

namespace FunctionKind

def signature : FunctionKind σ → Grammar.Signature
  | .choose => .choose
  | .native overloads => .native (overloads.map Prod.fst)

/-- The plan for a number of arguments. -/
def plan? (arity : Nat) : FunctionKind σ → Option (Plan σ)
  | .choose => none
  | .native overloads => overloads.lookup arity

end FunctionKind

/-- Functions by name. -/
structure FunctionTable (σ : Type) where
  entries : List (String × FunctionKind σ)

namespace FunctionTable

def kind? (table : FunctionTable σ) (name : String) : Option (FunctionKind σ) :=
  table.entries.lookup name

def contains (table : FunctionTable σ) (name : String) : Bool :=
  (table.kind? name).isSome

def signature? (table : FunctionTable σ) (name : String) : Option Grammar.Signature :=
  (table.kind? name).map FunctionKind.signature

def plan? (table : FunctionTable σ) (name : String) (arity : Nat) : Option (Plan σ) :=
  (table.kind? name).bind (FunctionKind.plan? arity)

/-- The names of all functions in the order of their characters. -/
def names (table : FunctionTable σ) : List String :=
  (table.entries.map Prod.fst).mergeSort fun left right => !decide (right < left)

/-- Add a function of exactly `arity` arguments under a name that is not in
use. -/
def register (table : FunctionTable σ) (name : String) (arity : Nat) (plan : Plan σ) :
    Except FunctionFault (FunctionTable σ) :=
  if name.isEmpty then .error .emptyName
  else if table.contains name then .error (.nameTaken name)
  else .ok ⟨table.entries ++ [(name, .native [(arity, plan)])]⟩

end FunctionTable

end NumericRules
