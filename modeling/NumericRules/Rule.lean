import NumericRules.Identifier
import NumericRules.Statement

/-! # Rules bound to names

What a text means once its names are bound. Formulas, conditions and operation
sets refer to registered names; a process refers to slots of its own, each of
which may stand for a registered name. Every rule carries the number of its
reading, so two readings of one text are two rules.
-/

namespace NumericRules

/-- A registered name. -/
structure Reference where
  id : Identifier
  name : String
deriving DecidableEq

instance : Named Reference where
  name := Reference.name

/-- A slot of a process, counted from 1. -/
structure Slot where
  number : Nat
  name : String
deriving DecidableEq, Repr

instance : Named Slot where
  name := Slot.name

/-- The number of a reading. -/
structure RuleId where
  number : Nat
deriving DecidableEq, Repr

def RuleId.text (id : RuleId) : String := s!"expr_{id.number}"

/-- A formula or a condition with the number of its reading. -/
structure Rule (α : Type) where
  id : RuleId
  root : α

abbrev FormulaRule := Rule (Formula Reference)

abbrev ConditionRule := Rule (Condition Reference)

/-- Each item of a list once, where it comes first. -/
def firstOccurrences [BEq α] (items : List α) : List α :=
  items.foldl (fun found item => if found.contains item then found else found ++ [item]) []

/-- Assignments to registered names, in the order they are carried out. -/
structure OperationRule where
  id : RuleId
  assignments : List (Assignment Reference)
  separator : Char

namespace OperationRule

def form (operations : OperationRule) : List Char :=
  joinWith operations.separator (operations.assignments.map Assignment.form)

/-- The identifiers assigned, with repetitions. -/
def targets (operations : OperationRule) : List Identifier :=
  operations.assignments.map (·.target.id)

end OperationRule

/-- What a slot of a process is called, and the registered name it stands for. -/
structure LocalSlot where
  name : String
  global? : Option Identifier
deriving DecidableEq

/-- A sequence of steps over slots of its own. The first slot receives the
result. -/
structure ProcessRule where
  id : RuleId
  steps : List (Step Slot)
  slots : List LocalSlot
  separator : Char

namespace ProcessRule

/-- The name of the slot that receives the result. -/
def resultName : String := "return"

def resultSlot : Slot := ⟨1, resultName⟩

/-- The names of the slots: the result, then the other names of the steps as
they are first mentioned. -/
def slotNames (steps : List (Step String)) : List String :=
  firstOccurrences (resultName :: steps.flatMap Step.mentions)

def slotOf (names : List String) (name : String) : Slot :=
  ⟨names.idxOf name + 1, name⟩

/-- A slot stands for the registered name it is called by; the result stands
for none. -/
def localSlot (identifier? : String → Option Identifier) (name : String) : LocalSlot :=
  ⟨name, if name == resultName then none else identifier? name⟩

/-- Bind the names of the steps to slots. -/
def ofSteps (id : RuleId) (separator : Char) (identifier? : String → Option Identifier)
    (steps : List (Step String)) : ProcessRule :=
  let names := slotNames steps
  { id
    steps := steps.map (Step.map (slotOf names))
    slots := names.map (localSlot identifier?)
    separator }

def form (process : ProcessRule) : List Char :=
  joinWith process.separator (process.steps.map Step.form)

/-- The registered name a slot stands for. -/
def global? (process : ProcessRule) (slot : Slot) : Option Identifier :=
  process.slots[slot.number - 1]?.bind (·.global?)

/-- The registered names assigned, each where it comes first. -/
def targets (process : ProcessRule) : List Identifier :=
  firstOccurrences <| process.steps.filterMap fun
    | .assign assignment => process.global? assignment.target
    | .return _ _ => none

end ProcessRule

end NumericRules
