import NumericRules.Expression

/-! # Statements

An assignment changes the value of one name. The steps of a process are
assignments and returns; a return ends the process when its condition holds or
when it has none.
-/

namespace NumericRules

/-- `target update value`. -/
structure Assignment (ν : Type) where
  target : ν
  update : Update
  value : Formula ν

inductive Step (ν : Type) where
  | assign (assignment : Assignment ν)
  | return (condition : Option (Condition ν)) (value : Formula ν)

namespace Assignment

def map (change : ν → μ) (assignment : Assignment ν) : Assignment μ :=
  ⟨change assignment.target, assignment.update, assignment.value.map change⟩

/-- The target followed by the names of the value, in the order of the text. -/
def mentions (assignment : Assignment ν) : List ν :=
  assignment.target :: assignment.value.references

def form [Named ν] (assignment : Assignment ν) : List Char :=
  (Named.name assignment.target).toList ++ assignment.update.symbol.toList ++
    assignment.value.form

/-- The current value of the target, the update and the value form of the
operand. -/
def valueForm [Monad m] (read : ν → m Binary64) (assignment : Assignment ν) :
    m (List Char) := do
  let current ← read assignment.target
  let operand ← assignment.value.valueForm read
  pure (Binary64.spell current ++ assignment.update.symbol.toList ++ operand)

end Assignment

/-- How the written form of a return begins. -/
def returnWord : List Char := ['R', 'e', 't', 'u', 'r', 'n']

namespace Step

def map (change : ν → μ) : Step ν → Step μ
  | .assign assignment => .assign (assignment.map change)
  | .return condition value => .return (condition.map (·.map change)) (value.map change)

/-- The names of the step in the order of the text. -/
def mentions : Step ν → List ν
  | .assign assignment => assignment.mentions
  | .return condition value =>
      (condition.map (·.references)).getD [] ++ value.references

def form [Named ν] : Step ν → List Char
  | .assign assignment => assignment.form
  | .return (some condition) value =>
      returnWord ++ bracketed (condition.form ++ ',' :: value.form)
  | .return none value => returnWord ++ bracketed value.form

def valueForm [Monad m] (read : ν → m Binary64) : Step ν → m (List Char)
  | .assign assignment => assignment.valueForm read
  | .return (some condition) value => do
      let conditionForm ← condition.valueForm read
      let form ← value.valueForm read
      pure (returnWord ++ bracketed (conditionForm ++ ',' :: form))
  | .return none value => do
      let form ← value.valueForm read
      pure (returnWord ++ bracketed form)

end Step

end NumericRules
