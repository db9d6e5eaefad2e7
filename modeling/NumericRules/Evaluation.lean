import NumericRules.Function
import NumericRules.World

/-! # Evaluation

Formulas and conditions are evaluated in a scope, which gives their names values
and answers the functions that read registered names themselves. Operands are
evaluated from left to right; the branch that is not chosen, the right side of a
decided connective and arguments nobody asks for are not evaluated.
-/

namespace NumericRules

/-- Where names get their values. -/
structure Scope (σ ν : Type) where
  name : ν → Run σ Binary64
  identifier : Identifier → Run σ Binary64

/-- Carry out the plan of a function. -/
def Plan.run (identifier : Identifier → Run σ Binary64) (arguments : List (Run σ Binary64)) :
    Plan σ → Run σ Binary64
  | .answer value => pure value
  | .argument index next => do
      let value ← (arguments[index]?).getD (pure 0)
      (next value).run identifier arguments
  | .read id next => do
      let value ← identifier id
      (next value).run identifier arguments
  | .host update next => do
      let before ← Run.changeHost update
      (next before).run identifier arguments
  | .draw low high next => do
      let drawn ← Run.draw low high
      (next drawn).run identifier arguments

mutual
def Formula.evaluate (functions : FunctionTable σ) (scope : Scope σ ν) :
    Formula ν → Run σ Binary64
  | .constant value => pure value
  | .name reference => scope.name reference
  | .binary left operator right => do
      let leftValue ← left.evaluate functions scope
      let rightValue ← right.evaluate functions scope
      pure (operator.apply leftValue rightValue)
  | .negate inner => do
      let value ← inner.evaluate functions scope
      pure (0 - value)
  | .call function arguments =>
      match functions.plan? function arguments.length with
      | some plan => plan.run scope.identifier (Formula.evaluations functions scope arguments)
      | none => pure 0
  | .choose test whenTrue whenFalse => do
      let holds ← test.check functions scope
      if holds then whenTrue.evaluate functions scope
      else whenFalse.evaluate functions scope

/-- The evaluations of several formulas, none of them carried out. -/
def Formula.evaluations (functions : FunctionTable σ) (scope : Scope σ ν) :
    List (Formula ν) → List (Run σ Binary64)
  | [] => []
  | head :: tail =>
      head.evaluate functions scope :: Formula.evaluations functions scope tail

def Condition.check (functions : FunctionTable σ) (scope : Scope σ ν) :
    Condition ν → Run σ Bool
  | .literal value => pure value
  | .compare left comparison right => do
      let leftValue ← left.evaluate functions scope
      let rightValue ← right.evaluate functions scope
      pure (comparison.holds leftValue rightValue)
  | .connect left connective right => do
      let leftHolds ← left.check functions scope
      match connective, leftHolds with
      | .and, false => pure false
      | .or, true => pure true
      | _, _ => right.check functions scope
end

/-! ## Processes -/

/-- The values of the slots of a process, the first slot at place 0. -/
abbrev SlotValues := Array Binary64

namespace SlotValues

/-- The value of the slot with a number; a number beyond the last slot reads
0. -/
def value (values : SlotValues) (number : Nat) : Binary64 := (values[number - 1]?).getD 0

/-- Slots have the default bounds, so no update takes a value below 0. -/
def update (values : SlotValues) (number : Nat) (update : Update) (operand : Binary64) :
    SlotValues :=
  values.set! (number - 1)
    (({} : Bounds).clamp (update.apply (values.value number) operand))

/-- The scope of the steps of a process. A function that reads a registered name
there gets the slot whose number is the raw number of the name. -/
def scope (values : SlotValues) : Scope σ Slot where
  name slot := pure (values.value slot.number)
  identifier id := pure (values.value id.raw)

end SlotValues

/-- Carry out one step. The answer tells whether the process ends with it. -/
def Step.execute (functions : FunctionTable σ) (values : SlotValues) :
    Step Slot → Run σ (SlotValues × Bool)
  | .assign assignment => do
      let operand ← assignment.value.evaluate functions values.scope
      pure (values.update assignment.target.number assignment.update operand, false)
  | .return condition value => do
      let ends ← match condition with
        | some condition => condition.check functions values.scope
        | none => pure true
      if ends then
        let result ← value.evaluate functions values.scope
        pure (values.update ProcessRule.resultSlot.number .set result, true)
      else pure (values, false)

namespace ProcessRule

/-- Log a step before it is carried out. -/
def traceStep (number : Nat) (values : SlotValues) (step : Step Slot) : Run σ Unit := do
  let valueForm ← step.valueForm (values.scope (σ := σ)).name
  Run.report (.step number step.form valueForm)

/-- Carry out steps in order until one ends the process. -/
def executeSteps (functions : FunctionTable σ) (traced : Bool) (number : Nat)
    (values : SlotValues) : List (Step Slot) → Run σ SlotValues
  | [] => pure values
  | step :: rest => do
      if traced then traceStep number values step
      let (values, ends) ← step.execute functions values
      if ends then pure values
      else executeSteps functions traced (number + 1) values rest

/-- Append the values that slots have at the start of a run: that of the
registered name they stand for, or 0. -/
def load (read : Identifier → Run σ Binary64) (values : SlotValues) :
    List LocalSlot → Run σ SlotValues
  | [] => pure values
  | slot :: rest => do
      let value ← match slot.global? with
        | some id => read id
        | none => pure 0
      load read (values.push value) rest

/-- The registered names whose slots no longer have the value that was loaded,
with their new values, in the order of the slots. -/
def changes (process : ProcessRule) (loaded final : SlotValues) : List (Identifier × Binary64) :=
  process.slots.zipIdx.filterMap fun (slot, place) =>
    match slot.global? with
    | some id =>
        let value := final.value (place + 1)
        if value != loaded.value (place + 1) then some (id, value) else none
    | none => none

/-- Take the value array of a process. While a run has it, there is none. -/
def takePad (process : ProcessRule) : Run σ (Option SlotValues) := do
  let world ← get
  match world.pads.lookup process.id with
  | some .lent => pure none
  | some (.idle values) =>
      set (world.setPad process.id .lent)
      pure (some values)
  | none =>
      set (world.setPad process.id .lent)
      pure (some #[])

/-- Load, carry out the steps and write what has changed. The values are kept in
the array of the process, or in one of its own if a run has that array; a value
array is emptied before it is loaded. -/
def run (functions : FunctionTable σ) (read : Identifier → Run σ Binary64)
    (write : Identifier → Binary64 → Run σ Binary64) (process : ProcessRule) (traced : Bool) :
    Run σ Binary64 := do
  let pad ← takePad process
  let loaded ← load read ((pad.getD #[]).take 0) process.slots
  let final ← executeSteps functions traced 1 loaded process.steps
  if pad.isSome then modify (·.setPad process.id (.idle final))
  for (id, value) in process.changes loaded final do
    let _ ← write id value
  pure (final.value resultSlot.number)

/-- The value form of the steps, with the values slots have at the start of a
run. -/
def valueForm (read : Identifier → Run σ Binary64) (process : ProcessRule) :
    Run σ (List Char) := do
  let values ← load read #[] process.slots
  let forms ← process.steps.mapM (Step.valueForm (values.scope (σ := σ)).name)
  pure (joinWith process.separator forms)

end ProcessRule

end NumericRules
