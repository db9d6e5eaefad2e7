import NumericRules.Proofs.ProcessSimulation
import NumericRules.Proofs.WellFormedRules

/-! # Runs that take no fallback

A slot that is not there would read 0 and take no value. Whatever else stood in for it, a
run of a well-formed process would be the same, for its value array has a place for every
slot from its loading on.
-/

namespace NumericRules

/-! ## Scopes that agree -/

section Agreement

variable {functions : FunctionTable σ} {scope other : Scope σ ν}

mutual
/-- Only the names that are mentioned matter to an evaluation. -/
theorem Formula.evaluate_congr (same : scope.identifier = other.identifier) :
    (formula : Formula ν) →
    (∀ reference ∈ formula.references, scope.name reference = other.name reference) →
    formula.evaluate functions scope = formula.evaluate functions other
  | .constant _, _ => rfl
  | .name reference, agree => agree reference (List.mem_singleton_self reference)
  | .binary left _ right, agree => by
      have parts := List.forall_mem_append.mp agree
      rw [Formula.evaluate, Formula.evaluate, left.evaluate_congr same parts.1,
        right.evaluate_congr same parts.2]
  | .negate inner, agree => by
      rw [Formula.evaluate, Formula.evaluate, inner.evaluate_congr same agree]
  | .call _ arguments, agree => by
      rw [Formula.evaluate, Formula.evaluate, same, Formula.evaluations_congr same arguments agree]
  | .choose test whenTrue whenFalse, agree => by
      have parts := List.forall_mem_append.mp agree
      have branches := List.forall_mem_append.mp parts.2
      rw [Formula.evaluate, Formula.evaluate, test.check_congr same parts.1,
        whenTrue.evaluate_congr same branches.1, whenFalse.evaluate_congr same branches.2]

theorem Formula.evaluations_congr (same : scope.identifier = other.identifier) :
    (formulas : List (Formula ν)) →
    (∀ reference ∈ Formula.referencesAll formulas, scope.name reference = other.name reference) →
    Formula.evaluations functions scope formulas = Formula.evaluations functions other formulas
  | [], _ => rfl
  | head :: tail, agree => by
      have parts := List.forall_mem_append.mp agree
      rw [Formula.evaluations, Formula.evaluations, head.evaluate_congr same parts.1,
        Formula.evaluations_congr same tail parts.2]

theorem Condition.check_congr (same : scope.identifier = other.identifier) :
    (condition : Condition ν) →
    (∀ reference ∈ condition.references, scope.name reference = other.name reference) →
    condition.check functions scope = condition.check functions other
  | .literal _, _ => rfl
  | .compare left _ right, agree => by
      have parts := List.forall_mem_append.mp agree
      rw [Condition.check, Condition.check, left.evaluate_congr same parts.1,
        right.evaluate_congr same parts.2]
  | .connect left _ right, agree => by
      have parts := List.forall_mem_append.mp agree
      rw [Condition.check, Condition.check, left.check_congr same parts.1,
        right.check_congr same parts.2]
end

end Agreement

section Forms

variable {m : Type → Type} [Monad m] {read other : ν → m Binary64}

mutual
theorem Formula.valueForm_congr : (formula : Formula ν) →
    (∀ reference ∈ formula.references, read reference = other reference) →
    formula.valueForm read = formula.valueForm other
  | .constant _, _ => rfl
  | .name reference, agree => by
      rw [Formula.valueForm, Formula.valueForm, agree reference (List.mem_singleton_self reference)]
  | .binary left _ right, agree => by
      have parts := List.forall_mem_append.mp agree
      rw [Formula.valueForm, Formula.valueForm, left.valueForm_congr parts.1,
        right.valueForm_congr parts.2]
  | .negate inner, agree => by
      rw [Formula.valueForm, Formula.valueForm, inner.valueForm_congr agree]
  | .call _ arguments, agree => by
      rw [Formula.valueForm, Formula.valueForm, Formula.valueFormAll_congr arguments agree]
  | .choose test whenTrue whenFalse, agree => by
      have parts := List.forall_mem_append.mp agree
      have branches := List.forall_mem_append.mp parts.2
      rw [Formula.valueForm, Formula.valueForm, test.valueForm_congr parts.1,
        whenTrue.valueForm_congr branches.1, whenFalse.valueForm_congr branches.2]

theorem Formula.valueFormAll_congr : (formulas : List (Formula ν)) →
    (∀ reference ∈ Formula.referencesAll formulas, read reference = other reference) →
    Formula.valueFormAll read formulas = Formula.valueFormAll other formulas
  | [], _ => rfl
  | head :: tail, agree => by
      have parts := List.forall_mem_append.mp agree
      rw [Formula.valueFormAll, Formula.valueFormAll, head.valueForm_congr parts.1,
        Formula.valueFormAll_congr tail parts.2]

theorem Condition.valueForm_congr : (condition : Condition ν) →
    (∀ reference ∈ condition.references, read reference = other reference) →
    condition.valueForm read = condition.valueForm other
  | .literal _, _ => rfl
  | .compare left _ right, agree => by
      have parts := List.forall_mem_append.mp agree
      rw [Condition.valueForm, Condition.valueForm, left.valueForm_congr parts.1,
        right.valueForm_congr parts.2]
  | .connect left _ right, agree => by
      have parts := List.forall_mem_append.mp agree
      rw [Condition.valueForm, Condition.valueForm, left.valueForm_congr parts.1,
        right.valueForm_congr parts.2]
end

theorem Step.valueForm_congr (step : Step ν)
    (agree : ∀ reference ∈ step.mentions, read reference = other reference) :
    step.valueForm read = step.valueForm other := by
  cases step with
  | assign assignment =>
      have parts := List.forall_mem_cons.mp agree
      rw [Step.valueForm, Step.valueForm, Assignment.valueForm, Assignment.valueForm, parts.1,
        assignment.value.valueForm_congr parts.2]
  | «return» condition value =>
      have parts := List.forall_mem_append.mp agree
      cases condition with
      | none => rw [Step.valueForm, Step.valueForm, value.valueForm_congr parts.2]
      | some condition =>
          rw [Step.valueForm, Step.valueForm, condition.valueForm_congr parts.1,
            value.valueForm_congr parts.2]

end Forms

/-! ## Runs of loose processes -/

/-- What stands in for slots that are not there, and for branches and calls that are not. -/
structure Fallback (σ : Type) where
  read : Slot → Run σ Binary64
  assign : Slot → SlotValues → Run σ SlotValues
  missing : Run σ Binary64

namespace SlotValues

/-- There is a place for the slot. -/
def Covers (values : SlotValues) (slot : Slot) : Prop :=
  0 < slot.number ∧ slot.number ≤ values.size

instance (values : SlotValues) (slot : Slot) : Decidable (values.Covers slot) :=
  inferInstanceAs (Decidable (_ ∧ _))

variable (fallback : Fallback σ) (values : SlotValues)

def readWith (slot : Slot) : Run σ Binary64 :=
  if values.Covers slot then pure (values.value slot.number) else fallback.read slot

def updateWith (slot : Slot) (update : Update) (operand : Binary64) : Run σ SlotValues :=
  if values.Covers slot then pure (values.update slot.number update operand)
  else fallback.assign slot values

/-- Slots are found by the numbers of their identifiers. -/
def scopeWith : Scope σ Reference where
  name reference := values.readWith fallback reference.slot
  identifier id := pure (values.value id.raw)

variable {fallback values}

theorem readWith_eq {slot : Slot} (covers : values.Covers slot) :
    values.readWith fallback slot = (values.scope (σ := σ)).name slot :=
  if_pos covers

theorem updateWith_eq {slot : Slot} (covers : values.Covers slot) (update : Update)
    (operand : Binary64) :
    values.updateWith fallback slot update operand =
      pure (values.update slot.number update operand) :=
  if_pos covers

end SlotValues

/-- Carry out one step, with fallbacks. -/
def LooseStep.execute (functions : FunctionTable σ) (fallback : Fallback σ)
    (values : SlotValues) : LooseStep Reference → Run σ (SlotValues × Bool)
  | .assign assignment => do
      let operand ←
        assignment.value.evaluate functions fallback.missing (values.scopeWith fallback)
      let updated ←
        values.updateWith fallback assignment.target.slot assignment.update operand
      pure (updated, false)
  | .return condition value => do
      let ends ← condition.elim (pure true)
        (·.check functions fallback.missing (values.scopeWith fallback))
      if ends then
        let result ← value.evaluate functions fallback.missing (values.scopeWith fallback)
        let updated ← values.updateWith fallback ProcessRule.resultSlot .set result
        pure (updated, true)
      else pure (values, false)

namespace LooseProcess

def traceStep (fallback : Fallback σ) (number : Nat) (values : SlotValues)
    (step : LooseStep Reference) : Run σ Unit := do
  let valueForm ← step.valueForm (values.scopeWith fallback).name
  Run.report (.step number step.form valueForm)

def executeSteps (functions : FunctionTable σ) (fallback : Fallback σ) (traced : Bool)
    (number : Nat) (values : SlotValues) : List (LooseStep Reference) → Run σ SlotValues
  | [] => pure values
  | step :: rest => do
      let _ ← (if traced then traceStep fallback number values step else pure () : Run σ Unit)
      let outcome ← step.execute functions fallback values
      if outcome.2 then pure outcome.1
      else executeSteps functions fallback traced (number + 1) outcome.1 rest

/-- The process without its steps, by which its value array is found. -/
def frame (process : LooseProcess) : ProcessRule :=
  ⟨process.id, [], process.slots, process.separator⟩

/-- Run a process, with fallbacks. -/
def run (functions : FunctionTable σ) (fallback : Fallback σ)
    (read : Identifier → Run σ Binary64) (write : Identifier → Binary64 → Run σ Binary64)
    (process : LooseProcess) (traced : Bool) : Run σ Binary64 := do
  let pad ← process.frame.takePad
  let loaded ← ProcessRule.load read ((pad.getD #[]).take 0) process.slots
  let final ← executeSteps functions fallback traced 1 loaded process.steps
  if pad.isSome then modify (·.setPad process.id (.idle final))
  for (id, value) in process.frame.changes loaded final do
    let _ ← write id value
  final.readWith fallback ProcessRule.resultSlot

end LooseProcess

/-! ## The value array keeps its size -/

/-- A step updates the array or leaves it. -/
theorem Step.execute_size {functions : FunctionTable σ} {values final : SlotValues}
    {step : Step Slot} {ends : Bool} {world after : World σ}
    (outcome : step.execute functions values world = some ((final, ends), after)) :
    final.size = values.size := by
  rcases step.execute_cases outcome with
    ⟨assignment, operand, _, rfl⟩ | ⟨condition, value, _, rfl | ⟨result, rfl⟩⟩
  · exact values.size_update _ _ _
  · rfl
  · exact values.size_update _ _ _

namespace ProcessRule

theorem executeSteps_size {functions : FunctionTable σ} {traced : Bool}
    {steps : List (Step Slot)} {number : Nat} {values final : SlotValues}
    {world after : World σ}
    (outcome : executeSteps functions traced number values steps world = some (final, after)) :
    final.size = values.size := by
  induction steps generalizing number values world with
  | nil =>
      cases outcome
      rfl
  | cons step rest induction =>
      rw [executeSteps_cons] at outcome
      rcases Run.bind_eq_some outcome with ⟨_, _, _, outcome⟩
      rcases Run.bind_eq_some outcome with ⟨⟨stepped, ends⟩, between, execution, outcome⟩
      have kept := step.execute_size execution
      cases ends with
      | true =>
          cases outcome
          exact kept
      | false => exact (induction outcome).trans kept

theorem load_size {read : Identifier → Run σ Binary64} {slots : List LocalSlot}
    {values loaded : SlotValues} {world after : World σ}
    (outcome : load read values slots world = some (loaded, after)) :
    loaded.size = values.size + slots.length := by
  induction slots generalizing values world with
  | nil =>
      cases outcome
      rfl
  | cons slot rest induction =>
      have loading : ∃ (value : Binary64) (between : World σ),
          load read (values.push value) rest between = some (loaded, after) := by
        cases global : slot.global? with
        | none =>
            simp only [load, global] at outcome
            exact ⟨0, world, outcome⟩
        | some id =>
            simp only [load, global] at outcome
            rcases Run.bind_eq_some outcome with ⟨value, between, _, outcome⟩
            exact ⟨value, between, outcome⟩
      rcases loading with ⟨value, between, outcome⟩
      rw [induction outcome, Array.size_push, List.length_cons, Nat.add_right_comm, Nat.add_assoc]

end ProcessRule

/-! ## No fallback is taken -/

section NoFallback

variable {engine : Engine σ} {functions : FunctionTable σ} {fallback : Fallback σ}
  {values : SlotValues} {slots : List LocalSlot}

theorem Reference.HasSlot.covers {reference : Reference} (hasSlot : reference.HasSlot slots)
    (size : values.size = slots.length) : values.Covers reference.slot :=
  ⟨hasSlot.2.1, hasSlot.2.2.1.trans_eq size.symm⟩

/-- Names are read alike where there is a place for every slot. -/
theorem SlotValues.name_scopeWith {reference : Reference} (hasSlot : reference.HasSlot slots)
    (size : values.size = slots.length) :
    (values.scopeWith fallback).name reference =
      ((values.scope (σ := σ)).before Reference.slot).name reference :=
  readWith_eq (hasSlot.covers size)

variable (fallback) in
theorem SlotValues.evaluate_loose {formula : Formula Reference}
    (meets : formula.loose.Meets functions (·.HasSlot slots))
    (size : values.size = slots.length) :
    formula.loose.evaluate functions fallback.missing (values.scopeWith fallback) =
      (formula.map Reference.slot).evaluate functions values.scope := by
  have strict := formula.meets_loose.mp meets
  rw [formula.evaluate_loose _ _ strict, Formula.evaluate_map]
  exact formula.evaluate_congr (by rfl) fun reference inside =>
    name_scopeWith (formula.name_of_meets strict reference inside) size

variable (fallback) in
theorem SlotValues.check_loose {condition : Condition Reference}
    (meets : condition.loose.Meets functions (·.HasSlot slots))
    (size : values.size = slots.length) :
    condition.loose.check functions fallback.missing (values.scopeWith fallback) =
      (condition.map Reference.slot).check functions values.scope := by
  have strict := condition.meets_loose.mp meets
  rw [condition.check_loose _ _ strict, Condition.check_map]
  exact condition.check_congr (by rfl) fun reference inside =>
    name_scopeWith (condition.name_of_meets strict reference inside) size

variable {step : Step Reference}

theorem Step.execute_loose (meets : step.loose.Meets functions (·.HasSlot slots))
    (size : values.size = slots.length) (result : values.Covers ProcessRule.resultSlot) :
    step.loose.execute functions fallback values =
      (step.map Reference.slot).execute functions values := by
  cases step with
  | assign assignment =>
      have evaluated := SlotValues.evaluate_loose fallback meets.2 size
      have covers : values.Covers assignment.target.slot := meets.1.covers size
      simp only [loose, Assignment.loose, LooseStep.execute, map, Assignment.map, execute,
        evaluated, SlotValues.updateWith_eq covers, pure_bind]
  | «return» condition value =>
      cases condition with
      | none =>
          have evaluated := SlotValues.evaluate_loose fallback meets size
          simp [loose, LooseStep.execute, map, execute, evaluated,
            SlotValues.updateWith_eq result]
      | some condition =>
          have checked := SlotValues.check_loose fallback meets.1 size
          have evaluated := SlotValues.evaluate_loose fallback meets.2 size
          simp [loose, LooseStep.execute, map, execute, checked, evaluated,
            SlotValues.updateWith_eq result]

namespace LooseProcess

theorem traceStep_loose (meets : step.loose.Meets functions (·.HasSlot slots))
    (size : values.size = slots.length) (number : Nat) :
    traceStep fallback number values step.loose =
      ProcessRule.traceStep number values (step.map Reference.slot) := by
  have sameNames : SameNames Reference.slot := fun _ => rfl
  have forms : step.valueForm (values.scopeWith fallback).name =
      step.valueForm ((values.scope (σ := σ)).name ∘ Reference.slot) :=
    step.valueForm_congr fun reference inside =>
      SlotValues.name_scopeWith (step.name_of_meets (step.meets_loose.mp meets) reference inside)
        size
  rw [traceStep, ProcessRule.traceStep, step.valueForm_loose, step.form_loose,
    Step.valueForm_map, step.form_map sameNames, forms]

/-- The array has a place for every slot before each step, so each is carried out alike. -/
theorem executeSteps_loose {steps : List (Step Reference)}
    (meets : ∀ step ∈ steps, step.loose.Meets functions (·.HasSlot slots))
    (filled : 0 < slots.length) (traced : Bool) {number : Nat}
    (size : values.size = slots.length) :
    executeSteps functions fallback traced number values (steps.map Step.loose) =
      ProcessRule.executeSteps functions traced number values
        (steps.map (Step.map Reference.slot)) := by
  induction steps generalizing number values with
  | nil => rfl
  | cons step rest induction =>
      rcases List.forall_mem_cons.mp meets with ⟨here, later⟩
      have result : values.Covers ProcessRule.resultSlot := ⟨Nat.one_pos, size ▸ filled⟩
      rw [List.map_cons, List.map_cons, ProcessRule.executeSteps_cons, executeSteps,
        traceStep_loose here size, Step.execute_loose here size result]
      congr 1
      funext _
      apply Run.bind_congr_results
      rintro world ⟨stepped, ends⟩ after execution
      rw [induction later ((Step.execute_size execution).trans size)]

variable {process : LooseProcess} {bound : ProcessRule}

theorem WellFormed.filled (wellFormed : process.WellFormed engine) : 0 < process.slots.length := by
  have first := wellFormed.result
  rw [List.head?_eq_getElem?] at first
  exact (List.getElem?_eq_some_iff.mp first).1

/-- A run of a well-formed process is the same with all fallbacks. -/
theorem WellFormed.run_eq (wellFormed : process.WellFormed engine) (form : process.IsFormOf bound)
    (read : Identifier → Run σ Binary64) (write : Identifier → Binary64 → Run σ Binary64)
    (traced : Bool) :
    process.run engine.functions fallback read write traced =
      bound.run engine.functions read write traced := by
  rcases process with ⟨id, loose, slots, separator⟩
  rcases bound with ⟨boundId, boundSteps, boundSlots, boundSeparator⟩
  rcases form with ⟨rfl, rfl, rfl, steps, rfl, rfl⟩
  have meets : ∀ step ∈ steps, step.loose.Meets engine.functions (·.HasSlot slots) :=
    fun step inside => wellFormed.steps _ (List.mem_map_of_mem inside)
  have filled := wellFormed.filled
  change (ProcessRule.takePad _ >>= _) = (ProcessRule.takePad _ >>= _)
  congr 1
  funext pad
  apply Run.bind_congr_results
  intro world loaded after loading
  have size : loaded.size = slots.length := by
    simpa using ProcessRule.load_size loading
  rw [executeSteps_loose meets filled traced size]
  apply Run.bind_congr_results
  intro world final after execution
  have covers : final.Covers ProcessRule.resultSlot :=
    ⟨Nat.one_pos, ((ProcessRule.executeSteps_size execution).trans size) ▸ filled⟩
  rw [SlotValues.readWith_eq covers]
  rfl

end LooseProcess

end NoFallback

/-! ## Accepted rules -/

/-- The value array has a place for every slot once it is loaded and after any number of
steps, and whatever the fallbacks are, a run is that of the process with its names bound. -/
structure LooseProcess.RunsInPlace (functions : FunctionTable σ) (process : LooseProcess)
    (bound : ProcessRule) : Prop where
  size : ∀ (fallback : Fallback σ) (read : Identifier → Run σ Binary64) (before : SlotValues)
    (traced : Bool) (count : Nat) (world : World σ) (values : SlotValues) (after : World σ),
    (ProcessRule.load read (before.take 0) process.slots >>= fun loaded =>
      executeSteps functions fallback traced 1 loaded (process.steps.take count)) world =
        some (values, after) →
    values.size = process.slots.length
  run : ∀ (fallback : Fallback σ) (read : Identifier → Run σ Binary64)
    (write : Identifier → Binary64 → Run σ Binary64) (traced : Bool),
    process.run functions fallback read write traced = bound.run functions read write traced

theorem LooseProcess.WellFormed.runsInPlace {engine : Engine σ} {process : LooseProcess}
    {bound : ProcessRule} (wellFormed : process.WellFormed engine)
    (form : process.IsFormOf bound) : process.RunsInPlace engine.functions bound where
  size := by
    intro fallback read before traced count world values after ran
    rcases Run.bind_eq_some ran with ⟨loaded, between, loading, execution⟩
    have size : loaded.size = process.slots.length := by
      simpa using ProcessRule.load_size loading
    rcases form.steps with ⟨steps, isLoose, _⟩
    have meets : ∀ step ∈ steps.take count,
        step.loose.Meets engine.functions (·.HasSlot process.slots) := by
      intro step inside
      apply wellFormed.steps
      rw [isLoose]
      exact List.mem_map_of_mem (List.mem_of_mem_take inside)
    rw [isLoose, ← List.map_take, executeSteps_loose meets wellFormed.filled traced size]
      at execution
    exact (ProcessRule.executeSteps_size execution).trans size
  run _ read write traced := wellFormed.run_eq form read write traced

/-- What is accepted is a changed rule exactly when the rule is accepted. -/
theorem Run.map_eq_ok {reading : Run σ (Except Error α)} {change : α → β} {start next : World σ}
    {value : β} : (Except.map change <$> reading) start = some (.ok value, next) ↔
      ∃ rule, reading start = some (.ok rule, next) ∧ change rule = value := by
  change (reading start >>= fun outcome => some (outcome.1.map change, outcome.2)) = _ ↔ _
  rcases reading start with _ | ⟨error | rule, after⟩
  · simp
  · simp [Except.map]
  · simp [Except.map, and_comm]

namespace Engine

/-- Every text that is accepted when its names are looked up is accepted when they are resolved
one after another, unless a process has more slots than there are numbers. A process that is
refused is refused for the same reason, unless its slots have used up all numbers. -/
structure ResolvesAccepted (engine : Engine σ) (text : String) (start next : World σ) :
    Prop where
  formula : ∀ bound, engine.parseFormula text start = some (.ok bound, next) →
    ∃ formula, engine.parseLooseFormula text start = some (.ok formula, next)
  condition : ∀ bound, engine.parseCondition text start = some (.ok bound, next) →
    ∃ condition, engine.parseLooseCondition text start = some (.ok condition, next)
  operations : ∀ bound, engine.parseOperations text start = some (.ok bound, next) →
    ∃ operations, engine.parseLooseOperations text start = some (.ok operations, next)
  process : ∀ bound, engine.parseProcess text start = some (.ok bound, next) →
    bound.slots.length ≤ maxRaw →
    ∃ process, engine.parseLooseProcess text start = some (.ok process, next)
  refusal : ∀ error, engine.parseLooseProcess text start = some (.error error, next) →
    engine.parseProcess text start = some (.error error, next) ∨
    ∃ references names, engine.localNames.Resolves LocalNames.start references names ∧
      names.slots.length = maxRaw

theorem resolvesAccepted {engine : Engine σ} (functions : engine.functions.Reachable)
    (text : String) (start next : World σ) : engine.ResolvesAccepted text start next where
  formula bound accepted := by
    rw [parseLooseFormula_eq functions]
    exact ⟨_, Run.map_eq_ok.mpr ⟨bound, accepted, rfl⟩⟩
  condition bound accepted := by
    rw [parseLooseCondition_eq functions]
    exact ⟨_, Run.map_eq_ok.mpr ⟨bound, accepted, rfl⟩⟩
  operations bound accepted := by
    rw [parseLooseOperations_eq functions]
    exact ⟨_, Run.map_eq_ok.mpr ⟨bound, accepted, rfl⟩⟩
  process _ accepted few := exists_parseLooseProcess functions accepted few
  refusal _ refused := parseLooseProcess_error functions refused

section Accepted

variable {engine : Engine σ} (registered : engine.registry.Reachable)
  (functions : engine.functions.Reachable) {text : String} {start next : World σ}

include registered functions

theorem accepted_formula {formula : Rule (LooseFormula Reference)}
    (accepted : engine.parseLooseFormula text start = some (.ok formula, next)) :
    formula.root.Meets engine.functions engine.Registers ∧
    ∃ bound, engine.parseFormula text start = some (.ok bound, next) ∧
      bound.map Formula.loose = formula ∧
      ∀ missing scope, formula.root.evaluate engine.functions missing scope =
        bound.root.evaluate engine.functions scope := by
  rw [parseLooseFormula_eq functions] at accepted
  rcases Run.map_eq_ok.mp accepted with ⟨bound, found, rfl⟩
  rcases ok_of_numbered found with ⟨root, read, rfl⟩
  have meets := registers_of_readFormula registered functions read
  exact ⟨root.meets_loose.mpr meets, _, found, rfl, fun missing scope =>
    root.evaluate_loose missing scope meets⟩

theorem accepted_condition {condition : Rule (LooseCondition Reference)}
    (accepted : engine.parseLooseCondition text start = some (.ok condition, next)) :
    condition.root.Meets engine.functions engine.Registers ∧
    ∃ bound, engine.parseCondition text start = some (.ok bound, next) ∧
      bound.map Condition.loose = condition ∧
      ∀ missing scope, condition.root.check engine.functions missing scope =
        bound.root.check engine.functions scope := by
  rw [parseLooseCondition_eq functions] at accepted
  rcases Run.map_eq_ok.mp accepted with ⟨bound, found, rfl⟩
  rcases ok_of_numbered found with ⟨root, read, rfl⟩
  have meets := registers_of_readCondition registered functions read
  exact ⟨root.meets_loose.mpr meets, _, found, rfl, fun missing scope =>
    root.check_loose missing scope meets⟩

theorem accepted_operations {operations : LooseOperations}
    (accepted : engine.parseLooseOperations text start = some (.ok operations, next)) :
    (∀ assignment ∈ operations.assignments,
      assignment.Meets engine.functions engine.Registers) ∧
    ∃ bound, engine.parseOperations text start = some (.ok bound, next) ∧
      bound.loose = operations ∧
      ∀ assignment ∈ bound.assignments, ∀ missing scope,
        assignment.loose.value.evaluate engine.functions missing scope =
          assignment.value.evaluate engine.functions scope := by
  rw [parseLooseOperations_eq functions] at accepted
  rcases Run.map_eq_ok.mp accepted with ⟨bound, found, rfl⟩
  rcases ok_of_numbered found with ⟨assignments, read, rfl⟩
  have meets := registers_of_readOperations registered functions read
  refine ⟨fun assignment inside => ?_, _, found, rfl, fun assignment inside missing scope =>
    assignment.value.evaluate_loose missing scope (meets assignment inside).2⟩
  rcases List.mem_map.mp inside with ⟨original, inOriginals, rfl⟩
  exact original.meets_loose.mpr (meets original inOriginals)

end Accepted

/-- Whatever an accepted rule mentions is registered, or has a slot, under its name, its
functions accept their calls, and every conditional call has two branches. Names are resolved
while the text is read, and a process gives out its slots then. So nothing ever stands in for
what is not there: trees are evaluated, and processes run in place, as those whose names are
bound and whose branches are counted. -/
theorem accepted_wellFormed (engine : Engine σ) (registered : engine.registry.Reachable)
    (functions : engine.functions.Reachable) (text : String) (start next : World σ) :
    engine.ResolvesAccepted text start next ∧
    (∀ formula, engine.parseLooseFormula text start = some (.ok formula, next) →
      formula.root.Meets engine.functions engine.Registers ∧
      ∃ bound, engine.parseFormula text start = some (.ok bound, next) ∧
        bound.map Formula.loose = formula ∧
        ∀ missing scope, formula.root.evaluate engine.functions missing scope =
          bound.root.evaluate engine.functions scope) ∧
    (∀ condition, engine.parseLooseCondition text start = some (.ok condition, next) →
      condition.root.Meets engine.functions engine.Registers ∧
      ∃ bound, engine.parseCondition text start = some (.ok bound, next) ∧
        bound.map Condition.loose = condition ∧
        ∀ missing scope, condition.root.check engine.functions missing scope =
          bound.root.check engine.functions scope) ∧
    (∀ operations, engine.parseLooseOperations text start = some (.ok operations, next) →
      (∀ assignment ∈ operations.assignments,
        assignment.Meets engine.functions engine.Registers) ∧
      ∃ bound, engine.parseOperations text start = some (.ok bound, next) ∧
        bound.loose = operations ∧
        ∀ assignment ∈ bound.assignments, ∀ missing scope,
          assignment.loose.value.evaluate engine.functions missing scope =
            assignment.value.evaluate engine.functions scope) ∧
    ∀ process, engine.parseLooseProcess text start = some (.ok process, next) →
      process.WellFormed engine ∧
      ∃ bound, engine.parseProcess text start = some (.ok bound, next) ∧
        process.IsFormOf bound ∧ process.RunsInPlace engine.functions bound := by
  refine ⟨resolvesAccepted functions text start next,
    fun _ accepted => accepted_formula registered functions accepted,
    fun _ accepted => accepted_condition registered functions accepted,
    fun _ accepted => accepted_operations registered functions accepted,
    fun process accepted => ?_⟩
  rcases parseProcess_of_loose functions accepted with ⟨wellFormed, bound, form, found⟩
  exact ⟨wellFormed, bound, found, form, wellFormed.runsInPlace form⟩

/-! ### A process with a slot of its own -/

/-- An engine with one name besides the built-in ones. -/
def modest : Engine Nat where
  registry := .ofRequests [.addName "stat" "x" 0 .temporary {}]
  functions := Function.builtins
  settings := {}

theorem accepted_wellFormed_modest :
    modest.registry.Reachable ∧ modest.functions.Reachable ∧
    ∃ process next,
      modest.parseLooseProcess "y=Max(x,2) Return(x>y,If(y<3,y,x+1))"
        (modest.start 0 (.ofSeed 0)) = some (.ok process, next) ∧
      process.slots.map (fun slot => (slot.name, slot.global?.isSome)) =
        [("return", false), ("y", false), ("x", true)] ∧
      process.WellFormed modest ∧
      ∃ bound, process.IsFormOf bound ∧ process.RunsInPlace modest.functions bound := by
  have registered : modest.registry.Reachable := Registry.reachable_ofRequests _
  have functions : modest.functions.Reachable := .builtins
  have slots : ((modest.parseLooseProcess "y=Max(x,2) Return(x>y,If(y<3,y,x+1))"
      (modest.start 0 (.ofSeed 0))).bind fun outcome => outcome.1.toOption.map fun process =>
        process.slots.map fun slot => (slot.name, slot.global?.isSome)) =
      some [("return", false), ("y", false), ("x", true)] := by decide +kernel
  rcases outcome : modest.parseLooseProcess "y=Max(x,2) Return(x>y,If(y<3,y,x+1))"
    (modest.start 0 (.ofSeed 0)) with _ | ⟨error | process, next⟩
  · rw [outcome] at slots
    cases slots
  · rw [outcome] at slots
    cases slots
  · rw [outcome] at slots
    rcases accepted_wellFormed modest registered functions _ _ next with ⟨_, _, _, _, ofProcess⟩
    rcases ofProcess process outcome with ⟨wellFormed, bound, _, form, inPlace⟩
    exact ⟨registered, functions, process, next, rfl, Option.some.inj slots, wellFormed, bound,
      form, inPlace⟩

end Engine

end NumericRules
