import NumericRules.Proofs.Tracing

/-! # What runs do to the state

A relation between the states before and after a run is shown for what code of the
host program asks of a store, and then it holds of all that rules do, for they ask the
same way. What lies beside the store and the subscriptions at the engine does not matter
to such a relation.
-/

namespace NumericRules

namespace Run

/-- Wherever it starts, the run leads to a related state. -/
def Respects (relation : World σ → World σ → Prop) (run : Run σ α) : Prop :=
  ∀ world value after, run world = some (value, after) → relation world after

/-- A relation that holds along a run of several parts, and across all that leaves the
store and the subscriptions at the engine alone. -/
structure Steady (relation : World σ → World σ → Prop) : Prop where
  trans : ∀ {first second third}, relation first second → relation second third →
    relation first third
  beside : ∀ {before after : World σ}, after.store = before.store → after.bus = before.bus →
    relation before after

namespace Steady

variable {relation : World σ → World σ → Prop} (steady : Steady relation)

include steady

theorem ofBeside {run : Run σ α}
    (unchanged : ∀ world value after, run world = some (value, after) →
      after.store = world.store ∧ after.bus = world.bus) : run.Respects relation := by
  intro world value after outcome
  rcases unchanged world value after outcome with ⟨store, bus⟩
  exact steady.beside store bus

theorem ofPure (value : α) : (pure value : Run σ α).Respects relation := by
  apply steady.ofBeside
  intro world _ _ outcome
  cases outcome
  exact ⟨rfl, rfl⟩

theorem ofBind {first : Run σ α} {next : α → Run σ β} (ofFirst : first.Respects relation)
    (ofNext : ∀ value, (next value).Respects relation) :
    (first >>= next).Respects relation := by
  intro world value after outcome
  rcases bind_eq_some outcome with ⟨middle, between, ran, rest⟩
  exact steady.trans (ofFirst world middle between ran) (ofNext middle between value after rest)

theorem ofStore : (Run.store : Run σ (Store σ)).Respects relation := by
  apply steady.ofBeside
  intro world _ _ outcome
  cases outcome
  exact ⟨rfl, rfl⟩

theorem ofGet : (get : Run σ (World σ)).Respects relation := by
  apply steady.ofBeside
  intro world _ _ outcome
  cases outcome
  exact ⟨rfl, rfl⟩

theorem ofModify {change : World σ → World σ}
    (unchanged : ∀ world, (change world).store = world.store ∧ (change world).bus = world.bus) :
    (modify change : Run σ PUnit).Respects relation := by
  apply steady.ofBeside
  intro world _ _ outcome
  cases outcome
  exact unchanged world

theorem ofChangeHost (update : σ → σ) : (changeHost update).Respects relation := by
  apply steady.ofBeside
  intro world _ _ outcome
  cases outcome
  exact ⟨rfl, rfl⟩

theorem ofReport (entry : LogEntry) : (report entry : Run σ Unit).Respects relation :=
  steady.ofModify fun _ => ⟨rfl, rfl⟩

theorem ofDraw (low high : Int) : (draw low high : Run σ Int).Respects relation := by
  apply steady.ofBeside
  intro world _ _ outcome
  cases outcome
  exact ⟨rfl, rfl⟩

/-- What a workstation records when it executes a rule, if it does. -/
theorem ofProduce {station : StationId} {rule : RuleId} {targets : List Identifier}
    (records : ∀ world : World σ,
      relation world { world with store := world.store.produce station rule targets })
    (tracked : Bool) :
    (if tracked then changeStore fun store => ((), store.produce station rule targets)
      else pure () : Run σ Unit).Respects relation := by
  cases tracked with
  | true =>
      intro world value after outcome
      cases outcome
      exact records world
  | false => exact steady.ofPure ()

theorem ofNumbered (result : Except Error α) (rule : RuleId → α → β) :
    (Engine.numbered result rule : Run σ (Except Error β)).Respects relation := by
  apply steady.ofBeside
  intro world _ _ outcome
  cases result <;> cases outcome <;> exact ⟨rfl, rfl⟩

end Steady

variable {relation : World σ → World σ → Prop}

theorem respects_changeStore {change : Store σ → α × Store σ}
    (related : ∀ world : World σ, relation world { world with store := (change world.store).2 }) :
    (changeStore change).Respects relation := by
  intro world value after outcome
  cases outcome
  exact related world

end Run

open Run (Steady)

/-! ## Evaluation -/

/-- A property that sequences have by their parts, and that holds of all that plans do besides
reading. -/
structure Run.Compositional (property : ∀ {α : Type}, Run σ α → Prop) : Prop where
  pure : ∀ {α : Type} (value : α), property (Pure.pure value : Run σ α)
  bind : ∀ {α β : Type} {first : Run σ α} {next : α → Run σ β}, property first →
    (∀ value, property (next value)) → property (first >>= next)
  changeHost : ∀ update, property (Run.changeHost update : Run σ σ)
  draw : ∀ low high, property (Run.draw low high : Run σ Int)

section Evaluation

variable {property : ∀ {α : Type}, Run σ α → Prop} {functions : FunctionTable σ}
  {scope : Scope σ ν}

/-- What a scope gives is read with the property. -/
structure Scope.Has (property : ∀ {α : Type}, Run σ α → Prop) (scope : Scope σ ν) : Prop where
  name : ∀ reference, property (scope.name reference)
  identifier : ∀ id, property (scope.identifier id)

theorem Plan.run_has (composes : Run.Compositional property)
    {identifier : Identifier → Run σ Binary64} {arguments : List (Run σ Binary64)}
    (reads : ∀ id, property (identifier id))
    (evaluations : ∀ argument ∈ arguments, property argument) (plan : Plan σ) :
    property (plan.run identifier arguments) := by
  induction plan with
  | answer value => exact composes.pure value
  | argument index next induction =>
      refine composes.bind ?_ induction
      cases found : arguments[index]? with
      | none => exact composes.pure 0
      | some argument => exact evaluations argument (List.mem_of_getElem? found)
  | read id next induction => exact composes.bind (reads id) induction
  | host update next induction => exact composes.bind (composes.changeHost update) induction
  | draw low high next induction => exact composes.bind (composes.draw low high) induction

mutual
/-- If reading has the property, then so has evaluating. -/
theorem Formula.evaluate_has (composes : Run.Compositional property) (reads : scope.Has property) :
    (formula : Formula ν) → property (formula.evaluate functions scope)
  | .constant value => composes.pure value
  | .name reference => reads.name reference
  | .binary left _ right =>
      composes.bind (left.evaluate_has composes reads) fun _ =>
        composes.bind (right.evaluate_has composes reads) fun _ => composes.pure _
  | .negate inner =>
      composes.bind (inner.evaluate_has composes reads) fun _ => composes.pure _
  | .call function arguments => by
      rw [Formula.evaluate]
      split
      · exact Plan.run_has composes reads.identifier
          (Formula.evaluations_have composes reads arguments) _
      · exact composes.pure 0
  | .choose test whenTrue whenFalse => by
      refine composes.bind (test.check_has composes reads) fun holds => ?_
      cases holds with
      | true => exact whenTrue.evaluate_has composes reads
      | false => exact whenFalse.evaluate_has composes reads

theorem Formula.evaluations_have (composes : Run.Compositional property)
    (reads : scope.Has property) : (formulas : List (Formula ν)) →
    ∀ run ∈ Formula.evaluations functions scope formulas, property run
  | [], _, inside => by cases inside
  | head :: tail, run, inside => by
      rcases List.mem_cons.mp inside with rfl | inTail
      · exact head.evaluate_has composes reads
      · exact Formula.evaluations_have composes reads tail run inTail

theorem Condition.check_has (composes : Run.Compositional property) (reads : scope.Has property) :
    (condition : Condition ν) → property (condition.check functions scope)
  | .literal value => composes.pure value
  | .compare left _ right =>
      composes.bind (left.evaluate_has composes reads) fun _ =>
        composes.bind (right.evaluate_has composes reads) fun _ => composes.pure _
  | .connect left connective right => by
      refine composes.bind (left.check_has composes reads) fun holds => ?_
      cases connective <;> cases holds
      · exact composes.pure false
      · exact right.check_has composes reads
      · exact right.check_has composes reads
      · exact composes.pure true
end

variable {relation : World σ → World σ → Prop}

theorem Run.Steady.compositional (steady : Steady relation) :
    Run.Compositional fun run => run.Respects relation :=
  ⟨steady.ofPure, steady.ofBind, steady.ofChangeHost, steady.ofDraw⟩

/-- What a scope gives is read along the relation. -/
structure Scope.Respects (relation : World σ → World σ → Prop) (scope : Scope σ ν) : Prop where
  name : ∀ reference, (scope.name reference).Respects relation
  identifier : ∀ id, (scope.identifier id).Respects relation

theorem Formula.evaluate_respects (steady : Steady relation) (reads : scope.Respects relation)
    (formula : Formula ν) : (formula.evaluate functions scope).Respects relation :=
  formula.evaluate_has steady.compositional ⟨reads.name, reads.identifier⟩

theorem Condition.check_respects (steady : Steady relation) (reads : scope.Respects relation)
    (condition : Condition ν) : (condition.check functions scope).Respects relation :=
  condition.check_has steady.compositional ⟨reads.name, reads.identifier⟩

end Evaluation

/-! ## Processes -/

namespace ProcessRule

variable {relation : World σ → World σ → Prop} (steady : Steady relation)

include steady

theorem scope_respects (values : SlotValues) : (values.scope (σ := σ)).Respects relation :=
  ⟨fun _ => steady.ofPure _, fun _ => steady.ofPure _⟩

theorem execute_respects (functions : FunctionTable σ) (values : SlotValues)
    (step : Step Slot) : (step.execute functions values).Respects relation := by
  have reads := scope_respects steady values
  have fires (value : Formula Slot) (ends : Bool) :
      (if ends then do
          let result ← value.evaluate functions (values.scope (σ := σ))
          pure (values.update resultSlot.number .set result, true)
        else pure (values, false) : Run σ (SlotValues × Bool)).Respects relation := by
    cases ends with
    | true => exact steady.ofBind (value.evaluate_respects steady reads) fun _ => steady.ofPure _
    | false => exact steady.ofPure _
  cases step with
  | assign assignment =>
      exact steady.ofBind (assignment.value.evaluate_respects steady reads) fun _ =>
        steady.ofPure _
  | «return» condition value =>
      cases condition with
      | none => exact fires value true
      | some condition =>
          exact steady.ofBind (condition.check_respects steady reads) (fires value)

theorem traceStep_respects (number : Nat) (values : SlotValues) (step : Step Slot) :
    (traceStep number values step : Run σ Unit).Respects relation := by
  apply steady.ofBeside
  intro world value after outcome
  rcases traceStep_run number values step world with ⟨entry, traced⟩
  cases outcome.symm.trans traced
  exact ⟨rfl, rfl⟩

theorem executeSteps_respects (functions : FunctionTable σ) (traced : Bool) (number : Nat)
    (values : SlotValues) (steps : List (Step Slot)) :
    (executeSteps functions traced number values steps).Respects relation := by
  induction steps generalizing number values with
  | nil => exact steady.ofPure values
  | cons step rest induction =>
      have carriedOut : (do
          let outcome ← step.execute functions values
          if outcome.2 then pure outcome.1
          else executeSteps functions traced (number + 1) outcome.1 rest :
            Run σ SlotValues).Respects relation := by
        refine steady.ofBind (execute_respects steady functions values step) fun outcome => ?_
        cases outcome.2 with
        | true => exact steady.ofPure _
        | false => exact induction (number + 1) outcome.1
      cases traced with
      | true =>
          exact steady.ofBind (traceStep_respects steady number values step) fun _ => carriedOut
      | false => exact carriedOut

theorem load_respects {read : Identifier → Run σ Binary64}
    (reads : ∀ id, (read id).Respects relation) (values : SlotValues) (slots : List LocalSlot) :
    (load read values slots).Respects relation := by
  induction slots generalizing values with
  | nil => exact steady.ofPure values
  | cons slot rest induction =>
      cases global : slot.global? with
      | none =>
          simp only [load, global, pure_bind]
          exact induction _
      | some id =>
          simp only [load, global]
          exact steady.ofBind (reads id) fun _ => induction _

theorem takePad_respects (process : ProcessRule) :
    (takePad process : Run σ (Option SlotValues)).Respects relation := by
  apply steady.ofBeside
  intro world value after outcome
  rcases takePad_run process world with ⟨pad, pads, taken⟩
  cases outcome.symm.trans taken
  exact ⟨rfl, rfl⟩

end ProcessRule

namespace Responder

section Assignments

variable {property : ∀ {α : Type}, Run σ α → Prop} {responder : Responder σ}
  (composes : Run.Compositional property) (answers : ∀ request, property (responder request))

include composes answers

theorem assign_has (engine : Engine σ) (assignment : Assignment Reference) :
    property (responder.assign engine assignment) := by
  have reads : responder.scope.Has property :=
    ⟨fun reference => answers (.read reference.id), fun id => answers (.read id)⟩
  exact composes.bind (assignment.value.evaluate_has composes reads) fun operand =>
    answers (.write assignment.target.id assignment.update operand)

theorem assignAll_has (engine : Engine σ) (assignments : List (Assignment Reference)) :
    property (responder.assignAll engine assignments) := by
  induction assignments with
  | nil => exact composes.pure ()
  | cons assignment rest induction =>
      exact composes.bind (assign_has composes answers engine assignment) fun _ => induction

theorem writeAll_has (saved : List (Identifier × Binary64)) :
    property (responder.writeAll saved) := by
  induction saved with
  | nil => exact composes.pure ()
  | cons entry rest induction =>
      exact composes.bind (answers (.write entry.1 .set entry.2)) fun _ => induction

end Assignments

variable {relation : World σ → World σ → Prop}

/-- Requests are answered along the relation. -/
def Respects (relation : World σ → World σ → Prop) (responder : Responder σ) : Prop :=
  ∀ request, (responder request).Respects relation

variable {responder : Responder σ} (steady : Steady relation)
  (answers : responder.Respects relation)

theorem Respects.scope (answers : responder.Respects relation) :
    responder.scope.Respects relation :=
  ⟨fun reference => answers (.read reference.id), fun id => answers (.read id)⟩

include steady answers

theorem assign_respects (engine : Engine σ) (assignment : Assignment Reference) :
    (responder.assign engine assignment).Respects relation :=
  assign_has steady.compositional answers engine assignment

theorem assignAll_respects (engine : Engine σ) (assignments : List (Assignment Reference)) :
    (responder.assignAll engine assignments).Respects relation :=
  assignAll_has steady.compositional answers engine assignments

theorem writeAll_respects (saved : List (Identifier × Binary64)) :
    (responder.writeAll saved).Respects relation :=
  writeAll_has steady.compositional answers saved

theorem runProcess_respects (engine : Engine σ) (process : ProcessRule) (traced : Bool) :
    (responder.runProcess engine process traced).Respects relation := by
  simp only [Responder.runProcess, ProcessRule.run, ProcessRule.forIn_write]
  refine steady.ofBind (ProcessRule.takePad_respects steady process) fun pad => ?_
  refine steady.ofBind
    (ProcessRule.load_respects steady (fun id => answers (.read id)) _ _) fun loaded => ?_
  refine steady.ofBind (ProcessRule.executeSteps_respects steady _ _ _ _ _) fun final => ?_
  have saved : (do
      responder.writeAll (process.changes loaded final)
      pure (final.value ProcessRule.resultSlot.number) : Run σ Binary64).Respects relation :=
    steady.ofBind (writeAll_respects steady answers _) fun _ => steady.ofPure _
  cases pad.isSome with
  | true => exact steady.ofBind (steady.ofModify fun _ => ⟨rfl, rfl⟩) fun _ => saved
  | false => exact saved

omit steady answers in
/-- The targets of a rule that a workstation executes are recorded first. -/
theorem workOperations_eq (responder : Responder σ) (engine : Engine σ) (station : StationId)
    (operations : OperationRule) (tracked : Bool) :
    responder.workOperations engine station operations tracked = (do
      let _ ← (if tracked then
        Run.changeStore fun store => ((), store.produce station operations.id operations.targets)
        else pure () : Run σ Unit)
      responder.assignAll engine operations.assignments) := by
  cases tracked <;> rfl

omit steady answers in
theorem workProcess_eq (responder : Responder σ) (engine : Engine σ) (station : StationId)
    (process : ProcessRule) (tracked : Bool) :
    responder.workProcess engine station process tracked = (do
      let _ ← (if tracked then
        Run.changeStore fun store => ((), store.produce station process.id process.targets)
        else pure () : Run σ Unit)
      responder.runProcess engine process engine.settings.traceSteps) := by
  cases tracked <;> rfl

section Work

variable {station : StationId} (records : ∀ (world : World σ) rule targets,
  relation world { world with store := world.store.produce station rule targets })

include records

theorem workOperations_respects (engine : Engine σ) (operations : OperationRule)
    (tracked : Bool) :
    (responder.workOperations engine station operations tracked).Respects relation := by
  rw [workOperations_eq]
  exact steady.ofBind (steady.ofProduce (fun world => records world _ _) tracked) fun _ =>
    assignAll_respects steady answers engine operations.assignments

theorem workProcess_respects (engine : Engine σ) (process : ProcessRule) (tracked : Bool) :
    (responder.workProcess engine station process tracked).Respects relation := by
  rw [workProcess_eq]
  exact steady.ofBind (steady.ofProduce (fun world => records world _ _) tracked) fun _ =>
    runProcess_respects steady answers engine process engine.settings.traceSteps

end Work

end Responder

/-! ## Scripts -/

/-- A steady relation that also holds across changes of subscriptions. -/
structure Run.Tolerant (relation : World σ → World σ → Prop) : Prop extends Steady relation where
  subscribe : ∀ tier id callback,
    (changeBus tier (·.add id callback) : Run σ SubscriptionKey).Respects relation
  unsubscribe : ∀ tier id key, (changeBus tier (·.remove id key) : Run σ Bool).Respects relation
  unsubscribeAll : ∀ tier id, (changeBus tier (·.removeAll id) : Run σ Nat).Respects relation
  clear : ∀ tier, (changeBus tier fun bus => ((), bus.clear) : Run σ Unit).Respects relation

/-- Moreover it holds across resets, watches and what workstations remember, and while a
script works on a new store. -/
structure Run.Enduring (engine : Engine σ) (relation : World σ → World σ → Prop) : Prop
    extends Tolerant relation where
  produce : ∀ station (world : World σ) rule targets,
    relation world { world with store := world.store.produce station rule targets }
  reset : ∀ range, (Run.reset range : Run σ Binary64).Respects relation
  watch : ∀ station condition callback,
    (Run.watch station condition callback : Run σ Unit).Respects relation
  unwatch : ∀ station condition,
    (changeStore (·.unwatch station condition) : Run σ Bool).Respects relation
  elsewhere : ∀ {world last : World σ}, relation { world with store := .new engine.registry } last →
    relation world { last with store := world.store }

/-- Scripts keep to an enduring relation if their requests are answered along it. -/
theorem Script.play_respects {engine : Engine σ} {responder : Responder σ}
    {relation : World σ → World σ → Prop} (enduring : Run.Enduring engine relation)
    (answers : responder.Respects relation) (script : Script σ access) :
    (script.play engine responder).Respects relation := by
  have steady := enduring.toSteady
  induction script with
  | finish outcome => exact steady.ofPure outcome
  | host update next induction => exact steady.ofBind (steady.ofChangeHost update) induction
  | read id next induction => exact steady.ofBind (answers (.read id)) induction
  | stored id next induction => exact steady.ofBind steady.ofStore fun _ => induction _
  | evaluate formula next induction =>
      exact steady.ofBind (formula.evaluate_respects steady answers.scope) induction
  | check condition next induction =>
      exact steady.ofBind (condition.check_respects steady answers.scope) induction
  | parse text next induction => exact steady.ofBind (steady.ofNumbered _ _) induction
  | produced station next induction => exact steady.ofBind steady.ofStore fun _ => induction _
  | isWatching station condition next induction =>
      exact steady.ofBind steady.ofStore fun _ => induction _
  | subscribe tier id callback next _ induction =>
      exact steady.ofBind (enduring.subscribe tier id callback) induction
  | unsubscribe tier id key next induction =>
      exact steady.ofBind (enduring.unsubscribe tier id key) induction
  | unsubscribeAll tier id next induction =>
      exact steady.ofBind (enduring.unsubscribeAll tier id) induction
  | clear tier next induction => exact steady.ofBind (enduring.clear tier) fun _ => induction
  | elsewhere body next ofBody ofNext =>
      -- the store is put aside and back
      intro world value after outcome
      rcases Run.bind_eq_some outcome with ⟨_, _, looked, outcome⟩
      cases looked
      rcases Run.bind_eq_some outcome with ⟨_, _, replaced, outcome⟩
      cases replaced
      rcases Run.bind_eq_some outcome with ⟨result, last, played, outcome⟩
      rcases Run.bind_eq_some outcome with ⟨_, _, restored, outcome⟩
      cases restored
      exact steady.trans (enduring.elsewhere (ofBody _ result last played))
        (ofNext result _ value after outcome)
  | write id update operand next induction =>
      exact steady.ofBind (answers (.write id update operand)) induction
  | reset range next induction => exact steady.ofBind (enduring.reset range) fun _ => induction
  | execute operations next induction =>
      exact steady.ofBind (Responder.assignAll_respects steady answers engine
        operations.assignments) fun _ => induction
  | run process traced next induction =>
      exact steady.ofBind (Responder.runProcess_respects steady answers engine process traced)
        induction
  | workOperations station operations tracked next induction =>
      exact steady.ofBind (Responder.workOperations_respects steady answers
        (enduring.produce station) engine operations tracked) fun _ => induction
  | workProcess station process tracked next induction =>
      exact steady.ofBind (Responder.workProcess_respects steady answers
        (enduring.produce station) engine process tracked) induction
  | watch station condition callback next _ induction =>
      exact steady.ofBind (enduring.watch station condition callback) fun _ => induction
  | unwatch station condition next induction =>
      exact steady.ofBind (enduring.unwatch station condition) induction

/-! ## Requests -/

namespace Engine

variable {engine : Engine σ} {responder : Responder σ} {relation : World σ → World σ → Prop}
  (steady : Steady relation)

include steady

theorem readOnce_respects {id : Identifier}
    (hooks : ∀ record hook, engine.registry.record? id = some record →
      record.getHook = some hook → ((hook id).play engine responder).Respects relation) :
    (engine.readOnce responder id).Respects relation := by
  refine steady.ofBind steady.ofStore fun store => ?_
  split
  · exact steady.ofPure _
  · split
    · exact steady.ofPure 0
    · rename_i record known
      split
      · exact steady.ofPure _
      · rename_i hook hooked
        refine steady.ofBind (hooks record hook known hooked) fun outcome => ?_
        cases outcome with
        | ok value => exact steady.ofPure value
        | error message => exact steady.ofBind (steady.ofReport _) fun _ => steady.ofPure 0

theorem deliver_respects {change : Change} {listeners : List (Listener σ)}
    (told : ∀ listener ∈ listeners, ((listener change).play engine responder).Respects relation) :
    (engine.deliver responder change listeners).Respects relation := by
  induction listeners with
  | nil => exact steady.ofPure ()
  | cons listener rest induction =>
      rw [List.forall_mem_cons] at told
      refine steady.ofBind told.1 fun outcome => ?_
      cases outcome with
      | ok value => exact induction told.2
      | error message => exact steady.ofBind (steady.ofReport _) fun _ => induction told.2

end Engine

end NumericRules
