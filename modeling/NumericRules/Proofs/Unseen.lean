import NumericRules.Proofs.Journal
import NumericRules.Proofs.References

/-! # What code does not see

Nothing that is asked of an engine depends on the log or on the value arrays of processes.
From states that differ in these alone every request has the same answer, and the states it
leads to again differ in these alone.
-/

namespace NumericRules

/-- The states differ in the log and the value arrays of processes alone. -/
def World.SeenAlike (world other : World σ) : Prop :=
  ∃ pads log, other = { world with pads, log }

theorem World.SeenAlike.refl (world : World σ) : world.SeenAlike world := ⟨_, _, rfl⟩

open World (SeenAlike)

/-! ## Single operations -/

namespace Run

/-- A run that passes on the log and the value arrays it is given. -/
theorem coupled_of_passes {run : Run σ α}
    (passes : ∀ world pads log, run { world with pads, log } =
      (run world).map fun result => (result.1, { result.2 with pads, log })) :
    Coupled SeenAlike run run := by
  rintro world _ ⟨pads, log, rfl⟩
  have passed := passes world pads log
  cases ran : run world with
  | none => exact .inl ⟨rfl, by rw [passed, ran]; rfl⟩
  | some result =>
      exact .inr ⟨result.1, result.2, _, rfl, by rw [passed, ran]; rfl, pads, log, rfl⟩

/-- A run that goes on alike in such states. -/
theorem get_coupled {next : World σ → Run σ α}
    (same : ∀ world pads log, next { world with pads, log } = next world)
    (later : ∀ world, Coupled SeenAlike (next world) (next world)) :
    Coupled SeenAlike (get >>= next) (get >>= next) := by
  rintro world _ ⟨pads, log, rfl⟩
  have asked := same world pads log
  rw [get_bind, get_bind, asked]
  exact later world world _ ⟨pads, log, rfl⟩

theorem store_coupled : Coupled SeenAlike (store : Run σ (Store σ)) store :=
  coupled_of_passes fun _ _ _ => rfl

theorem changeStore_coupled (change : Store σ → α × Store σ) :
    Coupled SeenAlike (changeStore change) (changeStore change) :=
  coupled_of_passes fun _ _ _ => rfl

theorem changeBus_coupled (tier : Tier) (change : Bus σ → α × Bus σ) :
    Coupled SeenAlike (changeBus tier change) (changeBus tier change) :=
  coupled_of_passes fun _ _ _ => by cases tier <;> rfl

/-- Whatever is reported, nobody sees it. -/
theorem report_coupled (entry other : LogEntry) :
    Coupled SeenAlike (report entry : Run σ Unit) (report other) := by
  rintro world _ ⟨pads, log, rfl⟩
  exact .inr ⟨(), _, _, rfl, rfl, pads, log ++ [other], rfl⟩

theorem coupling_seenAlike : Coupling (SeenAlike (σ := σ)) where
  host _ := coupled_of_passes fun _ _ _ => rfl
  draw _ _ := coupled_of_passes fun _ _ _ => rfl

theorem numbered_coupled (result : Except Error α) (rule : RuleId → α → β) :
    Coupled SeenAlike (Engine.numbered result rule : Run σ (Except Error β))
      (Engine.numbered result rule) := by
  cases result with
  | error error => exact .pure _
  | ok content => exact coupled_of_passes fun _ _ _ => rfl

theorem watch_coupled (station : StationId) (condition : ConditionRule)
    (callback : Script σ .writing) :
    Coupled SeenAlike (watch station condition callback) (watch station condition callback) := by
  refine store_coupled.bind fun store => ?_
  cases store.isWatching station condition.id with
  | true => exact .pure ()
  | false =>
      have changes := changeStore_coupled fun store : Store σ =>
        ((), store.watch station condition.id
          (firstOccurrences (condition.root.references.map (·.id)))
          (watcher condition.root callback))
      simp only [Bool.false_eq_true, if_false]
      split
      · exact (report_coupled _ _).bind fun _ => changes
      · exact changes

end Run

open Run (Coupled)

/-! ## Processes -/

namespace ProcessRule

/-- Which value array a process gets makes no difference. -/
theorem takePad_coupled (process other : ProcessRule)
    {next further : Option SlotValues → Run σ α}
    (later : ∀ pad otherPad, Coupled SeenAlike (next pad) (further otherPad)) :
    Coupled SeenAlike (takePad process >>= next) (takePad other >>= further) := by
  rintro world _ ⟨pads, log, rfl⟩
  rcases takePad_run process world with ⟨pad, pads, taken⟩
  rcases takePad_run other { world with pads := _, log } with ⟨otherPad, otherPads, otherTaken⟩
  rw [Run.bind_apply, Run.bind_apply, taken, otherTaken]
  exact later pad otherPad _ _ ⟨otherPads, log, rfl⟩

theorem load_coupled {read : Identifier → Run σ Binary64}
    (reads : ∀ id, Coupled SeenAlike (read id) (read id)) (values : SlotValues)
    (slots : List LocalSlot) :
    Coupled SeenAlike (load read values slots) (load read values slots) := by
  induction slots generalizing values with
  | nil => exact .pure values
  | cons slot rest induction =>
      cases global : slot.global? with
      | none =>
          simp only [load, global, pure_bind]
          exact induction _
      | some id =>
          simp only [load, global]
          exact (reads id).bind fun _ => induction _

theorem execute_coupled (functions : FunctionTable σ) (values : SlotValues) (step : Step Slot) :
    Coupled SeenAlike (step.execute functions values) (step.execute functions values) := by
  have couple : (Demands.naming fun _ => True).Couple SeenAlike functions
      (values.scope (σ := σ)) values.scope :=
    Demands.couple_of_reads Run.coupling_seenAlike fun _ => .pure _
  have evaluates (value : Formula Slot) :
      Coupled SeenAlike (value.evaluate functions (values.scope (σ := σ)))
        (value.evaluate functions values.scope) :=
    value.evaluate_coupled couple (value.meets_naming fun _ _ => trivial) fun _ _ => .pure _
  have fires (value : Formula Slot) (ends : Bool) :
      Coupled SeenAlike
        (if ends then do
          let result ← value.evaluate functions (values.scope (σ := σ))
          pure (values.update resultSlot.number .set result, true)
        else pure (values, false) : Run σ (SlotValues × Bool))
        (if ends then do
          let result ← value.evaluate functions (values.scope (σ := σ))
          pure (values.update resultSlot.number .set result, true)
        else pure (values, false)) := by
    cases ends with
    | true => exact (evaluates value).bind fun _ => .pure _
    | false => exact .pure _
  cases step with
  | assign assignment => exact (evaluates assignment.value).bind fun _ => .pure _
  | «return» condition value =>
      cases condition with
      | none => exact fires value true
      | some condition =>
          have checks := condition.check_coupled couple (condition.meets_naming fun _ _ => trivial)
            fun _ _ => .pure _
          exact checks.bind (fires value)

/-- Tracing or not, and whatever step it is, nobody sees it. -/
theorem traceStep_coupled (traced alsoTraced : Bool) (number : Nat) (values : SlotValues)
    (step other : Step Slot) :
    Coupled SeenAlike (if traced then traceStep number values step else pure () : Run σ Unit)
      (if alsoTraced then traceStep number values other else pure ()) := by
  rintro world _ ⟨pads, log, rfl⟩
  rcases traceStep_if traced number values step world with ⟨first, ran⟩
  rcases traceStep_if alsoTraced number values other { world with pads, log } with
    ⟨second, alsoRan⟩
  exact .inr ⟨(), _, _, ran, alsoRan, pads, second, rfl⟩

/-- Steps that do the same may be traced or not. -/
theorem executeSteps_coupled (functions : FunctionTable σ) (traced alsoTraced : Bool)
    {steps others : List (Step Slot)}
    (same : List.Forall₂ (fun step other => ∀ values : SlotValues,
      step.execute functions values = other.execute functions values) steps others)
    (number : Nat) (values : SlotValues) :
    Coupled SeenAlike (executeSteps functions traced number values steps)
      (executeSteps functions alsoTraced number values others) := by
  induction same generalizing number values with
  | nil => exact .pure values
  | cons head _ induction =>
      rw [executeSteps_cons, executeSteps_cons, ← head]
      refine (traceStep_coupled _ _ _ _ _ _).bind fun _ => ?_
      refine (execute_coupled functions values _).bind fun outcome => ?_
      cases outcome.2 with
      | true => exact .pure _
      | false => exact induction _ _

/-- What a run saves and answers. -/
def outcome (functions : FunctionTable σ) (read : Identifier → Run σ Binary64)
    (process : ProcessRule) (traced : Bool) : Run σ (List (Identifier × Binary64) × Binary64) := do
  let computation ← process.compute functions read traced
  pure (computation.saved process, computation.final.value resultSlot.number)

theorem runProcess_eq_outcome (responder : Responder σ) (engine : Engine σ)
    (process : ProcessRule) (traced : Bool) :
    responder.runProcess engine process traced = (do
      let (saved, result) ← process.outcome engine.functions responder.read traced
      responder.writeAll saved
      pure result) := by
  rw [runProcess_eq]
  simp only [outcome, bind_assoc, pure_bind]

theorem outcome_eq (functions : FunctionTable σ) (read : Identifier → Run σ Binary64)
    (process : ProcessRule) (traced : Bool) :
    process.outcome functions read traced = (do
      let pad ← takePad process
      let loaded ← load read ((pad.getD #[]).take 0) process.slots
      let final ← executeSteps functions traced 1 loaded process.steps
      if pad.isSome then modify (·.setPad process.id (.idle final))
      pure (process.changes loaded final, final.value resultSlot.number)) := by
  simp only [outcome, compute, executeSteps_eq, Computation.saved, bind_assoc, map_eq_pure_bind]
  congr 1
  funext pad
  congr 1
  funext loaded
  congr 1
  funext result
  cases pad.isSome <;> simp

/-- Processes whose steps are carried out alike save and answer alike. -/
theorem outcome_coupled {functions : FunctionTable σ} {read : Identifier → Run σ Binary64}
    (reads : ∀ id, Coupled SeenAlike (read id) (read id)) {process other : ProcessRule}
    (slots : other.slots = process.slots) {traced alsoTraced : Bool}
    (executes : ∀ values,
      Coupled SeenAlike (executeSteps functions traced 1 values process.steps)
        (executeSteps functions alsoTraced 1 values other.steps)) :
    Coupled SeenAlike (process.outcome functions read traced)
      (other.outcome functions read alsoTraced) := by
  have emptied (pad : Option SlotValues) : (pad.getD #[]).take 0 = #[] := by simp
  have sameChanges (loaded final : SlotValues) :
      other.changes loaded final = process.changes loaded final := by
    rw [changes, changes, slots]
  have puts (pad : Option SlotValues) (id : RuleId) (final : SlotValues)
      (result : List (Identifier × Binary64) × Binary64) (world : World σ) :
      ∃ pads, (if pad.isSome then do
          modify (·.setPad id (.idle final))
          pure result
        else pure result : Run σ _) world = some (result, { world with pads }) := by
    cases pad <;> exact ⟨_, rfl⟩
  rw [outcome_eq, outcome_eq, slots]
  refine takePad_coupled process other fun pad otherPad => ?_
  rw [emptied, emptied]
  refine (load_coupled reads #[] process.slots).bind fun loaded => ?_
  refine (executes loaded).bind fun final => ?_
  rw [sameChanges]
  rintro world _ ⟨pads, log, rfl⟩
  rcases puts pad process.id final _ world with ⟨first, ran⟩
  rcases puts otherPad other.id final _ { world with pads, log } with ⟨second, alsoRan⟩
  exact .inr ⟨_, _, _, ran, alsoRan, second, log, rfl⟩

end ProcessRule

namespace Responder

/-- Requests are answered alike in states that code does not tell apart. -/
def Blind (responder : Responder σ) : Prop :=
  ∀ request, Coupled SeenAlike (responder request) (responder request)

variable {responder : Responder σ} (blind : responder.Blind)

include blind

theorem Blind.couple (engine : Engine σ) :
    (Demands.naming fun _ => True).Couple SeenAlike engine.functions responder.scope
      responder.scope :=
  Demands.couple_of_reads Run.coupling_seenAlike fun id => blind (.read id)

theorem evaluate_coupled (engine : Engine σ) (formula : Formula Reference) :
    Coupled SeenAlike (responder.evaluate engine formula) (responder.evaluate engine formula) :=
  formula.evaluate_coupled (blind.couple engine) (formula.meets_naming fun _ _ => trivial)
    fun reference _ => blind (.read reference.id)

theorem check_coupled (engine : Engine σ) (condition : Condition Reference) :
    Coupled SeenAlike (responder.check engine condition) (responder.check engine condition) :=
  condition.check_coupled (blind.couple engine) (condition.meets_naming fun _ _ => trivial)
    fun reference _ => blind (.read reference.id)

theorem assignAll_coupled (engine : Engine σ) (assignments : List (Assignment Reference)) :
    Coupled SeenAlike (responder.assignAll engine assignments)
      (responder.assignAll engine assignments) := by
  induction assignments with
  | nil => exact .pure ()
  | cons assignment rest induction =>
      have assigns : Coupled SeenAlike (responder.assign engine assignment)
          (responder.assign engine assignment) :=
        (evaluate_coupled blind engine assignment.value).bind fun _ => blind (.write _ _ _)
      exact assigns.bind fun _ => induction

theorem writeAll_coupled (saved : List (Identifier × Binary64)) :
    Coupled SeenAlike (responder.writeAll saved) (responder.writeAll saved) := by
  induction saved with
  | nil => exact .pure ()
  | cons entry rest induction => exact (blind (.write _ _ _)).bind fun _ => induction

/-- Processes that save and answer alike run alike. -/
theorem runProcess_coupled_of_outcome {engine : Engine σ} {process other : ProcessRule}
    {traced alsoTraced : Bool}
    (outcomes : Coupled SeenAlike (process.outcome engine.functions responder.read traced)
      (other.outcome engine.functions responder.read alsoTraced)) :
    Coupled SeenAlike (responder.runProcess engine process traced)
      (responder.runProcess engine other alsoTraced) := by
  rw [ProcessRule.runProcess_eq_outcome, ProcessRule.runProcess_eq_outcome]
  refine outcomes.bind fun outcome => ?_
  exact (writeAll_coupled blind outcome.1).bind fun _ => .pure _

theorem runProcess_coupled (engine : Engine σ) (process : ProcessRule) (traced : Bool) :
    Coupled SeenAlike (responder.runProcess engine process traced)
      (responder.runProcess engine process traced) := by
  refine runProcess_coupled_of_outcome blind ?_
  refine ProcessRule.outcome_coupled (fun id => blind (.read id)) rfl fun values => ?_
  exact ProcessRule.executeSteps_coupled _ _ _ (List.forall₂_same.mpr fun _ _ _ => rfl) _ _

omit blind in
theorem produce_coupled (station : StationId) (rule : RuleId) (targets : List Identifier)
    (tracked : Bool) :
    Coupled SeenAlike
      (if tracked then Run.changeStore fun store => ((), store.produce station rule targets)
        else pure () : Run σ Unit)
      (if tracked then Run.changeStore fun store => ((), store.produce station rule targets)
        else pure ()) := by
  cases tracked with
  | true => simpa only [if_true] using Run.changeStore_coupled _
  | false => exact .pure ()

theorem workOperations_coupled (engine : Engine σ) (station : StationId)
    (operations : OperationRule) (tracked : Bool) :
    Coupled SeenAlike (responder.workOperations engine station operations tracked)
      (responder.workOperations engine station operations tracked) := by
  rw [workOperations_eq]
  exact (produce_coupled _ _ _ _).bind fun _ => assignAll_coupled blind engine _

theorem workProcess_coupled (engine : Engine σ) (station : StationId) (process : ProcessRule)
    (tracked : Bool) :
    Coupled SeenAlike (responder.workProcess engine station process tracked)
      (responder.workProcess engine station process tracked) := by
  rw [workProcess_eq]
  exact (produce_coupled _ _ _ _).bind fun _ => runProcess_coupled blind engine process _

end Responder

/-! ## Scripts and requests -/

open Responder in
/-- A script goes alike if its requests are answered alike. -/
theorem Script.play_coupled {engine : Engine σ} {responder : Responder σ}
    (blind : responder.Blind) (script : Script σ access) :
    Coupled SeenAlike (script.play engine responder) (script.play engine responder) := by
  induction script with
  | finish outcome => exact .pure outcome
  | host update next induction => exact (Run.coupling_seenAlike.host update).bind induction
  | read id next induction => exact (blind (.read id)).bind induction
  | stored id next induction => exact Run.store_coupled.bind fun _ => induction _
  | evaluate formula next induction =>
      exact (evaluate_coupled blind engine formula).bind induction
  | check condition next induction =>
      exact (check_coupled blind engine condition).bind induction
  | parse text next induction => exact (Run.numbered_coupled _ _).bind induction
  | produced station next induction => exact Run.store_coupled.bind fun _ => induction _
  | isWatching station condition next induction =>
      exact Run.store_coupled.bind fun _ => induction _
  | subscribe tier id callback next _ induction =>
      exact (Run.changeBus_coupled tier _).bind induction
  | unsubscribe tier id key next induction =>
      exact (Run.changeBus_coupled tier _).bind induction
  | unsubscribeAll tier id next induction =>
      exact (Run.changeBus_coupled tier _).bind induction
  | clear tier next induction => exact (Run.changeBus_coupled tier _).bind fun _ => induction
  | elsewhere body next ofBody ofNext =>
      refine Run.store_coupled.bind fun store => ?_
      refine (Run.changeStore_coupled _).bind fun _ => ?_
      refine ofBody.bind fun outcome => ?_
      exact (Run.changeStore_coupled _).bind fun _ => ofNext outcome
  | write id update operand next induction =>
      exact (blind (.write id update operand)).bind induction
  | reset range next induction =>
      exact (Run.changeStore_coupled _).bind fun _ => induction
  | execute operations next induction =>
      exact (assignAll_coupled blind engine operations.assignments).bind fun _ => induction
  | run process traced next induction =>
      exact (runProcess_coupled blind engine process traced).bind induction
  | workOperations station operations tracked next induction =>
      exact (workOperations_coupled blind engine station operations tracked).bind fun _ =>
        induction
  | workProcess station process tracked next induction =>
      exact (workProcess_coupled blind engine station process tracked).bind induction
  | watch station condition callback next _ induction =>
      exact (Run.watch_coupled station condition callback).bind fun _ => induction
  | unwatch station condition next induction =>
      exact (Run.changeStore_coupled _).bind induction

namespace Engine

variable {engine : Engine σ} {responder : Responder σ} (blind : responder.Blind)

include blind

theorem readOnce_coupled (id : Identifier) :
    Coupled SeenAlike (engine.readOnce responder id) (engine.readOnce responder id) := by
  refine Run.store_coupled.bind fun store => ?_
  split
  · exact .pure _
  · split
    · exact .pure 0
    · split
      · exact .pure _
      · refine (Script.play_coupled blind _).bind fun outcome => ?_
        cases outcome with
        | ok value => exact .pure value
        | error message => exact (Run.report_coupled _ _).bind fun _ => .pure 0

theorem deliver_coupled (change : Change) (listeners : List (Listener σ)) :
    Coupled SeenAlike (engine.deliver responder change listeners)
      (engine.deliver responder change listeners) := by
  induction listeners with
  | nil => exact .pure ()
  | cons listener rest induction =>
      refine (Script.play_coupled blind (listener change)).bind fun outcome => ?_
      cases outcome with
      | ok value => exact induction
      | error message => exact (Run.report_coupled _ _).bind fun _ => induction

theorem keep_coupled (record : NameRecord σ) (update : Update) (operand : Binary64) :
    Coupled SeenAlike (engine.keep responder record update operand)
      (engine.keep responder record update operand) := by
  rw [keep]
  split
  · exact Run.changeStore_coupled _
  · refine (Run.changeStore_coupled _).bind fun _ => ?_
    split
    · exact .pure 0
    · split
      · refine (Script.play_coupled blind _).bind fun outcome => ?_
        cases outcome with
        | ok retained => exact Run.changeStore_coupled _
        | error message =>
            exact (Run.report_coupled _ _).bind fun _ => Run.store_coupled.bind fun _ => .pure _
      · exact Run.changeStore_coupled _

theorem writeOnce_coupled (id : Identifier) (update : Update) (operand : Binary64) :
    Coupled SeenAlike (engine.writeOnce responder id update operand)
      (engine.writeOnce responder id update operand) := by
  cases known : engine.registry.record? id with
  | none =>
      simp only [writeOnce, known]
      exact (Run.report_coupled _ _).bind fun _ => .pure 0
  | some record =>
      rw [writeOnce_eq known]
      refine (keep_coupled blind record update operand).bind fun retained => ?_
      refine Run.get_coupled (fun _ _ _ => rfl) fun world => ?_
      refine (deliver_coupled blind _ (world.bus.listeners id)).bind fun _ => ?_
      refine Run.get_coupled (fun _ _ _ => rfl) fun world => ?_
      exact (deliver_coupled blind _ (world.store.bus.listeners id)).bind fun _ => .pure retained

omit blind in
/-- However deep its calls are nested, no request depends on the log or the value arrays. -/
theorem respond_blind (engine : Engine σ) (depth : Nat) : (engine.respond depth).Blind := by
  induction depth with
  | zero => exact fun _ _ _ _ => .inl ⟨rfl, rfl⟩
  | succ depth induction =>
      rintro (id | ⟨id, update, operand⟩)
      · exact readOnce_coupled induction id
      · exact writeOnce_coupled induction id update operand

end Engine

end NumericRules
