import NumericRules.Engine

/-! # Reading and changing values

Reading a name may run its hook, and changing one runs its hook and then every
listener; this code may read and change names in turn. The computations below
take the reading and changing that such code does as a parameter and are tied
into one by a bound on the depth of calls. A depth that is large enough gives
the result, and then every greater depth gives the same.
-/

namespace NumericRules

/-- What code of the host program asks of the store it works on. -/
inductive Request where
  | read (id : Identifier)
  | write (id : Identifier) (update : Update) (operand : Binary64)

/-- How requests are answered. -/
abbrev Responder (σ : Type) := Request → Run σ Binary64

namespace Responder

variable (responder : Responder σ)

def read (id : Identifier) : Run σ Binary64 := responder (.read id)

def write (id : Identifier) (update : Update) (operand : Binary64) : Run σ Binary64 :=
  responder (.write id update operand)

def scope : Scope σ Reference where
  name reference := responder.read reference.id
  identifier := responder.read

/-! ## Rules -/

def evaluate (engine : Engine σ) (formula : Formula Reference) : Run σ Binary64 :=
  formula.evaluate engine.functions responder.scope

def check (engine : Engine σ) (condition : Condition Reference) : Run σ Bool :=
  condition.check engine.functions responder.scope

/-! ## Value forms -/

def formulaForm (formula : Formula Reference) : Run σ (List Char) :=
  formula.valueForm responder.scope.name

def conditionForm (condition : Condition Reference) : Run σ (List Char) :=
  condition.valueForm responder.scope.name

def operationsForm (operations : OperationRule) : Run σ (List Char) := do
  let forms ← operations.assignments.mapM (Assignment.valueForm responder.scope.name)
  pure (joinWith operations.separator forms)

def processForm (process : ProcessRule) : Run σ (List Char) :=
  process.valueForm responder.read

/-! ## Statements -/

/-- Give names their values in order. -/
def writeAll : List (Identifier × Binary64) → Run σ Unit
  | [] => pure ()
  | (id, value) :: rest => do
      let _ ← responder.write id .set value
      writeAll rest

/-- Carry out one assignment; the answer is the value retained. -/
def assign (engine : Engine σ) (assignment : Assignment Reference) : Run σ Binary64 := do
  let operand ← responder.evaluate engine assignment.value
  responder.write assignment.target.id assignment.update operand

/-- Carry out assignments in order. -/
def assignAll (engine : Engine σ) : List (Assignment Reference) → Run σ Unit
  | [] => pure ()
  | assignment :: rest => do
      let _ ← responder.assign engine assignment
      assignAll engine rest

def execute (engine : Engine σ) (operations : OperationRule) : Run σ Unit :=
  responder.assignAll engine operations.assignments

def runProcess (engine : Engine σ) (process : ProcessRule) (traced : Bool) : Run σ Binary64 :=
  process.run engine.functions responder.read
    (fun id value => responder.write id .set value) traced

/-! ## Workstations -/

/-- Execute assignments at a workstation. Tracking records its targets the
first time. -/
def workOperations (engine : Engine σ) (station : StationId) (operations : OperationRule)
    (tracked : Bool) : Run σ Unit := do
  if tracked then
    Run.changeStore fun store => ((), store.produce station operations.id operations.targets)
  responder.execute engine operations

/-- Run a process at a workstation, traced as the settings say. -/
def workProcess (engine : Engine σ) (station : StationId) (process : ProcessRule)
    (tracked : Bool) : Run σ Binary64 := do
  if tracked then
    Run.changeStore fun store => ((), store.produce station process.id process.targets)
  responder.runProcess engine process engine.settings.traceSteps

end Responder

/-- The listener of a watched condition: the callback runs while the condition
holds. -/
def watcher (condition : Condition Reference) (callback : Script σ .writing) : Listener σ :=
  fun _ => .check condition fun holds => if holds then callback else .done

namespace Run

/-- Watch a condition at a workstation. Watching it again changes nothing. -/
def watch (station : StationId) (condition : ConditionRule)
    (callback : Script σ .writing) : Run σ Unit := do
  let store ← store
  if store.isWatching station condition.id then pure ()
  else
    let ids := firstOccurrences (condition.root.references.map (·.id))
    if ids.isEmpty then report (.watchWithoutNames condition.root.form)
    changeStore fun store =>
      ((), store.watch station condition.id ids (watcher condition.root callback))

/-- Carry out a reset. -/
def reset (range : ResetRange) : Run σ Binary64 :=
  changeStore fun store =>
    match range with
    | .identifier id => store.resetOne id
    | .cycle cycle => (0, store.resetCycle cycle)
    | .all => (0, store.resetAll)
    | .produced station => (0, store.resetProduced station)

end Run

/-! ## Scripts -/

namespace Script

/-- Carry out a script. -/
def play (engine : Engine σ) (responder : Responder σ) :
    Script σ access → Run σ (Except String Binary64)
  | .finish outcome => pure outcome
  | .host update next => do
      let before ← Run.changeHost update
      (next before).play engine responder
  | .read id next => do
      let value ← responder.read id
      (next value).play engine responder
  | .stored id next => do
      let store ← Run.store
      (next ((store.entry? id).map (·.value))).play engine responder
  | .evaluate formula next => do
      let value ← responder.evaluate engine formula
      (next value).play engine responder
  | .check condition next => do
      let holds ← responder.check engine condition
      (next holds).play engine responder
  | .parse text next => do
      let result ← engine.parseFormula text
      (next result).play engine responder
  | .produced station next => do
      let store ← Run.store
      (next (store.produced station)).play engine responder
  | .isWatching station condition next => do
      let store ← Run.store
      (next (store.isWatching station condition)).play engine responder
  | .subscribe tier id callback next => do
      let key ← Run.changeBus tier (·.add id callback)
      (next key).play engine responder
  | .unsubscribe tier id key next => do
      let removed ← Run.changeBus tier (·.remove id key)
      (next removed).play engine responder
  | .unsubscribeAll tier id next => do
      let count ← Run.changeBus tier (·.removeAll id)
      (next count).play engine responder
  | .clear tier next => do
      Run.changeBus tier fun bus => ((), bus.clear)
      next.play engine responder
  | .elsewhere body next => do
      let store ← Run.store
      Run.changeStore fun _ => ((), Store.new engine.registry)
      let outcome ← body.play engine responder
      Run.changeStore fun _ => ((), store)
      (next outcome).play engine responder
  | .write id update operand next => do
      let retained ← responder.write id update operand
      (next retained).play engine responder
  | .reset range next => do
      let _ ← Run.reset range
      next.play engine responder
  | .execute operations next => do
      responder.execute engine operations
      next.play engine responder
  | .run process traced next => do
      let result ← responder.runProcess engine process traced
      (next result).play engine responder
  | .workOperations station operations tracked next => do
      responder.workOperations engine station operations tracked
      next.play engine responder
  | .workProcess station process tracked next => do
      let result ← responder.workProcess engine station process tracked
      (next result).play engine responder
  | .watch station condition callback next => do
      Run.watch station condition callback
      next.play engine responder
  | .unwatch station condition next => do
      let ended ← Run.changeStore (·.unwatch station condition)
      (next ended).play engine responder

end Script

/-! ## One request -/

namespace Engine

variable (engine : Engine σ) (responder : Responder σ)

/-- Read a name: the place of an ordered one, what the hook computes, or the
stored value. A failing hook is logged and reads as 0. -/
def readOnce (id : Identifier) : Run σ Binary64 := do
  let store ← Run.store
  if id.isOrdered then pure (store.denseValue id)
  else match engine.registry.record? id with
    | none => pure 0
    | some record =>
        match record.getHook with
        | none => pure (store.stored id)
        | some hook =>
            match ← (hook id).play engine responder with
            | .ok value => pure value
            | .error message =>
                Run.report (.getHookFailed id record.name message)
                pure 0

/-- Run the listeners of a change in order. A failure is logged and does not keep
the others from running. -/
def deliver (change : Change) : List (Listener σ) → Run σ Unit
  | [] => pure ()
  | listener :: rest => do
      match ← (listener change).play engine responder with
      | .ok _ => pure ()
      | .error message =>
          Run.report (.listenerFailed change.id change.update message)
      deliver change rest

/-- Change the entry of a name. Events keep nothing; a hook decides what is
retained, and a failing one retains what was stored; a name that is only read
through a hook keeps what was stored; any other update stays within the
bounds. -/
def writeEntry (record : NameRecord σ) (update : Update) (operand : Binary64) : Run σ Binary64 := do
  Run.changeStore fun store => ((), store.touch record)
  if record.cycle = .event then pure 0
  else match record.setHook with
    | some hook =>
        match ← (hook record.id update operand).play engine responder with
        | .ok retained =>
            Run.changeStore fun store => (retained, store.retain record.id retained)
        | .error message => do
            Run.report (.setHookFailed record.id record.name message)
            let store ← Run.store
            pure (store.stored record.id)
    | none => Run.changeStore fun store =>
        if record.getHook.isSome then (store.stored record.id, store)
        else
          let value := record.bounds.clamp (update.apply (store.stored record.id) operand)
          (value, store.retain record.id value)

/-- Change a name and tell its listeners, those at the engine first. The
listeners of a tier are those subscribed when its turn comes. -/
def writeOnce (id : Identifier) (update : Update) (operand : Binary64) : Run σ Binary64 := do
  match engine.registry.record? id with
  | none => do
      Run.report (.notRegistered id)
      pure 0
  | some record =>
      let retained ←
        if id.isOrdered then Run.changeStore (·.updateDense record update operand)
        else engine.writeEntry responder record update operand
      let change : Change := ⟨id, update, operand⟩
      let world ← get
      engine.deliver responder change (world.bus.listeners id)
      let world ← get
      engine.deliver responder change (world.store.bus.listeners id)
      pure retained

/-- Answer one request, where code of the host program has its own requests
answered by `responder`. -/
def answer : Responder σ
  | .read id => engine.readOnce responder id
  | .write id update operand => engine.writeOnce responder id update operand

/-- Answer requests whose calls are nested at most `depth` levels deep. Deeper
ones have no result. -/
def respond : Nat → Responder σ
  | 0, _ => failure
  | depth + 1, request => engine.answer (respond depth) request

end Engine

end NumericRules
