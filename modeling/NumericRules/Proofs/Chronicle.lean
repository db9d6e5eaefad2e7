import NumericRules.Proofs.Journal

/-! # Chronicles of subscriptions

While scripts work on a store, it is recorded which watches begin and end, which
subscriptions a delivery of the store is going to call, and when it calls each of them. A
chronicle has all that happened up to some time, also in the middle of calls and also if
the run has no result. What is done to another store has no place in it.
-/

namespace NumericRules

/-- What a chronicle of a store records. A delivery is known by the place in the chronicle
where its list was taken. -/
inductive Event where
  /-- A watch begins, with new subscriptions. -/
  | begun (watch : WatchId) (keys : List SubscriptionKey)
  /-- A watch that was on is ended. -/
  | ended (watch : WatchId)
  /-- A delivery takes the list of the subscriptions that it is going to call. -/
  | listed (keys : List SubscriptionKey)
  /-- A delivery calls a subscription. -/
  | called (delivery : Nat) (key : SubscriptionKey)
deriving DecidableEq

/-- A run that adds to a chronicle. What is recorded stays recorded when there is no
result. -/
def Chronicled (σ α : Type) : Type :=
  World σ → List Event → Option (α × World σ) × List Event

namespace Chronicled

instance : Monad (Chronicled σ) where
  pure value := fun world events => (some (value, world), events)
  bind first next := fun world events =>
    match first world events with
    | (some (value, after), more) => next value after more
    | (none, more) => (none, more)

instance : MonadLift (Run σ) (Chronicled σ) where
  monadLift run := fun world events => (run world, events)

def note (event : Event) : Chronicled σ Unit := fun world events =>
  (some ((), world), events ++ [event])

/-- Record what a delivery is going to call. The answer is the place of the record. -/
def list (keys : List SubscriptionKey) : Chronicled σ Nat := fun world events =>
  (some (events.length, world), events ++ [.listed keys])

section Rules

variable (engine : Engine σ) (responder : Responder σ)
  (write : Identifier → Update → Binary64 → Chronicled σ Binary64)

def writeAll : List (Identifier × Binary64) → Chronicled σ Unit
  | [] => pure ()
  | (id, value) :: rest => do
      let _ ← write id .set value
      writeAll rest

def assignAll : List (Assignment Reference) → Chronicled σ Unit
  | [] => pure ()
  | assignment :: rest => do
      let operand ← responder.evaluate engine assignment.value
      let _ ← write assignment.target.id assignment.update operand
      assignAll rest

def runProcess (process : ProcessRule) (traced : Bool) : Chronicled σ Binary64 := do
  let pad ← (process.takePad : Run σ (Option SlotValues))
  let loaded ← ProcessRule.load responder.read ((pad.getD #[]).take 0) process.slots
  let final ← (ProcessRule.executeSteps engine.functions traced 1 loaded process.steps :
    Run σ SlotValues)
  if pad.isSome then (modify (·.setPad process.id (.idle final)) : Run σ Unit)
  writeAll write (process.changes loaded final)
  pure (final.value ProcessRule.resultSlot.number)

/-- Record the targets of a rule that a workstation executes, if they are tracked. -/
def produce (station : StationId) (rule : RuleId) (targets : List Identifier)
    (tracked : Bool) : Run σ Unit :=
  if tracked then Run.changeStore fun store => ((), store.produce station rule targets)
  else pure ()

/-- Watch a condition. Its subscriptions are recorded if the watch was not on. -/
def watch (station : StationId) (condition : ConditionRule) (callback : Script σ .writing) :
    Chronicled σ Unit := do
  let before ← (Run.store : Run σ (Store σ))
  Run.watch station condition callback
  let after ← (Run.store : Run σ (Store σ))
  let watch := condition.watchAt station
  if (before.keysOf watch).isNone then
    note (.begun watch (((after.keysOf watch).getD []).map Prod.snd))

/-- End a watch. This is recorded if the watch was on. -/
def unwatch (station : StationId) (condition : RuleId) : Chronicled σ Bool := do
  let ended ← (Run.changeStore (·.unwatch station condition) : Run σ Bool)
  if ended then note (.ended ⟨station, condition⟩)
  pure ended

/-- Carry out a script. -/
def play : Script σ access → Chronicled σ (Except String Binary64)
  | .finish outcome => pure outcome
  | .host update next => do
      let before ← Run.changeHost update
      play (next before)
  | .read id next => do
      let value ← responder.read id
      play (next value)
  | .stored id next => do
      let store ← (Run.store : Run σ (Store σ))
      play (next ((store.entry? id).map (·.value)))
  | .evaluate formula next => do
      let value ← responder.evaluate engine formula
      play (next value)
  | .check condition next => do
      let holds ← responder.check engine condition
      play (next holds)
  | .parse text next => do
      let result ← (engine.parseFormula text : Run σ (Except Error FormulaRule))
      play (next result)
  | .produced station next => do
      let store ← (Run.store : Run σ (Store σ))
      play (next (store.produced station))
  | .isWatching station condition next => do
      let store ← (Run.store : Run σ (Store σ))
      play (next (store.isWatching station condition))
  | .subscribe tier id callback next => do
      let key ← (Run.changeBus tier (·.add id callback) : Run σ SubscriptionKey)
      play (next key)
  | .unsubscribe tier id key next => do
      let removed ← (Run.changeBus tier (·.remove id key) : Run σ Bool)
      play (next removed)
  | .unsubscribeAll tier id next => do
      let count ← (Run.changeBus tier (·.removeAll id) : Run σ Nat)
      play (next count)
  | .clear tier next => do
      (Run.changeBus tier fun bus => ((), bus.clear) : Run σ Unit)
      play next
  | .elsewhere body next => do
      let outcome ← Journaled.playElsewhere engine responder body
      play (next outcome)
  | .write id update operand next => do
      let retained ← write id update operand
      play (next retained)
  | .reset range next => do
      let _ ← (Run.reset range : Run σ Binary64)
      play next
  | .execute operations next => do
      assignAll engine responder write operations.assignments
      play next
  | .run process traced next => do
      let result ← runProcess engine responder write process traced
      play (next result)
  | .workOperations station operations tracked next => do
      (produce station operations.id operations.targets tracked : Run σ Unit)
      assignAll engine responder write operations.assignments
      play next
  | .workProcess station process tracked next => do
      (produce station process.id process.targets tracked : Run σ Unit)
      let result ← runProcess engine responder write process engine.settings.traceSteps
      play (next result)
  | .watch station condition callback next => do
      watch station condition callback
      play next
  | .unwatch station condition next => do
      let ended ← unwatch station condition
      play (next ended)

/-- Run the listeners of a change in order, each after a mark for its subscription. -/
def deliver (change : Change) (mark : SubscriptionKey → Chronicled σ Unit) :
    List (Subscription σ) → Chronicled σ Unit
  | [] => pure ()
  | subscription :: rest => do
      mark subscription.key
      match ← play engine responder write (subscription.callback change) with
      | .ok _ => pure ()
      | .error message =>
          (Run.report (.listenerFailed change.id change.update message) : Run σ Unit)
      deliver change mark rest

def writeEntry (record : NameRecord σ) (update : Update) (operand : Binary64) :
    Chronicled σ Binary64 := do
  (Run.changeStore fun store => ((), store.touch record) : Run σ Unit)
  if record.cycle = .event then pure 0
  else match record.setHook with
    | some hook =>
        match ← play engine responder write (hook record.id update operand) with
        | .ok retained =>
            (Run.changeStore fun store => (retained, store.retain record.id retained) :
              Run σ Binary64)
        | .error message => do
            (Run.report (.setHookFailed record.id record.name message) : Run σ Unit)
            let store ← (Run.store : Run σ (Store σ))
            pure (store.stored record.id)
    | none => (Run.changeStore fun store =>
        if record.getHook.isSome then (store.stored record.id, store)
        else
          let value := record.bounds.clamp (update.apply (store.stored record.id) operand)
          (value, store.retain record.id value) : Run σ Binary64)

def writeOnce (id : Identifier) (update : Update) (operand : Binary64) :
    Chronicled σ Binary64 := do
  match engine.registry.record? id with
  | none => do
      (Run.report (.notRegistered id) : Run σ Unit)
      pure 0
  | some record =>
      let retained ←
        if id.isOrdered then
          (Run.changeStore (·.updateDense record update operand) : Run σ Binary64)
        else writeEntry engine responder write record update operand
      let change : Change := ⟨id, update, operand⟩
      let world ← (get : Run σ (World σ))
      deliver engine responder write change (fun _ => pure ()) (world.bus.subscriptions id)
      let world ← (get : Run σ (World σ))
      let delivery ← list ((world.store.bus.subscriptions id).map (·.key))
      deliver engine responder write change (fun key => note (.called delivery key))
        (world.store.bus.subscriptions id)
      pure retained

end Rules

/-- Change a name with calls that are nested at most `depth` levels deep. -/
def write (engine : Engine σ) : Nat → Identifier → Update → Binary64 → Chronicled σ Binary64
  | 0, _, _, _ => (failure : Run σ Binary64)
  | depth + 1, id, update, operand =>
      writeOnce engine (engine.respond depth) (write engine depth) id update operand

end Chronicled

/-- Carry out a script and go on with the chronicle of the store. -/
def Script.chronicle (engine : Engine σ) (depth : Nat) (script : Script σ access) :
    Chronicled σ (Except String Binary64) :=
  Chronicled.play engine (engine.respond depth) (Chronicled.write engine depth) script

end NumericRules
