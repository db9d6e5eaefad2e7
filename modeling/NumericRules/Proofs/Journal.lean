import NumericRules.Proofs.Acts

/-! # Journals of stores

What is asked of a store is written down while it is carried out: changes of names,
resets, and rules that workstations execute, each when it begins. Reading is not written
down, nor what is done to another store.
-/

namespace NumericRules

/-! ## Keeping a journal -/

/-- A run that keeps a journal. -/
abbrev Journaled (σ α : Type) : Type := StateT (List Act) (Run σ) α

namespace Journaled

def note (act : Act) : Journaled σ Unit := modify (· ++ [act])

section Rules

variable (engine : Engine σ) (responder : Responder σ)
  (write : Identifier → Update → Binary64 → Journaled σ Binary64)

def writeAll : List (Identifier × Binary64) → Journaled σ Unit
  | [] => pure ()
  | (id, value) :: rest => do
      let _ ← write id .set value
      writeAll rest

def assignAll : List (Assignment Reference) → Journaled σ Unit
  | [] => pure ()
  | assignment :: rest => do
      let operand ← responder.evaluate engine assignment.value
      let _ ← write assignment.target.id assignment.update operand
      assignAll rest

def runProcess (process : ProcessRule) (traced : Bool) : Journaled σ Binary64 := do
  let pad ← (process.takePad : Run σ (Option SlotValues))
  let loaded ← ProcessRule.load responder.read ((pad.getD #[]).take 0) process.slots
  let final ← (ProcessRule.executeSteps engine.functions traced 1 loaded process.steps :
    Run σ SlotValues)
  if pad.isSome then (modify (·.setPad process.id (.idle final)) : Run σ Unit)
  writeAll write (process.changes loaded final)
  pure (final.value ProcessRule.resultSlot.number)

/-- Note that a rule is executed, and record its targets if it is tracked. -/
def beginWork (station : StationId) (rule : RuleId) (targets : List Identifier)
    (tracked : Bool) : Journaled σ Unit := do
  note (.work station rule targets tracked)
  if tracked then
    (Run.changeStore fun store => ((), store.produce station rule targets) : Run σ Unit)

def reset (range : ResetRange) : Journaled σ Binary64 := do
  let store ← (Run.store : Run σ (Store σ))
  note (.reset (range.identifiers store))
  (Run.reset range : Run σ Binary64)

/-- Carry out a script against a new store, which has a journal of its own. -/
def playElsewhere (body : Script σ .writing) : Run σ (Except String Binary64) := do
  let store ← Run.store
  Run.changeStore fun _ => ((), Store.new engine.registry)
  let outcome ← body.play engine responder
  Run.changeStore fun _ => ((), store)
  pure outcome

/-- Carry out a script. -/
def play : Script σ access → Journaled σ (Except String Binary64)
  | .finish outcome => pure outcome
  | .host update next => do
      let before ← Run.changeHost update
      play (next before)
  | .read id next => do
      let value ← responder.read id
      play (next value)
  | .stored id next => do
      let store ← (Run.store : Run σ (Store σ))
      play (next ((store.entry? id).map (·.value)))
  | .evaluate formula next => do
      let value ← responder.evaluate engine formula
      play (next value)
  | .check condition next => do
      let holds ← responder.check engine condition
      play (next holds)
  | .parse text next => do
      let result ← (engine.parseFormula text : Run σ (Except Error FormulaRule))
      play (next result)
  | .produced station next => do
      let store ← (Run.store : Run σ (Store σ))
      play (next (store.produced station))
  | .isWatching station condition next => do
      let store ← (Run.store : Run σ (Store σ))
      play (next (store.isWatching station condition))
  | .subscribe tier id callback next => do
      let key ← (Run.changeBus tier (·.add id callback) : Run σ SubscriptionKey)
      play (next key)
  | .unsubscribe tier id key next => do
      let removed ← (Run.changeBus tier (·.remove id key) : Run σ Bool)
      play (next removed)
  | .unsubscribeAll tier id next => do
      let count ← (Run.changeBus tier (·.removeAll id) : Run σ Nat)
      play (next count)
  | .clear tier next => do
      (Run.changeBus tier fun bus => ((), bus.clear) : Run σ Unit)
      play next
  | .elsewhere body next => do
      let outcome ← playElsewhere engine responder body
      play (next outcome)
  | .write id update operand next => do
      let retained ← write id update operand
      play (next retained)
  | .reset range next => do
      let _ ← reset range
      play next
  | .execute operations next => do
      assignAll engine responder write operations.assignments
      play next
  | .run process traced next => do
      let result ← runProcess engine responder write process traced
      play (next result)
  | .workOperations station operations tracked next => do
      beginWork station operations.id operations.targets tracked
      assignAll engine responder write operations.assignments
      play next
  | .workProcess station process tracked next => do
      beginWork station process.id process.targets tracked
      let result ← runProcess engine responder write process engine.settings.traceSteps
      play (next result)
  | .watch station condition callback next => do
      (Run.watch station condition callback : Run σ Unit)
      play next
  | .unwatch station condition next => do
      let ended ← (Run.changeStore (·.unwatch station condition) : Run σ Bool)
      play (next ended)

def deliver (change : Change) : List (Listener σ) → Journaled σ Unit
  | [] => pure ()
  | listener :: rest => do
      match ← play engine responder write (listener change) with
      | .ok _ => pure ()
      | .error message =>
          (Run.report (.listenerFailed change.id change.update message) : Run σ Unit)
      deliver change rest

def writeEntry (record : NameRecord σ) (update : Update) (operand : Binary64) :
    Journaled σ Binary64 := do
  (Run.changeStore fun store => ((), store.touch record) : Run σ Unit)
  if record.cycle = .event then pure 0
  else match record.setHook with
    | some hook =>
        match ← play engine responder write (hook record.id update operand) with
        | .ok retained =>
            (Run.changeStore fun store => (retained, store.retain record.id retained) :
              Run σ Binary64)
        | .error message => do
            (Run.report (.setHookFailed record.id record.name message) : Run σ Unit)
            let store ← (Run.store : Run σ (Store σ))
            pure (store.stored record.id)
    | none => (Run.changeStore fun store =>
        if record.getHook.isSome then (store.stored record.id, store)
        else
          let value := record.bounds.clamp (update.apply (store.stored record.id) operand)
          (value, store.retain record.id value) : Run σ Binary64)

def writeOnce (id : Identifier) (update : Update) (operand : Binary64) :
    Journaled σ Binary64 := do
  note (.write id)
  match engine.registry.record? id with
  | none => do
      (Run.report (.notRegistered id) : Run σ Unit)
      pure 0
  | some record =>
      let retained ←
        if id.isOrdered then
          (Run.changeStore (·.updateDense record update operand) : Run σ Binary64)
        else writeEntry engine responder write record update operand
      let change : Change := ⟨id, update, operand⟩
      let world ← (get : Run σ (World σ))
      deliver engine responder write change (world.bus.listeners id)
      let world ← (get : Run σ (World σ))
      deliver engine responder write change (world.store.bus.listeners id)
      pure retained

end Rules

/-- Change a name with calls that are nested at most `depth` levels deep. -/
def write (engine : Engine σ) : Nat → Identifier → Update → Binary64 → Journaled σ Binary64
  | 0, _, _, _ => (failure : Run σ Binary64)
  | depth + 1, id, update, operand =>
      writeOnce engine (engine.respond depth) (write engine depth) id update operand

end Journaled

/-- Carry out a script and keep the journal of the store. -/
def Script.journal (engine : Engine σ) (depth : Nat) (script : Script σ access) :
    Journaled σ (Except String Binary64) :=
  Journaled.play engine (engine.respond depth) (Journaled.write engine depth) script

/-! ## What only reads -/

/-- Values and memories are the same. -/
def World.Unchanged (before after : World σ) : Prop :=
  after.store.dense = before.store.dense ∧ after.store.entries = before.store.entries ∧
    after.store.byCycle = before.store.byCycle ∧ after.store.logs = before.store.logs

theorem World.steady_unchanged : Run.Steady (World.Unchanged (σ := σ)) where
  trans earlier later := ⟨later.1.trans earlier.1, later.2.1.trans earlier.2.1,
    later.2.2.1.trans earlier.2.2.1, later.2.2.2.trans earlier.2.2.2⟩
  beside same _ := by
    rw [Unchanged, same]
    exact ⟨rfl, rfl, rfl, rfl⟩

theorem World.Unchanged.explained {exempt : Identifier → Prop} {before after : World σ}
    (unchanged : before.Unchanged after) :
    Store.Explained exempt [] before.store after.store :=
  .of_eq unchanged.1 unchanged.2.1 unchanged.2.2.2

open World (Unchanged steady_unchanged)

theorem Run.changeBus_unchanged (tier : Tier) (change : Bus σ → α × Bus σ) :
    (Run.changeBus tier change).Respects Unchanged := by
  intro world value after outcome
  cases outcome
  cases tier <;> exact ⟨rfl, rfl, rfl, rfl⟩

theorem World.tolerant_unchanged : Run.Tolerant (Unchanged (σ := σ)) where
  toSteady := steady_unchanged
  subscribe tier _ _ := Run.changeBus_unchanged tier _
  unsubscribe tier _ _ := Run.changeBus_unchanged tier _
  unsubscribeAll tier _ := Run.changeBus_unchanged tier _
  clear tier := Run.changeBus_unchanged tier _

/-- The store is put aside and back. -/
theorem Journaled.playElsewhere_store {engine : Engine σ} {responder : Responder σ}
    {body : Script σ .writing} {world after : World σ} {value : Except String Binary64}
    (outcome : Journaled.playElsewhere engine responder body world = some (value, after)) :
    after.store = world.store := by
  rcases Run.bind_eq_some outcome with ⟨_, _, looked, outcome⟩
  cases looked
  rcases Run.bind_eq_some outcome with ⟨_, _, _, outcome⟩
  rcases Run.bind_eq_some outcome with ⟨result, _, _, outcome⟩
  rcases Run.bind_eq_some outcome with ⟨_, _, restored, outcome⟩
  cases restored
  cases outcome
  rfl

theorem World.Unchanged.of_store {before after : World σ} (same : after.store = before.store) :
    before.Unchanged after := by
  rw [Unchanged, same]
  exact ⟨rfl, rfl, rfl, rfl⟩

theorem Script.play_elsewhere (engine : Engine σ) (responder : Responder σ)
    (body : Script σ .writing) (next : Except String Binary64 → Script σ access) :
    (Script.elsewhere body next).play engine responder =
      (Journaled.playElsewhere engine responder body >>= fun outcome =>
        (next outcome).play engine responder) := by
  simp only [Script.play, Journaled.playElsewhere, bind_assoc, pure_bind]

section Reading

variable {engine : Engine σ} {responder : Responder σ} {relation : World σ → World σ → Prop}

/-- A scope of a reader that keeps to a relation. -/
theorem Responder.scope_reads (reads : ∀ id, (responder (.read id)).Respects relation) :
    responder.scope.Respects relation where
  name reference := reads reference.id
  identifier := reads

variable (tolerant : Run.Tolerant relation)
  (back : ∀ {before after : World σ}, after.store = before.store → relation before after)

include tolerant back

/-- Reading scripts keep to relations that need not hold across changes of values. -/
theorem Script.play_reads (reads : ∀ id, (responder (.read id)).Respects relation)
    (script : Script σ access) (reading : access = .reading) :
    (script.play engine responder).Respects relation := by
  have steady := tolerant.toSteady
  have scope := Responder.scope_reads reads
  induction script with
  | finish outcome => exact steady.ofPure outcome
  | host update next induction =>
      exact steady.ofBind (steady.ofChangeHost update) fun _ => induction _ reading
  | read id next induction => exact steady.ofBind (reads id) fun _ => induction _ reading
  | stored id next induction => exact steady.ofBind steady.ofStore fun _ => induction _ reading
  | evaluate formula next induction =>
      exact steady.ofBind (formula.evaluate_respects steady scope) fun _ => induction _ reading
  | check condition next induction =>
      exact steady.ofBind (condition.check_respects steady scope) fun _ => induction _ reading
  | parse text next induction =>
      exact steady.ofBind (steady.ofNumbered _ _) fun _ => induction _ reading
  | produced station next induction =>
      exact steady.ofBind steady.ofStore fun _ => induction _ reading
  | isWatching station condition next induction =>
      exact steady.ofBind steady.ofStore fun _ => induction _ reading
  | subscribe tier id callback next _ induction =>
      exact steady.ofBind (tolerant.subscribe tier id callback) fun _ => induction _ reading
  | unsubscribe tier id key next induction =>
      exact steady.ofBind (tolerant.unsubscribe tier id key) fun _ => induction _ reading
  | unsubscribeAll tier id next induction =>
      exact steady.ofBind (tolerant.unsubscribeAll tier id) fun _ => induction _ reading
  | clear tier next induction =>
      exact steady.ofBind (tolerant.clear tier) fun _ => induction reading
  | elsewhere body next _ induction =>
      rw [Script.play_elsewhere]
      exact steady.ofBind (fun _ _ _ ran => back (Journaled.playElsewhere_store ran)) fun _ =>
        induction _ reading
  | write | reset | execute | run | workOperations | workProcess | watch | unwatch =>
      cases reading

/-- However deep its calls are nested, reading a name keeps to such relations. -/
theorem Engine.read_respects (engine : Engine σ) (depth : Nat) (id : Identifier) :
    (engine.respond depth (.read id)).Respects relation := by
  induction depth generalizing id with
  | zero => exact fun _ _ _ outcome => nomatch outcome
  | succ depth induction =>
      exact readOnce_respects tolerant.toSteady fun _ hook _ _ =>
        Script.play_reads tolerant back induction (hook id) rfl

end Reading

/-- However deep its calls are nested, reading a name changes no values and no memories. -/
theorem Engine.read_unchanged (engine : Engine σ) (depth : Nat) (id : Identifier) :
    (engine.respond depth (.read id)).Respects Unchanged :=
  engine.read_respects World.tolerant_unchanged World.Unchanged.of_store depth id

end NumericRules
