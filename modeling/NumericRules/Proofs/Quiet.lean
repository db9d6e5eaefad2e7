import NumericRules.Proofs.Watches

/-! # Code that leaves subscriptions alone

A script is quiet if it neither subscribes nor watches nor ends either, and if it asks
for changes of the store only where it may. While all code of the host program is
quiet, whatever is asked of a store keeps its subscriptions and its watches, and what
only reads keeps the whole store.
-/

namespace NumericRules

namespace Script

/-- The script leaves subscriptions and watches alone, and so do the listeners of its
own. Unless it may write, it leaves all values of the store alone. -/
def Quiet : Script σ access → Access → Prop
  | .finish _, _ => True
  | .host _ next, may => ∀ before, (next before).Quiet may
  | .read _ next, may => ∀ value, (next value).Quiet may
  | .stored _ next, may => ∀ value, (next value).Quiet may
  | .evaluate _ next, may => ∀ value, (next value).Quiet may
  | .check _ next, may => ∀ holds, (next holds).Quiet may
  | .parse _ next, may => ∀ result, (next result).Quiet may
  | .produced _ next, may => ∀ ids, (next ids).Quiet may
  | .isWatching _ _ next, may => ∀ watching, (next watching).Quiet may
  | .subscribe _ _ _ _, _ => False
  | .unsubscribe _ _ _ _, _ => False
  | .unsubscribeAll _ _ _, _ => False
  | .clear _ _, _ => False
  | .elsewhere body next, may => body.Quiet .writing ∧ ∀ outcome, (next outcome).Quiet may
  | .write _ _ _ next, may => may = .writing ∧ ∀ retained, (next retained).Quiet may
  | .reset _ next, may => may = .writing ∧ next.Quiet may
  | .execute _ next, may => may = .writing ∧ next.Quiet may
  | .run _ _ next, may => may = .writing ∧ ∀ result, (next result).Quiet may
  | .workOperations _ _ _ next, may => may = .writing ∧ next.Quiet may
  | .workProcess _ _ _ next, may => may = .writing ∧ ∀ result, (next result).Quiet may
  | .watch _ _ _ _, _ => False
  | .unwatch _ _ _, _ => False

/-- What only reads may as well write. -/
theorem Quiet.of_reading {script : Script σ access} {may : Access}
    (silent : script.Quiet .reading) : script.Quiet may := by
  induction script with
  | finish => trivial
  | host _ _ induction | read _ _ induction | stored _ _ induction | evaluate _ _ induction
  | check _ _ induction | parse _ _ induction | produced _ _ induction
  | isWatching _ _ _ induction => exact fun answer => induction answer (silent answer)
  | subscribe | unsubscribe | unsubscribeAll | clear | watch | unwatch => exact silent.elim
  | elsewhere _ _ _ induction =>
      exact ⟨silent.1, fun outcome => induction outcome (silent.2 outcome)⟩
  | write | reset | execute | run | workOperations | workProcess => cases silent.1

end Script

/-- The listener of a watch is as quiet as what it calls. -/
theorem watcher_quiet {condition : Condition Reference} {callback : Script σ .writing}
    {may : Access} (quiet : callback.Quiet may) (change : Change) :
    (watcher condition callback change).Quiet may := by
  intro holds
  cases holds with
  | true => exact quiet
  | false => exact trivial

/-- The hooks of the engine are quiet, and those that serve readers only read. -/
structure Engine.Quiet (engine : Engine σ) : Prop where
  getHook : ∀ id record hook, engine.registry.record? id = some record →
    record.getHook = some hook → (hook id).Quiet .reading
  setHook : ∀ record hook, engine.registry.record? record.id = some record →
    record.setHook = some hook → ∀ update operand, (hook record.id update operand).Quiet .writing

/-- Nobody listens at the bus. -/
def Bus.Silent (bus : Bus σ) : Prop := ∀ id, bus.listeners id = []

namespace World

/-- Nobody listens at the engine, and the listeners at the store are quiet and only
read. -/
structure Calm (world : World σ) : Prop where
  engine : world.bus.Silent
  store : ∀ id, ∀ listener ∈ world.store.bus.listeners id, ∀ change,
    (listener change).Quiet .reading

/-- From a calm state on, subscriptions and watches are kept, and the whole store by
what only reads. -/
structure KeptFrom (may : Access) (before after : World σ) : Prop where
  bus : after.bus = before.bus
  storeBus : after.store.bus = before.store.bus
  watches : after.store.keysOf = before.store.keysOf
  store : may = .reading → after.store = before.store

/-- From states with the condition on they are kept. -/
def KeepsIf (condition : World σ → Prop) (may : Access) (before after : World σ) : Prop :=
  condition before → KeptFrom may before after

def Keeps (may : Access) (before after : World σ) : Prop :=
  before.Calm → KeptFrom may before after

/-- The condition holds on while they are kept, and of stores without subscriptions. -/
structure Lasting (condition : World σ → Prop) : Prop where
  kept : ∀ {may before after}, condition before → KeptFrom may before after → condition after
  new : ∀ {world} (registry : Registry σ), condition world →
    condition { world with store := .new registry }

variable {condition : World σ → Prop} {before after : World σ} {may : Access}

theorem Calm.kept (calm : before.Calm) (kept : KeptFrom may before after) : after.Calm where
  engine := kept.bus ▸ calm.engine
  store := kept.storeBus ▸ calm.store

theorem lasting_calm : Lasting (Calm (σ := σ)) where
  kept := Calm.kept
  new _ calm := ⟨calm.engine, fun _ _ member => nomatch member⟩

theorem KeepsIf.of_reading (keeps : KeepsIf condition .reading before after) :
    KeepsIf condition may before after :=
  fun holds =>
    let kept := keeps holds
    ⟨kept.bus, kept.storeBus, kept.watches, fun _ => kept.store rfl⟩

theorem steady_keepsIf (lasting : Lasting condition) (may : Access) :
    Run.Steady (KeepsIf condition may) where
  trans earlier later holds := by
    have first := earlier holds
    have second := later (lasting.kept holds first)
    exact ⟨second.bus.trans first.bus, second.storeBus.trans first.storeBus,
      second.watches.trans first.watches,
      fun reading => (second.store reading).trans (first.store reading)⟩
  beside store bus _ := ⟨bus, by rw [store], by rw [store], fun _ => store⟩

theorem steady_keeps (may : Access) : Run.Steady (Keeps (σ := σ) may) :=
  steady_keepsIf lasting_calm may

theorem keepsIf_store {world : World σ} {store : Store σ} (bus : store.bus = world.store.bus)
    (watches : store.keysOf = world.store.keysOf) :
    KeepsIf condition .writing world { world with store } :=
  fun _ => ⟨rfl, bus, watches, fun reading => nomatch reading⟩

end World

open World (Keeps KeepsIf Lasting steady_keeps steady_keepsIf lasting_calm)

/-! ## Resets -/

/-- A reset restores the initial values of the entries that it covers. -/
theorem Store.resetEach_entries (store : Store σ) (ids : List Identifier) :
    store.resetEach ids = { store with
      entries := store.entries.map fun entry =>
        if entry.record.id ∈ ids then entry.reset else entry } := by
  induction ids generalizing store with
  | nil =>
      have same : (fun entry : Entry σ => if entry.record.id ∈ [] then entry.reset else entry) =
          id := by
        funext entry
        exact if_neg List.not_mem_nil
      rw [same, List.map_id]
      rfl
  | cons key rest induction =>
      rw [Store.resetEach, induction, Store.updateEntry]
      simp only [List.map_map]
      congr 2
      funext entry
      by_cases first : entry.record.id = key
      · by_cases again : key ∈ rest <;> simp [first, again, Entry.reset, Entry.initial]
      · simp [first]

/-- A reset changes entries and nothing else. -/
theorem Run.reset_eq (range : ResetRange) (world : World σ) :
    ∃ value entries, Run.reset range world =
      some (value, { world with store := { world.store with entries } }) := by
  have covered (ids : List Identifier) :=
    congrArg (fun store => some ((0 : Binary64), { world with store }))
      (world.store.resetEach_entries ids)
  cases range with
  | identifier id => exact ⟨_, _, rfl⟩
  | cycle cycle => exact ⟨0, _, covered (world.store.byCycle cycle)⟩
  | all => exact ⟨_, _, rfl⟩
  | produced station => exact ⟨0, _, covered (world.store.produced station)⟩

theorem Run.reset_keepsIf {condition : World σ → Prop} (range : ResetRange) :
    (Run.reset range : Run σ Binary64).Respects (KeepsIf condition .writing) := by
  intro world value after outcome
  rcases Run.reset_eq range world with ⟨_, entries, run⟩
  cases outcome.symm.trans run
  exact World.keepsIf_store rfl rfl

/-! ## Scripts -/

/-- Reading keeps the store, and writing keeps its subscriptions and watches. -/
structure Responder.QuietIf (condition : World σ → Prop) (responder : Responder σ) : Prop where
  read : ∀ id, (responder (.read id)).Respects (KeepsIf condition .reading)
  write : ∀ id update operand,
    (responder (.write id update operand)).Respects (KeepsIf condition .writing)

structure Responder.Quiet (responder : Responder σ) : Prop where
  read : ∀ id, (responder (.read id)).Respects (Keeps .reading)
  write : ∀ id update operand, (responder (.write id update operand)).Respects (Keeps .writing)

section Scripts

variable {engine : Engine σ} {responder : Responder σ} {condition : World σ → Prop}

theorem Responder.QuietIf.scope (quiet : responder.QuietIf condition) (may : Access) :
    responder.scope.Respects (KeepsIf condition may) where
  name reference world value after outcome :=
    (quiet.read reference.id world value after outcome).of_reading
  identifier id world value after outcome := (quiet.read id world value after outcome).of_reading

theorem Responder.QuietIf.respects (quiet : responder.QuietIf condition) :
    responder.Respects (KeepsIf condition .writing)
  | .read id, world, value, after, outcome => (quiet.read id world value after outcome).of_reading
  | .write id update operand, world, value, after, outcome =>
      quiet.write id update operand world value after outcome

theorem Responder.Quiet.quietIf (quiet : responder.Quiet) : responder.QuietIf World.Calm :=
  ⟨quiet.read, quiet.write⟩

theorem Responder.Quiet.scope (quiet : responder.Quiet) (may : Access) :
    responder.scope.Respects (Keeps may) := quiet.quietIf.scope may

theorem Responder.Quiet.respects (quiet : responder.Quiet) :
    responder.Respects (Keeps .writing) := quiet.quietIf.respects

theorem World.produce_keepsIf (station : StationId) (world : World σ) (rule : RuleId)
    (targets : List Identifier) :
    KeepsIf condition .writing world
      { world with store := world.store.produce station rule targets } :=
  World.keepsIf_store rfl (funext (world.store.keysOf_produce station rule targets))

/-- A quiet script keeps what it must, if its requests are answered so. -/
theorem Script.play_keepsIf (lasting : Lasting condition) (quiet : responder.QuietIf condition)
    (script : Script σ access) {may : Access} (silent : script.Quiet may) :
    (script.play engine responder).Respects (KeepsIf condition may) := by
  have steady (may : Access) := steady_keepsIf lasting may
  induction script generalizing may with
  | finish outcome => exact (steady may).ofPure outcome
  | host update next induction =>
      exact (steady may).ofBind ((steady may).ofChangeHost update) fun before =>
        induction before (silent before)
  | read id next induction =>
      exact (steady may).ofBind ((quiet.scope may).identifier id) fun value =>
        induction value (silent value)
  | stored id next induction =>
      exact (steady may).ofBind (steady may).ofStore fun _ => induction _ (silent _)
  | evaluate formula next induction =>
      exact (steady may).ofBind (formula.evaluate_respects (steady may) (quiet.scope may))
        fun value => induction value (silent value)
  | check condition next induction =>
      exact (steady may).ofBind (condition.check_respects (steady may) (quiet.scope may))
        fun holds => induction holds (silent holds)
  | parse text next induction =>
      exact (steady may).ofBind ((steady may).ofNumbered _ _) fun result =>
        induction result (silent result)
  | produced station next induction =>
      exact (steady may).ofBind (steady may).ofStore fun _ => induction _ (silent _)
  | isWatching station condition next induction =>
      exact (steady may).ofBind (steady may).ofStore fun _ => induction _ (silent _)
  | subscribe | unsubscribe | unsubscribeAll | clear | watch | unwatch => exact silent.elim
  | elsewhere body next ofBody ofNext =>
      -- the store is put aside and back
      intro world value after outcome holds
      rcases Run.bind_eq_some outcome with ⟨_, _, looked, outcome⟩
      cases looked
      rcases Run.bind_eq_some outcome with ⟨_, _, replaced, outcome⟩
      cases replaced
      rcases Run.bind_eq_some outcome with ⟨result, last, played, outcome⟩
      rcases Run.bind_eq_some outcome with ⟨_, _, restored, outcome⟩
      cases restored
      have kept := ofBody silent.1 _ result last played (lasting.new engine.registry holds)
      have back : World.KeptFrom may world { last with store := world.store } :=
        ⟨kept.bus, rfl, rfl, fun _ => rfl⟩
      have later := ofNext result (silent.2 result) _ value after outcome
      exact (steady may).trans (fun _ => back) later holds
  | write id update operand next induction =>
      rcases silent with ⟨rfl, silent⟩
      exact (steady .writing).ofBind (quiet.write id update operand) fun retained =>
        induction retained (silent retained)
  | reset range next induction =>
      rcases silent with ⟨rfl, silent⟩
      exact (steady .writing).ofBind (Run.reset_keepsIf range) fun _ => induction silent
  | execute operations next induction =>
      rcases silent with ⟨rfl, silent⟩
      have assigned := Responder.assignAll_respects (steady .writing) quiet.respects engine
        operations.assignments
      exact (steady .writing).ofBind assigned fun _ => induction silent
  | run process traced next induction =>
      rcases silent with ⟨rfl, silent⟩
      have ran := Responder.runProcess_respects (steady .writing) quiet.respects engine process
        traced
      exact (steady .writing).ofBind ran fun result => induction result (silent result)
  | workOperations station operations tracked next induction =>
      rcases silent with ⟨rfl, silent⟩
      exact (steady .writing).ofBind (Responder.workOperations_respects (steady .writing)
        quiet.respects (World.produce_keepsIf station) engine operations tracked) fun _ =>
          induction silent
  | workProcess station process tracked next induction =>
      rcases silent with ⟨rfl, silent⟩
      exact (steady .writing).ofBind (Responder.workProcess_respects (steady .writing)
        quiet.respects (World.produce_keepsIf station) engine process tracked) fun result =>
          induction result (silent result)

theorem Script.play_keeps (quiet : responder.Quiet) (script : Script σ access) {may : Access}
    (silent : script.Quiet may) : (script.play engine responder).Respects (Keeps may) :=
  script.play_keepsIf lasting_calm quiet.quietIf silent

end Scripts

/-! ## Requests -/

namespace Engine

variable {engine : Engine σ} {responder : Responder σ}

/-- The part of a write that comes before its listeners are told. -/
def keep (engine : Engine σ) (responder : Responder σ) (record : NameRecord σ)
    (update : Update) (operand : Binary64) : Run σ Binary64 :=
  if record.id.isOrdered then Run.changeStore (·.updateDense record update operand)
  else engine.writeEntry responder record update operand

theorem writeOnce_eq {id : Identifier} {record : NameRecord σ}
    (known : engine.registry.record? id = some record) (update : Update) (operand : Binary64) :
    engine.writeOnce responder id update operand = (do
      let retained ← engine.keep responder record update operand
      let world ← get
      engine.deliver responder ⟨id, update, operand⟩ (world.bus.listeners id)
      let world ← get
      engine.deliver responder ⟨id, update, operand⟩ (world.store.bus.listeners id)
      pure retained) := by
  have isId := record?_id known
  subst isId
  simp only [writeOnce, known, keep]
  split <;> rfl

/-- What a write does before its listeners are told keeps to a relation that holds across
changes of values, if the set hook of the name does. -/
theorem keep_respects {relation : World σ → World σ → Prop} (steady : Run.Steady relation)
    (values : ∀ (world : World σ) (store : Store σ), store.bus = world.store.bus →
      store.logs = world.store.logs → relation world { world with store })
    {record : NameRecord σ} {update : Update} {operand : Binary64}
    (hooks : ∀ hook, record.setHook = some hook →
      ((hook record.id update operand).play engine responder).Respects relation) :
    (engine.keep responder record update operand).Respects relation := by
  have touch : (Run.changeStore fun store => ((), store.touch record) : Run σ Unit).Respects
      relation :=
    Run.respects_changeStore fun world =>
      values world _ (world.store.bus_touch record) (world.store.logs_touch record)
  rw [keep]
  split
  · refine Run.respects_changeStore fun world => ?_
    rw [Store.updateDense_snd]
    exact values world _ rfl rfl
  · refine steady.ofBind touch fun _ => ?_
    split
    · exact steady.ofPure 0
    · split
      · rename_i hook hooked
        refine steady.ofBind (hooks hook hooked) fun outcome => ?_
        cases outcome with
        | ok retained => exact Run.respects_changeStore fun world => values world _ rfl rfl
        | error message =>
            exact steady.ofBind (steady.ofReport _) fun _ =>
              steady.ofBind steady.ofStore fun _ => steady.ofPure _
      · refine Run.respects_changeStore fun world => ?_
        split
        · exact values world _ rfl rfl
        · exact values world _ rfl rfl

section Quiet

variable {condition : World σ → Prop} (lasting : Lasting condition) (quiet : engine.Quiet)
  (answers : responder.QuietIf condition)

include lasting answers

/-- Quiet listeners are told of a change. -/
theorem deliver_keepsIf {change : Change} {listeners : List (Listener σ)} {may : Access}
    (silent : ∀ listener ∈ listeners, (listener change).Quiet may) :
    (engine.deliver responder change listeners).Respects (KeepsIf condition may) :=
  deliver_respects (steady_keepsIf lasting may) fun listener member =>
    Script.play_keepsIf lasting answers _ (silent listener member)

theorem tell_keepsIf
    (heard : ∀ world, condition world → ∀ tier id, ∀ listener ∈ (world.busAt tier).listeners id,
      ∀ change, (listener change).Quiet .writing) (change : Change) (retained : Binary64) : (do
    let world ← get
    engine.deliver responder change (world.bus.listeners change.id)
    let world ← get
    engine.deliver responder change (world.store.bus.listeners change.id)
    pure retained : Run σ Binary64).Respects (KeepsIf condition .writing) := by
  have tells (tier : Tier) : (get >>= fun world : World σ =>
      engine.deliver responder change ((world.busAt tier).listeners change.id)).Respects
        (KeepsIf condition .writing) := by
    intro world value after outcome holds
    have silent := heard world holds tier change.id
    exact deliver_keepsIf lasting answers (fun listener member => silent listener member change)
      world value after outcome holds
  have steady := steady_keepsIf lasting .writing
  have both := steady.ofBind (tells .engine) fun _ =>
    steady.ofBind (tells .store) fun _ => steady.ofPure retained
  simpa only [bind_assoc, World.busAt] using both

include quiet

theorem keep_keepsIf {record : NameRecord σ}
    (known : engine.registry.record? record.id = some record) (update : Update)
    (operand : Binary64) :
    (engine.keep responder record update operand).Respects (KeepsIf condition .writing) := by
  refine keep_respects (steady_keepsIf lasting .writing) (fun world store bus logs => ?_)
    fun hook hooked => ?_
  · exact World.keepsIf_store bus (funext fun watch => by rw [Store.keysOf, Store.logOf, logs]; rfl)
  · exact Script.play_keepsIf lasting answers _
      (quiet.setHook record hook known hooked update operand)

theorem readOnce_keepsIf (id : Identifier) :
    (engine.readOnce responder id).Respects (KeepsIf condition .reading) :=
  readOnce_respects (steady_keepsIf lasting .reading) fun record hook known hooked =>
    Script.play_keepsIf lasting answers _ (quiet.getHook id record hook known hooked)

theorem writeOnce_keepsIf
    (heard : ∀ world, condition world → ∀ tier id, ∀ listener ∈ (world.busAt tier).listeners id,
      ∀ change, (listener change).Quiet .writing)
    (id : Identifier) (update : Update) (operand : Binary64) :
    (engine.writeOnce responder id update operand).Respects (KeepsIf condition .writing) := by
  have steady := steady_keepsIf lasting .writing
  cases known : engine.registry.record? id with
  | none =>
      simp only [writeOnce, known]
      exact steady.ofBind (steady.ofReport _) fun _ => steady.ofPure 0
  | some record =>
      rw [writeOnce_eq known]
      refine steady.ofBind (keep_keepsIf lasting quiet answers (record?_id known ▸ known) update
        operand) fun retained => ?_
      exact tell_keepsIf lasting answers heard ⟨id, update, operand⟩ retained

omit answers in
/-- However deep its calls are nested, a request keeps what it must while all listeners are
quiet. -/
theorem respond_quietIf
    (heard : ∀ world, condition world → ∀ tier id, ∀ listener ∈ (world.busAt tier).listeners id,
      ∀ change, (listener change).Quiet .writing) (depth : Nat) :
    (engine.respond depth).QuietIf condition := by
  induction depth with
  | zero =>
      constructor
      · exact fun _ _ _ _ outcome => nomatch outcome
      · exact fun _ _ _ _ _ _ outcome => nomatch outcome
  | succ depth induction =>
      exact ⟨fun id => readOnce_keepsIf lasting quiet induction id,
        fun id update operand => writeOnce_keepsIf lasting quiet induction heard id update operand⟩

end Quiet

theorem keep_keeps (quiet : engine.Quiet) (answers : responder.Quiet) {record : NameRecord σ}
    (known : engine.registry.record? record.id = some record) (update : Update)
    (operand : Binary64) :
    (engine.keep responder record update operand).Respects (Keeps .writing) :=
  keep_keepsIf lasting_calm quiet answers.quietIf known update operand

theorem respond_quiet (quiet : engine.Quiet) (depth : Nat) : (engine.respond depth).Quiet := by
  have answers := respond_quietIf lasting_calm quiet (fun world calm tier id listener member =>
    match tier with
    | .engine => by rw [World.busAt, calm.engine id] at member; cases member
    | .store => fun change => (calm.store id listener member change).of_reading) depth
  exact ⟨answers.read, answers.write⟩

end Engine

end NumericRules
