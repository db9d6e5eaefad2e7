import NumericRules.Proofs.InstalledWatches

/-! # Calls of watched conditions

A write checks the watches that refer to its identifier once, in the order they were
installed, against the store it has left behind, and calls those that hold. It does so
however it is issued.
-/

namespace NumericRules

open World (steady_keeps Keeps)

/-! ## Calls -/

namespace Engine

/-- Call a watch whose condition holds. A failing callback is logged. -/
def callIf (engine : Engine σ) (responder : Responder σ) (change : Change)
    (watch : InstalledWatch σ) (holds : Bool) : Run σ Unit :=
  if holds then do
    match ← watch.callback.play engine responder with
    | .ok _ => pure ()
    | .error message => Run.report (.listenerFailed change.id change.update message)
  else pure ()

/-- Check watches one after another and call those that hold. The answer tells which were
called. -/
def attendEach (engine : Engine σ) (responder : Responder σ) (change : Change) :
    List (InstalledWatch σ) → Run σ (List (InstalledWatch σ))
  | [] => pure []
  | watch :: rest => do
      let holds ← responder.check engine watch.condition.root
      engine.callIf responder change watch holds
      let called ← engine.attendEach responder change rest
      pure (if holds then watch :: called else called)

/-- How requests are answered while watches are on: a write attends to those that refer to
its identifier. -/
def attending (engine : Engine σ) (responder : Responder σ)
    (installed : List (InstalledWatch σ)) : Responder σ
  | .read id => engine.readOnce responder id
  | .write id update operand =>
      match engine.registry.record? id with
      | none => do
          Run.report (.notRegistered id)
          pure 0
      | some record => do
          let retained ← engine.keep responder record update operand
          let _ ← engine.attendEach responder ⟨id, update, operand⟩
            (installed.filter (·.refersTo id))
          pure retained

/-- Telling the listeners of watches is attending to the watches. -/
theorem deliver_watches (engine : Engine σ) (responder : Responder σ) (change : Change)
    (watches : List (InstalledWatch σ)) :
    engine.deliver responder change (watches.map (·.listener)) = (do
      let _ ← engine.attendEach responder change watches
      pure ()) := by
  induction watches with
  | nil => rfl
  | cons watch rest induction =>
      have played : (watch.listener change).play engine responder = (do
          let holds ← responder.check engine watch.condition.root
          (if holds then watch.callback else .done).play engine responder) := rfl
      rw [List.map_cons, deliver, played, induction, attendEach, bind_assoc, bind_assoc]
      congr 1
      funext holds
      cases holds with
      | true =>
          simp only [callIf, if_true, bind_assoc, pure_bind]
          congr 1
          funext outcome
          cases outcome <;> simp only [pure_bind]
      | false =>
          have nothing : Script.play engine responder (Script.done : Script σ .writing) =
            pure (.ok 0) := rfl
          simp only [callIf, Bool.false_eq_true, if_false, nothing, bind_assoc, pure_bind]

end Engine

/-- Runs of two parts agree where their first parts do, if the second parts agree on
whatever the first ones lead to. -/
theorem Run.bind_agree {first other : Run σ α} {left right : α → Run σ β} {world : World σ}
    (agree : first world = other world)
    (next : ∀ value between, first world = some (value, between) →
      left value between = right value between) :
    (first >>= left) world = (other >>= right) world := by
  rw [Run.bind_apply, Run.bind_apply, ← agree]
  cases ran : first world with
  | none => rfl
  | some outcome => exact next outcome.1 outcome.2 ran

section Attended

variable {engine : Engine σ} (quiet : engine.Quiet) {world : World σ}
  {installed : List (InstalledWatch σ)} (attended : world.Attended installed)

include attended

/-- In a state where watches are on, telling of a change is attending to them. -/
theorem Engine.tell_attended (responder : Responder σ) (change : Change) (retained : Binary64) :
    (do
      let world ← get
      engine.deliver responder change (world.bus.listeners change.id)
      let world ← get
      engine.deliver responder change (world.store.bus.listeners change.id)
      pure retained : Run σ Binary64) world = (do
        let _ ← engine.attendEach responder change (installed.filter (·.refersTo change.id))
        pure retained) world := by
  have nobody : engine.deliver responder change [] = pure () := rfl
  rw [Run.bind_apply]
  change (engine.deliver responder change (world.bus.listeners change.id) >>= _) world = _
  rw [attended.silent change.id, nobody, pure_bind, Run.bind_apply]
  change (engine.deliver responder change (world.store.bus.listeners change.id) >>= _) world = _
  rw [attended.listeners_eq, Engine.deliver_watches, bind_assoc]
  simp only [pure_bind]

include quiet

/-- The result of a write is kept, and then the watches are attended to. -/
theorem Engine.respond_attended (depth : Nat) (request : Request) :
    engine.respond (depth + 1) request world =
      engine.attending (engine.respond depth) installed request world := by
  cases request with
  | read id => rfl
  | write id update operand =>
      change engine.writeOnce (engine.respond depth) id update operand world = _
      cases known : engine.registry.record? id with
      | none => simp only [Engine.writeOnce, Engine.attending, known]
      | some record =>
          rw [Engine.writeOnce_eq known]
          simp only [Engine.attending, known]
          refine Run.bind_agree rfl fun retained written kept => ?_
          have keeps := Engine.keep_keeps quiet (engine.respond_quiet quiet depth)
            (Engine.record?_id known ▸ known) update operand
          exact Engine.tell_attended (attended.further keeps kept) _ ⟨id, update, operand⟩ retained

/-! ### Statements and processes -/

theorem Engine.assign_attended (depth : Nat) (assignment : Assignment Reference) :
    (engine.respond (depth + 1)).assign engine assignment world =
      (engine.attending (engine.respond depth) installed).assign engine assignment world := by
  have answers := engine.respond_quiet quiet (depth + 1)
  refine Run.bind_agree rfl fun operand between evaluated => ?_
  have keeps : ((engine.respond (depth + 1)).evaluate engine assignment.value).Respects
      (Keeps .writing) :=
    assignment.value.evaluate_respects (steady_keeps .writing) (answers.scope .writing)
  exact Engine.respond_attended quiet (attended.further keeps evaluated) depth
    (.write assignment.target.id assignment.update operand)

theorem Engine.assignAll_attended (depth : Nat) (assignments : List (Assignment Reference)) :
    (engine.respond (depth + 1)).assignAll engine assignments world =
      (engine.attending (engine.respond depth) installed).assignAll engine assignments world := by
  have answers := (engine.respond_quiet quiet (depth + 1)).respects
  induction assignments generalizing world with
  | nil => rfl
  | cons assignment rest induction =>
      have keeps := Responder.assign_respects (steady_keeps .writing) answers engine assignment
      exact Run.bind_agree (Engine.assign_attended quiet attended depth assignment)
        fun _ _ assigned => induction (attended.further keeps assigned)

theorem Engine.writeAll_attended (depth : Nat) (saved : List (Identifier × Binary64)) :
    (engine.respond (depth + 1)).writeAll saved world =
      (engine.attending (engine.respond depth) installed).writeAll saved world := by
  have answers := (engine.respond_quiet quiet (depth + 1)).respects
  induction saved generalizing world with
  | nil => rfl
  | cons entry rest induction =>
      exact Run.bind_agree (Engine.respond_attended quiet attended depth _)
        fun _ _ written => induction (attended.further (answers _) written)

theorem Engine.runProcess_attended (depth : Nat) (process : ProcessRule) (traced : Bool) :
    (engine.respond (depth + 1)).runProcess engine process traced world =
      (engine.attending (engine.respond depth) installed).runProcess engine process traced
        world := by
  have answers := (engine.respond_quiet quiet (depth + 1)).respects
  have steady := steady_keeps (σ := σ) .writing
  simp only [Responder.runProcess, ProcessRule.run, ProcessRule.forIn_write]
  refine Run.bind_agree rfl fun pad _ taken => ?_
  have attended := attended.further (ProcessRule.takePad_respects steady process) taken
  refine Run.bind_agree rfl fun values _ loaded => ?_
  have attended := attended.further
    (ProcessRule.load_respects steady (fun id => answers (.read id)) _ _) loaded
  refine Run.bind_agree rfl fun final _ finished => ?_
  have attended := attended.further (ProcessRule.executeSteps_respects steady _ _ _ _ _) finished
  have saved {world : World σ} (attended : world.Attended installed) :=
    Engine.writeAll_attended quiet attended depth (process.changes values final)
  cases pad.isSome with
  | true =>
      refine Run.bind_agree rfl fun _ _ returned => ?_
      have keeps : (modify (·.setPad process.id (.idle final)) : Run σ PUnit).Respects
          (Keeps .writing) := steady.ofModify fun _ => ⟨rfl, rfl⟩
      have attended := attended.further keeps returned
      exact Run.bind_agree (saved attended) fun _ _ _ => rfl
  | false => exact Run.bind_agree (saved attended) fun _ _ _ => rfl

omit quiet in
/-- Recording what a rule targets does not disturb the watches. -/
theorem World.Attended.produce (station : StationId) (rule : RuleId)
    (targets : List Identifier) {next other : Run σ α}
    (agree : ∀ {world : World σ}, world.Attended installed → next world = other world)
    (tracked : Bool) :
    (if tracked then do
        Run.changeStore fun store => ((), store.produce station rule targets)
        next
      else next : Run σ α) world =
    (if tracked then do
        Run.changeStore fun store => ((), store.produce station rule targets)
        other
      else other : Run σ α) world := by
  cases tracked with
  | true =>
      refine Run.bind_agree rfl fun _ _ produced => agree (attended.further ?_ produced)
      exact Run.respects_changeStore fun world =>
        World.keepsIf_store rfl (funext (world.store.keysOf_produce station rule targets))
  | false => exact agree attended

end Attended

/-! ## The turns of the watches -/

/-- How watches are attended to after a write has led to `written`. They are checked one by
one, each against the store that the write has left behind, and those that hold are
called. Where the store alone decides the conditions, the watches called are those whose
conditions hold in it. -/
structure Engine.Calls (engine : Engine σ) (responder : Responder σ) (change : Change)
    (watches : List (InstalledWatch σ)) (written : World σ) (called : List (InstalledWatch σ))
    (after : World σ) : Prop where
  run : engine.attendEach responder change watches written = some (called, after)
  store : after.store = written.store
  inOrder : called.Sublist watches
  checked : ∀ watch ∈ watches, ∃ turn holds next, turn.store = written.store ∧
    turn.bus = written.bus ∧
    responder.check engine watch.condition.root turn = some (holds, next) ∧
    (watch ∈ called ↔ holds = true)
  decided : ∀ truth : InstalledWatch σ → Bool,
    (∀ watch ∈ watches, ∀ turn holds next, turn.store = written.store →
      turn.bus = written.bus →
      responder.check engine watch.condition.root turn = some (holds, next) →
      holds = truth watch) →
    called = watches.filter truth

/-- A part of a list is known by its members if nothing is repeated. -/
theorem sublist_eq_filter {part whole : List α} (sublist : part.Sublist whole)
    (nodup : whole.Nodup) {wanted : α → Bool}
    (members : ∀ item ∈ whole, item ∈ part ↔ wanted item = true) :
    part = whole.filter wanted := by
  have all : part.filter wanted = part :=
    List.filter_eq_self.mpr fun item member =>
      (members item (sublist.subset member)).mp member
  refine List.Sublist.eq_of_length (all ▸ sublist.filter wanted) ?_
  refine ((List.perm_ext_iff_of_nodup (nodup.sublist sublist) (nodup.filter _)).mpr
    fun item => ?_).length_eq
  rw [List.mem_filter]
  constructor
  · intro member
    have inWhole := sublist.subset member
    exact ⟨inWhole, (members item inWhole).mp member⟩
  · rintro ⟨inWhole, isWanted⟩
    exact (members item inWhole).mpr isWanted

theorem Engine.callIf_keeps {engine : Engine σ} {responder : Responder σ}
    (answers : responder.Quiet) {watch : InstalledWatch σ}
    (passive : watch.callback.Quiet .reading) (change : Change) (holds : Bool) :
    (engine.callIf responder change watch holds).Respects (Keeps .reading) := by
  have steady := steady_keeps (σ := σ) .reading
  cases holds with
  | false => exact steady.ofPure ()
  | true =>
      refine steady.ofBind (Script.play_keeps answers _ passive) fun outcome => ?_
      cases outcome with
      | ok value => exact steady.ofPure ()
      | error message => exact steady.ofReport _

theorem Engine.attendEach_turns {engine : Engine σ} {responder : Responder σ}
    (answers : responder.Quiet) {change : Change} {watches : List (InstalledWatch σ)}
    (passive : ∀ watch ∈ watches, watch.callback.Quiet .reading) (nodup : watches.Nodup)
    {world after : World σ} (calm : world.Calm) {called : List (InstalledWatch σ)}
    (run : engine.attendEach responder change watches world = some (called, after)) :
    after.store = world.store ∧ called.Sublist watches ∧
      ∀ watch ∈ watches, ∃ turn holds next, turn.store = world.store ∧ turn.bus = world.bus ∧
        responder.check engine watch.condition.root turn = some (holds, next) ∧
        (watch ∈ called ↔ holds = true) := by
  have steady := steady_keeps (σ := σ) .reading
  induction watches generalizing world called with
  | nil =>
      cases run
      exact ⟨rfl, .slnil, by simp⟩
  | cons watch rest induction =>
      rw [List.forall_mem_cons] at passive
      rw [List.nodup_cons] at nodup
      rcases Run.bind_eq_some run with ⟨holds, checked, check, remaining⟩
      rcases Run.bind_eq_some remaining with ⟨_, between, call, remaining⟩
      rcases Run.bind_eq_some remaining with ⟨calledLater, last, later, finished⟩
      cases finished
      have checks : (responder.check engine watch.condition.root).Respects (Keeps .reading) :=
        watch.condition.root.check_respects steady (answers.scope .reading)
      have keeps := steady.trans (checks world holds checked check)
        (callIf_keeps answers passive.1 change holds checked () between call)
      have kept := keeps calm
      rcases induction passive.2 nodup.2 (calm.kept kept) later with ⟨store, sublist, turns⟩
      refine ⟨store.trans (kept.store rfl), ?_, List.forall_mem_cons.mpr ⟨?_, ?_⟩⟩
      · cases holds with
        | true => exact sublist.cons_cons watch
        | false => exact sublist.cons watch
      · refine ⟨world, holds, checked, rfl, rfl, check, ?_⟩
        cases holds with
        | true => simp
        | false =>
            simp only [Bool.false_eq_true, if_false, iff_false]
            exact fun member => nodup.1 (sublist.subset member)
      · intro other inRest
        rcases turns other inRest with ⟨turn, itHolds, next, sameStore, sameBus, check, called⟩
        refine ⟨turn, itHolds, next, sameStore.trans (kept.store rfl), sameBus.trans kept.bus,
          check, ?_⟩
        rw [← called]
        have different : other ≠ watch := fun same => nodup.1 (same ▸ inRest)
        cases holds <;> simp [different]

/-- Whatever gives a result after a write has attended to the watches. -/
theorem Engine.write_calls {engine : Engine σ} (quiet : engine.Quiet) {world after : World σ}
    {installed : List (InstalledWatch σ)} (attended : world.Attended installed) {depth : Nat}
    {id : Identifier} {record : NameRecord σ}
    (known : engine.registry.record? id = some record) {update : Update}
    {operand retained : Binary64}
    (outcome : engine.respond (depth + 1) (.write id update operand) world =
      some (retained, after)) :
    ∃ written called,
      engine.keep (engine.respond depth) record update operand world = some (retained, written) ∧
      engine.Calls (engine.respond depth) ⟨id, update, operand⟩
        (installed.filter (·.refersTo id)) written called after := by
  have answers := engine.respond_quiet quiet depth
  rw [Engine.respond_attended quiet attended] at outcome
  simp only [attending, known] at outcome
  rcases Run.bind_eq_some outcome with ⟨_, written, kept, outcome⟩
  rcases Run.bind_eq_some outcome with ⟨called, _, run, finished⟩
  cases finished
  have further := attended.further
    (keep_keeps quiet answers (record?_id known ▸ known) update operand) kept
  have nodup : (installed.filter (·.refersTo id)).Nodup :=
    (List.Nodup.of_map (·.id) attended.nodup).filter _
  have passive : ∀ watch ∈ installed.filter (·.refersTo id), watch.callback.Quiet .reading :=
    fun watch member => attended.passive watch (List.mem_filter.mp member).1
  rcases attendEach_turns answers passive nodup further.calm run with ⟨store, inOrder, checked⟩
  refine ⟨written, called, kept, run, store, inOrder, checked, fun truth decides => ?_⟩
  refine sublist_eq_filter inOrder nodup fun watch member => ?_
  rcases checked watch member with ⟨turn, holds, next, sameStore, sameBus, check, inCalled⟩
  rw [inCalled, decides watch member turn holds next sameStore sameBus check]

/-- While the hooks of an engine are quiet and nobody listens at it, the watches installed
on a store are called as they should be, after any history of watching and unwatching.

A write, a statement and a save of a process each attend, once the value is kept, to the
watches that refer to the identifier: they are checked in the order in which they were
installed, each exactly once, and called exactly if they hold. Quiet scripts leave the
watches on, and a reset changes entries of the store and calls nothing. -/
theorem Store.Watched.calls {engine : Engine σ} (quiet : engine.Quiet) {world : World σ}
    {installed : List (InstalledWatch σ)} (watched : world.store.Watched installed)
    (silent : world.bus.Silent) :
    (installed.map (·.id)).Nodup ∧
    (∀ station condition, world.store.isWatching station condition =
      installed.any (·.id = ⟨station, condition⟩)) ∧
    (∀ depth,
      (∀ request, engine.respond (depth + 1) request world =
        engine.attending (engine.respond depth) installed request world) ∧
      (∀ operations, (engine.respond (depth + 1)).execute engine operations world =
        (engine.attending (engine.respond depth) installed).execute engine operations world) ∧
      (∀ process traced, (engine.respond (depth + 1)).runProcess engine process traced world =
        (engine.attending (engine.respond depth) installed).runProcess engine process traced
          world) ∧
      (∀ station operations tracked,
        (engine.respond (depth + 1)).workOperations engine station operations tracked world =
          (engine.attending (engine.respond depth) installed).workOperations engine station
            operations tracked world) ∧
      ∀ station process tracked,
        (engine.respond (depth + 1)).workProcess engine station process tracked world =
          (engine.attending (engine.respond depth) installed).workProcess engine station
            process tracked world) ∧
    (∀ depth id record update operand retained after,
      engine.registry.record? id = some record →
      engine.respond (depth + 1) (.write id update operand) world = some (retained, after) →
      ∃ written called,
        engine.keep (engine.respond depth) record update operand world =
          some (retained, written) ∧
        engine.Calls (engine.respond depth) ⟨id, update, operand⟩
          (installed.filter (·.refersTo id)) written called after) ∧
    (∀ (script : Script σ .writing) depth outcome after, script.Quiet .writing →
      script.play engine (engine.respond depth) world = some (outcome, after) →
      after.store.Watched installed ∧ after.bus.Silent) ∧
    ∀ range, ∃ value entries, Run.reset range world =
      some (value, { world with store := { world.store with entries } }) := by
  have attended : world.Attended installed := ⟨watched, silent⟩
  refine ⟨attended.nodup, fun station condition => ?_, fun depth => ⟨?_, ?_, ?_, ?_, ?_⟩, ?_, ?_,
    fun range => Run.reset_eq range world⟩
  · rcases watched.arranged with ⟨entries, rfl, arranged, _⟩
    exact arranged.isWatching_eq ⟨station, condition⟩
  · exact Engine.respond_attended quiet attended depth
  · exact fun operations => Engine.assignAll_attended quiet attended depth operations.assignments
  · exact Engine.runProcess_attended quiet attended depth
  · intro station operations tracked
    exact attended.produce station operations.id operations.targets
      (fun attended => Engine.assignAll_attended quiet attended depth operations.assignments)
      tracked
  · intro station process tracked
    exact attended.produce station process.id process.targets
      (fun attended => Engine.runProcess_attended quiet attended depth process
        engine.settings.traceSteps) tracked
  · intro depth id record update operand retained after known outcome
    exact Engine.write_calls quiet attended known outcome
  · intro script depth outcome after allowed played
    have answers := engine.respond_quiet quiet depth
    have further := attended.further (Script.play_keeps answers script allowed) played
    exact ⟨further.watched, further.silent⟩

/-! ### A watch that counts its calls -/

namespace Bell

open Store.Unattended (engine name station start)

/-- The condition `x > 0` of a watch that counts its calls in the state of the host
program. -/
def watch : InstalledWatch Nat where
  station := station
  condition := ⟨⟨0⟩, .compare (.name ⟨name, "x"⟩) .greater (.constant 0)⟩
  callback := .host (· + 1) fun _ => .done

/-- The watch is on. -/
def world : World Nat :=
  { start with
    store := start.store.watch station watch.condition.id watch.condition.identifiers
      watch.listener }

theorem quiet : engine.Quiet := by
  have hookless {id : Identifier} {record : NameRecord Nat}
      (known : engine.registry.record? id = some record) :
      record.getHook = none ∧ record.setHook = none := by
    cases List.mem_singleton.mp (List.mem_of_find?_eq_some known)
    exact ⟨rfl, rfl⟩
  constructor
  · intro id record hook known hooked
    cases (hookless known).1.symm.trans hooked
  · intro record hook known hooked
    cases (hookless known).2.symm.trans hooked

theorem watched : world.store.Watched [watch] := by
  have passive : watch.callback.Quiet .reading := fun _ => trivial
  have begun : start.store.Watched [] := .new engine.registry none
  have run : Run.watch station watch.condition watch.callback start = some ((), world) := rfl
  exact .watch station watch.condition watch.callback passive begun run

end Bell

open Store.Unattended (engine name) in
/-- A value above 0 is written. -/
theorem Store.Watched.calls_bell :
    engine.Quiet ∧ Bell.world.store.Watched [Bell.watch] ∧ Bell.world.bus.Silent ∧
    engine.respond 2 (.write name .set 1) Bell.world =
      engine.attending (engine.respond 1) [Bell.watch] (.write name .set 1) Bell.world ∧
    (engine.respond 2 (.write name .set 1) Bell.world).map (·.2.host) = some 1 := by
  have silent : Bell.world.bus.Silent := fun _ => rfl
  exact ⟨Bell.quiet, Bell.watched, silent,
    ((Bell.watched.calls Bell.quiet silent).2.2.1 1).1 _, rfl⟩

end NumericRules
