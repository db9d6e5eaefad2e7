import NumericRules.Proofs.Journal

/-! # Journals account for stores

A run that keeps a journal is the same run, and the acts that it writes down explain what
becomes of the store, whatever hooks and listeners do in between.
-/

namespace NumericRules

open World (Unchanged steady_unchanged)

/-- Watching a condition is no act, for workstations remember watches apart from work. -/
theorem Run.watch_explained {exempt : Identifier → Prop} (station : StationId)
    (condition : ConditionRule) (callback : Script σ .writing) :
    (Run.watch station condition callback).Respects fun before after =>
      Store.Explained exempt [] before.store after.store := by
  intro world value after outcome
  cases watching : world.store.isWatching station condition.id with
  | true =>
      cases outcome.symm.trans (Run.watch_again callback watching)
      exact .of_eq rfl rfl rfl
  | false =>
      rcases Run.watch_new callback watching with ⟨other, run, same, -⟩
      cases outcome.symm.trans run
      rw [same]
      exact .watch world.store station condition.id condition.identifiers _
/-! ## Journals and runs -/

/-- Without its journal the journaled run is the other one, and the acts that it adds to the
journal explain what becomes of the store. -/
structure Journaled.Accounts (exempt : Identifier → Prop) (journaled : Journaled σ α)
    (plain : Run σ α) : Prop where
  erases : ∀ journal, Prod.fst <$> journaled.run journal = plain
  explains : ∀ journal world result after,
    journaled.run journal world = some (result, after) →
    ∃ acts, result.2 = journal ++ acts ∧ Store.Explained exempt acts world.store after.store

namespace Journaled.Accounts

variable {exempt : Identifier → Prop}

/-- Wherever the journaled run leads, the plain one leads too. -/
theorem plain_run {journaled : Journaled σ α} {plain : Run σ α}
    (accounts : Accounts exempt journaled plain) {journal : List Act} {world after : World σ}
    {result : α × List Act} (ran : journaled.run journal world = some (result, after)) :
    plain world = some (result.1, after) := by
  rw [← accounts.erases journal, map_eq_pure_bind, Run.bind_apply, ran]
  rfl

/-- A run that needs no act to explain it. -/
theorem lift {plain : Run σ α}
    (explained : plain.Respects fun before after =>
      Store.Explained exempt [] before.store after.store) :
    Accounts exempt (liftM plain : Journaled σ α) plain where
  erases journal := by
    change Prod.fst <$> (plain >>= fun value => pure (value, journal)) = plain
    rw [map_bind]
    simp
  explains journal world result after ran := by
    change (plain >>= fun value => pure (value, journal)) world = _ at ran
    rcases Run.bind_eq_some ran with ⟨value, between, ranPlain, rest⟩
    cases rest
    exact ⟨[], (List.append_nil journal).symm, explained world value _ ranPlain⟩

theorem read {plain : Run σ α} (unchanged : plain.Respects Unchanged) :
    Accounts exempt (liftM plain : Journaled σ α) plain :=
  .lift fun world value after outcome => (unchanged world value after outcome).explained

theorem changeStore {change : Store σ → α × Store σ}
    (explained : ∀ store, Store.Explained exempt [] store (change store).2) :
    Accounts exempt (liftM (Run.changeStore change) : Journaled σ α) (Run.changeStore change) :=
  .lift (Run.respects_changeStore fun world => explained world.store)

theorem pure (value : α) :
    Accounts exempt (Pure.pure value : Journaled σ α) (Pure.pure value) where
  erases _ := rfl
  explains journal world result after ran := by
    cases ran
    exact ⟨[], (List.append_nil journal).symm, .of_eq rfl rfl rfl⟩

theorem bind {journaled : Journaled σ α} {plain : Run σ α} {next : α → Journaled σ β}
    {further : α → Run σ β} (accounts : Accounts exempt journaled plain)
    (later : ∀ value, Accounts exempt (next value) (further value)) :
    Accounts exempt (journaled >>= next) (plain >>= further) where
  erases journal := by
    rw [StateT.run_bind, map_bind, ← accounts.erases journal, bind_map_left]
    congr 1
    funext result
    exact (later result.1).erases result.2
  explains journal world result after ran := by
    rw [StateT.run_bind] at ran
    rcases Run.bind_eq_some ran with ⟨middle, between, first, second⟩
    rcases accounts.explains journal world middle between first with ⟨acts, kept, explained⟩
    rcases (later middle.1).explains middle.2 between result after second with
      ⟨others, keptOthers, explainedOthers⟩
    refine ⟨acts ++ others, ?_, explained.trans explainedOthers⟩
    rw [keptOthers, kept, List.append_assoc]

theorem weaken {wider : Identifier → Prop} {journaled : Journaled σ α} {plain : Run σ α}
    (accounts : Accounts exempt journaled plain) (wide : ∀ id, exempt id → wider id) :
    Accounts wider journaled plain where
  erases := accounts.erases
  explains journal world result after ran := by
    rcases accounts.explains journal world result after ran with ⟨acts, kept, explained⟩
    exact ⟨acts, kept, explained.weaken wide⟩

/-- What is noted explains what the rest does as far as it is exempt. -/
theorem note {wider : Identifier → Prop} {act : Act} {journaled : Journaled σ α}
    {plain : Run σ α} (accounts : Accounts wider journaled plain)
    (covers : ∀ id, wider id → exempt id ∨ id ∈ act.changes)
    (forgets : ∀ station log, Act.remember station log act = log) :
    Accounts exempt (do Journaled.note act; journaled) plain where
  erases journal := accounts.erases (journal ++ [act])
  explains journal world result after ran := by
    rcases accounts.explains (journal ++ [act]) world result after ran with
      ⟨acts, kept, explained⟩
    refine ⟨act :: acts, by rw [kept, List.append_assoc]; rfl, ?_, fun station => ?_⟩
    · intro id other untouched
      have parts := List.forall_mem_cons.mp untouched
      refine explained.values id (fun inside => ?_) parts.2
      exact (covers id inside).elim other parts.1
    · rw [explained.work, List.foldl_cons, forgets]

theorem reset (range : ResetRange) :
    Accounts exempt (Journaled.reset range : Journaled σ Binary64) (Run.reset range) where
  erases journal := by
    funext world
    rfl
  explains journal world result after ran := by
    rcases Run.reset_run range world with ⟨value, run⟩
    change (Run.reset range >>= fun value =>
      Pure.pure (value, journal ++ [Act.reset (range.identifiers world.store)])) world = _ at ran
    rw [Run.bind_apply, run] at ran
    cases ran
    exact ⟨_, rfl, .resetEach world.store _⟩

theorem beginWork (station : StationId) (rule : RuleId) (targets : List Identifier)
    (tracked : Bool) :
    Accounts exempt (Journaled.beginWork station rule targets tracked : Journaled σ Unit)
      (if tracked then Run.changeStore fun store => ((), store.produce station rule targets)
        else Pure.pure ()) where
  erases journal := by cases tracked <;> rfl
  explains journal world result after ran := by
    have explained : Store.Explained exempt _ world.store _ :=
      .beginWork world.store station rule targets tracked
    cases tracked <;> cases ran <;> exact ⟨_, rfl, explained⟩

section Rules

variable {engine : Engine σ} {responder : Responder σ}
  {write : Identifier → Update → Binary64 → Journaled σ Binary64}
  (reads : ∀ id, (responder (.read id)).Respects Unchanged)
  (writes : ∀ id update operand,
    Accounts exempt (write id update operand) (responder.write id update operand))

include writes in
theorem writeAll (saved : List (Identifier × Binary64)) :
    Accounts exempt (Journaled.writeAll write saved) (responder.writeAll saved) := by
  induction saved with
  | nil => exact .pure ()
  | cons entry rest induction => exact (writes entry.1 .set entry.2).bind fun _ => induction

include reads writes

theorem assignAll (assignments : List (Assignment Reference)) :
    Accounts exempt (Journaled.assignAll engine responder write assignments)
      (responder.assignAll engine assignments) := by
  induction assignments with
  | nil => exact .pure ()
  | cons assignment rest induction =>
      rw [Responder.assignAll, Responder.assign, bind_assoc]
      have evaluated : (responder.evaluate engine assignment.value).Respects Unchanged :=
        assignment.value.evaluate_respects steady_unchanged (Responder.scope_reads reads)
      exact (Accounts.read evaluated).bind fun operand =>
        (writes assignment.target.id assignment.update operand).bind fun _ => induction

theorem runProcess (process : ProcessRule) (traced : Bool) :
    Accounts exempt (Journaled.runProcess engine responder write process traced)
      (responder.runProcess engine process traced) := by
  have steady := steady_unchanged (σ := σ)
  simp only [Responder.runProcess, ProcessRule.run, ProcessRule.forIn_write]
  refine (Accounts.read (ProcessRule.takePad_respects steady process)).bind fun pad => ?_
  refine (Accounts.read (ProcessRule.load_respects steady reads _ _)).bind fun loaded => ?_
  refine (Accounts.read
    (ProcessRule.executeSteps_respects steady _ _ _ _ _)).bind fun final => ?_
  have saved : Accounts exempt
      (do
        Journaled.writeAll write (process.changes loaded final)
        Pure.pure (final.value ProcessRule.resultSlot.number))
      (do
        responder.writeAll (process.changes loaded final)
        Pure.pure (final.value ProcessRule.resultSlot.number)) :=
    (writeAll writes _).bind fun _ => .pure _
  have putBack : (modify (·.setPad process.id (.idle final)) : Run σ Unit).Respects Unchanged :=
    steady.ofModify fun _ => ⟨rfl, rfl⟩
  cases pad.isSome with
  | true => exact (Accounts.read putBack).bind fun _ => saved
  | false => exact saved

/-- The journal of a script accounts for all that the script does. -/
theorem play (script : Script σ access) :
    Accounts exempt (Journaled.play engine responder write script)
      (script.play engine responder) := by
  have steady := steady_unchanged (σ := σ)
  have scope := Responder.scope_reads reads
  induction script with
  | finish outcome => exact .pure outcome
  | host update next induction =>
      exact (Accounts.read (steady.ofChangeHost update)).bind induction
  | read id next induction => exact (Accounts.read (reads id)).bind induction
  | stored id next induction => exact (Accounts.read steady.ofStore).bind fun _ => induction _
  | evaluate formula next induction =>
      exact (Accounts.read (formula.evaluate_respects steady scope)).bind induction
  | check condition next induction =>
      exact (Accounts.read (condition.check_respects steady scope)).bind induction
  | parse text next induction => exact (Accounts.read (steady.ofNumbered _ _)).bind induction
  | produced station next induction =>
      exact (Accounts.read steady.ofStore).bind fun _ => induction _
  | isWatching station condition next induction =>
      exact (Accounts.read steady.ofStore).bind fun _ => induction _
  | subscribe tier id callback next _ induction =>
      exact (Accounts.read (Run.changeBus_unchanged tier _)).bind induction
  | unsubscribe tier id key next induction =>
      exact (Accounts.read (Run.changeBus_unchanged tier _)).bind induction
  | unsubscribeAll tier id next induction =>
      exact (Accounts.read (Run.changeBus_unchanged tier _)).bind induction
  | clear tier next induction =>
      exact (Accounts.read (Run.changeBus_unchanged tier _)).bind fun _ => induction
  | elsewhere body next _ induction =>
      rw [Script.play_elsewhere]
      exact (Accounts.read fun _ _ _ ran =>
        World.Unchanged.of_store (Journaled.playElsewhere_store ran)).bind induction
  | write id update operand next induction => exact (writes id update operand).bind induction
  | reset range next induction => exact (Accounts.reset range).bind fun _ => induction
  | execute operations next induction =>
      exact (assignAll reads writes operations.assignments).bind fun _ => induction
  | run process traced next induction =>
      exact (runProcess reads writes process traced).bind induction
  | workOperations station operations tracked next induction =>
      rw [Script.play, Responder.workOperations_eq, bind_assoc]
      exact (Accounts.beginWork station _ _ tracked).bind fun _ =>
        (assignAll reads writes operations.assignments).bind fun _ => induction
  | workProcess station process tracked next induction =>
      rw [Script.play, Responder.workProcess_eq, bind_assoc]
      exact (Accounts.beginWork station _ _ tracked).bind fun _ =>
        (runProcess reads writes process engine.settings.traceSteps).bind induction
  | watch station condition callback next _ induction =>
      exact (Accounts.lift (Run.watch_explained station condition callback)).bind fun _ =>
        induction
  | unwatch station condition next induction =>
      exact (Accounts.changeStore fun store => .unwatch store station condition).bind induction

theorem deliver (change : Change) (listeners : List (Listener σ)) :
    Accounts exempt (Journaled.deliver engine responder write change listeners)
      (engine.deliver responder change listeners) := by
  induction listeners with
  | nil => exact .pure ()
  | cons listener rest induction =>
      refine (play reads writes (listener change)).bind fun outcome => ?_
      cases outcome with
      | ok value => exact induction
      | error message =>
          exact (Accounts.read (steady_unchanged.ofReport _)).bind fun _ => induction

end Rules

section Requests

variable {engine : Engine σ} {responder : Responder σ}
  {write : Identifier → Update → Binary64 → Journaled σ Binary64}
  (reads : ∀ id, (responder (.read id)).Respects Unchanged)
  (writes : ∀ id update operand,
    Accounts (fun _ => False) (write id update operand) (responder.write id update operand))

include reads writes

/-- A write changes one value itself. -/
theorem writeEntry (record : NameRecord σ) (update : Update) (operand : Binary64) :
    Accounts (· = record.id) (Journaled.writeEntry engine responder write record update operand)
      (engine.writeEntry responder record update operand) := by
  have steady := steady_unchanged (σ := σ)
  refine (Accounts.changeStore fun store => .touch store record).bind fun _ => ?_
  split
  · exact .pure 0
  · cases record.setHook with
    | some hook =>
        have played : Accounts (fun _ => False) (Journaled.play engine responder write _) _ :=
          play reads writes (hook record.id update operand)
        refine (played.weaken fun _ => False.elim).bind fun outcome => ?_
        cases outcome with
        | ok retained => exact .changeStore fun store => .retain store record.id retained
        | error message =>
            exact (Accounts.read (steady.ofReport _)).bind fun _ =>
              (Accounts.read steady.ofStore).bind fun _ => .pure _
    | none =>
        refine .changeStore fun store => ?_
        split
        · exact .of_eq rfl rfl rfl
        · exact .retain store record.id _

theorem writeOnce (id : Identifier) (update : Update) (operand : Binary64) :
    Accounts (fun _ => False) (Journaled.writeOnce engine responder write id update operand)
      (engine.writeOnce responder id update operand) := by
  have steady := steady_unchanged (σ := σ)
  have wider {journaled : Journaled σ Binary64} {plain : Run σ Binary64}
      (accounts : Accounts (· = id) journaled plain) :
      Accounts (fun _ => False) (do Journaled.note (.write id); journaled) plain :=
    accounts.note (fun _ same => .inr (List.mem_singleton.mpr same)) fun _ _ => rfl
  refine wider ?_
  unfold Engine.writeOnce
  cases known : engine.registry.record? id with
  | none => exact (Accounts.read (steady.ofReport _)).bind fun _ => .pure 0
  | some record =>
      have isId := Engine.record?_id known
      subst isId
      have told (change : Change) (listeners : List (Listener σ)) : Accounts (· = record.id)
          (Journaled.deliver engine responder write change listeners)
          (engine.deliver responder change listeners) :=
        (deliver reads writes change listeners).weaken fun _ => False.elim
      have tells (retained : Binary64) := (Accounts.read steady.ofGet).bind fun world =>
        (told ⟨record.id, update, operand⟩ (world.bus.listeners record.id)).bind fun _ =>
          (Accounts.read steady.ofGet).bind fun world =>
            (told ⟨record.id, update, operand⟩ (world.store.bus.listeners record.id)).bind fun _ =>
              Accounts.pure retained
      cases ordered : record.id.isOrdered with
      | true =>
          exact (Accounts.changeStore fun store => .place store ordered update operand).bind tells
      | false => exact (writeEntry reads writes record update operand).bind tells

end Requests

/-- However deep its calls are nested, the journal of a write accounts for it. -/
theorem ofWrite (engine : Engine σ) (depth : Nat) (id : Identifier) (update : Update)
    (operand : Binary64) :
    Accounts (fun _ => False) (Journaled.write engine depth id update operand)
      ((engine.respond depth).write id update operand) := by
  induction depth generalizing id update operand with
  | zero => exact .lift fun _ _ _ outcome => nomatch outcome
  | succ depth induction =>
      exact writeOnce (engine.read_unchanged depth) induction id update operand

end Journaled.Accounts

/-- The journal of a script accounts for what the script does. -/
theorem Script.journal_accounts (engine : Engine σ) (depth : Nat) (script : Script σ access) :
    Journaled.Accounts (fun _ => False) (script.journal engine depth)
      (script.play engine (engine.respond depth)) :=
  .play (engine.read_unchanged depth) (.ofWrite engine depth) script

/-! ## Histories -/

namespace Store

/-- What a write of a name has done to a store by the time it asks code of the host
program. -/
inductive Begun (before : Store σ) : Identifier → Store σ → Prop
  | touch (record : NameRecord σ) : Begun before record.id (before.touch record)
  | retain (id : Identifier) (value : Binary64) : Begun before id (before.retain id value)
  | place (record : NameRecord σ) (update : Update) (operand : Binary64) :
      record.id.isOrdered = true →
      Begun before record.id (before.updateDense record update operand).2

/-- Scripts are carried out on a store one after another, with the acts that they ask for.
Code of the host program may find the store in the middle of a script, where a write or
the execution of a rule has just begun. Whatever there is beside the store may be anything
at the start of each script. -/
inductive Worked (engine : Engine σ) (first : Store σ) : List Act → Store σ → Prop
  | start : Worked engine first [] first
  | play {acts more : List Act} {world after : World σ} {outcome : Except String Binary64}
      (script : Script σ access) (depth : Nat) : Worked engine first acts world.store →
      (script.journal engine depth).run [] world = some ((outcome, more), after) →
      Worked engine first (acts ++ more) after.store
  | write {acts : List Act} {before after : Store σ} (id : Identifier) :
      Worked engine first acts before → before.Begun id after →
      Worked engine first (acts ++ [.write id]) after
  | work {acts : List Act} {store : Store σ} (station : StationId) (rule : RuleId)
      (targets : List Identifier) (tracked : Bool) : Worked engine first acts store →
      Worked engine first (acts ++ [.work station rule targets tracked])
        (if tracked then store.produce station rule targets else store)

namespace Worked

variable {engine : Engine σ} {first last : Store σ} {acts : List Act}

/-- What is done to a store explains what becomes of it. -/
theorem explained (worked : Worked engine first acts last) :
    Explained (fun _ => False) acts first last := by
  induction worked with
  | start => exact .of_eq rfl rfl rfl
  | @play _ _ _ world after outcome script depth _ ran induction =>
      rcases (script.journal_accounts engine depth).explains [] world _ after ran with
        ⟨others, kept, explained⟩
      rw [List.nil_append] at kept
      dsimp only at kept
      exact induction.trans (kept ▸ explained)
  | write id _ begun induction =>
      refine induction.trans (.write ?_)
      cases begun with
      | touch record => exact .touch _ record
      | retain _ value => exact .retain _ id value
      | place record update operand ordered => exact .place _ ordered update operand
  | work station rule targets tracked _ induction =>
      exact induction.trans (.beginWork _ station rule targets tracked)

/-- Every script that is carried out on the store goes on with the history. -/
theorem further (worked : Worked engine first acts last) (script : Script σ access) (depth : Nat)
    {world after : World σ} {outcome : Except String Binary64} (same : world.store = last)
    (ran : script.play engine (engine.respond depth) world = some (outcome, after)) :
    ∃ more, (script.journal engine depth).run [] world = some ((outcome, more), after) ∧
      Worked engine first (acts ++ more) after.store := by
  subst same
  have erased := (script.journal_accounts engine depth).erases []
  rw [← erased, map_eq_pure_bind] at ran
  rcases Run.bind_eq_some ran with ⟨⟨_, more⟩, _, journaled, rest⟩
  cases rest
  exact ⟨more, journaled, worked.play script depth journaled⟩

end Worked

end Store

end NumericRules
