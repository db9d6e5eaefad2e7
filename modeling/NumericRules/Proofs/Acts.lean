import NumericRules.Proofs.OrdinaryNames
import NumericRules.Proofs.Quiet

/-! # What is asked of a store

Values change only when names are written or reset, and workstations remember the rules
they execute. A list of such acts explains what becomes of a store if every value that
changed is one that an act changes, and if the memories come from the acts.
-/

namespace NumericRules

/-- Something that is asked of a store. Work is asked for at a workstation, with the
targets of the rule that is executed. -/
inductive Act where
  | write (id : Identifier)
  | reset (ids : List Identifier)
  | work (station : StationId) (rule : RuleId) (targets : List Identifier) (tracked : Bool)
deriving DecidableEq

namespace Act

/-- The identifiers whose values the act changes itself. -/
def changes : Act → List Identifier
  | .write id => [id]
  | .reset ids => ids
  | .work _ _ _ _ => []

/-- What a workstation remembers when the act begins. -/
def remember (station : StationId) (log : StationLog) : Act → StationLog
  | .work worker rule targets true => if worker = station then log.produce rule targets else log
  | _ => log

end Act

/-- The identifiers that a reset covers. -/
def ResetRange.identifiers (store : Store σ) : ResetRange → List Identifier
  | .identifier id => [id]
  | .cycle every => store.byCycle every
  | .all => store.touched
  | .produced station => store.produced station

/-! ## What acts explain -/

/-- What a workstation remembers of its work. -/
def StationLog.work (log : StationLog) : StationLog := { log with watches := [] }

namespace Store

theorem valueOf_touch (store : Store σ) (record : NameRecord σ) (id : Identifier) :
    (store.touch record).valueOf id = store.valueOf id := by
  simp only [valueOf, stored_touch, denseValue, dense_touch]

/-- A value that changed is one of an identifier that an act changes, or an exempt one, and
what workstations remember of their work comes from the acts. -/
structure Explained (exempt : Identifier → Prop) (acts : List Act) (before after : Store σ) :
    Prop where
  values : ∀ id, ¬exempt id → (∀ act ∈ acts, id ∉ act.changes) →
    after.valueOf id = before.valueOf id
  work : ∀ station, (after.logOf station).work =
    acts.foldl (Act.remember station) (before.logOf station).work

namespace Explained

variable {exempt : Identifier → Prop} {before after : Store σ}

theorem unchanged (values : ∀ id, ¬exempt id → after.valueOf id = before.valueOf id)
    (logs : after.logs = before.logs) : Explained exempt [] before after where
  values id other _ := values id other
  work station := by rw [logOf, logOf, logs, List.foldl_nil]

theorem of_eq (dense : after.dense = before.dense) (entries : after.entries = before.entries)
    (logs : after.logs = before.logs) : Explained exempt [] before after :=
  .unchanged (fun id _ => by simp only [valueOf, denseValue, stored, entry?, dense, entries]) logs

theorem trans {middle : Store σ} {acts others : List Act}
    (earlier : Explained exempt acts before middle)
    (later : Explained exempt others middle after) :
    Explained exempt (acts ++ others) before after where
  values id other untouched := by
    have parts := List.forall_mem_append.mp untouched
    rw [later.values id other parts.2, earlier.values id other parts.1]
  work station := by rw [later.work, earlier.work, List.foldl_append]

theorem weaken {wider : Identifier → Prop} {acts : List Act}
    (explained : Explained exempt acts before after) (wide : ∀ id, exempt id → wider id) :
    Explained wider acts before after where
  values id other := explained.values id fun inside => other (wide id inside)
  work := explained.work

/-- A write explains that the value of its name changes. -/
theorem write {id : Identifier} (explained : Explained (· = id) [] before after) :
    Explained exempt [.write id] before after where
  values other _ untouched := by
    have different : other ∉ [id] := untouched (.write id) (List.mem_singleton_self _)
    exact explained.values other (fun same => different (List.mem_singleton.mpr same))
      (List.forall_mem_nil _)
  work := explained.work

/-! ### Single changes -/

theorem touch (store : Store σ) (record : NameRecord σ) :
    Explained exempt [] store (store.touch record) := by
  refine .unchanged (fun id _ => store.valueOf_touch record id) ?_
  unfold Store.touch
  split <;> rfl

theorem retain (store : Store σ) (id : Identifier) (value : Binary64) :
    Explained (· = id) [] store (store.retain id value) := by
  refine .unchanged (fun other different => ?_) rfl
  have dense : (store.retain id value).denseValue other = store.denseValue other := rfl
  rw [valueOf, valueOf, stored_retain_ne different, dense]

theorem place (store : Store σ) {record : NameRecord σ} (ordered : record.id.isOrdered = true)
    (update : Update) (operand : Binary64) :
    Explained (· = record.id) [] store (store.updateDense record update operand).2 := by
  refine .unchanged (fun id different => ?_) (by rw [updateDense_snd])
  rw [valueOf, valueOf, stored_updateDense]
  split
  · rename_i alsoOrdered
    exact denseValue_updateDense_ne ordered alsoOrdered (Ne.symm different) update operand
  · rfl

theorem log (store : Store σ) (station : StationId) {change : StationLog → StationLog}
    {acts : List Act}
    (changed : ∀ log : StationLog,
      (change log).work = acts.foldl (Act.remember station) log.work)
    (others : ∀ other, other ≠ station → ∀ log : StationLog,
      acts.foldl (Act.remember other) log = log) :
    Explained exempt acts store (store.updateLog station change) where
  values _ _ _ := rfl
  work other := by
    rw [logOf_updateLog]
    split
    · rename_i same
      rw [same, changed]
    · rename_i different
      rw [others other different]

theorem produce (store : Store σ) (station : StationId) (rule : RuleId)
    (targets : List Identifier) :
    Explained exempt [.work station rule targets true] store
      (store.produce station rule targets) := by
  refine .log store station (fun log => ?_) fun other different log => ?_
  · simp only [List.foldl_cons, List.foldl_nil, Act.remember, if_true]
    unfold StationLog.produce
    split
    · rename_i known
      exact (if_pos known).symm
    · rename_i new
      exact (if_neg new).symm
  · exact if_neg (Ne.symm different)

theorem beginWork (store : Store σ) (station : StationId) (rule : RuleId)
    (targets : List Identifier) (tracked : Bool) :
    Explained exempt [.work station rule targets tracked] store
      (if tracked then store.produce station rule targets else store) := by
  cases tracked with
  | true => exact .produce store station rule targets
  | false => exact ⟨fun _ _ _ => rfl, fun _ => rfl⟩

theorem bus (store : Store σ) (bus : Bus σ) : Explained exempt [] store { store with bus } :=
  .of_eq rfl rfl rfl

theorem watch (store : Store σ) (station : StationId) (condition : RuleId)
    (ids : List Identifier) (callback : Listener σ) :
    Explained exempt [] store (store.watch station condition ids callback) := by
  rcases store.subscribeEach_eq callback ids with ⟨bus, subscribed⟩
  have subscribes : Explained exempt [] store (store.subscribeEach callback ids).2 :=
    subscribed ▸ Explained.bus store bus
  rw [Store.watch]
  exact subscribes.trans (.log _ station (fun _ => rfl) fun _ _ _ => rfl)

theorem unwatch (store : Store σ) (station : StationId) (condition : RuleId) :
    Explained exempt [] store (store.unwatch station condition).2 := by
  cases found : (store.logOf station).watches.lookup condition with
  | none => simpa only [Store.unwatch, found] using Explained.bus store store.bus
  | some keys =>
      let logged := store.updateLog station fun log =>
        { log with watches := log.watches.filter (·.1 ≠ condition) }
      rcases logged.unsubscribeEach_eq keys with ⟨bus, ended⟩
      have forgotten : Explained exempt [] store logged :=
        .log store station (fun _ => rfl) fun _ _ _ => rfl
      simp only [Store.unwatch, found]
      exact ended ▸ forgotten.trans (.bus logged bus)

end Explained

/-! ### Resets -/

theorem entry?_resetEach (store : Store σ) (ids : List Identifier) (id : Identifier) :
    Store.entry? (store.resetEach ids) id =
      (store.entry? id).map fun entry =>
        if entry.record.id ∈ ids then entry.reset else entry := by
  rw [resetEach_entries]
  simp only [Store.entry?, List.find?_map]
  congr 2
  funext entry
  simp only [Function.comp]
  split <;> rfl

theorem stored_resetEach {store : Store σ} {ids : List Identifier} {id : Identifier}
    (outside : id ∉ ids) : (store.resetEach ids).stored id = store.stored id := by
  rw [stored, stored, entry?_resetEach]
  cases found : store.entry? id with
  | none => rfl
  | some entry =>
      have kept : entry.record.id ∉ ids := (entry?_eq_some found).2 ▸ outside
      rw [Option.map_some, if_neg kept]

theorem resetAll_eq (store : Store σ) : store.resetAll = store.resetEach store.touched := by
  rw [resetAll, resetEach_entries]
  congr 1
  refine List.map_congr_left fun entry member => ?_
  exact (if_pos (List.mem_map_of_mem (f := fun entry => entry.record.id) member)).symm

theorem Explained.resetEach {exempt : Identifier → Prop} (store : Store σ)
    (ids : List Identifier) :
    Explained exempt [.reset ids] store (store.resetEach ids) where
  values id _ untouched := by
    have outside : id ∉ ids := untouched (.reset ids) (List.mem_singleton_self _)
    rw [valueOf, valueOf, stored_resetEach outside, denseValue, denseValue, resetEach_entries]
  work station := by rw [logOf, logOf, resetEach_entries]; rfl

end Store

theorem Run.reset_run (range : ResetRange) (world : World σ) :
    ∃ value, Run.reset range world = some (value,
      { world with store := world.store.resetEach (range.identifiers world.store) }) := by
  cases range with
  | identifier id => exact ⟨_, rfl⟩
  | cycle cycle => exact ⟨0, rfl⟩
  | all =>
      refine ⟨0, ?_⟩
      rw [ResetRange.identifiers, ← Store.resetAll_eq]
      rfl
  | produced station => exact ⟨0, rfl⟩

/-- Resetting one identifier answers the initial value of its entry. -/
theorem Store.resetOne_fst (store : Store σ) (id : Identifier) :
    (store.resetOne id).1 = ((store.entry? id).map Entry.initial).getD 0 := by
  change (store.resetEach [id]).stored id = _
  rw [stored, entry?_resetEach]
  cases found : store.entry? id with
  | none => rfl
  | some entry =>
      have isId := (entry?_eq_some found).2
      rw [Option.map_some, if_pos (List.mem_singleton.mpr isId)]
      rfl

theorem Run.reset_identifier (id : Identifier) (world : World σ) :
    (Run.reset (.identifier id) world).map (·.1) =
      some (((world.store.entry? id).map Entry.initial).getD 0) :=
  congrArg some (world.store.resetOne_fst id)

end NumericRules
