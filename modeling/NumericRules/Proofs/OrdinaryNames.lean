import NumericRules.Proofs.FixedValues
import NumericRules.Proofs.StoreInvariant

/-! # Names without hooks

Reading a name that has no hook gives what is stored and changes nothing. Writing one
that nobody listens to changes its value and nothing else.
-/

namespace NumericRules

/-- A name that keeps every value from 0 up, and has no hooks. -/
structure NameRecord.Ordinary (record : NameRecord σ) : Prop where
  least : record.bounds.least = 0
  greatest : (record.bounds.greatest == 0) = true
  lasting : record.id.isOrdered = true ∨ record.cycle ≠ .event
  getHook : record.getHook = none
  setHook : record.setHook = none

/-- Ordinary names have the range of the slots of a process. -/
theorem NameRecord.Ordinary.clamp_eq {record : NameRecord σ} (ordinary : record.Ordinary)
    (value : Binary64) : record.bounds.clamp value = ({} : Bounds).clamp value := by
  have unbounded : ((0 : Binary64) != 0) = false := by decide
  simp only [Bounds.clamp, bne, ordinary.greatest, ordinary.least] at unbounded ⊢
  simp [unbounded]

theorem Bounds.clamp_default (value : Binary64) :
    ({} : Bounds).clamp value = if value < 0 then 0 else value := by
  have unbounded : ((0 : Binary64) != 0) = false := by decide
  simp only [Bounds.clamp, unbounded, Bool.false_and, Bool.false_eq_true, if_false]

theorem Bounds.clamp_clamp (value : Binary64) :
    ({} : Bounds).clamp (({} : Bounds).clamp value) = ({} : Bounds).clamp value := by
  simp only [clamp_default]
  split
  · rw [if_neg (Binary64.lt_irrefl 0)]
  · rfl

theorem Bounds.clamp_of_isNotANumber {value : Binary64} (notANumber : value.isNotANumber = true) :
    ({} : Bounds).clamp value = value := by
  have notBelow : ¬value < 0 := by
    intro below
    have numbers : value.comparable 0 = true := below.1
    rw [Binary64.comparable, notANumber] at numbers
    cases numbers
  rw [clamp_default, if_neg notBelow]

namespace Store

/-- The value of a name, whatever its hooks. -/
def valueOf (store : Store σ) (id : Identifier) : Binary64 :=
  if id.isOrdered then store.denseValue id else store.stored id

/-- The store after a write of a name without hooks. -/
def written (store : Store σ) (record : NameRecord σ) (update : Update) (operand : Binary64) :
    Store σ :=
  if record.id.isOrdered then (store.updateDense record update operand).2
  else store.assign record update operand

section Written

variable {registry : Registry σ} {store : Store σ} {record : NameRecord σ}

theorem bus_written (store : Store σ) (record : NameRecord σ) (update : Update)
    (operand : Binary64) :
    (store.written record update operand).bus = store.bus := by
  unfold written
  split
  · rw [updateDense_snd]
  · exact store.bus_touch record

theorem stored_updateDense (update : Update) (operand : Binary64) (id : Identifier) :
    (store.updateDense record update operand).2.stored id = store.stored id := by
  rw [updateDense_snd]
  rfl

theorem entry?_touch (id : Identifier) :
    Store.entry? (store.touch record) id =
      (store.entry? id).or (if record.id = id then some ⟨record, 0⟩ else none) := by
  by_cases present : record.id ∈ store.touched
  · rw [touch_of_mem present]
    split
    · rename_i same
      rw [same, ← entry?_isSome] at present
      rw [Option.or_of_isSome present]
    · rw [Option.or_none]
  · rw [touch_of_notMem present]
    simp only [Store.entry?, List.find?_append, List.find?_singleton, beq_iff_eq]

theorem stored_touch (id : Identifier) : (store.touch record).stored id = store.stored id := by
  rw [stored, stored, entry?_touch]
  cases store.entry? id with
  | some entry => rfl
  | none =>
      rw [Option.none_or]
      by_cases same : record.id = id
      · rw [if_pos same]
      · rw [if_neg same]

theorem entry?_retain (key id : Identifier) (value : Binary64) :
    Store.entry? (store.retain key value) id =
      (store.entry? id).map fun entry =>
        if entry.record.id = key then { entry with value } else entry := by
  simp only [Store.entry?, retain, updateEntry, List.find?_map]
  congr 2
  funext entry
  simp only [Function.comp]
  split <;> rfl

theorem stored_retain_self {id : Identifier} (present : (store.entry? id).isSome = true)
    (value : Binary64) : (store.retain id value).stored id = value := by
  rcases Option.isSome_iff_exists.mp present with ⟨entry, found⟩
  rw [stored, entry?_retain, found, Option.map_some, if_pos (entry?_eq_some found).2]

theorem stored_retain_ne {key id : Identifier} (different : id ≠ key) (value : Binary64) :
    (store.retain key value).stored id = store.stored id := by
  rw [stored, stored, entry?_retain]
  cases found : store.entry? id with
  | none => rfl
  | some entry =>
      rw [Option.map_some, (entry?_eq_some found).2, if_neg different]

theorem stored_assign (update : Update) (operand : Binary64) (id : Identifier) :
    (store.assign record update operand).stored id =
      if id = record.id then record.bounds.clamp (update.apply (store.stored id) operand)
      else store.stored id := by
  rw [assign, stored_touch]
  by_cases same : id = record.id
  · subst same
    have present : (Store.entry? (store.touch record) record.id).isSome = true := by
      rw [entry?_touch, if_pos rfl, Option.isSome_or, Option.isSome_some, Bool.or_true]
    rw [if_pos rfl, stored_retain_self present]
  · rw [if_neg same, stored_retain_ne same, stored_touch]

theorem valueOf_written (sound : Sound registry store) (placed : registry.Placed)
    (known : registry.record? record.id = some record) (update : Update) (operand : Binary64)
    (id : Identifier) :
    (store.written record update operand).valueOf id =
      if id = record.id then record.bounds.clamp (update.apply (store.valueOf id) operand)
      else store.valueOf id := by
  cases ordered : record.id.isOrdered with
  | true =>
      rw [written, if_pos ordered, valueOf, valueOf, stored_updateDense]
      by_cases same : id = record.id
      · rw [if_pos same, same, if_pos ordered, if_pos ordered,
          denseValue_updateDense (sound.place_lt placed known ordered)]
      · rw [if_neg same]
        split
        · rename_i alsoOrdered
          rw [denseValue_updateDense_ne ordered alsoOrdered (Ne.symm same)]
        · rfl
  | false =>
      rw [written, ordered, if_neg Bool.false_ne_true, valueOf, valueOf, stored_assign]
      have dense : (store.assign record update operand).denseValue id = store.denseValue id :=
        congrArg (fun dense : Array Binary64 => (dense[id.raw - 1]?).getD 0) (dense_touch record)
      rw [dense]
      by_cases same : id = record.id
      · rw [if_pos same, if_pos same, same, ordered, if_neg Bool.false_ne_true,
          if_neg Bool.false_ne_true]
      · rw [if_neg same, if_neg same]

theorem Sound.written (sound : Sound registry store)
    (known : registry.record? record.id = some record) (ordinary : record.Ordinary)
    (update : Update) (operand : Binary64) :
    Sound registry (store.written record update operand) := by
  cases ordered : record.id.isOrdered with
  | true =>
      rw [Store.written, if_pos ordered]
      exact sound.edit (.place store record update operand known ordered)
  | false =>
      rw [Store.written, ordered, if_neg Bool.false_ne_true]
      have lasting : record.cycle ≠ .event :=
        ordinary.lasting.resolve_left (by simp [ordered])
      exact sound.edit (.assign store record update operand known ordered
        ⟨lasting, ordinary.getHook, ordinary.setHook⟩)

end Written

end Store

/-! ## Requests -/

/-- A name that is read without a hook. -/
def Engine.Hookless (engine : Engine σ) (id : Identifier) : Prop :=
  id.isOrdered = true ∨
    ∀ record, engine.registry.record? id = some record → record.getHook = none

/-- Nobody is told of changes of the name. -/
def World.Silent (world : World σ) (id : Identifier) : Prop :=
  world.bus.listeners id = [] ∧ world.store.bus.listeners id = []

theorem World.Silent.withStore {world : World σ} {id : Identifier} (silent : world.Silent id)
    {store : Store σ} (sameBus : store.bus = world.store.bus) :
    ({ world with store } : World σ).Silent id :=
  ⟨silent.1, sameBus ▸ silent.2⟩

section Requests

variable {engine : Engine σ} {store : Store σ}

theorem Store.Shaped.stored_unknown {registry : Registry σ} (shaped : store.Shaped registry)
    {id : Identifier} (unknown : registry.record? id = none) : store.stored id = 0 := by
  cases found : store.entry? id with
  | none => rw [Store.stored, found]
  | some entry =>
      rcases Store.entry?_eq_some found with ⟨member, rfl⟩
      rw [shaped.known entry member] at unknown
      cases unknown

theorem Engine.read_fixed (sound : store.Sound engine.registry) {id : Identifier}
    (hookless : engine.Hookless id) (depth : Nat) :
    (engine.respond (depth + 1) (.read id)).Fixed store (store.valueOf id) := by
  rintro world rfl
  rw [respond, answer, readOnce, Run.store_bind, Store.valueOf]
  cases ordered : id.isOrdered with
  | true => rfl
  | false =>
      simp only [Bool.false_eq_true, if_false]
      cases known : engine.registry.record? id with
      | none =>
          rw [sound.stored_unknown known]
          rfl
      | some record =>
          have plain := hookless.resolve_left (by simp [ordered]) record known
          simp only [plain]
          rfl

theorem Engine.tell_silent (engine : Engine σ) (responder : Responder σ) (change : Change)
    {world : World σ} (silent : world.Silent change.id) (retained : Binary64) : (do
      let world ← get
      engine.deliver responder change (world.bus.listeners change.id)
      let world ← get
      engine.deliver responder change (world.store.bus.listeners change.id)
      pure retained : Run σ Binary64) world = some (retained, world) := by
  have nobody : engine.deliver responder change [] = pure () := rfl
  rw [Run.bind_apply]
  change (engine.deliver responder change (world.bus.listeners change.id) >>= _) world = _
  rw [silent.1, nobody, pure_bind, Run.bind_apply]
  change (engine.deliver responder change (world.store.bus.listeners change.id) >>= _) world = _
  rw [silent.2, nobody, pure_bind]
  rfl

/-- A write of an ordinary name that nobody listens to. -/
theorem Engine.write_run {record : NameRecord σ} {world : World σ}
    (known : engine.registry.record? record.id = some record) (ordinary : record.Ordinary)
    (silent : world.Silent record.id) (depth : Nat) (update : Update) (operand : Binary64) :
    ∃ retained, engine.respond (depth + 1) (.write record.id update operand) world =
      some (retained, { world with store := world.store.written record update operand }) := by
  change ∃ retained, engine.writeOnce (engine.respond depth) record.id update operand world = _
  simp only [writeOnce, known]
  have told := engine.tell_silent (engine.respond depth) ⟨record.id, update, operand⟩
    (silent.withStore (world.store.bus_written record update operand))
  cases ordered : record.id.isOrdered with
  | true =>
      have changed : ∃ retained, (Run.changeStore (·.updateDense record update operand) :
          Run σ Binary64) world =
            some (retained, { world with store := world.store.written record update operand }) := by
        rw [Store.written, if_pos ordered]
        exact ⟨_, rfl⟩
      rcases changed with ⟨retained, changed⟩
      rw [if_pos rfl, Run.bind_apply, changed]
      exact ⟨retained, told retained⟩
  | false =>
      have changed : ∃ retained, engine.writeEntry (engine.respond depth) record update operand
          world =
            some (retained, { world with store := world.store.written record update operand }) := by
        have lasting := ordinary.lasting.resolve_left (by simp [ordered])
        rw [Store.written, ordered, if_neg Bool.false_ne_true, writeEntry]
        simp only [lasting, if_false, ordinary.setHook, ordinary.getHook, Option.isSome_none,
          Bool.false_eq_true]
        exact ⟨_, rfl⟩
      rcases changed with ⟨retained, changed⟩
      rw [if_neg Bool.false_ne_true, Run.bind_apply, changed]
      exact ⟨retained, told retained⟩

/-- Ordinary names that nobody listens to get their values one by one. -/
theorem Engine.writeAll_run (registered : engine.registry.Reachable) (depth : Nat)
    {saved : List (Identifier × Binary64)} (nodup : (saved.map Prod.fst).Nodup)
    {world : World σ} (ordinary : ∀ write ∈ saved, (∃ record,
      engine.registry.record? write.1 = some record ∧ record.Ordinary) ∧ world.Silent write.1)
    (sound : world.store.Sound engine.registry) :
    ∃ after, (engine.respond (depth + 1)).writeAll saved world =
        some ((), { world with store := after }) ∧
      after.Sound engine.registry ∧
      (∀ write ∈ saved, after.valueOf write.1 = ({} : Bounds).clamp write.2) ∧
      ∀ id, id ∉ saved.map Prod.fst → after.valueOf id = world.store.valueOf id := by
  induction saved generalizing world with
  | nil => exact ⟨world.store, rfl, sound, by simp, fun _ _ => rfl⟩
  | cons write rest induction =>
      rcases List.nodup_cons.mp nodup with ⟨fresh, restNodup⟩
      rcases List.forall_mem_cons.mp ordinary with ⟨⟨⟨record, known, plain⟩, silent⟩, others⟩
      have isRecord := record?_id known
      rw [← isRecord] at known silent
      rcases engine.write_run known plain silent depth .set write.2 with ⟨retained, writes⟩
      have written := Store.valueOf_written sound registered.placed known .set write.2
      have sameBus := world.store.bus_written record .set write.2
      rcases induction restNodup
          (fun other member => ⟨(others other member).1, (others other member).2.withStore sameBus⟩)
          (sound.written known plain .set write.2) with
        ⟨after, runs, afterSound, given, kept⟩
      refine ⟨after, ?_, afterSound, List.forall_mem_cons.mpr ⟨?_, given⟩, fun id other => ?_⟩
      · rw [Responder.writeAll, Run.bind_apply, Responder.write, ← isRecord, writes]
        exact runs
      · rw [kept _ fresh, written, if_pos isRecord.symm, plain.clamp_eq]
        rfl
      · rw [List.map_cons, List.mem_cons, not_or] at other
        rw [kept id other.2, written, if_neg (isRecord ▸ other.1)]

end Requests

end NumericRules
