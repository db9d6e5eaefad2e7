import NumericRules.Proofs.Acts

/-! # Writes that are ignored

A set hook may refuse a write, and a name that is only read through a hook takes no value.
Such a write still makes an entry for a name that has none, and from then on resets give
the name its initial value. For a name that has an entry it has no effect on the store.
-/

namespace NumericRules

/-- What becomes of the state when a write is ignored, once its name has an entry. The set
hook fails and leaves the store alone, which is logged; or there is none, and the name is
read through a hook. -/
inductive Engine.Ignores (engine : Engine σ) (responder : Responder σ) (record : NameRecord σ)
    (update : Update) (operand : Binary64) (world : World σ) : World σ → Prop
  | refused {hook : SetHook σ} {message : String} (hooked : World σ) :
      record.setHook = some hook →
      (hook record.id update operand).play engine responder world =
        some (.error message, hooked) →
      hooked.store = world.store →
      Ignores engine responder record update operand world
        { hooked with log := hooked.log ++ [.setHookFailed record.id record.name message] }
  | readOnly {hook : GetHook σ} : record.setHook = none → record.getHook = some hook →
      Ignores engine responder record update operand world world

namespace Engine

section Ignored

variable {engine : Engine σ} {responder : Responder σ} {record : NameRecord σ} {update : Update}
  {operand : Binary64} {world after : World σ}

theorem Ignores.store (ignores : engine.Ignores responder record update operand world after) :
    after.store = world.store := by
  cases ignores with
  | refused _ _ _ same => exact same
  | readOnly => rfl

/-- The write retains what is stored. -/
theorem Ignores.keep (typed : record.id.isOrdered = false) (lasting : record.cycle ≠ .event)
    (ignores : engine.Ignores responder record update operand
      { world with store := world.store.touch record } after) :
    engine.keep responder record update operand world =
      some (world.store.stored record.id, after) := by
  have touched : (Run.changeStore fun store => ((), store.touch record) : Run σ Unit) world =
      some ((), { world with store := world.store.touch record }) := rfl
  rw [Engine.keep, typed, if_neg Bool.false_ne_true, writeEntry, Run.bind_apply, touched]
  have sameValue : (world.store.touch record).stored record.id = world.store.stored record.id :=
    Store.stored_touch record.id
  simp only [if_neg lasting]
  rw [← sameValue]
  cases ignores with
  | refused _ set played same =>
      simp only [set]
      rw [Run.bind_apply, played]
      exact congrArg (fun store : Store σ => some (store.stored record.id, _)) same
  | readOnly unset hooked =>
      simp only [unset, hooked]
      rfl

/-- A write that is ignored retains what is stored, and nothing but the entry of its name
can show later that it was attempted: there is one by the time the listeners are told. The
store is then what it was before exactly if the name had an entry already. If it had none,
no value changes, but the name is listed under its cycle, and a reset will give it its
initial value. -/
theorem ignored_write {depth : Nat} (known : engine.registry.record? record.id = some record)
    (typed : record.id.isOrdered = false) (lasting : record.cycle ≠ .event)
    (ignores : engine.Ignores (engine.respond depth) record update operand
      { world with store := world.store.touch record } after) :
    engine.keep (engine.respond depth) record update operand world =
      some (world.store.stored record.id, after) ∧
    (after.Silent record.id → engine.respond (depth + 1) (.write record.id update operand) world =
      some (world.store.stored record.id, after)) ∧
    (after.store = world.store ↔ record.id ∈ world.store.touched) ∧
    (record.setHook = none → record.id ∈ world.store.touched → after = world) ∧
    (∀ id, after.store.valueOf id = world.store.valueOf id) ∧
    (record.id ∉ world.store.touched →
      after.store = { world.store with
        entries := world.store.entries ++ [⟨record, 0⟩]
        byCycle := fun cycle => world.store.byCycle cycle ++
          if cycle = record.cycle then [record.id] else [] } ∧
      (Run.reset (.identifier record.id) world).map (·.1) = some 0 ∧
      (Run.reset (.identifier record.id) after).map (·.1) = some record.bounds.initial) := by
  have kept := ignores.keep typed lasting
  have store : after.store = world.store.touch record := ignores.store
  have absent (untouched : record.id ∉ world.store.touched) :
      world.store.entry? record.id = none :=
    Option.not_isSome_iff_eq_none.mp fun present => untouched (Store.entry?_isSome.mp present)
  refine ⟨kept, fun silent => ?_, ⟨fun same => ?_, fun touched => ?_⟩, fun unset touched => ?_,
    fun id => ?_, fun untouched => ⟨?_, ?_, ?_⟩⟩
  · change engine.writeOnce (engine.respond depth) record.id update operand world = _
    rw [writeOnce_eq known, Run.bind_apply, kept]
    exact engine.tell_silent _ ⟨record.id, update, operand⟩ silent _
  · by_contra untouched
    rw [store, Store.touch_of_notMem untouched] at same
    have entries := congrArg (fun store => store.entries.length) same
    simp at entries
  · rw [store, Store.touch_of_mem touched]
  · cases ignores with
    | refused _ set => cases unset.symm.trans set
    | readOnly => rw [Store.touch_of_mem touched]
  · rw [store, Store.valueOf_touch]
  · rw [store, Store.touch_of_notMem untouched]
    congr 1
    funext cycle
    split
    · rfl
    · exact (List.append_nil _).symm
  · rw [Run.reset_identifier, absent untouched]
    rfl
  · rw [Run.reset_identifier, store, Store.entry?_touch, absent untouched, if_pos rfl]
    exact congrArg some (if_neg lasting)

end Ignored

/-! ### A locked name and a derived one -/

namespace Locks

/-- A set hook that refuses every write and counts them. -/
def refuse : SetHook Nat := fun _ _ _ => .host (· + 1) fun _ => .fail "locked"

/-- A get hook that computes a constant. -/
def derive : GetHook Nat := fun _ => .finish (.ok 42)

/-- An engine that knows a name with either hook. -/
def engine : Engine Nat where
  registry := .ofRequests [.addName "stat" "lock" 0 .day { initial := 5 },
    .hookName "lock" (.set refuse), .addName "reading" "gauge" 0 .day { initial := 5 },
    .hookName "gauge" (.get derive)]
  functions := Function.builtins
  settings := {}

def lock : NameRecord Nat :=
  { id := ⟨0x1000001, Nat.one_ne_zero⟩, name := "lock", cycle := .day, bounds := { initial := 5 }
    setHook := some refuse }

def gauge : NameRecord Nat :=
  { id := ⟨0x2000001, Nat.one_ne_zero⟩, name := "gauge", cycle := .day, bounds := { initial := 5 }
    getHook := some derive }

def opening : World Nat := engine.start 0 ⟨fun _ => 0, 0⟩

/-- Both names have been written. -/
def noticed : World Nat :=
  { opening with store := (opening.store.touch lock).touch gauge }

/-- The state after another write of the lock. -/
def refused : World Nat :=
  { noticed with host := 1, log := [.setHookFailed lock.id "lock" "locked"] }

end Locks

open Locks in
/-- Writes of names that have been written before. -/
theorem ignored_write_noticed :
    Locks.engine.Ignores (Locks.engine.respond 1) lock .set 3
      { noticed with store := noticed.store.touch lock } refused ∧
    Locks.engine.respond 2 (.write lock.id .set 3) noticed = some (0, refused) ∧
    refused.store = noticed.store ∧
    Locks.engine.Ignores (Locks.engine.respond 1) gauge .increase 3
      { noticed with store := noticed.store.touch gauge } noticed ∧
    Locks.engine.respond 2 (.write gauge.id .increase 3) noticed = some (0, noticed) := by
  have ofLock : Locks.engine.Ignores (Locks.engine.respond 1) lock .set 3
      { noticed with store := noticed.store.touch lock } refused :=
    .refused { noticed with host := 1 } rfl rfl rfl
  have ofGauge : Locks.engine.Ignores (Locks.engine.respond 1) gauge .increase 3
      { noticed with store := noticed.store.touch gauge } noticed := .readOnly rfl rfl
  have written := ignored_write rfl rfl (by decide) ofLock
  have derived := ignored_write rfl rfl (by decide) ofGauge
  refine ⟨ofLock, written.2.1 ⟨rfl, rfl⟩, written.2.2.1.mpr (by decide), ofGauge,
    derived.2.1 ⟨rfl, rfl⟩⟩

open Locks in
/-- The first write of the lock is ignored, and still it makes a difference to what a reset
does. -/
theorem ignored_write_leaves_entry :
    ∃ after, Locks.engine.Ignores (Locks.engine.respond 1) lock .set 3
        { opening with store := opening.store.touch lock } after ∧
      Locks.engine.respond 2 (.write lock.id .set 3) opening = some (0, after) ∧
      opening.store.touched = [] ∧ after.store.touched = [lock.id] ∧
      opening.store.byCycle .day = [] ∧ after.store.byCycle .day = [lock.id] ∧
      (Run.reset (.identifier lock.id) opening).map (·.1) = some 0 ∧
      (Run.reset (.identifier lock.id) after).map (·.1) = some 5 :=
  ⟨_, .refused _ rfl rfl rfl, rfl, rfl, rfl, rfl, rfl, rfl, rfl⟩

end Engine

end NumericRules
