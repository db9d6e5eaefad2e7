import NumericRules.Proofs.Acts

/-! # Resets

The lists that a store keeps for its cycles have every entry exactly once. So the resets of
the cycles, in whatever order, are the reset of everything, and so are the resets of the
names. What a name is reset to does not depend on its value, and a second reset changes
nothing.
-/

namespace NumericRules

theorem Cycle.mem_all (cycle : Cycle) : cycle ∈ all := by
  cases cycle <;> decide

/-- A store at work with subscriptions at it and at the engine. -/
def World.around (world : World σ) (engineBus storeBus : Bus σ) (store : Store σ) : World σ :=
  { world with store := { store with bus := storeBus }, bus := engineBus }

namespace Store

/-! ## Several resets -/

theorem resetEach_append (store : Store σ) (first second : List Identifier) :
    store.resetEach (first ++ second) = (store.resetEach first).resetEach second := by
  induction first generalizing store with
  | nil => rfl
  | cons id rest induction => exact induction (store.updateEntry id Entry.reset)

/-- The order of resets does not matter, nor how often a name is reset. -/
theorem resetEach_congr {store : Store σ} {first second : List Identifier}
    (same : ∀ id ∈ store.touched, id ∈ first ↔ id ∈ second) :
    store.resetEach first = store.resetEach second := by
  simp only [resetEach_entries]
  congr 1
  refine List.map_congr_left fun entry member => ?_
  simp only [same entry.record.id (List.mem_map_of_mem member)]

theorem resetEach_again (store : Store σ) (ids : List Identifier) :
    (store.resetEach ids).resetEach ids = store.resetEach ids := by
  rw [← resetEach_append]
  exact resetEach_congr fun id _ => by simp

theorem byCycle_resetEach (store : Store σ) (ids : List Identifier) :
    (store.resetEach ids).byCycle = store.byCycle := by
  rw [resetEach_entries]

theorem touched_resetEach (store : Store σ) (ids : List Identifier) :
    (store.resetEach ids).touched = store.touched := by
  rw [resetEach_entries]
  exact touched_map fun entry => by split <;> rfl

/-- Resets have nothing to do with subscriptions. -/
theorem resetEach_bus (store : Store σ) (bus : Bus σ) (ids : List Identifier) :
    { store with bus }.resetEach ids = { store.resetEach ids with bus } := by
  simp only [resetEach_entries]

theorem resetOne_eq (store : Store σ) (id : Identifier) :
    store.resetOne id = ((store.resetEach [id]).stored id, store.resetEach [id]) := rfl

theorem foldl_resetOne (store : Store σ) (ids : List Identifier) :
    ids.foldl (fun store id => (store.resetOne id).2) store = store.resetEach ids := by
  induction ids generalizing store with
  | nil => rfl
  | cons id rest induction => exact induction (store.updateEntry id Entry.reset)

theorem foldl_resetCycle (store : Store σ) (cycles : List Cycle) :
    cycles.foldl resetCycle store = store.resetEach (cycles.flatMap store.byCycle) := by
  induction cycles generalizing store with
  | nil => rfl
  | cons cycle rest induction =>
      rw [List.foldl_cons, induction, resetCycle, byCycle_resetEach, ← resetEach_append,
        List.flatMap_cons]

/-! ## The lists of the cycles -/

theorem Shaped.resetCycle_eq {registry : Registry σ} {store : Store σ}
    (shaped : Shaped registry store) (cycle : Cycle) :
    store.resetCycle cycle =
      { store with
        entries := store.entries.map fun entry =>
          if entry.record.cycle = cycle then entry.reset else entry } := by
  rw [resetCycle, resetEach_entries]
  congr 1
  refine List.map_congr_left fun entry member => ?_
  have listed : entry.record.id ∈ store.byCycle cycle ↔ entry.record.cycle = cycle := by
    rw [shaped.mem_byCycle]
    constructor
    · rintro ⟨other, otherMember, same, ofCycle⟩
      exact List.inj_on_of_nodup_map shaped.nodup otherMember member same ▸ ofCycle
    · exact fun ofCycle => ⟨entry, member, rfl, ofCycle⟩
  simp only [listed]

/-- The lists of all cycles have every entry. -/
theorem Shaped.mem_flatMap_byCycle {registry : Registry σ} {store : Store σ}
    (shaped : Shaped registry store) {cycles : List Cycle} (all : ∀ cycle, cycle ∈ cycles)
    {id : Identifier} : id ∈ cycles.flatMap store.byCycle ↔ id ∈ store.touched := by
  simp only [List.mem_flatMap, shaped.mem_byCycle, touched, List.mem_map]
  constructor
  · rintro ⟨_, _, entry, member, rfl, _⟩
    exact ⟨entry, member, rfl⟩
  · rintro ⟨entry, member, rfl⟩
    exact ⟨entry.record.cycle, all _, entry, member, rfl, rfl⟩

/-! ## All resets of a store at work -/

/-- Resetting a cycle restores the touched names whose record has the cycle, to 0 if they
are events and else to the initial value, which is not limited, and changes nothing else.
Resetting everything is resetting all cycles in any order, and resetting all touched names
in any order. A second reset changes nothing. Whatever listens to the store or to the
engine, a reset does not call it. -/
theorem Reached.resets {engine : Engine σ} {store : Store σ} (reached : store.Reached engine) :
    (∀ entry ∈ store.entries, engine.registry.record? entry.record.id = some entry.record) ∧
    (∀ cycle, store.resetCycle cycle =
      { store with
        entries := store.entries.map fun entry =>
          if entry.record.cycle = cycle then
            { entry with value := if cycle = .event then 0 else entry.record.bounds.initial }
          else entry }) ∧
    (∀ cycles : List Cycle, cycles.Perm Cycle.all →
      cycles.foldl resetCycle store = store.resetAll) ∧
    (∀ ids : List Identifier, ids.Perm store.touched →
      ids.foldl (fun store id => (store.resetOne id).2) store = store.resetAll) ∧
    (∀ cycle, (store.resetCycle cycle).resetCycle cycle = store.resetCycle cycle) ∧
    store.resetAll.resetAll = store.resetAll ∧
    (∀ id, (store.resetOne id).2.resetOne id = store.resetOne id ∧
      (store.resetOne id).1 = ((store.entry? id).map Entry.initial).getD 0) ∧
    ∀ (world : World σ) (engineBus storeBus : Bus σ),
      (∀ cycle, Run.reset (.cycle cycle) (world.around engineBus storeBus store) =
        some (0, world.around engineBus storeBus (store.resetCycle cycle))) ∧
      (∀ id, Run.reset (.identifier id) (world.around engineBus storeBus store) =
        some ((store.resetOne id).1,
          world.around engineBus storeBus (store.resetOne id).2)) ∧
      Run.reset .all (world.around engineBus storeBus store) =
        some (0, world.around engineBus storeBus store.resetAll) := by
  have shaped := reached.sound.toShaped
  refine ⟨shaped.known, fun cycle => ?_, fun cycles order => ?_, fun ids order => ?_,
    fun cycle => ?_, ?_, fun id => ⟨?_, store.resetOne_fst id⟩, fun world engineBus storeBus => ?_⟩
  · rw [shaped.resetCycle_eq]
    congr 1
    refine List.map_congr_left fun entry _ => ?_
    by_cases ofCycle : entry.record.cycle = cycle
    · rw [if_pos ofCycle, if_pos ofCycle, Entry.reset, Entry.initial, ofCycle]
    · rw [if_neg ofCycle, if_neg ofCycle]
  · rw [foldl_resetCycle, resetAll_eq]
    have all (cycle : Cycle) : cycle ∈ cycles := order.mem_iff.mpr cycle.mem_all
    exact resetEach_congr fun id touched =>
      iff_of_true ((shaped.mem_flatMap_byCycle all).mpr touched) touched
  · rw [foldl_resetOne, resetAll_eq]
    exact resetEach_congr fun id touched => iff_of_true (order.mem_iff.mpr touched) touched
  · rw [resetCycle, resetCycle, byCycle_resetEach, resetEach_again]
  · rw [resetAll_eq (store.resetAll), resetAll_eq, touched_resetEach, resetEach_again]
  · change ((store.resetEach [id]).resetOne id) = store.resetOne id
    rw [resetOne_eq, resetOne_eq, resetEach_again]
  · have heard (ids : List Identifier) := store.resetEach_bus storeBus ids
    refine ⟨fun cycle => ?_, fun id => ?_, rfl⟩
    · exact congrArg (fun after => some ((0 : Binary64), { world with
        store := after
        bus := engineBus })) (heard (store.byCycle cycle))
    · exact congrArg (fun after => some (after.stored id, { world with
        store := after
        bus := engineBus })) (heard [id])

namespace Refilled

def engine : Engine Unit :=
  ⟨.ofRequests [.addName "d" "a" 1 .day ⟨5, 0, 3⟩, .addName "e" "b" 1 .event {}],
    Function.builtins, {}⟩

/-- A name of every day, whose initial value is above its greatest one. -/
def daily : NameRecord Unit :=
  { id := ⟨0x1000001, Nat.one_ne_zero⟩, name := "a", cycle := .day, bounds := ⟨5, 0, 3⟩ }

def event : NameRecord Unit :=
  { id := ⟨0x2000001, Nat.one_ne_zero⟩, name := "b", cycle := .event }

/-- The daily name has 2, and the event was written to before it. -/
def store : Store Unit := (Store.touch (.new engine.registry none) event).assign daily .set 2

end Refilled

theorem Reached.resets_refilled :
    Refilled.store.Reached Refilled.engine ∧ Refilled.store.stored Refilled.daily.id = 2 ∧
      (Refilled.store.resetCycle .day).stored Refilled.daily.id = 5 ∧
      (Refilled.store.resetCycle .event).stored Refilled.daily.id = 2 ∧
      Cycle.all.reverse.foldl resetCycle Refilled.store = Refilled.store.resetAll := by
  have reached : Refilled.store.Reached Refilled.engine :=
    ⟨none, .edit (.edit .start (.touch _ Refilled.event rfl rfl fun plain => plain.retained rfl))
      (.assign _ Refilled.daily .set 2 rfl rfl ⟨by decide, rfl, rfl⟩)⟩
  rcases reached.resets with ⟨_, cycle, cycles, _⟩
  refine ⟨reached, by decide +kernel, ?_, ?_, cycles _ (List.reverse_perm _)⟩
  · rw [cycle]
    decide +kernel
  · rw [cycle]
    decide +kernel

end Store

end NumericRules
