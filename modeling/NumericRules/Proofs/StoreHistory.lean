import NumericRules.Proofs.RunRelation
import Mathlib.Logic.Relation

/-! # Histories of stores

Whatever is done to a store, also by code of the host program in the middle of a
change, is a chain of elementary edits, so that what holds of all stores is shown for
one edit at a time.
-/

namespace NumericRules

/-- A name that keeps what is written to it and has no hooks. -/
structure NameRecord.Plain (record : NameRecord σ) : Prop where
  retained : record.cycle ≠ .event
  getHook : record.getHook = none
  setHook : record.setHook = none

namespace ConditionRule

/-- The identifiers of a condition, each where it comes first. -/
def identifiers (condition : ConditionRule) : List Identifier :=
  firstOccurrences (condition.root.references.map (·.id))

end ConditionRule

namespace Store

/-! ## What becomes of a store -/

theorem subscribeEach_eq (store : Store σ) (callback : Listener σ) (ids : List Identifier) :
    ∃ bus, (store.subscribeEach callback ids).2 = { store with bus } := by
  induction ids generalizing store with
  | nil => exact ⟨store.bus, rfl⟩
  | cons id rest induction =>
      rcases induction { store with bus := (store.bus.add id callback).2 } with ⟨bus, same⟩
      exact ⟨bus, same⟩

theorem unsubscribeEach_eq (store : Store σ) (keys : List (Identifier × SubscriptionKey)) :
    ∃ bus, store.unsubscribeEach keys = { store with bus } := by
  induction keys generalizing store with
  | nil => exact ⟨store.bus, rfl⟩
  | cons key rest induction =>
      rcases induction { store with bus := (store.bus.remove key.1 key.2).2 } with ⟨bus, same⟩
      exact ⟨bus, same⟩

theorem bus_touch (store : Store σ) (record : NameRecord σ) :
    (store.touch record).bus = store.bus := by
  unfold touch
  split <;> rfl

theorem logs_touch (store : Store σ) (record : NameRecord σ) :
    (store.touch record).logs = store.logs := by
  unfold touch
  split <;> rfl

/-- An ordered name without a place is not updated. -/
theorem updateDense_snd (store : Store σ) (record : NameRecord σ) (update : Update)
    (operand : Binary64) :
    (store.updateDense record update operand).2 =
      { store with
        dense := store.dense.set! (record.id.raw - 1)
          (record.bounds.clamp (update.apply (store.denseValue record.id) operand)) } := by
  cases found : store.dense[record.id.raw - 1]? with
  | none =>
      have unchanged := Array.setIfInBounds_eq_of_size_le
        (a := record.bounds.clamp (update.apply (store.denseValue record.id) operand))
        (Array.getElem?_eq_none_iff.mp found)
      simp only [updateDense, found, Array.set!_eq_setIfInBounds, unchanged]
  | some current => simp only [updateDense, denseValue, found, Option.getD_some]

/-! ## Elementary edits -/

/-- The store after an update of a name that is kept within its bounds. -/
def assign (store : Store σ) (record : NameRecord σ) (update : Update) (operand : Binary64) :
    Store σ :=
  let touched := store.touch record
  touched.retain record.id
    (record.bounds.clamp (update.apply (touched.stored record.id) operand))

/-- Whether an edit begins a watch or ends one. -/
inductive Purpose where
  | watch (station : StationId) (condition : ConditionRule)
  | unwatch (station : StationId) (condition : RuleId)
  | other

/-- One edit of a store. -/
inductive Edit (registry : Registry σ) : Purpose → Store σ → Store σ → Prop
  | touch (store : Store σ) (record : NameRecord σ)
      (known : registry.record? record.id = some record) (typed : record.id.isOrdered = false)
      (special : ¬record.Plain) : Edit registry .other store (store.touch record)
  | assign (store : Store σ) (record : NameRecord σ) (update : Update) (operand : Binary64)
      (known : registry.record? record.id = some record) (typed : record.id.isOrdered = false)
      (plain : record.Plain) : Edit registry .other store (store.assign record update operand)
  | retain (store : Store σ) (record : NameRecord σ) (value : Binary64)
      (known : registry.record? record.id = some record) (lasting : record.cycle ≠ .event)
      (hooked : record.setHook ≠ none) : Edit registry .other store (store.retain record.id value)
  | place (store : Store σ) (record : NameRecord σ) (update : Update) (operand : Binary64)
      (known : registry.record? record.id = some record) (ordered : record.id.isOrdered = true) :
      Edit registry .other store (store.updateDense record update operand).2
  | reset (store : Store σ) (id : Identifier) :
      Edit registry .other store (store.updateEntry id Entry.reset)
  | resetAll (store : Store σ) : Edit registry .other store store.resetAll
  | produce (store : Store σ) (station : StationId) (rule : RuleId)
      (targets : List Identifier) : Edit registry .other store (store.produce station rule targets)
  | subscribe (store : Store σ) (id : Identifier) (callback : Listener σ) :
      Edit registry .other store { store with bus := (store.bus.add id callback).2 }
  | unsubscribe (store : Store σ) (id : Identifier) (key : SubscriptionKey) :
      Edit registry .other store { store with bus := (store.bus.remove id key).2 }
  | unsubscribeAll (store : Store σ) (id : Identifier) :
      Edit registry .other store { store with bus := (store.bus.removeAll id).2 }
  | clear (store : Store σ) : Edit registry .other store { store with bus := store.bus.clear }
  | watch (store : Store σ) (station : StationId) (condition : ConditionRule)
      (callback : Script σ .writing) (new : store.isWatching station condition.id = false) :
      Edit registry (.watch station condition) store
        (store.watch station condition.id condition.identifiers
          (watcher condition.root callback))
  | unwatch (store : Store σ) (station : StationId) (condition : RuleId) :
      Edit registry (.unwatch station condition) store (store.unwatch station condition).2

/-- A chain of edits. -/
def Edited (registry : Registry σ) : Store σ → Store σ → Prop :=
  Relation.ReflTransGen fun before after => ∃ purpose, Edit registry purpose before after

namespace Edited

variable {registry : Registry σ}

theorem refl (store : Store σ) : Edited registry store store := Relation.ReflTransGen.refl

theorem single {purpose : Purpose} {before after : Store σ}
    (edit : Edit registry purpose before after) : Edited registry before after :=
  Relation.ReflTransGen.single ⟨purpose, edit⟩

theorem resetEach (ids : List Identifier) (store : Store σ) :
    Edited registry store (store.resetEach ids) := by
  induction ids generalizing store with
  | nil => exact .refl store
  | cons id rest induction => exact (Edited.single (.reset store id)).trans (induction _)

end Edited

end Store

/-! ## Runs as chains of edits -/

/-- The store afterwards comes from the store before by a chain of edits. -/
def World.Edited (registry : Registry σ) (before after : World σ) : Prop :=
  Store.Edited registry before.store after.store

theorem World.steady_edited (registry : Registry σ) : Run.Steady (World.Edited registry) where
  trans earlier later := Relation.ReflTransGen.trans earlier later
  beside same _ := by
    rw [World.Edited, same]
    exact .refl _

namespace Run

/-- Wherever it starts, the run changes the store by a chain of edits. -/
abbrev Edits (registry : Registry σ) (run : Run σ α) : Prop :=
  run.Respects (World.Edited registry)

variable {registry : Registry σ}

theorem edits_changeStore {change : Store σ → α × Store σ}
    (edited : ∀ store, Store.Edited registry store (change store).2) :
    (changeStore change).Edits registry :=
  respects_changeStore fun world => edited world.store

theorem edits_changeBus {change : Bus σ → α × Bus σ}
    (edited : ∀ store : Store σ,
      Store.Edited registry store { store with bus := (change store.bus).2 }) (tier : Tier) :
    (changeBus tier change).Edits registry := by
  intro world value after outcome
  cases outcome
  cases tier with
  | engine => exact Store.Edited.refl _
  | store => exact edited world.store

theorem edits_reset (range : ResetRange) : (reset range : Run σ Binary64).Edits registry := by
  apply edits_changeStore
  intro store
  cases range with
  | identifier id => exact .single (.reset store id)
  | cycle cycle => exact .resetEach (store.byCycle cycle) store
  | all => exact .single (.resetAll store)
  | produced station => exact .resetEach (store.produced station) store

theorem edits_watch (station : StationId) (condition : ConditionRule)
    (callback : Script σ .writing) :
    (Run.watch station condition callback).Edits registry := by
  intro world value after outcome
  simp only [Run.watch] at outcome
  rcases bind_eq_some outcome with ⟨store, between, looked, outcome⟩
  cases looked
  cases watching : world.store.isWatching station condition.id with
  | true =>
      simp only [watching, if_true] at outcome
      cases outcome
      exact Store.Edited.refl _
  | false =>
      simp only [watching, Bool.false_eq_true, if_false] at outcome
      have edit : Store.Edit registry (.watch station condition) world.store _ :=
        .watch world.store station condition callback watching
      have edited := Store.Edited.single edit
      split at outcome
      · cases outcome
        exact edited
      · cases outcome
        exact edited

end Run

/-- Requests are answered by edits only. -/
abbrev Responder.Edits (registry : Registry σ) (responder : Responder σ) : Prop :=
  responder.Respects (World.Edited registry)

/-! ### Scripts and requests -/

section Requests

variable {engine : Engine σ} {responder : Responder σ}

theorem World.produce_edited (registry : Registry σ) (station : StationId) (world : World σ)
    (rule : RuleId) (targets : List Identifier) :
    World.Edited registry world
      { world with store := world.store.produce station rule targets } :=
  Store.Edited.single (.produce world.store station rule targets)

theorem World.enduring_edited (engine : Engine σ) :
    Run.Enduring engine (World.Edited engine.registry) where
  toSteady := World.steady_edited engine.registry
  subscribe tier id callback :=
    Run.edits_changeBus (fun store => .single (.subscribe store id callback)) tier
  unsubscribe tier id key :=
    Run.edits_changeBus (fun store => .single (.unsubscribe store id key)) tier
  unsubscribeAll tier id :=
    Run.edits_changeBus (fun store => .single (.unsubscribeAll store id)) tier
  clear tier := Run.edits_changeBus (fun store => .single (.clear store)) tier
  produce := World.produce_edited engine.registry
  reset := Run.edits_reset
  watch := Run.edits_watch
  unwatch station condition :=
    Run.edits_changeStore fun store => .single (.unwatch store station condition)
  elsewhere _ := Store.Edited.refl _

/-- Code of the host program changes the store by edits only, if its requests are
answered so. -/
theorem Script.play_edits (answers : responder.Edits engine.registry)
    (script : Script σ access) : (script.play engine responder).Edits engine.registry :=
  Script.play_respects (World.enduring_edited engine) answers script

end Requests

namespace Engine

variable {engine : Engine σ} {responder : Responder σ}
  (answers : responder.Edits engine.registry)

theorem record?_id {registry : Registry σ} {id : Identifier} {record : NameRecord σ}
    (found : registry.record? id = some record) : record.id = id := by
  simpa using List.find?_some found

include answers

theorem readOnce_edits (id : Identifier) :
    (engine.readOnce responder id).Edits engine.registry :=
  readOnce_respects (World.steady_edited engine.registry) fun _ _ _ _ =>
    Script.play_edits answers _

theorem deliver_edits (change : Change) (listeners : List (Listener σ)) :
    (engine.deliver responder change listeners).Edits engine.registry :=
  deliver_respects (World.steady_edited engine.registry) fun _ _ => Script.play_edits answers _

theorem writeEntry_edits {record : NameRecord σ}
    (known : engine.registry.record? record.id = some record)
    (typed : record.id.isOrdered = false) (update : Update) (operand : Binary64) :
    (engine.writeEntry responder record update operand).Edits engine.registry := by
  have steady := World.steady_edited engine.registry
  have touch (special : ¬record.Plain) :
      (Run.changeStore fun store => ((), store.touch record)).Edits engine.registry :=
    Run.edits_changeStore fun store => .single (.touch store record known typed special)
  by_cases event : record.cycle = .event
  · simp only [writeEntry, if_pos event]
    exact steady.ofBind (touch fun plain => plain.retained event) fun _ => steady.ofPure 0
  · simp only [writeEntry, if_neg event]
    cases set : record.setHook with
    | some hook =>
        have hooked : record.setHook ≠ none := by simp [set]
        refine steady.ofBind (touch fun plain => hooked plain.setHook) fun _ => ?_
        refine steady.ofBind (Script.play_edits answers _) fun outcome => ?_
        cases outcome with
        | ok retained =>
            refine Run.edits_changeStore fun store => ?_
            exact .single (.retain store record retained known event hooked)
        | error message =>
            exact steady.ofBind (steady.ofReport _) fun _ =>
              steady.ofBind steady.ofStore fun _ => steady.ofPure _
    | none =>
        cases get : record.getHook with
        | some hook =>
            have special : ¬record.Plain := fun plain => nomatch get.symm.trans plain.getHook
            exact steady.ofBind (touch special) fun _ =>
              Run.edits_changeStore fun store => .refl store
        | none =>
            -- nothing happens between the touch and the value
            intro world value after outcome
            rcases Run.bind_eq_some outcome with ⟨_, _, touched, outcome⟩
            cases touched
            cases outcome
            exact .single (.assign world.store record update operand known typed ⟨event, get, set⟩)

/-- Listeners that are told of a change make edits only. -/
theorem tell_edits (change : Change) (retained : Binary64) : (do
    let world ← get
    engine.deliver responder change (world.bus.listeners change.id)
    let world ← get
    engine.deliver responder change (world.store.bus.listeners change.id)
    pure retained : Run σ Binary64).Edits engine.registry := by
  have steady := World.steady_edited engine.registry
  exact steady.ofBind steady.ofGet fun _ => steady.ofBind (deliver_edits answers _ _) fun _ =>
    steady.ofBind steady.ofGet fun _ => steady.ofBind (deliver_edits answers _ _) fun _ =>
      steady.ofPure retained

theorem writeOnce_edits (id : Identifier) (update : Update) (operand : Binary64) :
    (engine.writeOnce responder id update operand).Edits engine.registry := by
  have steady := World.steady_edited engine.registry
  rw [writeOnce]
  split
  · exact steady.ofBind (steady.ofReport _) fun _ => steady.ofPure 0
  · rename_i record found
    have isId := record?_id found
    rw [← isId] at found ⊢
    have told := tell_edits answers ⟨record.id, update, operand⟩
    cases ordered : record.id.isOrdered with
    | true =>
        refine steady.ofBind (Run.edits_changeStore fun store => ?_) told
        exact .single (.place store record update operand found ordered)
    | false => exact steady.ofBind (writeEntry_edits answers found ordered update operand) told

omit answers in
/-- Every request changes the store by edits only, however deep its calls are nested. -/
theorem respond_edits (engine : Engine σ) (depth : Nat) :
    Responder.Edits engine.registry (engine.respond depth) := by
  induction depth with
  | zero => exact fun _ _ _ _ outcome => nomatch outcome
  | succ depth induction =>
      intro request
      cases request with
      | read id => exact readOnce_edits induction id
      | write id update operand => exact writeOnce_edits induction id update operand

end Engine

/-! ## Stores at work -/

namespace Store

/-- Scripts lead from one store to another, or to one that code of the host program
finds in the middle of a change. Whatever there is beside the store, listeners at the
engine and the state of the host program included, may be anything at the start of each
script. -/
inductive Leads (engine : Engine σ) (first : Store σ) : Store σ → Prop
  | start : Leads engine first first
  | play {world after : World σ} {outcome : Except String Binary64} (script : Script σ access)
      (depth : Nat) : Leads engine first world.store →
      script.play engine (engine.respond depth) world = some (outcome, after) →
      Leads engine first after.store
  | edit {purpose : Purpose} {before after : Store σ} :
      Leads engine first before → Edit engine.registry purpose before after →
      Leads engine first after

/-- A store at work. -/
def Reached (engine : Engine σ) (store : Store σ) : Prop :=
  ∃ owner, Leads engine (.new engine.registry owner) store

theorem Leads.edited {engine : Engine σ} {first last : Store σ} (leads : Leads engine first last) :
    Edited engine.registry first last := by
  induction leads with
  | start => exact .refl _
  | @play _ world after outcome script depth _ played induction =>
      have answers := engine.respond_edits depth
      exact induction.trans (script.play_edits answers world outcome after played)
  | edit _ edit induction => exact induction.tail ⟨_, edit⟩

end Store

end NumericRules
