import NumericRules.Proofs.CompoundUpdates
import Mathlib.Logic.Relation
import Mathlib.Data.List.Nodup

/-! # Assignments in another order

Two assignments to different names may change places if none of them reads the name that
the other one changes. What is in the store afterwards is the same, except for the order in
which names were first written, and no request shows that order.
-/

namespace NumericRules

/-! ## Neighbours that change places -/

/-- Neighbours in the list, which may do so, change places. -/
inductive Swapped (may : α → α → Prop) : List α → List α → Prop
  | swap (before after : List α) {first second : α} : may first second →
      Swapped may (before ++ first :: second :: after) (before ++ second :: first :: after)

/-- One list comes from the other by such changes. -/
def Reordered (may : α → α → Prop) : List α → List α → Prop :=
  Relation.ReflTransGen (Swapped may)

namespace Reordered

variable {may : α → α → Prop} {first second : List α}

theorem perm (reordered : Reordered may first second) : first.Perm second := by
  induction reordered with
  | refl => exact .refl first
  | tail _ swapped induction =>
      rcases swapped with ⟨before, after, _⟩
      exact induction.trans ((List.Perm.swap _ _ after).append_left before)

theorem cons (item : α) (reordered : Reordered may first second) :
    Reordered may (item :: first) (item :: second) := by
  induction reordered with
  | refl => exact .refl
  | tail _ swapped induction =>
      rcases swapped with ⟨before, after, allowed⟩
      exact induction.tail (.swap (item :: before) after allowed)

/-- If all items of a list may change places, it has every order. -/
theorem of_perm (symmetric : ∀ {item other : α}, may item other → may other item)
    (pairwise : first.Pairwise may) (perm : first.Perm second) : Reordered may first second := by
  induction perm with
  | nil => exact .refl
  | cons item _ induction => exact (induction (List.pairwise_cons.mp pairwise).2).cons item
  | swap item other rest =>
      have allowed : may other item := (List.pairwise_cons.mp pairwise).1 item (.head rest)
      exact .single (.swap [] rest allowed)
  | trans earlier _ induction further =>
      exact (induction pairwise).trans (further (earlier.pairwise pairwise symmetric))

end Reordered

/-- The targets are different, and no value mentions the target of the other assignment.
Names are told apart by their keys. -/
structure Assignment.Independent (key : ν → κ) (first second : Assignment ν) : Prop where
  targets : key first.target ≠ key second.target
  ofFirst : ∀ reference ∈ first.value.references, key reference ≠ key second.target
  ofSecond : ∀ reference ∈ second.value.references, key reference ≠ key first.target

theorem Assignment.Independent.symm {key : ν → κ} {first second : Assignment ν}
    (independent : first.Independent key second) : second.Independent key first :=
  ⟨independent.targets.symm, independent.ofSecond, independent.ofFirst⟩

/-! ## Stores that answer alike -/

namespace Store

/-- Whatever is asked of the stores, they answer alike. -/
structure Agrees (first second : Store σ) : Prop where
  dense : second.dense = first.dense
  entries : ∀ id, second.entry? id = first.entry? id
  owner : second.owner = first.owner
  bus : second.bus = first.bus
  logs : second.logs = first.logs

/-- The stores differ at most in the order in which names were first written. -/
structure Rearranged (first second : Store σ) : Prop extends Agrees first second where
  touched : second.entries.Perm first.entries
  listed : ∀ cycle, (second.byCycle cycle).Perm (first.byCycle cycle)

section Agreement

variable {registry : Registry σ} {first second : Store σ}

theorem Agrees.refl (store : Store σ) : Agrees store store := ⟨rfl, fun _ => rfl, rfl, rfl, rfl⟩

theorem Agrees.trans {third : Store σ} (agrees : Agrees first second)
    (further : Agrees second third) : Agrees first third where
  dense := further.dense.trans agrees.dense
  entries id := (further.entries id).trans (agrees.entries id)
  owner := further.owner.trans agrees.owner
  bus := further.bus.trans agrees.bus
  logs := further.logs.trans agrees.logs

theorem Agrees.stored (agrees : Agrees first second) (id : Identifier) :
    second.stored id = first.stored id := by
  rw [Store.stored, Store.stored, agrees.entries]

theorem Agrees.denseValue (agrees : Agrees first second) (id : Identifier) :
    second.denseValue id = first.denseValue id := by
  rw [Store.denseValue, Store.denseValue, agrees.dense]

theorem Agrees.valueOf (agrees : Agrees first second) (id : Identifier) :
    second.valueOf id = first.valueOf id := by
  rw [Store.valueOf, Store.valueOf, agrees.stored, agrees.denseValue]

theorem Shaped.mem_entries (shaped : Shaped registry first) {entry : Entry σ} :
    entry ∈ first.entries ↔ first.entry? entry.record.id = some entry := by
  constructor
  · intro member
    have present : entry.record.id ∈ first.touched :=
      List.mem_map_of_mem (f := fun entry => entry.record.id) member
    rcases Option.isSome_iff_exists.mp (entry?_isSome.mpr present) with ⟨other, found⟩
    rcases entry?_eq_some found with ⟨otherMember, same⟩
    rw [found, List.inj_on_of_nodup_map shaped.nodup otherMember member same]
  · exact fun found => (entry?_eq_some found).1

theorem Agrees.rearranged (agrees : Agrees first second) (shaped : Shaped registry first)
    (alsoShaped : Shaped registry second) : Rearranged first second := by
  have touched : second.entries.Perm first.entries := by
    refine (List.perm_ext_iff_of_nodup alsoShaped.nodup.of_map shaped.nodup.of_map).mpr ?_
    intro entry
    rw [alsoShaped.mem_entries, shaped.mem_entries, agrees.entries]
  refine ⟨agrees, touched, fun cycle => ?_⟩
  rw [alsoShaped.listed, shaped.listed]
  exact (touched.filter _).map _

end Agreement

/-! ### Writes without hooks -/

section Kept

variable {registry : Registry σ} {store first second : Store σ} {record : NameRecord σ}

theorem kept_eq (store : Store σ) (record : NameRecord σ) (update : Update)
    (operand : Binary64) : ∃ dense entries byCycle,
      (store.kept record update operand).2 = { store with dense, entries, byCycle } := by
  have touches : ∃ entries byCycle, store.touch record = { store with entries, byCycle } := by
    unfold touch
    split <;> exact ⟨_, _, rfl⟩
  rcases touches with ⟨entries, byCycle, touches⟩
  unfold kept
  split
  · rw [updateDense_snd]
    exact ⟨_, _, _, rfl⟩
  · split
    · exact ⟨_, _, _, touches⟩
    · rw [touches]
      exact ⟨_, _, _, rfl⟩

theorem dense_kept (store : Store σ) (record : NameRecord σ) (update : Update)
    (operand : Binary64) :
    (store.kept record update operand).2.dense =
      if record.id.isOrdered then
        store.dense.setIfInBounds (record.id.raw - 1)
          (record.bounds.clamp (update.apply (store.denseValue record.id) operand))
      else store.dense := by
  unfold kept
  split
  · rw [updateDense_snd, Array.set!_eq_setIfInBounds]
  · split <;> exact dense_touch record

/-- A write concerns no entry but that of its name. -/
theorem entry?_kept_ne {id : Identifier} (different : id ≠ record.id) (update : Update)
    (operand : Binary64) :
    Store.entry? (store.kept record update operand).2 id = store.entry? id := by
  have touched : Store.entry? (store.touch record) id = store.entry? id := by
    rw [entry?_touch, if_neg different.symm, Option.or_none]
  unfold kept
  split
  · rw [updateDense_snd]
    rfl
  · split
    · exact touched
    · rw [entry?_retain, touched]
      cases found : store.entry? id with
      | none => rfl
      | some entry => rw [Option.map_some, (entry?_eq_some found).2, if_neg different]

/-- What a write makes of the entry of its name depends on that entry alone. -/
theorem entry?_kept_congr (same : second.entry? record.id = first.entry? record.id)
    (update : Update) (operand : Binary64) :
    Store.entry? (second.kept record update operand).2 record.id =
      Store.entry? (first.kept record update operand).2 record.id := by
  have stored : second.stored record.id = first.stored record.id := by
    rw [Store.stored, Store.stored, same]
  unfold kept
  split
  · rw [updateDense_snd, updateDense_snd]
    exact same
  · split
    · rw [entry?_touch, entry?_touch, same]
    · rw [entry?_retain, entry?_retain, entry?_touch, entry?_touch, same, stored]

theorem denseValue_kept_ne {id : Identifier} (different : id ≠ record.id)
    (ordered : id.isOrdered = true) (update : Update) (operand : Binary64) :
    (store.kept record update operand).2.denseValue id = store.denseValue id := by
  unfold kept
  split
  · rename_i alsoOrdered
    exact denseValue_updateDense_ne alsoOrdered ordered different.symm update operand
  · have touched : (store.touch record).denseValue id = store.denseValue id := by
      rw [denseValue, denseValue, dense_touch]
    split <;> exact touched

theorem valueOf_kept_ne {id : Identifier} (different : id ≠ record.id) (update : Update)
    (operand : Binary64) :
    (store.kept record update operand).2.valueOf id = store.valueOf id := by
  unfold valueOf
  split
  · rename_i ordered
    exact denseValue_kept_ne different ordered update operand
  · rw [stored, stored, entry?_kept_ne different]

theorem Agrees.kept (agrees : Agrees first second) (record : NameRecord σ) (update : Update)
    (operand : Binary64) :
    Agrees (first.kept record update operand).2 (second.kept record update operand).2 := by
  rcases kept_eq first record update operand with ⟨_, _, _, changed⟩
  rcases kept_eq second record update operand with ⟨_, _, _, alsoChanged⟩
  refine ⟨?_, fun id => ?_, ?_, ?_, ?_⟩
  · rw [dense_kept, dense_kept, agrees.dense, agrees.denseValue]
  · by_cases same : id = record.id
    · rw [same, entry?_kept_congr (agrees.entries record.id)]
    · rw [entry?_kept_ne same, entry?_kept_ne same, agrees.entries]
  · rw [changed, alsoChanged, agrees.owner]
  · rw [changed, alsoChanged, agrees.bus]
  · rw [changed, alsoChanged, agrees.logs]

/-- Writes of different names commute. -/
theorem Agrees.kept_comm (store : Store σ) {one other : NameRecord σ}
    (different : one.id ≠ other.id) (update further : Update) (operand alternative : Binary64) :
    Agrees ((store.kept one update operand).2.kept other further alternative).2
      ((store.kept other further alternative).2.kept one update operand).2 := by
  rcases kept_eq store one update operand with ⟨_, _, _, ofOne⟩
  rcases kept_eq store other further alternative with ⟨_, _, _, ofOther⟩
  rcases kept_eq (store.kept one update operand).2 other further alternative with
    ⟨_, _, _, otherLast⟩
  rcases kept_eq (store.kept other further alternative).2 one update operand with
    ⟨_, _, _, oneLast⟩
  refine ⟨?_, fun id => ?_, ?_, ?_, ?_⟩
  · simp only [dense_kept]
    cases oneOrdered : one.id.isOrdered <;> cases otherOrdered : other.id.isOrdered
    · rfl
    · simp only [Bool.false_eq_true, if_false, if_true,
        denseValue_kept_ne different.symm otherOrdered]
    · simp only [Bool.false_eq_true, if_false, if_true, denseValue_kept_ne different oneOrdered]
    · simp only [if_true, denseValue_kept_ne different oneOrdered,
        denseValue_kept_ne different.symm otherOrdered]
      exact Array.setIfInBounds_comm _ _ (place_ne oneOrdered otherOrdered different).symm
  · by_cases ofId : id = one.id
    · subst ofId
      rw [entry?_kept_ne different]
      exact entry?_kept_congr (entry?_kept_ne different _ _) _ _
    · rw [entry?_kept_ne ofId]
      by_cases ofOtherId : id = other.id
      · subst ofOtherId
        exact (entry?_kept_congr (entry?_kept_ne ofId _ _) _ _).symm
      · rw [entry?_kept_ne ofOtherId, entry?_kept_ne ofOtherId, entry?_kept_ne ofId]
  · rw [otherLast, ofOne, oneLast, ofOther]
  · rw [otherLast, ofOne, oneLast, ofOther]
  · rw [otherLast, ofOne, oneLast, ofOther]

theorem Shaped.of_kept (shaped : Shaped registry store)
    (known : registry.record? record.id = some record) (update : Update) (operand : Binary64) :
    Shaped registry (store.kept record update operand).2 := by
  cases ordered : record.id.isOrdered with
  | true =>
      simp only [Store.kept, ordered, if_true]
      rw [updateDense_snd]
      exact ⟨shaped.known, shaped.typed, shaped.nodup, shaped.listed,
        Array.size_setIfInBounds.trans shaped.places⟩
  | false =>
      have touched := shaped.touch known ordered
      simp only [Store.kept, ordered, Bool.false_eq_true, if_false]
      split
      · exact touched
      · exact touched.map fun entry => by split <;> rfl

end Kept

end Store

/-! ## Assignments to names without hooks -/

namespace Engine

/-- All names have no hooks, and functions use nothing but the values of their arguments. -/
structure Plain (engine : Engine σ) (assignment : Assignment Reference) : Prop where
  unhooked : ∀ reference ∈ assignment.mentions, engine.Unhooked reference.id
  native : assignment.value.Meets (.fromArguments engine.functions)

section Assigned

variable (engine : Engine σ) (answers : String → List Binary64 → Binary64)

/-- The store after an assignment, where functions have the answers. -/
def assigned (store : Store σ) (assignment : Assignment Reference) : Store σ :=
  match engine.registry.record? assignment.target.id with
  | none => store
  | some record =>
      (store.kept record assignment.update
        (assignment.value.value answers fun reference => engine.plainValue store reference.id)).2

variable {engine answers} {store first second : Store σ}

theorem assigned_known {assignment : Assignment Reference} {record : NameRecord σ}
    (known : engine.registry.record? assignment.target.id = some record) :
    engine.assigned answers store assignment =
      (store.kept record assignment.update (assignment.value.value answers
        fun reference => engine.plainValue store reference.id)).2 := by
  simp only [assigned, known]

theorem assigned_unknown {assignment : Assignment Reference}
    (unknown : engine.registry.record? assignment.target.id = none) :
    engine.assigned answers store assignment = store := by
  simp only [assigned, unknown]

theorem bus_assigned (assignment : Assignment Reference) :
    (engine.assigned answers store assignment).bus = store.bus := by
  unfold assigned
  split
  · rfl
  · exact store.bus_kept _ _ _

theorem shaped_assigned (shaped : store.Shaped engine.registry)
    (assignment : Assignment Reference) :
    (engine.assigned answers store assignment).Shaped engine.registry := by
  cases known : engine.registry.record? assignment.target.id with
  | none => rwa [assigned_unknown known]
  | some record =>
      rw [assigned_known known]
      exact shaped.of_kept (record?_id known ▸ known) _ _

theorem plainValue_assigned {assignment : Assignment Reference} {id : Identifier}
    (different : id ≠ assignment.target.id) :
    engine.plainValue (engine.assigned answers store assignment) id =
      engine.plainValue store id := by
  cases known : engine.registry.record? assignment.target.id with
  | none => rw [assigned_unknown known]
  | some record =>
      rw [assigned_known known]
      have isId := record?_id known
      exact engine.plainValue_congr (Store.valueOf_kept_ne (isId.symm ▸ different) _ _)

/-- Values that do not mention the target of an assignment are the same after it. -/
theorem value_assigned {assignment : Assignment Reference} {formula : Formula Reference}
    (unmentioned : ∀ reference ∈ formula.references, reference.id ≠ assignment.target.id) :
    formula.value answers (engine.plainValue (engine.assigned answers store assignment) ·.id) =
      formula.value answers (engine.plainValue store ·.id) :=
  formula.value_congr answers fun reference mentioned =>
    plainValue_assigned (unmentioned reference mentioned)

theorem assigned_agrees (agrees : first.Agrees second) (assignment : Assignment Reference) :
    (engine.assigned answers first assignment).Agrees
      (engine.assigned answers second assignment) := by
  cases known : engine.registry.record? assignment.target.id with
  | none => rwa [assigned_unknown known, assigned_unknown known]
  | some record =>
      have same (id : Identifier) : engine.plainValue second id = engine.plainValue first id :=
        engine.plainValue_congr (agrees.valueOf id)
      rw [assigned_known known, assigned_known known]
      simp only [same]
      exact agrees.kept _ _ _

/-- Independent assignments commute. -/
theorem assigned_comm {one other : Assignment Reference}
    (independent : one.Independent (·.id) other) (store : Store σ) :
    (engine.assigned answers (engine.assigned answers store one) other).Agrees
      (engine.assigned answers (engine.assigned answers store other) one) := by
  cases ofOne : engine.registry.record? one.target.id with
  | none =>
      rw [assigned_unknown ofOne, assigned_unknown ofOne]
      exact .refl _
  | some record =>
      cases ofOther : engine.registry.record? other.target.id with
      | none =>
          rw [assigned_unknown ofOther, assigned_unknown ofOther]
          exact .refl _
      | some otherRecord =>
          rw [assigned_known ofOther, value_assigned independent.ofSecond, assigned_known ofOne,
            assigned_known ofOne, value_assigned independent.ofFirst, assigned_known ofOther]
          have different : record.id ≠ otherRecord.id := by
            rw [record?_id ofOne, record?_id ofOther]
            exact independent.targets
          exact .kept_comm store different _ _ _ _

theorem shaped_foldl_assigned (shaped : store.Shaped engine.registry)
    (assignments : List (Assignment Reference)) :
    (assignments.foldl (engine.assigned answers) store).Shaped engine.registry := by
  induction assignments generalizing store with
  | nil => exact shaped
  | cons assignment rest induction => exact induction (shaped_assigned shaped assignment)

theorem foldl_assigned_agrees (agrees : first.Agrees second)
    (assignments : List (Assignment Reference)) :
    (assignments.foldl (engine.assigned answers) first).Agrees
      (assignments.foldl (engine.assigned answers) second) := by
  induction assignments generalizing first second with
  | nil => exact agrees
  | cons assignment rest induction => exact induction (assigned_agrees agrees assignment)

theorem foldl_assigned_reordered {assignments others : List (Assignment Reference)}
    (reordered : Reordered (Assignment.Independent (·.id)) assignments others) (store : Store σ) :
    (assignments.foldl (engine.assigned answers) store).Agrees
      (others.foldl (engine.assigned answers) store) := by
  induction reordered with
  | refl => exact .refl _
  | tail _ swapped induction =>
      rcases swapped with ⟨before, after, independent⟩
      refine induction.trans ?_
      simp only [List.foldl_append, List.foldl_cons]
      exact foldl_assigned_agrees (assigned_comm independent _) after

variable (answers) in
theorem foldl_assigned_rearranged {assignments others : List (Assignment Reference)}
    (shaped : store.Shaped engine.registry)
    (reordered : Reordered (Assignment.Independent (·.id)) assignments others) :
    (assignments.foldl (engine.assigned answers) store).Rearranged
      (others.foldl (engine.assigned answers) store) :=
  (foldl_assigned_reordered reordered store).rearranged (shaped_foldl_assigned shaped assignments)
    (shaped_foldl_assigned shaped others)

end Assigned

/-! ### Carrying them out -/

section CarriedOut

variable {engine : Engine σ} {answers : String → List Binary64 → Binary64}
  (answered : engine.functions.AnsweredBy answers)

include answered

theorem assign_plain {assignment : Assignment Reference} (plain : engine.Plain assignment)
    (depth : Nat) {world : World σ} (silent : world.Silent assignment.target.id) :
    ∃ retained log, (engine.respond (depth + 1)).assign engine assignment world =
      some (retained,
        { world with store := engine.assigned answers world.store assignment, log }) := by
  rcases List.forall_mem_cons.mp plain.unhooked with ⟨target, references⟩
  have gives : (engine.respond (depth + 1)).scope.Gives world.store
      (fun reference => engine.plainValue world.store reference.id) assignment.value.references := by
    intro reference mentioned other same
    rw [← same]
    exact engine.read_hookless (references reference mentioned).hookless depth other
  have evaluated : (engine.respond (depth + 1)).evaluate engine assignment.value world =
      some (_, world) := Formula.evaluate_fixed answered plain.native gives world rfl
  rw [Responder.assign, Run.bind_apply, evaluated]
  cases known : engine.registry.record? assignment.target.id with
  | none =>
      rw [assigned_unknown known]
      refine ⟨0, world.log ++ [.notRegistered assignment.target.id], ?_⟩
      change engine.writeOnce _ assignment.target.id _ _ world = _
      simp only [writeOnce, known]
      rfl
  | some record =>
      have isId := record?_id known
      have writes := engine.write_unhooked (isId.symm ▸ known) (isId.symm ▸ target)
        (isId.symm ▸ silent) depth assignment.update (assignment.value.value answers
          fun reference => engine.plainValue world.store reference.id)
      rw [isId] at writes
      rw [assigned_known known]
      exact ⟨_, world.log, writes⟩

theorem assignAll_plain {assignments : List (Assignment Reference)}
    (plain : ∀ assignment ∈ assignments, engine.Plain assignment) (depth : Nat)
    {world : World σ} (silent : ∀ assignment ∈ assignments, world.Silent assignment.target.id) :
    ∃ log, (engine.respond (depth + 1)).assignAll engine assignments world =
      some ((),
        { world with store := assignments.foldl (engine.assigned answers) world.store, log }) := by
  induction assignments generalizing world with
  | nil => exact ⟨world.log, rfl⟩
  | cons assignment rest induction =>
      rcases List.forall_mem_cons.mp plain with ⟨first, others⟩
      rcases List.forall_mem_cons.mp silent with ⟨firstSilent, othersSilent⟩
      rcases assign_plain answered first depth firstSilent with ⟨retained, log, assigns⟩
      have stillSilent : ∀ other ∈ rest, ({ world with
          store := engine.assigned answers world.store assignment, log } : World σ).Silent
            other.target.id := fun other member =>
        (othersSilent other member).withStore (bus_assigned assignment)
      rcases induction others stillSilent with ⟨last, assignsRest⟩
      exact ⟨last, by rw [Responder.assignAll, Run.bind_apply, assigns]; exact assignsRest⟩

end CarriedOut

end Engine

end NumericRules
