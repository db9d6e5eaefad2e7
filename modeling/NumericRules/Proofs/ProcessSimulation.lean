import NumericRules.Proofs.OrdinaryNames

/-! # Assignments to names and to slots

An assignment to an ordinary name and the same assignment to a slot that has the value
of the name come to the same value. So slots that are loaded with the values of their
names have, after any assignments, the values that the names get from them.
-/

namespace NumericRules

namespace SlotValues

theorem size_update (values : SlotValues) (number : Nat) (update : Update) (operand : Binary64) :
    (values.update number update operand).size = values.size := by
  simp [SlotValues.update]

theorem value_update_self (values : SlotValues) {number : Nat} (positive : 0 < number)
    (inRange : number ≤ values.size) (update : Update) (operand : Binary64) :
    (values.update number update operand).value number =
      ({} : Bounds).clamp (update.apply (values.value number) operand) := by
  have place : number - 1 < values.size := by omega
  simp [SlotValues.update, value, place]

end SlotValues

namespace ProcessRule

/-- The slot of a registered name in a process whose slots have the given names. -/
def slotFor (names : List String) (reference : Reference) : Slot := slotOf names reference.name

/-- The step of a process for an assignment to a registered name. -/
def stepFor (names : List String) (assignment : Assignment Reference) : Step Slot :=
  .assign ((assignment.map Reference.name).map (slotOf names))

/-- The first slot is for the result and the others are for the names mentioned, all of
them ordinary. -/
structure Layout (registry : Registry σ) (names : List String) (mentioned : List Reference) :
    Prop where
  first : names[0]? = some resultName
  others : ∀ name ∈ names, name = resultName ∨ ∃ reference ∈ mentioned, reference.name = name
  named : ∀ reference ∈ mentioned, reference.name ∈ names
  notResult : ∀ reference ∈ mentioned, reference.name ≠ resultName
  resolved : ∀ reference ∈ mentioned, registry.identifier? reference.name = some reference.id
  ordinary : ∀ reference ∈ mentioned, ∃ record,
    registry.record? reference.id = some record ∧ record.Ordinary

/-- The slots have the values of their names. -/
structure Matched (registry : Registry σ) (names : List String) (mentioned : List Reference)
    (store : Store σ) (values : SlotValues) : Prop where
  sound : store.Sound registry
  size : values.size = names.length
  values : ∀ reference ∈ mentioned,
    values.value (slotFor names reference).number = store.valueOf reference.id

/-- What changes in a store and in slots when assignments are carried out in both. -/
structure Carried (names : List String) (mentioned : List Reference) (store : Store σ)
    (values : SlotValues) (after : Store σ) (final : SlotValues) : Prop where
  bus : after.bus = store.bus
  elsewhere : ∀ id, (∀ reference ∈ mentioned, id ≠ reference.id) →
    after.valueOf id = store.valueOf id
  kept : ∀ number, 0 < number →
    (∀ reference ∈ mentioned, number ≠ (slotFor names reference).number) →
    final.value number = values.value number
  clamped : ∀ number, 0 < number → final.value number = values.value number ∨
    ({} : Bounds).clamp (final.value number) = final.value number

theorem Carried.refl (names : List String) (mentioned : List Reference) (store : Store σ)
    (values : SlotValues) : Carried names mentioned store values store values :=
  ⟨rfl, fun _ _ => rfl, fun _ _ _ => rfl, fun _ _ => .inl rfl⟩

theorem Carried.trans {names : List String} {mentioned : List Reference}
    {first second third : Store σ} {before between after : SlotValues}
    (earlier : Carried names mentioned first before second between)
    (later : Carried names mentioned second between third after) :
    Carried names mentioned first before third after where
  bus := later.bus.trans earlier.bus
  elsewhere id other := (later.elsewhere id other).trans (earlier.elsewhere id other)
  kept number positive other :=
    (later.kept number positive other).trans (earlier.kept number positive other)
  clamped number positive := by
    rcases later.clamped number positive with same | within
    · rw [same]
      exact earlier.clamped number positive
    · exact .inr within

section Layout

variable {registry : Registry σ} {names : List String} {mentioned : List Reference}
  (layout : Layout registry names mentioned)

include layout

theorem Layout.slot_le {reference : Reference} (member : reference ∈ mentioned) :
    (slotFor names reference).number ≤ names.length :=
  List.idxOf_lt_length_of_mem (layout.named reference member)

/-- Names with one identifier have one slot, and those with one slot one identifier. -/
theorem Layout.slot_eq_iff (reachable : registry.Reachable) {left right : Reference}
    (leftMember : left ∈ mentioned) (rightMember : right ∈ mentioned) :
    (slotFor names left).number = (slotFor names right).number ↔ left.id = right.id := by
  have ofLeft := layout.resolved left leftMember
  have ofRight := layout.resolved right rightMember
  constructor
  · intro sameSlot
    have samePlace : names.idxOf left.name = names.idxOf right.name := Nat.succ.inj sameSlot
    have sameName := (List.idxOf_inj (layout.named left leftMember)).mp samePlace
    rw [sameName] at ofLeft
    exact Option.some.inj (ofLeft.symm.trans ofRight)
  · intro sameId
    rw [sameId] at ofLeft
    rw [slotFor, slotFor, reachable.name_eq ofLeft ofRight]

end Layout

/-! ## One assignment -/

section Assignments

variable {engine : Engine σ} {names : List String} {mentioned : List Reference}
  (layout : Layout engine.registry names mentioned)

include layout

theorem Layout.hookless {reference : Reference} (member : reference ∈ mentioned) :
    engine.Hookless reference.id := by
  rcases layout.ordinary reference member with ⟨record, known, ordinary⟩
  refine .inr fun other found => ?_
  rw [Option.some.inj (found.symm.trans known)]
  exact ordinary.getHook

/-- Names and slots give an operand one value. -/
theorem Matched.exists_operand {store : Store σ} {values : SlotValues}
    (matched : Matched engine.registry names mentioned store values)
    {formula : Formula Reference} (within : ∀ reference ∈ formula.references, reference ∈ mentioned)
    (native : formula.Meets (.fromArguments engine.functions)) (depth : Nat) :
    ∃ operand, ((engine.respond (depth + 1)).evaluate engine formula).Fixed store operand ∧
      ∀ other : Store σ, (((formula.map Reference.name).map (slotOf names)).evaluate
        engine.functions values.scope).Fixed other operand := by
  rcases formula.exists_value (fun reference => store.valueOf reference.id) native with
    ⟨operand, evaluates⟩
  refine ⟨operand, evaluates _ _ fun reference member => ?_, fun other => ?_⟩
  · exact engine.read_fixed matched.sound (layout.hookless (within reference member)) depth
  · rw [Formula.evaluate_map, Formula.evaluate_map]
    refine evaluates _ _ fun reference member => ?_
    have value := matched.values reference (within reference member)
    change Run.Fixed other (pure (values.value (slotFor names reference).number))
      (store.valueOf reference.id)
    rw [value]
    exact .pure _

theorem Matched.assign (reachable : engine.registry.Reachable) {left : World σ}
    {values : SlotValues} (matched : Matched engine.registry names mentioned left.store values)
    {assignment : Assignment Reference}
    (within : ∀ reference ∈ assignment.mentions, reference ∈ mentioned)
    (native : assignment.value.Meets (.fromArguments engine.functions))
    (silent : left.Silent assignment.target.id) (depth : Nat) :
    ∃ retained after final, (engine.respond (depth + 1)).assign engine assignment left =
        some (retained, { left with store := after }) ∧
      (∀ right : World σ, (stepFor names assignment).execute engine.functions values right =
        some ((final, false), right)) ∧
      Carried names mentioned left.store values after final ∧
      Matched engine.registry names mentioned after final := by
  rcases List.forall_mem_cons.mp within with ⟨isMentioned, inValue⟩
  rcases layout.ordinary _ isMentioned with ⟨record, known, ordinary⟩
  have isRecord := Engine.record?_id known
  rcases matched.exists_operand layout inValue native depth with ⟨operand, evaluates, computes⟩
  rw [← isRecord] at known silent
  rcases engine.write_run known ordinary silent depth assignment.update operand with
    ⟨retained, writes⟩
  have written := Store.valueOf_written matched.sound reachable.placed known assignment.update
    operand
  have inRange := layout.slot_le isMentioned
  rw [← matched.size] at inRange
  have positive (reference : Reference) : 0 < (slotFor names reference).number := Nat.succ_pos _
  refine ⟨retained, left.store.written record assignment.update operand,
    values.update (slotFor names assignment.target).number assignment.update operand,
    ?_, fun right => ?_, ?_, ?_⟩
  · rw [Responder.assign, Run.bind_apply, evaluates left rfl]
    dsimp only
    rw [← isRecord]
    exact writes
  · rw [stepFor, Step.execute, Run.bind_apply]
    have ran := computes right.store right rfl
    dsimp only [Assignment.map]
    rw [ran]
    rfl
  · refine ⟨Store.bus_written .., fun id other => ?_, fun number atLeast other => ?_,
      fun number atLeast => ?_⟩
    · rw [written, if_neg (isRecord ▸ other _ isMentioned)]
    · exact SlotValues.value_update_other _ (positive _) atLeast (other _ isMentioned) _ _
    · by_cases same : number = (slotFor names assignment.target).number
      · right
        rw [same, SlotValues.value_update_self _ (positive _) inRange, Bounds.clamp_clamp]
      · exact .inl (SlotValues.value_update_other _ (positive _) atLeast same _ _)
  · refine ⟨matched.sound.written known ordinary _ _,
      (SlotValues.size_update ..).trans matched.size, fun reference member => ?_⟩
    have value := matched.values reference member
    -- a name may be mentioned by several references, all of them with one slot
    by_cases same : reference.id = assignment.target.id
    · have sameSlot := (layout.slot_eq_iff reachable member isMentioned).mpr same
      rw [written, isRecord, if_pos same, ordinary.clamp_eq, ← value, sameSlot,
        SlotValues.value_update_self _ (positive _) inRange]
    · have otherSlot := mt (layout.slot_eq_iff reachable member isMentioned).mp same
      rw [written, isRecord, if_neg same, ← value,
        SlotValues.value_update_other _ (positive _) (positive _) otherSlot]

/-! ## Many assignments -/

theorem Matched.assignAll (reachable : engine.registry.Reachable) (depth : Nat)
    {assignments : List (Assignment Reference)}
    (within : ∀ assignment ∈ assignments, ∀ reference ∈ assignment.mentions,
      reference ∈ mentioned)
    (native : ∀ assignment ∈ assignments,
      assignment.value.Meets (.fromArguments engine.functions))
    {left : World σ} (silent : ∀ reference ∈ mentioned, left.Silent reference.id)
    {values : SlotValues} (matched : Matched engine.registry names mentioned left.store values) :
    ∃ after final, (engine.respond (depth + 1)).assignAll engine assignments left =
        some ((), { left with store := after }) ∧
      (∀ traced number (right : World σ), ∃ taken log,
        executeTaken engine.functions traced number values (assignments.map (stepFor names))
          right = some ((taken, final), { right with log })) ∧
      Carried names mentioned left.store values after final ∧
      Matched engine.registry names mentioned after final := by
  -- the slots keep the values of their names from step to step, whatever is traced
  induction assignments generalizing left values with
  | nil =>
      exact ⟨left.store, values, rfl, fun _ _ right => ⟨[], right.log, rfl⟩, .refl .., matched⟩
  | cons assignment rest induction =>
      rcases List.forall_mem_cons.mp within with ⟨within, restWithin⟩
      rcases List.forall_mem_cons.mp native with ⟨native, restNative⟩
      rcases matched.assign layout reachable within native
          (silent _ (within _ (List.mem_cons_self ..))) depth with
        ⟨retained, between, middle, assigns, executes, carried, matched⟩
      have stillSilent : ∀ reference ∈ mentioned,
          ({ left with store := between } : World σ).Silent reference.id :=
        fun reference member => (silent reference member).withStore carried.bus
      rcases induction restWithin restNative stillSilent matched with
        ⟨after, final, assignsRest, executesRest, carriedRest, matchedRest⟩
      refine ⟨after, final, ?_, fun traced number right => ?_, carried.trans carriedRest,
        matchedRest⟩
      · rw [Responder.assignAll, Run.bind_apply, assigns]
        exact assignsRest
      · rcases traceStep_if traced number values (stepFor names assignment) right with
          ⟨log, traces⟩
        rcases executesRest traced (number + 1) { right with log } with ⟨taken, last, executesRest⟩
        refine ⟨stepFor names assignment :: taken, last, ?_⟩
        rw [List.map_cons, executeTaken_cons, Run.bind_apply, traces]
        dsimp only
        rw [Run.bind_apply, executes]
        dsimp only
        rw [if_neg Bool.false_ne_true, Run.bind_apply, executesRest]
        rfl

end Assignments

end ProcessRule

end NumericRules
