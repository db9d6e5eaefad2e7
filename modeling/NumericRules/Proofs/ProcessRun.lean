import NumericRules.Execution
import NumericRules.Proofs.ProcessSlots

/-! # What a run of a process writes

A run computes on values of its own and afterwards writes those that differ from
what was loaded. A slot that no executed step assigns keeps its loaded value, and
a value differs from itself only when it is not a number.
-/

namespace NumericRules

/-! ## Computations -/

namespace Run

theorem bind_apply (first : Run σ α) (next : α → Run σ β) (world : World σ) :
    (first >>= next) world =
      match first world with
      | some (value, after) => next value after
      | none => none := by
  change (first world).bind (fun outcome => next outcome.1 outcome.2) = _
  cases first world <;> rfl

theorem get_bind (next : World σ → Run σ α) (world : World σ) :
    (get >>= next) world = next world world := rfl

theorem store_bind (next : Store σ → Run σ α) (world : World σ) :
    (Run.store >>= next) world = next world.store world := rfl

theorem bind_eq_some {first : Run σ α} {next : α → Run σ β} {world after : World σ} {value : β}
    (outcome : (first >>= next) world = some (value, after)) :
    ∃ middle between, first world = some (middle, between) ∧
      next middle between = some (value, after) := by
  rw [bind_apply] at outcome
  cases equal : first world with
  | none =>
      rw [equal] at outcome
      cases outcome
  | some result =>
      rw [equal] at outcome
      exact ⟨result.1, result.2, rfl, outcome⟩

/-- Runs go on alike where they do so with all results. -/
theorem bind_congr_results {first : Run σ α} {next other : α → Run σ β}
    (same : ∀ world value after, first world = some (value, after) → next value = other value) :
    (first >>= next) = (first >>= other) := by
  funext world
  rw [bind_apply, bind_apply]
  cases ran : first world with
  | none => rfl
  | some outcome => exact congrFun (same world outcome.1 outcome.2 ran) outcome.2

end Run

/-! ## Values of slots -/

namespace SlotValues

/-- Only the updated slot changes. -/
theorem value_update_other (values : SlotValues) {number other : Nat} (positive : 0 < number)
    (otherPositive : 0 < other) (different : other ≠ number) (update : Update)
    (operand : Binary64) :
    (values.update number update operand).value other = values.value other := by
  have places : number - 1 ≠ other - 1 := by omega
  simp [SlotValues.update, value, places]

end SlotValues

namespace ProcessRule

/-! ## The steps that are carried out -/

/-- Carry out steps in order until one ends the process. The answer has the steps
carried out, the one that ended the process included. -/
def executeTaken (functions : FunctionTable σ) (traced : Bool) (number : Nat)
    (values : SlotValues) : List (Step Slot) → Run σ (List (Step Slot) × SlotValues)
  | [] => pure ([], values)
  | step :: rest => do
      if traced then traceStep number values step
      let (values, ends) ← step.execute functions values
      if ends then pure ([step], values)
      else
        let (taken, final) ← executeTaken functions traced (number + 1) values rest
        pure (step :: taken, final)

/-- Carry out one step and go on with the rest unless it ends the process. -/
theorem executeSteps_cons (functions : FunctionTable σ) (traced : Bool) (number : Nat)
    (values : SlotValues) (step : Step Slot) (rest : List (Step Slot)) :
    executeSteps functions traced number values (step :: rest) = (do
      let _ ← (if traced then traceStep number values step else pure () : Run σ Unit)
      let outcome ← step.execute functions values
      if outcome.2 then pure outcome.1
      else executeSteps functions traced (number + 1) outcome.1 rest) := by
  cases traced <;> simp [executeSteps]

theorem executeTaken_cons (functions : FunctionTable σ) (traced : Bool) (number : Nat)
    (values : SlotValues) (step : Step Slot) (rest : List (Step Slot)) :
    executeTaken functions traced number values (step :: rest) = (do
      let _ ← (if traced then traceStep number values step else pure () : Run σ Unit)
      let outcome ← step.execute functions values
      if outcome.2 then pure ([step], outcome.1)
      else
        let result ← executeTaken functions traced (number + 1) outcome.1 rest
        pure (step :: result.1, result.2)) := by
  cases traced <;> simp [executeTaken]

theorem executeSteps_eq (functions : FunctionTable σ) (traced : Bool) (number : Nat)
    (values : SlotValues) (steps : List (Step Slot)) :
    executeSteps functions traced number values steps =
      Prod.snd <$> executeTaken functions traced number values steps := by
  induction steps generalizing number values with
  | nil => rfl
  | cons step rest induction =>
      rw [executeSteps_cons, executeTaken_cons, map_bind]
      congr 1
      funext _
      rw [map_bind]
      congr 1
      funext outcome
      cases outcome.2 with
      | true => simp
      | false => simp [induction]

/-- The numbers of the slots that steps assign. -/
def assignedSlots (steps : List (Step Slot)) : List Nat :=
  steps.filterMap fun
    | .assign assignment => some assignment.target.number
    | .return _ _ => none

theorem assignedSlots_cons (step : Step Slot) (rest : List (Step Slot)) :
    assignedSlots (step :: rest) = assignedSlots [step] ++ assignedSlots rest := by
  cases step <;> rfl

/-- Steps whose targets are slots, which are counted from 1. -/
def Counted (steps : List (Step Slot)) : Prop := ∀ number ∈ assignedSlots steps, 0 < number

theorem counted_cons {step : Step Slot} {rest : List (Step Slot)} :
    Counted (step :: rest) ↔ Counted [step] ∧ Counted rest := by
  simp only [Counted, assignedSlots_cons step rest, List.mem_append, or_imp, forall_and]

end ProcessRule

open ProcessRule in
/-- A step updates its target, or writes the result or nothing if it is a return. -/
theorem Step.execute_cases {functions : FunctionTable σ} {values final : SlotValues}
    {step : Step Slot} {ends : Bool} {world after : World σ}
    (outcome : step.execute functions values world = some ((final, ends), after)) :
    (∃ assignment operand, step = .assign assignment ∧
      final = values.update assignment.target.number assignment.update operand) ∨
    (∃ condition value, step = .return condition value ∧
      (final = values ∨ ∃ result, final = values.update resultSlot.number .set result)) := by
  cases step with
  | assign assignment =>
      rcases Run.bind_eq_some outcome with ⟨operand, between, _, rest⟩
      cases rest
      exact .inl ⟨assignment, operand, rfl, rfl⟩
  | «return» condition value =>
      have decided : ∃ (fires : Bool) (between : World σ), (if fires then do
            let result ← value.evaluate functions (values.scope (σ := σ))
            pure (values.update resultSlot.number .set result, true)
          else pure (values, false) : Run σ (SlotValues × Bool)) between =
            some ((final, ends), after) := by
        cases condition with
        | none => exact ⟨true, world, outcome⟩
        | some condition =>
            rcases Run.bind_eq_some outcome with ⟨fires, between, _, rest⟩
            exact ⟨fires, between, rest⟩
      rcases decided with ⟨fires, between, rest⟩
      refine .inr ⟨condition, value, rfl, ?_⟩
      cases fires with
      | true =>
          rcases Run.bind_eq_some rest with ⟨result, _, _, rest⟩
          cases rest
          exact .inr ⟨result, rfl⟩
      | false =>
          cases rest
          exact .inl rfl

open ProcessRule in
/-- A step changes the slot it assigns and no other, the result apart. -/
theorem Step.execute_value {functions : FunctionTable σ} {values final : SlotValues}
    {step : Step Slot} {ends : Bool} {world after : World σ} (counted : Counted [step])
    (outcome : step.execute functions values world = some ((final, ends), after))
    {number : Nat} (positive : 0 < number) (notResult : number ≠ resultSlot.number)
    (unassigned : number ∉ assignedSlots [step]) : final.value number = values.value number := by
  rcases step.execute_cases outcome with
    ⟨assignment, operand, rfl, rfl⟩ | ⟨condition, value, rfl, rfl | ⟨result, rfl⟩⟩
  · have targetPositive : 0 < assignment.target.number := counted _ (by simp [assignedSlots])
    have different : number ≠ assignment.target.number := by
      simpa [assignedSlots] using unassigned
    exact SlotValues.value_update_other _ targetPositive positive different _ _
  · rfl
  · exact SlotValues.value_update_other _ (by decide) positive notResult _ _

namespace ProcessRule

/-- What is carried out is the beginning of the steps, and it changes no slot
that it does not assign. -/
theorem executeTaken_value {functions : FunctionTable σ} {traced : Bool}
    {steps taken : List (Step Slot)} {number : Nat} {values final : SlotValues}
    {world after : World σ} (counted : Counted steps)
    (outcome : executeTaken functions traced number values steps world =
      some ((taken, final), after)) :
    taken <+: steps ∧ ∀ slot, 0 < slot → slot ≠ resultSlot.number → slot ∉ assignedSlots taken →
      final.value slot = values.value slot := by
  induction steps generalizing number values world taken with
  | nil =>
      cases outcome
      exact ⟨by simp, fun _ _ _ _ => rfl⟩
  | cons step rest induction =>
      rw [executeTaken_cons] at outcome
      rcases Run.bind_eq_some outcome with ⟨_, _, _, outcome⟩
      rcases Run.bind_eq_some outcome with ⟨⟨stepped, ends⟩, between, execution, outcome⟩
      rcases counted_cons.mp counted with ⟨countedStep, countedRest⟩
      cases ends with
      | true =>
          cases outcome
          exact ⟨by simp, fun slot positive notResult unassigned =>
            step.execute_value countedStep execution positive notResult unassigned⟩
      | false =>
          rcases Run.bind_eq_some outcome with ⟨⟨later, last⟩, _, following, outcome⟩
          cases outcome
          rcases induction countedRest following with ⟨beginning, unchanged⟩
          refine ⟨List.prefix_cons_iff.mpr (.inr ⟨later, rfl, beginning⟩), ?_⟩
          intro slot positive notResult unassigned
          rw [assignedSlots_cons, List.mem_append, not_or] at unassigned
          rw [unchanged slot positive notResult unassigned.2]
          exact step.execute_value countedStep execution positive notResult unassigned.1

/-! ## The phases of a run -/

/-- What a run has computed when it begins to write. -/
structure Computation where
  loaded : SlotValues
  taken : List (Step Slot)
  final : SlotValues

/-- Taking the value array of a process changes value arrays alone. -/
theorem takePad_run (process : ProcessRule) (world : World σ) :
    ∃ pad pads, takePad process world = some (pad, { world with pads }) := by
  rw [takePad, Run.get_bind]
  rcases world.pads.lookup process.id with _ | (values | _) <;> exact ⟨_, _, rfl⟩

/-- The part of a run before its writes: load and carry out the steps. -/
def compute (functions : FunctionTable σ) (read : Identifier → Run σ Binary64)
    (process : ProcessRule) (traced : Bool) : Run σ Computation := do
  let pad ← takePad process
  let loaded ← load read ((pad.getD #[]).take 0) process.slots
  let (taken, final) ← executeTaken functions traced 1 loaded process.steps
  if pad.isSome then modify (·.setPad process.id (.idle final))
  pure ⟨loaded, taken, final⟩

/-- What a computation leaves to be written. -/
def Computation.saved (process : ProcessRule) (computation : Computation) :
    List (Identifier × Binary64) :=
  process.changes computation.loaded computation.final

theorem forIn_write (responder : Responder σ) (saved : List (Identifier × Binary64)) :
    (forIn saved PUnit.unit fun entry _ => do
      let _ ← responder.write entry.1 .set entry.2
      pure (ForInStep.yield PUnit.unit) : Run σ PUnit) = responder.writeAll saved := by
  induction saved with
  | nil => rfl
  | cons entry rest induction =>
      rw [List.forIn_cons, Responder.writeAll]
      simp only [bind_assoc, pure_bind]
      congr 1
      funext _
      exact induction

/-- A run computes, writes and answers the value of its first slot. -/
theorem runProcess_eq (responder : Responder σ) (engine : Engine σ) (process : ProcessRule)
    (traced : Bool) :
    responder.runProcess engine process traced = (do
      let computation ← process.compute engine.functions responder.read traced
      responder.writeAll (computation.saved process)
      pure (computation.final.value resultSlot.number)) := by
  simp only [Responder.runProcess, run, compute, Computation.saved, executeSteps_eq, bind_assoc]
  congr 1
  funext pad
  congr 1
  funext loaded
  rw [bind_map_left]
  congr 1
  funext result
  simp only [forIn_write]
  cases pad.isSome <;> simp

theorem mem_changes {process : ProcessRule} {loaded final : SlotValues} {id : Identifier}
    {value : Binary64} :
    (id, value) ∈ process.changes loaded final ↔
      ∃ place slot, process.slots[place]? = some slot ∧ slot.global? = some id ∧
        value = final.value (place + 1) ∧ (value != loaded.value (place + 1)) = true := by
  unfold changes
  rw [List.mem_filterMap]
  constructor
  · rintro ⟨⟨slot, place⟩, member, kept⟩
    have found := List.mem_zipIdx_iff_getElem?.mp member
    cases global : slot.global? with
    | none => simp [global] at kept
    | some _ =>
        simp only [global, Option.ite_none_right_eq_some, Option.some.injEq, Prod.mk.injEq] at kept
        rcases kept with ⟨differs, rfl, rfl⟩
        exact ⟨place, slot, found, global, rfl, differs⟩
  · rintro ⟨place, slot, found, global, rfl, differs⟩
    refine ⟨(slot, place), List.mem_zipIdx_iff_getElem?.mpr found, ?_⟩
    simp [global, differs]

theorem filterMap_sublist_filterMap {narrow wide : α → Option β}
    (narrower : ∀ item result, narrow item = some result → wide item = some result)
    (items : List α) : (items.filterMap narrow).Sublist (items.filterMap wide) := by
  induction items with
  | nil => exact .slnil
  | cons item rest induction =>
      cases kept : narrow item with
      | none =>
          rw [List.filterMap_cons_none kept]
          exact induction.trans ((List.sublist_cons_self item rest).filterMap wide)
      | some result =>
          rw [List.filterMap_cons_some kept, List.filterMap_cons_some (narrower _ _ kept)]
          exact induction.cons_cons result

/-- Identifiers are written in the order of their slots. -/
theorem changes_sublist (process : ProcessRule) (loaded final : SlotValues) :
    ((process.changes loaded final).map Prod.fst).Sublist
      (process.slots.filterMap (·.global?)) := by
  have places : process.slots.filterMap (·.global?) =
      process.slots.zipIdx.filterMap fun entry => entry.1.global? := by
    conv_lhs => rw [← List.zipIdx_map_fst 0 process.slots, List.filterMap_map]
    rfl
  rw [places, changes, List.map_filterMap]
  apply filterMap_sublist_filterMap
  rintro ⟨slot, place⟩ id kept
  cases global : slot.global? with
  | none => simp [global] at kept
  | some other =>
      simp only [global, Option.map_eq_some_iff, Option.ite_none_right_eq_some,
        Option.some.injEq] at kept ⊢
      rcases kept with ⟨entry, ⟨_, rfl⟩, rfl⟩
      rfl

end ProcessRule

/-- A value differs from itself when it is not a number, and only then. -/
theorem Binary64.bne_self (value : Binary64) : (value != value) = value.isNotANumber := by
  change (!(comparable value value && value.place == value.place)) = _
  simp [comparable]

namespace ProcessRule

theorem BoundTo.counted {registry : Registry σ} {process : ProcessRule}
    (bound : process.BoundTo registry) : Counted process.steps := by
  intro number member
  rcases List.mem_filterMap.mp member with ⟨step, known, assigned⟩
  cases step with
  | assign assignment =>
      cases assigned
      exact bound.pos_of_assigned known
  | «return» condition value => cases assigned

/-- A slot that stands for a registered name keeps its loaded value unless an
executed step assigns it. -/
theorem compute_value {registry : Registry σ} {process : ProcessRule}
    (bound : process.BoundTo registry) {functions : FunctionTable σ}
    {read : Identifier → Run σ Binary64} {traced : Bool} {world after : World σ}
    {computation : Computation}
    (computed : process.compute functions read traced world = some (computation, after)) :
    computation.taken <+: process.steps ∧ ∀ place slot id, process.slots[place]? = some slot →
      slot.global? = some id → place + 1 ∉ assignedSlots computation.taken →
      computation.final.value (place + 1) = computation.loaded.value (place + 1) := by
  rcases Run.bind_eq_some computed with ⟨pad, _, _, computed⟩
  rcases Run.bind_eq_some computed with ⟨loaded, _, _, computed⟩
  rcases Run.bind_eq_some computed with ⟨⟨taken, final⟩, _, execution, computed⟩
  have result : computation = ⟨loaded, taken, final⟩ := by
    cases available : pad.isSome with
    | true =>
        simp only [available, if_true] at computed
        rcases Run.bind_eq_some computed with ⟨_, _, _, computed⟩
        cases computed
        rfl
    | false =>
        simp only [available] at computed
        cases computed
        rfl
  subst result
  rcases executeTaken_value bound.counted execution with ⟨beginning, unchanged⟩
  refine ⟨beginning, fun place slot id found global unassigned => ?_⟩
  have positive := bound.pos_of_global found global
  exact unchanged (place + 1) (Nat.succ_pos place) (by simp only [resultSlot]; omega) unassigned

/-- What a run writes. Before its writes the run computes on its own; then it
gives registered names their values, in the order of the slots and none of them
twice. A name is written with the value its slot ends with, and only if an
executed step assigned the slot or what the slot was loaded with is not a number.
A name whose slot was not assigned is written exactly in that second case. -/
theorem runProcess_writes {engine : Engine σ} (reachable : engine.registry.Reachable)
    {text : String} {start next : World σ} {process : ProcessRule}
    (accepted : engine.parseProcess text start = some (.ok process, next))
    (responder : Responder σ) (traced : Bool) :
    responder.runProcess engine process traced = (do
      let computation ← process.compute engine.functions responder.read traced
      responder.writeAll (computation.saved process)
      pure (computation.final.value resultSlot.number)) ∧
    ∀ world computation after,
      process.compute engine.functions responder.read traced world = some (computation, after) →
        computation.taken <+: process.steps ∧
        ((computation.saved process).map Prod.fst).Sublist
          (process.slots.filterMap (·.global?)) ∧
        ((computation.saved process).map Prod.fst).Nodup ∧
        (∀ id value, (id, value) ∈ computation.saved process →
          ∃ place slot, process.slots[place]? = some slot ∧ slot.global? = some id ∧
            value = computation.final.value (place + 1) ∧
            (place + 1 ∈ assignedSlots computation.taken ∨
              (computation.loaded.value (place + 1)).isNotANumber = true)) ∧
        ∀ place slot id, process.slots[place]? = some slot → slot.global? = some id →
          place + 1 ∉ assignedSlots computation.taken →
          ((∃ value, (id, value) ∈ computation.saved process) ↔
            (computation.loaded.value (place + 1)).isNotANumber = true) := by
  refine ⟨runProcess_eq responder engine process traced, ?_⟩
  intro world computation after computed
  have bound := boundTo_of_parseProcess accepted
  rcases compute_value bound computed with ⟨beginning, unchanged⟩
  have ordered := changes_sublist process computation.loaded computation.final
  refine ⟨beginning, ordered, (bound.nodup_globals reachable).sublist ordered, ?_, ?_⟩
  · intro id value member
    rcases mem_changes.mp member with ⟨place, slot, found, global, rfl, differs⟩
    refine ⟨place, slot, found, global, rfl, ?_⟩
    by_cases assigned : place + 1 ∈ assignedSlots computation.taken
    · exact .inl assigned
    · rw [unchanged place slot id found global assigned, Binary64.bne_self] at differs
      exact .inr differs
  · intro place slot id found global unassigned
    have same := unchanged place slot id found global unassigned
    constructor
    · rintro ⟨value, member⟩
      rcases mem_changes.mp member with ⟨other, otherSlot, otherFound, otherGlobal, rfl, differs⟩
      rcases bound.place_eq reachable otherFound otherGlobal found global with rfl
      rwa [same, Binary64.bne_self] at differs
    · intro notANumber
      refine ⟨computation.final.value (place + 1), mem_changes.mpr
        ⟨place, slot, found, global, rfl, ?_⟩⟩
      rwa [same, Binary64.bne_self]

/-! ### A value that is not a number -/

namespace NotANumber

/-- An engine that knows one name and no functions. -/
def engine : Engine Nat where
  registry := ((RegistryRequest.addName "stat" "x" 0 .temporary {}).carryOut.run {}).2
  functions := ⟨[]⟩
  settings := {}

def identifier : Identifier := ⟨0x1000001, by decide⟩

/-- A store where the name is not a number. The listener of the name counts the
changes it is told of. -/
def world : World Nat where
  host := 0
  store :=
    { dense := #[]
      entries := [⟨{ id := identifier, name := "x" }, .notANumber false⟩]
      bus := (Bus.add {} identifier fun _ => .host (· + 1) fun _ => .done).2 }
  dice := ⟨fun _ => 0, 0⟩

/-- The process `Return(x)`. -/
def process : ProcessRule :=
  .ofSteps ⟨0⟩ ' ' engine.registry.identifier? [.return none (.name "x")]

end NotANumber

open NotANumber in
theorem runProcess_writes_return :
    engine.registry.Reachable ∧
    (∃ next, engine.parseProcess "Return(x)" world = some (.ok process, next)) ∧
    ∃ computation after,
      process.compute engine.functions (engine.respond 1).read false world =
          some (computation, after) ∧
        2 ∉ assignedSlots computation.taken ∧
        ((∃ value, (identifier, value) ∈ computation.saved process) ↔
          (computation.loaded.value 2).isNotANumber = true) := by
  have reachable : engine.registry.Reachable := .step _ .empty
  have accepted : ∃ next, engine.parseProcess "Return(x)" world = some (.ok process, next) :=
    ⟨_, rfl⟩
  rcases accepted with ⟨next, accepted⟩
  have computed : ∃ computation after,
      process.compute engine.functions (engine.respond 1).read false world =
          some (computation, after) ∧ assignedSlots computation.taken = [] :=
    ⟨_, _, rfl, rfl⟩
  rcases computed with ⟨computation, after, computed, unassigned⟩
  have notAssigned : 2 ∉ assignedSlots computation.taken := by
    rw [unassigned]
    exact List.not_mem_nil
  have writes := (runProcess_writes reachable accepted (engine.respond 1) false).2 world
    computation after computed
  exact ⟨reachable, ⟨next, accepted⟩, computation, after, computed, notAssigned,
    writes.2.2.2.2 1 ⟨"x", some identifier⟩ identifier rfl rfl notAssigned⟩

open NotANumber in
/-- A process that only reads a name writes it where it is not a number, and the
listener of the name is told. -/
theorem read_written_back :
    (∃ computation after,
      process.compute engine.functions (engine.respond 1).read false world =
          some (computation, after) ∧
        assignedSlots computation.taken = [] ∧
        (computation.saved process).map Prod.fst = [identifier]) ∧
    ((engine.respond 2).runProcess engine process false world).map (·.2.host) = some 1 :=
  ⟨⟨_, _, rfl, rfl, rfl⟩, rfl⟩

end ProcessRule

end NumericRules
