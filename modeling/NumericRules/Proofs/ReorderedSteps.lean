import NumericRules.Proofs.ProcessRefinement
import NumericRules.Proofs.RearrangedReads

/-! # Steps in another order

What a process computes are values of names, wherever their slots are. So independent
assignments in it may change places: the result is the same, and the same values are saved,
though perhaps in another order. Saving them is making independent assignments.
-/

namespace NumericRules

open ProcessRule (slotOf)

/-! ## Slots that have the values of their names -/

namespace SlotValues

variable {names : List String} {name : String}

/-- Slots with the values of the names they are called by. -/
def named (names : List String) (value : String → Binary64) : SlotValues :=
  (names.map value).toArray

theorem value_named (value : String → Binary64) {place : Nat}
    (found : names[place]? = some name) : (named names value).value (place + 1) = value name := by
  simp [SlotValues.value, named, found]

theorem value_slotOf (value : String → Binary64) (known : name ∈ names) :
    (named names value).value (slotOf names name).number = value name :=
  value_named value (List.getElem?_idxOf known)

/-- To update a slot is to update the value of its name. -/
theorem update_slotOf (value : String → Binary64) (nodup : names.Nodup) (known : name ∈ names)
    (update : Update) (operand : Binary64) :
    (named names value).update (slotOf names name).number update operand =
      named names (Function.update value name
        (({} : Bounds).clamp (update.apply (value name) operand))) := by
  rw [SlotValues.update, value_slotOf value known, named, named, nodup.map_update, if_pos known,
    Array.set!_eq_setIfInBounds, List.setIfInBounds_toArray]
  rfl

end SlotValues

open SlotValues (named)

/-! ## What steps make of the values of names -/

section Effects

variable (answers : String → List Binary64 → Binary64)

/-- The values of names after a step, and whether the process ends with it. -/
def Step.effect (value : String → Binary64) : Step String → (String → Binary64) × Bool
  | .assign assignment =>
      (Function.update value assignment.target
        (({} : Bounds).clamp (assignment.update.apply (value assignment.target)
          (assignment.value.value answers value))), false)
  | .return condition result =>
      if condition.all (·.holds answers value) then
        (Function.update value ProcessRule.resultName
          (({} : Bounds).clamp (result.value answers value)), true)
      else (value, false)

/-- The values of names after steps, up to the one that ends the process. -/
def Step.effects (value : String → Binary64) : List (Step String) → String → Binary64
  | [] => value
  | step :: rest =>
      if (step.effect answers value).2 then (step.effect answers value).1
      else effects (step.effect answers value).1 rest

/-- Both steps are assignments, and independent ones. -/
inductive Step.Independent (key : ν → κ) : Step ν → Step ν → Prop
  | assign {first second : Assignment ν} : first.Independent key second →
      Step.Independent key (.assign first) (.assign second)

variable {answers}

/-- Values that do not mention a name are the same when it changes. -/
theorem Formula.value_update {formula : Formula String} {name : String}
    (unmentioned : ∀ reference ∈ formula.references, reference ≠ name)
    (value : String → Binary64) (result : Binary64) :
    formula.value answers (Function.update value name result) = formula.value answers value :=
  formula.value_congr answers fun reference mentioned =>
    Function.update_of_ne (unmentioned reference mentioned) result value

theorem Step.effects_swap {first second : Assignment String}
    (independent : first.Independent id second) (value : String → Binary64)
    (after : List (Step String)) :
    effects answers value (.assign first :: .assign second :: after) =
      effects answers value (.assign second :: .assign first :: after) := by
  have different : first.target ≠ second.target := independent.targets
  have ofFirst : ∀ name ∈ first.value.references, name ≠ second.target := independent.ofFirst
  have ofSecond : ∀ name ∈ second.value.references, name ≠ first.target := independent.ofSecond
  simp only [effects, Step.effect, Bool.false_eq_true, if_false, Formula.value_update ofFirst,
    Formula.value_update ofSecond, Function.update_of_ne different,
    Function.update_of_ne different.symm]
  rw [Function.update_comm different]

theorem Step.effects_swapped {steps others : List (Step String)}
    (swapped : Swapped (Step.Independent id) steps others) (value : String → Binary64) :
    effects answers value steps = effects answers value others := by
  rcases swapped with ⟨before, after, ⟨independent⟩⟩
  induction before generalizing value with
  | nil => exact effects_swap independent value after
  | cons step rest induction => simp only [List.cons_append, effects, induction]

theorem Step.effects_reordered {steps others : List (Step String)}
    (reordered : Reordered (Step.Independent id) steps others) (value : String → Binary64) :
    effects answers value steps = effects answers value others := by
  induction reordered with
  | refl => rfl
  | tail _ swapped induction => exact induction.trans (effects_swapped swapped value)

end Effects

/-! ## Carrying out steps on slots -/

/-- The slots of a process are called by the names, the first one by that of the result, and
its steps mention no others. -/
structure ProcessRule.Binds (names : List String) (steps : List (Step String)) : Prop where
  first : names[0]? = some resultName
  nodup : names.Nodup
  mentions : ∀ step ∈ steps, ∀ name ∈ step.mentions, name ∈ names

section Execution

variable {functions : FunctionTable σ} {answers : String → List Binary64 → Binary64}
  (answered : functions.AnsweredBy answers)
  {names : List String} (value : String → Binary64) (store : Store σ)

theorem SlotValues.scope_named {mentioned : List String}
    (within : ∀ name ∈ mentioned, name ∈ names) :
    ((named names value).scope.before (slotOf names)).Gives store value mentioned := by
  intro name member world same
  change some ((named names value).value (slotOf names name).number, world) = _
  rw [value_slotOf value (within name member)]

include answered

theorem Formula.evaluate_named {formula : Formula String}
    (native : formula.Meets (.fromArguments functions))
    (within : ∀ name ∈ formula.references, name ∈ names) :
    ((formula.map (slotOf names)).evaluate functions (named names value).scope).Fixed store
      (formula.value answers value) := by
  rw [Formula.evaluate_map]
  exact Formula.evaluate_fixed answered native (SlotValues.scope_named value store within)

theorem Condition.check_named {condition : Condition String}
    (native : condition.Meets (.fromArguments functions))
    (within : ∀ name ∈ condition.references, name ∈ names) :
    ((condition.map (slotOf names)).check functions (named names value).scope).Fixed store
      (condition.holds answers value) := by
  rw [Condition.check_map]
  exact Condition.check_fixed answered native (SlotValues.scope_named value store within)

theorem Step.execute_named {step : Step String} (native : step.Meets (.fromArguments functions))
    (first : names[0]? = some ProcessRule.resultName) (nodup : names.Nodup)
    (within : ∀ name ∈ step.mentions, name ∈ names) :
    ((step.map (slotOf names)).execute functions (named names value)).Fixed store
      (named names (step.effect answers value).1, (step.effect answers value).2) := by
  cases step with
  | assign assignment =>
      rcases List.forall_mem_cons.mp within with ⟨known, within⟩
      have operand := Formula.evaluate_named answered value store native.2 within
      refine operand.bind ?_
      dsimp only [Assignment.map]
      rw [SlotValues.update_slotOf value nodup known]
      exact .pure _
  | «return» condition result =>
      have known : ProcessRule.resultName ∈ names := List.mem_of_getElem? first
      have place : names.idxOf ProcessRule.resultName = 0 := by
        rcases List.getElem?_eq_some_iff.mp first with ⟨inRange, isFirst⟩
        rw [← isFirst, nodup.idxOf_getElem]
      have isResult : slotOf names ProcessRule.resultName = ProcessRule.resultSlot := by
        rw [slotOf, place]
        rfl
      have parts := List.forall_mem_append.mp within
      have finishes (meets : result.Meets (.fromArguments functions)) (ends : Bool) :
          Run.Fixed store
            (if ends then do
              let result ← (result.map (slotOf names)).evaluate functions
                ((named names value).scope (σ := σ))
              pure ((named names value).update ProcessRule.resultSlot.number .set result, true)
            else pure (named names value, false))
            (if ends then (named names (Function.update value ProcessRule.resultName
              (({} : Bounds).clamp (result.value answers value))), true)
            else (named names value, false)) := by
        cases ends with
        | false => exact .pure _
        | true =>
            refine (Formula.evaluate_named answered value store meets parts.2).bind ?_
            rw [← isResult, SlotValues.update_slotOf value nodup known]
            exact .pure _
      cases condition with
      | none => exact finishes native true
      | some condition =>
          refine (Condition.check_named answered value store native.1 parts.1).bind ?_
          rw [Step.effect, Option.all_some]
          cases condition.holds answers value with
          | false => exact finishes native.2 false
          | true => exact finishes native.2 true

/-- Carrying out steps on slots keeps to the values of names. -/
theorem ProcessRule.executeTaken_named {steps : List (Step String)}
    (native : ∀ step ∈ steps, step.Meets (.fromArguments functions))
    (binds : Binds names steps) (traced : Bool) (number : Nat) (world : World σ) :
    ∃ taken log, executeTaken functions traced number (named names value)
        (steps.map (Step.map (slotOf names))) world =
      some ((taken, named names (Step.effects answers value steps)), { world with log }) := by
  induction steps generalizing value number world with
  | nil => exact ⟨[], world.log, rfl⟩
  | cons step rest induction =>
      rcases List.forall_mem_cons.mp native with ⟨stepNative, restNative⟩
      rcases List.forall_mem_cons.mp binds.mentions with ⟨within, restWithin⟩
      rcases traceStep_if traced number (named names value) (step.map (slotOf names)) world with
        ⟨log, traces⟩
      have executes := Step.execute_named answered value world.store stepNative binds.first
        binds.nodup within { world with log } rfl
      rw [List.map_cons, executeTaken_cons, Run.bind_apply, traces]
      dsimp only
      rw [Run.bind_apply, executes, Step.effects]
      dsimp only
      split
      · exact ⟨_, log, rfl⟩
      · rcases induction (step.effect answers value).1 restNative
          ⟨binds.first, binds.nodup, restWithin⟩ (number + 1) { world with log } with
          ⟨taken, last, executesRest⟩
        rw [Run.bind_apply, executesRest]
        exact ⟨_, last, rfl⟩

end Execution

/-! ## Whole processes -/

namespace ProcessRule

/-- The value that is saved for a name, if it has changed. -/
def saving (identifier? : String → Option Identifier) (before after : String → Binary64)
    (name : String) : Option (Identifier × Binary64) :=
  (localSlot identifier? name).global?.bind fun id =>
    if after name != before name then some (id, after name) else none

/-- The process with steps in place of its own, over the slots that it has. -/
def withSteps (process : ProcessRule) (steps : List (Step String)) : ProcessRule :=
  { process with steps := steps.map (Step.map (slotOf (process.slots.map (·.name)))) }

/-- The process has the steps, over slots that are called by the names. -/
structure LaidOut (identifier? : String → Option Identifier) (names : List String)
    (steps : List (Step String)) (process : ProcessRule) : Prop extends Binds names steps where
  isSteps : process.steps = steps.map (Step.map (slotOf names))
  isSlots : process.slots = names.map (localSlot identifier?)

section Outcome

variable {identifier? : String → Option Identifier} {names : List String}
  {steps : List (Step String)} {process : ProcessRule}

theorem LaidOut.names_eq (laidOut : LaidOut identifier? names steps process) :
    process.slots.map (·.name) = names := by
  rw [laidOut.isSlots, List.map_map]
  exact List.map_id names

theorem LaidOut.changes_named (laidOut : LaidOut identifier? names steps process)
    (before after : String → Binary64) :
    process.changes (named names before) (named names after) =
      names.filterMap (saving identifier? before after) := by
  have places : names.filterMap (saving identifier? before after) =
      names.zipIdx.filterMap fun entry => saving identifier? before after entry.1 := by
    conv_lhs => rw [← List.zipIdx_map_fst 0 names, List.filterMap_map]
    rfl
  rw [places, changes, laidOut.isSlots, List.zipIdx_map, List.filterMap_map]
  refine List.filterMap_congr fun entry member => ?_
  have found := List.mem_zipIdx_iff_getElem?.mp member
  simp only [Function.comp, Prod.map, id_eq, saving, SlotValues.value_named _ found]
  cases (localSlot identifier? entry.1).global? <;> rfl

/-- The slots of the names are loaded with what the names read as. -/
def initialValue (identifier? : String → Option Identifier) (value : Identifier → Binary64)
    (name : String) : Binary64 :=
  (localSlot identifier? name).value value

theorem LaidOut.load_named {engine : Engine σ} (depth : Nat) (store : Store σ)
    (laidOut : LaidOut identifier? names steps process)
    (hookless : ∀ slot ∈ process.slots, ∀ id, slot.global? = some id → engine.Hookless id) :
    (load (engine.respond (depth + 1)).read #[] process.slots).Fixed store
      (named names (initialValue identifier? (engine.plainValue store))) := by
  have reads : ∀ slot ∈ process.slots, ∀ id, slot.global? = some id →
      (Run.Valuation.fixed store).has ((engine.respond (depth + 1)).read id)
        (engine.plainValue store id) := by
    rintro slot member id global world rfl
    exact engine.read_hookless (hookless slot member id global) depth world
  have loads := load_value reads #[]
  rw [Array.empty_append, SlotValues.ofSlots] at loads
  rw [laidOut.isSlots, List.map_map] at loads
  rw [laidOut.isSlots]
  exact loads

/-- What a process saves and answers follows from the values of names. -/
theorem LaidOut.outcome_named {engine : Engine σ}
    {answers : String → List Binary64 → Binary64}
    (answered : engine.functions.AnsweredBy answers)
    (laidOut : LaidOut identifier? names steps process)
    (native : ∀ step ∈ steps, step.Meets (.fromArguments engine.functions))
    (hookless : ∀ slot ∈ process.slots, ∀ id, slot.global? = some id → engine.Hookless id)
    (depth : Nat) (traced : Bool) (world : World σ) {before after : String → Binary64}
    (begins : before = initialValue identifier? (engine.plainValue world.store))
    (ends : after = Step.effects answers before steps) :
    ∃ pads log, process.outcome engine.functions (engine.respond (depth + 1)).read traced world =
      some ((names.filterMap (saving identifier? before after), after resultName),
        { world with pads, log }) := by
  subst begins ends
  have loads := laidOut.load_named depth world.store hookless
  have executes (traced : Bool) (number : Nat) (other : World σ) :=
    executeTaken_named answered (initialValue identifier? (engine.plainValue world.store)) native
      laidOut.toBinds traced number other
  rw [← laidOut.isSteps] at executes
  rcases compute_run loads executes traced rfl with ⟨taken, pads, log, computes⟩
  have result := SlotValues.value_named (Step.effects answers
    (initialValue identifier? (engine.plainValue world.store)) steps) laidOut.first
  refine ⟨pads, log, ?_⟩
  rw [outcome, Run.bind_apply, computes, ← laidOut.changes_named, ← result]
  rfl

theorem LaidOut.mem_saving (laidOut : LaidOut identifier? names steps process)
    {before after : String → Binary64} {write : Identifier × Binary64}
    (member : write ∈ names.filterMap (saving identifier? before after)) :
    ∃ slot ∈ process.slots, slot.global? = some write.1 := by
  rw [laidOut.isSlots]
  rcases List.mem_filterMap.mp member with ⟨name, known, saves⟩
  rcases Option.bind_eq_some_iff.mp saves with ⟨id, global, changed⟩
  rcases Option.ite_none_right_eq_some.mp changed with ⟨_, same⟩
  cases same
  exact ⟨_, List.mem_map_of_mem known, global⟩

end Outcome

/-! ### Names of slots -/

section Names

variable {steps others : List (Step String)}

theorem mem_slotNames_iff {name : String} :
    name ∈ slotNames steps ↔ name = resultName ∨ ∃ step ∈ steps, name ∈ step.mentions := by
  rw [slotNames, mem_firstOccurrences, List.mem_cons, List.mem_flatMap]

theorem binds_slotNames (among : others ⊆ steps) : Binds (slotNames steps) others where
  first := by
    rw [← List.head?_eq_getElem?]
    exact head?_firstOccurrences resultName _
  nodup := nodup_firstOccurrences _
  mentions _ member _ mentioned := mem_slotNames_of_mention (among member) mentioned

theorem perm_slotNames (perm : steps.Perm others) : (slotNames steps).Perm (slotNames others) := by
  refine (List.perm_ext_iff_of_nodup (nodup_firstOccurrences _) (nodup_firstOccurrences _)).mpr ?_
  intro name
  change name ∈ slotNames steps ↔ name ∈ slotNames others
  simp only [mem_slotNames_iff, perm.mem_iff]

theorem laidOut_ofSteps (id : RuleId) (separator : Char)
    (identifier? : String → Option Identifier) (steps : List (Step String)) :
    LaidOut identifier? (slotNames steps) steps (ofSteps id separator identifier? steps) :=
  ⟨binds_slotNames (List.Subset.refl steps), rfl, rfl⟩

theorem laidOut_withSteps (id : RuleId) (separator : Char)
    (identifier? : String → Option Identifier) (among : others ⊆ steps) :
    LaidOut identifier? (slotNames steps) others
      ((ofSteps id separator identifier? steps).withSteps others) := by
  refine ⟨binds_slotNames among, ?_, rfl⟩
  rw [withSteps, names_ofSteps]

end Names

end ProcessRule

/-! ### Saving values -/

/-- The assignment of a value to a registered name. -/
def Assignment.ofWrite (write : Identifier × Binary64) : Assignment Reference :=
  ⟨⟨write.1, ""⟩, .set, .constant write.2⟩

theorem Assignment.independent_ofWrite {write other : Identifier × Binary64}
    (different : write.1 ≠ other.1) : (ofWrite write).Independent (·.id) (ofWrite other) :=
  ⟨different, fun _ mentioned => absurd mentioned List.not_mem_nil,
    fun _ mentioned => absurd mentioned List.not_mem_nil⟩

theorem Engine.plain_ofWrite {engine : Engine σ} {write : Identifier × Binary64}
    (unhooked : engine.Unhooked write.1) : engine.Plain (.ofWrite write) :=
  ⟨List.forall_mem_singleton.mpr unhooked, trivial⟩

theorem Responder.writeAll_eq (responder : Responder σ) (engine : Engine σ)
    (saved : List (Identifier × Binary64)) :
    responder.writeAll saved = responder.assignAll engine (saved.map .ofWrite) := by
  induction saved with
  | nil => rfl
  | cons write rest induction =>
      rw [Responder.writeAll, List.map_cons, Responder.assignAll, induction]
      rfl

/-- Values of different names may be saved in any order. -/
theorem Assignment.reordered_ofWrite {saved others : List (Identifier × Binary64)}
    (nodup : (saved.map Prod.fst).Nodup) (perm : saved.Perm others) :
    Reordered (Independent (·.id)) (saved.map ofWrite) (others.map ofWrite) := by
  refine .of_perm Independent.symm (List.pairwise_map.mpr ?_) (perm.map ofWrite)
  exact (List.pairwise_map.mp nodup).imp independent_ofWrite

namespace Engine

open ProcessRule (initialValue saving)

variable {engine : Engine σ}

/-- A process that saves values of names without hooks, which nobody listens to. -/
theorem runProcess_plain {answers : String → List Binary64 → Binary64}
    (answered : engine.functions.AnsweredBy answers)
    {process : ProcessRule} {depth : Nat} {traced : Bool} {world : World σ}
    {saved : List (Identifier × Binary64)} {result : Binary64} {pads : List (RuleId × Pad)}
    {log : List LogEntry}
    (outcome : process.outcome engine.functions (engine.respond (depth + 1)).read traced world =
      some ((saved, result), { world with pads, log }))
    (unhooked : ∀ write ∈ saved, engine.Unhooked write.1) (unheard : world.Unheard) :
    ∃ last, (engine.respond (depth + 1)).runProcess engine process traced world =
      some (result, { world with
        store := (saved.map .ofWrite).foldl (engine.assigned answers) world.store
        pads
        log := last }) := by
  have plain : ∀ assignment ∈ saved.map Assignment.ofWrite, engine.Plain assignment :=
    List.forall_mem_map.mpr fun write member => plain_ofWrite (unhooked write member)
  have silent : ∀ assignment ∈ saved.map Assignment.ofWrite,
      ({ world with pads, log } : World σ).Silent assignment.target.id :=
    fun assignment _ => unheard assignment.target.id
  rcases assignAll_plain answered plain depth silent with ⟨last, writes⟩
  refine ⟨last, ?_⟩
  rw [ProcessRule.runProcess_eq_outcome, Run.bind_apply, outcome]
  dsimp only
  rw [Responder.writeAll_eq _ engine, Run.bind_apply, writes]
  rfl

/-- Processes whose steps are in another order save and answer the same. -/
theorem processes_reordered (registered : engine.registry.Reachable) {process other : ProcessRule}
    {names otherNames : List String} {steps others : List (Step String)}
    (bound : process.BoundTo engine.registry)
    (laidOut : process.LaidOut engine.registry.identifier? names steps)
    (otherLaidOut : other.LaidOut engine.registry.identifier? otherNames others)
    (perm : names.Perm otherNames) (reordered : Reordered (Step.Independent id) steps others)
    (native : ∀ step ∈ steps, step.Meets (.fromArguments engine.functions))
    (unhooked : ∀ slot ∈ process.slots, ∀ global, slot.global? = some global →
      engine.Unhooked global)
    (depth : Nat) (traced : Bool) {world : World σ}
    (shaped : world.store.Shaped engine.registry) (unheard : world.Unheard) :
    ∃ saved otherSaved result first second,
      (process.outcome engine.functions (engine.respond (depth + 1)).read traced world).map
        Prod.fst = some (saved, result) ∧
      (other.outcome engine.functions (engine.respond (depth + 1)).read traced world).map
        Prod.fst = some (otherSaved, result) ∧
      otherSaved.Perm saved ∧ (other.slots = process.slots → otherSaved = saved) ∧
      (engine.respond (depth + 1)).runProcess engine process traced world =
        some (result, first) ∧
      (engine.respond (depth + 1)).runProcess engine other traced world =
        some (result, second) ∧
      first.Rearranged second := by
  rcases engine.functions.exists_answeredBy with ⟨answers, answered⟩
  have otherUnhooked : ∀ slot ∈ other.slots, ∀ id, slot.global? = some id →
      engine.Unhooked id := by
    intro slot member
    rw [otherLaidOut.isSlots, ← (perm.map _).mem_iff, ← laidOut.isSlots] at member
    exact unhooked slot member
  have otherNative : ∀ step ∈ others, step.Meets (.fromArguments engine.functions) :=
    fun step member => native step (reordered.perm.mem_iff.mpr member)
  -- both processes take the same values of names to the same values
  obtain ⟨before, begins⟩ : ∃ before, before = initialValue engine.registry.identifier?
    (engine.plainValue world.store) := ⟨_, rfl⟩
  obtain ⟨after, ends⟩ : ∃ after, after = Step.effects answers before steps := ⟨_, rfl⟩
  have otherEnds := ends.trans (Step.effects_reordered reordered before)
  rcases laidOut.outcome_named answered native
      (fun slot member id global => (unhooked slot member id global).hookless) depth traced world
      begins ends with ⟨pads, log, outcome⟩
  rcases otherLaidOut.outcome_named answered otherNative
      (fun slot member id global => (otherUnhooked slot member id global).hookless) depth traced
      world begins otherEnds with ⟨otherPads, otherLog, otherOutcome⟩
  have nodup := (bound.nodup_globals registered).sublist
    (process.changes_sublist (named names before) (named names after))
  rw [laidOut.changes_named] at nodup
  have savedUnhooked : ∀ write ∈ names.filterMap (saving engine.registry.identifier? before after),
      engine.Unhooked write.1 := by
    intro write member
    rcases laidOut.mem_saving member with ⟨slot, isSlot, global⟩
    exact unhooked slot isSlot _ global
  have sameWrites := perm.filterMap (saving engine.registry.identifier? before after)
  rcases runProcess_plain answered outcome savedUnhooked unheard with ⟨last, runs⟩
  rcases runProcess_plain answered otherOutcome (fun write member =>
    savedUnhooked write (sameWrites.mem_iff.mpr member)) unheard with ⟨otherLast, otherRuns⟩
  have rearranged := foldl_assigned_rearranged answers shaped
    (Assignment.reordered_ofWrite nodup sameWrites)
  refine ⟨_, _, _, _, _, ?_, ?_, sameWrites.symm, fun sameSlots => ?_, runs, otherRuns,
    _, otherPads, otherLast, rfl, rearranged⟩
  · rw [outcome]
    rfl
  · rw [otherOutcome]
    rfl
  · rw [← laidOut.names_eq, ← otherLaidOut.names_eq, sameSlots]

/-- Independent assignments may change places.

In a set of operations the names must have no hooks, nobody may listen, and the functions
must use nothing but the values of their arguments. The store is then the same, except for
the order in which names were first written. In a process, which is read anew or keeps its
slots, the result is the same as well, and so are the values that are saved.

In stores that differ in that order alone the ordered names have the same values, the same
names were touched, and every name, whatever hooks it has, reads the same. -/
theorem independent_statements_commute (engine : Engine σ)
    (registered : engine.registry.Reachable) :
    (∀ operations others : OperationRule,
      Reordered (Assignment.Independent (·.id)) operations.assignments others.assignments →
      (∀ assignment ∈ operations.assignments, engine.Plain assignment) →
      ∀ depth (world : World σ), world.store.Reached engine → world.Unheard →
        ∃ first second,
          (engine.respond (depth + 1)).execute engine operations world = some ((), first) ∧
          (engine.respond (depth + 1)).execute engine others world = some ((), second) ∧
          first.Rearranged second) ∧
    (∀ rule separator (steps others : List (Step String)) (process other : ProcessRule),
      Reordered (Step.Independent id) steps others →
      (∀ step ∈ steps, step.Meets (.fromArguments engine.functions) ∧
        ∀ name ∈ step.mentions, ∀ global, engine.registry.identifier? name = some global →
          engine.Unhooked global) →
      process = .ofSteps rule separator engine.registry.identifier? steps →
      (∃ rule separator, other = .ofSteps rule separator engine.registry.identifier? others) ∨
        other = process.withSteps others →
      ∀ depth traced (world : World σ), world.store.Reached engine → world.Unheard →
        ∃ saved otherSaved result first second,
          (process.outcome engine.functions (engine.respond (depth + 1)).read traced world).map
            Prod.fst = some (saved, result) ∧
          (other.outcome engine.functions (engine.respond (depth + 1)).read traced world).map
            Prod.fst = some (otherSaved, result) ∧
          otherSaved.Perm saved ∧ (other.slots = process.slots → otherSaved = saved) ∧
          (engine.respond (depth + 1)).runProcess engine process traced world =
            some (result, first) ∧
          (engine.respond (depth + 1)).runProcess engine other traced world =
            some (result, second) ∧
          first.Rearranged second) ∧
    ∀ world other : World σ, world.Rearranged other →
      other.store.dense = world.store.dense ∧
      other.store.touched.Perm world.store.touched ∧
      (∀ id, other.store.valueOf id = world.store.valueOf id) ∧
      ∀ depth id, (engine.respond depth (.read id) other).map Prod.fst =
        (engine.respond depth (.read id) world).map Prod.fst := by
  refine ⟨fun operations others reordered plain depth world reached unheard => ?_, ?_, ?_⟩
  · rcases engine.functions.exists_answeredBy with ⟨answers, answered⟩
    rcases assignAll_plain answered plain depth fun assignment _ =>
      unheard assignment.target.id with ⟨log, runs⟩
    have otherPlain : ∀ assignment ∈ others.assignments, engine.Plain assignment :=
      fun assignment member => plain assignment (reordered.perm.mem_iff.mpr member)
    rcases assignAll_plain answered otherPlain depth fun assignment _ =>
      unheard assignment.target.id with ⟨otherLog, otherRuns⟩
    exact ⟨_, _, runs, otherRuns, _, world.pads, otherLog, rfl,
      foldl_assigned_rearranged answers reached.sound.toShaped reordered⟩
  · rintro rule separator steps others process other reordered plain rfl isOther depth traced
      world reached unheard
    have unhooked : ∀ slot ∈ (ProcessRule.slotNames steps).map
        (ProcessRule.localSlot engine.registry.identifier?), ∀ global,
        slot.global? = some global → engine.Unhooked global := by
      intro slot member global isGlobal
      rcases List.mem_map.mp member with ⟨name, known, rfl⟩
      simp only [ProcessRule.localSlot, Option.ite_none_left_eq_some, beq_iff_eq] at isGlobal
      rcases ProcessRule.mem_slotNames_iff.mp known with isResult | ⟨step, isStep, mentioned⟩
      · exact absurd isResult isGlobal.1
      · exact (plain step isStep).2 name mentioned global isGlobal.2
    have bound : ProcessRule.BoundTo engine.registry
        (.ofSteps rule separator engine.registry.identifier? steps) := ⟨_, _, _, rfl⟩
    have laidOut := ProcessRule.laidOut_ofSteps rule separator engine.registry.identifier? steps
    have native := fun step member => (plain step member).1
    have shaped := reached.sound.toShaped
    rcases isOther with ⟨otherRule, otherSeparator, rfl⟩ | rfl
    · exact processes_reordered registered bound laidOut
        (ProcessRule.laidOut_ofSteps otherRule otherSeparator _ others)
        (ProcessRule.perm_slotNames reordered.perm) reordered native unhooked depth traced shaped
        unheard
    · exact processes_reordered registered bound laidOut
        (ProcessRule.laidOut_withSteps rule separator _ reordered.perm.symm.subset) (.refl _)
        reordered native unhooked depth traced shaped unheard
  · rintro world _ ⟨store, pads, log, rfl, rearranged⟩
    refine ⟨rearranged.dense, rearranged.touched.map _, rearranged.valueOf, fun depth id => ?_⟩
    rcases engine.read_rearranged depth id world _ ⟨store, pads, log, rfl, rearranged⟩ with
      ⟨fails, alsoFails⟩ | ⟨value, after, otherAfter, ran, alsoRan, _⟩
    · rw [fails, alsoFails]
    · rw [ran, alsoRan]
      rfl

end Engine

/-! ### A till in another order -/

namespace Till

def deposit : Assignment Reference := ⟨coins, .set, .call "Max" [.constant 5, .name tray]⟩

def ringing : Assignment Reference := ⟨bell, .set, .constant 1⟩

def depositing : OperationRule := ⟨⟨0⟩, [deposit, ringing], ' '⟩

def ringingFirst : OperationRule := ⟨⟨1⟩, [ringing, deposit], ' '⟩

def steps : List (Step String) :=
  [.assign (deposit.map Reference.name), .assign (ringing.map Reference.name),
    .return none (.name "coins")]

def otherSteps : List (Step String) :=
  [.assign (ringing.map Reference.name), .assign (deposit.map Reference.name),
    .return none (.name "coins")]

theorem plain_deposit : engine.Plain deposit where
  unhooked := by
    have mentioned : ∀ reference ∈ deposit.mentions,
        reference.id ∈ [coins.id, bell.id, tray.id] := by decide
    exact fun reference member => unhooked _ (mentioned reference member)
  native := ⟨fun _ found => Function.builtins_fromArguments (by decide) found, trivial, trivial,
    trivial⟩

theorem plain_ringing : engine.Plain ringing where
  unhooked := List.forall_mem_singleton.mpr (unhooked _ (by decide))
  native := trivial

theorem plain_steps : ∀ step ∈ steps, step.Meets (.fromArguments engine.functions) ∧
    ∀ name ∈ step.mentions, ∀ global, engine.registry.identifier? name = some global →
      engine.Unhooked global := by
  have mentioned : ∀ step ∈ steps, ∀ name ∈ step.mentions, name ∈ ["coins", "bell", "tray"] := by
    decide
  have globals : ∀ name ∈ ["coins", "bell", "tray"], engine.registry.identifier? name ∈
      [coins.id, bell.id, tray.id].map some := by decide +kernel
  have native : ∀ step ∈ steps, step.Meets (.fromArguments engine.functions) :=
    List.forall_mem_cons.mpr
      ⟨⟨trivial, fun _ found => Function.builtins_fromArguments (by decide) found, trivial, trivial,
        trivial⟩,
      List.forall_mem_cons.mpr ⟨⟨trivial, trivial⟩, List.forall_mem_singleton.mpr trivial⟩⟩
  refine fun step member => ⟨native step member, fun name isMentioned global known => ?_⟩
  have isGlobal := globals name (mentioned step member name isMentioned)
  rw [known, List.mem_map_of_injective (Option.some_injective _)] at isGlobal
  exact unhooked global isGlobal

end Till

open Till in
theorem Engine.independent_statements_commute_till :
    engine.registry.Reachable ∧ opening.store.Reached engine ∧ opening.Unheard ∧
    (∃ first second, (engine.respond 1).execute engine depositing opening = some ((), first) ∧
      (engine.respond 1).execute engine ringingFirst opening = some ((), second) ∧
      first.Rearranged second ∧ first.store.touched = [coins.id, bell.id] ∧
      second.store.touched = [bell.id, coins.id] ∧ second.store.valueOf coins.id = 5) ∧
    ∃ first second result,
      (engine.respond 1).runProcess engine
        (.ofSteps ⟨0⟩ ' ' engine.registry.identifier? steps) false opening = some (result, first) ∧
      (engine.respond 1).runProcess engine
        (.ofSteps ⟨1⟩ ' ' engine.registry.identifier? otherSteps) false opening =
          some (result, second) ∧
      first.Rearranged second ∧ result = 5 ∧ first.store.touched = [coins.id, bell.id] ∧
      second.store.touched = [bell.id, coins.id] := by
  have registered : engine.registry.Reachable := Registry.reachable_ofRequests _
  have reached : opening.store.Reached engine := ⟨none, .start⟩
  have unheard : opening.Unheard := fun _ => ⟨rfl, rfl⟩
  rcases Engine.independent_statements_commute engine registered with ⟨operations, processes, _⟩
  have independent : deposit.Independent (·.id) ringing :=
    ⟨by decide, by decide, by decide⟩
  have reordered : Reordered (Step.Independent id) steps otherSteps :=
    .single (.swap [] _ (.assign ⟨by decide, by decide, by decide⟩))
  have plain : ∀ assignment ∈ depositing.assignments, engine.Plain assignment :=
    List.forall_mem_cons.mpr ⟨plain_deposit, List.forall_mem_singleton.mpr plain_ringing⟩
  refine ⟨registered, reached, unheard, ?_, ?_⟩
  · rcases operations depositing ringingFirst (.single (.swap [] [] independent)) plain 0 opening
      reached unheard with ⟨first, second, ran, otherRan, rearranged⟩
    have touched : ((engine.respond 1).execute engine depositing opening).map
        (fun result => result.2.store.touched) = some [coins.id, bell.id] := by decide +kernel
    have otherTouched : ((engine.respond 1).execute engine ringingFirst opening).map
        (fun result => (result.2.store.touched, result.2.store.valueOf coins.id)) =
          some ([bell.id, coins.id], 5) := by decide +kernel
    rw [ran] at touched
    rw [otherRan] at otherTouched
    simp only [Option.map_some, Option.some.injEq, Prod.mk.injEq] at touched otherTouched
    exact ⟨first, second, ran, otherRan, rearranged, touched, otherTouched.1, otherTouched.2⟩
  · rcases processes ⟨0⟩ ' ' steps otherSteps _ _
      reordered plain_steps rfl (.inl ⟨⟨1⟩, ' ', rfl⟩) 0 false opening reached unheard with
      ⟨_, _, result, first, second, _, _, _, _, ran, otherRan, rearranged⟩
    have touched : ((engine.respond 1).runProcess engine
        (.ofSteps ⟨0⟩ ' ' engine.registry.identifier? steps) false opening).map
          (fun outcome => (outcome.1, outcome.2.store.touched)) =
            some (5, [coins.id, bell.id]) := by decide +kernel
    have otherTouched : ((engine.respond 1).runProcess engine
        (.ofSteps ⟨1⟩ ' ' engine.registry.identifier? otherSteps) false opening).map
          (fun outcome => outcome.2.store.touched) = some [bell.id, coins.id] := by decide +kernel
    rw [ran] at touched
    rw [otherRan] at otherTouched
    simp only [Option.map_some, Option.some.injEq, Prod.mk.injEq] at touched otherTouched
    exact ⟨first, second, result, ran, otherRan, rearranged, touched.1, touched.2, otherTouched⟩

end NumericRules
