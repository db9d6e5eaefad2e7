import NumericRules.Proofs.Grammar.StatementRebinding
import NumericRules.Proofs.ProcessSimulation
import NumericRules.Proofs.Rereading

/-! # Assignments as the steps of a process

A text of assignments to ordinary names may be carried out as it stands or run as a
process. The process works on slots, which it loads at first, and writes those that have
changed. Either way every name ends with the same value, up to the sign of zero.
-/

namespace NumericRules

namespace Binary64

/-- The values are equal up to the sign of zero, or none of them is a number. -/
def Alike (left right : Binary64) : Prop :=
  (left == right) = true ∨ left.isNotANumber = true ∧ right.isNotANumber = true

instance (left right : Binary64) : Decidable (left.Alike right) :=
  inferInstanceAs (Decidable (_ ∨ _))

theorem Alike.refl (value : Binary64) : value.Alike value := by
  have differs := bne_self value
  cases number : value.isNotANumber with
  | true => exact .inr ⟨number, number⟩
  | false =>
      rw [number] at differs
      exact .inl (by simpa [bne] using differs)

end Binary64

/-! ## Loading -/

/-- The value that a slot is loaded with. -/
def LocalSlot.loaded (store : Store σ) (slot : LocalSlot) : Binary64 :=
  match slot.global? with
  | some id => store.valueOf id
  | none => 0

/-- The values that slots are loaded with. -/
def SlotValues.loaded (store : Store σ) (slots : List LocalSlot) : SlotValues :=
  (slots.map (LocalSlot.loaded store)).toArray

theorem SlotValues.loaded_eq_ofSlots (store : Store σ) (slots : List LocalSlot) :
    loaded store slots = ofSlots store.valueOf slots := by
  have same : LocalSlot.loaded store = LocalSlot.value store.valueOf := by
    funext slot
    unfold LocalSlot.loaded LocalSlot.value
    cases slot.global? <;> rfl
  rw [loaded, ofSlots, same]

theorem SlotValues.value_loaded (store : Store σ) {slots : List LocalSlot} {place : Nat}
    {slot : LocalSlot} (found : slots[place]? = some slot) :
    (loaded store slots).value (place + 1) = slot.loaded store := by
  simp [value, loaded, found]

namespace ProcessRule

theorem load_fixed {read : Identifier → Run σ Binary64} {store : Store σ} {slots : List LocalSlot}
    (reads : ∀ slot ∈ slots, ∀ id, slot.global? = some id →
      (read id).Fixed store (store.valueOf id)) (values : SlotValues) :
    (load read values slots).Fixed store (values ++ SlotValues.loaded store slots) := by
  rw [SlotValues.loaded_eq_ofSlots]
  have loads : (Run.Valuation.fixed store).has (load read values slots)
      (values ++ SlotValues.ofSlots store.valueOf slots) := load_value reads values
  exact loads

theorem compute_run {functions : FunctionTable σ} {read : Identifier → Run σ Binary64}
    {process : ProcessRule} {store : Store σ} {loaded final : SlotValues}
    (loads : (load read #[] process.slots).Fixed store loaded)
    (executes : ∀ traced number (world : World σ), ∃ taken log,
      executeTaken functions traced number loaded process.steps world =
        some ((taken, final), { world with log }))
    (traced : Bool) {world : World σ} (same : world.store = store) :
    ∃ taken pads log, process.compute functions read traced world =
      some (⟨loaded, taken, final⟩, { world with pads, log }) := by
  rcases takePad_run process world with ⟨pad, pads, takes⟩
  rcases executes traced 1 { world with pads } with ⟨taken, log, executes⟩
  have emptied : (pad.getD #[]).take 0 = #[] := by simp
  have loads : load read #[] process.slots { world with pads } =
      some (loaded, { world with pads }) := loads _ same
  rw [compute, Run.bind_apply, takes]
  dsimp only
  rw [emptied, Run.bind_apply, loads]
  dsimp only
  rw [Run.bind_apply, executes]
  cases pad with
  | none => exact ⟨taken, pads, log, rfl⟩
  | some values => exact ⟨taken, _, log, rfl⟩

/-! ## Layouts -/

section Layout

variable {registry : Registry σ} {names : List String} {mentioned : List Reference}
  (layout : Layout registry names mentioned)

include layout

theorem Layout.slot_found {reference : Reference} (member : reference ∈ mentioned) :
    (names.map (localSlot registry.identifier?))[names.idxOf reference.name]? =
      some ⟨reference.name, some reference.id⟩ :=
  getElem?_localSlot (layout.named reference member) (layout.notResult reference member)
    (layout.resolved reference member)

theorem Layout.mentioned_of_global {place : Nat} {slot : LocalSlot} {id : Identifier}
    (found : (names.map (localSlot registry.identifier?))[place]? = some slot)
    (global : slot.global? = some id) : ∃ reference ∈ mentioned, reference.id = id :=
  ProcessRule.mentioned_of_global layout.others layout.resolved (List.mem_of_getElem? found) global

theorem Layout.matched {store : Store σ} (sound : store.Sound registry) :
    Matched registry names mentioned store
      (.loaded store (names.map (localSlot registry.identifier?))) where
  sound := sound
  size := by simp [SlotValues.loaded]
  values reference member := by
    rw [slotFor, slotOf, SlotValues.value_loaded store (layout.slot_found member)]
    rfl

/-- The result slot keeps the 0 that it is loaded with. -/
theorem Layout.result_eq {store after : Store σ} {final : SlotValues}
    (carried : Carried names mentioned store
      (.loaded store (names.map (localSlot registry.identifier?))) after final) :
    final.value resultSlot.number = 0 := by
  have notAssigned : ∀ reference ∈ mentioned,
      resultSlot.number ≠ (slotFor names reference).number := by
    intro reference member same
    have place : names.idxOf reference.name = 0 := (Nat.succ.inj same).symm
    have named := List.getElem?_idxOf (layout.named reference member)
    rw [place, layout.first] at named
    exact layout.notResult reference member (Option.some.inj named).symm
  have found : (names.map (localSlot registry.identifier?))[0]? = some ⟨resultName, none⟩ := by
    rw [List.getElem?_map, layout.first]
    rfl
  rw [carried.kept _ (by decide) notAssigned, resultSlot, SlotValues.value_loaded store found]
  rfl

/-- A process writes what assignments write, where it is not loaded already. -/
theorem Layout.alike (registered : registry.Reachable) {process : ProcessRule}
    (bound : process.BoundTo registry)
    (slots : process.slots = names.map (localSlot registry.identifier?))
    {store after written : Store σ} {final : SlotValues}
    (carried : Carried names mentioned store (.loaded store process.slots) after final)
    (matched : Matched registry names mentioned after final)
    (given : ∀ write ∈ process.changes (.loaded store process.slots) final,
      written.valueOf write.1 = ({} : Bounds).clamp write.2)
    (kept : ∀ id, id ∉ (process.changes (.loaded store process.slots) final).map Prod.fst →
      written.valueOf id = store.valueOf id)
    (id : Identifier) : (after.valueOf id).Alike (written.valueOf id) := by
  by_cases isMentioned : ∃ reference ∈ mentioned, reference.id = id
  · rcases isMentioned with ⟨reference, member, rfl⟩
    have found := slots ▸ layout.slot_found member
    have loaded := SlotValues.value_loaded store found
    rw [← matched.values reference member, slotFor, slotOf]
    generalize names.idxOf reference.name = place at found loaded
    by_cases differs : (final.value (place + 1) !=
        (SlotValues.loaded store process.slots).value (place + 1)) = true
    · rw [given _ (mem_changes.mpr ⟨place, _, found, rfl, rfl, differs⟩)]
      rcases carried.clamped (place + 1) (Nat.succ_pos place) with same | within
      · -- nothing but what is not a number differs from itself
        rw [same, Binary64.bne_self] at differs
        rw [Bounds.clamp_of_isNotANumber (same ▸ differs)]
        exact .refl _
      · rw [within]
        exact .refl _
    · have unwritten : reference.id ∉
          (process.changes (.loaded store process.slots) final).map Prod.fst := by
        intro written
        rcases List.mem_map.mp written with ⟨⟨_, value⟩, member, rfl⟩
        rcases mem_changes.mp member with ⟨other, slot, otherFound, global, rfl, otherDiffers⟩
        rcases bound.place_eq registered otherFound global found rfl with rfl
        exact differs otherDiffers
      rw [kept _ unwritten, ← show _ = store.valueOf reference.id from loaded]
      exact .inl (by simpa [bne] using differs)
  · have unwritten : id ∉ (process.changes (.loaded store process.slots) final).map Prod.fst := by
      intro written
      rcases List.mem_map.mp written with ⟨⟨_, value⟩, member, rfl⟩
      rcases mem_changes.mp member with ⟨place, slot, found, global, _⟩
      exact isMentioned (layout.mentioned_of_global (slots ▸ found) global)
    rw [kept id unwritten, carried.elsewhere id fun reference member same =>
      isMentioned ⟨reference, member, same.symm⟩]
    exact .refl _

end Layout

end ProcessRule

/-! ## Accepted texts -/

/-- The names of assignments in the order of the text. -/
def OperationRule.mentions (operations : OperationRule) : List Reference :=
  operations.assignments.flatMap Assignment.mentions

namespace ProcessRule

/-- The steps of a process that are assignments to registered names. -/
def assignmentSteps (assignments : List (Assignment Reference)) : List (Step String) :=
  assignments.map fun assignment => .assign (assignment.map Reference.name)

theorem mem_slotNames {assignments : List (Assignment Reference)} {name : String} :
    name ∈ slotNames (assignmentSteps assignments) ↔ name = resultName ∨
      ∃ reference ∈ assignments.flatMap Assignment.mentions, reference.name = name := by
  rw [slotNames, mem_firstOccurrences, List.mem_cons, assignmentSteps, List.flatMap_map]
  simp only [Step.mentions, Assignment.mentions_map, List.mem_flatMap, List.mem_map]
  constructor
  · rintro (isResult | ⟨assignment, isStep, reference, member, rfl⟩)
    · exact .inl isResult
    · exact .inr ⟨reference, ⟨assignment, isStep, member⟩, rfl⟩
  · rintro (isResult | ⟨reference, ⟨assignment, isStep, member⟩, rfl⟩)
    · exact .inl isResult
    · exact .inr ⟨assignment, isStep, reference, member, rfl⟩

end ProcessRule

namespace Engine

open ProcessRule

variable {engine : Engine σ}

theorem readOperations_of_parseOperations {text : String} {start next : World σ}
    {operations : OperationRule}
    (accepted : engine.parseOperations text start = some (.ok operations, next)) :
    engine.readOperations text = .ok operations.assignments := by
  rcases ok_of_numbered accepted with ⟨assignments, read, rfl⟩
  exact read

/-- Names of accepted assignments stand for what the registry knows by them. -/
theorem identifier?_of_readOperations (functions : engine.functions.Reachable) {text : String}
    {assignments : List (Assignment Reference)}
    (read : engine.readOperations text = .ok assignments) :
    ∀ reference ∈ assignments.flatMap Assignment.mentions,
      engine.registry.identifier? reference.name = some reference.id := by
  have known := (known_of_wholeOperations (faithful functions) (parse_of_readText read)).2
  intro reference member
  rcases List.mem_flatMap.mp member with ⟨assignment, isAssignment, member⟩
  rcases known assignment isAssignment with ⟨target, value⟩
  rcases List.mem_cons.mp member with rfl | inValue
  · exact Engine.identifier?_of_reference? target.2
  · exact Engine.identifier?_of_reference? (Formula.name_of_meets _ value reference inValue).2

theorem layout_of_readOperations (functions : engine.functions.Reachable) {text : String}
    {assignments : List (Assignment Reference)}
    (read : engine.readOperations text = .ok assignments)
    (ordinary : ∀ reference ∈ assignments.flatMap Assignment.mentions,
      reference.name ≠ resultName ∧ ∃ record,
        engine.registry.record? reference.id = some record ∧ record.Ordinary) :
    Layout engine.registry (slotNames (assignmentSteps assignments))
      (assignments.flatMap Assignment.mentions) where
  first := by
    rw [← List.head?_eq_getElem?]
    exact head?_firstOccurrences resultName _
  others _ member := mem_slotNames.mp member
  named reference member := mem_slotNames.mpr (.inr ⟨reference, member, rfl⟩)
  notResult reference member := (ordinary reference member).1
  resolved := identifier?_of_readOperations functions read
  ordinary reference member := (ordinary reference member).2

/-- Assignments and the process of them lead to stores with alike values. -/
theorem stores_alike (registered : engine.registry.Reachable) {operations : OperationRule}
    {process : ProcessRule} {names : List String}
    (bound : process.BoundTo engine.registry)
    (slots : process.slots = names.map (localSlot engine.registry.identifier?))
    (steps : process.steps = operations.assignments.map (stepFor names))
    (layout : Layout engine.registry names operations.mentions)
    (native : ∀ assignment ∈ operations.assignments,
      assignment.value.Meets (.fromArguments engine.functions))
    (depth : Nat) (traced : Bool) {left right : World σ} (same : left.store = right.store)
    (sound : left.store.Sound engine.registry)
    (silent : ∀ reference ∈ operations.mentions,
      left.Silent reference.id ∧ right.Silent reference.id) :
    ∃ after written pads log,
      (engine.respond (depth + 1)).execute engine operations left =
        some ((), { left with store := after }) ∧
      (engine.respond (depth + 1)).runProcess engine process traced right =
        some (0, { right with store := written, pads, log }) ∧
      after.Sound engine.registry ∧ written.Sound engine.registry ∧
      ∀ id, (after.valueOf id).Alike (written.valueOf id) := by
  have within : ∀ assignment ∈ operations.assignments, ∀ reference ∈ assignment.mentions,
      reference ∈ operations.mentions :=
    fun assignment member reference inAssignment =>
      List.mem_flatMap.mpr ⟨assignment, member, inAssignment⟩
  have matched := layout.matched sound
  rw [← slots] at matched
  rcases matched.assignAll layout registered depth within native
      (fun reference member => (silent reference member).1) with
    ⟨after, final, assigns, executes, carried, matched⟩
  -- what is left of a run is that it loads the values first and writes the changes last
  have reads : ∀ slot ∈ process.slots, ∀ id, slot.global? = some id →
      ((engine.respond (depth + 1)).read id).Fixed left.store (left.store.valueOf id) := by
    intro slot member id global
    rcases List.mem_iff_getElem?.mp member with ⟨place, found⟩
    rcases layout.mentioned_of_global (slots ▸ found) global with ⟨reference, member, rfl⟩
    exact engine.read_fixed sound (layout.hookless member) depth
  have loads := load_fixed reads #[]
  rw [Array.empty_append] at loads
  rw [← steps] at executes
  rcases compute_run loads executes traced same.symm with ⟨taken, pads, log, computes⟩
  have nodup := (bound.nodup_globals registered).sublist
    (changes_sublist process (.loaded left.store process.slots) final)
  have ordinary : ∀ write ∈ process.changes (.loaded left.store process.slots) final,
      (∃ record, engine.registry.record? write.1 = some record ∧ record.Ordinary) ∧
        ({ right with pads, log } : World σ).Silent write.1 := by
    rintro ⟨id, value⟩ member
    rcases mem_changes.mp member with ⟨place, slot, found, global, _⟩
    rcases layout.mentioned_of_global (slots ▸ found) global with ⟨reference, inText, rfl⟩
    exact ⟨layout.ordinary reference inText, (silent reference inText).2⟩
  have rightSound : ({ right with pads, log } : World σ).store.Sound engine.registry := same ▸ sound
  rcases engine.writeAll_run registered depth nodup ordinary rightSound with
    ⟨written, writes, writtenSound, given, kept⟩
  have returned : final.value resultSlot.number = 0 := layout.result_eq (slots ▸ carried)
  refine ⟨after, written, pads, log, assigns, ?_, matched.sound, writtenSound,
    layout.alike registered bound slots carried matched given (same ▸ kept)⟩
  rw [runProcess_eq, Run.bind_apply, computes]
  dsimp only [Computation.saved]
  rw [Run.bind_apply, writes, returned]
  rfl

/-! ## Readings -/

/-- Two answers that are alike, or none. -/
abbrev AnsweredAlike : Option (Binary64 × World σ) → Option (Binary64 × World σ) → Prop :=
  Option.Rel fun left right => left.1.Alike right.1

/-- Reading the name tells nothing but the values of names, up to the sign of zero, the
state of the host program and the dice. -/
def Indifferent (engine : Engine σ) (id : Identifier) : Prop :=
  ∀ depth (left right : World σ), left.host = right.host → left.dice = right.dice →
    (∀ other, (left.store.valueOf other).Alike (right.store.valueOf other)) →
    AnsweredAlike (engine.respond depth (.read id) left) (engine.respond depth (.read id) right)

/-- A hook that always gives the same value tells nothing. -/
theorem indifferent_of_constant {record : NameRecord σ}
    (known : engine.registry.record? record.id = some record)
    (typed : record.id.isOrdered = false) {hook : GetHook σ} (hooked : record.getHook = some hook)
    {value : Binary64} (constant : hook record.id = .finish (.ok value)) :
    engine.Indifferent record.id := by
  intro depth left right _ _ _
  cases depth with
  | zero => exact .none
  | succ depth =>
      have answers (world : World σ) :
          engine.respond (depth + 1) (.read record.id) world = some (value, world) := by
        rw [respond, answer, readOnce, Run.store_bind, typed, known]
        simp only [hooked, constant, Bool.false_eq_true, if_false]
        rfl
      rw [answers, answers]
      exact .some (.refl value)

/-- A process without returns does what the assignments of its text do. Where names are
ordinary and nobody listens to them, a text of assignments that does not mention the
result is also the text of a process. From equal stores the assignments and a run of the
process, which has the result 0, lead to stores where every name without a get hook
reads alike, and every other one that tells no more than the values do. -/
theorem process_refines_operations (registered : engine.registry.Reachable)
    (functions : engine.functions.Reachable) {text : String} {start next : World σ}
    {operations : OperationRule}
    (accepted : engine.parseOperations text start = some (.ok operations, next))
    (ordinary : ∀ reference ∈ operations.mentions, reference.name ≠ resultName ∧
      ∃ record, engine.registry.record? reference.id = some record ∧ record.Ordinary)
    (native : ∀ assignment ∈ operations.assignments,
      assignment.value.Meets (.fromArguments engine.functions)) (before : World σ) :
    ∃ process later, engine.parseProcess text before = some (.ok process, later) ∧
      ∀ (depth : Nat) (traced : Bool) (left right : World σ), left.store = right.store →
        left.store.Reached engine →
        (∀ reference ∈ operations.mentions,
          left.Silent reference.id ∧ right.Silent reference.id) →
        ∃ leftAfter rightAfter,
          (engine.respond (depth + 1)).execute engine operations left = some ((), leftAfter) ∧
          (engine.respond (depth + 1)).runProcess engine process traced right =
            some (0, rightAfter) ∧
          (∀ id, engine.Hookless id → ∀ further, ∃ leftValue rightValue,
            engine.respond (further + 1) (.read id) leftAfter = some (leftValue, leftAfter) ∧
            engine.respond (further + 1) (.read id) rightAfter = some (rightValue, rightAfter) ∧
            leftValue.Alike rightValue) ∧
          (left.host = right.host → left.dice = right.dice →
            ∀ id, engine.Indifferent id → ∀ further,
              AnsweredAlike (engine.respond further (.read id) leftAfter)
                (engine.respond further (.read id) rightAfter)) := by
  have read := readOperations_of_parseOperations accepted
  have layout := layout_of_readOperations functions read ordinary
  have parsed : ∃ id later, engine.parseProcess text before =
      some (.ok (.ofSteps id engine.settings.stepSeparator engine.registry.identifier?
        (assignmentSteps operations.assignments)), later) := by
    rw [parseProcess, readSteps_of_readOperations read]
    exact ⟨_, _, rfl⟩
  rcases parsed with ⟨id, later, parsed⟩
  refine ⟨_, later, parsed, fun depth traced left right same reached silent => ?_⟩
  have steps : (ProcessRule.ofSteps id engine.settings.stepSeparator engine.registry.identifier?
      (assignmentSteps operations.assignments)).steps =
        operations.assignments.map
          (stepFor (slotNames (assignmentSteps operations.assignments))) := by
    simp only [ofSteps, assignmentSteps, List.map_map]
    rfl
  rcases stores_alike registered (boundTo_of_parseProcess parsed) rfl steps layout native depth
      traced same reached.sound silent with
    ⟨after, written, pads, log, executes, runs, afterSound, writtenSound, alike⟩
  refine ⟨_, _, executes, runs, fun id hookless further => ?_,
    fun sameHost sameDice id indifferent further => ?_⟩
  · exact ⟨_, _, engine.read_fixed afterSound hookless further _ rfl,
      engine.read_fixed writtenSound hookless further _ rfl, alike id⟩
  · exact indifferent further _ _ sameHost sameDice alike

end Engine

/-! ### A text that is carried out both ways -/

namespace Stock

def stock : NameRecord Nat := { id := ⟨0x1000001, Nat.one_ne_zero⟩, name := "stock" }

def order : NameRecord Nat :=
  { id := ⟨0x2000001, Nat.one_ne_zero⟩, name := "order", cycle := .day }

/-- A name that always reads as 12. -/
def dozen : NameRecord Nat :=
  { id := ⟨0x3000001, Nat.one_ne_zero⟩, name := "dozen"
    getHook := some fun _ => .finish (.ok 12) }

/-- An engine that knows these names. -/
def engine : Engine Nat where
  registry := .ofRequests [
    .addName "stat" "stock" 0 .temporary {},
    .addName "plan" "order" 0 .day {},
    .addName "unit" "dozen" 0 .temporary {},
    .hookName "dozen" (.get fun _ => .finish (.ok 12))]
  functions := Function.builtins
  settings := {}

def start : World Nat := engine.start 0 ⟨fun _ => 0, 0⟩

def text : String := "stock-=2 order=Max(stock,1)"

/-- What the text is read as. -/
def operations : OperationRule where
  id := ⟨0⟩
  assignments :=
    [⟨⟨stock.id, "stock"⟩, .decrease, .constant ⟨0x4000000000000000⟩⟩,
     ⟨⟨order.id, "order"⟩, .set,
       .call "Max" [.name ⟨stock.id, "stock"⟩, .constant ⟨0x3ff0000000000000⟩]⟩]
  separator := ' '

theorem ordinary_stock : stock.Ordinary := ⟨rfl, by decide, .inr (by decide), rfl, rfl⟩

theorem ordinary_order : order.Ordinary := ⟨rfl, by decide, .inr (by decide), rfl, rfl⟩

end Stock

namespace Engine

open Stock in
theorem process_refines_operations_stock :
    Stock.engine.registry.Reachable ∧ Stock.engine.functions.Reachable ∧
    (∃ next, Stock.engine.parseOperations text Stock.start = some (.ok operations, next)) ∧
    (∀ reference ∈ operations.mentions, reference.name ≠ ProcessRule.resultName ∧
      ∃ record, Stock.engine.registry.record? reference.id = some record ∧ record.Ordinary) ∧
    (∀ assignment ∈ operations.assignments,
      assignment.value.Meets (.fromArguments Stock.engine.functions)) ∧
    ∃ process later,
      Stock.engine.parseProcess text Stock.start = some (.ok process, later) ∧
      Stock.start.store.Reached Stock.engine ∧
      (∀ reference ∈ operations.mentions, Stock.start.Silent reference.id) ∧
      ∃ leftAfter rightAfter,
        (Stock.engine.respond 1).execute Stock.engine operations Stock.start =
          some ((), leftAfter) ∧
        (Stock.engine.respond 1).runProcess Stock.engine process true Stock.start =
          some (0, rightAfter) ∧
        Stock.engine.Hookless order.id ∧ Stock.engine.Indifferent dozen.id ∧
        (∃ leftValue rightValue,
          Stock.engine.respond 1 (.read order.id) leftAfter = some (leftValue, leftAfter) ∧
          Stock.engine.respond 1 (.read order.id) rightAfter = some (rightValue, rightAfter) ∧
          leftValue.Alike rightValue) ∧
        AnsweredAlike (Stock.engine.respond 1 (.read dozen.id) leftAfter)
          (Stock.engine.respond 1 (.read dozen.id) rightAfter) := by
  have registered : Stock.engine.registry.Reachable := Registry.reachable_ofRequests _
  have functions : Stock.engine.functions.Reachable := .builtins
  have accepted : ∃ next, Stock.engine.parseOperations text Stock.start =
      some (.ok operations, next) := ⟨_, rfl⟩
  have mentions : operations.mentions =
      [⟨stock.id, "stock"⟩, ⟨order.id, "order"⟩, ⟨stock.id, "stock"⟩] := rfl
  have ofStock : ("stock" : String) ≠ ProcessRule.resultName ∧
      ∃ record, Stock.engine.registry.record? stock.id = some record ∧ record.Ordinary :=
    ⟨by decide, stock, rfl, ordinary_stock⟩
  have ofOrder : ("order" : String) ≠ ProcessRule.resultName ∧
      ∃ record, Stock.engine.registry.record? order.id = some record ∧ record.Ordinary :=
    ⟨by decide, order, rfl, ordinary_order⟩
  have ordinary : ∀ reference ∈ operations.mentions, reference.name ≠ ProcessRule.resultName ∧
      ∃ record, Stock.engine.registry.record? reference.id = some record ∧ record.Ordinary := by
    simpa [mentions] using And.intro ofStock (And.intro ofOrder ofStock)
  have native : ∀ assignment ∈ operations.assignments,
      assignment.value.Meets (.fromArguments Stock.engine.functions) := by
    have ofMax : ∀ plan, Stock.engine.functions.plan? "Max" 2 = some plan →
        plan.FromArguments 2 := fun plan found =>
      Function.builtins_fromArguments (by decide) found
    exact List.forall_mem_cons.mpr ⟨trivial,
      List.forall_mem_singleton.mpr ⟨ofMax, trivial, trivial, trivial⟩⟩
  have reached : Stock.start.store.Reached Stock.engine := ⟨none, .start⟩
  have silent : ∀ reference ∈ operations.mentions, Stock.start.Silent reference.id :=
    fun _ _ => ⟨rfl, rfl⟩
  have hookless : Stock.engine.Hookless order.id := by
    have known : Stock.engine.registry.record? order.id = some order := rfl
    exact .inr fun record found => Option.some.inj (known.symm.trans found) ▸ rfl
  have indifferent : Stock.engine.Indifferent dozen.id := by
    have known : Stock.engine.registry.record? dozen.id = some dozen := rfl
    exact indifferent_of_constant known rfl rfl rfl
  rcases accepted with ⟨next, accepted⟩
  rcases process_refines_operations registered functions accepted ordinary native Stock.start with
    ⟨process, later, parsed, refines⟩
  rcases refines 0 true Stock.start Stock.start rfl reached
      fun reference member => ⟨silent reference member, silent reference member⟩ with
    ⟨leftAfter, rightAfter, executes, runs, alike, answered⟩
  exact ⟨registered, functions, ⟨next, accepted⟩, ordinary, native, process, later, parsed, reached,
    silent, leftAfter, rightAfter, executes, runs, hookless, indifferent, alike order.id hookless 0,
    answered rfl rfl dozen.id indifferent 1⟩

/-- What a name reads as after the assignments of a text and after a run of its process,
both from one state. -/
def readings (engine : Engine σ) (text : String) (id : Identifier) (world : World σ) :
    Option (Binary64 × Binary64) :=
  match engine.parseOperations text world, engine.parseProcess text world with
  | some (.ok operations, _), some (.ok process, _) => do
      let (_, left) ← (engine.respond 3).execute engine operations world
      let (_, right) ← (engine.respond 3).runProcess engine process false world
      let (leftValue, _) ← engine.respond 3 (.read id) left
      let (rightValue, _) ← engine.respond 3 (.read id) right
      pure (leftValue, rightValue)
  | _, _ => none

end Engine

/-! ### Zeros with a sign -/

namespace Signed

def x : NameRecord Nat := { id := ⟨0x1000001, Nat.one_ne_zero⟩, name := "x" }

def y : NameRecord Nat := { id := ⟨0x2000001, Nat.one_ne_zero⟩, name := "y" }

/-- A name that keeps every value from -0 up. -/
def low : NameRecord Nat :=
  { id := ⟨0x3000001, Nat.one_ne_zero⟩, name := "low", bounds := { least := -0 } }

/-- A value of 1 with the sign of `x`. -/
def signHook : GetHook Nat := fun _ =>
  .evaluate (.call "Copysign" [.constant 1, .name ⟨x.id, "x"⟩]) fun value => .finish (.ok value)

def sign : NameRecord Nat :=
  { id := ⟨0x4000001, Nat.one_ne_zero⟩, name := "sign", getHook := some signHook }

/-- An engine that knows these names. -/
def engine : Engine Nat where
  registry := .ofRequests [
    .addName "stat" "x" 0 .temporary {},
    .addName "score" "y" 0 .temporary {},
    .addName "limit" "low" 0 .temporary low.bounds,
    .addName "mark" "sign" 0 .temporary {},
    .hookName "sign" (.get signHook)]
  functions := Function.builtins
  settings := {}

def start : World Nat := engine.start 0 ⟨fun _ => 0, 0⟩

/-- A listener at the engine sets `y` to 1 when `x` is written. -/
def listened : World Nat :=
  { start with bus := (Bus.add {} x.id fun _ => .write y.id .set 1 fun _ => .done).2 }

end Signed

open Signed in
/-- A get hook tells a zero that was written from the zero of the other sign that was
there before, and so does a bound that is a negative zero. A listener at the engine
hears of a write that changes nothing only when there is one. -/
theorem ProcessRule.process_differs :
    Signed.engine.registry.Reachable ∧ Signed.start.store.Reached Signed.engine ∧
    x.Ordinary ∧ y.Ordinary ∧ Signed.engine.registry.record? x.id = some x ∧
    Signed.engine.registry.record? y.id = some y ∧ (∀ id, Signed.start.Silent id) ∧
    (∃ next, Signed.engine.parseOperations "x=-0" Signed.start =
      some (.ok ⟨⟨0⟩, [⟨⟨x.id, "x"⟩, .set, .constant (-0)⟩], ' '⟩, next)) ∧
    Signed.engine.readings "x=-0" sign.id Signed.start = some (-1, 1) ∧
    (∀ id, listened.store.bus.listeners id = []) ∧
    Signed.engine.readings "x+=0" y.id listened = some (1, 0) ∧
    (low.bounds.least == 0) = true ∧
    Signed.engine.readings "low=-1 y=2+Copysign(1,low)" y.id Signed.start = some (1, 3) ∧
    ¬Binary64.Alike (-1) 1 ∧ ¬Binary64.Alike 1 0 ∧ ¬Binary64.Alike 1 3 := by
  have ofX : x.Ordinary := ⟨rfl, by decide, .inr (by decide), rfl, rfl⟩
  have ofY : y.Ordinary := ⟨rfl, by decide, .inr (by decide), rfl, rfl⟩
  exact ⟨Registry.reachable_ofRequests _, ⟨none, .start⟩, ofX, ofY, rfl, rfl,
    fun _ => ⟨rfl, rfl⟩, ⟨_, rfl⟩, by decide +kernel, fun _ => rfl, by decide +kernel,
    by decide, by decide +kernel, by decide +kernel, by decide +kernel, by decide +kernel⟩

end NumericRules
