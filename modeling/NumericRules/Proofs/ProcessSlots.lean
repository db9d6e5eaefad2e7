import NumericRules.Engine
import NumericRules.Proofs.RegistryHistory

/-! # The slots of a process

The names of a process are bound to slots of its own. No two slots have one
name, so none of them stand for one registered name, and the first slot, which
receives the result, stands for none.
-/

namespace NumericRules

/-! ## First occurrences -/

/-- One turn of the search for first occurrences. -/
def addOccurrence [BEq α] (found : List α) (item : α) : List α :=
  if found.contains item then found else found ++ [item]

theorem nodup_foldl_addOccurrence [BEq α] [LawfulBEq α] (items : List α) {found : List α}
    (nodup : found.Nodup) : (items.foldl addOccurrence found).Nodup := by
  induction items generalizing found with
  | nil => exact nodup
  | cons item rest induction =>
      apply induction
      unfold addOccurrence
      split
      · exact nodup
      · rename_i absent
        exact List.concat_eq_append ▸ nodup.concat (by simpa using absent)

theorem nodup_firstOccurrences [BEq α] [LawfulBEq α] (items : List α) :
    (firstOccurrences items).Nodup :=
  nodup_foldl_addOccurrence items List.nodup_nil

theorem mem_foldl_addOccurrence [BEq α] [LawfulBEq α] {items found : List α} {item : α} :
    item ∈ items.foldl addOccurrence found ↔ item ∈ found ∨ item ∈ items := by
  induction items generalizing found with
  | nil => simp
  | cons head rest induction =>
      rw [List.foldl_cons, induction, List.mem_cons]
      unfold addOccurrence
      split
      · rename_i present
        have known : head ∈ found := by simpa using present
        constructor
        · exact fun member => member.imp_right .inr
        · rintro (member | rfl | member)
          · exact .inl member
          · exact .inl known
          · exact .inr member
      · rw [List.mem_append, List.mem_singleton, or_assoc]

theorem mem_firstOccurrences [BEq α] [LawfulBEq α] {items : List α} {item : α} :
    item ∈ firstOccurrences items ↔ item ∈ items := by
  refine mem_foldl_addOccurrence.trans ?_
  rw [List.mem_nil_iff, false_or]

theorem head?_foldl_addOccurrence [BEq α] (items : List α) (head : α) (found : List α) :
    (items.foldl addOccurrence (head :: found)).head? = some head := by
  induction items generalizing found with
  | nil => rfl
  | cons item rest induction =>
      rw [List.foldl_cons]
      unfold addOccurrence
      split
      · exact induction found
      · exact induction (found ++ [item])

/-- The first item occurs first. -/
theorem head?_firstOccurrences [BEq α] (head : α) (items : List α) :
    (firstOccurrences (head :: items)).head? = some head :=
  head?_foldl_addOccurrence items head []

namespace ProcessRule

/-! ## Accepted processes -/

/-- A process whose names were bound with the identifiers of a registry. -/
def BoundTo (registry : Registry σ) (process : ProcessRule) : Prop :=
  ∃ id separator steps, process = ofSteps id separator registry.identifier? steps

theorem boundTo_of_parseProcess {engine : Engine σ} {text : String} {start next : World σ}
    {process : ProcessRule}
    (accepted : engine.parseProcess text start = some (.ok process, next)) :
    process.BoundTo engine.registry := by
  unfold Engine.parseProcess at accepted
  cases steps : engine.readSteps text with
  | error fault =>
      rw [steps] at accepted
      cases accepted
  | ok steps' =>
      rw [steps] at accepted
      cases accepted
      exact ⟨_, _, steps', rfl⟩

/-! ## Names and slots -/

theorem names_ofSteps (id : RuleId) (separator : Char)
    (identifier? : String → Option Identifier) (steps : List (Step String)) :
    (ofSteps id separator identifier? steps).slots.map (·.name) = slotNames steps := by
  rw [ofSteps, List.map_map]
  exact List.map_id _

/-- Whatever a step mentions has a slot. -/
theorem mem_slotNames_of_mention {steps : List (Step String)} {step : Step String}
    (inside : step ∈ steps) {name : String} (mentioned : name ∈ step.mentions) :
    name ∈ slotNames steps := by
  rw [slotNames, mem_firstOccurrences]
  exact List.mem_cons_of_mem resultName (List.mem_flatMap.mpr ⟨step, inside, mentioned⟩)

/-- The slot of a name has its name. -/
theorem getElem?_slotOf {names : List String} {name : String} (known : name ∈ names) :
    names[(slotOf names name).number - 1]? = some name :=
  List.getElem?_idxOf known

section Mentioned

variable {identifier? : String → Option Identifier} {names : List String}

/-- The slot of a registered name stands for it. -/
theorem getElem?_localSlot {reference : Reference} (named : reference.name ∈ names)
    (notResult : reference.name ≠ resultName)
    (resolved : identifier? reference.name = some reference.id) :
    (names.map (localSlot identifier?))[names.idxOf reference.name]? =
      some ⟨reference.name, some reference.id⟩ := by
  rw [List.getElem?_map, List.getElem?_idxOf named, Option.map_some, localSlot, resolved,
    if_neg (by simpa using notResult)]

/-- A slot that stands for a registered name stands for one that is mentioned, if the names
of slots are. -/
theorem mentioned_of_global {mentioned : List Reference}
    (others : ∀ name ∈ names, name = resultName ∨
      ∃ reference ∈ mentioned, reference.name = name)
    (resolved : ∀ reference ∈ mentioned, identifier? reference.name = some reference.id)
    {slot : LocalSlot} {id : Identifier} (inside : slot ∈ names.map (localSlot identifier?))
    (global : slot.global? = some id) : ∃ reference ∈ mentioned, reference.id = id := by
  rcases List.mem_map.mp inside with ⟨name, named, rfl⟩
  simp only [localSlot, Option.ite_none_left_eq_some, beq_iff_eq] at global
  rcases others name named with isResult | ⟨reference, member, rfl⟩
  · exact absurd isResult global.1
  · exact ⟨reference, member,
      Option.some.inj ((resolved reference member).symm.trans global.2)⟩

end Mentioned

/-- A slot that stands for a registered name is not the first one. -/
theorem BoundTo.pos_of_global {registry : Registry σ} {process : ProcessRule}
    (bound : process.BoundTo registry) {place : Nat} {slot : LocalSlot} {id : Identifier}
    (found : process.slots[place]? = some slot) (global : slot.global? = some id) : 0 < place := by
  rcases bound with ⟨_, _, steps, rfl⟩
  cases place with
  | succ place => exact Nat.succ_pos place
  | zero =>
      have first : (slotNames steps)[0]? = some resultName := by
        rw [← List.head?_eq_getElem?]
        exact head?_firstOccurrences resultName _
      simp only [ofSteps, List.getElem?_map, first, Option.map_some] at found
      cases found
      simp [localSlot] at global

/-- No two slots stand for one registered name. -/
theorem BoundTo.nodup_globals {registry : Registry σ} {process : ProcessRule}
    (bound : process.BoundTo registry) (reachable : registry.Reachable) :
    (process.slots.filterMap (·.global?)).Nodup := by
  rcases bound with ⟨_, _, steps, rfl⟩
  simp only [ofSteps, List.filterMap_map]
  apply (nodup_firstOccurrences _).filterMap
  intro left right id ofLeft ofRight
  simp only [Function.comp, localSlot, Option.mem_def, Option.ite_none_left_eq_some]
    at ofLeft ofRight
  exact reachable.name_eq ofLeft.2 ofRight.2

/-- The place of the slot that stands for a registered name. -/
theorem BoundTo.place_eq {registry : Registry σ} {process : ProcessRule}
    (bound : process.BoundTo registry) (reachable : registry.Reachable)
    {leftPlace rightPlace : Nat} {left right : LocalSlot} {id : Identifier}
    (ofLeft : process.slots[leftPlace]? = some left) (leftGlobal : left.global? = some id)
    (ofRight : process.slots[rightPlace]? = some right) (rightGlobal : right.global? = some id) :
    leftPlace = rightPlace := by
  rcases bound with ⟨_, _, steps, rfl⟩
  simp only [ofSteps, List.getElem?_map, Option.map_eq_some_iff] at ofLeft ofRight
  rcases ofLeft with ⟨leftName, atLeft, rfl⟩
  rcases ofRight with ⟨rightName, atRight, rfl⟩
  simp only [localSlot, Option.ite_none_left_eq_some] at leftGlobal rightGlobal
  have sameName := reachable.name_eq leftGlobal.2 rightGlobal.2
  have inRange := (List.getElem?_eq_some_iff.mp atLeft).1
  exact (List.getElem?_inj inRange (nodup_firstOccurrences _)).mp
    (atLeft.trans (sameName ▸ atRight.symm))

/-- The target of an assignment is one of the slots, which are counted from 1. -/
theorem BoundTo.pos_of_assigned {registry : Registry σ} {process : ProcessRule}
    (bound : process.BoundTo registry) {assignment : Assignment Slot}
    (step : .assign assignment ∈ process.steps) : 0 < assignment.target.number := by
  rcases bound with ⟨_, _, steps, rfl⟩
  rcases List.mem_map.mp step with ⟨original, _, mapped⟩
  cases original with
  | assign original =>
      cases mapped
      exact Nat.succ_pos _
  | «return» condition value => cases mapped

end ProcessRule

end NumericRules
