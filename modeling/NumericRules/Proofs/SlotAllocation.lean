import NumericRules.Proofs.Grammar.ResolvedReading
import NumericRules.Proofs.Identifiers
import NumericRules.Proofs.ProcessSlots
import NumericRules.Proofs.RegistryInvariant

/-! # Slots that are allocated while reading

A process that is read resolves its names in a registry of its own. A name that is new there
is registered with the next ordered number and gets the next slot, so the registry and the
slots stay in step: the slot of a number has the name that is registered with it. Binding the
names once the steps are read gives the same slots.
-/

namespace NumericRules

open ProcessRule (resultName slotNames slotOf localSlot)

theorem length_le_foldl_addOccurrence [BEq α] (items found : List α) :
    found.length ≤ (items.foldl addOccurrence found).length := by
  induction items generalizing found with
  | nil => exact Nat.le_refl _
  | cons item rest induction =>
      refine Nat.le_trans ?_ (induction _)
      unfold addOccurrence
      split
      · exact Nat.le_refl _
      · rw [List.length_append]
        exact Nat.le_add_right _ _

/-- The names of a process while it is read: a registry of its own, and the slots that were
given out. -/
structure LocalNames (σ : Type) where
  locals : Registry σ
  slots : List LocalSlot

namespace LocalNames

/-- The result has the first slot before anything is read. -/
def start : LocalNames σ where
  locals := ((Registry.registerOrdered resultName 1).run {}).2
  slots := [⟨resultName, none⟩]

/-- The identifier of a name, which is registered with the next number if it is new. Its slot
remembers what it is called by in the global registry. -/
def resolve (global : Registry σ) (name : String) (names : LocalNames σ) :
    Option (Identifier × LocalNames σ) :=
  match names.locals.identifier? name with
  | some id => some (id, names)
  | none =>
      match (Registry.registerOrdered name 0).run names.locals with
      | (.ok id, locals) => some (id, ⟨locals, names.slots ++ [⟨name, global.identifier? name⟩]⟩)
      | (.error _, _) => none

end LocalNames

/-- The identifier is an ordered one, and the slot with its number has the name. -/
def Reference.HasSlot (slots : List LocalSlot) (reference : Reference) : Prop :=
  reference.id.isOrdered = true ∧ 1 ≤ reference.id.raw ∧ reference.id.raw ≤ slots.length ∧
    (slots[reference.id.raw - 1]?).map (·.name) = some reference.name

theorem Reference.HasSlot.mono {slots more : List LocalSlot} {reference : Reference}
    (hasSlot : reference.HasSlot slots) (grows : slots <+: more) : reference.HasSlot more := by
  rcases grows with ⟨rest, rfl⟩
  rcases hasSlot with ⟨ordered, pos, le, named⟩
  refine ⟨ordered, pos, ?_, ?_⟩
  · rw [List.length_append]
    omega
  · rw [List.getElem?_append_left (by omega)]
    exact named

/-- The slots that have been given out, and the registry of their names. -/
structure LocalNames.InStep (global : Registry σ) (names : LocalNames σ) : Prop where
  result : names.slots.head? = some ⟨resultName, none⟩
  distinct : (names.slots.map (·.name)).Nodup
  global : ∀ place slot, 0 < place → names.slots[place]? = some slot →
    slot.global? = global.identifier? slot.name
  limited : names.slots.length ≤ maxRaw
  counted : names.locals.orderedCount = names.slots.length
  recorded : names.locals.records.map (fun record => (record.name, some record.id)) =
    names.slots.mapIdx fun place slot => (slot.name, Identifier.ordered? (place + 1))

namespace LocalNames

variable {global : Registry σ} {names after : LocalNames σ}

/-! ## The first slot -/

theorem start_inStep (global : Registry σ) : InStep global (start : LocalNames σ) where
  result := rfl
  distinct := List.nodup_singleton _
  global place slot positive found := by
    cases place with
    | zero => exact absurd positive (Nat.lt_irrefl 0)
    | succ place => cases found
  limited := Nat.one_le_of_lt (by decide : 1 < maxRaw)
  counted := rfl
  recorded := rfl

/-! ## What is known -/

theorem InStep.names_records (inStep : names.InStep global) :
    names.locals.records.map (·.name) = names.slots.map (·.name) := by
  have same := congrArg (List.map Prod.fst) inStep.recorded
  rw [List.map_map] at same
  refine same.trans (List.ext_getElem? fun place => ?_)
  simp [Function.comp_def]

/-- Every record is that of a slot, and has its number. -/
theorem InStep.hasSlot_of_mem (inStep : names.InStep global) {record : NameRecord σ}
    (known : record ∈ names.locals.records) :
    Reference.HasSlot names.slots ⟨record.id, record.name⟩ := by
  have listed := List.mem_map_of_mem (f := fun record => (record.name, some record.id)) known
  rw [inStep.recorded] at listed
  rcases List.mem_mapIdx.mp listed with ⟨place, inRange, same⟩
  rcases Prod.mk.inj same with ⟨sameName, packed⟩
  rcases Identifier.ordered?_eq_some packed with ⟨tag, raw⟩
  refine ⟨Identifier.isOrdered_iff.mpr tag, ?_, ?_, ?_⟩
  · change 1 ≤ record.id.raw
    omega
  · change record.id.raw ≤ _
    omega
  · change (names.slots[record.id.raw - 1]?).map (·.name) = some record.name
    rw [raw, Nat.add_sub_cancel, List.getElem?_eq_getElem inRange, Option.map_some, sameName]

theorem InStep.identifier?_isSome (inStep : names.InStep global) (name : String) :
    (names.locals.identifier? name).isSome = true ↔ name ∈ names.slots.map (·.name) := by
  rw [← inStep.names_records]
  simp [Registry.identifier?, Registry.recordNamed?]

/-- The number behind all that were given out is free. -/
theorem InStep.free (inStep : names.InStep global) {id : Identifier}
    (packed : Identifier.ordered? (names.slots.length + 1) = some id) :
    names.locals.record? id = none := by
  cases found : names.locals.record? id with
  | none => rfl
  | some record =>
      rcases Registry.record?_eq_some found with ⟨known, rfl⟩
      have inRange := (inStep.hasSlot_of_mem known).2.2.1
      have raw := (Identifier.ordered?_eq_some packed).2
      change record.id.raw ≤ _ at inRange
      omega

/-! ## One name more -/

/-- A new name gets the next number and the next slot. -/
theorem InStep.append (inStep : names.InStep global) {name : String} {id : Identifier}
    (unused : name ∉ names.slots.map (·.name))
    (packed : Identifier.ordered? (names.slots.length + 1) = some id) :
    InStep global
      ⟨{ names.locals with
          orderedCount := max names.locals.orderedCount (names.slots.length + 1)
          records := names.locals.records ++ [({ id, name } : NameRecord σ)] },
        names.slots ++ [⟨name, global.identifier? name⟩]⟩ where
  result := by
    rw [List.head?_append, inStep.result]
    rfl
  distinct := by
    rw [List.map_append]
    exact List.concat_eq_append ▸ inStep.distinct.concat unused
  global place slot positive found := by
    rcases Nat.lt_or_ge place names.slots.length with before | behind
    · rw [List.getElem?_append_left before] at found
      exact inStep.global place slot positive found
    · rw [List.getElem?_append_right behind, List.getElem?_singleton,
        Option.ite_none_right_eq_some] at found
      cases found.2
      rfl
  limited := by
    have raw := (Identifier.ordered?_eq_some packed).2
    rw [List.length_append, List.length_singleton, ← raw]
    exact id.raw_le
  counted := by
    change max names.locals.orderedCount _ = _
    rw [inStep.counted, List.length_append, List.length_singleton]
    omega
  recorded := by
    change (names.locals.records ++ [_]).map _ = (names.slots ++ [_]).mapIdx _
    rw [List.map_append, List.mapIdx_concat, packed, inStep.recorded]
    rfl

/-- What resolving one name does: it has its slot, and the others keep theirs. -/
theorem InStep.resolve (inStep : names.InStep global) {name : String} {id : Identifier}
    (resolved : resolve global name names = some (id, after)) :
    after.InStep global ∧ Reference.HasSlot after.slots ⟨id, name⟩ ∧
      names.slots <+: after.slots ∧
      after.slots.map (·.name) = addOccurrence (names.slots.map (·.name)) name := by
  have known := inStep.identifier?_isSome name
  unfold LocalNames.resolve at resolved
  split at resolved
  · rename_i found
    cases resolved
    rcases Registry.identifier?_eq_some found with ⟨record, recorded, rfl, rfl⟩
    refine ⟨inStep, inStep.hasSlot_of_mem recorded, List.prefix_rfl, ?_⟩
    rw [found] at known
    rw [addOccurrence, if_pos (by simpa using known.mp rfl)]
  · rename_i unknown
    rw [unknown] at known
    have unused : name ∉ names.slots.map (·.name) := fun inside => by cases known.mpr inside
    split at resolved
    · rename_i locals registered
      cases resolved
      rcases Registry.registerOrdered_fresh registered with ⟨_, rfl, _, packed, _, rfl⟩
      rw [if_pos rfl, inStep.counted] at packed
      have next := inStep.append unused packed
      rw [if_pos rfl, inStep.counted]
      rw [inStep.counted] at next
      refine ⟨next, ?_, List.prefix_append _ _, ?_⟩
      · have last : ({ id, name } : NameRecord σ) ∈
            names.locals.records ++ [({ id, name } : NameRecord σ)] := by simp
        exact next.hasSlot_of_mem last
      · rw [addOccurrence, if_neg (by simpa using unused), List.map_append]
        rfl
    · cases resolved

end LocalNames

/-- A name that is new and not empty is registered with the next ordered number, if there is
one. -/
theorem Registry.registerOrdered_next {registry : Registry σ} {name : String} {id : Identifier}
    (room : registry.orderedCount < maxRaw) (filled : name ≠ "")
    (unused : registry.recordNamed? name = none)
    (packed : Identifier.ordered? (registry.orderedCount + 1) = some id)
    (free : registry.record? id = none) :
    ((registerOrdered name 0).run registry).1 = .ok id := by
  have new : (requireNew name).run registry = (.ok (), registry) := by
    simp [requireNew, Registration.run_bind, filled, unused]
  simp only [registerOrdered, Registration.run_bind, Registration.run_get, true_and, if_true,
    if_neg (Nat.not_le_of_lt room), new, packed, free, Option.isSome_none, Bool.false_eq_true,
    if_false]
  rfl

namespace LocalNames

variable {global : Registry σ} {names after : LocalNames σ}

/-- A name cannot be resolved only if it is empty or all numbers are given out. -/
theorem InStep.resolve_isSome (inStep : names.InStep global) {name : String} (filled : name ≠ "")
    (room : name ∈ names.slots.map (·.name) ∨ names.slots.length < maxRaw) :
    (LocalNames.resolve global name names).isSome = true := by
  have known := inStep.identifier?_isSome name
  unfold LocalNames.resolve
  cases found : names.locals.identifier? name with
  | some id => rfl
  | none =>
      rw [found] at known
      have unused : name ∉ names.slots.map (·.name) := fun inside => by cases known.mpr inside
      have less := room.resolve_left unused
      rcases Identifier.exists_pack? (by decide : 0 < 256) (Nat.le_add_left 1 names.slots.length)
        less with ⟨id, packed, _⟩
      have room : names.locals.orderedCount < maxRaw := by rwa [inStep.counted]
      have registered := Registry.registerOrdered_next room filled
        (Option.map_eq_none_iff.mp found) (by rwa [inStep.counted]) (inStep.free packed)
      dsimp only
      split
      · rfl
      · rename_i failed
        rw [failed] at registered
        cases registered

/-! ## All names of a text -/

section Resolves

open Grammar

variable {lexicon : Lexicon (LocalNames σ)} (resolving : lexicon.resolve = LocalNames.resolve global)

include resolving

/-- Resolving names one after another keeps the registry and the slots in step. Every name
that was resolved has its slot. -/
theorem InStep.resolves (inStep : names.InStep global) {references : List Reference}
    (resolves : lexicon.Resolves names references after) :
    after.InStep global ∧ (∀ reference ∈ references, reference.HasSlot after.slots) ∧
      names.slots <+: after.slots ∧
      after.slots.map (·.name) =
        (references.map (·.name)).foldl addOccurrence (names.slots.map (·.name)) := by
  induction resolves with
  | nil state => exact ⟨inStep, by simp, List.prefix_rfl, rfl⟩
  | cons resolved _ induction =>
      rw [resolving] at resolved
      rcases inStep.resolve resolved with ⟨next, hasSlot, grows, named⟩
      rcases induction next with ⟨last, hasSlots, growsOn, namedAll⟩
      refine ⟨last, ?_, grows.trans growsOn, ?_⟩
      · exact List.forall_mem_cons.mpr ⟨hasSlot.mono growsOn, hasSlots⟩
      · rw [namedAll, named]
        rfl

/-- Names can be resolved as long as there are numbers for the new ones. -/
theorem InStep.canResolve (inStep : names.InStep global) {wanted : List String}
    (filled : ∀ name ∈ wanted, name ≠ "")
    (room : (wanted.foldl addOccurrence (names.slots.map (·.name))).length ≤ maxRaw) :
    lexicon.CanResolve names wanted := by
  induction wanted generalizing names with
  | nil => exact ⟨[], names, .nil names, rfl⟩
  | cons name wanted induction =>
      rcases List.forall_mem_cons.mp filled with ⟨filledFirst, filledRest⟩
      rw [List.foldl_cons] at room
      have grows := length_le_foldl_addOccurrence wanted
        (addOccurrence (names.slots.map (·.name)) name)
      have space : name ∈ names.slots.map (·.name) ∨ names.slots.length < maxRaw := by
        by_cases inside : name ∈ names.slots.map (·.name)
        · exact .inl inside
        · rw [addOccurrence, if_neg (by simpa using inside), List.length_append, List.length_map,
            List.length_singleton] at grows
          rw [addOccurrence, if_neg (by simpa using inside)] at room
          exact .inr (Nat.lt_of_succ_le (grows.trans room))
      rcases Option.isSome_iff_exists.mp (inStep.resolve_isSome filledFirst space) with
        ⟨⟨id, next⟩, resolved⟩
      rcases inStep.resolve resolved with ⟨nextInStep, _, _, named⟩
      rw [← named] at room
      rcases induction nextInStep filledRest room with ⟨references, after, resolves, rfl⟩
      exact ⟨⟨id, name⟩ :: references, after, .cons (by rw [resolving, resolved]) resolves, rfl⟩

end Resolves

/-! ## Slots that are bound once the steps are read -/

/-- Only the first slot is that of the result. -/
theorem InStep.name_ne_result (inStep : names.InStep global) {place : Nat} {slot : LocalSlot}
    (positive : 0 < place) (found : names.slots[place]? = some slot) : slot.name ≠ resultName := by
  intro isResult
  have first : (names.slots.map (·.name))[0]? = some resultName := by
    rw [List.getElem?_map, ← List.head?_eq_getElem?, inStep.result]
    rfl
  have here : (names.slots.map (·.name))[place]? = some resultName := by
    rw [List.getElem?_map, found, ← isResult]
    rfl
  have inRange := (List.getElem?_eq_some_iff.mp first).1
  have same := (List.getElem?_inj inRange inStep.distinct).mp (first.trans here.symm)
  exact absurd same (Nat.ne_of_lt positive)

/-- The slots are those of their names. -/
theorem InStep.slots_eq (inStep : names.InStep global) :
    names.slots = (names.slots.map (·.name)).map (localSlot global.identifier?) := by
  refine List.ext_getElem? fun place => ?_
  cases found : names.slots[place]? with
  | none => simp [found]
  | some slot =>
      have same : slot = localSlot global.identifier? slot.name := by
        rcases Nat.eq_zero_or_pos place with rfl | positive
        · have first := inStep.result
          rw [List.head?_eq_getElem?, found] at first
          cases first
          rfl
        · have notResult := inStep.name_ne_result positive found
          rw [localSlot, if_neg (by simpa using notResult),
            ← inStep.global place slot positive found]
      simp [found, ← same]

end LocalNames

/-- The slot with the number of the identifier. -/
def Reference.slot (reference : Reference) : Slot := ⟨reference.id.raw, reference.name⟩

/-- A name that has a slot is looked up at its place among names that differ. -/
theorem Reference.HasSlot.slotOf_eq {slots : List LocalSlot} {reference : Reference}
    (hasSlot : reference.HasSlot slots) (distinct : (slots.map (·.name)).Nodup) :
    slotOf (slots.map (·.name)) reference.name = reference.slot := by
  rcases hasSlot with ⟨_, pos, le, named⟩
  rw [← List.getElem?_map] at named
  rcases List.getElem?_eq_some_iff.mp named with ⟨inRange, isName⟩
  have place := distinct.idxOf_getElem (reference.id.raw - 1) inRange
  rw [isName] at place
  rw [slotOf, place, Nat.sub_add_cancel pos]
  rfl

/-- The names of the slots are those that were mentioned, behind that of the result. -/
theorem slotNames_map (steps : List (Step Reference)) :
    slotNames (steps.map (Step.map Reference.name)) =
      ((steps.flatMap Step.mentions).map (·.name)).foldl addOccurrence [resultName] := by
  have mentioned : (steps.map (Step.map Reference.name)).flatMap Step.mentions =
      (steps.flatMap Step.mentions).map (·.name) := by
    simp only [List.flatMap_map, Step.mentions_map, List.map_flatMap]
  rw [slotNames, mentioned]
  rfl

/-- Names that were resolved while the steps were read are bound as they are afterwards. -/
theorem LocalNames.ofSteps_eq {global : Registry σ} {names : LocalNames σ}
    {lexicon : Grammar.Lexicon (LocalNames σ)}
    (resolving : lexicon.resolve = LocalNames.resolve global) {steps : List (Step Reference)}
    (resolves : lexicon.Resolves start (steps.flatMap Step.mentions) names) (id : RuleId)
    (separator : Char) :
    ProcessRule.ofSteps id separator global.identifier? (steps.map (Step.map Reference.name)) =
      ⟨id, steps.map (Step.map Reference.slot), names.slots, separator⟩ := by
  rcases (start_inStep global).resolves resolving resolves with ⟨inStep, hasSlots, _, named⟩
  have sameNames : slotNames (steps.map (Step.map Reference.name)) = names.slots.map (·.name) :=
    (slotNames_map steps).trans named.symm
  have sameSteps : (steps.map (Step.map Reference.name)).map
      (Step.map (slotOf (names.slots.map (·.name)))) = steps.map (Step.map Reference.slot) := by
    rw [List.map_map]
    refine List.map_congr_left fun step inside => ?_
    rw [Function.comp_apply, Step.map_map]
    refine step.map_congr fun reference mentioned => ?_
    exact (hasSlots reference (List.mem_flatMap.mpr ⟨step, inside, mentioned⟩)).slotOf_eq
      inStep.distinct
  rw [ProcessRule.ofSteps, sameNames, sameSteps, ← inStep.slots_eq]

end NumericRules
