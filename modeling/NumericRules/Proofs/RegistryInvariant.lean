import NumericRules.Proofs.RegistryHistory

/-! # What every registry keeps

Names are found by their identifiers and identifiers by their names. The types
repeat what the records say: their members are the names under their tag, and
the raw numbers they count as claimed are those of their members. A number that
the registry chooses itself lies above all that were in use, and an answer that
it has once given it gives ever after.
-/

namespace NumericRules

@[simp] theorem NameRecord.attach_id (record : NameRecord σ) (hook : Hook σ) :
    (record.attach hook).id = record.id := by
  cases hook <;> rfl

@[simp] theorem NameRecord.attach_name (record : NameRecord σ) (hook : Hook σ) :
    (record.attach hook).name = record.name := by
  cases hook <;> rfl

@[simp] theorem NameRecord.attach_cycle (record : NameRecord σ) (hook : Hook σ) :
    (record.attach hook).cycle = record.cycle := by
  cases hook <;> rfl

@[simp] theorem NameRecord.attach_bounds (record : NameRecord σ) (hook : Hook σ) :
    (record.attach hook).bounds = record.bounds := by
  cases hook <;> rfl

@[simp] theorem TypeRecord.attach_tag (type : TypeRecord σ) (hook : Hook σ) :
    (type.attach hook).tag = type.tag := by
  cases hook <;> rfl

@[simp] theorem TypeRecord.attach_label (type : TypeRecord σ) (hook : Hook σ) :
    (type.attach hook).label = type.label := by
  cases hook <;> rfl

@[simp] theorem TypeRecord.attach_members (type : TypeRecord σ) (hook : Hook σ) :
    (type.attach hook).members = type.members := by
  cases hook <;> rfl

@[simp] theorem TypeRecord.attach_claimed (type : TypeRecord σ) (hook : Hook σ) :
    (type.attach hook).claimed = type.claimed := by
  cases hook <;> rfl

namespace Registry

/-! ## The types and the counter agree with the records -/

/-- Names and labels are not repeated, and what the types and the counter of
ordered names hold can be computed from the records. -/
structure Tallied (registry : Registry σ) : Prop where
  names : (registry.records.map (·.name)).Nodup
  labels : (registry.types.map (·.label)).Nodup
  numbers : registry.types.map (·.tag.number) = List.range' 1 registry.types.length
  members : ∀ type ∈ registry.types,
    type.members = registry.ids.filter (·.tag = type.tag.number)
  claimed : ∀ type ∈ registry.types, type.claimed = (type.members.map (·.raw)).reverse
  orderedCount : registry.orderedCount =
    ((registry.ids.filter (·.isOrdered)).map (·.raw)).foldl max 0

theorem Tallied.empty : Tallied ({} : Registry σ) := by
  constructor <;> simp [ids]

theorem Tallied.newType {registry : Registry σ} (tallied : Tallied registry)
    (numbered : Numbered registry) {tag : TypeTag} {label : String}
    (next : tag.number = registry.types.length + 1)
    (unused : registry.typeLabelled? label = none) :
    Tallied { registry with types := registry.types ++ [{ tag, label }] } where
  names := tallied.names
  labels := by
    rw [List.map_append]
    refine List.concat_eq_append ▸ tallied.labels.concat ?_
    simpa [typeLabelled?] using unused
  numbers := by
    simp [tallied.numbers, List.range'_concat, next, Nat.add_comm]
  members type known := by
    rcases List.mem_append.mp known with old | new
    · exact tallied.members type old
    · -- No name can have the tag yet.
      rw [List.mem_singleton.mp new]
      refine (List.filter_eq_nil_iff.mpr fun id member => ?_).symm
      have bound := numbered.tagsInUse id member
      simp only [next, decide_eq_true_eq]
      omega
  claimed type known := by
    rcases List.mem_append.mp known with old | new
    · exact tallied.claimed type old
    · rw [List.mem_singleton.mp new]
      rfl
  orderedCount := tallied.orderedCount

/-- A change of a type is not seen in a field that it keeps. -/
theorem map_updateType (registry : Registry σ) (tag : TypeTag)
    (change : TypeRecord σ → TypeRecord σ) (field : TypeRecord σ → α)
    (kept : ∀ type, field (change type) = field type) :
    (registry.updateType tag change).types.map field = registry.types.map field := by
  simp only [updateType, List.map_map]
  refine List.map_congr_left fun type _ => ?_
  simp only [Function.comp]
  split
  · exact kept type
  · rfl

theorem names_append {registry : Registry σ} {record : NameRecord σ}
    (names : (registry.records.map (·.name)).Nodup)
    (unused : registry.recordNamed? record.name = none) :
    ((registry.records ++ [record]).map (·.name)).Nodup := by
  rw [List.map_append]
  refine List.concat_eq_append ▸ names.concat ?_
  simpa [recordNamed?] using unused

theorem Tallied.newName {registry : Registry σ} (tallied : Tallied registry)
    {type : TypeRecord σ} {record : NameRecord σ} {raw : Nat}
    (unused : registry.recordNamed? record.name = none)
    (packed : Identifier.typed? type.tag raw = some record.id) :
    Tallied
      { registry.updateType type.tag (·.claim raw record.id) with
        records := registry.records ++ [record] } := by
  rcases Identifier.typed?_eq_some packed with ⟨tag, rawEq⟩
  constructor
  · exact names_append tallied.names unused
  · change ((registry.updateType type.tag (·.claim raw record.id)).types.map (·.label)).Nodup
    rw [map_updateType registry type.tag (·.claim raw record.id) (·.label) fun _ => rfl]
    exact tallied.labels
  · rw [length_updateType]
    exact (map_updateType registry type.tag (·.claim raw record.id) (·.tag.number)
      fun _ => rfl).trans tallied.numbers
  · intro changed known
    rw [ids_append]
    rcases mem_updateType known with ⟨other, old, ⟨same, rfl⟩ | ⟨different, rfl⟩⟩
    · simp [TypeRecord.claim, tallied.members other old, same, tag]
    · have elsewhere : type.tag.number ≠ changed.tag.number :=
        fun equal => different (TypeTag.eq_of_number equal.symm)
      simp [tallied.members changed old, tag, elsewhere]
  · intro changed known
    rcases mem_updateType known with ⟨other, old, ⟨_, rfl⟩ | ⟨_, rfl⟩⟩
    · simp [TypeRecord.claim, tallied.claimed other old, rawEq]
    · exact tallied.claimed changed old
  · have typed : record.id.isOrdered = false := by
      simp [Identifier.isOrdered, tag, Nat.ne_of_gt type.tag.pos]
    rw [ids_append]
    simpa [typed] using! tallied.orderedCount

theorem Tallied.newOrdered {registry : Registry σ} (tallied : Tallied registry)
    {record : NameRecord σ} {raw : Nat} (unused : registry.recordNamed? record.name = none)
    (packed : Identifier.ordered? raw = some record.id) :
    Tallied
      { registry with
        orderedCount := max registry.orderedCount raw
        records := registry.records ++ [record] } := by
  rcases Identifier.ordered?_eq_some packed with ⟨tag, rawEq⟩
  constructor
  · exact names_append tallied.names unused
  · exact tallied.labels
  · exact tallied.numbers
  · intro type known
    rw [ids_append]
    simp [tallied.members type known, tag, Nat.ne_of_lt type.tag.pos]
  · exact tallied.claimed
  · rw [ids_append]
    simp [Identifier.isOrdered_iff.mpr tag, tallied.orderedCount, rawEq]

theorem Tallied.hookType {registry : Registry σ} (tallied : Tallied registry)
    (tag : TypeTag) (hook : Hook σ) : Tallied (registry.updateType tag (·.attach hook)) where
  names := tallied.names
  labels := by
    rw [map_updateType registry tag (·.attach hook) (·.label) fun type => type.attach_label hook]
    exact tallied.labels
  numbers := by
    rw [length_updateType, map_updateType registry tag (·.attach hook) (·.tag.number)
      fun type => congrArg TypeTag.number (type.attach_tag hook)]
    exact tallied.numbers
  members changed known := by
    rcases mem_updateType known with ⟨type, old, ⟨_, rfl⟩ | ⟨_, rfl⟩⟩
    · simpa using! tallied.members type old
    · exact tallied.members _ old
  claimed changed known := by
    rcases mem_updateType known with ⟨type, old, ⟨_, rfl⟩ | ⟨_, rfl⟩⟩
    · simpa using tallied.claimed type old
    · exact tallied.claimed _ old
  orderedCount := tallied.orderedCount

theorem Tallied.hookRecord {registry : Registry σ} (tallied : Tallied registry)
    (id : Identifier) (hook : Hook σ) :
    Tallied (registry.updateRecord id (·.attach hook)) := by
  have names : (registry.updateRecord id (·.attach hook)).records.map (·.name) =
      registry.records.map (·.name) := by
    simp only [updateRecord, List.map_map]
    refine List.map_congr_left fun record _ => ?_
    simp only [Function.comp]
    split <;> simp
  constructor
  · exact names ▸ tallied.names
  · exact tallied.labels
  · exact tallied.numbers
  · rw [ids_updateRecord]
    exact tallied.members
  · exact tallied.claimed
  · rw [ids_updateRecord]
    exact tallied.orderedCount

theorem Tallied.edit {before after : Registry σ} (tallied : Tallied before)
    (numbered : Numbered before) (edit : Edit before after) : Tallied after := by
  cases edit with
  | newType tag label next unused => exact tallied.newType numbered next unused
  | newName type record raw known unused packed free => exact tallied.newName unused packed
  | newOrdered record raw unused packed free => exact tallied.newOrdered unused packed
  | hookType tag hook => exact tallied.hookType tag hook
  | hookRecord id hook => exact tallied.hookRecord id hook

theorem Tallied.edits {before after : Registry σ} (tallied : Tallied before)
    (numbered : Numbered before) (edits : Relation.ReflTransGen Edit before after) :
    Tallied after := by
  induction edits with
  | refl => exact tallied
  | tail earlier edit induction => exact induction.edit (numbered.edits earlier) edit

theorem Reachable.tallied {registry : Registry σ} (reachable : Reachable registry) :
    Tallied registry := by
  induction reachable with
  | empty => exact .empty
  | @step registry request reachable tallied =>
      exact tallied.edits reachable.numbered (Registration.carryOut_edits request registry)

/-! ## Looking up -/

theorem Tallied.recordNamed?_eq {registry : Registry σ} (tallied : Tallied registry)
    {record : NameRecord σ} (known : record ∈ registry.records) :
    registry.recordNamed? record.name = some record := by
  cases found : registry.recordNamed? record.name with
  | none =>
      have unknown := List.find?_eq_none.mp found record known
      simp at unknown
  | some other =>
      have same : other.name = record.name := by simpa using List.find?_some found
      exact congrArg some
        (List.inj_on_of_nodup_map tallied.names (List.mem_of_find?_eq_some found) known same)

theorem record?_eq_some {registry : Registry σ} {id : Identifier} {record : NameRecord σ}
    (found : registry.record? id = some record) : record ∈ registry.records ∧ record.id = id :=
  ⟨List.mem_of_find?_eq_some found, by simpa using List.find?_some found⟩

/-- Names and identifiers are looked up in either direction. -/
theorem Tallied.identifier?_iff {registry : Registry σ} (tallied : Tallied registry)
    (numbered : Numbered registry) (name : String) (id : Identifier) :
    registry.identifier? name = some id ↔ registry.name? id = some name := by
  constructor
  · intro found
    rcases identifier?_eq_some found with ⟨record, known, rfl, rfl⟩
    exact congrArg (Option.map (·.name)) (numbered.record?_eq known)
  · intro found
    rcases Option.map_eq_some_iff.mp found with ⟨record, recorded, rfl⟩
    rcases record?_eq_some recorded with ⟨known, rfl⟩
    exact congrArg (Option.map (·.id)) (tallied.recordNamed?_eq known)

/-- Types are distinguished by their tags. -/
theorem Tallied.type_eq {registry : Registry σ} (tallied : Tallied registry)
    {left right : TypeRecord σ} (leftKnown : left ∈ registry.types)
    (rightKnown : right ∈ registry.types) (same : left.tag.number = right.tag.number) :
    left = right := by
  have distinct : (registry.types.map (·.tag.number)).Nodup := by
    rw [tallied.numbers]
    exact List.nodup_range'
  exact List.inj_on_of_nodup_map distinct leftKnown rightKnown same

theorem Tallied.type?_eq {registry : Registry σ} (tallied : Tallied registry)
    {type : TypeRecord σ} (known : type ∈ registry.types) :
    registry.type? type.tag = some type := by
  cases found : registry.type? type.tag with
  | none =>
      have unknown := List.find?_eq_none.mp found type known
      simp at unknown
  | some other =>
      have same : other.tag = type.tag := by simpa using List.find?_some found
      exact congrArg some (tallied.type_eq (List.mem_of_find?_eq_some found) known
        (congrArg TypeTag.number same))

/-- Every name that is not ordered is under a registered type. -/
theorem Tallied.type_of_id {registry : Registry σ} (tallied : Tallied registry)
    (numbered : Numbered registry) {id : Identifier} (used : id ∈ registry.ids)
    (typed : id.isOrdered = false) : ∃ type ∈ registry.types, id.tag = type.tag.number := by
  have pos : id.tag ≠ 0 := fun zero => by simp [Identifier.isOrdered, zero] at typed
  have bound := numbered.tagsInUse id used
  have counted : id.tag ∈ registry.types.map (·.tag.number) := by
    rw [tallied.numbers, List.mem_range'_1]
    omega
  rcases List.mem_map.mp counted with ⟨type, known, number⟩
  exact ⟨type, known, number.symm⟩

/-! ## Numbers that the registry chooses -/

theorem registerName_eq_ok {label name : String} {asked : Nat} {cycle : Cycle} {bounds : Bounds}
    {before after : Registry σ} {id : Identifier}
    (outcome : (registerName label name asked cycle bounds).run before = (.ok id, after)) :
    before.recordNamed? name = none ∧
      ∃ (type : TypeRecord σ) (typed : Registry σ) (raw : Nat),
        (registerType label).run before = (.ok type, typed) ∧
        chooseRaw type name asked = .ok raw ∧
        Identifier.typed? type.tag raw = some id ∧
        after =
          { typed.updateType type.tag (·.claim raw id) with
            records := typed.records ++
              [{ id, name, cycle, bounds, getHook := type.getHook, setHook := type.setHook }] } := by
  rcases Registration.run_bind_eq_ok outcome with ⟨_, checked, new, rest⟩
  rcases Registration.requireNew_unused new with ⟨rfl, unused⟩
  by_cases tooGreat : maxRaw < asked
  · simp only [if_pos tooGreat] at rest
    cases rest
  · simp only [if_neg tooGreat] at rest
    rcases Registration.run_bind_eq_ok rest with ⟨type, typed, registered, claiming⟩
    rcases Registration.claimName_run (Nat.le_of_not_lt tooGreat) type name cycle bounds typed with
      ⟨fault, _, run⟩ | ⟨raw, id, chosen, packed, run⟩
    · cases claiming.symm.trans run
    · cases claiming.symm.trans run
      exact ⟨unused, type, typed, raw, registered, chosen, packed, rfl⟩

/-- An ordered name stands at a place that was free. -/
theorem registerOrdered_fresh {name : String} {asked : Nat} {bounds : Bounds}
    {before after : Registry σ} {id : Identifier}
    (outcome : (registerOrdered name asked bounds).run before = (.ok id, after)) :
    ∃ place, place = (if asked = 0 then before.orderedCount + 1 else asked) ∧
      before.recordNamed? name = none ∧ Identifier.ordered? place = some id ∧
      before.record? id = none ∧
      after =
        { before with
          orderedCount := max before.orderedCount place
          records := before.records ++ [({ id, name, bounds } : NameRecord σ)] } := by
  simp only [registerOrdered, Registration.run_bind, Registration.run_get] at outcome
  by_cases full : asked = 0 ∧ maxRaw ≤ before.orderedCount
  · simp only [if_pos full] at outcome
    cases outcome
  · simp only [if_neg full] at outcome
    rcases Registration.run_bind_eq_ok outcome with ⟨_, checked, new, rest⟩
    rcases Registration.requireNew_unused new with ⟨rfl, unused⟩
    refine ⟨_, rfl, unused, ?_⟩
    generalize (if asked = 0 then checked.orderedCount + 1 else asked) = place at rest ⊢
    cases packed : Identifier.ordered? place with
    | none =>
        simp only [packed] at rest
        cases rest
    | some id =>
        simp only [packed] at rest
        by_cases taken : (checked.record? id).isSome
        · simp only [if_pos taken] at rest
          cases rest
        · simp only [if_neg taken] at rest
          cases rest
          exact ⟨rfl, by simpa using taken, rfl⟩

theorem registerOrdered_eq_ok {name : String} {asked : Nat} {bounds : Bounds}
    {before after : Registry σ} {id : Identifier}
    (outcome : (registerOrdered name asked bounds).run before = (.ok id, after)) :
    before.recordNamed? name = none ∧
      Identifier.ordered? (if asked = 0 then before.orderedCount + 1 else asked) = some id ∧
      after.records = before.records ++ [({ id, name, bounds } : NameRecord σ)] := by
  rcases registerOrdered_fresh outcome with ⟨_, rfl, unused, packed, _, rfl⟩
  exact ⟨unused, packed, rfl⟩

/-- A type is found under its label once it is registered. -/
theorem registerType_labelled {label : String} {before after : Registry σ} {type : TypeRecord σ}
    (outcome : (registerType label).run before = (.ok type, after)) :
    after.typeTag? (if label.isEmpty then defaultLabel else label) = some type.tag := by
  simp only [registerType, Registration.run_bind, Registration.run_get] at outcome
  generalize (if label.isEmpty then defaultLabel else label) = label at outcome ⊢
  cases known : before.typeLabelled? label with
  | some found =>
      simp only [known] at outcome
      cases outcome
      exact congrArg (Option.map (·.tag)) known
  | none =>
      simp only [known] at outcome
      by_cases room : before.types.length < maxTypes
      · simp only [dif_pos room] at outcome
        cases outcome
        simp only [typeLabelled?] at known
        simp [typeTag?, typeLabelled?, known]
      · simp only [dif_neg room] at outcome
        cases outcome

/-- A name is found under its identifier once it is registered. -/
theorem identifier?_append {before after : Registry σ} (record : NameRecord σ)
    (unused : before.recordNamed? record.name = none)
    (appended : after.records = before.records ++ [record]) :
    after.identifier? record.name = some record.id := by
  simp only [recordNamed?] at unused
  simp [identifier?, recordNamed?, appended, unused]

theorem Tallied.raw_le_allocated {registry : Registry σ} (tallied : Tallied registry)
    (numbered : Numbered registry) {type : TypeRecord σ} (known : type ∈ registry.types)
    {raw : Nat} (claimed : raw ∈ type.claimed) : raw ≤ type.allocated := by
  rw [tallied.claimed type known, List.mem_reverse] at claimed
  rcases List.mem_map.mp claimed with ⟨id, member, rfl⟩
  rw [tallied.members type known, List.mem_filter] at member
  exact (numbered.claimed id member.1 type known (by simpa using member.2)).2

/-- The number chosen for a name is above all that its type has claimed. -/
theorem registerName_above {label name : String} {cycle : Cycle} {bounds : Bounds}
    {registry after : Registry σ} {id : Identifier} (tallied : Tallied registry)
    (numbered : Numbered registry)
    (outcome : (registerName label name 0 cycle bounds).run registry = (.ok id, after))
    {type : TypeRecord σ} (known : type ∈ registry.types) (tag : id.typeTag? = some type.tag)
    {raw : Nat} (claimed : raw ∈ type.claimed) : raw < id.raw := by
  rcases registerName_eq_ok outcome with ⟨_, chosen, typed, next, registered, choice, packed, _⟩
  rcases Identifier.typed?_eq_some packed with ⟨chosenTag, chosenRaw⟩
  have next_eq : next = chosen.allocated + 1 := by
    simp only [chooseRaw] at choice
    split at choice
    · contradiction
    · split at choice
      · cases choice
      · cases choice
        rfl
  have same : type.tag.number = chosen.tag.number :=
    (Identifier.typeTag?_eq_some.mp tag).symm.trans chosenTag
  rcases Registration.registerType_run label registry with
    ⟨found, member, run⟩ | ⟨newTag, _, newNumber, _, run⟩ | ⟨fault, run⟩
  · cases registered.symm.trans run
    cases tallied.type_eq known member same
    have bound := tallied.raw_le_allocated numbered known claimed
    omega
  · -- A new type has a tag that no earlier type has.
    cases registered.symm.trans run
    have bound := numbered.tags type known
    simp only at same
    omega
  · cases registered.symm.trans run

theorem typeTag?_updateType (registry : Registry σ) (tag : TypeTag)
    (change : TypeRecord σ → TypeRecord σ) (tags : ∀ type, (change type).tag = type.tag)
    (labels : ∀ type, (change type).label = type.label) (label : String) :
    (registry.updateType tag change).typeTag? label = registry.typeTag? label := by
  simp only [typeTag?, typeLabelled?, updateType, List.find?_map, Option.map_map]
  have asked : ((fun type : TypeRecord σ => type.label == label) ∘
      fun type => if type.tag = tag then change type else type) =
        fun type => type.label == label := by
    funext type
    simp only [Function.comp]
    split <;> simp [labels]
  rw [asked]
  congr 1
  funext type
  simp only [Function.comp]
  split <;> simp [tags]

/-- A registered name is found, and its identifier is under the type asked for. -/
theorem registerName_found {label name : String} {asked : Nat} {cycle : Cycle} {bounds : Bounds}
    {before after : Registry σ} {id : Identifier}
    (outcome : (registerName label name asked cycle bounds).run before = (.ok id, after)) :
    after.identifier? name = some id ∧
      after.typeTag? (if label.isEmpty then defaultLabel else label) = id.typeTag? := by
  rcases registerName_eq_ok outcome with ⟨unused, type, typed, raw, registered, _, packed, rfl⟩
  constructor
  · exact identifier?_append
      { id, name, cycle, bounds, getHook := type.getHook, setHook := type.setHook } unused
      (by simp only [Registration.registerType_records registered])
  · rw [Identifier.typeTag?_eq_some.mpr (Identifier.typed?_eq_some packed).1]
    exact (typeTag?_updateType typed type.tag (·.claim raw id) (fun _ => rfl) (fun _ => rfl) _).trans
      (registerType_labelled registered)

/-! ## Answers are kept -/

/-- What one registry answers, the other answers as well. -/
structure Keeps (before after : Registry σ) : Prop where
  identifier : ∀ name id, before.identifier? name = some id → after.identifier? name = some id
  record : ∀ id record, before.record? id = some record →
    ∃ later, after.record? id = some later ∧
      later.name = record.name ∧ later.cycle = record.cycle ∧ later.bounds = record.bounds
  typeTag : ∀ label tag, before.typeTag? label = some tag → after.typeTag? label = some tag

theorem Keeps.refl (registry : Registry σ) : Keeps registry registry :=
  ⟨fun _ _ => id, fun _ record found => ⟨record, found, rfl, rfl, rfl⟩, fun _ _ => id⟩

theorem Keeps.trans {first second third : Registry σ} (earlier : Keeps first second)
    (later : Keeps second third) : Keeps first third where
  identifier name id found := later.identifier name id (earlier.identifier name id found)
  record id record found := by
    rcases earlier.record id record found with ⟨between, foundBetween, name, cycle, bounds⟩
    rcases later.record id between foundBetween with ⟨last, foundLast, name', cycle', bounds'⟩
    exact ⟨last, foundLast, name'.trans name, cycle'.trans cycle, bounds'.trans bounds⟩
  typeTag label tag found := later.typeTag label tag (earlier.typeTag label tag found)

/-- Answers about names are kept by what only adds records. -/
theorem keeps_of_records {before after : Registry σ} {added : List (NameRecord σ)}
    (records : after.records = before.records ++ added)
    (types : ∀ label tag, before.typeTag? label = some tag → after.typeTag? label = some tag) :
    Keeps before after where
  identifier name id found := by
    rcases Option.map_eq_some_iff.mp found with ⟨record, named, rfl⟩
    simp only [recordNamed?] at named
    simp [identifier?, recordNamed?, records, List.find?_append, named]
  record id record found := by
    refine ⟨record, ?_, rfl, rfl, rfl⟩
    simp only [record?] at found ⊢
    simp [records, List.find?_append, found]
  typeTag := types

/-- Records are found as before when one of them gets a hook. -/
theorem find?_updateRecord (registry : Registry σ) (id : Identifier) (hook : Hook σ)
    {wanted : NameRecord σ → Bool} (kept : ∀ record, wanted (record.attach hook) = wanted record) :
    (registry.updateRecord id (·.attach hook)).records.find? wanted =
      (registry.records.find? wanted).map fun record =>
        if record.id = id then record.attach hook else record := by
  simp only [updateRecord, List.find?_map]
  congr 2
  funext record
  simp only [Function.comp]
  split
  · exact kept record
  · rfl

theorem Keeps.of_hookRecord (registry : Registry σ) (id : Identifier) (hook : Hook σ) :
    Keeps registry (registry.updateRecord id (·.attach hook)) where
  identifier name asked found := by
    rcases Option.map_eq_some_iff.mp found with ⟨record, named, rfl⟩
    simp only [recordNamed?] at named
    rw [identifier?, recordNamed?, find?_updateRecord registry id hook fun _ => by simp, named]
    simp only [Option.map_some]
    split <;> simp
  record asked record found := by
    simp only [record?] at found
    rw [record?, find?_updateRecord registry id hook fun _ => by simp, found]
    refine ⟨_, rfl, ?_⟩
    by_cases same : record.id = id <;> simp [same]
  typeTag _ _ := fun found => found

theorem Keeps.of_edit {before after : Registry σ} (edit : Edit before after) :
    Keeps before after := by
  cases edit with
  | newType tag label next unused =>
      refine keeps_of_records (List.append_nil _).symm fun asked tag found => ?_
      rcases Option.map_eq_some_iff.mp found with ⟨type, labelled, rfl⟩
      simp only [typeLabelled?] at labelled
      simp [typeTag?, typeLabelled?, List.find?_append, labelled]
  | newName type record raw known unused packed free =>
      refine keeps_of_records rfl fun label tag found => ?_
      exact (typeTag?_updateType before type.tag (·.claim raw record.id)
        (fun _ => rfl) (fun _ => rfl) label).trans found
  | newOrdered record raw unused packed free =>
      exact keeps_of_records rfl fun _ _ => id
  | hookType tag hook =>
      refine keeps_of_records (List.append_nil _).symm fun label asked found => ?_
      rw [typeTag?_updateType before tag (·.attach hook) (fun type => type.attach_tag hook)
        (fun type => type.attach_label hook)]
      exact found
  | hookRecord id hook => exact .of_hookRecord before id hook

theorem Keeps.of_edits {before after : Registry σ}
    (edits : Relation.ReflTransGen Edit before after) : Keeps before after := by
  induction edits with
  | refl => exact .refl before
  | tail _ edit induction => exact induction.trans (.of_edit edit)

/-- The registry after some more requests. -/
def following (registry : Registry σ) (requests : List (RegistryRequest σ)) : Registry σ :=
  requests.foldl (fun registry request => (request.carryOut.run registry).2) registry

theorem keeps_following (registry : Registry σ) (requests : List (RegistryRequest σ)) :
    Keeps registry (registry.following requests) := by
  induction requests generalizing registry with
  | nil => exact .refl registry
  | cons request rest induction =>
      exact (Keeps.of_edits (Registration.carryOut_edits request registry)).trans (induction _)

/-! ## All histories of registrations -/

/-- The lookups, the types and the counter of a registry tell the same. -/
structure Consistent (registry : Registry σ) : Prop where
  /-- Names and identifiers are looked up in either direction. -/
  inverse : ∀ name id, registry.identifier? name = some id ↔ registry.name? id = some name
  recorded : ∀ record ∈ registry.records,
    registry.identifier? record.name = some record.id ∧ registry.record? record.id = some record
  record_id : ∀ id record, registry.record? id = some record → record.id = id
  names : (registry.records.map (·.name)).Nodup
  ids : registry.ids.Nodup
  raw : ∀ id ∈ registry.ids, 1 ≤ id.raw ∧ id.raw ≤ maxRaw
  /-- A name that is not ordered is one of the members of its type. -/
  typed : ∀ id ∈ registry.ids, id.isOrdered = false →
    ∃ type, registry.type? type.tag = some type ∧ id.typeTag? = some type.tag ∧
      type.members.count id = 1
  members : ∀ type ∈ registry.types,
    type.members = registry.ids.filter (·.typeTag? = some type.tag)
  claimed : ∀ type ∈ registry.types, ∀ raw,
    raw ∈ type.claimed ↔ ∃ id ∈ type.members, id.raw = raw
  /-- The counter is the greatest place in use, 0 if there is none. -/
  counted : ∀ id ∈ registry.ids, id.isOrdered = true → id.raw ≤ registry.orderedCount
  reached : registry.orderedCount = 0 ∨
    ∃ id ∈ registry.ids, id.isOrdered = true ∧ id.raw = registry.orderedCount

theorem foldl_max_attained (start : Nat) (raws : List Nat) :
    raws.foldl max start = start ∨ raws.foldl max start ∈ raws := by
  induction raws generalizing start with
  | nil => exact .inl rfl
  | cons raw rest induction =>
      rw [List.foldl_cons]
      rcases induction (max start raw) with unchanged | member
      · rw [unchanged]
        rcases Nat.le_total start raw with below | above
        · refine .inr ?_
          rw [Nat.max_eq_right below]
          exact List.mem_cons_self
        · exact .inl (Nat.max_eq_left above)
      · exact .inr (List.mem_cons_of_mem raw member)

theorem Tallied.consistent {registry : Registry σ} (tallied : Tallied registry)
    (numbered : Numbered registry) (placed : Placed registry) : Consistent registry where
  inverse := tallied.identifier?_iff numbered
  recorded record known :=
    ⟨Option.map_eq_some_iff.mpr ⟨record, tallied.recordNamed?_eq known, rfl⟩,
      numbered.record?_eq known⟩
  record_id _ _ found := (record?_eq_some found).2
  names := tallied.names
  ids := numbered.nodup
  raw id _ := ⟨id.raw_pos, id.raw_le⟩
  typed id used ordinary := by
    rcases tallied.type_of_id numbered used ordinary with ⟨type, known, tag⟩
    refine ⟨type, tallied.type?_eq known, Identifier.typeTag?_eq_some.mpr tag, ?_⟩
    rw [tallied.members type known]
    refine List.count_eq_one_of_mem (numbered.nodup.filter _) ?_
    simp [used, tag]
  members type known := by
    simp only [Identifier.typeTag?_eq_some]
    exact tallied.members type known
  claimed type known raw := by
    rw [tallied.claimed type known, List.mem_reverse, List.mem_map]
  counted id used ordered := placed id used (Identifier.isOrdered_iff.mp ordered)
  reached := by
    rw [tallied.orderedCount]
    refine (foldl_max_attained 0 _).imp_right fun member => ?_
    rcases List.mem_map.mp member with ⟨id, ordered, raw⟩
    rw [List.mem_filter] at ordered
    exact ⟨id, ordered.1, ordered.2, raw⟩

/-- After any requests, whether they succeed or fail, a registry is consistent.
The number it chooses for a name is above all that the type has claimed, and the
place it chooses for an ordered name above all places in use. What it has
answered it answers ever after. -/
theorem Reachable.keeps_consistent {registry : Registry σ} (reachable : Reachable registry) :
    Consistent registry ∧
    (∀ label name cycle bounds id after,
      (registerName label name 0 cycle bounds).run registry = (.ok id, after) →
        after.identifier? name = some id ∧
        after.typeTag? (if label.isEmpty then defaultLabel else label) = id.typeTag? ∧
        ∀ type ∈ registry.types, id.typeTag? = some type.tag →
          ∀ raw ∈ type.claimed, raw < id.raw) ∧
    (∀ name bounds id after,
      (registerOrdered name 0 bounds).run registry = (.ok id, after) →
        after.identifier? name = some id ∧ id.isOrdered = true ∧
        ∀ other ∈ registry.ids, other.isOrdered = true → other.raw < id.raw) ∧
    ∀ requests, Keeps registry (registry.following requests) := by
  have numbered := reachable.numbered
  have tallied := reachable.tallied
  refine ⟨tallied.consistent numbered reachable.placed, ?_, ?_, keeps_following registry⟩
  · intro label name cycle bounds id after outcome
    rcases registerName_found outcome with ⟨identifier, tag⟩
    exact ⟨identifier, tag, fun type known same raw claimed =>
      registerName_above tallied numbered outcome known same claimed⟩
  · intro name bounds id after outcome
    rcases registerOrdered_eq_ok outcome with ⟨unused, packed, records⟩
    rcases Identifier.ordered?_eq_some packed with ⟨tag, raw⟩
    refine ⟨identifier?_append _ unused records, Identifier.isOrdered_iff.mpr tag,
      fun other used ordered => ?_⟩
    have bound := reachable.placed other used (Identifier.isOrdered_iff.mp ordered)
    rw [if_pos rfl] at raw
    omega

/-- Numbers asked for and chosen by turns. The third name is taken and the fourth
asks for a number that is. -/
def interleaved : List (RegistryRequest Unit) :=
  [.addName "t" "a" 5 .temporary {}, .addName "t" "b" 0 .temporary {},
    .addName "u" "a" 7 .temporary {}, .addName "t" "c" 5 .temporary {},
    .addOrdered "o" 3 {}, .addOrdered "p" 0 {}, .addName "t" "c" 0 .temporary {}]

theorem Reachable.keeps_consistent_interleaved :
    Reachable (ofRequests interleaved) ∧
      (ofRequests interleaved).ids.map (fun id => (id.tag, id.raw)) =
        [(1, 5), (1, 6), (0, 3), (0, 4), (1, 7)] ∧
      Consistent (ofRequests interleaved) :=
  ⟨reachable_ofRequests interleaved, by decide +kernel,
    (Reachable.keeps_consistent (reachable_ofRequests interleaved)).1⟩

end Registry

end NumericRules
