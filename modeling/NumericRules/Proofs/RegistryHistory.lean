import NumericRules.Registry
import NumericRules.Proofs.Identifiers
import Mathlib.Data.List.Nodup
import Mathlib.Logic.Relation

/-! # Histories of registrations

A registry comes about by requests, each of which may fail. Every request is a
chain of elementary edits, so that what holds of all registries is shown for
one edit at a time. Whatever the history, no identifier belongs to two names.
-/

namespace NumericRules

/-- What a program can ask of a registry. -/
inductive RegistryRequest (σ : Type) where
  | addType (label : String)
  | addName (label name : String) (raw : Nat) (cycle : Cycle) (bounds : Bounds)
  | addOrdered (name : String) (raw : Nat) (bounds : Bounds)
  | hookIdentifier (id : Identifier) (hook : Hook σ)
  | hookName (name : String) (hook : Hook σ)
  | hookType (label : String) (hook : Hook σ)

def RegistryRequest.carryOut : RegistryRequest σ → Registration σ Unit
  | .addType label => do let _ ← Registry.registerType label
  | .addName label name raw cycle bounds => do
      let _ ← Registry.registerName label name raw cycle bounds
  | .addOrdered name raw bounds => do let _ ← Registry.registerOrdered name raw bounds
  | .hookIdentifier id hook => Registry.attachToIdentifier id hook
  | .hookName name hook => Registry.attachToName name hook
  | .hookType label hook => Registry.attachToType label hook

/-- The type with one more name, whose number is in use. -/
def TypeRecord.claim (type : TypeRecord σ) (raw : Nat) (id : Identifier) : TypeRecord σ :=
  { type with
    allocated := max type.allocated raw
    claimed := raw :: type.claimed
    members := type.members ++ [id] }

namespace Registry

/-- A registry that some history of requests leaves behind. -/
inductive Reachable : Registry σ → Prop
  | empty : Reachable {}
  | step (request : RegistryRequest σ) :
      Reachable registry → Reachable (request.carryOut.run registry).2

/-- The registry that requests lead to, one after another. -/
def ofRequests (requests : List (RegistryRequest σ)) : Registry σ :=
  requests.foldl (fun registry request => (request.carryOut.run registry).2) {}

theorem reachable_ofRequests (requests : List (RegistryRequest σ)) :
    Reachable (ofRequests requests) := by
  have further (registry : Registry σ) (reachable : Reachable registry) : Reachable
      (requests.foldl (fun registry request => (request.carryOut.run registry).2) registry) := by
    induction requests generalizing registry with
    | nil => exact reachable
    | cons request rest induction => exact induction _ (.step request reachable)
  exact further {} .empty

/-! ## Elementary edits -/

/-- A change of a type behind another one is one change, where its tag stays. -/
theorem updateType_updateType (registry : Registry σ) (tag : TypeTag)
    (first second : TypeRecord σ → TypeRecord σ) (kept : ∀ type, (first type).tag = type.tag) :
    (registry.updateType tag first).updateType tag second =
      registry.updateType tag fun type => second (first type) := by
  simp only [updateType, List.map_map]
  congr 1
  refine List.map_congr_left fun type _ => ?_
  by_cases same : type.tag = tag
  · simp only [Function.comp_apply, if_pos same, if_pos ((kept type).trans same)]
  · simp only [Function.comp_apply, if_neg same]

/-- One edit of a registry. A registration makes several of them, one after
another, and stops at its first fault. -/
inductive Edit : Registry σ → Registry σ → Prop
  | newType (registry : Registry σ) (tag : TypeTag) (label : String)
      (next : tag.number = registry.types.length + 1)
      (unused : registry.typeLabelled? label = none) :
      Edit registry { registry with types := registry.types ++ [{ tag, label }] }
  | newName (registry : Registry σ) (type : TypeRecord σ) (record : NameRecord σ)
      (raw : Nat) (known : type ∈ registry.types)
      (unused : registry.recordNamed? record.name = none)
      (packed : Identifier.typed? type.tag raw = some record.id)
      (free : raw ∉ type.claimed ∨ raw = type.allocated + 1) :
      Edit registry
        { registry.updateType type.tag (·.claim raw record.id) with
          records := registry.records ++ [record] }
  | newOrdered (registry : Registry σ) (record : NameRecord σ) (raw : Nat)
      (unused : registry.recordNamed? record.name = none)
      (packed : Identifier.ordered? raw = some record.id)
      (free : registry.record? record.id = none) :
      Edit registry
        { registry with
          orderedCount := max registry.orderedCount raw
          records := registry.records ++ [record] }
  | hookType (registry : Registry σ) (tag : TypeTag) (hook : Hook σ) :
      Edit registry (registry.updateType tag (·.attach hook))
  | hookRecord (registry : Registry σ) (id : Identifier) (hook : Hook σ) :
      Edit registry (registry.updateRecord id (·.attach hook))

end Registry

/-! ## Registrations as chains of edits -/

namespace Registration

open Registry Relation

theorem run_bind {ε ς α β : Type} (action : ExceptT ε (StateM ς) α)
    (next : α → ExceptT ε (StateM ς) β) (before : ς) :
    (action >>= next).run before =
      match action.run before with
      | (.ok value, after) => (next value).run after
      | (.error fault, after) => (.error fault, after) := by
  rw [ExceptT.run_bind]
  simp only [bind, StateT.bind]
  rcases action.run before with ⟨_ | _, _⟩ <;> rfl

/-- A registration succeeds by the success of its parts. -/
theorem run_bind_eq_ok {action : Registration σ α} {next : α → Registration σ β}
    {before after : Registry σ} {answer : β}
    (outcome : (action >>= next).run before = (.ok answer, after)) :
    ∃ value between, action.run before = (.ok value, between) ∧
      (next value).run between = (.ok answer, after) := by
  rw [run_bind] at outcome
  rcases first : action.run before with ⟨fault | value, between⟩
  · rw [first] at outcome
    cases outcome
  · exact ⟨value, between, rfl, by simpa only [first] using outcome⟩

@[simp] theorem run_pure (value : α) (registry : Registry σ) :
    (pure value : Registration σ α).run registry = (.ok value, registry) := rfl

@[simp] theorem run_throw (fault : RegistrationFault) (registry : Registry σ) :
    (throw fault : Registration σ α).run registry = (.error fault, registry) := rfl

@[simp] theorem run_get (registry : Registry σ) :
    (get : Registration σ (Registry σ)).run registry = (.ok registry, registry) := rfl

@[simp] theorem run_set (next registry : Registry σ) :
    (set next : Registration σ PUnit).run registry = (.ok ⟨⟩, next) := rfl

@[simp] theorem run_modify (change : Registry σ → Registry σ) (registry : Registry σ) :
    (modify change : Registration σ PUnit).run registry = (.ok ⟨⟩, change registry) := rfl

/-- Whatever the registration finds, it makes a chain of elementary edits. -/
def Edits (action : Registration σ α) : Prop :=
  ∀ registry, ReflTransGen Edit registry (action.run registry).2

theorem edits_of_unchanged {action : Registration σ α}
    (unchanged : ∀ registry, (action.run registry).2 = registry) : action.Edits := by
  intro registry
  rw [unchanged]

/-- What follows a registration may use what its run has answered. -/
theorem chain_bind {action : Registration σ α} {next : α → Registration σ β}
    {registry : Registry σ} (first : ReflTransGen Edit registry (action.run registry).2)
    (second : ∀ value after, action.run registry = (.ok value, after) →
      ReflTransGen Edit after ((next value).run after).2) :
    ReflTransGen Edit registry ((action >>= next).run registry).2 := by
  rw [run_bind]
  rcases outcome : action.run registry with ⟨fault | value, after⟩
  · simpa [outcome] using first
  · rw [outcome] at first
    exact first.trans (second value after outcome)

theorem edits_bind {action : Registration σ α} {next : α → Registration σ β}
    (first : action.Edits) (second : ∀ value, (next value).Edits) : (action >>= next).Edits :=
  fun registry => chain_bind (first registry) fun value after _ => second value after

theorem edits_discard {action : Registration σ α} (changes : action.Edits) :
    (do let _ ← action : Registration σ Unit).Edits :=
  edits_bind changes fun _ _ => .refl

/-! ### Each registration -/

theorem registerType_run (label : String) (registry : Registry σ) :
    (∃ type ∈ registry.types, (registerType label).run registry = (.ok type, registry)) ∨
      (∃ (tag : TypeTag) (label' : String), tag.number = registry.types.length + 1 ∧
        registry.typeLabelled? label' = none ∧ (registerType label).run registry =
          (.ok { tag, label := label' },
            { registry with types := registry.types ++ [{ tag, label := label' }] })) ∨
      ∃ fault, (registerType label).run registry = (.error fault, registry) := by
  simp only [registerType, run_bind, run_get]
  generalize (if label.isEmpty = true then defaultLabel else label) = label
  cases known : registry.typeLabelled? label with
  | some type =>
      exact .inl ⟨type, List.mem_of_find?_eq_some known, rfl⟩
  | none =>
      refine .inr ?_
      by_cases room : registry.types.length < maxTypes
      · refine .inl ⟨⟨registry.types.length + 1, by omega, by omega⟩, label, rfl, known, ?_⟩
        simp only [dif_pos room, run_bind, run_set, run_pure]
      · exact .inr ⟨.tooManyTypes label, by simp only [dif_neg room, run_throw]⟩

theorem registerType_edits (label : String) :
    (registerType label : Registration σ (TypeRecord σ)).Edits := by
  intro registry
  rcases registerType_run label registry with
    ⟨type, _, run⟩ | ⟨tag, label', next, unused, run⟩ | ⟨fault, run⟩
  · rw [run]
  · rw [run]
    exact .single (.newType registry tag label' next unused)
  · rw [run]

/-- The type a registration answers is registered afterwards. -/
theorem registerType_mem {label : String} {before after : Registry σ} {type : TypeRecord σ}
    (outcome : (registerType label).run before = (.ok type, after)) : type ∈ after.types := by
  rcases registerType_run label before with
    ⟨known, member, run⟩ | ⟨tag, label', _, _, run⟩ | ⟨fault, run⟩
  · cases outcome.symm.trans run
    exact member
  · cases outcome.symm.trans run
    simp
  · cases outcome.symm.trans run

theorem chooseRaw_free {type : TypeRecord σ} {name : String} {asked raw : Nat}
    (chosen : chooseRaw type name asked = .ok raw) :
    raw ∉ type.claimed ∨ raw = type.allocated + 1 := by
  unfold chooseRaw at chosen
  split at chosen
  · split at chosen
    · cases chosen
    · rename_i unclaimed
      cases chosen
      exact .inl (by simpa using unclaimed)
  · split at chosen
    · cases chosen
    · cases chosen
      exact .inr rfl

theorem requireNew_run_snd (name : String) (registry : Registry σ) :
    ((requireNew name : Registration σ Unit).run registry).2 = registry := by
  simp only [requireNew, run_bind, run_get]
  split
  · simp only [run_bind, run_throw]
  · split <;> rfl

/-- A name that was accepted as new is not in use. -/
theorem requireNew_unused {name : String} {before after : Registry σ}
    (outcome : (requireNew name).run before = (.ok (), after)) :
    after = before ∧ before.recordNamed? name = none := by
  refine ⟨(congrArg Prod.snd outcome).symm.trans (requireNew_run_snd name before), ?_⟩
  cases taken : before.recordNamed? name with
  | none => rfl
  | some record =>
      simp only [requireNew, run_bind, run_get, taken, Option.isSome_some, if_true] at outcome
      split at outcome <;> cases outcome

/-- Registering a type leaves the names as they are. -/
theorem registerType_records {label : String} {before after : Registry σ} {type : TypeRecord σ}
    (outcome : (registerType label).run before = (.ok type, after)) :
    after.records = before.records := by
  rcases registerType_run label before with
    ⟨known, _, run⟩ | ⟨tag, label', _, _, run⟩ | ⟨fault, run⟩ <;>
    cases outcome.symm.trans run <;> rfl

/-- A number that was chosen can be packed. -/
theorem typed?_of_chooseRaw {type : TypeRecord σ} {name : String} {asked raw : Nat}
    (small : asked ≤ maxRaw) (chosen : chooseRaw type name asked = .ok raw) :
    ∃ id, Identifier.typed? type.tag raw = some id := by
  have inRange : 1 ≤ raw ∧ raw ≤ maxRaw := by
    unfold chooseRaw at chosen
    split at chosen <;> split at chosen <;> cases chosen <;> omega
  rcases Identifier.exists_pack? type.tag.number_lt inRange.1 inRange.2 with ⟨id, packed, _⟩
  exact ⟨id, packed⟩

/-- The number of a new name is put in use only if it can be packed, so the name is added at
once or not at all. -/
theorem claimName_run {asked : Nat} (small : asked ≤ maxRaw) (type : TypeRecord σ) (name : String)
    (cycle : Cycle) (bounds : Bounds) (registry : Registry σ) :
    (∃ fault, chooseRaw type name asked = .error fault ∧
      (claimName type name asked cycle bounds).run registry = (.error fault, registry)) ∨
    ∃ raw id, chooseRaw type name asked = .ok raw ∧ Identifier.typed? type.tag raw = some id ∧
      (claimName type name asked cycle bounds).run registry =
        (.ok id,
          { registry.updateType type.tag (·.claim raw id) with
            records := registry.records ++
              [{ id, name, cycle, bounds, getHook := type.getHook, setHook := type.setHook }] }) := by
  unfold claimName
  cases chosen : chooseRaw type name asked with
  | error fault => exact .inl ⟨fault, rfl, rfl⟩
  | ok raw =>
      rcases typed?_of_chooseRaw small chosen with ⟨id, packed⟩
      have both := registry.updateType_updateType type.tag (·.allocate raw) (·.addMember raw id)
        fun _ => rfl
      refine .inr ⟨raw, id, rfl, packed, ?_⟩
      simp only [claimName.liftExcept, run_bind, run_pure, run_modify, packed, both]
      rfl

theorem claimName_edits {registry : Registry σ} {type : TypeRecord σ}
    (known : type ∈ registry.types) {name : String} (unused : registry.recordNamed? name = none)
    {asked : Nat} (small : asked ≤ maxRaw) (cycle : Cycle) (bounds : Bounds) :
    ReflTransGen Edit registry ((claimName type name asked cycle bounds).run registry).2 := by
  rcases claimName_run small type name cycle bounds registry with
    ⟨fault, _, run⟩ | ⟨raw, id, chosen, packed, run⟩
  · rw [run]
  · rw [run]
    exact .single (.newName registry type
      { id, name, cycle, bounds, getHook := type.getHook, setHook := type.setHook }
      raw known unused packed (chooseRaw_free chosen))

theorem registerName_edits (label name : String) (raw : Nat) (cycle : Cycle) (bounds : Bounds) :
    (registerName label name raw cycle bounds : Registration σ Identifier).Edits := by
  intro registry
  apply chain_bind (edits_of_unchanged (requireNew_run_snd name) registry)
  intro _ after outcome
  rcases requireNew_unused outcome with ⟨rfl, unused⟩
  split
  · exact .refl
  · rename_i small
    apply chain_bind (registerType_edits label after)
    intro type typed registered
    have unused : typed.recordNamed? name = none := by
      simpa only [recordNamed?, registerType_records registered] using unused
    exact claimName_edits (registerType_mem registered) unused (Nat.le_of_not_lt small) cycle
      bounds

theorem registerOrdered_edits (name : String) (raw : Nat) (bounds : Bounds) :
    (registerOrdered name raw bounds : Registration σ Identifier).Edits := by
  intro registry
  simp only [registerOrdered, run_bind, run_get]
  by_cases full : raw = 0 ∧ maxRaw ≤ registry.orderedCount
  · simp only [if_pos full, run_bind, run_throw]
    exact .refl
  · simp only [if_neg full]
    apply chain_bind (edits_of_unchanged (requireNew_run_snd name) registry)
    intro _ after outcome
    rcases requireNew_unused outcome with ⟨rfl, unused⟩
    generalize (if raw = 0 then after.orderedCount + 1 else raw) = place
    cases packed : Identifier.ordered? place with
    | none => exact .refl
    | some id =>
        by_cases taken : (after.record? id).isSome
        · simp only [if_pos taken, run_bind, run_throw]
          exact .refl
        · simp only [if_neg taken, run_bind, run_set, run_pure]
          exact .single
            (.newOrdered after { id, name, bounds } place unused packed (by simpa using taken))

theorem attachToIdentifier_edits (id : Identifier) (hook : Hook σ) :
    (attachToIdentifier id hook).Edits := by
  intro registry
  simp only [attachToIdentifier, run_bind, run_get]
  by_cases ordered : id.isOrdered
  · simp only [if_pos ordered, run_bind, run_throw]
    exact .refl
  · simp only [if_neg ordered]
    by_cases unknown : (registry.record? id).isNone
    · simp only [if_pos unknown, run_bind, run_throw]
      exact .refl
    · simp only [if_neg unknown, run_set]
      exact .single (.hookRecord registry id hook)

theorem attachToName_edits (name : String) (hook : Hook σ) : (attachToName name hook).Edits := by
  intro registry
  simp only [attachToName, run_bind, run_get]
  cases registry.identifier? name with
  | none => exact .refl
  | some id => exact attachToIdentifier_edits id hook registry

theorem attachToAll_edits (hook : Hook σ) (ids : List Identifier) :
    (attachToAll hook ids).Edits := by
  induction ids with
  | nil => exact fun _ => .refl
  | cons id rest induction =>
      exact edits_bind (attachToIdentifier_edits id hook) fun _ => induction

theorem attachToType_edits (label : String) (hook : Hook σ) : (attachToType label hook).Edits := by
  intro registry
  simp only [attachToType, run_bind, run_get]
  cases registry.typeLabelled? label with
  | none => exact .refl
  | some type =>
      simp only [run_bind, run_modify]
      exact .head (.hookType registry type.tag hook) (attachToAll_edits hook type.members _)

theorem carryOut_edits (request : RegistryRequest σ) : request.carryOut.Edits := by
  cases request with
  | addType label => exact edits_discard (registerType_edits label)
  | addName label name raw cycle bounds =>
      exact edits_discard (registerName_edits label name raw cycle bounds)
  | addOrdered name raw bounds => exact edits_discard (registerOrdered_edits name raw bounds)
  | hookIdentifier id hook => exact attachToIdentifier_edits id hook
  | hookName name hook => exact attachToName_edits name hook
  | hookType label hook => exact attachToType_edits label hook

end Registration

/-! ## No identifier belongs to two names -/

namespace Registry

/-- The identifiers in use. -/
def ids (registry : Registry σ) : List Identifier := registry.records.map (·.id)

/-- Identifiers are not repeated, and every type knows the raw numbers that are
in use under its tag. -/
structure Numbered (registry : Registry σ) : Prop where
  nodup : registry.ids.Nodup
  tagsInUse : ∀ id ∈ registry.ids, id.tag ≤ registry.types.length
  tags : ∀ type ∈ registry.types, type.tag.number ≤ registry.types.length
  claimed : ∀ id ∈ registry.ids, ∀ type ∈ registry.types, id.tag = type.tag.number →
    id.raw ∈ type.claimed ∧ id.raw ≤ type.allocated

theorem Numbered.empty : Numbered ({} : Registry σ) :=
  ⟨by simp [ids], by simp [ids], by simp, by simp [ids]⟩

theorem Numbered.newType {registry : Registry σ} (numbered : Numbered registry)
    {type : TypeRecord σ} (tag : type.tag.number = registry.types.length + 1) :
    Numbered { registry with types := registry.types ++ [type] } where
  nodup := numbered.nodup
  tagsInUse id member := by
    have bound := numbered.tagsInUse id member
    simp only [List.length_append, List.length_singleton]
    omega
  tags other member := by
    simp only [List.length_append, List.length_singleton]
    rcases List.mem_append.mp member with old | new
    · have bound := numbered.tags other old
      omega
    · rw [List.mem_singleton.mp new]
      omega
  claimed id member other otherMember equal := by
    rcases List.mem_append.mp otherMember with old | new
    · exact numbered.claimed id member other old equal
    · have bound := numbered.tagsInUse id member
      rw [List.mem_singleton.mp new] at equal
      omega

theorem ids_append (registry : Registry σ) (record : NameRecord σ) (types : List (TypeRecord σ))
    (orderedCount : Nat) :
    ids { types, records := registry.records ++ [record], orderedCount } =
      registry.ids ++ [record.id] := by
  simp [ids]

theorem mem_updateType {registry : Registry σ} {tag : TypeTag}
    {change : TypeRecord σ → TypeRecord σ} {changed : TypeRecord σ}
    (member : changed ∈ (registry.updateType tag change).types) :
    ∃ type ∈ registry.types,
      (type.tag = tag ∧ changed = change type) ∨ (type.tag ≠ tag ∧ changed = type) := by
  rcases List.mem_map.mp member with ⟨type, known, rfl⟩
  refine ⟨type, known, ?_⟩
  by_cases same : type.tag = tag
  · exact .inl ⟨same, if_pos same⟩
  · exact .inr ⟨same, if_neg same⟩

theorem length_updateType (registry : Registry σ) (tag : TypeTag)
    (change : TypeRecord σ → TypeRecord σ) :
    (registry.updateType tag change).types.length = registry.types.length := by
  simp [updateType]

/-- The identifier of a raw number that is free is not in use. -/
theorem Numbered.fresh {registry : Registry σ} (numbered : Numbered registry)
    {type : TypeRecord σ} {id : Identifier} {raw : Nat} (known : type ∈ registry.types)
    (packed : Identifier.typed? type.tag raw = some id)
    (free : raw ∉ type.claimed ∨ raw = type.allocated + 1) : id ∉ registry.ids := by
  have tagBound : type.tag.number < 256 := Nat.lt_of_le_of_lt type.tag.le (by decide)
  rcases Identifier.pack?_tag_raw tagBound packed with ⟨tag, rawEq⟩
  intro member
  have inUse := numbered.claimed id member type known tag
  rw [rawEq] at inUse
  rcases free with unclaimed | next
  · exact unclaimed inUse.1
  · omega

theorem Numbered.newName {registry : Registry σ} (numbered : Numbered registry)
    {type : TypeRecord σ} {record : NameRecord σ} {raw : Nat} (known : type ∈ registry.types)
    (packed : Identifier.typed? type.tag raw = some record.id)
    (free : raw ∉ type.claimed ∨ raw = type.allocated + 1) :
    Numbered
      { registry.updateType type.tag (·.claim raw record.id) with
        records := registry.records ++ [record] } := by
  have tagBound : type.tag.number < 256 := Nat.lt_of_le_of_lt type.tag.le (by decide)
  rcases Identifier.pack?_tag_raw tagBound packed with ⟨tag, rawEq⟩
  constructor
  · rw [ids_append]
    exact List.concat_eq_append ▸ numbered.nodup.concat (numbered.fresh known packed free)
  · intro id member
    rw [ids_append] at member
    rw [length_updateType]
    rcases List.mem_append.mp member with old | new
    · exact numbered.tagsInUse id old
    · rw [List.mem_singleton.mp new, tag]
      exact numbered.tags type known
  · intro changed member
    rw [length_updateType]
    rcases mem_updateType member with ⟨other, otherKnown, ⟨_, rfl⟩ | ⟨_, rfl⟩⟩
    · exact numbered.tags other otherKnown
    · exact numbered.tags _ otherKnown
  · intro id member changed changedMember equal
    rw [ids_append] at member
    rcases mem_updateType changedMember with ⟨other, otherKnown, ⟨same, rfl⟩ | ⟨different, rfl⟩⟩
    · rcases List.mem_append.mp member with old | new
      · have inUse := numbered.claimed id old other otherKnown equal
        exact ⟨List.mem_cons_of_mem _ inUse.1, Nat.le_trans inUse.2 (Nat.le_max_left ..)⟩
      · rw [List.mem_singleton.mp new, rawEq]
        exact ⟨List.mem_cons_self, Nat.le_max_right ..⟩
    · rcases List.mem_append.mp member with old | new
      · exact numbered.claimed id old changed otherKnown equal
      · rw [List.mem_singleton.mp new, tag] at equal
        exact (different (TypeTag.eq_of_number equal.symm)).elim

theorem Numbered.newOrdered {registry : Registry σ} (numbered : Numbered registry)
    {record : NameRecord σ} {raw : Nat} (packed : Identifier.ordered? raw = some record.id)
    (free : registry.record? record.id = none) :
    Numbered
      { registry with
        orderedCount := max registry.orderedCount raw
        records := registry.records ++ [record] } := by
  have tag : record.id.tag = 0 := (Identifier.pack?_tag_raw (by decide) packed).1
  have fresh : record.id ∉ registry.ids := by
    simpa [record?, ids] using free
  constructor
  · rw [ids_append]
    exact List.concat_eq_append ▸ numbered.nodup.concat fresh
  · intro id member
    rw [ids_append] at member
    rcases List.mem_append.mp member with old | new
    · exact numbered.tagsInUse id old
    · rw [List.mem_singleton.mp new, tag]
      exact Nat.zero_le _
  · exact numbered.tags
  · intro id member type known equal
    rw [ids_append] at member
    rcases List.mem_append.mp member with old | new
    · exact numbered.claimed id old type known equal
    · rw [List.mem_singleton.mp new, tag] at equal
      exact (Nat.ne_of_lt type.tag.pos equal).elim

theorem Numbered.hookType {registry : Registry σ} (numbered : Numbered registry)
    (tag : TypeTag) (hook : Hook σ) : Numbered (registry.updateType tag (·.attach hook)) where
  nodup := numbered.nodup
  tagsInUse id member := by
    rw [length_updateType]
    exact numbered.tagsInUse id member
  tags changed member := by
    rw [length_updateType]
    rcases mem_updateType member with ⟨type, known, ⟨_, rfl⟩ | ⟨_, rfl⟩⟩
    · cases hook <;> exact numbered.tags type known
    · exact numbered.tags _ known
  claimed id member changed changedMember equal := by
    rcases mem_updateType changedMember with ⟨type, known, ⟨_, rfl⟩ | ⟨_, rfl⟩⟩
    · cases hook <;> exact numbered.claimed id member type known equal
    · exact numbered.claimed id member _ known equal

theorem ids_updateRecord (registry : Registry σ) (id : Identifier) (hook : Hook σ) :
    (registry.updateRecord id (·.attach hook)).ids = registry.ids := by
  simp only [ids, updateRecord, List.map_map]
  congr 1
  funext record
  simp only [Function.comp]
  split
  · cases hook <;> rfl
  · rfl

theorem Numbered.hookRecord {registry : Registry σ} (numbered : Numbered registry)
    (id : Identifier) (hook : Hook σ) :
    Numbered (registry.updateRecord id (·.attach hook)) where
  nodup := by
    rw [ids_updateRecord]
    exact numbered.nodup
  tagsInUse := by
    rw [ids_updateRecord]
    exact numbered.tagsInUse
  tags := numbered.tags
  claimed := by
    rw [ids_updateRecord]
    exact numbered.claimed

theorem Numbered.edit {before after : Registry σ} (numbered : Numbered before)
    (edit : Edit before after) : Numbered after := by
  cases edit with
  | newType tag label next unused => exact numbered.newType next
  | newName type record raw known unused packed free => exact numbered.newName known packed free
  | newOrdered record raw unused packed free => exact numbered.newOrdered packed free
  | hookType tag hook => exact numbered.hookType tag hook
  | hookRecord id hook => exact numbered.hookRecord id hook

theorem Numbered.edits {before after : Registry σ} (numbered : Numbered before)
    (edits : Relation.ReflTransGen Edit before after) : Numbered after := by
  induction edits with
  | refl => exact numbered
  | tail _ edit induction => exact induction.edit edit

theorem Reachable.numbered {registry : Registry σ} (reachable : Reachable registry) :
    Numbered registry := by
  induction reachable with
  | empty => exact .empty
  | @step registry request reachable numbered =>
      exact numbered.edits (Registration.carryOut_edits request registry)

theorem identifier?_eq_some {registry : Registry σ} {name : String} {id : Identifier}
    (found : registry.identifier? name = some id) :
    ∃ record ∈ registry.records, record.name = name ∧ record.id = id := by
  rcases Option.map_eq_some_iff.mp found with ⟨record, named, rfl⟩
  exact ⟨record, List.mem_of_find?_eq_some named, by simpa using List.find?_some named, rfl⟩

/-- Records are found by their identifiers. -/
theorem Numbered.record?_eq {registry : Registry σ} (numbered : Numbered registry)
    {record : NameRecord σ} (known : record ∈ registry.records) :
    registry.record? record.id = some record := by
  cases found : registry.record? record.id with
  | none =>
      have unknown := List.find?_eq_none.mp found record known
      simp at unknown
  | some other =>
      have same : other.id = record.id := by simpa using List.find?_some found
      exact congrArg some
        (List.inj_on_of_nodup_map numbered.nodup (List.mem_of_find?_eq_some found) known same)

/-- An identifier belongs to one name. -/
theorem Reachable.name_eq {registry : Registry σ} (reachable : Reachable registry)
    {left right : String} {id : Identifier} (ofLeft : registry.identifier? left = some id)
    (ofRight : registry.identifier? right = some id) : left = right := by
  rcases identifier?_eq_some ofLeft with ⟨leftRecord, leftKnown, rfl, leftId⟩
  rcases identifier?_eq_some ofRight with ⟨rightRecord, rightKnown, rfl, rightId⟩
  have same : leftRecord = rightRecord :=
    List.inj_on_of_nodup_map reachable.numbered.nodup leftKnown rightKnown
      (leftId.trans rightId.symm)
  rw [same]

/-! ## Ordered names have a place -/

/-- The places counted are enough for every ordered name. -/
def Placed (registry : Registry σ) : Prop :=
  ∀ id ∈ registry.ids, id.tag = 0 → id.raw ≤ registry.orderedCount

theorem Placed.edit {before after : Registry σ} (placed : Placed before)
    (edit : Edit before after) : Placed after := by
  cases edit with
  | newType tag label next unused => exact placed
  | newName type record raw known unused packed free =>
      have tagBound : type.tag.number < 256 := Nat.lt_of_le_of_lt type.tag.le (by decide)
      have typed := (Identifier.pack?_tag_raw tagBound packed).1
      intro id member ordered
      rw [ids_append] at member
      rcases List.mem_append.mp member with old | new
      · exact placed id old ordered
      · rw [List.mem_singleton.mp new, typed] at ordered
        exact absurd ordered (Nat.ne_of_gt type.tag.pos)
  | newOrdered record raw unused packed free =>
      have place := (Identifier.pack?_tag_raw (by decide) packed).2
      intro id member ordered
      rw [ids_append] at member
      rcases List.mem_append.mp member with old | new
      · exact Nat.le_trans (placed id old ordered) (Nat.le_max_left ..)
      · rw [List.mem_singleton.mp new, place]
        exact Nat.le_max_right ..
  | hookType tag hook => exact placed
  | hookRecord id hook =>
      intro other member ordered
      rw [ids_updateRecord] at member
      exact placed other member ordered

theorem Placed.edits {before after : Registry σ} (placed : Placed before)
    (edits : Relation.ReflTransGen Edit before after) : Placed after := by
  induction edits with
  | refl => exact placed
  | tail _ edit induction => exact induction.edit edit

theorem Reachable.placed {registry : Registry σ} (reachable : Reachable registry) :
    Placed registry := by
  induction reachable with
  | empty => simp [Placed, ids]
  | @step registry request _ placed =>
      exact placed.edits (Registration.carryOut_edits request registry)

end Registry

end NumericRules
