import NumericRules.Proofs.FailedRegistrations

/-! # The hooks of names

Hooks are given to identifiers, to names and to types. A name takes over the hooks that its
type has when it is registered, and a hook given to a type goes to all its names. In
whatever order this happens, a name has the hook that was given last to itself or to its
type.
-/

namespace NumericRules

/-! ## The last of several hooks -/

namespace Hook

def get? : Hook σ → Option (GetHook σ)
  | .get hook => some hook
  | .set _ => none

def set? : Hook σ → Option (SetHook σ)
  | .get _ => none
  | .set hook => some hook

/-- In each direction the hook is the last one of a list, and there is none if the list has
none. -/
structure Last (hooks : List (Hook σ)) (getHook : Option (GetHook σ))
    (setHook : Option (SetHook σ)) : Prop where
  get : getHook = (hooks.filterMap get?).getLast?
  set : setHook = (hooks.filterMap set?).getLast?

theorem Last.attach_record {hooks : List (Hook σ)} {record : NameRecord σ}
    (last : Last hooks record.getHook record.setHook) (hook : Hook σ) :
    Last (hooks ++ [hook]) (record.attach hook).getHook (record.attach hook).setHook := by
  constructor <;> cases hook <;> simp [NameRecord.attach, get?, set?, last.get, last.set]

theorem Last.attach_type {hooks : List (Hook σ)} {type : TypeRecord σ}
    (last : Last hooks type.getHook type.setHook) (hook : Hook σ) :
    Last (hooks ++ [hook]) (type.attach hook).getHook (type.attach hook).setHook := by
  constructor <;> cases hook <;> simp [TypeRecord.attach, get?, set?, last.get, last.set]

end Hook

theorem NameRecord.attach_again (record : NameRecord σ) (hook : Hook σ) :
    (record.attach hook).attach hook = record.attach hook := by
  cases hook <;> rfl

/-! ## What requests give -/

namespace RegistryRequest

/-- The hook that the request gives to the type with a label. -/
def typeHook? (label : String) : RegistryRequest σ → Option (Hook σ)
  | .hookType other hook => if other = label then some hook else none
  | _ => none

/-- The hook that the request gives to a name, to its identifier or to the type with its
label. -/
def hook? (id : Identifier) (name label : String) : RegistryRequest σ → Option (Hook σ)
  | .hookIdentifier other hook => if other = id then some hook else none
  | .hookName other hook => if other = name then some hook else none
  | .hookType other hook => if other = label then some hook else none
  | _ => none

/-- What the request gives a hook to is registered. -/
def Aimed (registry : Registry σ) : RegistryRequest σ → Prop
  | .hookIdentifier id _ => (registry.record? id).isSome = true
  | .hookName name _ => (registry.identifier? name).isSome = true
  | .hookType label _ => (registry.typeTag? label).isSome = true
  | _ => True

/-- The request is not about hooks. -/
def Plain : RegistryRequest σ → Prop
  | .addType .. | .addName .. | .addOrdered .. => True
  | .hookIdentifier .. | .hookName .. | .hookType .. => False

/-- What is registered stays registered. -/
theorem Aimed.keeps {request : RegistryRequest σ} {before after : Registry σ}
    (aimed : request.Aimed before) (keeps : before.Keeps after) : request.Aimed after := by
  cases request with
  | hookIdentifier id hook =>
      rcases Option.isSome_iff_exists.mp aimed with ⟨record, known⟩
      rcases keeps.record id record known with ⟨later, found, _⟩
      exact Option.isSome_iff_exists.mpr ⟨later, found⟩
  | hookName name hook =>
      rcases Option.isSome_iff_exists.mp aimed with ⟨id, known⟩
      exact Option.isSome_iff_exists.mpr ⟨id, keeps.identifier name id known⟩
  | hookType label hook =>
      rcases Option.isSome_iff_exists.mp aimed with ⟨tag, known⟩
      exact Option.isSome_iff_exists.mpr ⟨tag, keeps.typeTag label tag known⟩
  | addType | addName | addOrdered => trivial

end RegistryRequest

namespace Registry

open Registration

/-- The requests that succeed if all are carried out one after another. -/
def accepted (registry : Registry σ) : List (RegistryRequest σ) → List (RegistryRequest σ)
  | [] => []
  | request :: rest =>
      match request.carryOut.run registry with
      | (.ok _, after) => request :: after.accepted rest
      | (.error _, after) => after.accepted rest

/-- Types and names have the hooks that the requests gave to them last. -/
structure Hooked (requests : List (RegistryRequest σ)) (registry : Registry σ) : Prop where
  aimed : ∀ request ∈ requests, request.Aimed registry
  types : ∀ type ∈ registry.types,
    Hook.Last (requests.filterMap (·.typeHook? type.label)) type.getHook type.setHook
  records : ∀ record ∈ registry.records, ∀ type ∈ registry.types,
    record.id.tag = type.tag.number →
    Hook.Last (requests.filterMap (·.hook? record.id record.name type.label)) record.getHook
      record.setHook
  ordered : ∀ record ∈ registry.records, record.id.isOrdered = true →
    record.getHook = none ∧ record.setHook = none

namespace Hooked

variable {requests : List (RegistryRequest σ)} {registry : Registry σ}

theorem empty : Hooked [] ({} : Registry σ) := by
  constructor <;> simp

/-- A request that is not about hooks gives none. -/
theorem plain (hooked : Hooked requests registry) {request : RegistryRequest σ}
    (plain : request.Plain) : Hooked (requests ++ [request]) registry := by
  have nothing : request.Aimed registry ∧ (∀ label, request.typeHook? label = none) ∧
      ∀ id name label, request.hook? id name label = none := by
    cases request with
    | addType | addName | addOrdered =>
        exact ⟨trivial, fun _ => rfl, fun _ _ _ => rfl⟩
    | hookIdentifier | hookName | hookType => cases plain
  refine ⟨List.forall_mem_append.mpr ⟨hooked.aimed, List.forall_mem_singleton.mpr nothing.1⟩,
    fun type known => ?_, fun record known type typed tag => ?_, hooked.ordered⟩
  · simpa [nothing.2.1] using hooked.types type known
  · simpa [nothing.2.2] using hooked.records record known type typed tag

/-! ### New types and names -/

/-- No hook was given to a type that is not registered. -/
theorem typeHooks_nil (hooked : Hooked requests registry) {label : String}
    (unused : registry.typeLabelled? label = none) :
    requests.filterMap (·.typeHook? label) = [] := by
  refine List.filterMap_eq_nil_iff.mpr fun request member => ?_
  have aimed := hooked.aimed request member
  cases request with
  | hookType other hook =>
      refine if_neg fun same => ?_
      simp [RegistryRequest.Aimed, typeTag?, same, unused] at aimed
  | addType | addName | addOrdered | hookIdentifier | hookName => rfl

/-- A name that is not registered was given the hooks of its type. -/
theorem hooks_of_new (hooked : Hooked requests registry) {id : Identifier} {name : String}
    (unused : registry.recordNamed? name = none) (fresh : registry.record? id = none)
    (label : String) :
    requests.filterMap (·.hook? id name label) = requests.filterMap (·.typeHook? label) := by
  refine List.filterMap_congr fun request member => ?_
  have aimed := hooked.aimed request member
  cases request with
  | hookIdentifier other hook =>
      refine if_neg fun same => ?_
      simp [RegistryRequest.Aimed, same, fresh] at aimed
  | hookName other hook =>
      refine if_neg fun same => ?_
      simp [RegistryRequest.Aimed, identifier?, same, unused] at aimed
  | addType | addName | addOrdered | hookType => rfl

theorem aimed_of_edit (hooked : Hooked requests registry) {after : Registry σ}
    (edit : Edit registry after) : ∀ request ∈ requests, request.Aimed after :=
  fun request member => (hooked.aimed request member).keeps (.of_edit edit)

theorem newType (hooked : Hooked requests registry) (numbered : Numbered registry)
    {tag : TypeTag} {label : String} (next : tag.number = registry.types.length + 1)
    (unused : registry.typeLabelled? label = none) :
    Hooked requests { registry with types := registry.types ++ [{ tag, label }] } where
  aimed := hooked.aimed_of_edit (.newType registry tag label next unused)
  types type known := by
    rcases List.mem_append.mp known with old | new
    · exact hooked.types type old
    · rw [List.mem_singleton.mp new, hooked.typeHooks_nil unused]
      exact ⟨rfl, rfl⟩
  records record known type typed tagged := by
    rcases List.mem_append.mp typed with old | new
    · exact hooked.records record known type old tagged
    · -- no name has the tag of a type that is new
      have inUse := numbered.tagsInUse record.id (List.mem_map_of_mem known)
      rw [List.mem_singleton.mp new, next] at tagged
      omega
  ordered := hooked.ordered

theorem newName (hooked : Hooked requests registry) {type : TypeRecord σ}
    (record : NameRecord σ) {raw : Nat} (tallied : Tallied registry)
    (known : type ∈ registry.types) (unused : registry.recordNamed? record.name = none)
    (packed : Identifier.typed? type.tag raw = some record.id)
    (fresh : registry.record? record.id = none)
    (free : raw ∉ type.claimed ∨ raw = type.allocated + 1)
    (getHook : record.getHook = type.getHook) (setHook : record.setHook = type.setHook) :
    Hooked requests
      { registry.updateType type.tag (·.claim raw record.id) with
        records := registry.records ++ [record] } := by
  have tag := (Identifier.typed?_eq_some packed).1
  -- a type that gets a member keeps its tag, its label and its hooks
  have same {claimed : TypeRecord σ}
      (member : claimed ∈ (registry.updateType type.tag (·.claim raw record.id)).types) :
      ∃ old ∈ registry.types, claimed.tag = old.tag ∧ claimed.label = old.label ∧
        claimed.getHook = old.getHook ∧ claimed.setHook = old.setHook := by
    rcases mem_updateType member with ⟨old, known, ⟨_, rfl⟩ | ⟨_, rfl⟩⟩ <;>
      exact ⟨_, known, rfl, rfl, rfl, rfl⟩
  refine ⟨hooked.aimed_of_edit (.newName registry type record raw known unused packed free),
    ?_, ?_, ?_⟩
  · intro claimed member
    rcases same member with ⟨old, oldKnown, _, label, get, set⟩
    rw [label, get, set]
    exact hooked.types old oldKnown
  · intro other member claimed claimedMember tagged
    rcases same claimedMember with ⟨old, oldKnown, oldTag, label, _⟩
    rw [oldTag] at tagged
    rw [label]
    rcases List.mem_append.mp member with present | new
    · exact hooked.records other present old oldKnown tagged
    · rw [List.mem_singleton.mp new] at tagged ⊢
      cases tallied.type_eq oldKnown known (tagged.symm.trans tag)
      rw [hooked.hooks_of_new unused fresh, getHook, setHook]
      exact hooked.types _ known
  · intro other member ordered
    rcases List.mem_append.mp member with present | new
    · exact hooked.ordered other present ordered
    · rw [List.mem_singleton.mp new, Identifier.isOrdered_iff, tag] at ordered
      exact absurd ordered (Nat.ne_of_gt type.tag.pos)

theorem newOrdered (hooked : Hooked requests registry) {id : Identifier} {name : String}
    {bounds : Bounds} {raw : Nat} (unused : registry.recordNamed? name = none)
    (packed : Identifier.ordered? raw = some id) (free : registry.record? id = none) :
    Hooked requests
      { registry with
        orderedCount := max registry.orderedCount raw
        records := registry.records ++ [{ id, name, bounds }] } where
  aimed := hooked.aimed_of_edit
    (.newOrdered registry { id, name, bounds } raw unused packed free)
  types := hooked.types
  records record known type typed tagged := by
    rcases List.mem_append.mp known with old | new
    · exact hooked.records record old type typed tagged
    · rw [List.mem_singleton.mp new, (Identifier.ordered?_eq_some packed).1] at tagged
      exact absurd tagged (Nat.ne_of_lt type.tag.pos)
  ordered record known ordered := by
    rcases List.mem_append.mp known with old | new
    · exact hooked.ordered record old ordered
    · rw [List.mem_singleton.mp new]
      exact ⟨rfl, rfl⟩

/-! ### New hooks -/

/-- A request gives its hook to the records that it is for. -/
theorem attach (hooked : Hooked requests registry) {request : RegistryRequest σ}
    {hook : Hook σ} (isFor : NameRecord σ → Prop) [DecidablePred isFor] {after : Registry σ}
    (records : after.records = registry.records.map fun record =>
      if isFor record then record.attach hook else record)
    (aimed : ∀ other ∈ requests ++ [request], other.Aimed after)
    (types : ∀ type ∈ after.types, ∃ old ∈ registry.types,
      type.tag = old.tag ∧ type.label = old.label)
    (given : ∀ type ∈ after.types,
      Hook.Last ((requests ++ [request]).filterMap (·.typeHook? type.label)) type.getHook
        type.setHook)
    (typed : ∀ record ∈ registry.records, isFor record → record.id.isOrdered = false)
    (hooks : ∀ record ∈ registry.records, ∀ type ∈ registry.types,
      record.id.tag = type.tag.number →
      request.hook? record.id record.name type.label = if isFor record then some hook else none) :
    Hooked (requests ++ [request]) after := by
  refine ⟨aimed, given, fun changed member type known tag => ?_, fun changed member ordered => ?_⟩
  · rw [records] at member
    rcases List.mem_map.mp member with ⟨record, recorded, rfl⟩
    rcases types type known with ⟨old, oldKnown, sameTag, sameLabel⟩
    have sameId : (if isFor record then record.attach hook else record).id = record.id := by
      split <;> simp
    have sameName : (if isFor record then record.attach hook else record).name = record.name := by
      split <;> simp
    rw [sameId, sameTag] at tag
    have last := hooked.records record recorded old oldKnown tag
    have gives := hooks record recorded old oldKnown tag
    rw [sameId, sameName, sameLabel, List.filterMap_append]
    by_cases aim : isFor record
    · rw [if_pos aim] at gives ⊢
      simpa [gives] using last.attach_record hook
    · rw [if_neg aim] at gives ⊢
      simpa [gives] using last
  · rw [records] at member
    rcases List.mem_map.mp member with ⟨record, recorded, rfl⟩
    by_cases aim : isFor record
    · rw [if_pos aim, NameRecord.attach_id, typed record recorded aim] at ordered
      cases ordered
    · rw [if_neg aim] at ordered ⊢
      exact hooked.ordered record recorded ordered

end Hooked

/-! ### Each request -/

theorem attachToIdentifier_eq_ok {id : Identifier} {hook : Hook σ} {before after : Registry σ}
    (outcome : (attachToIdentifier id hook).run before = (.ok (), after)) :
    id.isOrdered = false ∧ (before.record? id).isSome = true ∧
      after = before.updateRecord id (·.attach hook) := by
  simp only [attachToIdentifier, run_bind, run_get] at outcome
  cases ordered : id.isOrdered with
  | true =>
      simp only [ordered, if_true] at outcome
      cases outcome
  | false =>
      simp only [ordered, Bool.false_eq_true, if_false] at outcome
      cases known : before.record? id with
      | none =>
          simp only [known] at outcome
          cases outcome
      | some record =>
          simp only [known] at outcome
          cases outcome
          exact ⟨rfl, rfl, rfl⟩

theorem attachToAll_eq_ok {ids : List Identifier} {hook : Hook σ} {before after : Registry σ}
    (outcome : (attachToAll hook ids).run before = (.ok (), after)) :
    after = { before with
      records := before.records.map fun record =>
        if record.id ∈ ids then record.attach hook else record } := by
  induction ids generalizing before with
  | nil =>
      cases outcome
      simp
  | cons id rest induction =>
      rcases run_bind_eq_ok outcome with ⟨_, between, first, others⟩
      rw [induction others, (attachToIdentifier_eq_ok first).2.2, updateRecord]
      simp only [List.map_map, Registry.mk.injEq, true_and, and_true]
      refine List.map_congr_left fun record _ => ?_
      -- attaching a hook twice is attaching it once
      by_cases isFirst : record.id = id
      · simp [isFirst, NameRecord.attach_again]
      · simp [isFirst]

theorem attachToName_eq_ok {name : String} {hook : Hook σ} {before after : Registry σ}
    (outcome : (attachToName name hook).run before = (.ok (), after)) :
    ∃ id, before.identifier? name = some id ∧
      (attachToIdentifier id hook).run before = (.ok (), after) := by
  simp only [attachToName, run_bind, run_get] at outcome
  cases named : before.identifier? name with
  | none =>
      simp only [named] at outcome
      cases outcome
  | some id => exact ⟨id, rfl, by simpa only [named] using outcome⟩

theorem attachToType_eq_ok {label : String} {hook : Hook σ} {before after : Registry σ}
    (outcome : (attachToType label hook).run before = (.ok (), after)) :
    ∃ type, before.typeLabelled? label = some type ∧
      after =
        { before.updateType type.tag (·.attach hook) with
          records := before.records.map fun record =>
            if record.id ∈ type.members then record.attach hook else record } := by
  simp only [attachToType, run_bind, run_get] at outcome
  cases labelled : before.typeLabelled? label with
  | none =>
      simp only [labelled] at outcome
      cases outcome
  | some type =>
      simp only [labelled] at outcome
      exact ⟨type, rfl, attachToAll_eq_ok outcome⟩

/-- What a request has given a hook to is registered. -/
theorem aimed_of_ok {request : RegistryRequest σ} {before after : Registry σ}
    (outcome : request.carryOut.run before = (.ok (), after)) : request.Aimed before := by
  cases request with
  | hookIdentifier id hook => exact (attachToIdentifier_eq_ok outcome).2.1
  | hookName name hook =>
      rcases attachToName_eq_ok outcome with ⟨id, named, _⟩
      exact Option.isSome_iff_exists.mpr ⟨id, named⟩
  | hookType label hook =>
      rcases attachToType_eq_ok outcome with ⟨type, labelled, _⟩
      simp [RegistryRequest.Aimed, typeTag?, labelled]
  | addType | addName | addOrdered => trivial

/-- A name and its identifier are of one record. -/
theorem Tallied.named_iff {registry : Registry σ} (tallied : Tallied registry)
    (numbered : Numbered registry) {record : NameRecord σ} (known : record ∈ registry.records)
    {name : String} {id : Identifier} (named : registry.identifier? name = some id) :
    name = record.name ↔ record.id = id := by
  constructor
  · rintro rfl
    rw [identifier?, tallied.recordNamed?_eq known] at named
    exact Option.some.inj named
  · rintro rfl
    rcases identifier?_eq_some named with ⟨other, otherKnown, rfl, id⟩
    rw [List.inj_on_of_nodup_map numbered.nodup otherKnown known id]

namespace Hooked

variable {requests : List (RegistryRequest σ)} {registry after : Registry σ}

theorem registerType (hooked : Hooked requests registry) (numbered : Numbered registry)
    {label : String} {type : TypeRecord σ}
    (outcome : (registerType label).run registry = (.ok type, after)) : Hooked requests after := by
  rcases registerType_run label registry with
    ⟨_, _, run⟩ | ⟨tag, label', next, unused, run⟩ | ⟨_, run⟩ <;> cases outcome.symm.trans run
  · exact hooked
  · exact hooked.newType numbered next unused

theorem registerName (hooked : Hooked requests registry) (tallied : Tallied registry)
    (numbered : Numbered registry) {label name : String} {asked : Nat} {cycle : Cycle}
    {bounds : Bounds} {id : Identifier}
    (outcome : (registerName label name asked cycle bounds).run registry = (.ok id, after)) :
    Hooked requests after := by
  rcases registerName_eq_ok outcome with
    ⟨unused, type, typed, raw, registered, chosen, packed, rfl⟩
  have edits := registerType_edits label registry
  rw [registered] at edits
  have records := registerType_records registered
  have free := chooseRaw_free chosen
  refine (hooked.registerType numbered registered).newName
    { id, name, cycle, bounds, getHook := type.getHook, setHook := type.setHook }
    (tallied.edits numbered edits) (registerType_mem registered) ?_ packed ?_ free rfl rfl
  · simpa only [recordNamed?, records] using unused
  · have fresh := (numbered.edits edits).fresh (registerType_mem registered) packed free
    simpa [record?, ids] using fresh

theorem hookIdentifier (hooked : Hooked requests registry) {id : Identifier} {hook : Hook σ}
    (outcome : (attachToIdentifier id hook).run registry = (.ok (), after))
    {request : RegistryRequest σ} (aimed : ∀ other ∈ requests ++ [request], other.Aimed after)
    (typeHook : ∀ label, request.typeHook? label = none)
    (given : ∀ record ∈ registry.records, ∀ label, request.hook? record.id record.name label =
      if record.id = id then some hook else none) :
    Hooked (requests ++ [request]) after := by
  rcases attachToIdentifier_eq_ok outcome with ⟨ordinary, _, rfl⟩
  refine hooked.attach (·.id = id) rfl aimed (fun type known => ⟨type, known, rfl, rfl⟩)
    ?_ ?_ fun record known type _ _ => given record known type.label
  · intro type known
    simpa [typeHook] using hooked.types type known
  · rintro record known rfl
    exact ordinary

theorem hookType (hooked : Hooked requests registry) (tallied : Tallied registry)
    {label : String} {hook : Hook σ}
    (outcome : (attachToType label hook).run registry = (.ok (), after))
    (aimed : ∀ other ∈ requests ++ [.hookType label hook], other.Aimed after) :
    Hooked (requests ++ [.hookType label hook]) after := by
  rcases attachToType_eq_ok outcome with ⟨type, labelled, rfl⟩
  have known := List.mem_of_find?_eq_some labelled
  have sameLabel : type.label = label := by simpa using List.find?_some labelled
  refine hooked.attach (·.id ∈ type.members) rfl aimed ?_ ?_ ?_ ?_
  · intro changed member
    rcases mem_updateType member with ⟨old, oldKnown, ⟨_, rfl⟩ | ⟨_, rfl⟩⟩
    · exact ⟨old, oldKnown, by simp, by simp⟩
    · exact ⟨changed, oldKnown, rfl, rfl⟩
  · intro changed member
    rcases mem_updateType member with ⟨old, oldKnown, ⟨same, rfl⟩ | ⟨different, rfl⟩⟩
    · have label : old.label = label := by
        rw [tallied.type_eq oldKnown known (congrArg TypeTag.number same), sameLabel]
      rw [TypeRecord.attach_label, List.filterMap_append]
      simpa [RegistryRequest.typeHook?, label] using (hooked.types old oldKnown).attach_type hook
    · have elsewhere : label ≠ changed.label := fun same => different (congrArg TypeRecord.tag
        (List.inj_on_of_nodup_map tallied.labels oldKnown known (same.symm.trans sameLabel.symm)))
      simpa [RegistryRequest.typeHook?, elsewhere] using hooked.types changed oldKnown
  · intro record recorded member
    exact (tallied.member_used known member).2
  · intro record recorded other otherKnown tag
    have same : label = other.label ↔ record.id ∈ type.members := by
      rw [tallied.members type known, List.mem_filter, tag, decide_eq_true_eq, ← sameLabel]
      constructor
      · intro label
        cases List.inj_on_of_nodup_map tallied.labels known otherKnown label
        exact ⟨List.mem_map_of_mem recorded, rfl⟩
      · rintro ⟨_, number⟩
        rw [tallied.type_eq otherKnown known number]
    simp [RegistryRequest.hook?, same]

/-- A request that succeeds gives its hook. -/
theorem carryOut (hooked : Hooked requests registry) (tallied : Tallied registry)
    (numbered : Numbered registry) {request : RegistryRequest σ}
    (outcome : request.carryOut.run registry = (.ok (), after)) :
    Hooked (requests ++ [request]) after := by
  have edits := carryOut_edits request registry
  rw [outcome] at edits
  have aimed : ∀ other ∈ requests ++ [request], other.Aimed registry :=
    List.forall_mem_append.mpr ⟨hooked.aimed, List.forall_mem_singleton.mpr (aimed_of_ok outcome)⟩
  have aimed (other : RegistryRequest σ) (member : other ∈ requests ++ [request]) :
      other.Aimed after := (aimed other member).keeps (.of_edits edits)
  cases request with
  | addType label =>
      rcases run_bind_eq_ok outcome with ⟨type, _, registered, finished⟩
      cases finished
      exact (hooked.registerType numbered registered).plain trivial
  | addName label name raw cycle bounds =>
      rcases run_bind_eq_ok outcome with ⟨id, _, registered, finished⟩
      cases finished
      exact (hooked.registerName tallied numbered registered).plain trivial
  | addOrdered name raw bounds =>
      rcases run_bind_eq_ok outcome with ⟨id, _, registered, finished⟩
      cases finished
      rcases registerOrdered_fresh registered with ⟨_, _, unused, packed, free, rfl⟩
      exact (hooked.newOrdered unused packed free).plain trivial
  | hookIdentifier id hook =>
      refine hooked.hookIdentifier outcome aimed (fun _ => rfl) fun record known label => ?_
      simp [RegistryRequest.hook?, eq_comm]
  | hookName name hook =>
      rcases attachToName_eq_ok outcome with ⟨id, named, attached⟩
      refine hooked.hookIdentifier attached aimed (fun _ => rfl) fun record known label => ?_
      simp [RegistryRequest.hook?, tallied.named_iff numbered known named]
  | hookType label hook => exact hooked.hookType tallied outcome aimed

/-- Requests that fail leave the hooks as they are. -/
theorem following (hooked : Hooked requests registry) (reachable : Reachable registry)
    (more : List (RegistryRequest σ)) :
    Hooked (requests ++ registry.accepted more) (registry.following more) := by
  induction more generalizing requests registry with
  | nil => simpa [accepted, Registry.following] using hooked
  | cons request rest induction =>
      have step := Reachable.step request reachable
      rcases outcome : request.carryOut.run registry with ⟨fault | _, after⟩
      · cases carryOut_error reachable.tallied outcome
        simpa [accepted, Registry.following, outcome] using induction hooked reachable
      · rw [outcome] at step
        have next := hooked.carryOut reachable.tallied reachable.numbered outcome
        simpa [accepted, Registry.following, outcome] using induction next step

end Hooked

/-! ## All histories of registrations -/

theorem Tallied.typeLabel?_eq_some {registry : Registry σ} (tallied : Tallied registry)
    {id : Identifier} {label : String} :
    registry.typeLabel? id = some label ↔
      ∃ type ∈ registry.types, id.tag = type.tag.number ∧ type.label = label := by
  constructor
  · intro labelled
    rcases Option.bind_eq_some_iff.mp labelled with ⟨tag, tagged, found⟩
    rcases Option.bind_eq_some_iff.mp found with ⟨type, typed, same⟩
    have number : type.tag = tag := by simpa using List.find?_some typed
    exact ⟨type, List.mem_of_find?_eq_some typed,
      number ▸ Identifier.typeTag?_eq_some.mp tagged, Option.some.inj same⟩
  · rintro ⟨type, known, tag, rfl⟩
    simp [typeLabel?, Identifier.typeTag?_eq_some.mpr tag, tallied.type?_eq known]

/-- A hook for other records changes a record not at all. -/
theorem mem_map_attach {records : List (NameRecord σ)} {record : NameRecord σ}
    (known : record ∈ records) (isFor : NameRecord σ → Prop) [DecidablePred isFor]
    (other : ¬ isFor record) (hook : Hook σ) :
    record ∈ records.map fun record => if isFor record then record.attach hook else record :=
  List.mem_map.mpr ⟨record, known, if_neg other⟩

/-- A record that a request gives no hook stays as it is. -/
theorem Tallied.record_kept {registry : Registry σ} (tallied : Tallied registry)
    (numbered : Numbered registry) {request : RegistryRequest σ} {record : NameRecord σ}
    (known : record ∈ registry.records)
    (nothing : ∀ label, registry.typeLabel? record.id = some label →
      request.hook? record.id record.name label = none) :
    record ∈ (request.carryOut.run registry).2.records := by
  have labelled (ordinary : record.id.isOrdered = false) :
      ∃ label, registry.typeLabel? record.id = some label := by
    rcases tallied.type_of_id numbered (List.mem_map_of_mem known) ordinary with ⟨type, typed, tag⟩
    exact ⟨type.label, tallied.typeLabel?_eq_some.mpr ⟨type, typed, tag, rfl⟩⟩
  rcases outcome : request.carryOut.run registry with ⟨fault | _, after⟩
  · rw [carryOut_error tallied outcome]
    exact known
  cases request with
  | addType label =>
      rcases run_bind_eq_ok outcome with ⟨type, _, registered, finished⟩
      cases finished
      simpa only [registerType_records registered] using known
  | addName label name raw cycle bounds =>
      rcases run_bind_eq_ok outcome with ⟨id, _, registered, finished⟩
      cases finished
      rcases registerName_eq_ok registered with ⟨_, type, typed, raw, ofType, _, _, rfl⟩
      exact List.mem_append_left _ (registerType_records ofType ▸ known)
  | addOrdered name raw bounds =>
      rcases run_bind_eq_ok outcome with ⟨id, _, registered, finished⟩
      cases finished
      rcases registerOrdered_fresh registered with ⟨_, _, _, _, _, rfl⟩
      exact List.mem_append_left _ known
  | hookIdentifier id hook =>
      rcases attachToIdentifier_eq_ok outcome with ⟨ordinary, _, rfl⟩
      refine mem_map_attach known (·.id = id) (fun same => ?_) hook
      rcases labelled (same ▸ ordinary) with ⟨label, ofType⟩
      simpa [RegistryRequest.hook?, same] using nothing label ofType
  | hookName name hook =>
      rcases attachToName_eq_ok outcome with ⟨id, named, attached⟩
      rcases attachToIdentifier_eq_ok attached with ⟨ordinary, _, rfl⟩
      refine mem_map_attach known (·.id = id) (fun same => ?_) hook
      rcases labelled (same ▸ ordinary) with ⟨label, ofType⟩
      simpa [RegistryRequest.hook?, (tallied.named_iff numbered known named).mpr same] using
        nothing label ofType
  | hookType label hook =>
      rcases attachToType_eq_ok outcome with ⟨type, found, rfl⟩
      have typed := List.mem_of_find?_eq_some found
      refine mem_map_attach known (·.id ∈ type.members) (fun member => ?_) hook
      rw [tallied.members type typed, List.mem_filter, decide_eq_true_eq] at member
      have sameLabel : type.label = label := by simpa using List.find?_some found
      have ofType := tallied.typeLabel?_eq_some.mpr ⟨type, typed, member.2, sameLabel⟩
      simpa [RegistryRequest.hook?] using nothing label ofType

/-- The last hook given counts. After any requests, whether they succeed or fail, a name
of a type has in each direction the hook that was given last to its identifier, to itself
or to its type, before or after it was registered, and it has none if none was given. A
request changes no other name, and ordered names have no hooks. -/
theorem hooks_ofRequests (requests : List (RegistryRequest σ)) :
    (∀ record ∈ (ofRequests requests).records, record.id.isOrdered = false →
      ∃ label, (ofRequests requests).typeLabel? record.id = some label ∧
        Hook.Last
          ((accepted {} requests).filterMap (·.hook? record.id record.name label))
          record.getHook record.setHook) ∧
    (∀ record ∈ (ofRequests requests).records, record.id.isOrdered = true →
      record.getHook = none ∧ record.setHook = none) ∧
    ∀ (request : RegistryRequest σ), ∀ record ∈ (ofRequests requests).records,
      (∀ label, (ofRequests requests).typeLabel? record.id = some label →
        request.hook? record.id record.name label = none) →
      record ∈ (request.carryOut.run (ofRequests requests)).2.records := by
  have reachable := reachable_ofRequests requests
  have hooked : Hooked (accepted {} requests) (ofRequests requests) :=
    Hooked.empty.following .empty requests
  refine ⟨fun record known ordinary => ?_, hooked.ordered,
    fun request record known none => reachable.tallied.record_kept reachable.numbered known none⟩
  rcases reachable.tallied.type_of_id reachable.numbered (List.mem_map_of_mem known) ordinary with
    ⟨type, typed, tag⟩
  exact ⟨type.label, reachable.tallied.typeLabel?_eq_some.mpr ⟨type, typed, tag, rfl⟩,
    hooked.records record known type typed tag⟩

/-- Hooks are given to a type before and after the name "b" is registered, and to the name
itself in between. Those for an unknown type and for an ordered name are refused. -/
def hookedByTurns : List (RegistryRequest Unit) :=
  [.addName "t" "a" 2 .temporary {}, .hookType "t" (.get Engine.constantHook),
    .addName "t" "b" 1 .temporary {}, .hookName "b" (.get Engine.textHook),
    .hookType "t" (.set fun _ _ operand => .finish (.ok operand)),
    .hookType "u" (.get Engine.constantHook), .addName "u" "c" 0 .temporary {},
    .addOrdered "o" 0 {}, .hookName "o" (.get Engine.constantHook)]

theorem hooks_ofRequests_byTurns :
    ∃ record ∈ (ofRequests hookedByTurns).records, record.name = "b" ∧
      record.getHook = some Engine.textHook ∧ record.setHook.isSome = true := by
  have found : ((ofRequests hookedByTurns).recordNamed? "b").map
      (fun record => (record.id, record.name)) =
        some (⟨0x1000001, Nat.one_ne_zero⟩, "b") := by decide +kernel
  rcases Option.map_eq_some_iff.mp found with ⟨record, named, same⟩
  have known := List.mem_of_find?_eq_some named
  rcases Prod.mk.inj same with ⟨id, name⟩
  have ordinary : record.id.isOrdered = false := by
    rw [id]
    decide
  have label : (ofRequests hookedByTurns).typeLabel? record.id = some "t" := by
    rw [id]
    decide +kernel
  rcases (hooks_ofRequests hookedByTurns).1 record known ordinary with ⟨_, labelled, last⟩
  cases label.symm.trans labelled
  rw [id, name] at last
  refine ⟨record, known, name, last.get, ?_⟩
  rw [last.set]
  rfl

end Registry

end NumericRules
