import NumericRules.Proofs.FailedRegistrations
import Mathlib.Logic.Function.Basic

/-! # A registry as tables

The same requests on a registry that keeps one table for each way of looking up:
types by their place, tags by labels, identifiers by names and records by
identifiers. A name is entered in two of them, and a new label in one beside the
list of types, so that here an entry could be missed or overwritten. After every
history the tables answer what the registry answers, a request that fails leaves
none of its entries behind, and no request ever asks for a type at a place that
the list does not have.
-/

namespace NumericRules

structure RegistryTables (σ : Type) where
  types : List (TypeRecord σ) := []
  tagByLabel : String → Option TypeTag := fun _ => none
  idByName : String → Option Identifier := fun _ => none
  records : Identifier → Option (NameRecord σ) := fun _ => none
  orderedCount : Nat := 0

namespace RegistryTables

/-- A request on the tables. It has no outcome where it asks for a type at a place
that the list does not have. -/
abbrev Action (σ α : Type) := ExceptT RegistrationFault (StateT (RegistryTables σ) Option) α

/-! ## The requests -/

def typeAt (tag : TypeTag) : Action σ (TypeRecord σ) := fun tables =>
  tables.types[tag.number - 1]?.map fun type => (.ok type, tables)

def modifyType (tag : TypeTag) (change : TypeRecord σ → TypeRecord σ) : Action σ Unit :=
  modify fun tables => { tables with types := tables.types.modify (tag.number - 1) change }

/-- Enter a name in both of its tables. -/
def insert (record : NameRecord σ) : Action σ Unit := do
  modify fun tables =>
    { tables with idByName := Function.update tables.idByName record.name (some record.id) }
  modify fun tables =>
    { tables with records := Function.update tables.records record.id (some record) }

def requireNew (name : String) : Action σ Unit := do
  let tables ← get
  if name.isEmpty then throw .emptyName
  if (tables.idByName name).isSome then throw (.nameTaken name)

def registerType (label : String) : Action σ TypeTag := do
  let label := if label.isEmpty then Registry.defaultLabel else label
  let tables ← get
  match tables.tagByLabel label with
  | some tag => pure tag
  | none =>
      if room : tables.types.length < maxTypes then
        let tag : TypeTag := ⟨tables.types.length + 1, by omega, by omega⟩
        modify fun tables => { tables with types := tables.types ++ [{ tag, label }] }
        modify fun tables =>
          { tables with tagByLabel := Function.update tables.tagByLabel label (some tag) }
        pure tag
      else throw (.tooManyTypes label)

def claimName (tag : TypeTag) (name : String) (asked : Nat) (cycle : Cycle) (bounds : Bounds) :
    Action σ Identifier := do
  let type ← typeAt tag
  match Registry.chooseRaw type name asked with
  | .error fault => throw fault
  | .ok raw =>
      modifyType tag (·.allocate raw)
      match Identifier.typed? tag raw with
      | none => throw (.rawTooGreat raw name)
      | some id =>
          modifyType tag (·.addMember raw id)
          insert { id, name, cycle, bounds, getHook := type.getHook, setHook := type.setHook }
          pure id

def registerName (label name : String) (raw : Nat) (cycle : Cycle) (bounds : Bounds) :
    Action σ Identifier := do
  requireNew name
  if maxRaw < raw then throw (.rawTooGreat raw name)
  let tag ← registerType label
  claimName tag name raw cycle bounds

def registerOrdered (name : String) (raw : Nat) (bounds : Bounds) : Action σ Identifier := do
  let tables ← get
  if raw = 0 ∧ maxRaw ≤ tables.orderedCount then throw (.orderedFull name)
  requireNew name
  let raw := if raw = 0 then tables.orderedCount + 1 else raw
  match Identifier.ordered? raw with
  | none => throw (.orderedOutOfRange raw name)
  | some id =>
      if (tables.records id).isSome then throw (.orderedTaken raw name)
      modify fun tables => { tables with orderedCount := max tables.orderedCount raw }
      insert { id, name, bounds }
      pure id

def attachToIdentifier (id : Identifier) (hook : Hook σ) : Action σ Unit := do
  let tables ← get
  if id.isOrdered then throw (.orderedHook (((tables.records id).map (·.name)).getD "?"))
  match tables.records id with
  | none => throw (.unknownIdentifier id)
  | some record =>
      set { tables with records := Function.update tables.records id (some (record.attach hook)) }

def attachToName (name : String) (hook : Hook σ) : Action σ Unit := do
  match (← get).idByName name with
  | some id => attachToIdentifier id hook
  | none => throw (.unknownName name)

def attachToAll (hook : Hook σ) : List Identifier → Action σ Unit
  | [] => pure ()
  | id :: rest => do
      attachToIdentifier id hook
      attachToAll hook rest

def attachToType (label : String) (hook : Hook σ) : Action σ Unit := do
  match (← get).tagByLabel label with
  | none => throw (.unknownType label)
  | some tag =>
      modifyType tag (·.attach hook)
      let type ← typeAt tag
      attachToAll hook type.members

def carryOut : RegistryRequest σ → Action σ Unit
  | .addType label => do let _ ← registerType label
  | .addName label name raw cycle bounds => do let _ ← registerName label name raw cycle bounds
  | .addOrdered name raw bounds => do let _ ← registerOrdered name raw bounds
  | .hookIdentifier id hook => attachToIdentifier id hook
  | .hookName name hook => attachToName name hook
  | .hookType label hook => attachToType label hook

/-- The tables that requests lead to, one after another, if each has an outcome. -/
def following (tables : RegistryTables σ) : List (RegistryRequest σ) → Option (RegistryTables σ)
  | [] => some tables
  | request :: rest =>
      ((carryOut request).run tables).bind fun outcome => outcome.2.following rest

/-! ## Running a request -/

theorem run_bind_ok {action : Action σ α} {next : α → Action σ β} {before after : RegistryTables σ}
    {value : α} (ran : action.run before = some (.ok value, after)) :
    (action >>= next).run before = (next value).run after := by
  rw [ExceptT.run_bind]
  exact congrArg (Option.bind · _) ran

theorem run_bind_error {action : Action σ α} {next : α → Action σ β}
    {before after : RegistryTables σ} {fault : RegistrationFault}
    (ran : action.run before = some (.error fault, after)) :
    (action >>= next).run before = some (.error fault, after) := by
  rw [ExceptT.run_bind]
  exact congrArg (Option.bind · _) ran

end RegistryTables

namespace Registry

open RegistryTables

/-- What a registry answers, each way of looking up as a table. -/
def tables (registry : Registry σ) : RegistryTables σ where
  types := registry.types
  tagByLabel := registry.typeTag?
  idByName := registry.identifier?
  records := registry.record?
  orderedCount := registry.orderedCount

/-! ## Entries in the tables -/

/-- An entry at the end of a list is one more entry of the table, where its key was not in
use. -/
theorem find?_concat_eq_update [DecidableEq κ] (key : α → κ) (value : α → ν) {entries : List α}
    {entry : α} (unused : entries.find? (key · == key entry) = none) :
    (fun wanted => ((entries ++ [entry]).find? (key · == wanted)).map value) =
      Function.update (fun wanted => (entries.find? (key · == wanted)).map value) (key entry)
        (some (value entry)) := by
  funext wanted
  by_cases same : wanted = key entry
  · subst same
    simp [unused]
  · simp [Function.update_of_ne same, Ne.symm same]

theorem tables_newType (registry : Registry σ) (type : TypeRecord σ)
    (unused : registry.typeLabelled? type.label = none) :
    tables { registry with types := registry.types ++ [type] } =
      { registry.tables with
        types := registry.types ++ [type]
        tagByLabel := Function.update registry.tables.tagByLabel type.label (some type.tag) } := by
  have entered := find?_concat_eq_update TypeRecord.label TypeRecord.tag unused
  exact congrArg
    (fun tagByLabel =>
      { registry.tables with types := registry.types ++ [type], tagByLabel }) entered

theorem tables_newRecord (registry : Registry σ) (record : NameRecord σ)
    (unused : registry.recordNamed? record.name = none)
    (free : registry.record? record.id = none) :
    tables { registry with records := registry.records ++ [record] } =
      { registry.tables with
        idByName := Function.update registry.tables.idByName record.name (some record.id)
        records := Function.update registry.tables.records record.id (some record) } := by
  have named := find?_concat_eq_update NameRecord.name NameRecord.id unused
  have recorded := find?_concat_eq_update (NameRecord.id (σ := σ)) (fun record => record) free
  simp only [Option.map_id_fun', id] at recorded
  exact congrArg₂ (fun idByName records => { registry.tables with idByName, records }) named
    recorded

/-- Types stand in the order of their tags. -/
theorem Tallied.number_eq {registry : Registry σ} (tallied : Tallied registry) {index : Nat}
    {type : TypeRecord σ} (placed : registry.types[index]? = some type) :
    type.tag.number = index + 1 := by
  rcases List.getElem?_eq_some_iff.mp placed with ⟨inside, rfl⟩
  have counted := congrArg (·[index]?) tallied.numbers
  simpa [inside, Nat.add_comm] using counted

theorem Tallied.getElem?_types {registry : Registry σ} (tallied : Tallied registry)
    {type : TypeRecord σ} (known : type ∈ registry.types) :
    registry.types[type.tag.number - 1]? = some type := by
  rcases List.getElem?_of_mem known with ⟨index, placed⟩
  rw [tallied.number_eq placed, Nat.add_sub_cancel]
  exact placed

theorem Tallied.typeAt_run {registry : Registry σ} (tallied : Tallied registry)
    {type : TypeRecord σ} (known : type ∈ registry.types) :
    (typeAt type.tag).run registry.tables = some (.ok type, registry.tables) :=
  congrArg (Option.map _) (tallied.getElem?_types known)

/-- The type with a tag is the one at its place. -/
theorem Tallied.types_updateType {registry : Registry σ} (tallied : Tallied registry)
    (tag : TypeTag) (change : TypeRecord σ → TypeRecord σ) :
    (registry.updateType tag change).types = registry.types.modify (tag.number - 1) change := by
  refine List.ext_getElem? fun index => ?_
  rw [List.getElem?_modify, updateType, List.getElem?_map]
  cases placed : registry.types[index]? with
  | none => rfl
  | some type =>
      have number := tallied.number_eq placed
      have pos := tag.pos
      by_cases same : type.tag = tag
      · have here : tag.number - 1 = index := by rw [← same]; omega
        simp [same, here]
      · have elsewhere : tag.number - 1 ≠ index := fun here =>
          same (TypeTag.eq_of_number (by omega))
        simp [same, elsewhere]

theorem Tallied.tables_updateType {registry : Registry σ} (tallied : Tallied registry)
    (tag : TypeTag) {change : TypeRecord σ → TypeRecord σ}
    (tags : ∀ type, (change type).tag = type.tag)
    (labels : ∀ type, (change type).label = type.label) :
    (registry.updateType tag change).tables =
      { registry.tables with types := registry.types.modify (tag.number - 1) change } := by
  have labelled := funext (typeTag?_updateType registry tag change tags labels)
  exact congrArg₂ (fun types tagByLabel => { registry.tables with types, tagByLabel })
    (tallied.types_updateType tag change) labelled

/-- A name of a type is counted by its type and entered in two tables. -/
theorem Tallied.tables_newName {registry : Registry σ} (tallied : Tallied registry)
    (tag : TypeTag) (raw : Nat) (record : NameRecord σ)
    (unused : registry.recordNamed? record.name = none)
    (free : registry.record? record.id = none) :
    tables
        { registry.updateType tag (·.claim raw record.id) with
          records := registry.records ++ [record] } =
      { registry.tables with
        types := (registry.types.modify (tag.number - 1) (·.allocate raw)).modify (tag.number - 1)
          (·.addMember raw record.id)
        idByName := Function.update registry.tables.idByName record.name (some record.id)
        records := Function.update registry.tables.records record.id (some record) } := by
  have counted : (registry.updateType tag (·.claim raw record.id)).tables =
      { registry.tables with
        types := registry.types.modify (tag.number - 1) (·.claim raw record.id) } :=
    tallied.tables_updateType tag (fun _ => rfl) fun _ => rfl
  have entered :=
    tables_newRecord (registry.updateType tag (·.claim raw record.id)) record unused free
  refine entered.trans ?_
  rw [counted, List.modify_modify_eq]
  rfl

/-! ## The same course -/

/-- A request on the tables does what a registration does: it has an outcome, with
the same fault or an answer that corresponds, and leaves the tables of the
registry that the registration leaves. -/
def Mirrored (registry : Registry σ) (answer : α → β) (registration : Registration σ α)
    (action : Action σ β) : Prop :=
  action.run registry.tables =
    some ((registration.run registry).1.map answer, (registration.run registry).2.tables)

theorem Mirrored.bind {registry : Registry σ} {first : α → β} {second : γ → δ}
    {registration : Registration σ α} {next : α → Registration σ γ} {action : Action σ β}
    {follow : β → Action σ δ} (mirrored : Mirrored registry first registration action)
    (rest : ∀ value after, registration.run registry = (.ok value, after) →
      Mirrored after second (next value) (follow (first value))) :
    Mirrored registry second (registration >>= next) (action >>= follow) := by
  unfold Mirrored at mirrored
  rw [Mirrored, Registration.run_bind]
  rcases outcome : registration.run registry with ⟨fault | value, after⟩
  · rw [outcome] at mirrored
    exact run_bind_error mirrored
  · rw [outcome] at mirrored
    exact (run_bind_ok mirrored).trans (rest value after outcome)

/-- A request that succeeds leaves the tables of the registry that the registration leaves. -/
theorem Mirrored.of_ok {registry after : Registry σ} {reached : RegistryTables σ} {answer : α → β}
    {value : α} {registration : Registration σ α} {action : Action σ β}
    (registered : registration.run registry = (.ok value, after))
    (acted : action.run registry.tables = some (.ok (answer value), reached))
    (same : after.tables = reached) : Mirrored registry answer registration action := by
  rw [Mirrored, registered, acted, same]
  rfl

/-- A request may look at everything there is. -/
theorem Mirrored.look {registry : Registry σ} {answer : α → β}
    {next : Registry σ → Registration σ α} {follow : RegistryTables σ → Action σ β}
    (mirrored : Mirrored registry answer (next registry) (follow registry.tables)) :
    Mirrored registry answer (get >>= next) (get >>= follow) :=
  mirrored

/-! ### Types and names -/

theorem requireNew_mirrored (registry : Registry σ) (name : String) :
    Mirrored registry id (Registry.requireNew name) (RegistryTables.requireNew name) := by
  have taken : (registry.tables.idByName name).isSome = (registry.recordNamed? name).isSome :=
    Option.isSome_map
  refine .look ?_
  simp only [taken]
  by_cases empty : name.isEmpty
  · simp only [if_pos empty]
    rfl
  · simp only [if_neg empty]
    by_cases used : (registry.recordNamed? name).isSome
    · simp only [if_pos used]
      rfl
    · simp only [if_neg used]
      rfl

theorem registerType_mirrored (registry : Registry σ) (label : String) :
    Mirrored registry (·.tag) (Registry.registerType label)
      (RegistryTables.registerType label) := by
  unfold Registry.registerType RegistryTables.registerType
  generalize (if label.isEmpty = true then defaultLabel else label) = label
  refine .look ?_
  have found : registry.tables.tagByLabel label = (registry.typeLabelled? label).map (·.tag) := rfl
  rw [found]
  cases labelled : registry.typeLabelled? label with
  | some type => rfl
  | none =>
      by_cases room : registry.types.length < maxTypes
      · have space : registry.tables.types.length < maxTypes := room
        let type : TypeRecord σ :=
          { tag := ⟨registry.types.length + 1, by omega, by omega⟩, label }
        simp only [Option.map_none, dif_pos room, dif_pos space]
        exact .of_ok rfl rfl (tables_newType registry type labelled)
      · have full : ¬ registry.tables.types.length < maxTypes := room
        simp only [Option.map_none, dif_neg room, dif_neg full]
        rfl

theorem claimName_mirrored {registry : Registry σ} (tallied : Tallied registry)
    (numbered : Numbered registry) {type : TypeRecord σ} (known : type ∈ registry.types)
    {name : String} (unused : registry.recordNamed? name = none) {asked : Nat}
    (small : asked ≤ maxRaw) (cycle : Cycle) (bounds : Bounds) :
    Mirrored registry id (Registry.claimName type name asked cycle bounds)
      (RegistryTables.claimName type.tag name asked cycle bounds) := by
  have placed := tallied.typeAt_run known
  rcases Registration.claimName_run small type name cycle bounds registry with
    ⟨fault, chosen, run⟩ | ⟨raw, id, chosen, packed, run⟩
  · rw [Mirrored, RegistryTables.claimName, run_bind_ok placed, chosen, run]
    rfl
  · let record : NameRecord σ :=
      { id, name, cycle, bounds, getHook := type.getHook, setHook := type.setHook }
    have free : registry.record? id = none := by
      simpa [record?, ids] using numbered.fresh known packed (Registration.chooseRaw_free chosen)
    refine .of_ok run ?_ (tallied.tables_newName type.tag raw record unused free)
    rw [RegistryTables.claimName, run_bind_ok placed, chosen]
    simp only [packed]
    rfl

theorem registerName_mirrored {registry : Registry σ} (reachable : Reachable registry)
    (label name : String) (asked : Nat) (cycle : Cycle) (bounds : Bounds) :
    Mirrored registry id (Registry.registerName label name asked cycle bounds)
      (RegistryTables.registerName label name asked cycle bounds) := by
  refine (requireNew_mirrored registry name).bind fun _ checked new => ?_
  rcases Registration.requireNew_unused new with ⟨rfl, unused⟩
  by_cases tooGreat : maxRaw < asked
  · simp only [if_pos tooGreat]
    rfl
  simp only [if_neg tooGreat]
  refine (registerType_mirrored checked label).bind fun type typed registered => ?_
  have typedReachable : Reachable typed := by
    have step := Reachable.step (.addType label) reachable
    rwa [RegistryRequest.carryOut, Registration.run_bind, registered] at step
  have stillUnused : typed.recordNamed? name = none := by
    simpa only [recordNamed?, Registration.registerType_records registered] using unused
  exact claimName_mirrored typedReachable.tallied typedReachable.numbered
    (Registration.registerType_mem registered) stillUnused (Nat.le_of_not_lt tooGreat) cycle bounds

theorem registerOrdered_mirrored (registry : Registry σ) (name : String) (asked : Nat)
    (bounds : Bounds) :
    Mirrored registry id (Registry.registerOrdered name asked bounds)
      (RegistryTables.registerOrdered name asked bounds) := by
  refine .look ?_
  have counted : registry.tables.orderedCount = registry.orderedCount := rfl
  rw [counted]
  by_cases full : asked = 0 ∧ maxRaw ≤ registry.orderedCount
  · simp only [if_pos full]
    rfl
  simp only [if_neg full]
  refine (requireNew_mirrored registry name).bind fun _ checked new => ?_
  rcases Registration.requireNew_unused new with ⟨rfl, unused⟩
  generalize (if asked = 0 then checked.orderedCount + 1 else asked) = place
  cases Identifier.ordered? place with
  | none => rfl
  | some id =>
      have looked : checked.tables.records id = checked.record? id := rfl
      simp only [looked]
      by_cases taken : (checked.record? id).isSome
      · simp only [if_pos taken]
        rfl
      · simp only [if_neg taken]
        let counting := { checked with orderedCount := max checked.orderedCount place }
        let record : NameRecord σ := { id, name, bounds }
        have free : counting.record? id = none := Option.not_isSome_iff_eq_none.mp taken
        exact .of_ok rfl rfl (tables_newRecord counting record unused free)

/-! ### Hooks -/

theorem tables_attach (registry : Registry σ) {id : Identifier} {record : NameRecord σ}
    (known : registry.record? id = some record) (hook : Hook σ) :
    (registry.updateRecord id (·.attach hook)).tables =
      { registry.tables with
        records := Function.update registry.tables.records id (some (record.attach hook)) } := by
  have named : (registry.updateRecord id (·.attach hook)).identifier? = registry.identifier? := by
    funext name
    rw [identifier?, recordNamed?, find?_updateRecord registry id hook fun _ => by simp,
      Option.map_map]
    refine congrArg (Option.map · (registry.recordNamed? name)) (funext fun record => ?_)
    simp only [Function.comp]
    split <;> simp
  have recorded : (registry.updateRecord id (·.attach hook)).record? =
      Function.update registry.record? id (some (record.attach hook)) := by
    funext wanted
    rw [record?, find?_updateRecord registry id hook fun _ => by simp]
    change (registry.record? wanted).map _ = _
    by_cases same : wanted = id
    · subst same
      simp [known, (record?_eq_some known).2]
    · rw [Function.update_of_ne same]
      cases found : registry.record? wanted with
      | none => rfl
      | some other => simp [(record?_eq_some found).2, same]
  exact congrArg₂ (fun idByName records => { registry.tables with idByName, records }) named
    recorded

theorem attachToIdentifier_mirrored (registry : Registry σ) (id : Identifier) (hook : Hook σ) :
    Mirrored registry (fun _ => ()) (Registry.attachToIdentifier id hook)
      (RegistryTables.attachToIdentifier id hook) := by
  refine .look ?_
  by_cases ordered : id.isOrdered
  · simp only [if_pos ordered]
    rfl
  simp only [if_neg ordered]
  have looked : registry.tables.records id = registry.record? id := rfl
  rw [looked]
  cases known : registry.record? id with
  | none => rfl
  | some record => exact .of_ok rfl rfl (tables_attach registry known hook)

theorem attachToName_mirrored (registry : Registry σ) (name : String) (hook : Hook σ) :
    Mirrored registry (fun _ => ()) (Registry.attachToName name hook)
      (RegistryTables.attachToName name hook) := by
  refine .look ?_
  have looked : registry.tables.idByName name = registry.identifier? name := rfl
  rw [looked]
  cases registry.identifier? name with
  | none => rfl
  | some id => exact attachToIdentifier_mirrored registry id hook

theorem attachToAll_mirrored (hook : Hook σ) (ids : List Identifier) (registry : Registry σ) :
    Mirrored registry (fun _ => ()) (Registry.attachToAll hook ids)
      (RegistryTables.attachToAll hook ids) := by
  induction ids generalizing registry with
  | nil => rfl
  | cons id rest induction =>
      exact (attachToIdentifier_mirrored registry id hook).bind fun _ after _ => induction after

theorem attachToType_mirrored {registry : Registry σ} (tallied : Tallied registry)
    (label : String) (hook : Hook σ) :
    Mirrored registry (fun _ => ()) (Registry.attachToType label hook)
      (RegistryTables.attachToType label hook) := by
  refine .look ?_
  have looked : registry.tables.tagByLabel label = (registry.typeLabelled? label).map (·.tag) := rfl
  rw [looked]
  cases labelled : registry.typeLabelled? label with
  | none => rfl
  | some type =>
      let hooked := registry.updateType type.tag (·.attach hook)
      have changed : hooked.tables = _ := tallied.tables_updateType type.tag
        (fun type => type.attach_tag hook) fun type => type.attach_label hook
      have known : type ∈ registry.types := List.mem_of_find?_eq_some labelled
      have member : type.attach hook ∈ hooked.types :=
        List.mem_map.mpr ⟨type, known, if_pos rfl⟩
      have placed := (tallied.hookType type.tag hook).typeAt_run member
      rw [type.attach_tag] at placed
      have attached : Mirrored registry id
          (modify fun registry => registry.updateType type.tag (·.attach hook))
          (modifyType type.tag (·.attach hook)) := .of_ok rfl rfl changed
      refine attached.bind fun _ after ran => ?_
      cases ran
      refine (run_bind_ok placed).trans ?_
      rw [type.attach_members]
      exact attachToAll_mirrored hook type.members hooked

/-! ## Histories -/

theorem carryOut_mirrored {registry : Registry σ} (reachable : Reachable registry)
    (request : RegistryRequest σ) :
    Mirrored registry id request.carryOut (RegistryTables.carryOut request) := by
  cases request with
  | addType label => exact (registerType_mirrored registry label).bind fun _ _ _ => rfl
  | addName label name raw cycle bounds =>
      exact (registerName_mirrored reachable label name raw cycle bounds).bind fun _ _ _ => rfl
  | addOrdered name raw bounds =>
      exact (registerOrdered_mirrored registry name raw bounds).bind fun _ _ _ => rfl
  | hookIdentifier id hook => exact attachToIdentifier_mirrored registry id hook
  | hookName name hook => exact attachToName_mirrored registry name hook
  | hookType label hook => exact attachToType_mirrored reachable.tallied label hook

/-- A request that fails leaves every table as it was. -/
theorem tables_error {registry : Registry σ} (reachable : Reachable registry)
    {request : RegistryRequest σ} {fault : RegistrationFault} {after : RegistryTables σ}
    (failed : (RegistryTables.carryOut request).run registry.tables =
      some (.error fault, after)) : after = registry.tables := by
  have mirrored := carryOut_mirrored reachable request
  rw [Mirrored, failed] at mirrored
  rcases outcome : request.carryOut.run registry with ⟨refused | _, left⟩
  · rw [outcome] at mirrored
    cases mirrored
    rw [carryOut_error reachable.tallied outcome]
  · rw [outcome] at mirrored
    cases mirrored

theorem tables_following {registry : Registry σ} (reachable : Reachable registry)
    (requests : List (RegistryRequest σ)) :
    registry.tables.following requests = some (registry.following requests).tables := by
  induction requests generalizing registry with
  | nil => rfl
  | cons request rest induction =>
      have mirrored := carryOut_mirrored reachable request
      rw [Mirrored] at mirrored
      rw [RegistryTables.following, mirrored]
      exact induction (.step request reachable)

/-- Whatever is asked for, the tables answer what the registry answers. -/
theorem tables_ofRequests (requests : List (RegistryRequest σ)) :
    RegistryTables.following {} requests = some (ofRequests requests).tables :=
  tables_following .empty requests

/-- The two tables of names are the inverse of each other. -/
theorem tables_inverse (requests : List (RegistryRequest σ)) {tables : RegistryTables σ}
    (reached : RegistryTables.following {} requests = some tables) (name : String)
    (id : Identifier) :
    tables.idByName name = some id ↔ (tables.records id).map (·.name) = some name := by
  cases reached.symm.trans (tables_ofRequests requests)
  have reachable := reachable_ofRequests requests
  exact reachable.tallied.identifier?_iff reachable.numbered name id

end Registry

end NumericRules
