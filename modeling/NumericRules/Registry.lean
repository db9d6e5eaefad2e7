import NumericRules.Bounds
import NumericRules.Script

/-! # The registry of names

Types and names are registered one after another and never removed. A name gets
the next raw number of its type unless it asks for one; an ordered name gets the
next place of the dense part of a store. A registration that fails reports why,
and the registry it leaves behind stays in use.
-/

namespace NumericRules

/-- A hook and the direction it serves. -/
inductive Hook (σ : Type) where
  | get (hook : GetHook σ)
  | set (hook : SetHook σ)

/-- A registered name. -/
structure NameRecord (σ : Type) where
  id : Identifier
  name : String
  cycle : Cycle := .temporary
  bounds : Bounds := {}
  getHook : Option (GetHook σ) := none
  setHook : Option (SetHook σ) := none

def NameRecord.attach (record : NameRecord σ) : Hook σ → NameRecord σ
  | .get hook => { record with getHook := some hook }
  | .set hook => { record with setHook := some hook }

/-- A registered type. `allocated` is the greatest raw number in use, `members`
lists its names in the order of registration, and the hooks are those that later
names start with. -/
structure TypeRecord (σ : Type) where
  tag : TypeTag
  label : String
  allocated : Nat := 0
  claimed : List Nat := []
  members : List Identifier := []
  getHook : Option (GetHook σ) := none
  setHook : Option (SetHook σ) := none

def TypeRecord.attach (type : TypeRecord σ) : Hook σ → TypeRecord σ
  | .get hook => { type with getHook := some hook }
  | .set hook => { type with setHook := some hook }

/-- The type with a raw number in use. -/
def TypeRecord.allocate (type : TypeRecord σ) (raw : Nat) : TypeRecord σ :=
  { type with allocated := max type.allocated raw }

/-- The type with one more name. -/
def TypeRecord.addMember (type : TypeRecord σ) (raw : Nat) (id : Identifier) : TypeRecord σ :=
  { type with claimed := raw :: type.claimed, members := type.members ++ [id] }

/-- Types and names in the order of their registration. A name is looked up by itself or by
its identifier in the same list. -/
structure Registry (σ : Type) where
  types : List (TypeRecord σ) := []
  records : List (NameRecord σ) := []
  orderedCount : Nat := 0

/-- A registration: the registry after it, with a result or a fault. -/
abbrev Registration (σ α : Type) := ExceptT RegistrationFault (StateM (Registry σ)) α

namespace Registry

/-! ## Looking up -/

/-- The label that stands for an empty one when a type is registered. -/
def defaultLabel : String := "default"

def recordNamed? (registry : Registry σ) (name : String) : Option (NameRecord σ) :=
  registry.records.find? (·.name == name)

def identifier? (registry : Registry σ) (name : String) : Option Identifier :=
  (registry.recordNamed? name).map (·.id)

def record? (registry : Registry σ) (id : Identifier) : Option (NameRecord σ) :=
  registry.records.find? (·.id == id)

def name? (registry : Registry σ) (id : Identifier) : Option String :=
  (registry.record? id).map (·.name)

def type? (registry : Registry σ) (tag : TypeTag) : Option (TypeRecord σ) :=
  registry.types.find? (·.tag == tag)

def typeLabelled? (registry : Registry σ) (label : String) : Option (TypeRecord σ) :=
  registry.types.find? (·.label == label)

def typeTag? (registry : Registry σ) (label : String) : Option TypeTag :=
  (registry.typeLabelled? label).map (·.tag)

/-- The label of the type of an identifier; ordered names have none. -/
def typeLabel? (registry : Registry σ) (id : Identifier) : Option String := do
  let tag ← id.typeTag?
  let type ← registry.type? tag
  pure type.label

/-- All names in the order of their identifiers. -/
def sortedRecords (registry : Registry σ) : List (NameRecord σ) :=
  registry.records.mergeSort fun left right => !right.id.before left.id

/-! ## Registering types and names -/

/-- Replace the type with the given tag. -/
def updateType (registry : Registry σ) (tag : TypeTag)
    (change : TypeRecord σ → TypeRecord σ) : Registry σ :=
  { registry with
    types := registry.types.map fun type => if type.tag = tag then change type else type }

/-- Replace the record with the given identifier. -/
def updateRecord (registry : Registry σ) (id : Identifier)
    (change : NameRecord σ → NameRecord σ) : Registry σ :=
  { registry with
    records := registry.records.map fun record => if record.id = id then change record else record }

/-- The type with the given label, which is registered if it is new. -/
def registerType (label : String) : Registration σ (TypeRecord σ) := do
  let label := if label.isEmpty then defaultLabel else label
  let registry ← get
  match registry.typeLabelled? label with
  | some type => pure type
  | none =>
      if room : registry.types.length < maxTypes then
        let type : TypeRecord σ :=
          { tag := ⟨registry.types.length + 1, by omega, by omega⟩, label }
        set { registry with types := registry.types ++ [type] }
        pure type
      else throw (.tooManyTypes label)

/-- A new name is not empty and not in use. -/
def requireNew (name : String) : Registration σ Unit := do
  let registry ← get
  if name.isEmpty then throw .emptyName
  if (registry.recordNamed? name).isSome then throw (.nameTaken name)

/-- The raw number of a new name: the one asked for, or the next for 0. -/
def chooseRaw (type : TypeRecord σ) (name : String) (asked : Nat) :
    Except RegistrationFault Nat :=
  if asked ≠ 0 then
    if type.claimed.contains asked then .error (.rawTaken asked name type.label) else .ok asked
  else if maxRaw ≤ type.allocated then .error (.typeFull type.label)
  else .ok (type.allocated + 1)

/-- Add a name to a type. Its number is in use before it is packed. -/
def claimName (type : TypeRecord σ) (name : String) (asked : Nat) (cycle : Cycle)
    (bounds : Bounds) : Registration σ Identifier := do
  let raw ← liftExcept (chooseRaw type name asked)
  modify (·.updateType type.tag (·.allocate raw))
  match Identifier.typed? type.tag raw with
  | none => throw (.rawTooGreat raw name)
  | some id =>
      modify (·.updateType type.tag (·.addMember raw id))
      let record : NameRecord σ :=
        { id, name, cycle, bounds, getHook := type.getHook, setHook := type.setHook }
      modify fun registry => { registry with records := registry.records ++ [record] }
      pure id
where
  liftExcept {α : Type} (result : Except RegistrationFault α) : Registration σ α :=
    match result with
    | .ok value => pure value
    | .error fault => throw fault

/-- Register a name under a type. The number 0 asks for the next one. -/
def registerName (label name : String) (raw : Nat) (cycle : Cycle := .temporary)
    (bounds : Bounds := {}) : Registration σ Identifier := do
  requireNew name
  if maxRaw < raw then throw (.rawTooGreat raw name)
  let type ← registerType label
  claimName type name raw cycle bounds

/-- Register an ordered name. The number 0 asks for the place after the last one
in use. -/
def registerOrdered (name : String) (raw : Nat) (bounds : Bounds := {}) :
    Registration σ Identifier := do
  let registry ← get
  if raw = 0 ∧ maxRaw ≤ registry.orderedCount then throw (.orderedFull name)
  requireNew name
  let raw := if raw = 0 then registry.orderedCount + 1 else raw
  match Identifier.ordered? raw with
  | none => throw (.orderedOutOfRange raw name)
  | some id =>
      if (registry.record? id).isSome then throw (.orderedTaken raw name)
      let record : NameRecord σ := { id, name, bounds }
      set { registry with
        orderedCount := max registry.orderedCount raw
        records := registry.records ++ [record] }
      pure id

/-- Register several names under one type, each with the next raw number. -/
def registerNames (label : String) (bounds : Bounds) : List String → Registration σ Unit
  | [] => pure ()
  | name :: rest => do
      let _ ← registerName label name 0 .temporary bounds
      registerNames label bounds rest

/-! ## Attaching hooks -/

/-- Attach a hook to one identifier. Only names of a type can carry hooks. -/
def attachToIdentifier (id : Identifier) (hook : Hook σ) : Registration σ Unit := do
  let registry ← get
  if id.isOrdered then throw (.orderedHook ((registry.name? id).getD "?"))
  if (registry.record? id).isNone then throw (.unknownIdentifier id)
  set (registry.updateRecord id (·.attach hook))

def attachToName (name : String) (hook : Hook σ) : Registration σ Unit := do
  match (← get).identifier? name with
  | some id => attachToIdentifier id hook
  | none => throw (.unknownName name)

/-- Attach a hook to several identifiers, one after another. -/
def attachToAll (hook : Hook σ) : List Identifier → Registration σ Unit
  | [] => pure ()
  | id :: rest => do
      attachToIdentifier id hook
      attachToAll hook rest

/-- Attach a hook to a type: to its names and to those registered later. -/
def attachToType (label : String) (hook : Hook σ) : Registration σ Unit := do
  match (← get).typeLabelled? label with
  | none => throw (.unknownType label)
  | some type =>
      modify fun registry => registry.updateType type.tag (·.attach hook)
      attachToAll hook type.members

end Registry

end NumericRules
