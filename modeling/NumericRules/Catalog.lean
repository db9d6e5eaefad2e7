import NumericRules.Engine
import NumericRules.Json.Number

/-! # Catalogs

A catalog declares the settings, types and names an engine starts with. It is
written as a JSON object with the optional members `config`, `types`, `names` and
`ordered`. Members of other names are skipped, but a member that is read must be
well formed and may occur only once. Where every member is optional an array of
the values in the order of the members will do as well.
-/

namespace NumericRules

/-- A declared name. The raw number 0 asks for the next one. -/
structure CatalogName where
  label : String
  name : String
  raw : Nat
  cycle : Cycle
  bounds : Bounds

/-- A declared ordered name. -/
structure CatalogOrdered where
  name : String
  raw : Nat
  bounds : Bounds

structure Catalog where
  settings : Option Settings := none
  types : List String := []
  names : List CatalogName := []
  ordered : List CatalogOrdered := []

namespace Catalog

/-! ## Values -/

def string? : Json → Option String
  | .string value => value
  | _ => none

def bool? : Json → Option Bool
  | .bool value => some value
  | _ => none

/-- A whole number from 0 up to a limit. -/
def natural? (limit : Nat) : Json → Option Nat
  | .number number => do
      let .whole value ← number.value? | none
      if 0 ≤ value && value ≤ limit then some value.toNat else none
  | _ => none

def float? : Json → Option Binary64
  | .number number => do
      match ← number.value? with
      | .whole value => some (Binary64.ofInteger value)
      | .float value => some value
  | _ => none

/-- A string of one character. -/
def character? (value : Json) : Option Char := do
  let [character] := (← string? value).toList | none
  some character

def array? : Json → Option (List Json)
  | .array items => some items
  | _ => none

/-- A cycle by its name, or as the only member of an object, with no value. -/
def cycle? : Json → Option Cycle
  | .string (some name) => Cycle.ofName? name
  | .object [(some name, .null)] => Cycle.ofName? name
  | _ => none

/-! ## Members -/

/-- The keys of an object, all of which must be texts. -/
def keyed? : List (Option String × Json) → Option (List (String × Json))
  | [] => some []
  | (key, value) :: rest => do
      let key ← key
      let rest ← keyed? rest
      pure ((key, value) :: rest)

/-- Whether no known member occurs twice. -/
def unrepeated (known : List String) (members : List (String × Json)) : Bool :=
  known.all fun key => (members.filter (·.1 == key)).length ≤ 1

/-- The members of an object in which no known member occurs twice. -/
def members? (known : List String) : Json → Option (List (String × Json))
  | .object members => do
      let members ← keyed? members
      if unrepeated known members then some members else none
  | _ => none

/-- The members of an object, or of an array that has their values in order. -/
def fields? (known : List String) : Json → Option (List (String × Json))
  | .array items => if items.length ≤ known.length then some (known.zip items) else none
  | value => members? known value

/-- The value of a member, or what stands for it when it is missing. -/
def member? (members : List (String × Json)) (key : String) (decode : Json → Option α)
    (missing : Option α) : Option α :=
  match members.lookup key with
  | some value => decode value
  | none => missing

/-! ## Settings -/

def greatestLimit : Nat := 0xFFFFFFFFFFFFFFFF

def settingsKeys : List String :=
  ["step_separator", "param_separator", "trace_steps", "max_source_bytes",
    "max_expression_depth"]

def settings? (value : Json) : Option Settings := do
  let members ← fields? settingsKeys value
  let missing : Settings := {}
  pure {
    stepSeparator :=
      ← member? members "step_separator" character? (some missing.stepSeparator)
    argumentSeparator :=
      ← member? members "param_separator" character? (some missing.argumentSeparator)
    traceSteps := ← member? members "trace_steps" bool? (some missing.traceSteps)
    maxSourceBytes :=
      ← member? members "max_source_bytes" (natural? greatestLimit)
        (some missing.maxSourceBytes)
    maxDepth :=
      ← member? members "max_expression_depth" (natural? greatestLimit) (some missing.maxDepth) }

/-- Settings, or `null` for none. -/
def optionalSettings? : Json → Option (Option Settings)
  | .null => some none
  | value => (settings? value).map some

/-! ## Names

A member of a declared name is read even when it is skipped afterwards: its
numbers must have a value, its strings must be texts, and it may not be nested
too deeply.
-/

mutual
/-- Whether a value can be read within the given depth. -/
def readable : Nat → Json → Bool
  | _, .null => true
  | _, .bool _ => true
  | _, .number number => number.value?.isSome
  | _, .string value => value.isSome
  | 0, .array _ => false
  | 0, .object _ => false
  | depth + 1, .array items => readableItems depth items
  | depth + 1, .object members => readableMembers depth members

def readableItems : Nat → List Json → Bool
  | _, [] => true
  | depth, item :: rest => readable depth item && readableItems depth rest

def readableMembers : Nat → List (Option String × Json) → Bool
  | _, [] => true
  | depth, (key, value) :: rest =>
      key.isSome && readable depth value && readableMembers depth rest
end

/-- How deep a value may be nested in a member of a declared name: readers go 127
levels deep, of which the catalog, the list of names and the name take three. -/
def greatestDepth : Nat := 124

def boundsKeys : List String := ["init", "min", "max"]

def bounds? (members : List (String × Json)) : Option Bounds := do
  pure {
    initial := ← member? members "init" float? (some 0)
    least := ← member? members "min" float? (some 0)
    greatest := ← member? members "max" float? (some 0) }

/-- The members of a declared name, with the given keys besides the bounds. -/
def nameMembers? (known : List String) (value : Json) : Option (List (String × Json)) := do
  let members ← members? (known ++ boundsKeys) value
  if members.all fun (_, value) => readable greatestDepth value then some members else none

/-- The greatest raw number that can be written; not all can be registered. -/
def greatestRaw : Nat := 0xFFFFFFFF

def name? (value : Json) : Option CatalogName := do
  let members ← nameMembers? ["type", "name", "raw_id", "cycle"] value
  pure {
    label := ← member? members "type" string? (some "")
    name := ← member? members "name" string? none
    raw := ← member? members "raw_id" (natural? greatestRaw) (some 0)
    cycle := ← member? members "cycle" cycle? (some .temporary)
    bounds := ← bounds? members }

def ordered? (value : Json) : Option CatalogOrdered := do
  let members ← nameMembers? ["name", "raw_id"] value
  pure {
    name := ← member? members "name" string? none
    raw := ← member? members "raw_id" (natural? greatestRaw) (some 0)
    bounds := ← bounds? members }

/-! ## Catalogs -/

/-- An array of values of one kind. -/
def list? (decode : Json → Option α) (value : Json) : Option (List α) := do
  (← array? value).mapM decode

def ofJson? (value : Json) : Option Catalog := do
  let members ← fields? ["config", "types", "names", "ordered"] value
  pure {
    settings := ← member? members "config" optionalSettings? (some none)
    types := ← member? members "types" (list? string?) (some [])
    names := ← member? members "names" (list? name?) (some [])
    ordered := ← member? members "ordered" (list? ordered?) (some []) }

def read (text : String) : Except Error Catalog :=
  match (Json.read? text).bind ofJson? with
  | some catalog => .ok catalog
  | none => .error (.catalog .malformed)

/-! ## Registering -/

/-- A registration whose fault is reported as an error of its own. -/
def reporting (report : RegistrationFault → Error) (registration : Registration σ α) :
    ExceptT Error (StateM (Registry σ)) α :=
  ExceptT.mk do
    let result ← registration.run
    pure (result.mapError report)

def registerTypes : List String → ExceptT Error (StateM (Registry σ)) Unit
  | [] => pure ()
  | label :: rest => do
      let _ ← reporting .registration (Registry.registerType label)
      registerTypes rest

def registerNames : List CatalogName → ExceptT Error (StateM (Registry σ)) Unit
  | [] => pure ()
  | entry :: rest => do
      let _ ← reporting (fun fault => .catalog (.entry entry.name fault))
        (Registry.registerName entry.label entry.name entry.raw entry.cycle entry.bounds)
      registerNames rest

def registerOrdered : List CatalogOrdered → ExceptT Error (StateM (Registry σ)) Unit
  | [] => pure ()
  | entry :: rest => do
      let _ ← reporting (fun fault => .catalog (.orderedEntry entry.name fault))
        (Registry.registerOrdered entry.name entry.raw entry.bounds)
      registerOrdered rest

/-- Register what a catalog declares: types, names, then ordered names, up to the
first that fails. -/
def register (catalog : Catalog) : ExceptT Error (StateM (Registry σ)) Unit := do
  registerTypes catalog.types
  registerNames catalog.names
  registerOrdered catalog.ordered

end Catalog

namespace Engine

/-- Register what a catalog declares with an engine. -/
def load (engine : Engine σ) (catalog : Catalog) : Except Error Unit × Engine σ :=
  let (result, registry) := catalog.register.run engine.registry
  (result, { engine with registry })

/-- An engine with the settings and names of a catalog. -/
def ofCatalog (catalog : Catalog) : Except Error (Engine σ) :=
  let (result, engine) := (Engine.new (catalog.settings.getD {})).load catalog
  result.map fun _ => engine

end Engine

end NumericRules
