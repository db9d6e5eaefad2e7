import NumericRules.CommandLine.Outcome
import NumericRules.Proofs.GivenHooks
import NumericRules.Proofs.Grammar.Cursor

/-! # Hooks that answer at once

The hooks of built-in names answer without asking for anything, and neither a catalog nor
the command line gives names any others.
-/

namespace NumericRules

/-! ## Which hooks names have -/

/-- The hook is there for reading and answers at once. -/
def Hook.Immediate : Hook σ → Prop
  | .get hook => ∀ id, ∃ value, hook id = .finish (.ok value)
  | .set _ => False

/-- No name has other hooks. -/
def Registry.Immediate (registry : Registry σ) : Prop :=
  ∀ record ∈ registry.records, record.setHook = none ∧
    ∀ hook, record.getHook = some hook → (Hook.get hook).Immediate

/-- The request gives no other hook. -/
def RegistryRequest.Immediate : RegistryRequest σ → Prop
  | .addType .. | .addName .. | .addOrdered .. => True
  | .hookIdentifier _ hook | .hookName _ hook | .hookType _ hook => hook.Immediate

theorem RegistryRequest.Plain.immediate {request : RegistryRequest σ} (plain : request.Plain) :
    request.Immediate := by
  cases request with
  | addType | addName | addOrdered => trivial
  | hookIdentifier | hookName | hookType => cases plain

theorem RegistryRequest.Immediate.hook {request : RegistryRequest σ} (immediate : request.Immediate)
    {id : Identifier} {name label : String} {hook : Hook σ}
    (given : request.hook? id name label = some hook) : hook.Immediate := by
  cases request with
  | addType | addName | addOrdered => cases given
  | hookIdentifier | hookName | hookType =>
      rcases Option.ite_none_right_eq_some.mp given with ⟨_, same⟩
      cases same
      exact immediate

theorem Hook.Last.immediate {hooks : List (Hook σ)} {getHook : Option (GetHook σ)}
    {setHook : Option (SetHook σ)} (last : Last hooks getHook setHook)
    (immediate : ∀ hook ∈ hooks, hook.Immediate) :
    setHook = none ∧ ∀ hook, getHook = some hook → (Hook.get hook).Immediate := by
  constructor
  · rw [last.set, List.getLast?_eq_none_iff, List.filterMap_eq_nil_iff]
    intro hook member
    cases hook with
    | get => rfl
    | set => cases immediate _ member
  · rw [last.get]
    intro hook isLast
    rcases List.mem_filterMap.mp (List.mem_of_getLast? isLast) with ⟨given, member, same⟩
    cases given with
    | get =>
        cases same
        exact immediate _ member
    | set => cases same

namespace Registry

theorem mem_accepted {registry : Registry σ} {requests : List (RegistryRequest σ)}
    {request : RegistryRequest σ} (accepted : request ∈ registry.accepted requests) :
    request ∈ requests := by
  induction requests generalizing registry with
  | nil => exact accepted
  | cons first rest induction =>
      rw [Registry.accepted] at accepted
      split at accepted
      · rcases List.mem_cons.mp accepted with rfl | later
        · exact .head _
        · exact .tail _ (induction later)
      · exact .tail _ (induction accepted)

theorem immediate_ofRequests {requests : List (RegistryRequest σ)}
    (immediate : ∀ request ∈ requests, request.Immediate) : (ofRequests requests).Immediate := by
  have reachable := reachable_ofRequests requests
  have hooked : Hooked (accepted {} requests) (ofRequests requests) :=
    Hooked.empty.following .empty requests
  intro record known
  cases ordered : record.id.isOrdered with
  | true =>
      rcases hooked.ordered record known ordered with ⟨getHook, setHook⟩
      refine ⟨setHook, fun hook isHook => ?_⟩
      rw [getHook] at isHook
      cases isHook
  | false =>
      rcases reachable.tallied.type_of_id reachable.numbered (List.mem_map_of_mem known) ordered
        with ⟨type, typed, tag⟩
      refine (hooked.records record known type typed tag).immediate fun hook given => ?_
      rcases List.mem_filterMap.mp given with ⟨request, member, isHook⟩
      exact (immediate request (mem_accepted member)).hook isHook

end Registry

/-! ## Registrations that carry out requests -/

section Following

open Registration Registry

variable {ε α β : Type} {allowed : RegistryRequest σ → Prop}

/-- Whatever the registration finds, it leaves behind what some requests would that are
allowed. -/
def Registration.Follows (allowed : RegistryRequest σ → Prop)
    (action : ExceptT ε (StateM (Registry σ)) α) : Prop :=
  ∀ registry, ∃ requests, (∀ request ∈ requests, allowed request) ∧
    (action.run registry).2 = registry.following requests

namespace Registration

theorem follows_pure (value : α) :
    Follows allowed (pure value : ExceptT ε (StateM (Registry σ)) α) :=
  fun _ => ⟨[], List.forall_mem_nil _, rfl⟩

theorem follows_get : Follows allowed (get : Registration σ (Registry σ)) :=
  fun _ => ⟨[], List.forall_mem_nil _, rfl⟩

theorem follows_bind {action : ExceptT ε (StateM (Registry σ)) α}
    {next : α → ExceptT ε (StateM (Registry σ)) β} (first : Follows allowed action)
    (second : ∀ value, Follows allowed (next value)) : Follows allowed (action >>= next) := by
  intro registry
  rcases first registry with ⟨earlier, earlierAllowed, ran⟩
  rw [run_bind]
  rcases outcome : action.run registry with ⟨fault | value, between⟩
  · rw [outcome] at ran
    exact ⟨earlier, earlierAllowed, ran⟩
  · rw [outcome] at ran
    rcases second value between with ⟨later, laterAllowed, further⟩
    refine ⟨earlier ++ later, List.forall_mem_append.mpr ⟨earlierAllowed, laterAllowed⟩, ?_⟩
    rw [Registry.following, List.foldl_append]
    exact further.trans (congrArg (Registry.following · later) ran)

theorem follows_request {request : RegistryRequest σ} (isAllowed : allowed request) :
    Follows allowed request.carryOut :=
  fun _ => ⟨[request], List.forall_mem_singleton.mpr isAllowed, rfl⟩

/-- It does not matter whether the answer is used. -/
theorem follows_of_discard {action : Registration σ α}
    (follows : Follows allowed (do let _ ← action : Registration σ Unit)) :
    Follows allowed action := by
  intro registry
  rcases follows registry with ⟨requests, areAllowed, ran⟩
  refine ⟨requests, areAllowed, ?_⟩
  rw [← ran, run_bind]
  rcases action.run registry with ⟨_ | _, _⟩ <;> rfl

theorem follows_registerType {label : String} (isAllowed : allowed (.addType label)) :
    Follows allowed (registerType label : Registration σ (TypeRecord σ)) :=
  follows_of_discard (follows_request isAllowed)

theorem follows_registerName {label name : String} {raw : Nat} {cycle : Cycle} {bounds : Bounds}
    (isAllowed : allowed (.addName label name raw cycle bounds)) :
    Follows allowed (registerName label name raw cycle bounds) :=
  follows_of_discard (follows_request isAllowed)

theorem follows_reporting {action : Registration σ α} (follows : Follows allowed action)
    (report : RegistrationFault → Error) : Follows allowed (Catalog.reporting report action) :=
  follows

end Registration

/-- From a registry that requests have made it leads to another one. -/
theorem Registration.Follows.ofRequests {action : ExceptT ε (StateM (Registry σ)) α}
    (follows : Follows allowed action) {earlier : List (RegistryRequest σ)}
    (earlierAllowed : ∀ request ∈ earlier, allowed request) :
    ∃ requests, (∀ request ∈ requests, allowed request) ∧
      (action.run (.ofRequests earlier)).2 = .ofRequests requests := by
  rcases follows (.ofRequests earlier) with ⟨later, laterAllowed, ran⟩
  refine ⟨earlier ++ later, List.forall_mem_append.mpr ⟨earlierAllowed, laterAllowed⟩, ?_⟩
  exact ran.trans List.foldl_append.symm

end Following

/-! ## Engines of the command line -/

open Registration (Follows follows_pure follows_get follows_bind follows_request
  follows_registerType follows_registerName follows_reporting)

theorem Hook.immediate_text : (Hook.get Engine.textHook : Hook σ).Immediate :=
  fun _ => ⟨_, rfl⟩

theorem Hook.immediate_constant : (Hook.get Engine.constantHook : Hook σ).Immediate :=
  fun _ => ⟨_, rfl⟩

namespace Engine

theorem follows_registerNumbered (label : String) (raw : Nat) (names : List String) :
    Follows RegistryRequest.Immediate
      (registerNumbered label raw names : Registration σ Unit) := by
  induction names generalizing raw with
  | nil => exact follows_pure ()
  | cons name rest induction =>
      exact follows_bind (follows_registerName trivial) fun _ => induction (raw + 1)

theorem follows_registerBuiltins :
    Follows RegistryRequest.Immediate (registerBuiltins : Registration σ Unit) := by
  have hookType (label : String) {hook : Hook σ} (immediate : hook.Immediate) :
      Follows RegistryRequest.Immediate (Registry.attachToType label hook) := by
    change Follows RegistryRequest.Immediate (RegistryRequest.hookType label hook).carryOut
    exact follows_request immediate
  refine follows_bind (follows_registerType trivial) fun _ => ?_
  refine follows_bind (hookType _ Hook.immediate_text) fun _ => ?_
  refine follows_bind (follows_registerType trivial) fun _ => ?_
  refine follows_bind (follows_registerNumbered _ _ _) fun _ => ?_
  exact hookType _ Hook.immediate_constant

end Engine

/-- A catalog declares no hooks. -/
theorem Catalog.follows_register (catalog : Catalog) :
    Follows RegistryRequest.Immediate
      (catalog.register : ExceptT Error (StateM (Registry σ)) Unit) := by
  have each : ∀ request ∈ (catalog.requests : List (RegistryRequest σ)), request.Plain := by
    intro request member
    simp only [requests, List.mem_append, List.mem_map] at member
    rcases member with ⟨_, _, rfl⟩ | ⟨_, _, rfl⟩ | ⟨_, _, rfl⟩ <;> trivial
  rw [register_eq]
  generalize (catalog.requests : List (RegistryRequest σ)) = requests at each
  induction requests with
  | nil => exact follows_pure ()
  | cons request rest induction =>
      rcases List.forall_mem_cons.mp each with ⟨plain, others⟩
      exact follows_bind (follows_reporting (follows_request plain.immediate) _) fun _ =>
        induction others

/-- The engine works without a host program: its functions are the built-in ones, and its
names come from requests that give no hooks but immediate ones. -/
structure Engine.SelfContained (engine : Engine σ) : Prop where
  functions : engine.functions = Function.builtins
  registry : ∃ requests : List (RegistryRequest σ), (∀ request ∈ requests, request.Immediate) ∧
    engine.registry = .ofRequests requests

namespace Engine

variable {engine : Engine σ}

theorem SelfContained.withRegistry {ε : Type} (selfContained : engine.SelfContained)
    {action : ExceptT ε (StateM (Registry σ)) α}
    (follows : Follows RegistryRequest.Immediate action) :
    SelfContained { engine with registry := (action.run engine.registry).2 } := by
  rcases selfContained.registry with ⟨earlier, immediate, made⟩
  refine ⟨selfContained.functions, ?_⟩
  rw [made]
  exact follows.ofRequests immediate

theorem selfContained_new (settings : Settings) :
    (Engine.new settings : Engine σ).SelfContained := by
  rcases follows_registerBuiltins {} with ⟨requests, immediate, ran⟩
  refine ⟨rfl, requests, immediate, ?_⟩
  simp only [new, ran]
  rfl

theorem SelfContained.load (selfContained : engine.SelfContained) (catalog : Catalog) :
    (engine.load catalog).2.SelfContained :=
  selfContained.withRegistry catalog.follows_register

theorem selfContained_ofCatalog {catalog : Catalog}
    (made : Engine.ofCatalog catalog = .ok engine) : engine.SelfContained := by
  have initial : (Engine.new (catalog.settings.getD {}) : Engine σ).SelfContained :=
    selfContained_new _
  have loaded := initial.load catalog
  rw [Engine.ofCatalog] at made
  generalize (Engine.new (catalog.settings.getD {}) : Engine σ).load catalog = outcome
    at made loaded
  rcases outcome with ⟨_ | _, left⟩ <;> cases made
  exact loaded

theorem SelfContained.immediate (selfContained : engine.SelfContained) :
    engine.registry.Immediate := by
  rcases selfContained.registry with ⟨requests, immediate, made⟩
  rw [made]
  exact Registry.immediate_ofRequests immediate

theorem SelfContained.reachable (selfContained : engine.SelfContained) :
    engine.registry.Reachable := by
  rcases selfContained.registry with ⟨requests, _, made⟩
  rw [made]
  exact Registry.reachable_ofRequests requests

end Engine

namespace CommandLine

theorem follows_registerSeeds (seeds : List Seed) :
    Follows RegistryRequest.Immediate (registerSeeds seeds) := by
  induction seeds with
  | nil => exact follows_pure ()
  | cons seed rest induction =>
      refine follows_bind follows_get fun registry => ?_
      dsimp only
      split
      · exact follows_bind (follows_registerName trivial) fun _ => induction
      · exact induction

theorem ok_of_mapError {ε ε' : Type} {change : ε → ε'} {result : Except ε α} {answer : α}
    (outcome : result.mapError change = .ok answer) : result = .ok answer := by
  cases result <;> cases outcome
  rfl

/-- Engines of the command line have no code of a host program. -/
theorem selfContained_of_engineFor {files : Files} {catalog? : Option String} {seeds : List Seed}
    {traced : Bool} {engine : PlainEngine}
    (prepared : engineFor files catalog? seeds traced = .ok engine) : engine.SelfContained := by
  let traces (catalog : Catalog) : Settings :=
    { catalog.settings.getD {} with
      traceSteps := (catalog.settings.getD {}).traceSteps || traced }
  have loads : ∃ catalog : Catalog, (do
      let engine ← (Engine.ofCatalog { catalog with settings := some (traces catalog) } :
        Except Error PlainEngine).mapError Failure.library
      ((engine.register (registerSeeds seeds)).1).mapError Failure.library
      pure (engine.register (registerSeeds seeds)).2) = .ok engine := by
    cases catalog? with
    | none => exact ⟨{}, prepared⟩
    | some path =>
        rcases Grammar.ok_of_bind prepared with ⟨catalog, _, loads⟩
        exact ⟨catalog, loads⟩
  rcases loads with ⟨catalog, loads⟩
  rcases Grammar.ok_of_bind loads with ⟨initial, made, registers⟩
  rcases Grammar.ok_of_bind registers with ⟨_, _, registered⟩
  cases registered
  exact (Engine.selfContained_ofCatalog (ok_of_mapError made)).withRegistry
    (follows_registerSeeds seeds)

end CommandLine

end NumericRules
