import NumericRules.Catalog
import NumericRules.Proofs.RegistryInvariant

/-! # Registrations that fail

A name may bring a new type with it, and a hook of a type is attached to the type
before its names are visited. No fault can come after such a change: a new type
has room for every number that was let through, and the names of a type can all
carry hooks. So a request that fails leaves the registry as it was, and a catalog
that fails leaves what its entries before the failing one have registered.
-/

namespace NumericRules

namespace Registration

/-- A chain fails by the failure of its first part, or of what follows it. -/
theorem run_bind_eq_error {action : Registration σ α} {next : α → Registration σ β}
    {before after : Registry σ} {fault : RegistrationFault}
    (outcome : (action >>= next).run before = (.error fault, after)) :
    action.run before = (.error fault, after) ∨
      ∃ value between, action.run before = (.ok value, between) ∧
        (next value).run between = (.error fault, after) := by
  rw [run_bind] at outcome
  rcases first : action.run before with ⟨earlier | value, between⟩
  · rw [first] at outcome
    cases outcome
    exact .inl rfl
  · exact .inr ⟨value, between, rfl, by simpa only [first] using outcome⟩

/-- A result that is not used does not change how a registration fails. -/
theorem run_discard_eq_error {action : Registration σ α} {before after : Registry σ}
    {fault : RegistrationFault}
    (outcome : (do let _ ← action : Registration σ Unit).run before = (.error fault, after)) :
    action.run before = (.error fault, after) := by
  rcases run_bind_eq_error outcome with failed | ⟨_, _, _, finished⟩
  · exact failed
  · cases finished

end Registration

namespace Registry

open Registration

/-! ## Types and names -/

theorem registerType_error {label : String} {before after : Registry σ}
    {fault : RegistrationFault}
    (outcome : (registerType label).run before = (.error fault, after)) : after = before := by
  rcases registerType_run label before with ⟨_, _, run⟩ | ⟨_, _, _, _, run⟩ | ⟨_, run⟩ <;>
    cases outcome.symm.trans run
  rfl

/-- Under a type without names every number that is not too great is free. -/
theorem chooseRaw_of_unclaimed {type : TypeRecord σ} (unclaimed : type.claimed = [])
    (unallocated : type.allocated = 0) (name : String) (asked : Nat) :
    ∃ raw, chooseRaw type name asked = .ok raw := by
  unfold chooseRaw
  rw [unclaimed, unallocated]
  by_cases chosen : asked ≠ 0
  · exact ⟨asked, by simp [chosen]⟩
  · exact ⟨1, by simp [chosen, maxRaw]⟩

/-- A name that cannot be registered leaves no type behind: the fault can only
come from a type that was known before. -/
theorem registerName_error {label name : String} {asked : Nat} {cycle : Cycle} {bounds : Bounds}
    {before after : Registry σ} {fault : RegistrationFault}
    (outcome : (registerName label name asked cycle bounds).run before = (.error fault, after)) :
    after = before := by
  rcases run_bind_eq_error outcome with taken | ⟨_, checked, new, rest⟩
  · exact (congrArg Prod.snd taken).symm.trans (requireNew_run_snd name before)
  rcases requireNew_unused new with ⟨rfl, -⟩
  by_cases tooGreat : maxRaw < asked
  · simp only [if_pos tooGreat] at rest
    cases rest
    rfl
  simp only [if_neg tooGreat] at rest
  rcases run_bind_eq_error rest with full | ⟨type, typed, registered, claiming⟩
  · exact registerType_error full
  rcases claimName_run (Nat.le_of_not_lt tooGreat) type name cycle bounds typed with
    ⟨refusal, choice, run⟩ | ⟨raw, id, _, _, run⟩ <;> cases claiming.symm.trans run
  rcases registerType_run label checked with
    ⟨_, _, run⟩ | ⟨tag, label', _, _, run⟩ | ⟨_, run⟩ <;> cases registered.symm.trans run
  · rfl
  · let fresh : TypeRecord σ := { tag, label := label' }
    have unclaimed : fresh.claimed = [] := rfl
    rcases chooseRaw_of_unclaimed unclaimed rfl name asked with ⟨_, free⟩
    cases free.symm.trans choice

theorem registerOrdered_error {name : String} {asked : Nat} {bounds : Bounds}
    {before after : Registry σ} {fault : RegistrationFault}
    (outcome : (registerOrdered name asked bounds).run before = (.error fault, after)) :
    after = before := by
  simp only [registerOrdered, run_bind, run_get] at outcome
  by_cases full : asked = 0 ∧ maxRaw ≤ before.orderedCount
  · simp only [if_pos full] at outcome
    cases outcome
    rfl
  simp only [if_neg full] at outcome
  rcases run_bind_eq_error outcome with taken | ⟨_, _, new, rest⟩
  · exact (congrArg Prod.snd taken).symm.trans (requireNew_run_snd name before)
  rcases requireNew_unused new with ⟨rfl, -⟩
  generalize (if asked = 0 then _ else asked) = place at rest
  cases packed : Identifier.ordered? place with
  | none =>
      simp only [packed, run_throw] at rest
      cases rest
      rfl
  | some id =>
      simp only [packed] at rest
      split at rest <;> cases rest
      rfl

/-! ## Hooks -/

theorem attachToIdentifier_error {id : Identifier} {hook : Hook σ} {before after : Registry σ}
    {fault : RegistrationFault}
    (outcome : (attachToIdentifier id hook).run before = (.error fault, after)) :
    after = before := by
  simp only [attachToIdentifier, run_bind, run_get] at outcome
  by_cases ordered : id.isOrdered
  · simp only [if_pos ordered] at outcome
    cases outcome
    rfl
  simp only [if_neg ordered] at outcome
  split at outcome <;> cases outcome
  rfl

theorem attachToName_error {name : String} {hook : Hook σ} {before after : Registry σ}
    {fault : RegistrationFault}
    (outcome : (attachToName name hook).run before = (.error fault, after)) : after = before := by
  simp only [attachToName, run_bind, run_get] at outcome
  cases found : before.identifier? name with
  | none =>
      simp only [found, run_throw] at outcome
      cases outcome
      rfl
  | some id =>
      simp only [found] at outcome
      exact attachToIdentifier_error outcome

theorem attachToIdentifier_ok {registry : Registry σ} {id : Identifier} (used : id ∈ registry.ids)
    (typed : id.isOrdered = false) (hook : Hook σ) :
    (attachToIdentifier id hook).run registry =
      (.ok (), registry.updateRecord id (·.attach hook)) := by
  have known : (registry.record? id).isNone = false := by
    simpa [record?, ids] using used
  simp only [attachToIdentifier, run_bind, run_get, typed, known, Bool.false_eq_true, if_false,
    run_set]

/-- Hooks can be attached to all names that are registered under a type. -/
theorem attachToAll_ok (hook : Hook σ) {ids : List Identifier} (registry : Registry σ)
    (used : ∀ id ∈ ids, id ∈ registry.ids) (typed : ∀ id ∈ ids, id.isOrdered = false) :
    ∃ after, (attachToAll hook ids).run registry = (.ok (), after) := by
  induction ids generalizing registry with
  | nil => exact ⟨registry, rfl⟩
  | cons id rest induction =>
      simp only [attachToAll, run_bind,
        attachToIdentifier_ok (used id List.mem_cons_self) (typed id List.mem_cons_self)]
      refine induction _ (fun other member => ?_)
        fun other member => typed other (List.mem_cons_of_mem id member)
      rw [ids_updateRecord]
      exact used other (List.mem_cons_of_mem id member)

/-- The members of a type are registered, and none of them is ordered. -/
theorem Tallied.member_used {registry : Registry σ} (tallied : Tallied registry)
    {type : TypeRecord σ} (known : type ∈ registry.types) {id : Identifier}
    (member : id ∈ type.members) : id ∈ registry.ids ∧ id.isOrdered = false := by
  rw [tallied.members type known, List.mem_filter, decide_eq_true_eq] at member
  refine ⟨member.1, ?_⟩
  simp [Identifier.isOrdered, member.2, Nat.ne_of_gt type.tag.pos]

theorem attachToType_error {label : String} {hook : Hook σ} {before after : Registry σ}
    {fault : RegistrationFault} (tallied : Tallied before)
    (outcome : (attachToType label hook).run before = (.error fault, after)) :
    after = before := by
  simp only [attachToType, run_bind, run_get] at outcome
  cases found : before.typeLabelled? label with
  | none =>
      simp only [found, run_throw] at outcome
      cases outcome
      rfl
  | some type =>
      simp only [found, run_bind, run_modify] at outcome
      have known : type ∈ before.types := List.mem_of_find?_eq_some found
      rcases attachToAll_ok hook (before.updateType type.tag (·.attach hook))
        (fun id member => (tallied.member_used known member).1)
        (fun id member => (tallied.member_used known member).2) with ⟨_, attached⟩
      cases attached.symm.trans outcome

/-- A request that fails changes nothing. -/
theorem carryOut_error {request : RegistryRequest σ} {before after : Registry σ}
    {fault : RegistrationFault} (tallied : Tallied before)
    (outcome : request.carryOut.run before = (.error fault, after)) : after = before := by
  cases request with
  | addType label => exact registerType_error (run_discard_eq_error outcome)
  | addName label name raw cycle bounds => exact registerName_error (run_discard_eq_error outcome)
  | addOrdered name raw bounds => exact registerOrdered_error (run_discard_eq_error outcome)
  | hookIdentifier id hook => exact attachToIdentifier_error outcome
  | hookName name hook => exact attachToName_error outcome
  | hookType label hook => exact attachToType_error tallied outcome

/-! ## Catalogs -/

/-- Requests that all succeed, one after another, and the registry they leave. -/
inductive Fulfilled : Registry σ → List (RegistryRequest σ) → Registry σ → Prop
  | none (registry : Registry σ) : Fulfilled registry [] registry
  | next (request : RegistryRequest σ)
      (accepted : request.carryOut.run before = (.ok (), between)) :
      Fulfilled between rest after → Fulfilled before (request :: rest) after

theorem Fulfilled.reachable {before after : Registry σ} {requests : List (RegistryRequest σ)}
    (fulfilled : Fulfilled before requests after) (reachable : Reachable before) :
    Reachable after := by
  induction fulfilled with
  | none => exact reachable
  | next request accepted _ induction =>
      have step := Reachable.step request reachable
      rw [accepted] at step
      exact induction step

end Registry

/-- What a fault is reported as when a catalog is loaded. -/
def RegistryRequest.report : RegistryRequest σ → RegistrationFault → Error
  | .addName _ name _ _ _ => fun fault => .catalog (.entry name fault)
  | .addOrdered name _ _ => fun fault => .catalog (.orderedEntry name fault)
  | _ => .registration

namespace Catalog

open Registry

/-- The entries of a catalog in the order of their declaration. -/
def requests (catalog : Catalog) : List (RegistryRequest σ) :=
  catalog.types.map .addType ++
    (catalog.names.map (fun entry =>
        .addName entry.label entry.name entry.raw entry.cycle entry.bounds) ++
      catalog.ordered.map fun entry => .addOrdered entry.name entry.raw entry.bounds)

/-- Requests one after another, up to the first that fails. -/
def carryOutAll : List (RegistryRequest σ) → ExceptT Error (StateM (Registry σ)) Unit
  | [] => pure ()
  | request :: rest => do
      reporting request.report request.carryOut
      carryOutAll rest

/-- One request, then the others unless it fails. -/
theorem carryOutAll_cons_run (request : RegistryRequest σ) (rest : List (RegistryRequest σ))
    (registry : Registry σ) :
    (carryOutAll (request :: rest)).run registry =
      match request.carryOut.run registry with
      | (.ok _, after) => (carryOutAll rest).run after
      | (.error fault, after) => (.error (request.report fault), after) := by
  have reported : (reporting request.report request.carryOut).run registry =
      ((request.carryOut.run registry).1.mapError request.report,
        (request.carryOut.run registry).2) := rfl
  rw [carryOutAll, Registration.run_bind, reported]
  rcases request.carryOut.run registry with ⟨_ | _, _⟩ <;> rfl

theorem carryOutAll_append (first second : List (RegistryRequest σ)) :
    carryOutAll (first ++ second) = (do carryOutAll first; carryOutAll second) := by
  induction first with
  | nil => simp [carryOutAll]
  | cons request rest induction => simp only [List.cons_append, carryOutAll, induction, bind_assoc]

/-- Reporting the faults of a registration whose answer is not used. -/
theorem reporting_discard (report : RegistrationFault → Error) (action : Registration σ α) :
    reporting report (do let _ ← action) = (do let _ ← reporting report action) := by
  funext registry
  change (reporting report (do let _ ← action : Registration σ Unit)).run registry =
    (do let _ ← reporting report action : ExceptT Error (StateM (Registry σ)) Unit).run registry
  have reported (β : Type) (action : Registration σ β) : (reporting report action).run registry =
      ((action.run registry).1.mapError report, (action.run registry).2) := rfl
  rw [Registration.run_bind, reported, reported, Registration.run_bind]
  rcases action.run registry with ⟨_ | _, _⟩ <;> rfl

/-- A loop that asks for one thing after another. -/
theorem loop_eq (loop : List α → ExceptT Error (StateM (Registry σ)) Unit)
    (ask : α → RegistryRequest σ) (nil : loop [] = pure ())
    (cons : ∀ entry rest, loop (entry :: rest) =
      (do reporting (ask entry).report (ask entry).carryOut; loop rest))
    (entries : List α) : loop entries = carryOutAll (entries.map ask) := by
  induction entries with
  | nil => exact nil
  | cons entry rest induction => rw [cons, induction, List.map_cons, carryOutAll]

/-- Registering what a catalog declares is carrying out its requests. -/
theorem register_eq (catalog : Catalog) :
    (catalog.register : ExceptT Error (StateM (Registry σ)) Unit) =
      carryOutAll catalog.requests := by
  have types := loop_eq (σ := σ) registerTypes .addType rfl
    (fun label rest => by
      simp only [registerTypes, RegistryRequest.carryOut, RegistryRequest.report,
        reporting_discard, bind_assoc, pure_bind]) catalog.types
  have names := loop_eq (σ := σ) registerNames
    (fun entry => .addName entry.label entry.name entry.raw entry.cycle entry.bounds) rfl
    (fun entry rest => by
      simp only [registerNames, RegistryRequest.carryOut, RegistryRequest.report,
        reporting_discard, bind_assoc, pure_bind]) catalog.names
  have ordered := loop_eq (σ := σ) registerOrdered
    (fun entry => .addOrdered entry.name entry.raw entry.bounds) rfl
    (fun entry rest => by
      simp only [registerOrdered, RegistryRequest.carryOut, RegistryRequest.report,
        reporting_discard, bind_assoc, pure_bind]) catalog.ordered
  rw [register, types, names, ordered, requests, carryOutAll_append, carryOutAll_append]

/-- Requests fail with the first of them that does, and what it leaves stays. -/
theorem carryOutAll_error {requests : List (RegistryRequest σ)} {before after : Registry σ}
    {error : Error} :
    (carryOutAll requests).run before = (.error error, after) ↔
      ∃ earlier request later reached fault, requests = earlier ++ request :: later ∧
        Fulfilled before earlier reached ∧
        request.carryOut.run reached = (.error fault, after) ∧ error = request.report fault := by
  constructor
  · intro outcome
    induction requests generalizing before with
    | nil => cases outcome
    | cons request rest induction =>
        rw [carryOutAll_cons_run] at outcome
        rcases first : request.carryOut.run before with ⟨fault | _, between⟩
        · rw [first] at outcome
          cases outcome
          exact ⟨[], request, rest, before, fault, rfl, .none before, first, rfl⟩
        · simp only [first] at outcome
          rcases induction outcome with
            ⟨earlier, failing, later, reached, fault, rfl, fulfilled, failed, rfl⟩
          exact ⟨request :: earlier, failing, later, reached, fault, rfl,
            .next request first fulfilled, failed, rfl⟩
  · rintro ⟨earlier, request, later, reached, fault, rfl, fulfilled, failed, rfl⟩
    induction fulfilled with
    | none registry => rw [List.nil_append, carryOutAll_cons_run, failed]
    | next accepting accepted _ induction =>
        rw [List.cons_append, carryOutAll_cons_run, accepted]
        exact induction failed

end Catalog

namespace Registry

/-- Registrations are all or nothing. A request that fails leaves the registry as
it was: no type, number, name, member or hook is added. A catalog fails with the
first entry that does, after all entries before it have been registered, and
leaves exactly what these have registered. -/
theorem Reachable.failures_change_nothing {registry : Registry σ}
    (reachable : Reachable registry) :
    (∀ (request : RegistryRequest σ) (fault : RegistrationFault) (after : Registry σ),
      request.carryOut.run registry = (.error fault, after) → after = registry) ∧
    ∀ (engine : Engine σ) (catalog : Catalog) (error : Error) (after : Engine σ),
      engine.registry = registry →
        (engine.load catalog = (.error error, after) ↔
          ∃ earlier request later reached fault,
            catalog.requests = earlier ++ request :: later ∧
            Fulfilled registry earlier reached ∧
            request.carryOut.run reached = (.error fault, reached) ∧
            error = request.report fault ∧ after = { engine with registry := reached }) := by
  refine ⟨fun request fault after => carryOut_error reachable.tallied, ?_⟩
  intro engine catalog error after same
  subst same
  have loaded : engine.load catalog = (.error error, after) ↔
      ∃ left, (Catalog.carryOutAll catalog.requests).run engine.registry = (.error error, left) ∧
        after = { engine with registry := left } := by
    rw [Engine.load, Catalog.register_eq]
    rcases (Catalog.carryOutAll catalog.requests).run engine.registry with ⟨result, left⟩
    constructor
    · intro outcome
      cases outcome
      exact ⟨left, rfl, rfl⟩
    · rintro ⟨_, outcome, rfl⟩
      cases outcome
      rfl
  rw [loaded]
  constructor
  · rintro ⟨left, outcome, rfl⟩
    rcases Catalog.carryOutAll_error.mp outcome with
      ⟨earlier, request, later, reached, fault, split, fulfilled, failed, rfl⟩
    cases carryOut_error (fulfilled.reachable reachable).tallied failed
    exact ⟨earlier, request, later, left, fault, split, fulfilled, failed, rfl, rfl⟩
  · rintro ⟨earlier, request, later, reached, fault, split, fulfilled, failed, rfl, rfl⟩
    exact ⟨reached, Catalog.carryOutAll_error.mpr
      ⟨earlier, request, later, reached, fault, split, fulfilled, failed, rfl⟩, rfl⟩

/-- A catalog whose second name asks for the number of the first one. The type of
both is new. -/
def clashing : Catalog where
  types := ["u"]
  names := [⟨"v", "d", 3, .temporary, {}⟩, ⟨"v", "e", 3, .temporary, {}⟩]

theorem Reachable.failures_change_nothing_clashing :
    Reachable (ofRequests interleaved) ∧
      (RegistryRequest.addName "u" "a" 7 .temporary {}).carryOut.run (ofRequests interleaved) =
        (.error (.nameTaken "a"), ofRequests interleaved) ∧
      ∃ reached : Registry Unit,
        Fulfilled (ofRequests interleaved) [.addType "u", .addName "v" "d" 3 .temporary {}]
          reached ∧
        (Engine.mk (ofRequests interleaved) Function.builtins {}).load clashing =
          (.error (.catalog (.entry "e" (.rawTaken 3 "e" "v"))),
            Engine.mk reached Function.builtins {}) ∧
        reached.types.map (·.label) = ["t", "u", "v"] ∧
        reached.records.map (·.name) = ["a", "b", "o", "p", "c", "d"] := by
  have reachable := reachable_ofRequests interleaved
  have taken : ((RegistryRequest.addName "u" "a" 7 .temporary {}).carryOut.run
      (ofRequests interleaved)).1 = .error (.nameTaken "a") := by decide +kernel
  have kept := reachable.failures_change_nothing.1 (.addName "u" "a" 7 .temporary {}) _ _
    (Prod.ext taken rfl)
  have fulfilled : Fulfilled (ofRequests interleaved)
      [.addType "u", .addName "v" "d" 3 .temporary {}]
      (following (ofRequests interleaved) [.addType "u", .addName "v" "d" 3 .temporary {}]) :=
    .next _ (Prod.ext (by decide +kernel) rfl) (.next _ (Prod.ext (by decide +kernel) rfl) (.none _))
  have clash : ((RegistryRequest.addName "v" "e" 3 .temporary {}).carryOut.run
      (following (ofRequests interleaved) [.addType "u", .addName "v" "d" 3 .temporary {}])).1 =
        .error (.rawTaken 3 "e" "v") := by decide +kernel
  have unchanged := (fulfilled.reachable reachable).failures_change_nothing.1
    (.addName "v" "e" 3 .temporary {}) _ _ (Prod.ext clash rfl)
  refine ⟨reachable, Prod.ext taken kept, _, fulfilled, ?_, by decide +kernel, by decide +kernel⟩
  exact (reachable.failures_change_nothing.2 _ clashing _ _ rfl).mpr
    ⟨_, _, [], _, _, rfl, fulfilled, Prod.ext clash unchanged, rfl, rfl⟩

end Registry

end NumericRules
