import NumericRules.Proofs.LooseTrees
import NumericRules.Proofs.ProcessRun
import NumericRules.Proofs.ProcessSlots
import NumericRules.Proofs.RegistryInvariant
import NumericRules.Proofs.Rereading
import NumericRules.Proofs.SlotAllocation
import NumericRules.Proofs.SymbolicForm

/-! # Accepted rules are well formed

Whatever a rule mentions is registered, or has a slot, and its functions accept their
calls. So a run never looks for a slot that is not there, and what stands in for one does
not matter.
-/

namespace NumericRules

open Grammar

/-! ## What is mentioned -/

/-- The name is registered with its identifier, and has a place if it is ordered. -/
def Engine.Registers (engine : Engine σ) (reference : Reference) : Prop :=
  engine.registry.name? reference.id = some reference.name ∧
    (reference.id.isOrdered = true → reference.id.raw - 1 < engine.registry.orderedCount)

theorem FunctionTable.plan?_isSome {functions : FunctionTable σ} {function : String}
    {accepted : List Nat} {count : Nat}
    (signature : functions.signature? function = some (.native accepted))
    (accepts : accepted.contains count = true) :
    (functions.plan? function count).isSome = true := by
  rcases Option.map_eq_some_iff.mp signature with ⟨kind, found, isNative⟩
  cases kind with
  | choose => cases isNative
  | native overloads =>
      cases isNative
      rw [plan?, found]
      change (overloads.lookup count).isSome = true
      rcases List.mem_map.mp (List.contains_iff_mem.mp accepts) with ⟨entry, inside, rfl⟩
      exact List.lookup_isSome_iff.mpr ⟨entry, inside, beq_self_eq_true _⟩

theorem FunctionTable.kind?_choose {functions : FunctionTable σ}
    (signature : functions.signature? chooseName = some .choose) :
    functions.kind? chooseName = some .choose := by
  rcases Option.map_eq_some_iff.mp signature with ⟨kind, found, isChoose⟩
  cases kind with
  | choose => exact found
  | native overloads => cases isChoose

/-- Known functions accept their calls. -/
theorem Demands.known_named [Named ν] {engine : Engine σ} {resolve? : String → Option ν}
    {property : ν → Prop}
    (name : ∀ {reference}, (known (engine.vocabulary resolve?)).name reference →
      property reference) :
    Demands.Imply (.known (engine.vocabulary resolve?)) (.known (engine.vocabulary resolve?))
      (.named engine.functions property) where
  number _ _ := trivial
  name known _ := name known
  call known _ := by
    rcases known.2 with ⟨accepted, signature, accepts⟩
    exact FunctionTable.plan?_isSome signature accepts
  choose known _ := FunctionTable.kind?_choose known

theorem Engine.registers_of_reference? {engine : Engine σ}
    (reachable : engine.registry.Reachable) {name : String} {reference : Reference}
    (found : engine.reference? name = some reference) : engine.Registers reference := by
  rcases Option.map_eq_some_iff.mp found with ⟨id, identified, rfl⟩
  rcases Registry.identifier?_eq_some identified with ⟨record, known, rfl, rfl⟩
  have recorded := reachable.numbered.record?_eq known
  refine ⟨?_, fun ordered => ?_⟩
  · change (engine.registry.record? record.id).map (·.name) = some record.name
    rw [recorded]
    rfl
  · have inUse : record.id ∈ engine.registry.ids := List.mem_map_of_mem known
    have counted := reachable.placed record.id inUse (by simpa [Identifier.isOrdered] using ordered)
    have positive : record.id.raw ≠ 0 := record.id.raw_ne_zero
    change record.id.raw - 1 < _
    omega

section Reading

variable {engine : Engine σ} (registered : engine.registry.Reachable)
  (functions : engine.functions.Reachable) {text : String}

include registered

theorem Engine.imply_registers :
    Demands.Imply (.known (engine.vocabulary engine.reference?))
      (.known (engine.vocabulary engine.reference?)) (.named engine.functions engine.Registers) :=
  Demands.known_named fun known => Engine.registers_of_reference? registered known.2

include functions

theorem Engine.registers_of_readFormula {formula : Formula Reference}
    (read : engine.readFormula text = .ok formula) :
    formula.Meets (.named engine.functions engine.Registers) :=
  have known := known_of_readFormula functions read
  formula.meets_of_imply (imply_registers registered) known known

theorem Engine.registers_of_readCondition {condition : Condition Reference}
    (read : engine.readCondition text = .ok condition) :
    condition.Meets (.named engine.functions engine.Registers) :=
  have known := known_of_readCondition functions read
  condition.meets_of_imply (imply_registers registered) known known

theorem Engine.registers_of_readOperations {assignments : List (Assignment Reference)}
    (read : engine.readOperations text = .ok assignments) :
    ∀ assignment ∈ assignments,
      assignment.Meets (.named engine.functions engine.Registers) := by
  intro assignment inside
  rcases (known_of_wholeOperations (faithful functions) (parse_of_readText read)).2 assignment
    inside with ⟨⟨_, resolved⟩, known⟩
  exact ⟨registers_of_reference? registered resolved,
    assignment.value.meets_of_imply (imply_registers registered) known known⟩

end Reading

/-! ## Names that are resolved while a text is read -/

namespace Engine

variable (engine : Engine σ)

/-- The functions and settings of the engine, with names that are resolved in a state. -/
def lexicon (resolve : String → κ → Option (Identifier × κ)) : Lexicon κ where
  resolve := resolve
  signature? := engine.functions.signature?
  argumentSeparator := engine.settings.argumentSeparator
  stepSeparator := engine.settings.stepSeparator
  nestingLimit := engine.settings.maxDepth

/-- Registered names are resolved without a state. -/
def registeredNames : Lexicon Unit :=
  engine.lexicon fun name _ => (engine.registry.identifier? name).map (·, ())

/-- The names of a process are resolved in a registry of its own. -/
def localNames : Lexicon (LocalNames σ) := engine.lexicon (LocalNames.resolve engine.registry)

/-- Read a text that is not too long, from a state of its names. -/
def resolveText (language : Language) (text : String) (names : κ)
    (parse : List Char → Resolving κ α) : Except Error (α × κ) :=
  engine.readText language text fun characters => (parse characters).run names

end Engine

/-- Assignments as loose trees. -/
structure LooseOperations where
  id : RuleId
  assignments : List (LooseAssignment Reference)
  separator : Char

/-- Steps as loose trees, with the slots that were given out while they were read. -/
structure LooseProcess where
  id : RuleId
  steps : List (LooseStep Reference)
  slots : List LocalSlot
  separator : Char

namespace Engine

variable (engine : Engine σ)

def parseLooseFormula (text : String) : Run σ (Except Error (Rule (LooseFormula Reference))) :=
  numbered (engine.resolveText .formula text () fun characters =>
    Resolving.wholeFormula engine.registeredNames (.start characters)) fun id read => ⟨id, read.1⟩

def parseLooseCondition (text : String) :
    Run σ (Except Error (Rule (LooseCondition Reference))) :=
  numbered (engine.resolveText .condition text () fun characters =>
    Resolving.wholeCondition engine.registeredNames (.start characters))
      fun id read => ⟨id, read.1⟩

def parseLooseOperations (text : String) : Run σ (Except Error LooseOperations) :=
  numbered (engine.resolveText .operation text ()
    (Resolving.wholeOperations engine.registeredNames)) fun id read =>
      ⟨id, read.1, engine.settings.stepSeparator⟩

def parseLooseProcess (text : String) : Run σ (Except Error LooseProcess) :=
  numbered (engine.resolveText .process text LocalNames.start
    (Resolving.wholeProcess engine.localNames)) fun id read =>
      ⟨id, read.1, read.2.slots, engine.settings.stepSeparator⟩

end Engine

/-! ## Registered names -/

def Rule.map (change : α → β) (rule : Rule α) : Rule β := ⟨rule.id, change rule.root⟩

def OperationRule.loose (operations : OperationRule) : LooseOperations :=
  ⟨operations.id, operations.assignments.map Assignment.loose, operations.separator⟩

/-- The names of an engine are looked up as they are resolved. -/
def Engine.registeredPairing (engine : Engine σ) (functions : engine.functions.Reachable) :
    Pairing Unit Reference where
  lexicon := engine.registeredNames
  resolve? := engine.reference?
  change := id
  sameNames _ := rfl
  known resolved := by
    rcases Option.map_eq_some_iff.mp resolved with ⟨id, found, same⟩
    cases same
    exact congrArg (Option.map _) found
  named found := by
    rcases Option.map_eq_some_iff.mp found with ⟨id, _, rfl⟩
    exact ⟨_, rfl, rfl⟩
  chooses := functions.chooses

section Registered

variable {engine : Engine σ} (functions : engine.functions.Reachable)

/-- What is looked up can be resolved, so both readings have one outcome. -/
theorem Engine.registered_run {faces : Faces α β γ} {plain : Except Fault α}
    {resolving : Resolving Unit β}
    (follows : (engine.registeredPairing functions).Follows faces [] plain resolving)
    (loose : α → β) (same : ∀ content, loose (faces.plain content) = faces.loose content) :
    resolving.run () = plain.map fun value => (loose value, ()) := by
  cases ran : resolving.run () with
  | ok result =>
      rcases follows.sound ran with ⟨content, _, rfl, isLoose, _⟩
      rw [Except.map, same, ← isLoose]
  | error fault =>
      rcases follows.faults ran with rfl | ⟨_, _, name, _, _, known, stuck⟩
      · rfl
      · have unknown : engine.registry.identifier? name = none := Option.map_eq_none_iff.mp stuck
        have found : ((engine.registry.identifier? name).map (Reference.mk · name)).isSome = true :=
          known
        rw [unknown] at found
        cases found

/-- A reading that is changed at the end is that of a changed text. -/
theorem Engine.readText_map (language : Language) (text : String)
    {parse : List Char → Except Fault α} {other : List Char → Except Fault β} {change : α → β}
    (same : ∀ characters, other characters = (parse characters).map change) :
    engine.readText language text other = (engine.readText language text parse).map change := by
  unfold readText
  split
  · rfl
  · rw [same]
    cases parse text.toList <;> rfl

/-- Two rules that are numbered alike differ as what is read for them. -/
theorem Engine.numbered_map (result : Except Error α) {change : α → α'} {rule : RuleId → α → β}
    {other : RuleId → α' → β'} {back : β → β'}
    (same : ∀ id content, other id (change content) = back (rule id content)) :
    numbered (σ := σ) (result.map change) other = Except.map back <$> numbered result rule := by
  cases result with
  | error error => rfl
  | ok content => simp only [Except.map, numbered, same, map_bind, map_pure]

theorem Engine.parse_map (language : Language) (text : String)
    {plain : List Char → Except Fault α} {resolving : List Char → Resolving Unit β}
    {loose : α → β} {rule : RuleId → α → γ} {other : RuleId → β × Unit → δ} {back : γ → δ}
    (same : ∀ characters, (resolving characters).run () =
      (plain characters).map fun value => (loose value, ()))
    (numbers : ∀ id content, other id (loose content, ()) = back (rule id content)) :
    numbered (σ := σ) (engine.resolveText language text () resolving) other =
      Except.map back <$> numbered (engine.readText language text plain) rule := by
  rw [resolveText, readText_map language text same]
  exact numbered_map _ numbers

include functions

/-- Formulas are read as the loose forms of what they are, and refused for the same reasons. -/
theorem Engine.parseLooseFormula_eq (text : String) :
    engine.parseLooseFormula text =
      Except.map (Rule.map Formula.loose) <$> engine.parseFormula text :=
  parse_map .formula text (fun characters =>
    registered_run functions (.wholeFormula _ (.start characters)) Formula.loose fun formula =>
      congrArg Formula.loose formula.map_id) fun _ _ => rfl

theorem Engine.parseLooseCondition_eq (text : String) :
    engine.parseLooseCondition text =
      Except.map (Rule.map Condition.loose) <$> engine.parseCondition text :=
  parse_map .condition text (fun characters =>
    registered_run functions (.wholeCondition _ (.start characters)) Condition.loose
      fun condition => congrArg Condition.loose condition.map_id) fun _ _ => rfl

theorem Engine.parseLooseOperations_eq (text : String) :
    engine.parseLooseOperations text =
      Except.map OperationRule.loose <$> engine.parseOperations text :=
  parse_map .operation text (fun characters =>
    registered_run functions (.wholeOperations _ characters) (List.map Assignment.loose)
      fun assignments => by
        refine List.map_map.trans (List.map_congr_left fun assignment _ => ?_)
        exact congrArg Assignment.loose assignment.map_id) fun _ _ => rfl

end Registered

/-! ## Names of processes -/

/-- The names of a process are let through as they are resolved. -/
def Engine.localPairing (engine : Engine σ) (functions : engine.functions.Reachable) :
    Pairing (LocalNames σ) String where
  lexicon := engine.localNames
  resolve? := some
  change := Reference.name
  sameNames _ := rfl
  known _ := rfl
  named {name target} found := by
    rcases Identifier.exists_pack? (by decide : 0 < 256) (Nat.le_refl 1) (by decide : 1 ≤ maxRaw)
      with ⟨id, _⟩
    exact ⟨⟨id, target⟩, rfl, (Option.some.inj found).symm⟩
  chooses := functions.chooses

/-- The loose form of a process: its steps mention slots by their identifiers. -/
structure LooseProcess.IsFormOf (loose : LooseProcess) (process : ProcessRule) : Prop where
  id : loose.id = process.id
  slots : loose.slots = process.slots
  separator : loose.separator = process.separator
  steps : ∃ steps : List (Step Reference), loose.steps = steps.map Step.loose ∧
    process.steps = steps.map (Step.map Reference.slot)

/-- The steps of a process mention its slots, which have different names. The first one has
the result, and the others stand for the registered names they are called by. -/
structure LooseProcess.WellFormed (engine : Engine σ) (process : LooseProcess) : Prop where
  result : process.slots.head? = some ⟨ProcessRule.resultName, none⟩
  distinct : (process.slots.map (·.name)).Nodup
  global : ∀ place slot, 0 < place → process.slots[place]? = some slot →
    slot.global? = engine.registry.identifier? slot.name
  limited : process.slots.length ≤ maxRaw
  steps : ∀ step ∈ process.steps, step.Meets engine.functions (·.HasSlot process.slots)

section Local

variable {engine : Engine σ}

theorem Step.Known.named {allowReturn : Bool} {step : Step String}
    (known : step.Known (engine.vocabulary some) allowReturn) :
    step.Meets (.named engine.functions (· ≠ "")) := by
  have imply : Demands.Imply (.known (engine.vocabulary (some : String → Option String)))
      (.known (engine.vocabulary (some : String → Option String)))
      (.named engine.functions (· ≠ "")) :=
    Demands.known_named fun known empty => known.1.1 (congrArg String.toList empty)
  have formula (formula : Formula String)
      (known : formula.Meets (.known (engine.vocabulary some))) :
      formula.Meets (.named engine.functions (· ≠ "")) :=
    formula.meets_of_imply imply known known
  match step, known with
  | .assign assignment, ⟨⟨filled, _⟩, known⟩ =>
      exact ⟨fun empty => filled (congrArg String.toList empty), formula assignment.value known⟩
  | .return none value, ⟨_, known⟩ => exact formula value known
  | .return (some test) value, ⟨_, knownTest, known⟩ =>
      exact ⟨test.meets_of_imply imply knownTest knownTest, formula value known⟩

/-- The steps of an accepted process use its functions, and no name is empty. -/
theorem Engine.named_of_readSteps (functions : engine.functions.Reachable) {text : String}
    {steps : List (Step String)} (read : engine.readSteps text = .ok steps) :
    ∀ step ∈ steps, step.Meets (.named engine.functions (· ≠ "")) := fun step inside =>
  ((known_of_wholeProcess (faithful_some functions) (parse_of_readText read)).2 step inside).named

/-- Steps that mention slots meet what their functions ask. -/
theorem Step.meets_hasSlot {functions : FunctionTable σ} {property : String → Prop}
    {slots : List LocalSlot} {step : Step Reference}
    (meets : (step.map Reference.name).Meets (.named functions property))
    (hasSlots : ∀ reference ∈ step.mentions, reference.HasSlot slots) :
    step.loose.Meets functions (·.HasSlot slots) := by
  rw [Step.meets_map] at meets
  refine step.meets_loose.mpr (step.meets_of_imply ?_ meets (step.meets_naming hasSlots))
  exact ⟨fun _ _ => trivial, fun _ has => has, fun called _ => called, fun chooses _ => chooses⟩

variable (functions : engine.functions.Reachable) {text : String} {start next : World σ}

include functions

/-- A process that resolves its names while it is read is well formed. One that binds them
afterwards is accepted too and has the same slots. -/
theorem Engine.parseProcess_of_loose {process : LooseProcess}
    (accepted : engine.parseLooseProcess text start = some (.ok process, next)) :
    process.WellFormed engine ∧ ∃ bound, process.IsFormOf bound ∧
      engine.parseProcess text start = some (.ok bound, next) := by
  unfold parseLooseProcess at accepted
  cases read : engine.resolveText .process text LocalNames.start
      (Resolving.wholeProcess engine.localNames) with
  | error error =>
      rw [read] at accepted
      cases accepted
  | ok result =>
      rw [read] at accepted
      cases accepted
      rcases result with ⟨loose, names⟩
      have follows := Pairing.Follows.wholeProcess (engine.localPairing functions) text.toList
      rcases follows.sound (parse_of_readText read) with
        ⟨steps, _, isPlain, isLoose, rfl, resolves⟩
      have bindsLater : engine.readSteps text = .ok (steps.map (Step.map Reference.name)) :=
        (readText_eq_ok (size_of_readText read)).mpr isPlain
      rcases (LocalNames.start_inStep engine.registry).resolves rfl resolves with
        ⟨inStep, hasSlots, _⟩
      refine ⟨⟨inStep.result, inStep.distinct, inStep.global, inStep.limited, ?_⟩,
        ⟨⟨start.readings⟩, steps.map (Step.map Reference.slot), names.slots,
          engine.settings.stepSeparator⟩, ⟨rfl, rfl, rfl, steps, isLoose, rfl⟩, ?_⟩
      · intro step inside
        rw [show loose = steps.map Step.loose from isLoose] at inside
        rcases List.mem_map.mp inside with ⟨original, inSteps, rfl⟩
        exact Step.meets_hasSlot
          (named_of_readSteps functions bindsLater _ (List.mem_map_of_mem inSteps))
          fun reference mentioned =>
            hasSlots reference (List.mem_flatMap.mpr ⟨original, inSteps, mentioned⟩)
      · rw [parseProcess, bindsLater, ← LocalNames.ofSteps_eq rfl resolves]
        rfl

/-- A process that binds its names afterwards can resolve them while it is read, unless it has
more slots than there are numbers. -/
theorem Engine.exists_parseLooseProcess {bound : ProcessRule}
    (accepted : engine.parseProcess text start = some (.ok bound, next))
    (few : bound.slots.length ≤ maxRaw) :
    ∃ process, engine.parseLooseProcess text start = some (.ok process, next) := by
  unfold parseProcess at accepted
  cases read : engine.readSteps text with
  | error error =>
      rw [read] at accepted
      cases accepted
  | ok steps =>
      rw [read] at accepted
      cases accepted
      have follows := Pairing.Follows.wholeProcess (engine.localPairing functions) text.toList
      have mentions : (engine.localPairing functions).step.all.mentions steps =
          steps.flatMap Step.mentions :=
        List.flatMap_congr fun step _ => List.map_id step.mentions
      have filled : ∀ name ∈ steps.flatMap Step.mentions, name ≠ "" := by
        intro name mentioned
        rcases List.mem_flatMap.mp mentioned with ⟨step, inside, mentioned⟩
        exact step.name_of_meets (named_of_readSteps functions read step inside) name mentioned
      have room : ((steps.flatMap Step.mentions).foldl addOccurrence
          ((LocalNames.start : LocalNames σ).slots.map (·.name))).length ≤ maxRaw := by
        change ((ProcessRule.slotNames steps).map _).length ≤ maxRaw at few
        rwa [List.length_map] at few
      rcases follows.complete (parse_of_readText read) mentions
        ((LocalNames.start_inStep engine.registry).canResolve rfl filled room) with
        ⟨loose, names, ran⟩
      have resolved : engine.resolveText .process text LocalNames.start
          (Resolving.wholeProcess engine.localNames) = .ok (loose, names) :=
        (readText_eq_ok (size_of_readText read)).mpr ran
      unfold parseLooseProcess
      rw [resolved]
      exact ⟨_, rfl⟩

/-- Both refuse a process for the same reason, unless all numbers of slots are given out before
all of its names are resolved. -/
theorem Engine.parseLooseProcess_error {error : Error}
    (refused : engine.parseLooseProcess text start = some (.error error, next)) :
    engine.parseProcess text start = some (.error error, next) ∨
      ∃ references names, engine.localNames.Resolves LocalNames.start references names ∧
        names.slots.length = maxRaw := by
  unfold parseLooseProcess resolveText readText at refused
  unfold parseProcess readSteps readText
  split at refused
  · rename_i long
    rw [if_pos long]
    cases refused
    exact .inl rfl
  · rename_i fits
    rw [if_neg fits]
    dsimp only at refused
    have follows := Pairing.Follows.wholeProcess (engine.localPairing functions) text.toList
    cases ran : (Resolving.wholeProcess engine.localNames text.toList).run LocalNames.start with
    | ok result =>
        rw [ran] at refused
        cases refused
    | error fault =>
        rw [ran] at refused
        cases refused
        rcases follows.faults ran with same | ⟨references, names, name, resolves, filled, _, stuck⟩
        · rw [show Grammar.wholeProcess (engine.vocabulary some) text.toList = _ from same]
          exact .inl rfl
        · have inStep := ((LocalNames.start_inStep engine.registry).resolves rfl resolves).1
          refine .inr ⟨references, names, resolves, Nat.le_antisymm inStep.limited ?_⟩
          by_contra less
          have resolved := inStep.resolve_isSome filled (.inr (Nat.lt_of_not_le less))
          rw [show LocalNames.resolve engine.registry name names = none from stuck] at resolved
          cases resolved

end Local

end NumericRules
