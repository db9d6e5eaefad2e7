import NumericRules.Proofs.Grammar.StatementForm
import NumericRules.Proofs.Renaming
import NumericRules.Proofs.Rereading
import NumericRules.Proofs.ValueForm

/-! # Symbolic forms read back

The symbolic form of a rule is read again exactly when no minus of the rule stands over
another one or over a negative number. The result is then the same rule, but for
minuses before numbers.
-/

namespace NumericRules

open Grammar

/-! ## Plain statements -/

theorem isStep_of_plain [Named ν] {vocabulary : Vocabulary ν} {allowReturn : Bool} {step : Step ν}
    (plain : step.Meets .plain) (known : step.Known vocabulary allowReturn) :
    IsStep vocabulary allowReturn step := by
  have imply := Demands.plain_writable vocabulary
  match step, plain, known with
  | .assign assignment, ⟨word, plain⟩, ⟨⟨nonempty, resolved⟩, known⟩ =>
      exact ⟨nonempty, List.all_eq_true.mp word, resolved,
        assignment.value.meets_of_imply imply plain known⟩
  | .return none value, plain, ⟨allowed, known⟩ =>
      exact ⟨allowed, value.meets_of_imply imply plain known⟩
  | .return (some test) value, ⟨plainTest, plain⟩, ⟨allowed, knownTest, known⟩ =>
      exact ⟨allowed, test.meets_of_imply imply plainTest knownTest,
        value.meets_of_imply imply plain known⟩

/-! ## Processes -/

namespace ProcessRule

theorem sameNames_slotOf (names : List String) : SameNames (slotOf names) := fun _ => rfl

theorem form_ofSteps (id : RuleId) (separator : Char) (identifier? : String → Option Identifier)
    (steps : List (Step String)) :
    (ofSteps id separator identifier? steps).form =
      joinWith separator (steps.map Step.form) := by
  have same : ∀ step : Step String,
      (step.map (slotOf (slotNames steps))).form = step.form :=
    fun step => step.form_map (sameNames_slotOf _)
  simp [ProcessRule.form, ofSteps, Function.comp_def, same]

/-- A process with the minuses before numbers folded into them, under another number. -/
def foldSigns (id : RuleId) (process : ProcessRule) : ProcessRule :=
  { process with id, steps := process.steps.map Step.foldSigns }

/-- Minuses have no part in the binding of names. -/
theorem ofSteps_foldSigns (id other : RuleId) (separator : Char)
    (identifier? : String → Option Identifier) (steps : List (Step String)) :
    ofSteps id separator identifier? (steps.map Step.foldSigns) =
      (ofSteps other separator identifier? steps).foldSigns id := by
  have names : slotNames (steps.map Step.foldSigns) = slotNames steps := by
    simp [slotNames, List.flatMap_map, Step.mentions_foldSigns]
  simp [ofSteps, foldSigns, names, Function.comp_def, Step.foldSigns_map]

end ProcessRule

/-! ## Reading again -/

namespace Engine

/-- Reading the form of a rule that was read, with limits that allow it, gives the rule
`again` under the number of the new reading where `single` holds, and a fault otherwise.
Rules that are not `plain` are left out. -/
def Rereads (engine : Engine σ) (parse : Engine σ → String → Run σ (Except Error ρ))
    (form : ρ → List Char) (plain : ρ → Prop) (single : ρ → Bool) (again : RuleId → ρ → ρ) : Prop :=
  ∀ text start rule next, parse engine text start = some (.ok rule, next) → plain rule →
    ∀ bytes depth, (engine.withLimits bytes depth).Allows (form rule) → ∀ world,
      ∃ outcome after,
        parse (engine.withLimits bytes depth) (String.ofList (form rule)) world =
          some (outcome, after) ∧
        SucceedsIf (single rule) (again ⟨world.readings⟩ rule) outcome

theorem numbered_succeedsIf {condition : Bool} {content : α} {result : Except Error α}
    (succeeds : SucceedsIf condition content result) (rule : RuleId → α → β) (world : World σ) :
    ∃ outcome after, numbered result rule world = some (outcome, after) ∧
      SucceedsIf condition (rule ⟨world.readings⟩ content) outcome := by
  rcases numbered_outcome succeeds.ok succeeds.fails rule world with
    ⟨outcome, after, ran, accepted, refused⟩
  exact ⟨outcome, after, ran, accepted, refused⟩

theorem readText_succeedsIf {engine : Engine σ} {language : Language} {text : List Char}
    {parse : List Char → Except Fault α} {condition : Bool} {content : α}
    (size : (String.ofList text).utf8ByteSize ≤ engine.settings.maxSourceBytes)
    (succeeds : SucceedsIf condition content (parse text)) :
    SucceedsIf condition content (engine.readText language (String.ofList text) parse) := by
  rw [← String.toList_ofList (l := text)] at succeeds
  rcases readText_outcome size succeeds.ok succeeds.fails with ⟨accepted, refused⟩
  exact ⟨accepted, refused⟩

section Languages

variable {engine : Engine σ} (reachable : engine.functions.Reachable)
  (comma : engine.settings.argumentSeparator = ',')

include reachable comma

theorem rereads_formula :
    engine.Rereads parseFormula (·.root.form) (·.root.Meets .plain) (·.root.singleMinuses)
      fun id rule => ⟨id, rule.root.foldSigns⟩ := by
  intro text start rule next accepted plain bytes depth allowed world
  rcases ok_of_numbered accepted with ⟨tree, read, rfl⟩
  let limited := engine.withLimits bytes depth
  have writable : tree.Meets (.writable (limited.vocabulary limited.reference?)) :=
    tree.meets_of_imply (Demands.plain_writable _) plain (known_of_readFormula reachable read)
  have whole : SucceedsIf tree.singleMinuses tree.foldSigns
      (wholeFormula (limited.vocabulary limited.reference?) (.start tree.form)) :=
    wholeFormula_form comma writable allowed.depth 0
  exact numbered_succeedsIf (readText_succeedsIf allowed.size whole) _ world

theorem rereads_condition :
    engine.Rereads parseCondition (·.root.form) (·.root.Meets .plain) (·.root.singleMinuses)
      fun id rule => ⟨id, rule.root.foldSigns⟩ := by
  intro text start rule next accepted plain bytes depth allowed world
  rcases ok_of_numbered accepted with ⟨tree, read, rfl⟩
  let limited := engine.withLimits bytes depth
  have writable : tree.Meets (.writable (limited.vocabulary limited.reference?)) :=
    tree.meets_of_imply (Demands.plain_writable _) plain (known_of_readCondition reachable read)
  have whole : SucceedsIf tree.singleMinuses tree.foldSigns
      (wholeCondition (limited.vocabulary limited.reference?) (.start tree.form)) :=
    wholeCondition_form comma writable allowed.depth 0
  exact numbered_succeedsIf (readText_succeedsIf allowed.size whole) _ world

variable (blank : engine.settings.stepSeparator = ' ')

include blank

theorem rereads_operations :
    engine.Rereads parseOperations OperationRule.form
      (fun rule => ∀ assignment ∈ rule.assignments, assignment.Meets .plain)
      (fun rule => rule.assignments.all (·.value.singleMinuses))
      (fun id rule =>
        { rule with id, assignments := rule.assignments.map Assignment.foldSigns }) := by
  intro text start rule next accepted plain bytes depth allowed world
  rcases ok_of_numbered accepted with ⟨assignments, read, rfl⟩
  let limited := engine.withLimits bytes depth
  rcases known_of_wholeOperations (faithful reachable) (parse_of_readText read) with
    ⟨nonempty, known⟩
  have writable : ∀ assignment ∈ assignments,
      IsAssignment (limited.vocabulary limited.reference?) assignment := by
    intro assignment inside
    have isStep : IsStep (limited.vocabulary limited.reference?) false (.assign assignment) :=
      isStep_of_plain (plain assignment inside) (known assignment inside)
    exact isStep
  have form : OperationRule.form ⟨⟨start.readings⟩, assignments, engine.settings.stepSeparator⟩ =
      joinWith ' ' (assignments.map Assignment.form) := by
    rw [OperationRule.form, blank]
  rw [form] at allowed
  have whole := wholeOperations_form comma blank nonempty writable allowed.depth
  rw [form]
  exact numbered_succeedsIf (readText_succeedsIf allowed.size whole) _ world

theorem rereads_process :
    engine.Rereads parseProcess ProcessRule.form
      (fun rule => ∀ step ∈ rule.steps, step.Meets .plain)
      (fun rule => rule.steps.all Step.singleMinuses) ProcessRule.foldSigns := by
  intro text start rule next accepted plain bytes depth allowed world
  rcases ok_of_numbered accepted with ⟨steps, read, rfl⟩
  let limited := engine.withLimits bytes depth
  rcases known_of_wholeProcess (faithful_some reachable) (parse_of_readText read) with
    ⟨nonempty, known⟩
  have areSteps : ∀ step ∈ steps, IsStep (limited.vocabulary some) true step := by
    intro step inside
    have bound := plain _ (List.mem_map_of_mem inside)
    exact isStep_of_plain (step.meets_map.mp bound) (known step inside)
  rw [ProcessRule.form_ofSteps, blank] at allowed ⊢
  have whole := wholeProcess_form comma blank nonempty areSteps allowed.depth
  have single : ((ProcessRule.ofSteps ⟨start.readings⟩ ' ' engine.registry.identifier?
      steps).steps.all Step.singleMinuses) = steps.all Step.singleMinuses := by
    simp [ProcessRule.ofSteps, Function.comp_def, Step.singleMinuses_map]
  dsimp only
  rw [single, ← ProcessRule.ofSteps_foldSigns]
  have readAgain : SucceedsIf (steps.all Step.singleMinuses) (steps.map Step.foldSigns)
      (limited.readSteps (String.ofList (joinWith ' ' (steps.map Step.form)))) :=
    readText_succeedsIf allowed.size whole
  have separator : limited.settings.stepSeparator = ' ' := blank
  have parse (text : String) : (engine.withLimits bytes depth).parseProcess text =
      numbered (limited.readSteps text)
        fun id => ProcessRule.ofSteps id ' ' limited.registry.identifier? := by
    rw [← separator]
    rfl
  rw [parse]
  exact numbered_succeedsIf readAgain _ world

end Languages

/-- The symbolic form of a formula, a condition, operations or a process is read again
exactly when no minus in it stands over another one or over a negative number. The
result is the same, but for minuses before numbers. -/
theorem form_rereads (engine : Engine σ) (reachable : engine.functions.Reachable)
    (comma : engine.settings.argumentSeparator = ',')
    (blank : engine.settings.stepSeparator = ' ') :
    engine.Rereads parseFormula (·.root.form) (·.root.Meets .plain) (·.root.singleMinuses)
      (fun id rule => ⟨id, rule.root.foldSigns⟩) ∧
    engine.Rereads parseCondition (·.root.form) (·.root.Meets .plain) (·.root.singleMinuses)
      (fun id rule => ⟨id, rule.root.foldSigns⟩) ∧
    engine.Rereads parseOperations OperationRule.form
      (fun rule => ∀ assignment ∈ rule.assignments, assignment.Meets .plain)
      (fun rule => rule.assignments.all (·.value.singleMinuses))
      (fun id rule => { rule with id, assignments := rule.assignments.map Assignment.foldSigns }) ∧
    engine.Rereads parseProcess ProcessRule.form
      (fun rule => ∀ step ∈ rule.steps, step.Meets .plain)
      (fun rule => rule.steps.all Step.singleMinuses) ProcessRule.foldSigns :=
  ⟨rereads_formula reachable comma, rereads_condition reachable comma,
    rereads_operations reachable comma blank, rereads_process reachable comma blank⟩

/-! ### A form that is read again and one that is not -/

/-- A registered name. -/
def measured : Formula Reference := .name ⟨⟨0x1000001, Nat.one_ne_zero⟩, "x"⟩

/-- A minus before a number in brackets and one before a name. -/
def fourMinus : Formula Reference :=
  .binary (.negate (.constant ⟨0x4010000000000000⟩)) .subtract (.negate measured)

theorem form_rereads_fourMinus :
    measuring.functions.Reachable ∧ measuring.settings.argumentSeparator = ',' ∧
    measuring.settings.stepSeparator = ' ' ∧
    (∃ next, measuring.parseFormula "-(4) - -x" (measuring.start 0 (.ofSeed 0)) =
      some (.ok ⟨⟨0⟩, fourMinus⟩, next)) ∧
    fourMinus.Meets .plain ∧ (measuring.withLimits 100 100).Allows fourMinus.form ∧
    ∃ after, (measuring.withLimits 100 100).parseFormula (String.ofList fourMinus.form)
        (measuring.start 0 (.ofSeed 0)) =
      some (.ok ⟨⟨0⟩, .binary (.constant ⟨0xc010000000000000⟩) .subtract (.negate measured)⟩,
        after) := by
  let start := measuring.start 0 (.ofSeed 0)
  have accepted : ∃ next, measuring.parseFormula "-(4) - -x" start =
      some (.ok ⟨⟨0⟩, fourMinus⟩, next) := ⟨_, rfl⟩
  have plain : fourMinus.Meets .plain := by
    refine ⟨?_, ?_⟩
    all_goals change _ = true
    all_goals decide
  have allowed : (measuring.withLimits 100 100).Allows fourMinus.form := ⟨by decide, by decide⟩
  have rereads := (form_rereads measuring .builtins rfl rfl).1
  rcases accepted with ⟨next, accepted⟩
  rcases rereads _ start _ next accepted plain 100 100 allowed start with
    ⟨outcome, after, ran, succeeds⟩
  have single : fourMinus.singleMinuses = true := by decide
  have again := succeeds.ok single
  subst again
  exact ⟨.builtins, rfl, rfl, ⟨next, accepted⟩, plain, allowed, after, ran⟩

/-- Two minuses before a name are read with brackets between them only, whatever the
limits. -/
theorem twoMinuses_refused :
    measuring.readFormula "-(-x)" = .ok (.negate (.negate measured)) ∧
    (Formula.negate (.negate measured)).Meets .plain ∧
    (Formula.negate (.negate measured)).form = ['-', '-', 'x'] ∧
    ∀ bytes depth tree,
      (measuring.withLimits bytes depth).readFormula (String.ofList ['-', '-', 'x']) ≠
        .ok tree := by
  have plain : (Formula.negate (.negate measured)).Meets .plain := by
    change _ = true
    decide
  refine ⟨rfl, plain, rfl, fun bytes depth tree read => ?_⟩
  have name : Compact (· ≠ ',') ['x'] := IsWord.compact (by decide)
  have derivation := (formula_condition_reads _ _).1.whole (parse_of_readText read)
  have tight := derivation.relax (name.minus.minus.covers rfl)
  have fits : Grammar.minuses 1 ['-', '-', 'x'] = some 2 := tight.minuses rfl
  cases fits

end Engine

end NumericRules
