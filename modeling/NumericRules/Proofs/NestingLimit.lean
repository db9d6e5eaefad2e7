import NumericRules.Proofs.Grammar.Counting
import NumericRules.Proofs.Grammar.Heights
import NumericRules.Proofs.Grammar.Rebinding
import NumericRules.Proofs.Grammar.StepReading
import NumericRules.Proofs.Rereading
import NumericRules.Proofs.ValueForm

/-! # The height of accepted rules

The nesting limit of an engine bounds the height of every formula and condition of an
accepted rule. A counter of the levels that are taken accepts the same texts, and is back
where it was behind everything that is read.
-/

namespace NumericRules

open Grammar

/-- The formulas of the step are no higher than one bound, and its condition no higher than
the other. -/
def Step.Within (formulas conditions : Nat) : Step ν → Prop
  | .assign assignment => assignment.value.depth ≤ formulas
  | .return test? value => (∀ test ∈ test?, test.depth ≤ conditions) ∧ value.depth ≤ formulas

theorem Step.within_map (change : ν → μ) {formulas conditions : Nat} {step : Step ν} :
    (step.map change).Within formulas conditions ↔ step.Within formulas conditions := by
  cases step with
  | assign assignment =>
      exact Eq.to_iff (congrArg (· ≤ formulas) (assignment.value.depth_map change))
  | «return» test? value =>
      cases test? with
      | none => simp [Step.map, Step.Within, Formula.depth_map]
      | some test => simp [Step.map, Step.Within, Formula.depth_map, Condition.depth_map]

theorem Grammar.StepRead.within {vocabulary : Vocabulary ν} {allowReturn : Bool} {step : Step ν}
    (read : StepRead vocabulary allowReturn step) :
    step.Within (formulaBound vocabulary.nestingLimit)
      (conditionBound vocabulary.nestingLimit) := by
  cases read with
  | assign _ _ readValue => exact depth_of_wholeFormula readValue
  | returns _ readValue => exact ⟨nofun, depth_of_wholeFormula readValue⟩
  | returnsIf _ readTest readValue =>
      refine ⟨fun test given => ?_, depth_of_wholeFormula readValue⟩
      cases given
      exact depth_of_wholeCondition readTest

namespace Engine

variable {engine : Engine σ} {text : String} {start next : World σ}

theorem depth_of_parseFormula {rule : FormulaRule}
    (accepted : engine.parseFormula text start = some (.ok rule, next)) :
    rule.root.depth ≤ formulaBound engine.settings.maxDepth := by
  rcases ok_of_numbered accepted with ⟨root, read, rfl⟩
  exact depth_of_wholeFormula (parse_of_readText read)

theorem depth_of_parseCondition {rule : ConditionRule}
    (accepted : engine.parseCondition text start = some (.ok rule, next)) :
    rule.root.depth ≤ conditionBound engine.settings.maxDepth := by
  rcases ok_of_numbered accepted with ⟨root, read, rfl⟩
  exact depth_of_wholeCondition (parse_of_readText read)

theorem depth_of_parseOperations {rule : OperationRule}
    (accepted : engine.parseOperations text start = some (.ok rule, next)) :
    ∀ assignment ∈ rule.assignments,
      assignment.value.depth ≤ formulaBound engine.settings.maxDepth := by
  rcases ok_of_numbered accepted with ⟨assignments, read, rfl⟩
  intro assignment inside
  exact ((stepRead_of_wholeOperations (parse_of_readText read)).2 assignment inside).within

theorem within_of_parseProcess {rule : ProcessRule}
    (accepted : engine.parseProcess text start = some (.ok rule, next)) :
    ∀ step ∈ rule.steps, step.Within (formulaBound engine.settings.maxDepth)
      (conditionBound engine.settings.maxDepth) := by
  rcases ok_of_numbered accepted with ⟨steps, read, rfl⟩
  intro step inside
  rcases List.mem_map.mp inside with ⟨source, isIn, rfl⟩
  exact (Step.within_map _).mpr
    ((stepRead_of_wholeProcess (parse_of_readText read)).2 source isIn).within

/-- Formulas of accepted rules are at most four times as high as the nesting limit, or one
level high, and conditions are at most two levels higher than four times the limit. A
counter of the levels that are taken accepts the same texts and is back where it was behind
everything that is read. -/
theorem accepted_height (engine : Engine σ) :
    (∀ (text : String) (start next : World σ),
      (∀ rule, engine.parseFormula text start = some (.ok rule, next) →
        rule.root.depth ≤ max 1 (4 * engine.settings.maxDepth)) ∧
      (∀ rule, engine.parseCondition text start = some (.ok rule, next) →
        rule.root.depth ≤ 4 * engine.settings.maxDepth + 2) ∧
      (∀ rule, engine.parseOperations text start = some (.ok rule, next) →
        ∀ assignment ∈ rule.assignments,
          assignment.value.depth ≤ max 1 (4 * engine.settings.maxDepth)) ∧
      ∀ rule, engine.parseProcess text start = some (.ok rule, next) →
        ∀ step ∈ rule.steps, step.Within (max 1 (4 * engine.settings.maxDepth))
          (4 * engine.settings.maxDepth + 2)) ∧
    ∀ (ν : Type) (resolve? : String → Option ν) (fuel : Nat), engine.settings.maxDepth < fuel →
      let vocabulary := engine.vocabulary resolve?
      let inner := Counted.inner vocabulary fuel
      (∀ level ≤ engine.settings.maxDepth, Counted.Balanced inner vocabulary level) ∧
      ∀ allowReturn cursor,
        CountsAt 0 (Counted.readStep vocabulary inner allowReturn cursor)
          (Grammar.readStep vocabulary allowReturn cursor) ∧
        ∀ bound, CountsAt 0 (Counted.readSteps vocabulary inner allowReturn bound cursor)
          (Grammar.readSteps vocabulary allowReturn bound cursor) := by
  refine ⟨fun text start next => ⟨?_, ?_, ?_, ?_⟩, ?_⟩
  · exact fun rule accepted => depth_of_parseFormula accepted
  · exact fun rule accepted => depth_of_parseCondition accepted
  · exact fun rule accepted => depth_of_parseOperations accepted
  · exact fun rule accepted => within_of_parseProcess accepted
  · intro ν resolve? fuel enough
    have counts : (Counted.inner (engine.vocabulary resolve?) fuel).Counts
        (engine.vocabulary resolve?) 0 :=
      Counted.inner_counts _ (Nat.zero_le _) (by rwa [Nat.zero_add])
    refine ⟨fun level le => ?_, fun allowReturn cursor => ⟨?_, fun bound => ?_⟩⟩
    · exact Counted.inner_balanced _ le (Nat.le_add_left_of_le (Nat.le_of_lt enough))
    · exact CountsAt.readStep counts allowReturn cursor
    · exact CountsAt.readSteps counts allowReturn bound cursor

/-! ### Trees as high as one level allows -/

/-- One level of nesting and one name besides the built-in ones. -/
def oneLevel : Engine Nat := measuring.withLimits 100 1

/-- A minus before a call whose condition compares a minus. -/
def highFormula : String := "-If(-x<1,1,2)"

def highCondition : String := "-If(-x<1,1,2)<1 && true"

def highProcess : String := "Return(-If(-x<1,1,2)<1&&true,-If(-x<1,1,2))"

theorem accepted_height_oneLevel :
    (∃ rule next, oneLevel.parseFormula highFormula (oneLevel.start 0 (.ofSeed 0)) =
      some (.ok rule, next) ∧ rule.root.depth = 4 ∧ rule.root.depth ≤ max 1 (4 * 1)) ∧
    (∃ rule next, oneLevel.parseCondition highCondition (oneLevel.start 0 (.ofSeed 0)) =
      some (.ok rule, next) ∧ rule.root.depth = 6 ∧ rule.root.depth ≤ 4 * 1 + 2) ∧
    (∃ rule next, oneLevel.parseProcess highProcess (oneLevel.start 0 (.ofSeed 0)) =
      some (.ok rule, next) ∧ ∃ step ∈ rule.steps, step.Within (max 1 (4 * 1)) (4 * 1 + 2)) ∧
    oneLevel.settings.maxDepth < 2 ∧
    Counted.Balanced (Counted.inner (oneLevel.vocabulary oneLevel.reference?) 2)
      (oneLevel.vocabulary oneLevel.reference?) 1 := by
  let start := oneLevel.start 0 (.ofSeed 0)
  have formula : ∃ rule next, oneLevel.parseFormula highFormula start = some (.ok rule, next) ∧
      rule.root.depth = 4 := ⟨_, _, rfl, rfl⟩
  have condition : ∃ rule next,
      oneLevel.parseCondition highCondition start = some (.ok rule, next) ∧
      rule.root.depth = 6 := ⟨_, _, rfl, rfl⟩
  have process : ∃ rule next, oneLevel.parseProcess highProcess start = some (.ok rule, next) ∧
      rule.steps.length = 1 := ⟨_, _, rfl, rfl⟩
  rcases formula with ⟨formula, afterFormula, readFormula, formulaDepth⟩
  rcases condition with ⟨condition, afterCondition, readCondition, conditionDepth⟩
  rcases process with ⟨process, afterProcess, readProcess, single⟩
  have bounds := accepted_height oneLevel
  refine ⟨⟨formula, afterFormula, readFormula, formulaDepth,
    (bounds.1 _ _ _).1 formula readFormula⟩, ⟨condition, afterCondition, readCondition,
    conditionDepth, (bounds.1 _ _ _).2.1 condition readCondition⟩,
    ⟨process, afterProcess, readProcess, ?_⟩, Nat.lt_succ_self 1,
    (bounds.2 Reference oneLevel.reference? 2 (Nat.lt_succ_self 1)).1 1 (Nat.le_refl 1)⟩
  rcases List.length_eq_one_iff.mp single with ⟨step, steps⟩
  have inside : step ∈ process.steps := by rw [steps]; exact List.mem_singleton_self step
  exact ⟨step, inside, (bounds.1 _ _ _).2.2.2 process readProcess step inside⟩

end Engine

end NumericRules
