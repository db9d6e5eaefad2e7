import NumericRules.Proofs.ProcessRun
import NumericRules.Proofs.Renaming
import NumericRules.Proofs.Valuations
import Mathlib.Tactic.Choose

/-! # Evaluation without effects

Functions that use nothing but the values of their arguments make an evaluation depend
on the values of the names alone. It then changes nothing, and it has the same result
wherever the names have the same values.
-/

namespace NumericRules

/-! ## Runs with a fixed value -/

/-- Where the store is as given, the run has the value and changes nothing. -/
def Run.Fixed (store : Store σ) (run : Run σ α) (value : α) : Prop :=
  ∀ world, world.store = store → run world = some (value, world)

namespace Run.Fixed

variable {store : Store σ}

theorem pure (value : α) : Run.Fixed store (pure value) value := fun _ _ => rfl

theorem bind {first : Run σ α} {next : α → Run σ β} {value : α} {result : β}
    (ofFirst : first.Fixed store value) (ofNext : (next value).Fixed store result) :
    (first >>= next).Fixed store result := by
  intro world same
  rw [bind_apply, ofFirst world same]
  exact ofNext world same

end Run.Fixed

/-- Having a value with a store is kept by sequences. -/
def Run.Valuation.fixed (store : Store σ) : Run.Valuation σ where
  has := Run.Fixed store
  has_pure := .pure
  has_bind := .bind

/-! ## Functions -/

/-- Once its arguments are evaluated, the function has one answer in every scope and
every state, and changes nothing. -/
def Plan.FromArguments (plan : Plan σ) (arity : Nat) : Prop :=
  ∀ values : List Binary64, values.length = arity → ∃ answer,
    ∀ (identifier : Identifier → Run σ Binary64) (world : World σ),
      plan.run identifier (values.map pure) world = some (answer, world)

/-- Arguments evaluate to the values, one by one. -/
abbrev FixedAll (store : Store σ) : List (Run σ Binary64) → List Binary64 → Prop :=
  List.Forall₂ fun run value => run.Fixed store value

/-- What a plan does with evaluated arguments it does with arguments that evaluate so,
if it does not read its scope. -/
theorem Plan.run_of_values {plan : Plan σ} {store : Store σ} {arguments : List (Run σ Binary64)}
    {values : List Binary64} (fixed : FixedAll store arguments values)
    (identifier : Identifier → Run σ Binary64) {world after : World σ} {answer : Binary64}
    (same : world.store = store)
    (ran : plan.run (fun _ => failure) (values.map pure) world = some (answer, after)) :
    plan.run identifier arguments world = some (answer, after) := by
  induction plan generalizing world with
  | answer value => exact ran
  | argument index next induction =>
      have value : (((values.map pure)[index]?).getD (pure 0) : Run σ Binary64) =
          pure ((values[index]?).getD 0) := by
        rw [List.getElem?_map]
        cases values[index]? <;> rfl
      rw [Plan.run, value, pure_bind] at ran
      have evaluated : Run.Fixed store ((arguments[index]?).getD (pure 0))
          ((values[index]?).getD 0) := (Run.Valuation.fixed store).has_getElem? fixed index
      rw [Plan.run, Run.bind_apply, evaluated world same]
      exact induction _ same ran
  | read id next induction => cases ran
  | host update next induction =>
      rcases Run.bind_eq_some ran with ⟨before, between, changed, ran⟩
      cases changed
      exact induction _ same ran
  | draw low high next induction =>
      rcases Run.bind_eq_some ran with ⟨drawn, between, changed, ran⟩
      cases changed
      exact induction _ same ran

theorem Plan.FromArguments.exists_answer {plan : Plan σ} {values : List Binary64}
    (fromArguments : plan.FromArguments values.length) :
    ∃ answer, ∀ (store : Store σ) (identifier : Identifier → Run σ Binary64)
      (arguments : List (Run σ Binary64)), FixedAll store arguments values →
      (plan.run identifier arguments).Fixed store answer := by
  rcases fromArguments values rfl with ⟨answer, answers⟩
  refine ⟨answer, fun store identifier arguments fixed world same => ?_⟩
  exact plan.run_of_values fixed identifier same (answers _ world)

theorem Plan.fromArguments_unary (function : Binary64 → Binary64) :
    (Plan.unary function : Plan σ).FromArguments 1 := by
  intro values count
  rcases List.length_eq_one_iff.mp count with ⟨value, rfl⟩
  exact ⟨function value, fun _ _ => rfl⟩

theorem Plan.fromArguments_binary (function : Binary64 → Binary64 → Binary64) :
    (Plan.binary function : Plan σ).FromArguments 2 := by
  intro values count
  rcases List.length_eq_two.mp count with ⟨first, second, rfl⟩
  exact ⟨function first second, fun _ _ => rfl⟩

/-- A function of one number of arguments. -/
theorem FunctionKind.fromArguments_native {arity count : Nat} {plan chosen : Plan σ}
    (fromArguments : plan.FromArguments arity)
    (found : (FunctionKind.native [(arity, plan)]).plan? count = some chosen) :
    chosen.FromArguments count := by
  rcases List.lookup_eq_some_iff.mp found with ⟨before, after, entries, _⟩
  have same : (count, chosen) ∈ [(arity, plan)] := entries ▸ List.mem_append_right before (.head _)
  cases List.mem_singleton.mp same
  exact fromArguments

/-- The built-in functions use nothing but the values of their arguments, except for the
one that draws numbers. -/
theorem Function.builtins_fromArguments {name : String} {count : Nat} {plan : Plan σ}
    (notRandom : name ≠ "Random") (found : Function.builtins.plan? name count = some plan) :
    plan.FromArguments count := by
  rcases Option.bind_eq_some_iff.mp found with ⟨kind, known, found⟩
  rcases List.lookup_eq_some_iff.mp known with ⟨before, after, entries, _⟩
  have member : (name, kind) ∈ (Function.builtins : FunctionTable σ).entries :=
    entries ▸ List.mem_append_right before (.head _)
  simp only [Function.builtins, List.mem_append, List.mem_cons, List.not_mem_nil, or_false,
    List.mem_map, Prod.mk.injEq] at member
  rcases member with ((⟨_, rfl⟩ | ⟨isRandom, _⟩ | ⟨_, rfl⟩) | ⟨unary, _, _, rfl⟩) |
    ⟨binary, _, _, rfl⟩
  · cases found
  · exact absurd isRandom notRandom
  · refine FunctionKind.fromArguments_native (fun values _ => ?_) found
    exact ⟨.notANumber false, fun _ _ => rfl⟩
  · exact FunctionKind.fromArguments_native (Plan.fromArguments_unary unary.2) found
  · exact FunctionKind.fromArguments_native (Plan.fromArguments_binary binary.2) found

/-! ## Trees -/

/-- Functions use nothing but the values of their arguments. -/
def Demands.fromArguments (functions : FunctionTable σ) : Demands ν where
  number _ := True
  name _ := True
  call function count := ∀ plan, functions.plan? function count = some plan →
    plan.FromArguments count
  choose := True

section Trees

variable {functions : FunctionTable σ}

/-- The scope where names have the values of what they are changed to. -/
def Scope.before (scope : Scope σ μ) (change : ν → μ) : Scope σ ν where
  name reference := scope.name (change reference)
  identifier := scope.identifier

section Change

variable {scope : Scope σ μ} {change : ν → μ}

mutual
theorem Formula.evaluate_map : (formula : Formula ν) →
    (formula.map change).evaluate functions scope =
      formula.evaluate functions (scope.before change)
  | .constant _ => rfl
  | .name _ => rfl
  | .binary left _ right => by
      rw [Formula.map, Formula.evaluate, Formula.evaluate, left.evaluate_map, right.evaluate_map]
  | .negate inner => by
      rw [Formula.map, Formula.evaluate, Formula.evaluate, inner.evaluate_map]
  | .call _ arguments => by
      rw [Formula.map, Formula.evaluate, Formula.evaluate, length_mapAll,
        Formula.evaluations_mapAll arguments]
      rfl
  | .choose test whenTrue whenFalse => by
      rw [Formula.map, Formula.evaluate, Formula.evaluate, test.check_map, whenTrue.evaluate_map,
        whenFalse.evaluate_map]

theorem Formula.evaluations_mapAll : (formulas : List (Formula ν)) →
    Formula.evaluations functions scope (Formula.mapAll change formulas) =
      Formula.evaluations functions (scope.before change) formulas
  | [] => rfl
  | head :: tail => congrArg₂ (· :: ·) head.evaluate_map (Formula.evaluations_mapAll tail)

theorem Condition.check_map : (condition : Condition ν) →
    (condition.map change).check functions scope =
      condition.check functions (scope.before change)
  | .literal _ => rfl
  | .compare left _ right => by
      rw [Condition.map, Condition.check, Condition.check, left.evaluate_map, right.evaluate_map]
  | .connect left _ right => by
      rw [Condition.map, Condition.check, Condition.check, left.check_map, right.check_map]
end

end Change

variable (lookup : ν → Binary64)

/-- In the scope the references have their values. -/
def Scope.Gives (scope : Scope σ ν) (store : Store σ) (lookup : ν → Binary64)
    (references : List ν) : Prop :=
  ∀ reference ∈ references, (scope.name reference).Fixed store (lookup reference)

/-- Functions that use nothing but the values of their arguments have answers. -/
theorem FunctionTable.exists_answers (functions : FunctionTable σ) :
    ∃ answers : String → List Binary64 → Binary64,
      ∀ (store : Store σ) (identifier : Identifier → Run σ Binary64), Demands.Imply (ν := ν)
        (.fromArguments functions) (.fromArguments functions)
        (.answered (.fixed store) functions identifier answers) := by
  rcases functions.exists_answers_of Plan.FromArguments
      (fun setting : Store σ × (Identifier → Run σ Binary64) => .fixed setting.1)
      (fun setting => setting.2) (fun plan values fromArguments => by
        rcases fromArguments.exists_answer with ⟨answer, answers⟩
        exact ⟨answer, fun setting => answers setting.1 setting.2⟩) with ⟨answers, answered⟩
  refine ⟨answers, fun store identifier => ⟨fun _ _ => trivial, fun _ _ => trivial, ?_,
    fun _ _ => trivial⟩⟩
  intro function count fromArguments _ arguments values sameCount fixed
  subst sameCount
  exact answered function values fromArguments (store, identifier) arguments fixed

/-- Once their arguments are evaluated, functions that use nothing but these have the
answers. -/
def FunctionTable.AnsweredBy (functions : FunctionTable σ)
    (answers : String → List Binary64 → Binary64) : Prop :=
  ∀ (ν : Type) (store : Store σ) (identifier : Identifier → Run σ Binary64),
    Demands.Imply (ν := ν) (.fromArguments functions) (.fromArguments functions)
      (.answered (.fixed store) functions identifier answers)

theorem FunctionTable.exists_answeredBy (functions : FunctionTable σ) :
    ∃ answers, functions.AnsweredBy answers := by
  rcases functions.exists_answers (ν := Unit) with ⟨answers, answered⟩
  exact ⟨answers, fun _ store identifier => ⟨fun _ _ => trivial, fun _ _ => trivial,
    (answered store identifier).call, fun _ _ => trivial⟩⟩

section Answered

variable {answers : String → List Binary64 → Binary64} (answered : functions.AnsweredBy answers)
  {lookup : ν → Binary64} {scope : Scope σ ν} {store : Store σ}

include answered

/-- Where names have values, formulas have the values made of these. -/
theorem Formula.evaluate_fixed {formula : Formula ν}
    (meets : formula.Meets (.fromArguments functions))
    (gives : scope.Gives store lookup formula.references) :
    (formula.evaluate functions scope).Fixed store (formula.value answers lookup) :=
  formula.evaluate_value (formula.meets_of_imply (answered ν store _) meets meets) gives

theorem Condition.check_fixed {condition : Condition ν}
    (meets : condition.Meets (.fromArguments functions))
    (gives : scope.Gives store lookup condition.references) :
    (condition.check functions scope).Fixed store (condition.holds answers lookup) :=
  condition.check_holds (condition.meets_of_imply (answered ν store _) meets meets) gives

end Answered

/-- The value of a formula depends on the values of its names alone. -/
theorem Formula.exists_value (formula : Formula ν)
    (meets : formula.Meets (.fromArguments functions)) :
    ∃ value, ∀ (scope : Scope σ ν) (store : Store σ),
      scope.Gives store lookup formula.references →
      (formula.evaluate functions scope).Fixed store value := by
  rcases functions.exists_answeredBy with ⟨answers, answered⟩
  exact ⟨formula.value answers lookup, fun _ _ gives => Formula.evaluate_fixed answered meets gives⟩

end Trees

end NumericRules
