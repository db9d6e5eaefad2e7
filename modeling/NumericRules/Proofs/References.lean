import NumericRules.Proofs.Demands
import NumericRules.Proofs.Fallbacks

/-! # What an evaluation depends on

Two evaluations of one tree go alike if its names are read alike and its functions use
their scope only through their arguments. The states in which they start may differ in
what the names and the functions do not show.
-/

namespace NumericRules

/-! ## Functions -/

/-- The function uses the calling scope only by evaluating its arguments. -/
inductive Plan.ThroughArguments : Plan σ → Prop
  | answer (value : Binary64) : Plan.ThroughArguments (.answer value)
  | argument (index : Nat) {next : Binary64 → Plan σ} :
      (∀ value, Plan.ThroughArguments (next value)) → Plan.ThroughArguments (.argument index next)
  | host (update : σ → σ) {next : σ → Plan σ} :
      (∀ before, Plan.ThroughArguments (next before)) → Plan.ThroughArguments (.host update next)
  | draw (low high : Int) {next : Int → Plan σ} :
      (∀ drawn, Plan.ThroughArguments (next drawn)) →
      Plan.ThroughArguments (.draw low high next)

/-- Every function that is called uses the scope only by evaluating its arguments. -/
def Demands.throughArguments (functions : FunctionTable σ) : Demands ν where
  number _ := True
  name _ := True
  call function count :=
    ∀ plan, functions.plan? function count = some plan → plan.ThroughArguments
  choose := True

theorem Function.drawBetween_throughArguments (low high : Binary64) :
    (Function.drawBetween low high : Plan σ).ThroughArguments := by
  rw [Function.drawBetween]
  split
  · exact .answer _
  · exact .draw _ _ fun _ => .answer _

theorem FunctionKind.native_throughArguments {overloads : List (Nat × Plan σ)}
    (all : ∀ entry ∈ overloads, entry.2.ThroughArguments) {count : Nat} {plan : Plan σ}
    (found : (FunctionKind.native overloads).plan? count = some plan) :
    plan.ThroughArguments := by
  rcases List.lookup_eq_some_iff.mp found with ⟨before, after, entries, _⟩
  exact all (count, plan) (entries ▸ List.mem_append_right before (.head _))

/-- The built-in functions use the scope only by evaluating their arguments. -/
theorem Function.builtins_throughArguments {name : String} {count : Nat} {plan : Plan σ}
    (found : Function.builtins.plan? name count = some plan) : plan.ThroughArguments := by
  rcases Option.bind_eq_some_iff.mp found with ⟨kind, known, found⟩
  rcases List.lookup_eq_some_iff.mp known with ⟨before, after, entries, _⟩
  have member : (name, kind) ∈ (Function.builtins : FunctionTable σ).entries :=
    entries ▸ List.mem_append_right before (.head _)
  have single {arity : Nat} {known : Plan σ} (through : known.ThroughArguments)
      (found : (FunctionKind.native [(arity, known)]).plan? count = some plan) :
      plan.ThroughArguments :=
    FunctionKind.native_throughArguments
      (fun entry inside => List.mem_singleton.mp inside ▸ through) found
  have below : (Function.randomBelow : Plan σ).ThroughArguments :=
    .argument 0 fun high => Function.drawBetween_throughArguments 0 high
  have between : (Function.randomBetween : Plan σ).ThroughArguments :=
    .argument 0 fun low => .argument 1 fun high =>
      Function.drawBetween_throughArguments low high
  simp only [Function.builtins, List.mem_append, List.mem_cons, List.not_mem_nil, or_false,
    List.mem_map, Prod.mk.injEq] at member
  rcases member with ((⟨_, rfl⟩ | ⟨_, rfl⟩ | ⟨_, rfl⟩) | ⟨unary, _, _, rfl⟩) |
    ⟨binary, _, _, rfl⟩
  · cases found
  · refine FunctionKind.native_throughArguments (fun entry inside => ?_) found
    rcases List.mem_pair.mp inside with rfl | rfl
    · exact below
    · exact between
  · exact single (.answer _) found
  · exact single (.argument 0 fun _ => .answer _) found
  · exact single (.argument 0 fun _ => .argument 1 fun _ => .answer _) found

/-- With the built-in functions, evaluations use the scope for names alone. -/
theorem Demands.imply_throughArguments_builtins : Demands.Imply (ν := ν) (.naming fun _ => True)
    (.naming fun _ => True) (.throughArguments (Function.builtins : FunctionTable σ)) where
  number _ _ := trivial
  name _ _ := trivial
  call _ _ _ found := Function.builtins_throughArguments found
  choose _ _ := trivial

theorem Formula.throughArguments_builtins (formula : Formula ν) :
    formula.Meets (.throughArguments (Function.builtins : FunctionTable σ)) :=
  have naming : formula.Meets (.naming fun _ => True) := formula.meets_naming fun _ _ => trivial
  formula.meets_of_imply Demands.imply_throughArguments_builtins naming naming

theorem Condition.throughArguments_builtins (condition : Condition ν) :
    condition.Meets (.throughArguments (Function.builtins : FunctionTable σ)) :=
  have naming : condition.Meets (.naming fun _ => True) := condition.meets_naming fun _ _ => trivial
  condition.meets_of_imply Demands.imply_throughArguments_builtins naming naming

/-! ## Two runs side by side -/

namespace Run

/-- From related states both runs fail, or both answer alike and end in related states. -/
def Coupled (related : World σ → World σ → Prop) (first second : Run σ α) : Prop :=
  ∀ world other, related world other →
    (first world = none ∧ second other = none) ∨
    ∃ value after otherAfter, first world = some (value, after) ∧
      second other = some (value, otherAfter) ∧ related after otherAfter

/-- The state of the host program and the dice are the same in related states, and stay
so. -/
structure Coupling (related : World σ → World σ → Prop) : Prop where
  host : ∀ update : σ → σ, Coupled related (changeHost update) (changeHost update)
  draw : ∀ low high, Coupled related (draw low high) (draw low high)

namespace Coupled

variable {related : World σ → World σ → Prop}

theorem pure (value : α) : Coupled related (pure value) (pure value) :=
  fun world other are => .inr ⟨value, world, other, rfl, rfl, are⟩

theorem bind {first second : Run σ α} {next further : α → Run σ β}
    (coupled : Coupled related first second)
    (later : ∀ value, Coupled related (next value) (further value)) :
    Coupled related (first >>= next) (second >>= further) := by
  intro world other are
  rw [bind_apply, bind_apply]
  rcases coupled world other are with ⟨fails, alsoFails⟩ |
    ⟨value, after, otherAfter, ran, alsoRan, areAfter⟩
  · exact .inl ⟨by rw [fails], by rw [alsoFails]⟩
  · rw [ran, alsoRan]
    exact later value after otherAfter areAfter

/-- Runs that go alike from the same states are the same. -/
theorem eq {first second : Run σ α} (coupled : Coupled Eq first second) : first = second := by
  funext world
  rcases coupled world world rfl with ⟨fails, alsoFails⟩ |
    ⟨value, after, otherAfter, ran, alsoRan, same⟩
  · rw [fails, alsoFails]
  · rw [ran, alsoRan, same]

theorem of_eq {first second : Run σ α} (same : first = second) : Coupled Eq first second := by
  subst same
  rintro world _ rfl
  cases ran : first world with
  | none => exact .inl ⟨rfl, rfl⟩
  | some outcome => exact .inr ⟨outcome.1, outcome.2, outcome.2, rfl, rfl, rfl⟩

end Coupled

theorem coupling_eq : Coupling (σ := σ) Eq where
  host _ := .of_eq rfl
  draw _ _ := .of_eq rfl

end Run

open Run (Coupled Coupling)

/-! ## Evaluation -/

section Evaluation

variable {related : World σ → World σ → Prop} {functions : FunctionTable σ}
  {scope other : Scope σ ν}

/-- What a function gets for one of its arguments. -/
theorem Run.argument_coupled {arguments others : List (Run σ Binary64)}
    (alike : List.Forall₂ (Coupled related) arguments others) (index : Nat) :
    Coupled related ((arguments[index]?).getD (pure 0)) ((others[index]?).getD (pure 0)) := by
  induction alike generalizing index with
  | nil => exact .pure 0
  | cons head _ induction =>
      cases index with
      | zero => exact head
      | succ index => exact induction index

theorem Plan.run_coupled (coupling : Coupling related) {plan : Plan σ}
    (through : plan.ThroughArguments) (identifier alternative : Identifier → Run σ Binary64)
    {arguments others : List (Run σ Binary64)}
    (alike : List.Forall₂ (Coupled related) arguments others) :
    Coupled related (plan.run identifier arguments) (plan.run alternative others) := by
  induction through with
  | answer value => exact .pure value
  | argument index _ induction => exact (Run.argument_coupled alike index).bind induction
  | host update _ induction => exact (coupling.host update).bind induction
  | draw low high _ induction => exact (coupling.draw low high).bind induction

theorem Plan.run_coupled_of_reads (coupling : Coupling related) (plan : Plan σ)
    {identifier alternative : Identifier → Run σ Binary64}
    (reads : ∀ id, Coupled related (identifier id) (alternative id))
    {arguments others : List (Run σ Binary64)}
    (alike : List.Forall₂ (Coupled related) arguments others) :
    Coupled related (plan.run identifier arguments) (plan.run alternative others) := by
  induction plan with
  | answer value => exact .pure value
  | argument index _ induction => exact (Run.argument_coupled alike index).bind induction
  | read id _ induction => exact (reads id).bind induction
  | host update _ induction => exact (coupling.host update).bind induction
  | draw low high _ induction => exact (coupling.draw low high).bind induction

/-- The functions that meet the demands go alike in both scopes. -/
def Demands.Couple (related : World σ → World σ → Prop) (functions : FunctionTable σ)
    (scope other : Scope σ ν) (demands : Demands ν) : Prop :=
  ∀ function count plan, demands.call function count →
    functions.plan? function count = some plan →
    ∀ arguments others, List.Forall₂ (Coupled related) arguments others →
      Coupled related (plan.run scope.identifier arguments) (plan.run other.identifier others)

theorem Demands.couple_throughArguments (coupling : Coupling related) :
    (Demands.throughArguments functions).Couple related functions scope other :=
  fun _ _ plan through found _ _ alike => Plan.run_coupled coupling (through plan found) _ _ alike

theorem Demands.couple_of_reads (coupling : Coupling related)
    (reads : ∀ id, Coupled related (scope.identifier id) (other.identifier id)) :
    (Demands.naming fun _ => True).Couple related functions scope other :=
  fun _ _ plan _ _ _ _ alike => plan.run_coupled_of_reads coupling reads alike

section Trees

variable {demands : Demands ν}

mutual
/-- Formulas whose names are read alike are evaluated alike. -/
theorem Formula.evaluate_coupled (couple : demands.Couple related functions scope other) :
    (formula : Formula ν) → formula.Meets demands →
    (∀ reference ∈ formula.references,
      Coupled related (scope.name reference) (other.name reference)) →
    Coupled related (formula.evaluate functions scope) (formula.evaluate functions other)
  | .constant value, _, _ => .pure value
  | .name reference, _, alike => alike reference (List.mem_singleton_self reference)
  | .binary left _ right, meets, alike =>
      have parts := List.forall_mem_append.mp alike
      (left.evaluate_coupled couple meets.1 parts.1).bind fun _ =>
        (right.evaluate_coupled couple meets.2 parts.2).bind fun _ => .pure _
  | .negate inner, meets, alike =>
      (inner.evaluate_coupled couple meets alike).bind fun _ => .pure _
  | .call function arguments, meets, alike => by
      have evaluated := Formula.evaluations_coupled couple arguments meets.2 alike
      rw [Formula.evaluate, Formula.evaluate]
      split
      · rename_i plan found
        exact couple function arguments.length plan meets.1 found _ _ evaluated
      · exact .pure 0
  | .choose test whenTrue whenFalse, meets, alike => by
      have parts := List.forall_mem_append.mp alike
      have branches := List.forall_mem_append.mp parts.2
      refine (test.check_coupled couple meets.2.1 parts.1).bind fun holds => ?_
      cases holds with
      | true => exact whenTrue.evaluate_coupled couple meets.2.2.1 branches.1
      | false => exact whenFalse.evaluate_coupled couple meets.2.2.2 branches.2

theorem Formula.evaluations_coupled (couple : demands.Couple related functions scope other) :
    (formulas : List (Formula ν)) →
    Formula.MeetAll demands formulas →
    (∀ reference ∈ Formula.referencesAll formulas,
      Coupled related (scope.name reference) (other.name reference)) →
    List.Forall₂ (Coupled related) (Formula.evaluations functions scope formulas)
      (Formula.evaluations functions other formulas)
  | [], _, _ => .nil
  | head :: tail, meets, alike =>
      have parts := List.forall_mem_append.mp alike
      .cons (head.evaluate_coupled couple meets.1 parts.1)
        (Formula.evaluations_coupled couple tail meets.2 parts.2)

theorem Condition.check_coupled (couple : demands.Couple related functions scope other) :
    (condition : Condition ν) → condition.Meets demands →
    (∀ reference ∈ condition.references,
      Coupled related (scope.name reference) (other.name reference)) →
    Coupled related (condition.check functions scope) (condition.check functions other)
  | .literal value, _, _ => .pure value
  | .compare left _ right, meets, alike =>
      have parts := List.forall_mem_append.mp alike
      (left.evaluate_coupled couple meets.1 parts.1).bind fun _ =>
        (right.evaluate_coupled couple meets.2 parts.2).bind fun _ => .pure _
  | .connect left connective right, meets, alike => by
      have parts := List.forall_mem_append.mp alike
      refine (left.check_coupled couple meets.1 parts.1).bind fun holds => ?_
      cases connective <;> cases holds
      · exact .pure false
      · exact right.check_coupled couple meets.2 parts.2
      · exact right.check_coupled couple meets.2 parts.2
      · exact .pure true
end

end Trees

end Evaluation

/-! ## Scopes that agree on the names -/

section Agreement

variable {functions : FunctionTable σ} {scope other : Scope σ ν}

theorem Formula.evaluate_eq {formula : Formula ν}
    (through : formula.Meets (.throughArguments functions))
    (agree : ∀ reference ∈ formula.references, scope.name reference = other.name reference) :
    formula.evaluate functions scope = formula.evaluate functions other :=
  (formula.evaluate_coupled (Demands.couple_throughArguments Run.coupling_eq) through fun reference inside =>
    .of_eq (agree reference inside)).eq

theorem Condition.check_eq {condition : Condition ν}
    (through : condition.Meets (.throughArguments functions))
    (agree : ∀ reference ∈ condition.references, scope.name reference = other.name reference) :
    condition.check functions scope = condition.check functions other :=
  (condition.check_coupled (Demands.couple_throughArguments Run.coupling_eq) through fun reference inside =>
    .of_eq (agree reference inside)).eq

end Agreement

end NumericRules
