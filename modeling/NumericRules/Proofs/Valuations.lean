import NumericRules.Evaluation
import NumericRules.Proofs.Demands
import Mathlib.Data.List.Forall2

/-! # The values of formulas

What a formula comes to is made of the values of its names and of the answers of its
functions. A run that evaluates the formula has this value in every sense of having a value
that sequences of runs keep.
-/

namespace NumericRules

namespace Connective

/-- The value of the left side with which the right side does not matter. -/
def decider : Connective → Bool
  | .and => false
  | .or => true

def apply : Connective → Bool → Bool → Bool
  | .and => Bool.and
  | .or => Bool.or

theorem apply_decider (connective : Connective) (right : Bool) :
    connective.apply connective.decider right = connective.decider := by
  cases connective <;> rfl

theorem apply_other {connective : Connective} {left : Bool} (other : left ≠ connective.decider)
    (right : Bool) : connective.apply left right = right := by
  cases connective <;> cases left <;> first | rfl | exact absurd rfl other

end Connective

section Values

variable (answers : String → List Binary64 → Binary64) (lookup : ν → Binary64)

mutual
/-- The value of a formula. -/
def Formula.value : Formula ν → Binary64
  | .constant value => value
  | .name reference => lookup reference
  | .binary left operator right => operator.apply left.value right.value
  | .negate inner => 0 - inner.value
  | .call function arguments => answers function (Formula.values arguments)
  | .choose test whenTrue whenFalse => if test.holds then whenTrue.value else whenFalse.value

def Formula.values : List (Formula ν) → List Binary64
  | [] => []
  | head :: tail => head.value :: Formula.values tail

def Condition.holds : Condition ν → Bool
  | .literal value => value
  | .compare left comparison right => comparison.holds left.value right.value
  | .connect left connective right => connective.apply left.holds right.holds
end

theorem Formula.length_values (formulas : List (Formula ν)) :
    (Formula.values answers lookup formulas).length = formulas.length := by
  induction formulas with
  | nil => rfl
  | cons head tail induction => exact congrArg (· + 1) induction

end Values

section Congruence

variable (answers : String → List Binary64 → Binary64) {lookup other : ν → Binary64}

mutual
/-- The value of a formula depends on those of its names. -/
theorem Formula.value_congr : (formula : Formula ν) →
    (∀ reference ∈ formula.references, lookup reference = other reference) →
    formula.value answers lookup = formula.value answers other
  | .constant _, _ => rfl
  | .name reference, same => same reference (List.mem_singleton_self reference)
  | .binary left operator right, same => by
      have parts := List.forall_mem_append.mp same
      exact congrArg₂ operator.apply (left.value_congr parts.1) (right.value_congr parts.2)
  | .negate inner, same => congrArg (0 - ·) (inner.value_congr same)
  | .call function arguments, same =>
      congrArg (answers function) (Formula.values_congr arguments same)
  | .choose test whenTrue whenFalse, same => by
      have parts := List.forall_mem_append.mp same
      have branches := List.forall_mem_append.mp parts.2
      rw [Formula.value, Formula.value, test.holds_congr parts.1,
        whenTrue.value_congr branches.1, whenFalse.value_congr branches.2]

theorem Formula.values_congr : (formulas : List (Formula ν)) →
    (∀ reference ∈ Formula.referencesAll formulas, lookup reference = other reference) →
    Formula.values answers lookup formulas = Formula.values answers other formulas
  | [], _ => rfl
  | head :: tail, same => by
      have parts := List.forall_mem_append.mp same
      exact congrArg₂ (· :: ·) (head.value_congr parts.1) (Formula.values_congr tail parts.2)

theorem Condition.holds_congr : (condition : Condition ν) →
    (∀ reference ∈ condition.references, lookup reference = other reference) →
    condition.holds answers lookup = condition.holds answers other
  | .literal _, _ => rfl
  | .compare left comparison right, same => by
      have parts := List.forall_mem_append.mp same
      exact congrArg₂ comparison.holds (left.value_congr parts.1) (right.value_congr parts.2)
  | .connect left connective right, same => by
      have parts := List.forall_mem_append.mp same
      exact congrArg₂ connective.apply (left.holds_congr parts.1) (right.holds_congr parts.2)
end

end Congruence

/-- What a call does with the runs of its arguments. -/
def FunctionTable.call (functions : FunctionTable σ) (identifier : Identifier → Run σ Binary64)
    (function : String) (arguments : List (Run σ Binary64)) : Run σ Binary64 :=
  ((functions.plan? function arguments.length).map
    (Plan.run identifier arguments)).getD (pure 0)

theorem Formula.length_evaluations (functions : FunctionTable σ) (scope : Scope σ ν)
    (formulas : List (Formula ν)) :
    (Formula.evaluations functions scope formulas).length = formulas.length := by
  induction formulas with
  | nil => rfl
  | cons head tail induction => exact congrArg (· + 1) induction

theorem Formula.evaluate_call (functions : FunctionTable σ) (scope : Scope σ ν)
    (function : String) (arguments : List (Formula ν)) :
    (Formula.call function arguments).evaluate functions scope =
      functions.call scope.identifier function (Formula.evaluations functions scope arguments) := by
  rw [Formula.evaluate, FunctionTable.call, length_evaluations]
  cases functions.plan? function arguments.length <;> rfl

/-- A sense in which runs have values. -/
structure Run.Valuation (σ : Type) where
  has : {α : Type} → Run σ α → α → Prop
  has_pure : ∀ {α : Type} (value : α), has (pure value) value
  has_bind : ∀ {α β : Type} {first : Run σ α} {next : α → Run σ β} {value : α} {result : β},
    has first value → has (next value) result → has (first >>= next) result

/-- In the scope each call has the answer for the values of its arguments. -/
def Demands.answered (valuation : Run.Valuation σ) (functions : FunctionTable σ)
    (identifier : Identifier → Run σ Binary64) (answers : String → List Binary64 → Binary64) :
    Demands ν where
  number _ := True
  name _ := True
  call function count := ∀ (arguments : List (Run σ Binary64)) (values : List Binary64),
    values.length = count → List.Forall₂ valuation.has arguments values →
    valuation.has (functions.call identifier function arguments) (answers function values)
  choose := True

/-- From the values of its arguments, and of names that may be asked for, the plan makes
the result. -/
inductive Plan.Makes (asked : Identifier → Prop) (value : Identifier → Binary64)
    (values : List Binary64) : Plan σ → Binary64 → Prop
  | answer (result : Binary64) : Makes asked value values (.answer result) result
  | argument {index : Nat} {next : Binary64 → Plan σ} {result : Binary64} :
      Makes asked value values (next ((values[index]?).getD 0)) result →
      Makes asked value values (.argument index next) result
  | read {id : Identifier} {next : Binary64 → Plan σ} {result : Binary64} (isAsked : asked id) :
      Makes asked value values (next (value id)) result →
      Makes asked value values (.read id next) result

/-- The plans of a called function make its answers. -/
def Demands.made (functions : FunctionTable σ) (asked : Identifier → Prop)
    (value : Identifier → Binary64) (answers : String → List Binary64 → Binary64) :
    Demands ν where
  number _ := True
  name _ := True
  call function count := ∃ plan, functions.plan? function count = some plan ∧
    ∀ values, values.length = count → plan.Makes asked value values (answers function values)
  choose := True

section Plans

variable {valuation : Run.Valuation σ} {identifier : Identifier → Run σ Binary64}
  {asked : Identifier → Prop} {value : Identifier → Binary64}
  (asks : ∀ id, asked id → valuation.has (identifier id) (value id))

theorem Run.Valuation.has_getElem? {arguments : List (Run σ Binary64)} {values : List Binary64}
    (evaluated : List.Forall₂ valuation.has arguments values) (index : Nat) :
    valuation.has ((arguments[index]?).getD (pure 0)) ((values[index]?).getD 0) := by
  induction evaluated generalizing index with
  | nil => exact valuation.has_pure 0
  | cons head _ induction =>
      cases index with
      | zero => exact head
      | succ index => simpa using induction index

include asks

theorem Plan.Makes.run {arguments : List (Run σ Binary64)} {values : List Binary64}
    (evaluated : List.Forall₂ valuation.has arguments values) {plan : Plan σ} {result : Binary64}
    (makes : plan.Makes asked value values result) :
    valuation.has (plan.run identifier arguments) result := by
  induction makes with
  | answer result => exact valuation.has_pure result
  | @argument index _ _ _ induction =>
      exact valuation.has_bind (valuation.has_getElem? evaluated index) induction
  | read isAsked _ induction => exact valuation.has_bind (asks _ isAsked) induction

theorem Demands.made_imply (functions : FunctionTable σ)
    (answers : String → List Binary64 → Binary64) :
    Demands.Imply (ν := ν) (.made functions asked value answers)
      (.made functions asked value answers)
      (.answered valuation functions identifier answers) := by
  refine ⟨fun _ _ => trivial, fun _ _ => trivial, ?_, fun _ _ => trivial⟩
  rintro function count ⟨plan, found, makes⟩ _ arguments values sameCount evaluated
  rw [FunctionTable.call, evaluated.length_eq, sameCount, found]
  exact (makes values sameCount).run asks evaluated

end Plans

/-- If each plan of a kind has one answer in several settings, so have the functions whose
plans are of the kind. -/
theorem FunctionTable.exists_answers_of {ι : Type} (functions : FunctionTable σ)
    (kind : Plan σ → Nat → Prop) (valuation : ι → Run.Valuation σ)
    (identifier : ι → Identifier → Run σ Binary64)
    (settled : ∀ plan values, kind plan values.length → ∃ answer, ∀ setting arguments,
      List.Forall₂ (valuation setting).has arguments values →
      (valuation setting).has (plan.run (identifier setting) arguments) answer) :
    ∃ answers : String → List Binary64 → Binary64, ∀ function values,
      (∀ plan, functions.plan? function values.length = some plan → kind plan values.length) →
      ∀ setting arguments, List.Forall₂ (valuation setting).has arguments values →
        (valuation setting).has (functions.call (identifier setting) function arguments)
          (answers function values) := by
  have answered (function : String) (values : List Binary64) : ∃ answer,
      (∀ plan, functions.plan? function values.length = some plan → kind plan values.length) →
      ∀ setting arguments, List.Forall₂ (valuation setting).has arguments values →
        (valuation setting).has (functions.call (identifier setting) function arguments)
          answer := by
    cases found : functions.plan? function values.length with
    | none =>
        refine ⟨0, fun _ setting arguments evaluated => ?_⟩
        rw [FunctionTable.call, evaluated.length_eq, found]
        exact (valuation setting).has_pure 0
    | some plan =>
        by_cases isOfKind : kind plan values.length
        · rcases settled plan values isOfKind with ⟨answer, answers⟩
          refine ⟨answer, fun _ setting arguments evaluated => ?_⟩
          rw [FunctionTable.call, evaluated.length_eq, found]
          exact answers setting arguments evaluated
        · exact ⟨0, fun areOfKind => absurd (areOfKind plan rfl) isOfKind⟩
  choose answers answered using answered
  exact ⟨answers, answered⟩

section Evaluation

variable {valuation : Run.Valuation σ} {functions : FunctionTable σ} {scope : Scope σ ν}
  {answers : String → List Binary64 → Binary64} {lookup : ν → Binary64}

mutual
/-- Where names and calls have their values, so has the formula. -/
theorem Formula.evaluate_value : (formula : Formula ν) →
    formula.Meets (.answered valuation functions scope.identifier answers) →
    (∀ reference ∈ formula.references, valuation.has (scope.name reference) (lookup reference)) →
    valuation.has (formula.evaluate functions scope) (formula.value answers lookup)
  | .constant value, _, _ => valuation.has_pure value
  | .name reference, _, ofNames => ofNames reference (List.mem_singleton_self reference)
  | .binary left operator right, meets, ofNames => by
      have parts := List.forall_mem_append.mp ofNames
      exact valuation.has_bind (left.evaluate_value meets.1 parts.1)
        (valuation.has_bind (right.evaluate_value meets.2 parts.2) (valuation.has_pure _))
  | .negate inner, meets, ofNames =>
      valuation.has_bind (inner.evaluate_value meets ofNames) (valuation.has_pure _)
  | .call function arguments, meets, ofNames => by
      rw [Formula.evaluate_call]
      exact meets.1 _ _ (Formula.length_values answers lookup arguments)
        (Formula.evaluations_values arguments meets.2 ofNames)
  | .choose test whenTrue whenFalse, meets, ofNames => by
      have parts := List.forall_mem_append.mp ofNames
      have branches := List.forall_mem_append.mp parts.2
      refine valuation.has_bind (test.check_holds meets.2.1 parts.1) ?_
      rw [Formula.value]
      cases test.holds answers lookup with
      | true => exact whenTrue.evaluate_value meets.2.2.1 branches.1
      | false => exact whenFalse.evaluate_value meets.2.2.2 branches.2

theorem Formula.evaluations_values : (formulas : List (Formula ν)) →
    Formula.MeetAll (.answered valuation functions scope.identifier answers) formulas →
    (∀ reference ∈ Formula.referencesAll formulas,
      valuation.has (scope.name reference) (lookup reference)) →
    List.Forall₂ valuation.has (Formula.evaluations functions scope formulas)
      (Formula.values answers lookup formulas)
  | [], _, _ => .nil
  | head :: tail, meets, ofNames => by
      have parts := List.forall_mem_append.mp ofNames
      exact .cons (head.evaluate_value meets.1 parts.1)
        (Formula.evaluations_values tail meets.2 parts.2)

theorem Condition.check_holds : (condition : Condition ν) →
    condition.Meets (.answered valuation functions scope.identifier answers) →
    (∀ reference ∈ condition.references,
      valuation.has (scope.name reference) (lookup reference)) →
    valuation.has (condition.check functions scope) (condition.holds answers lookup)
  | .literal value, _, _ => valuation.has_pure value
  | .compare left comparison right, meets, ofNames => by
      have parts := List.forall_mem_append.mp ofNames
      exact valuation.has_bind (left.evaluate_value meets.1 parts.1)
        (valuation.has_bind (right.evaluate_value meets.2 parts.2) (valuation.has_pure _))
  | .connect left connective right, meets, ofNames => by
      have parts := List.forall_mem_append.mp ofNames
      have ofRight := right.check_holds meets.2 parts.2
      refine valuation.has_bind (left.check_holds meets.1 parts.1) ?_
      rw [Condition.holds]
      cases connective <;> cases left.holds answers lookup
      · exact valuation.has_pure false
      · exact ofRight
      · exact ofRight
      · exact valuation.has_pure true
end

end Evaluation

/-! ## Loading -/

/-- The value that a slot is loaded with. -/
def LocalSlot.value (value : Identifier → Binary64) (slot : LocalSlot) : Binary64 :=
  slot.global?.elim 0 value

/-- The values that slots are loaded with. -/
def SlotValues.ofSlots (value : Identifier → Binary64) (slots : List LocalSlot) : SlotValues :=
  (slots.map (LocalSlot.value value)).toArray

theorem SlotValues.value_ofSlots (value : Identifier → Binary64) {slots : List LocalSlot}
    {place : Nat} {slot : LocalSlot} (found : slots[place]? = some slot) :
    (ofSlots value slots).value (place + 1) = slot.value value := by
  simp [SlotValues.value, ofSlots, found]

/-- Where the names that slots stand for have values, slots are loaded with them. -/
theorem ProcessRule.load_value {valuation : Run.Valuation σ}
    {read : Identifier → Run σ Binary64} {value : Identifier → Binary64} {slots : List LocalSlot}
    (reads : ∀ slot ∈ slots, ∀ id, slot.global? = some id → valuation.has (read id) (value id))
    (values : SlotValues) :
    valuation.has (load read values slots) (values ++ SlotValues.ofSlots value slots) := by
  unfold SlotValues.ofSlots
  induction slots generalizing values with
  | nil =>
      rw [List.map_nil, Array.append_empty]
      exact valuation.has_pure values
  | cons slot rest induction =>
      rcases List.forall_mem_cons.mp reads with ⟨reads, restReads⟩
      have loads := induction restReads (values.push (slot.value value))
      have together : values ++ ((slot :: rest).map (LocalSlot.value value)).toArray =
          values.push (slot.value value) ++ (rest.map (LocalSlot.value value)).toArray := by
        simp
      rw [together]
      unfold load
      unfold LocalSlot.value at loads ⊢
      cases global : slot.global? with
      | some id =>
          rw [global] at loads
          exact valuation.has_bind (reads id global) loads
      | none =>
          rw [global] at loads
          exact valuation.has_bind (valuation.has_pure 0) loads

end NumericRules
