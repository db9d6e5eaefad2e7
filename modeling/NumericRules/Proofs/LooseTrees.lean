import NumericRules.Proofs.Demands
import NumericRules.Proofs.FixedValues

/-! # Trees with lists of branches

A conditional call is read as any other call: its arguments behind the condition stand in
a list, which could have any length, and a call can be of any function. What is evaluated
of such a loose tree needs something to stand in for what is not there. The loose form of
a formula has two branches in every conditional call, so nothing ever stands in, provided
that its functions accept their calls.
-/

namespace NumericRules

mutual
inductive LooseFormula (ν : Type) where
  | constant (value : Binary64)
  | name (reference : ν)
  | binary (left : LooseFormula ν) (operator : Operator) (right : LooseFormula ν)
  | negate (inner : LooseFormula ν)
  | call (function : String) (arguments : List (LooseFormula ν))
  /-- A call of the conditional function. -/
  | conditional (function : String) (test : LooseCondition ν) (branches : List (LooseFormula ν))

inductive LooseCondition (ν : Type) where
  | literal (value : Bool)
  | compare (left : LooseFormula ν) (comparison : Comparison) (right : LooseFormula ν)
  | connect (left : LooseCondition ν) (connective : Connective) (right : LooseCondition ν)
end

structure LooseAssignment (ν : Type) where
  target : ν
  update : Update
  value : LooseFormula ν

inductive LooseStep (ν : Type) where
  | assign (assignment : LooseAssignment ν)
  | return (condition : Option (LooseCondition ν)) (value : LooseFormula ν)

/-! ## Loose forms -/

mutual
def Formula.loose : Formula ν → LooseFormula ν
  | .constant value => .constant value
  | .name reference => .name reference
  | .binary left operator right => .binary left.loose operator right.loose
  | .negate inner => .negate inner.loose
  | .call function arguments => .call function (Formula.looseAll arguments)
  | .choose test whenTrue whenFalse =>
      .conditional chooseName test.loose [whenTrue.loose, whenFalse.loose]

def Formula.looseAll : List (Formula ν) → List (LooseFormula ν)
  | [] => []
  | head :: tail => head.loose :: Formula.looseAll tail

def Condition.loose : Condition ν → LooseCondition ν
  | .literal value => .literal value
  | .compare left comparison right => .compare left.loose comparison right.loose
  | .connect left connective right => .connect left.loose connective right.loose
end

def Assignment.loose (assignment : Assignment ν) : LooseAssignment ν :=
  ⟨assignment.target, assignment.update, assignment.value.loose⟩

def Step.loose : Step ν → LooseStep ν
  | .assign assignment => .assign assignment.loose
  | .return condition value => .return (condition.map Condition.loose) value.loose

theorem length_looseAll (formulas : List (Formula ν)) :
    (Formula.looseAll formulas).length = formulas.length := by
  induction formulas with
  | nil => rfl
  | cons head tail induction => exact congrArg (· + 1) induction

/-! ## Height -/

mutual
/-- The height of the tree above its names and constants. -/
def LooseFormula.depth : LooseFormula ν → Nat
  | .constant _ => 0
  | .name _ => 0
  | .binary left _ right => 1 + max left.depth right.depth
  | .negate inner => 1 + inner.depth
  | .call _ arguments => 1 + LooseFormula.depthAll arguments
  | .conditional _ test branches => 1 + max test.depth (LooseFormula.depthAll branches)

def LooseFormula.depthAll : List (LooseFormula ν) → Nat
  | [] => 0
  | head :: tail => max head.depth (LooseFormula.depthAll tail)

def LooseCondition.depth : LooseCondition ν → Nat
  | .literal _ => 0
  | .compare left _ right => 1 + max left.depth right.depth
  | .connect left _ right => 1 + max left.depth right.depth
end

mutual
@[simp]
theorem Formula.depth_loose : (formula : Formula ν) → formula.loose.depth = formula.depth
  | .constant _ => rfl
  | .name _ => rfl
  | .binary left _ right => by
      rw [Formula.loose, LooseFormula.depth, Formula.depth, left.depth_loose, right.depth_loose]
  | .negate inner => congrArg (1 + ·) inner.depth_loose
  | .call _ arguments => congrArg (1 + ·) (Formula.depthAll_looseAll arguments)
  | .choose test whenTrue whenFalse => by
      simp only [Formula.loose, LooseFormula.depth, LooseFormula.depthAll, Formula.depth,
        test.depth_loose, whenTrue.depth_loose, whenFalse.depth_loose, Nat.max_zero]

theorem Formula.depthAll_looseAll : (formulas : List (Formula ν)) →
    LooseFormula.depthAll (Formula.looseAll formulas) = Formula.depthAll formulas
  | [] => rfl
  | head :: tail => congrArg₂ max head.depth_loose (Formula.depthAll_looseAll tail)

theorem Condition.depth_loose : (condition : Condition ν) →
    condition.loose.depth = condition.depth
  | .literal _ => rfl
  | .compare left _ right => by
      rw [Condition.loose, LooseCondition.depth, Condition.depth, left.depth_loose,
        right.depth_loose]
  | .connect left _ right => by
      rw [Condition.loose, LooseCondition.depth, Condition.depth, left.depth_loose,
        right.depth_loose]
end

/-! ## What is mentioned -/

section Meets

variable (functions : FunctionTable σ) (property : ν → Prop)

mutual
/-- Names have the property, functions accept their calls, and every conditional call is of
the conditional function and has two branches. -/
def LooseFormula.Meets : LooseFormula ν → Prop
  | .constant _ => True
  | .name reference => property reference
  | .binary left _ right => left.Meets ∧ right.Meets
  | .negate inner => inner.Meets
  | .call function arguments =>
      (functions.plan? function arguments.length).isSome = true ∧ LooseFormula.MeetAll arguments
  | .conditional function test branches =>
      functions.kind? function = some .choose ∧ branches.length = 2 ∧ test.Meets ∧
        LooseFormula.MeetAll branches

def LooseFormula.MeetAll : List (LooseFormula ν) → Prop
  | [] => True
  | head :: tail => head.Meets ∧ LooseFormula.MeetAll tail

def LooseCondition.Meets : LooseCondition ν → Prop
  | .literal _ => True
  | .compare left _ right => left.Meets ∧ right.Meets
  | .connect left _ right => left.Meets ∧ right.Meets
end

def LooseAssignment.Meets (assignment : LooseAssignment ν) : Prop :=
  property assignment.target ∧ assignment.value.Meets functions property

def LooseStep.Meets : LooseStep ν → Prop
  | .assign assignment => assignment.Meets functions property
  | .return none value => value.Meets functions property
  | .return (some condition) value =>
      condition.Meets functions property ∧ value.Meets functions property

end Meets

/-- Names have a property, and functions accept their calls. -/
def Demands.named (functions : FunctionTable σ) (property : ν → Prop) : Demands ν where
  number _ := True
  name := property
  call function count := (functions.plan? function count).isSome = true
  choose := functions.kind? chooseName = some .choose

section Loose

variable {functions : FunctionTable σ} {property : ν → Prop}

mutual
theorem Formula.meets_loose : (formula : Formula ν) →
    (formula.loose.Meets functions property ↔ formula.Meets (.named functions property))
  | .constant _ => Iff.rfl
  | .name _ => Iff.rfl
  | .binary left _ right => and_congr left.meets_loose right.meets_loose
  | .negate inner => inner.meets_loose
  | .call function arguments => by
      have count := length_looseAll arguments
      simp only [Formula.loose, LooseFormula.Meets, count, Formula.meetAll_looseAll arguments]
      rfl
  | .choose test whenTrue whenFalse => by
      simp only [Formula.loose, LooseFormula.Meets, LooseFormula.MeetAll, Formula.Meets,
        test.meets_loose, whenTrue.meets_loose, whenFalse.meets_loose, List.length_cons,
        List.length_nil, and_true, true_and]
      rfl

theorem Formula.meetAll_looseAll : (formulas : List (Formula ν)) →
    (LooseFormula.MeetAll functions property (Formula.looseAll formulas) ↔
      Formula.MeetAll (.named functions property) formulas)
  | [] => Iff.rfl
  | head :: tail => and_congr head.meets_loose (Formula.meetAll_looseAll tail)

theorem Condition.meets_loose : (condition : Condition ν) →
    (condition.loose.Meets functions property ↔ condition.Meets (.named functions property))
  | .literal _ => Iff.rfl
  | .compare left _ right => and_congr left.meets_loose right.meets_loose
  | .connect left _ right => and_congr left.meets_loose right.meets_loose
end

theorem Assignment.meets_loose (assignment : Assignment ν) :
    assignment.loose.Meets functions property ↔ assignment.Meets (.named functions property) :=
  and_congr_right fun _ => assignment.value.meets_loose

theorem Step.meets_loose (step : Step ν) :
    step.loose.Meets functions property ↔ step.Meets (.named functions property) := by
  cases step with
  | assign assignment => exact assignment.meets_loose
  | «return» condition value =>
      cases condition with
      | none => exact value.meets_loose
      | some condition => exact and_congr condition.meets_loose value.meets_loose

end Loose

/-! ## Evaluation -/

section Evaluation

variable (functions : FunctionTable σ) (missing : Run σ Binary64) (scope : Scope σ ν)

mutual
/-- Evaluate a loose tree, where `missing` stands in for branches that are not there and for
calls that no function accepts. -/
def LooseFormula.evaluate : LooseFormula ν → Run σ Binary64
  | .constant value => pure value
  | .name reference => scope.name reference
  | .binary left operator right => do
      let leftValue ← left.evaluate
      let rightValue ← right.evaluate
      pure (operator.apply leftValue rightValue)
  | .negate inner => do
      let value ← inner.evaluate
      pure (0 - value)
  | .call function arguments =>
      match functions.plan? function arguments.length with
      | some plan => plan.run scope.identifier (LooseFormula.evaluations arguments)
      | none => missing
  | .conditional _ test branches => do
      let holds ← test.check
      ((LooseFormula.evaluations branches)[if holds then 0 else 1]?).getD missing

/-- The evaluations of several formulas, none of them carried out. -/
def LooseFormula.evaluations : List (LooseFormula ν) → List (Run σ Binary64)
  | [] => []
  | head :: tail => head.evaluate :: LooseFormula.evaluations tail

def LooseCondition.check : LooseCondition ν → Run σ Bool
  | .literal value => pure value
  | .compare left comparison right => do
      let leftValue ← left.evaluate
      let rightValue ← right.evaluate
      pure (comparison.holds leftValue rightValue)
  | .connect left connective right => do
      let leftHolds ← left.check
      match connective with
      | .and => if leftHolds then right.check else pure false
      | .or => if leftHolds then pure true else right.check
end

end Evaluation

section NothingMissing

variable {functions : FunctionTable σ} {property : ν → Prop} (missing : Run σ Binary64)
  (scope : Scope σ ν)

mutual
/-- Nothing is missing from a formula whose functions accept their calls. -/
theorem Formula.evaluate_loose : (formula : Formula ν) →
    formula.Meets (.named functions property) →
    formula.loose.evaluate functions missing scope = formula.evaluate functions scope
  | .constant _, _ => rfl
  | .name _, _ => rfl
  | .binary left _ right, meets => by
      rw [Formula.loose, LooseFormula.evaluate, Formula.evaluate, left.evaluate_loose meets.1,
        right.evaluate_loose meets.2]
  | .negate inner, meets => by
      rw [Formula.loose, LooseFormula.evaluate, Formula.evaluate, inner.evaluate_loose meets]
  | .call function arguments, meets => by
      rcases Option.isSome_iff_exists.mp meets.1 with ⟨plan, accepted⟩
      rw [Formula.loose, LooseFormula.evaluate, Formula.evaluate, length_looseAll, accepted,
        Formula.evaluations_looseAll arguments meets.2]
  | .choose test whenTrue whenFalse, meets => by
      rw [Formula.loose, LooseFormula.evaluate, Formula.evaluate, test.check_loose meets.2.1]
      congr 1
      funext holds
      cases holds with
      | true => exact whenTrue.evaluate_loose meets.2.2.1
      | false => exact whenFalse.evaluate_loose meets.2.2.2

theorem Formula.evaluations_looseAll : (formulas : List (Formula ν)) →
    Formula.MeetAll (.named functions property) formulas →
    LooseFormula.evaluations functions missing scope (Formula.looseAll formulas) =
      Formula.evaluations functions scope formulas
  | [], _ => rfl
  | head :: tail, meets =>
      congrArg₂ (· :: ·) (head.evaluate_loose meets.1) (Formula.evaluations_looseAll tail meets.2)

theorem Condition.check_loose : (condition : Condition ν) →
    condition.Meets (.named functions property) →
    condition.loose.check functions missing scope = condition.check functions scope
  | .literal _, _ => rfl
  | .compare left _ right, meets => by
      rw [Condition.loose, LooseCondition.check, Condition.check, left.evaluate_loose meets.1,
        right.evaluate_loose meets.2]
  | .connect left connective right, meets => by
      rw [Condition.loose, LooseCondition.check, Condition.check, left.check_loose meets.1,
        right.check_loose meets.2]
      congr 1
      funext holds
      cases connective <;> cases holds <;> rfl
end

end NothingMissing

/-! ## Written forms -/

section Forms

variable [Named ν]

mutual
def LooseFormula.form : LooseFormula ν → List Char
  | .constant value => Binary64.spell value
  | .name reference => (Named.name reference).toList
  | .binary left operator right => bracketed (left.form ++ operator.symbol :: right.form)
  | .negate inner => '-' :: inner.form
  | .call function arguments =>
      function.toList ++ bracketed (joinWith ',' (LooseFormula.formAll arguments))
  | .conditional function test branches =>
      function.toList ++ bracketed (joinWith ',' (test.form :: LooseFormula.formAll branches))

def LooseFormula.formAll : List (LooseFormula ν) → List (List Char)
  | [] => []
  | head :: tail => head.form :: LooseFormula.formAll tail

def LooseCondition.form : LooseCondition ν → List Char
  | .literal value => if value then ['t', 'r', 'u', 'e'] else ['f', 'a', 'l', 's', 'e']
  | .compare left comparison right =>
      bracketed (left.form ++ comparison.symbol.toList ++ right.form)
  | .connect left connective right =>
      bracketed (left.form ++ connective.symbol.toList ++ right.form)
end

def LooseStep.form : LooseStep ν → List Char
  | .assign assignment =>
      (Named.name assignment.target).toList ++ assignment.update.symbol.toList ++
        assignment.value.form
  | .return (some condition) value =>
      returnWord ++ bracketed (condition.form ++ ',' :: value.form)
  | .return none value => returnWord ++ bracketed value.form

mutual
theorem Formula.form_loose : (formula : Formula ν) → formula.loose.form = formula.form
  | .constant _ => rfl
  | .name _ => rfl
  | .binary left _ right => by
      rw [Formula.loose, LooseFormula.form, Formula.form, left.form_loose, right.form_loose]
  | .negate inner => congrArg ('-' :: ·) inner.form_loose
  | .call _ arguments => by
      rw [Formula.loose, LooseFormula.form, Formula.form, Formula.formAll_looseAll arguments]
  | .choose test whenTrue whenFalse => by
      simp only [Formula.loose, LooseFormula.form, LooseFormula.formAll, Formula.form,
        test.form_loose, whenTrue.form_loose, whenFalse.form_loose]

theorem Formula.formAll_looseAll : (formulas : List (Formula ν)) →
    LooseFormula.formAll (Formula.looseAll formulas) = Formula.formAll formulas
  | [] => rfl
  | head :: tail => congrArg₂ (· :: ·) head.form_loose (Formula.formAll_looseAll tail)

theorem Condition.form_loose : (condition : Condition ν) → condition.loose.form = condition.form
  | .literal _ => rfl
  | .compare left _ right => by
      rw [Condition.loose, LooseCondition.form, Condition.form, left.form_loose, right.form_loose]
  | .connect left _ right => by
      rw [Condition.loose, LooseCondition.form, Condition.form, left.form_loose, right.form_loose]
end

theorem Step.form_loose (step : Step ν) : step.loose.form = step.form := by
  cases step with
  | assign assignment => exact congrArg (_ ++ ·) assignment.value.form_loose
  | «return» condition value =>
      cases condition with
      | none => exact congrArg (returnWord ++ bracketed ·) value.form_loose
      | some condition =>
          simp only [Step.loose, Option.map, LooseStep.form, Step.form, condition.form_loose,
            value.form_loose]

end Forms

section ValueForms

variable (read : ν → Run σ Binary64)

mutual
def LooseFormula.valueForm : LooseFormula ν → Run σ (List Char)
  | .constant value => pure (Binary64.spell value)
  | .name reference => do
      let value ← read reference
      pure (Binary64.spell value)
  | .binary left operator right => do
      let leftForm ← left.valueForm
      let rightForm ← right.valueForm
      pure (bracketed (leftForm ++ operator.symbol :: rightForm))
  | .negate inner => do
      let form ← inner.valueForm
      pure (negatedForm form)
  | .call function arguments => do
      let forms ← LooseFormula.valueFormAll arguments
      pure (function.toList ++ bracketed (joinWith ',' forms))
  | .conditional function test branches => do
      let testForm ← test.valueForm
      let forms ← LooseFormula.valueFormAll branches
      pure (function.toList ++ bracketed (joinWith ',' (testForm :: forms)))

def LooseFormula.valueFormAll : List (LooseFormula ν) → Run σ (List (List Char))
  | [] => pure []
  | head :: tail => do
      let form ← head.valueForm
      let forms ← LooseFormula.valueFormAll tail
      pure (form :: forms)

def LooseCondition.valueForm : LooseCondition ν → Run σ (List Char)
  | .literal value =>
      pure (if value then ['t', 'r', 'u', 'e'] else ['f', 'a', 'l', 's', 'e'])
  | .compare left comparison right => do
      let leftForm ← left.valueForm
      let rightForm ← right.valueForm
      pure (bracketed (leftForm ++ comparison.symbol.toList ++ rightForm))
  | .connect left connective right => do
      let leftForm ← left.valueForm
      let rightForm ← right.valueForm
      pure (bracketed (leftForm ++ connective.symbol.toList ++ rightForm))
end

def LooseStep.valueForm : LooseStep ν → Run σ (List Char)
  | .assign assignment => do
      let current ← read assignment.target
      let operand ← assignment.value.valueForm read
      pure (Binary64.spell current ++ assignment.update.symbol.toList ++ operand)
  | .return (some condition) value => do
      let conditionForm ← condition.valueForm read
      let form ← value.valueForm read
      pure (returnWord ++ bracketed (conditionForm ++ ',' :: form))
  | .return none value => do
      let form ← value.valueForm read
      pure (returnWord ++ bracketed form)

mutual
theorem Formula.valueForm_loose : (formula : Formula ν) →
    formula.loose.valueForm read = formula.valueForm read
  | .constant _ => rfl
  | .name _ => rfl
  | .binary left _ right => by
      rw [Formula.loose, LooseFormula.valueForm, Formula.valueForm, left.valueForm_loose,
        right.valueForm_loose]
  | .negate inner => by
      rw [Formula.loose, LooseFormula.valueForm, Formula.valueForm, inner.valueForm_loose]
  | .call _ arguments => by
      rw [Formula.loose, LooseFormula.valueForm, Formula.valueForm,
        Formula.valueFormAll_looseAll arguments]
  | .choose test whenTrue whenFalse => by
      simp only [Formula.loose, LooseFormula.valueForm, LooseFormula.valueFormAll,
        Formula.valueForm, test.valueForm_loose, whenTrue.valueForm_loose,
        whenFalse.valueForm_loose, bind_assoc, pure_bind]

theorem Formula.valueFormAll_looseAll : (formulas : List (Formula ν)) →
    LooseFormula.valueFormAll read (Formula.looseAll formulas) = Formula.valueFormAll read formulas
  | [] => rfl
  | head :: tail => by
      rw [Formula.looseAll, LooseFormula.valueFormAll, Formula.valueFormAll, head.valueForm_loose,
        Formula.valueFormAll_looseAll tail]

theorem Condition.valueForm_loose : (condition : Condition ν) →
    condition.loose.valueForm read = condition.valueForm read
  | .literal _ => rfl
  | .compare left _ right => by
      rw [Condition.loose, LooseCondition.valueForm, Condition.valueForm, left.valueForm_loose,
        right.valueForm_loose]
  | .connect left _ right => by
      rw [Condition.loose, LooseCondition.valueForm, Condition.valueForm, left.valueForm_loose,
        right.valueForm_loose]
end

theorem Step.valueForm_loose (step : Step ν) :
    step.loose.valueForm read = step.valueForm read := by
  cases step with
  | assign assignment =>
      simp only [Step.loose, Assignment.loose, LooseStep.valueForm, Step.valueForm,
        Assignment.valueForm, assignment.value.valueForm_loose]
  | «return» condition value =>
      cases condition with
      | none => simp only [Step.loose, Option.map, LooseStep.valueForm, Step.valueForm,
          value.valueForm_loose]
      | some condition =>
          simp only [Step.loose, Option.map, LooseStep.valueForm, Step.valueForm,
            condition.valueForm_loose, value.valueForm_loose]

end ValueForms

end NumericRules
