import NumericRules.Proofs.Grammar.SingleMinuses
import NumericRules.Rule

/-! # Trees with other names

Names that are written the same way can take each other's place: the text of a tree,
its minuses and what is asked of its parts stay the same.
-/

namespace NumericRules

/-- What names stand for elsewhere is written as they are. -/
def SameNames [Named ν] [Named μ] (change : ν → μ) : Prop :=
  ∀ reference, Named.name (change reference) = Named.name reference

section Forms

variable [Named ν] [Named μ] {change : ν → μ}

mutual
theorem Formula.form_map (same : SameNames change) : (formula : Formula ν) →
    (formula.map change).form = formula.form
  | .constant _ => rfl
  | .name reference => congrArg String.toList (same reference)
  | .binary left _ right => by
      rw [Formula.map, Formula.form, Formula.form, left.form_map same, right.form_map same]
  | .negate inner => congrArg ('-' :: ·) (inner.form_map same)
  | .call _ arguments => by
      rw [Formula.map, Formula.form, Formula.form, Formula.formAll_mapAll same arguments]
  | .choose test whenTrue whenFalse => by
      rw [Formula.map, Formula.form, Formula.form, test.form_map same, whenTrue.form_map same,
        whenFalse.form_map same]

theorem Formula.formAll_mapAll (same : SameNames change) : (formulas : List (Formula ν)) →
    Formula.formAll (Formula.mapAll change formulas) = Formula.formAll formulas
  | [] => rfl
  | head :: tail => congrArg₂ (· :: ·) (head.form_map same) (Formula.formAll_mapAll same tail)

theorem Condition.form_map (same : SameNames change) : (condition : Condition ν) →
    (condition.map change).form = condition.form
  | .literal _ => rfl
  | .compare left _ right => by
      rw [Condition.map, Condition.form, Condition.form, left.form_map same, right.form_map same]
  | .connect left _ right => by
      rw [Condition.map, Condition.form, Condition.form, left.form_map same, right.form_map same]
end

theorem Step.form_map (same : SameNames change) (step : Step ν) :
    (step.map change).form = step.form := by
  cases step with
  | assign assignment =>
      simp only [Step.map, Step.form, Assignment.map, Assignment.form, same assignment.target,
        Formula.form_map same]
  | «return» condition value =>
      cases condition <;>
        simp only [Step.map, Step.form, Option.map, Condition.form_map same, Formula.form_map same]

end Forms

section ValueForms

variable {m : Type → Type} [Monad m] (read : μ → m Binary64) {change : ν → μ}

mutual
theorem Formula.valueForm_map : (formula : Formula ν) →
    (formula.map change).valueForm read = formula.valueForm (read ∘ change)
  | .constant _ => rfl
  | .name _ => rfl
  | .binary left _ right => by
      rw [Formula.map, Formula.valueForm, Formula.valueForm, left.valueForm_map,
        right.valueForm_map]
  | .negate inner => by
      rw [Formula.map, Formula.valueForm, Formula.valueForm, inner.valueForm_map]
  | .call _ arguments => by
      rw [Formula.map, Formula.valueForm, Formula.valueForm,
        Formula.valueFormAll_mapAll arguments]
  | .choose test whenTrue whenFalse => by
      rw [Formula.map, Formula.valueForm, Formula.valueForm, test.valueForm_map,
        whenTrue.valueForm_map, whenFalse.valueForm_map]

theorem Formula.valueFormAll_mapAll : (formulas : List (Formula ν)) →
    Formula.valueFormAll read (Formula.mapAll change formulas) =
      Formula.valueFormAll (read ∘ change) formulas
  | [] => rfl
  | head :: tail => by
      rw [Formula.mapAll, Formula.valueFormAll, Formula.valueFormAll, head.valueForm_map,
        Formula.valueFormAll_mapAll tail]

theorem Condition.valueForm_map : (condition : Condition ν) →
    (condition.map change).valueForm read = condition.valueForm (read ∘ change)
  | .literal _ => rfl
  | .compare left _ right => by
      rw [Condition.map, Condition.valueForm, Condition.valueForm, left.valueForm_map,
        right.valueForm_map]
  | .connect left _ right => by
      rw [Condition.map, Condition.valueForm, Condition.valueForm, left.valueForm_map,
        right.valueForm_map]
end

theorem Step.valueForm_map (step : Step ν) :
    (step.map change).valueForm read = step.valueForm (read ∘ change) := by
  cases step with
  | assign assignment =>
      simp only [Step.map, Step.valueForm, Assignment.map, Assignment.valueForm,
        Formula.valueForm_map, Function.comp]
  | «return» condition value =>
      cases condition <;>
        simp only [Step.map, Step.valueForm, Option.map, Condition.valueForm_map,
          Formula.valueForm_map]

end ValueForms

section Changes

variable (back : μ → κ) (change : ν → μ)

mutual
theorem Formula.map_id : (formula : Formula ν) → formula.map id = formula
  | .constant _ => rfl
  | .name _ => rfl
  | .binary left _ right => by rw [Formula.map, left.map_id, right.map_id]
  | .negate inner => congrArg Formula.negate inner.map_id
  | .call function arguments => congrArg (Formula.call function) (Formula.mapAll_id arguments)
  | .choose test whenTrue whenFalse => by
      rw [Formula.map, test.map_id, whenTrue.map_id, whenFalse.map_id]

theorem Formula.mapAll_id : (formulas : List (Formula ν)) → Formula.mapAll id formulas = formulas
  | [] => rfl
  | head :: tail => congrArg₂ List.cons head.map_id (Formula.mapAll_id tail)

theorem Condition.map_id : (condition : Condition ν) → condition.map id = condition
  | .literal _ => rfl
  | .compare left _ right => by rw [Condition.map, left.map_id, right.map_id]
  | .connect left _ right => by rw [Condition.map, left.map_id, right.map_id]
end

mutual
theorem Formula.map_map : (formula : Formula ν) →
    (formula.map change).map back = formula.map (back ∘ change)
  | .constant _ => rfl
  | .name _ => rfl
  | .binary left _ right => by
      rw [Formula.map, Formula.map, Formula.map, left.map_map, right.map_map]
  | .negate inner => congrArg Formula.negate inner.map_map
  | .call function arguments =>
      congrArg (Formula.call function) (Formula.mapAll_mapAll arguments)
  | .choose test whenTrue whenFalse => by
      rw [Formula.map, Formula.map, Formula.map, test.map_map, whenTrue.map_map,
        whenFalse.map_map]

theorem Formula.mapAll_mapAll : (formulas : List (Formula ν)) →
    Formula.mapAll back (Formula.mapAll change formulas) =
      Formula.mapAll (back ∘ change) formulas
  | [] => rfl
  | head :: tail => congrArg₂ List.cons head.map_map (Formula.mapAll_mapAll tail)

theorem Condition.map_map : (condition : Condition ν) →
    (condition.map change).map back = condition.map (back ∘ change)
  | .literal _ => rfl
  | .compare left _ right => by
      rw [Condition.map, Condition.map, Condition.map, left.map_map, right.map_map]
  | .connect left _ right => by
      rw [Condition.map, Condition.map, Condition.map, left.map_map, right.map_map]
end

theorem Assignment.map_id (assignment : Assignment ν) : assignment.map id = assignment := by
  rw [Assignment.map, Formula.map_id]
  rfl

theorem Step.map_id (step : Step ν) : step.map id = step := by
  cases step with
  | assign assignment => exact congrArg Step.assign assignment.map_id
  | «return» condition value =>
      cases condition <;> simp only [Step.map, Option.map, Condition.map_id, Formula.map_id]

theorem Step.map_map (step : Step ν) :
    (step.map change).map back = step.map (back ∘ change) := by
  cases step with
  | assign assignment =>
      simp only [Step.map, Assignment.map, Function.comp, Formula.map_map]
  | «return» condition value =>
      cases condition <;> simp only [Step.map, Option.map, Condition.map_map, Formula.map_map]

end Changes

section References

variable (change : ν → μ)

mutual
theorem Formula.references_map : (formula : Formula ν) →
    (formula.map change).references = formula.references.map change
  | .constant _ => rfl
  | .name _ => rfl
  | .binary left _ right => by
      simp [Formula.map, Formula.references, left.references_map, right.references_map]
  | .negate inner => inner.references_map
  | .call _ arguments => Formula.referencesAll_mapAll arguments
  | .choose test whenTrue whenFalse => by
      simp [Formula.map, Formula.references, test.references_map, whenTrue.references_map,
        whenFalse.references_map]

theorem Formula.referencesAll_mapAll : (formulas : List (Formula ν)) →
    Formula.referencesAll (Formula.mapAll change formulas) =
      (Formula.referencesAll formulas).map change
  | [] => rfl
  | head :: tail => by
      simp [Formula.mapAll, Formula.referencesAll, head.references_map,
        Formula.referencesAll_mapAll tail]

theorem Condition.references_map : (condition : Condition ν) →
    (condition.map change).references = condition.references.map change
  | .literal _ => rfl
  | .compare left _ right => by
      simp [Condition.map, Condition.references, left.references_map, right.references_map]
  | .connect left _ right => by
      simp [Condition.map, Condition.references, left.references_map, right.references_map]
end

theorem Assignment.mentions_map (assignment : Assignment ν) :
    (assignment.map change).mentions = assignment.mentions.map change := by
  simp [Assignment.map, Assignment.mentions, Formula.references_map]

theorem Step.mentions_map (step : Step ν) :
    (step.map change).mentions = step.mentions.map change := by
  cases step with
  | assign assignment => exact assignment.mentions_map change
  | «return» condition value =>
      cases condition <;>
        simp [Step.map, Step.mentions, Formula.references_map, Condition.references_map]

end References

section Congruence

variable {change other : ν → μ}

mutual
/-- Only the names that are mentioned matter to a renaming. -/
theorem Formula.map_congr : (formula : Formula ν) →
    (∀ reference ∈ formula.references, change reference = other reference) →
    formula.map change = formula.map other
  | .constant _, _ => rfl
  | .name reference, agree => congrArg Formula.name (agree reference (List.mem_singleton_self _))
  | .binary left _ right, agree => by
      have parts := List.forall_mem_append.mp agree
      rw [Formula.map, Formula.map, left.map_congr parts.1, right.map_congr parts.2]
  | .negate inner, agree => congrArg Formula.negate (inner.map_congr agree)
  | .call function arguments, agree =>
      congrArg (Formula.call function) (Formula.mapAll_congr arguments agree)
  | .choose test whenTrue whenFalse, agree => by
      have parts := List.forall_mem_append.mp agree
      have branches := List.forall_mem_append.mp parts.2
      rw [Formula.map, Formula.map, test.map_congr parts.1, whenTrue.map_congr branches.1,
        whenFalse.map_congr branches.2]

theorem Formula.mapAll_congr : (formulas : List (Formula ν)) →
    (∀ reference ∈ Formula.referencesAll formulas, change reference = other reference) →
    Formula.mapAll change formulas = Formula.mapAll other formulas
  | [], _ => rfl
  | head :: tail, agree => by
      have parts := List.forall_mem_append.mp agree
      rw [Formula.mapAll, Formula.mapAll, head.map_congr parts.1,
        Formula.mapAll_congr tail parts.2]

theorem Condition.map_congr : (condition : Condition ν) →
    (∀ reference ∈ condition.references, change reference = other reference) →
    condition.map change = condition.map other
  | .literal _, _ => rfl
  | .compare left _ right, agree => by
      have parts := List.forall_mem_append.mp agree
      rw [Condition.map, Condition.map, left.map_congr parts.1, right.map_congr parts.2]
  | .connect left _ right, agree => by
      have parts := List.forall_mem_append.mp agree
      rw [Condition.map, Condition.map, left.map_congr parts.1, right.map_congr parts.2]
end

theorem Step.map_congr (step : Step ν)
    (agree : ∀ reference ∈ step.mentions, change reference = other reference) :
    step.map change = step.map other := by
  cases step with
  | assign assignment =>
      have parts := List.forall_mem_cons.mp agree
      simp only [Step.map, Assignment.map, parts.1, assignment.value.map_congr parts.2]
  | «return» condition value =>
      have parts := List.forall_mem_append.mp agree
      cases condition with
      | none => simp only [Step.map, Option.map, value.map_congr parts.2]
      | some condition =>
          simp only [Step.map, Option.map, condition.map_congr parts.1, value.map_congr parts.2]

end Congruence

section Signs

variable (change : ν → μ)

theorem Formula.map_negated (formula : Formula ν) :
    formula.negated.map change = (formula.map change).negated := by
  cases formula with
  | constant value =>
      rw [Formula.map, Formula.negated, Formula.negated]
      split <;> rfl
  | name | binary | negate | call | choose => rfl

theorem Formula.beginsWithMinus_map (formula : Formula ν) :
    (formula.map change).beginsWithMinus = formula.beginsWithMinus := by
  cases formula <;> rfl

mutual
theorem Formula.foldSigns_map : (formula : Formula ν) →
    (formula.map change).foldSigns = formula.foldSigns.map change
  | .constant _ => rfl
  | .name _ => rfl
  | .binary left _ right => by
      simp [Formula.map, Formula.foldSigns, left.foldSigns_map, right.foldSigns_map]
  | .negate inner => by
      simp [Formula.map, Formula.foldSigns, inner.foldSigns_map, Formula.map_negated]
  | .call _ arguments => by
      simp [Formula.map, Formula.foldSigns, Formula.foldSignsAll_mapAll arguments]
  | .choose test whenTrue whenFalse => by
      simp [Formula.map, Formula.foldSigns, test.foldSigns_map, whenTrue.foldSigns_map,
        whenFalse.foldSigns_map]

theorem Formula.foldSignsAll_mapAll : (formulas : List (Formula ν)) →
    Formula.foldSignsAll (Formula.mapAll change formulas) =
      Formula.mapAll change (Formula.foldSignsAll formulas)
  | [] => rfl
  | head :: tail => congrArg₂ (· :: ·) head.foldSigns_map (Formula.foldSignsAll_mapAll tail)

theorem Condition.foldSigns_map : (condition : Condition ν) →
    (condition.map change).foldSigns = condition.foldSigns.map change
  | .literal _ => rfl
  | .compare left _ right => by
      simp [Condition.map, Condition.foldSigns, left.foldSigns_map, right.foldSigns_map]
  | .connect left _ right => by
      simp [Condition.map, Condition.foldSigns, left.foldSigns_map, right.foldSigns_map]
end

theorem Step.foldSigns_map (step : Step ν) :
    (step.map change).foldSigns = step.foldSigns.map change := by
  cases step with
  | assign assignment =>
      simp [Step.map, Step.foldSigns, Assignment.map, Assignment.foldSigns, Formula.foldSigns_map]
  | «return» condition value =>
      cases condition <;>
        simp [Step.map, Step.foldSigns, Formula.foldSigns_map, Condition.foldSigns_map]

mutual
theorem Formula.singleMinuses_map : (formula : Formula ν) →
    (formula.map change).singleMinuses = formula.singleMinuses
  | .constant _ => rfl
  | .name _ => rfl
  | .binary left _ right => by
      simp [Formula.map, Formula.singleMinuses, left.singleMinuses_map, right.singleMinuses_map]
  | .negate inner => by
      simp [Formula.map, Formula.singleMinuses, inner.singleMinuses_map,
        Formula.beginsWithMinus_map]
  | .call _ arguments => Formula.singleMinusesAll_mapAll arguments
  | .choose test whenTrue whenFalse => by
      simp [Formula.map, Formula.singleMinuses, test.singleMinuses_map,
        whenTrue.singleMinuses_map, whenFalse.singleMinuses_map]

theorem Formula.singleMinusesAll_mapAll : (formulas : List (Formula ν)) →
    Formula.singleMinusesAll (Formula.mapAll change formulas) = Formula.singleMinusesAll formulas
  | [] => rfl
  | head :: tail => congrArg₂ (· && ·) head.singleMinuses_map (Formula.singleMinusesAll_mapAll tail)

theorem Condition.singleMinuses_map : (condition : Condition ν) →
    (condition.map change).singleMinuses = condition.singleMinuses
  | .literal _ => rfl
  | .compare left _ right => by
      simp [Condition.map, Condition.singleMinuses, left.singleMinuses_map,
        right.singleMinuses_map]
  | .connect left _ right => by
      simp [Condition.map, Condition.singleMinuses, left.singleMinuses_map,
        right.singleMinuses_map]
end

theorem Step.singleMinuses_map (step : Step ν) :
    (step.map change).singleMinuses = step.singleMinuses := by
  cases step with
  | assign assignment => exact assignment.value.singleMinuses_map change
  | «return» condition value =>
      cases condition <;>
        simp [Step.map, Step.singleMinuses, Formula.singleMinuses_map, Condition.singleMinuses_map]

end Signs

section Demands

variable {change : ν → μ}

/-- What is asked of the names before they are changed. -/
def Demands.before (demands : Demands μ) (change : ν → μ) : Demands ν :=
  { demands with name := fun reference => demands.name (change reference) }

theorem length_mapAll (change : ν → μ) (formulas : List (Formula ν)) :
    (Formula.mapAll change formulas).length = formulas.length := by
  induction formulas with
  | nil => rfl
  | cons head tail induction => exact congrArg (· + 1) induction

mutual
theorem Formula.meets_map {demands : Demands μ} : (formula : Formula ν) →
    ((formula.map change).Meets demands ↔ formula.Meets (demands.before change))
  | .constant _ => Iff.rfl
  | .name _ => Iff.rfl
  | .binary left _ right => and_congr left.meets_map right.meets_map
  | .negate inner => inner.meets_map
  | .call function arguments => by
      have count := length_mapAll change arguments
      simp only [Formula.map, Formula.Meets, count, Formula.meetAll_mapAll arguments]
      rfl
  | .choose test whenTrue whenFalse =>
      and_congr Iff.rfl
        (and_congr test.meets_map (and_congr whenTrue.meets_map whenFalse.meets_map))

theorem Formula.meetAll_mapAll {demands : Demands μ} : (formulas : List (Formula ν)) →
    (Formula.MeetAll demands (Formula.mapAll change formulas) ↔
      Formula.MeetAll (demands.before change) formulas)
  | [] => Iff.rfl
  | head :: tail => and_congr head.meets_map (Formula.meetAll_mapAll tail)

theorem Condition.meets_map {demands : Demands μ} : (condition : Condition ν) →
    ((condition.map change).Meets demands ↔ condition.Meets (demands.before change))
  | .literal _ => Iff.rfl
  | .compare left _ right => and_congr left.meets_map right.meets_map
  | .connect left _ right => and_congr left.meets_map right.meets_map
end

theorem Step.meets_map {demands : Demands μ} (step : Step ν) :
    (step.map change).Meets demands ↔ step.Meets (demands.before change) := by
  cases step with
  | assign assignment => exact and_congr Iff.rfl assignment.value.meets_map
  | «return» condition value =>
      cases condition with
      | none => exact value.meets_map
      | some condition => exact and_congr condition.meets_map value.meets_map

end Demands

end NumericRules
