import NumericRules.Expression
import NumericRules.Statement

/-! # Demands on the parts of trees

What is asked of every number, name and call of a tree.
-/

namespace NumericRules

/-- What is asked of the parts of a tree. Calls have a function and a number of
arguments. -/
structure Demands (ν : Type) where
  number : Binary64 → Prop
  name : ν → Prop
  call : String → Nat → Prop
  choose : Prop

mutual
/-- Every part of the tree meets the demands. -/
def Formula.Meets (demands : Demands ν) : Formula ν → Prop
  | .constant value => demands.number value
  | .name reference => demands.name reference
  | .binary left _ right => left.Meets demands ∧ right.Meets demands
  | .negate inner => inner.Meets demands
  | .call function arguments =>
      demands.call function arguments.length ∧ Formula.MeetAll demands arguments
  | .choose test whenTrue whenFalse =>
      demands.choose ∧ test.Meets demands ∧ whenTrue.Meets demands ∧ whenFalse.Meets demands

def Formula.MeetAll (demands : Demands ν) : List (Formula ν) → Prop
  | [] => True
  | head :: tail => head.Meets demands ∧ Formula.MeetAll demands tail

def Condition.Meets (demands : Demands ν) : Condition ν → Prop
  | .literal _ => True
  | .compare left _ right => left.Meets demands ∧ right.Meets demands
  | .connect left _ right => left.Meets demands ∧ right.Meets demands
end

/-- An assignment meets the demands with its target and its value. -/
def Assignment.Meets (demands : Demands ν) (assignment : Assignment ν) : Prop :=
  demands.name assignment.target ∧ assignment.value.Meets demands

def Step.Meets (demands : Demands ν) : Step ν → Prop
  | .assign assignment => assignment.Meets demands
  | .return none value => value.Meets demands
  | .return (some condition) value => condition.Meets demands ∧ value.Meets demands

section References

variable {demands : Demands ν}

mutual
theorem Formula.name_of_meets : (formula : Formula ν) → formula.Meets demands →
    ∀ reference ∈ formula.references, demands.name reference
  | .constant _, _ => by simp [Formula.references]
  | .name _, meets => by simpa [Formula.references, Formula.Meets] using meets
  | .binary left _ right, meets =>
      List.forall_mem_append.mpr ⟨left.name_of_meets meets.1, right.name_of_meets meets.2⟩
  | .negate inner, meets => inner.name_of_meets meets
  | .call _ arguments, meets => Formula.name_of_meetAll arguments meets.2
  | .choose test whenTrue whenFalse, meets =>
      List.forall_mem_append.mpr ⟨test.name_of_meets meets.2.1, List.forall_mem_append.mpr
        ⟨whenTrue.name_of_meets meets.2.2.1, whenFalse.name_of_meets meets.2.2.2⟩⟩

theorem Formula.name_of_meetAll : (formulas : List (Formula ν)) →
    Formula.MeetAll demands formulas →
    ∀ reference ∈ Formula.referencesAll formulas, demands.name reference
  | [], _ => by simp [Formula.referencesAll]
  | head :: tail, meets =>
      List.forall_mem_append.mpr ⟨head.name_of_meets meets.1, Formula.name_of_meetAll tail meets.2⟩

theorem Condition.name_of_meets : (condition : Condition ν) → condition.Meets demands →
    ∀ reference ∈ condition.references, demands.name reference
  | .literal _, _ => by simp [Condition.references]
  | .compare left _ right, meets =>
      List.forall_mem_append.mpr ⟨left.name_of_meets meets.1, right.name_of_meets meets.2⟩
  | .connect left _ right, meets =>
      List.forall_mem_append.mpr ⟨left.name_of_meets meets.1, right.name_of_meets meets.2⟩
end

theorem Step.name_of_meets (step : Step ν) (meets : step.Meets demands) :
    ∀ reference ∈ step.mentions, demands.name reference := by
  cases step with
  | assign assignment =>
      exact List.forall_mem_cons.mpr ⟨meets.1, assignment.value.name_of_meets meets.2⟩
  | «return» condition value =>
      cases condition with
      | none => exact value.name_of_meets meets
      | some condition =>
          exact List.forall_mem_append.mpr
            ⟨condition.name_of_meets meets.1, value.name_of_meets meets.2⟩

end References

/-- Two demands together imply a third one. -/
structure Demands.Imply (first second wanted : Demands ν) : Prop where
  number : ∀ {value}, first.number value → second.number value → wanted.number value
  name : ∀ {reference}, first.name reference → second.name reference → wanted.name reference
  call : ∀ {function count}, first.call function count → second.call function count →
    wanted.call function count
  choose : first.choose → second.choose → wanted.choose

section Imply

variable {first second wanted : Demands ν}

mutual
theorem Formula.meets_of_imply (imply : first.Imply second wanted) : (formula : Formula ν) →
    formula.Meets first → formula.Meets second → formula.Meets wanted
  | .constant _, ofFirst, ofSecond => imply.number ofFirst ofSecond
  | .name _, ofFirst, ofSecond => imply.name ofFirst ofSecond
  | .binary left _ right, ofFirst, ofSecond =>
      ⟨left.meets_of_imply imply ofFirst.1 ofSecond.1,
        right.meets_of_imply imply ofFirst.2 ofSecond.2⟩
  | .negate inner, ofFirst, ofSecond => inner.meets_of_imply imply ofFirst ofSecond
  | .call _ arguments, ofFirst, ofSecond =>
      ⟨imply.call ofFirst.1 ofSecond.1,
        Formula.meetAll_of_imply imply arguments ofFirst.2 ofSecond.2⟩
  | .choose test whenTrue whenFalse, ofFirst, ofSecond =>
      ⟨imply.choose ofFirst.1 ofSecond.1,
        test.meets_of_imply imply ofFirst.2.1 ofSecond.2.1,
        whenTrue.meets_of_imply imply ofFirst.2.2.1 ofSecond.2.2.1,
        whenFalse.meets_of_imply imply ofFirst.2.2.2 ofSecond.2.2.2⟩

theorem Formula.meetAll_of_imply (imply : first.Imply second wanted) :
    (formulas : List (Formula ν)) → Formula.MeetAll first formulas →
    Formula.MeetAll second formulas → Formula.MeetAll wanted formulas
  | [], _, _ => trivial
  | head :: tail, ofFirst, ofSecond =>
      ⟨head.meets_of_imply imply ofFirst.1 ofSecond.1,
        Formula.meetAll_of_imply imply tail ofFirst.2 ofSecond.2⟩

theorem Condition.meets_of_imply (imply : first.Imply second wanted) :
    (condition : Condition ν) → condition.Meets first → condition.Meets second →
    condition.Meets wanted
  | .literal _, _, _ => trivial
  | .compare left _ right, ofFirst, ofSecond =>
      ⟨left.meets_of_imply imply ofFirst.1 ofSecond.1,
        right.meets_of_imply imply ofFirst.2 ofSecond.2⟩
  | .connect left _ right, ofFirst, ofSecond =>
      ⟨left.meets_of_imply imply ofFirst.1 ofSecond.1,
        right.meets_of_imply imply ofFirst.2 ofSecond.2⟩
end

theorem Step.meets_of_imply (imply : first.Imply second wanted) (step : Step ν)
    (ofFirst : step.Meets first) (ofSecond : step.Meets second) : step.Meets wanted := by
  cases step with
  | assign assignment =>
      exact ⟨imply.name ofFirst.1 ofSecond.1,
        assignment.value.meets_of_imply imply ofFirst.2 ofSecond.2⟩
  | «return» condition value =>
      cases condition with
      | none => exact value.meets_of_imply imply ofFirst ofSecond
      | some condition =>
          exact ⟨condition.meets_of_imply imply ofFirst.1 ofSecond.1,
            value.meets_of_imply imply ofFirst.2 ofSecond.2⟩

end Imply

/-! ## Names alone -/

/-- Something is asked of names and of nothing else. -/
def Demands.naming (property : ν → Prop) : Demands ν where
  number _ := True
  name := property
  call _ _ := True
  choose := True

section Naming

variable {property : ν → Prop}

mutual
theorem Formula.meets_naming : (formula : Formula ν) →
    (∀ reference ∈ formula.references, property reference) → formula.Meets (.naming property)
  | .constant _, _ => trivial
  | .name reference, ofAll => ofAll reference (List.mem_singleton_self reference)
  | .binary left _ right, ofAll =>
      have parts := List.forall_mem_append.mp ofAll
      ⟨left.meets_naming parts.1, right.meets_naming parts.2⟩
  | .negate inner, ofAll => inner.meets_naming ofAll
  | .call _ arguments, ofAll => ⟨trivial, Formula.meetAll_naming arguments ofAll⟩
  | .choose test whenTrue whenFalse, ofAll =>
      have parts := List.forall_mem_append.mp ofAll
      have branches := List.forall_mem_append.mp parts.2
      ⟨trivial, test.meets_naming parts.1, whenTrue.meets_naming branches.1,
        whenFalse.meets_naming branches.2⟩

theorem Formula.meetAll_naming : (formulas : List (Formula ν)) →
    (∀ reference ∈ Formula.referencesAll formulas, property reference) →
    Formula.MeetAll (.naming property) formulas
  | [], _ => trivial
  | head :: tail, ofAll =>
      have parts := List.forall_mem_append.mp ofAll
      ⟨head.meets_naming parts.1, Formula.meetAll_naming tail parts.2⟩

theorem Condition.meets_naming : (condition : Condition ν) →
    (∀ reference ∈ condition.references, property reference) → condition.Meets (.naming property)
  | .literal _, _ => trivial
  | .compare left _ right, ofAll =>
      have parts := List.forall_mem_append.mp ofAll
      ⟨left.meets_naming parts.1, right.meets_naming parts.2⟩
  | .connect left _ right, ofAll =>
      have parts := List.forall_mem_append.mp ofAll
      ⟨left.meets_naming parts.1, right.meets_naming parts.2⟩
end

theorem Step.meets_naming (step : Step ν)
    (ofAll : ∀ reference ∈ step.mentions, property reference) :
    step.Meets (.naming property) := by
  cases step with
  | assign assignment =>
      have parts := List.forall_mem_cons.mp ofAll
      exact ⟨parts.1, assignment.value.meets_naming parts.2⟩
  | «return» condition value =>
      have parts := List.forall_mem_append.mp ofAll
      cases condition with
      | none => exact value.meets_naming parts.2
      | some condition => exact ⟨condition.meets_naming parts.1, value.meets_naming parts.2⟩

end Naming

end NumericRules
