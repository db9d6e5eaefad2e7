import NumericRules.Proofs.Grammar.StatementReading

/-! # What steps are read from

The target of an assignment is a name that was resolved, and the formulas and
conditions of a step were each read in full. What holds of the trees of a reading holds
of its steps by this.
-/

namespace NumericRules.Grammar

/-- What a reading tells of a step. -/
inductive StepRead (vocabulary : Vocabulary ν) (allowReturn : Bool) : Step ν → Prop
  | assign {name : List Char} {target : ν} {update : Update} {cursor : Cursor}
      {value : Formula ν} : name ≠ [] →
      vocabulary.resolve? (String.ofList name) = some target →
      wholeFormula vocabulary cursor = .ok value →
      StepRead vocabulary allowReturn (.assign ⟨target, update, value⟩)
  | returns {cursor : Cursor} {value : Formula ν} : allowReturn = true →
      wholeFormula vocabulary cursor = .ok value →
      StepRead vocabulary allowReturn (.return none value)
  | returnsIf {testCursor cursor : Cursor} {test : Condition ν} {value : Formula ν} :
      allowReturn = true → wholeCondition vocabulary testCursor = .ok test →
      wholeFormula vocabulary cursor = .ok value →
      StepRead vocabulary allowReturn (.return (some test) value)

section Reading

variable {vocabulary : Vocabulary ν} {cursor stop : Cursor}

theorem StepAt.stepRead {allowReturn : Bool} {step : Step ν}
    (stepAt : StepAt vocabulary allowReturn cursor step stop) :
    StepRead vocabulary allowReturn step := by
  cases stepAt with
  | returns isReturn _ returnOf =>
      have allowed : allowReturn = true := by
        simp only [returnAhead, Bool.and_eq_true] at isReturn
        exact isReturn.1.1
      cases returnOf with
      | always readValue => exact .returns allowed readValue
      | tested readTest readValue => exact .returnsIf allowed readTest readValue
  | assigns targetAt _ _ readValue => exact .assign targetAt.named targetAt.resolved readValue

theorem StepsAt.stepRead {allowReturn : Bool} {steps : List (Step ν)}
    (stepsAt : StepsAt vocabulary allowReturn cursor steps) :
    ∀ step ∈ steps, StepRead vocabulary allowReturn step := by
  induction stepsAt with
  | nil _ => simp
  | cons _ stepAt _ induction => exact List.forall_mem_cons.mpr ⟨stepAt.stepRead, induction⟩

/-- Operations are assignments, at least one. -/
theorem stepRead_of_wholeOperations {text : List Char} {assignments : List (Assignment ν)}
    (read : wholeOperations vocabulary text = .ok assignments) :
    assignments ≠ [] ∧ ∀ assignment ∈ assignments,
      StepRead vocabulary false (.assign assignment) := by
  rcases wholeOperations_iff.mp read with ⟨nonempty, stepsAt⟩
  exact ⟨nonempty, List.forall_mem_map.mp stepsAt.stepRead⟩

/-- A process has at least one step. -/
theorem stepRead_of_wholeProcess {text : List Char} {steps : List (Step ν)}
    (read : wholeProcess vocabulary text = .ok steps) :
    steps ≠ [] ∧ ∀ step ∈ steps, StepRead vocabulary true step := by
  rcases wholeProcess_iff.mp read with ⟨nonempty, stepsAt⟩
  exact ⟨nonempty, stepsAt.stepRead⟩

end Reading

end NumericRules.Grammar
