import NumericRules.Proofs.Grammar.Compact
import NumericRules.Proofs.Grammar.Completeness
import NumericRules.Proofs.Grammar.SingleMinuses

/-! # Reading symbolic forms

A symbolic form is read exactly when no minus of its tree stands over another one or
over a negative number. The result is the tree with the minuses before numbers folded
into them.
-/

namespace NumericRules.Grammar

/-! ## Conditional success -/

/-- There is the given result if the condition holds, and a fault otherwise. -/
structure SucceedsIf (condition : Bool) (result : α) (outcome : Except ε α) : Prop where
  ok : condition = true → outcome = .ok result
  fails : condition = false → ∃ fault, outcome = .error fault

namespace SucceedsIf

theorem pure (result : α) : SucceedsIf true result (.ok result : Except ε α) where
  ok _ := rfl
  fails impossible := by cases impossible

theorem bind {first second : Bool} {outcome : Except ε α} {result : α} {next : α → Except ε β}
    {final : β} (ofFirst : SucceedsIf first result outcome)
    (ofSecond : SucceedsIf second final (next result)) :
    SucceedsIf (first && second) final (outcome >>= next) := by
  cases first with
  | false =>
      rcases ofFirst.fails rfl with ⟨fault, failed⟩
      rw [failed]
      exact { ok := fun impossible => (by cases impossible), fails := fun _ => ⟨fault, rfl⟩ }
  | true =>
      rw [ofFirst.ok rfl]
      exact ofSecond

/-- What a certain step goes on with decides. -/
theorem after {condition : Bool} {outcome : Except ε α} {result : α} {next : α → Except ε β}
    {final : β} (succeeded : outcome = .ok result)
    (ofNext : SucceedsIf condition final (next result)) :
    SucceedsIf condition final (outcome >>= next) := by
  rw [succeeded]
  exact ofNext

/-- Only the result is changed. -/
theorem map {condition : Bool} {outcome : Except ε α} {result : α}
    (succeeds : SucceedsIf condition result outcome) (change : α → β) :
    SucceedsIf condition (change result) (outcome >>= fun result => Pure.pure (change result)) := by
  have certain : SucceedsIf true (change result) (Pure.pure (change result) : Except ε β) :=
    .pure (change result)
  have mapped : SucceedsIf (condition && true) (change result)
      (outcome >>= fun result => Pure.pure (change result)) := succeeds.bind certain
  rwa [Bool.and_true] at mapped

end SucceedsIf

/-! ## Formulas and conditions -/

section Whole

variable [Named ν] {vocabulary : Vocabulary ν} (comma : vocabulary.argumentSeparator = ',')

include comma

theorem wholeFormula_form {formula : Formula ν} (writable : formula.Meets (.writable vocabulary))
    (enough : formula.form.length ≤ vocabulary.nestingLimit) (index : Nat) :
    SucceedsIf formula.singleMinuses formula.foldSigns
      (wholeFormula vocabulary ⟨index, formula.form⟩) where
  ok single := by
    have derivation := (formula.derivesWritten comma writable).sum
    rw [formula.form_eq_written writable single] at enough ⊢
    exact derivation.formula_eq_ok comma enough index
  fails double := by
    cases outcome : wholeFormula vocabulary ⟨index, formula.form⟩ with
    | error fault => exact ⟨fault, rfl⟩
    | ok tree =>
        have derivation :=
          (formula_condition_reads vocabulary vocabulary.nestingLimit).1.whole outcome
        have tight := derivation.relax ((formula.form_compact writable).covers comma)
        have fits : minuses 1 formula.form = some 2 := tight.minuses comma
        rw [formula.minuses_form writable 1 (.inl rfl), double] at fits
        cases fits

theorem wholeCondition_form {condition : Condition ν}
    (writable : condition.Meets (.writable vocabulary))
    (enough : condition.form.length ≤ vocabulary.nestingLimit) (index : Nat) :
    SucceedsIf condition.singleMinuses condition.foldSigns
      (wholeCondition vocabulary ⟨index, condition.form⟩) where
  ok single := by
    have derivation := condition.derivesWritten comma writable
    rw [condition.form_eq_written writable single] at enough ⊢
    exact (Derives.clause derivation).condition_eq_ok comma enough index
  fails double := by
    cases outcome : wholeCondition vocabulary ⟨index, condition.form⟩ with
    | error fault => exact ⟨fault, rfl⟩
    | ok tree =>
        have derivation :=
          (formula_condition_reads vocabulary vocabulary.nestingLimit).2.whole outcome
        have tight := derivation.relax ((condition.form_compact writable).covers comma)
        have fits : minuses 1 condition.form = some 2 := tight.minuses comma
        rw [condition.minuses_form writable 1, double] at fits
        cases fits

end Whole

end NumericRules.Grammar
