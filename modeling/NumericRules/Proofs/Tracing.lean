import NumericRules.Proofs.ProcessRun

/-! # Tracing

The value form of a tree whose names have fixed values is fixed itself, so tracing a
step of a process does nothing but log it.
-/

namespace NumericRules

section Fixed

variable [Monad m] [LawfulMonad m] (value : ν → Binary64)

mutual
theorem Formula.exists_valueForm : (formula : Formula ν) → ∃ form,
    formula.valueForm (fun reference => (pure (value reference) : m Binary64)) = pure form
  | .constant number => ⟨Binary64.spell number, rfl⟩
  | .name reference => ⟨Binary64.spell (value reference), by simp [Formula.valueForm]⟩
  | .binary left _ right => by
      rcases left.exists_valueForm with ⟨leftForm, ofLeft⟩
      rcases right.exists_valueForm with ⟨rightForm, ofRight⟩
      exact ⟨_, by rw [Formula.valueForm, ofLeft, ofRight, pure_bind, pure_bind]⟩
  | .negate inner => by
      rcases inner.exists_valueForm with ⟨form, ofInner⟩
      exact ⟨_, by rw [Formula.valueForm, ofInner, pure_bind]⟩
  | .call _ arguments => by
      rcases Formula.exists_valueFormAll arguments with ⟨forms, ofArguments⟩
      exact ⟨_, by rw [Formula.valueForm, ofArguments, pure_bind]⟩
  | .choose test whenTrue whenFalse => by
      rcases test.exists_valueForm with ⟨testForm, ofTest⟩
      rcases whenTrue.exists_valueForm with ⟨trueForm, ofTrue⟩
      rcases whenFalse.exists_valueForm with ⟨falseForm, ofFalse⟩
      exact ⟨_, by rw [Formula.valueForm, ofTest, ofTrue, ofFalse, pure_bind, pure_bind,
        pure_bind]⟩

theorem Formula.exists_valueFormAll : (formulas : List (Formula ν)) → ∃ forms,
    Formula.valueFormAll (fun reference => (pure (value reference) : m Binary64)) formulas =
      pure forms
  | [] => ⟨[], rfl⟩
  | head :: tail => by
      rcases head.exists_valueForm with ⟨form, ofHead⟩
      rcases Formula.exists_valueFormAll tail with ⟨forms, ofTail⟩
      exact ⟨_, by rw [Formula.valueFormAll, ofHead, ofTail, pure_bind, pure_bind]⟩

theorem Condition.exists_valueForm : (condition : Condition ν) → ∃ form,
    condition.valueForm (fun reference => (pure (value reference) : m Binary64)) = pure form
  | .literal _ => ⟨_, rfl⟩
  | .compare left _ right => by
      rcases left.exists_valueForm with ⟨leftForm, ofLeft⟩
      rcases right.exists_valueForm with ⟨rightForm, ofRight⟩
      exact ⟨_, by rw [Condition.valueForm, ofLeft, ofRight, pure_bind, pure_bind]⟩
  | .connect left _ right => by
      rcases left.exists_valueForm with ⟨leftForm, ofLeft⟩
      rcases right.exists_valueForm with ⟨rightForm, ofRight⟩
      exact ⟨_, by rw [Condition.valueForm, ofLeft, ofRight, pure_bind, pure_bind]⟩
end

theorem Step.exists_valueForm (step : Step ν) : ∃ form,
    step.valueForm (fun reference => (pure (value reference) : m Binary64)) = pure form := by
  cases step with
  | assign assignment =>
      rcases assignment.value.exists_valueForm value (m := m) with ⟨form, ofValue⟩
      exact ⟨_, by rw [Step.valueForm, Assignment.valueForm, pure_bind, ofValue, pure_bind]⟩
  | «return» condition result =>
      rcases result.exists_valueForm value (m := m) with ⟨form, ofResult⟩
      cases condition with
      | none => exact ⟨_, by rw [Step.valueForm, ofResult, pure_bind]⟩
      | some condition =>
          rcases condition.exists_valueForm value (m := m) with ⟨test, ofTest⟩
          exact ⟨_, by rw [Step.valueForm, ofTest, ofResult, pure_bind, pure_bind]⟩

end Fixed

/-- Tracing a step adds to the log and changes nothing else. -/
theorem ProcessRule.traceStep_run (number : Nat) (values : SlotValues) (step : Step Slot)
    (world : World σ) :
    ∃ entry, traceStep number values step world =
      some ((), { world with log := world.log ++ [entry] }) := by
  rcases step.exists_valueForm (fun slot : Slot => values.value slot.number) (m := Run σ) with
    ⟨valueForm, fixed⟩
  have form : step.valueForm (values.scope (σ := σ)).name = pure valueForm := fixed
  refine ⟨.step number step.form valueForm, ?_⟩
  rw [traceStep, form, pure_bind]
  rfl

/-- Whether a step is traced or not, only the log shows it. -/
theorem ProcessRule.traceStep_if (traced : Bool) (number : Nat) (values : SlotValues)
    (step : Step Slot) (world : World σ) :
    ∃ log, (if traced then traceStep number values step else pure () : Run σ Unit) world =
      some ((), { world with log }) := by
  cases traced with
  | true => exact (traceStep_run number values step world).imp' _ fun _ ran => ran
  | false => exact ⟨world.log, rfl⟩

end NumericRules
