import NumericRules.Proofs.ProcessRun
import NumericRules.Proofs.Valuations

/-! # Runs with a standing value

Reading a value may change the state, as hooks do, and still always find the same value.
A run gives a value where it does so from every state with some property and keeps the
property.
-/

namespace NumericRules

namespace Run

/-- From every state with the property the run has the value, and keeps the property. -/
def Gives (holds : World σ → Prop) (run : Run σ α) (value : α) : Prop :=
  ∀ world, holds world → ∃ after, run world = some (value, after) ∧ holds after

namespace Gives

variable {holds : World σ → Prop}

theorem pure (value : α) : Run.Gives holds (pure value) value :=
  fun world held => ⟨world, rfl, held⟩

theorem bind {first : Run σ α} {next : α → Run σ β} {value : α} {result : β}
    (ofFirst : first.Gives holds value) (ofNext : (next value).Gives holds result) :
    (first >>= next).Gives holds result := by
  intro world held
  rcases ofFirst world held with ⟨between, ran, kept⟩
  rw [bind_apply, ran]
  exact ofNext between kept

end Gives

/-- Standing values are kept by sequences. -/
def Valuation.standing (holds : World σ → Prop) : Run.Valuation σ where
  has := Run.Gives holds
  has_pure := .pure
  has_bind := .bind

end Run

end NumericRules
