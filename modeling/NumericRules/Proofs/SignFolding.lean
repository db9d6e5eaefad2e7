import NumericRules.Proofs.Binary64.Decimal
import NumericRules.Proofs.Demands

/-! # Minuses before numbers

A minus directly before an unsigned number is read as its sign, so a tree and the
one its text reads back to differ in the minuses before numbers.
-/

namespace NumericRules

theorem Grammar.IsNumeral.head?_ne {numeral : List Char} (isNumeral : Grammar.IsNumeral numeral) :
    numeral.head? ≠ some '-' := by
  have digits {digits : List Char} (nonempty : digits ≠ [])
      (areDigits : digits.all Char.isDigit = true) (rest : List Char) :
      (digits ++ rest).head? ≠ some '-' := by
    cases digits with
    | nil => exact absurd rfl nonempty
    | cons first digits =>
        intro minus
        cases minus
        have first := List.all_eq_true.mp areDigits '-' (List.mem_cons_self ..)
        revert first
        decide
  cases isNumeral with
  | integer nonempty areDigits => simpa using digits nonempty areDigits []
  | decimal nonempty areDigits _ _ => exact digits nonempty areDigits _

namespace Binary64

/-- The text of a finite number begins with a minus exactly when its sign bit is
set. -/
theorem head?_spell {value : Binary64} (finite : value.isFinite = true) :
    (spell value).head? = some '-' ↔ value.isNegative = true := by
  rcases spell_of_isFinite finite with ⟨numeral, spelled, isNumeral, _⟩
  rw [spelled]
  cases value.isNegative with
  | true => simp [Grammar.signed]
  | false => simpa [Grammar.signed] using isNumeral.head?_ne

theorem withSign_isNegative (value : Binary64) : value.withSign value.isNegative = value := by
  have less := value.bits.toNat_lt
  have same : UInt64.ofNat value.bits.toNat = value.bits := UInt64.ofNat_toNat
  unfold withSign ofSizeBits
  congr 1
  rw [← same]
  congr 1
  simp only [isNegative, magnitude, Nat.pow_eq, decide_eq_true_eq]
  split <;> omega

theorem isNegative_neg {value : Binary64} (positive : value.isNegative = false) :
    (-value).isNegative = true ∧ (-value).magnitude = value.magnitude := by
  have less : value.magnitude < 2 ^ 63 := Nat.mod_lt _ (by decide)
  have negated : -value = ofSizeBits true value.magnitude := by
    change value.withSign (!value.isNegative) = _
    rw [positive]
    rfl
  have bits : (-value).bits.toNat = 2 ^ 63 + value.magnitude := by
    rw [negated]
    simp only [ofSizeBits, if_true, Nat.pow_eq, UInt64.toNat_ofNat']
    omega
  constructor
  · simp [isNegative, bits]
  · rw [magnitude, bits, Nat.pow_eq]
    omega

end Binary64

/-- A minus before a formula. If the formula is a number written without a minus,
it becomes the sign of the number. -/
def Formula.negated : Formula ν → Formula ν
  | .constant value =>
      if (Binary64.spell value).head? = some '-' then .negate (.constant value)
      else .constant (-value)
  | inner => .negate inner

mutual
/-- The formula with the minuses before numbers written without one made their
signs, from the inside out. -/
def Formula.foldSigns : Formula ν → Formula ν
  | .constant value => .constant value
  | .name reference => .name reference
  | .binary left operator right => .binary left.foldSigns operator right.foldSigns
  | .negate inner => inner.foldSigns.negated
  | .call function arguments => .call function (Formula.foldSignsAll arguments)
  | .choose test whenTrue whenFalse =>
      .choose test.foldSigns whenTrue.foldSigns whenFalse.foldSigns

def Formula.foldSignsAll : List (Formula ν) → List (Formula ν)
  | [] => []
  | head :: tail => head.foldSigns :: Formula.foldSignsAll tail

def Condition.foldSigns : Condition ν → Condition ν
  | .literal value => .literal value
  | .compare left comparison right => .compare left.foldSigns comparison right.foldSigns
  | .connect left connective right => .connect left.foldSigns connective right.foldSigns
end

def Assignment.foldSigns (assignment : Assignment ν) : Assignment ν :=
  { assignment with value := assignment.value.foldSigns }

def Step.foldSigns : Step ν → Step ν
  | .assign assignment => .assign assignment.foldSigns
  | .return none value => .return none value.foldSigns
  | .return (some condition) value => .return (some condition.foldSigns) value.foldSigns

theorem Formula.length_foldSignsAll (formulas : List (Formula ν)) :
    (Formula.foldSignsAll formulas).length = formulas.length := by
  induction formulas with
  | nil => rfl
  | cons head tail induction => simp [Formula.foldSignsAll, induction]

/-- A second minus is never the sign of a number. -/
theorem Formula.negated_negated {formula : Formula ν}
    (finite : ∀ value, formula = .constant value → value.isFinite = true) :
    formula.negated.negated = .negate formula.negated := by
  cases formula with
  | constant value =>
      have finiteValue := finite value rfl
      by_cases negative : value.isNegative = true
      · simp [Formula.negated, (Binary64.head?_spell finiteValue).mpr negative]
      · have notSigned := mt (Binary64.head?_spell finiteValue).mp negative
        rcases Binary64.isNegative_neg (Bool.eq_false_iff.mpr negative) with ⟨isNegative, size⟩
        have finiteOpposite : (-value).isFinite = true := by
          rwa [Binary64.isFinite, size]
        have isSigned := (Binary64.head?_spell finiteOpposite).mpr isNegative
        simp [Formula.negated, notSigned, isSigned]
  | name | binary | negate | call | choose => rfl

theorem Formula.constant_of_negated {formula : Formula ν} {value : Binary64}
    (isConstant : formula.negated = .constant value) :
    ∃ size, formula = .constant size ∧ (Binary64.spell size).head? ≠ some '-' ∧ value = -size := by
  cases formula with
  | constant size =>
      rw [Formula.negated] at isConstant
      split at isConstant
      · cases isConstant
      · rename_i unsigned
        cases isConstant
        exact ⟨size, rfl, unsigned, rfl⟩
  | name | binary | negate | call | choose => cases isConstant

/-- Numbers stay finite. -/
theorem Formula.finite_of_foldSigns {demands : Demands ν}
    (finite : ∀ value, demands.number value → value.isFinite = true) :
    (formula : Formula ν) → formula.Meets demands →
    ∀ value, formula.foldSigns = .constant value → value.isFinite = true
  | .constant value, number, _, rfl => finite value number
  | .negate inner, meets, value, folded => by
      rcases Formula.constant_of_negated folded with ⟨size, isConstant, unsigned, rfl⟩
      have finiteSize := inner.finite_of_foldSigns finite meets size isConstant
      have positive := Bool.eq_false_iff.mpr (mt (Binary64.head?_spell finiteSize).mpr unsigned)
      rwa [Binary64.isFinite, (Binary64.isNegative_neg positive).2]

theorem Formula.references_negated (formula : Formula ν) :
    formula.negated.references = formula.references := by
  cases formula with
  | constant value =>
      rw [Formula.negated]
      split <;> rfl
  | name | binary | negate | call | choose => rfl

mutual
/-- The names stay as they are. -/
theorem Formula.references_foldSigns : (formula : Formula ν) →
    formula.foldSigns.references = formula.references
  | .constant _ => rfl
  | .name _ => rfl
  | .binary left _ right => by
      simp [Formula.foldSigns, Formula.references, left.references_foldSigns,
        right.references_foldSigns]
  | .negate inner => by
      simp [Formula.foldSigns, Formula.references_negated, Formula.references,
        inner.references_foldSigns]
  | .call _ arguments => Formula.references_foldSignsAll arguments
  | .choose test whenTrue whenFalse => by
      simp [Formula.foldSigns, Formula.references, test.references_foldSigns,
        whenTrue.references_foldSigns, whenFalse.references_foldSigns]

theorem Formula.references_foldSignsAll : (formulas : List (Formula ν)) →
    Formula.referencesAll (Formula.foldSignsAll formulas) = Formula.referencesAll formulas
  | [] => rfl
  | head :: tail => by
      simp [Formula.foldSignsAll, Formula.referencesAll, head.references_foldSigns,
        Formula.references_foldSignsAll tail]

theorem Condition.references_foldSigns : (condition : Condition ν) →
    condition.foldSigns.references = condition.references
  | .literal _ => rfl
  | .compare left _ right => by
      simp [Condition.foldSigns, Condition.references, left.references_foldSigns,
        right.references_foldSigns]
  | .connect left _ right => by
      simp [Condition.foldSigns, Condition.references, left.references_foldSigns,
        right.references_foldSigns]
end

theorem Step.mentions_foldSigns (step : Step ν) : step.foldSigns.mentions = step.mentions := by
  cases step with
  | assign assignment =>
      exact congrArg (assignment.target :: ·) assignment.value.references_foldSigns
  | «return» condition value =>
      cases condition with
      | none => exact value.references_foldSigns
      | some condition =>
          exact congrArg₂ (· ++ ·) condition.references_foldSigns value.references_foldSigns

end NumericRules
