import NumericRules.Proofs.Grammar.Minuses
import NumericRules.Proofs.Grammar.Written

/-! # Minuses in symbolic forms

A symbolic form puts no brackets behind a minus. It has two minuses before one
operand exactly when a minus of the tree stands over another one or over a negative
number, and is the bracketed text of the tree otherwise.
-/

namespace NumericRules

open Grammar

/-- Whether the text of the formula begins with a minus. -/
def Formula.beginsWithMinus : Formula ν → Bool
  | .constant value => value.isNegative
  | .negate _ => true
  | _ => false

mutual
/-- Whether no minus of the tree stands over a text that begins with one. -/
def Formula.singleMinuses : Formula ν → Bool
  | .constant _ => true
  | .name _ => true
  | .binary left _ right => left.singleMinuses && right.singleMinuses
  | .negate inner => !inner.beginsWithMinus && inner.singleMinuses
  | .call _ arguments => Formula.singleMinusesAll arguments
  | .choose test whenTrue whenFalse =>
      test.singleMinuses && (whenTrue.singleMinuses && whenFalse.singleMinuses)

def Formula.singleMinusesAll : List (Formula ν) → Bool
  | [] => true
  | head :: tail => head.singleMinuses && Formula.singleMinusesAll tail

def Condition.singleMinuses : Condition ν → Bool
  | .literal _ => true
  | .compare left _ right => left.singleMinuses && right.singleMinuses
  | .connect left _ right => left.singleMinuses && right.singleMinuses
end

def Step.singleMinuses : Step ν → Bool
  | .assign assignment => assignment.value.singleMinuses
  | .return none value => value.singleMinuses
  | .return (some condition) value => condition.singleMinuses && value.singleMinuses

section Forms

variable [Named ν] {vocabulary : Vocabulary ν}

theorem Formula.head?_form (formula : Formula ν) (writable : formula.Meets (.writable vocabulary)) :
    formula.form.head? = some '-' ↔ formula.beginsWithMinus = true := by
  have word {text : List Char} (isWord : IsWord text) (rest : List Char) :
      (text ++ rest).head? = some '-' ↔ false = true := by
    constructor
    · intro minus
      exact absurd minus (IsWord.head?_ne isWord rest)
    · intro impossible
      cases impossible
  cases formula with
  | constant value => exact Binary64.head?_spell writable
  | name reference =>
      have unsigned := word writable.1 []
      rwa [List.append_nil] at unsigned
  | binary left operator right => simp [Formula.form, bracketed, Formula.beginsWithMinus]
  | negate inner => simp [Formula.form, Formula.beginsWithMinus]
  | call function arguments => exact word writable.1.1 _
  | choose test whenTrue whenFalse =>
      exact word (by decide : IsWord chooseName.toList) _

mutual
/-- Without a second minus the symbolic form is the bracketed text. -/
theorem Formula.form_eq_written : (formula : Formula ν) → formula.Meets (.writable vocabulary) →
    formula.singleMinuses = true → formula.form = formula.written
  | .constant _, _, _ => rfl
  | .name _, _, _ => rfl
  | .binary left _ right, writable, single => by
      have parts := (Bool.and_eq_true _ _).mp single
      rw [Formula.form, Formula.written, left.form_eq_written writable.1 parts.1,
        right.form_eq_written writable.2 parts.2]
  | .negate inner, writable, single => by
      have parts := (Bool.and_eq_true _ _).mp single
      have same := inner.form_eq_written writable parts.2
      have unsigned : inner.written.head? ≠ some '-' := by
        rw [← same]
        intro minus
        have begins := (inner.head?_form writable).mp minus
        rw [begins] at parts
        cases parts.1
      rw [Formula.form, Formula.written, same, negatedForm, if_neg unsigned]
  | .call _ arguments, writable, single => by
      rw [Formula.form, Formula.written, Formula.formAll_eq_written arguments writable.2 single]
  | .choose test whenTrue whenFalse, writable, single => by
      have parts := (Bool.and_eq_true _ _).mp single
      have branches := (Bool.and_eq_true _ _).mp parts.2
      rw [Formula.form, Formula.written, test.form_eq_written writable.2.1 parts.1,
        whenTrue.form_eq_written writable.2.2.1 branches.1,
        whenFalse.form_eq_written writable.2.2.2 branches.2]

theorem Formula.formAll_eq_written : (formulas : List (Formula ν)) →
    Formula.MeetAll (.writable vocabulary) formulas → Formula.singleMinusesAll formulas = true →
    Formula.formAll formulas = Formula.writtenAll formulas
  | [], _, _ => rfl
  | head :: tail, writable, single => by
      have parts := (Bool.and_eq_true _ _).mp single
      rw [Formula.formAll, Formula.writtenAll, head.form_eq_written writable.1 parts.1,
        Formula.formAll_eq_written tail writable.2 parts.2]

theorem Condition.form_eq_written : (condition : Condition ν) →
    condition.Meets (.writable vocabulary) → condition.singleMinuses = true →
    condition.form = condition.written
  | .literal _, _, _ => rfl
  | .compare left _ right, writable, single => by
      have parts := (Bool.and_eq_true _ _).mp single
      rw [Condition.form, Condition.written, left.form_eq_written writable.1 parts.1,
        right.form_eq_written writable.2 parts.2]
  | .connect left _ right, writable, single => by
      have parts := (Bool.and_eq_true _ _).mp single
      rw [Condition.form, Condition.written, left.form_eq_written writable.1 parts.1,
        right.form_eq_written writable.2 parts.2]
end

/-! ## Counting minuses -/

theorem IsWord.minuses {word : List Char} (isWord : IsWord word) (allowed : Nat) :
    Grammar.minuses allowed word = some 2 :=
  minuses_word (fun character inside => .of_word (List.all_eq_true.mp isWord.1 character inside))
    isWord.ne_nil allowed

/-- The minuses after a text that is accepted or not. -/
def minusesIf (fits : Bool) : Option Nat := if fits then some 2 else none

/-- Two parts with something between them that an operand stands behind. -/
theorem minuses_pair {left between right : List Char} {fitsLeft fitsRight : Bool} {allowed : Nat}
    (ofLeft : minuses allowed left = minusesIf fitsLeft)
    (ofBetween : minuses 2 (between ++ right) = minuses 1 right)
    (ofRight : minuses 1 right = minusesIf fitsRight) :
    minuses allowed (left ++ between ++ right) = minusesIf (fitsLeft && fitsRight) := by
  rw [List.append_assoc, minuses_append, ofLeft]
  cases fitsLeft with
  | false => rfl
  | true => exact ofBetween.trans ofRight

theorem minuses_group {inner : List Char} {fits : Bool}
    (ofInner : (minuses 1 inner).isSome = fits) (allowed : Nat) :
    minuses allowed (bracketed inner) = minusesIf fits := by
  rw [minuses_bracketed, ← ofInner]
  cases minuses 1 inner <;> rfl

theorem isSome_minusesIf {text : List Char} {fits : Bool} {allowed : Nat}
    (ofText : minuses allowed text = minusesIf fits) : (minuses allowed text).isSome = fits := by
  rw [ofText]
  cases fits <;> rfl

theorem minuses_comma {text : List Char} {texts : List (List Char)} {fits fitsRest : Bool}
    (ofText : minuses 1 text = minusesIf fits)
    (ofRest : (minuses 1 (joinWith ',' texts)).isSome = fitsRest) :
    (minuses 1 (joinWith ',' (text :: texts))).isSome = (fits && fitsRest) := by
  cases texts with
  | nil =>
      have any : true = fitsRest := ofRest
      rw [joinWith, isSome_minusesIf ofText, ← any, Bool.and_true]
  | cons next texts =>
      rw [joinWith, minuses_append, ofText]
      cases fits with
      | false => rfl
      | true => exact ofRest

mutual
/-- The symbolic form has no minus too many exactly when no minus of the tree stands
over another. -/
theorem Formula.minuses_form : (formula : Formula ν) → formula.Meets (.writable vocabulary) →
    ∀ allowed, allowed = 1 ∨ formula.beginsWithMinus = false →
    minuses allowed formula.form = minusesIf formula.singleMinuses
  | .constant value, finite, allowed, enough => by
      rcases Binary64.spell_of_isFinite finite with ⟨numeral, spelled, isNumeral, _⟩
      rw [Formula.form, spelled]
      rcases enough with rfl | positive
      · cases value.isNegative with
        | true => exact minuses_numeral isNumeral 0
        | false => exact minuses_numeral isNumeral 1
      · have notNegative : value.isNegative = false := positive
        rw [notNegative]
        exact minuses_numeral isNumeral allowed
  | .name _, known, allowed, _ => IsWord.minuses known.1 allowed
  | .binary left operator right, writable, allowed, _ => by
      have ofLeft := left.minuses_form writable.1 1 (.inl rfl)
      have ofRight := right.minuses_form writable.2 1 (.inl rfl)
      have between : minuses 2 ([operator.symbol] ++ right.form) = minuses 1 right.form :=
        minuses_symbol operator right.form
      have pair := minuses_pair ofLeft between ofRight
      rw [List.append_assoc] at pair
      exact minuses_group (isSome_minusesIf pair) allowed
  | .negate inner, writable, allowed, enough => by
      rcases enough with rfl | unsigned
      · rw [Formula.form, minuses_minus]
        cases begins : inner.beginsWithMinus with
        | true =>
            have minus := (inner.head?_form writable).mpr begins
            rw [Formula.singleMinuses, begins]
            cases form : inner.form with
            | nil =>
                rw [form] at minus
                cases minus
            | cons first rest =>
                rw [form] at minus
                cases minus
                rfl
        | false =>
            rw [Formula.singleMinuses, begins]
            exact inner.minuses_form writable 0 (.inr begins)
      · cases unsigned
  | .call function arguments, writable, allowed, _ => by
      have ofArguments := Formula.minuses_formAll arguments writable.2
      rw [Formula.form, minuses_append, IsWord.minuses writable.1.1]
      exact minuses_group ofArguments 2
  | .choose test whenTrue whenFalse, writable, allowed, _ => by
      have ofTest := test.minuses_form writable.2.1 1
      have ofTrue := whenTrue.minuses_form writable.2.2.1 1 (.inl rfl)
      have ofFalse := whenFalse.minuses_form writable.2.2.2 1 (.inl rfl)
      have word : IsWord chooseName.toList := by decide
      have last : (minuses 1 (joinWith ',' [whenFalse.form])).isSome = whenFalse.singleMinuses :=
        isSome_minusesIf ofFalse
      have branches := minuses_comma ofTrue last
      rw [Formula.form, minuses_append, IsWord.minuses word]
      exact minuses_group (minuses_comma ofTest branches) 2

theorem Formula.minuses_formAll : (formulas : List (Formula ν)) →
    Formula.MeetAll (.writable vocabulary) formulas →
    (minuses 1 (joinWith ',' (Formula.formAll formulas))).isSome =
      Formula.singleMinusesAll formulas
  | [], _ => rfl
  | head :: tail, writable =>
      minuses_comma (head.minuses_form writable.1 1 (.inl rfl))
        (Formula.minuses_formAll tail writable.2)

theorem Condition.minuses_form : (condition : Condition ν) →
    condition.Meets (.writable vocabulary) → ∀ allowed,
    minuses allowed condition.form = minusesIf condition.singleMinuses
  | .literal value, _, allowed => by
      cases value <;> rfl
  | .compare left comparison right, writable, allowed => by
      have ofLeft := left.minuses_form writable.1 1 (.inl rfl)
      have ofRight := right.minuses_form writable.2 1 (.inl rfl)
      have pair := minuses_pair ofLeft (minuses_comparison comparison 2 right.form) ofRight
      exact minuses_group (isSome_minusesIf pair) allowed
  | .connect left connective right, writable, allowed => by
      have ofLeft := left.minuses_form writable.1 1
      have ofRight := right.minuses_form writable.2
      have between : minuses 2 (connective.symbol.toList ++ right.form) = minuses 1 right.form := by
        rw [minuses_connective, ofRight, ofRight]
      have pair := minuses_pair ofLeft between (ofRight 1)
      exact minuses_group (isSome_minusesIf pair) allowed
end

end Forms

end NumericRules
