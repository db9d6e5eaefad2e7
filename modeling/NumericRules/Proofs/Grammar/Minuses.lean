import NumericRules.Proofs.Grammar.Shape
import NumericRules.Proofs.Grammar.Chain

/-! # Minuses in a row

One minus may stand before an operand and another one behind it, so at most two
stand in a row behind an operand and at most one anywhere else.
-/

namespace NumericRules.Grammar

open Text

/-- Characters that an operand stands behind. A minus is counted on its own. -/
def opensOperand (character : Char) : Bool :=
  ['(', ',', '+', '*', '/', '%', '<', '>', '=', '!'].contains character

/-- How many minuses may follow a character when `allowed` of them might have stood
in its place. -/
def minusesAfter (allowed : Nat) (character : Char) : Option Nat :=
  if character = '-' then (if allowed = 0 then none else some (allowed - 1))
  else some (if opensOperand character then 1 else 2)

/-- How many minuses may follow a text, `none` if too many are in it. -/
def minuses (allowed : Nat) : List Char → Option Nat
  | [] => some allowed
  | character :: rest => (minusesAfter allowed character).bind (minuses · rest)

theorem minuses_append (allowed : Nat) (first second : List Char) :
    minuses allowed (first ++ second) = (minuses allowed first).bind (minuses · second) := by
  induction first generalizing allowed with
  | nil => rfl
  | cons character first induction =>
      simp only [List.cons_append, minuses]
      cases minusesAfter allowed character with
      | none => rfl
      | some next => exact induction next

theorem minuses_minus (allowed : Nat) (rest : List Char) :
    minuses (allowed + 1) ('-' :: rest) = minuses allowed rest := rfl

theorem minuses_opening {character : Char} (opens : opensOperand character = true) (allowed : Nat)
    (rest : List Char) : minuses allowed (character :: rest) = minuses 1 rest := by
  have notMinus : character ≠ '-' := by
    rintro rfl
    cases opens
  simp [minuses, minusesAfter, notMinus, opens]

/-- Characters of operands. -/
def EndsOperand (character : Char) : Prop := character ≠ '-' ∧ opensOperand character = false

theorem minuses_ending {character : Char} (ends : EndsOperand character) (allowed : Nat)
    (rest : List Char) : minuses allowed (character :: rest) = minuses 2 rest := by
  simp [minuses, minusesAfter, ends.1, ends.2]

theorem minuses_word {word : List Char} (ends : ∀ character ∈ word, EndsOperand character)
    (nonempty : word ≠ []) (allowed : Nat) : minuses allowed word = some 2 := by
  cases word with
  | nil => exact absurd rfl nonempty
  | cons first word =>
      rw [minuses_ending (ends first (List.mem_cons_self ..))]
      clear nonempty
      induction word with
      | nil => rfl
      | cons second word induction =>
          rw [minuses_ending (ends second (by simp))]
          exact induction fun character inside => ends character (by
            rcases List.mem_cons.mp inside with rfl | tail
            · exact List.mem_cons_self ..
            · exact List.mem_cons_of_mem _ (List.mem_cons_of_mem _ tail))

theorem minuses_symbol (operator : Operator) (rest : List Char) :
    minuses 2 (operator.symbol :: rest) = minuses 1 rest := by
  cases operator <;> rfl

theorem minuses_comparison (comparison : Comparison) (allowed : Nat) (rest : List Char) :
    minuses allowed (comparison.symbol.toList ++ rest) = minuses 1 rest := by
  cases comparison <;> rfl

theorem minuses_connective (connective : Connective) (allowed : Nat) (rest : List Char) :
    minuses allowed (connective.symbol.toList ++ rest) = minuses 2 rest := by
  cases connective <;> rfl

/-- Brackets give nothing of what is inside away. -/
theorem minuses_bracketed (allowed : Nat) (inner : List Char) :
    minuses allowed (bracketed inner) = (minuses 1 inner).bind fun _ => some 2 := by
  rw [bracketed, minuses_opening rfl, minuses_append]
  cases minuses 1 inner with
  | none => rfl
  | some after => rfl

/-- Where more minuses may stand, no fewer may follow. -/
theorem minuses_mono {allowed more left : Nat} {text : List Char} (le : allowed ≤ more)
    (small : more ≤ 2) (fits : minuses allowed text = some left) :
    ∃ after, minuses more text = some after ∧ left ≤ after ∧ after ≤ 2 := by
  induction text generalizing allowed more with
  | nil =>
      cases fits
      exact ⟨more, rfl, le, small⟩
  | cons character rest induction =>
      by_cases minus : character = '-'
      · subst minus
        cases allowed with
        | zero => cases fits
        | succ allowed =>
            cases more with
            | zero => exact absurd le (Nat.not_succ_le_zero allowed)
            | succ more =>
                exact induction (Nat.le_of_succ_le_succ le) (Nat.le_of_succ_le small) fits
      · simp only [minuses, minusesAfter, if_neg minus] at fits ⊢
        exact induction (Nat.le_refl _) (by split <;> decide) fits

theorem minuses_two {text : List Char} (fits : minuses 1 text = some 2) :
    minuses 2 text = some 2 := by
  rcases minuses_mono (by decide) (Nat.le_refl 2) fits with ⟨after, fits, least, most⟩
  rw [fits, Nat.le_antisymm most least]

/-! ## Derived text -/

/-- No gaps, and tokens as the parsers cut them. -/
def Lexis.tight : Lexis where
  Gap text := text = []
  Word text := text.all (isTokenCharacter ',') = true ∧ text ≠ []

theorem EndsOperand.of_token {character : Char} (token : isTokenCharacter ',' character = true) :
    EndsOperand character := by
  simp only [isTokenCharacter, endsToken, isForeign, Bool.and_eq_true, Bool.not_eq_true',
    Bool.or_eq_false_iff, bne_iff_ne] at token
  refine ⟨token.2, ?_⟩
  have others := token.1
  simp only [List.contains_cons, List.contains_nil, Bool.or_false, Bool.or_eq_false_iff,
    beq_eq_false_iff_ne] at others
  simp [opensOperand, others]

theorem EndsOperand.of_word {character : Char} (word : isWordCharacter character = true) :
    EndsOperand character :=
  .of_token (isTokenCharacter_of_isWordCharacter word)

theorem minuses_numeral {numeral : List Char} (isNumeral : IsNumeral numeral) (allowed : Nat) :
    minuses allowed numeral = some 2 := by
  have digits {digits : List Char} (areDigits : digits.all Char.isDigit = true) :
      ∀ digit ∈ digits, EndsOperand digit := fun digit inside =>
    .of_word (isWordCharacter_of_isDigit (List.all_eq_true.mp areDigits digit inside))
  cases isNumeral with
  | integer nonempty areDigits => exact minuses_word (digits areDigits) nonempty allowed
  | decimal nonempty areDigits fractionNonempty areFraction =>
      rw [minuses_append, minuses_word (digits areDigits) nonempty]
      change minuses 2 ('.' :: _) = some 2
      rw [minuses_ending ⟨by decide, by decide⟩]
      exact minuses_word (digits areFraction) fractionNonempty 2

/-- The minuses in a part. -/
def Category.Minuses : Category → List Char → Prop
  | .atom negative => fun text => minuses (if negative then 0 else 1) text = some 2
  | .arguments => fun text => ∃ after, minuses 1 text = some after
  | _ => fun text => minuses 1 text = some 2

/-- A derived text never has too many minuses in a row. -/
theorem Derives.minuses {vocabulary : Vocabulary ν} (comma : vocabulary.argumentSeparator = ',')
    {category : Category} {text : List Char} {tree : category.Tree ν}
    (derivation : Derives vocabulary .tight category text tree) : category.Minuses text := by
  have word {text : List Char} (isWord : Lexis.tight.Word text) (allowed : Nat) :
      Grammar.minuses allowed text = some 2 :=
    minuses_word (fun character inside => .of_token (List.all_eq_true.mp isWord.1 character inside))
      isWord.2 allowed
  have group {inner : List Char} {after : Nat} (fits : Grammar.minuses 1 inner = some after)
      (allowed : Nat) : Grammar.minuses allowed (bracketed inner) = some 2 := by
    rw [minuses_bracketed, fits]
    rfl
  have argument {first rest : List Char} {after : Nat} (ofFirst : Grammar.minuses 1 first = some 2)
      (ofRest : Grammar.minuses 1 rest = some after) :
      Grammar.minuses 1 (first ++ vocabulary.argumentSeparator :: rest) = some after := by
    rw [comma, minuses_append, ofFirst]
    exact ofRest
  induction derivation with
  | product _ induction | term _ induction | clause _ induction => exact induction
  | @sum _ _ _ _ operator _ _ _ leftInduction rightInduction
  | @factor _ _ _ _ operator _ _ _ leftInduction rightInduction =>
      have ofLeft : Grammar.minuses 1 _ = some 2 := leftInduction
      change Grammar.minuses 1 _ = some 2
      rw [minuses_append, ofLeft]
      exact (minuses_symbol operator _).trans rightInduction
  | @atom _ _ _ negative _ gapBefore _ gapAfter induction =>
      cases gapBefore
      cases gapAfter
      change Grammar.minuses 1 _ = some 2
      rw [List.nil_append, List.append_nil]
      cases negative with
      | true => exact induction
      | false => exact induction
  | number isNumeral _ => exact minuses_numeral isNumeral _
  | name isWord _ => exact word isWord _
  | group _ induction => exact group induction _
  | call isWord _ _ _ induction =>
      rcases induction with ⟨after, fits⟩
      change Grammar.minuses _ _ = some 2
      rw [minuses_append, word isWord]
      exact group fits 2
  | choose isWord _ _ _ _ testInduction firstInduction secondInduction =>
      change Grammar.minuses _ _ = some 2
      rw [minuses_append, word isWord]
      exact group (argument testInduction (argument firstInduction secondInduction)) 2
  | noArgument gap =>
      cases gap
      exact ⟨1, rfl⟩
  | argument _ induction => exact ⟨2, induction⟩
  | arguments _ _ firstInduction restInduction =>
      rcases restInduction with ⟨after, fits⟩
      exact ⟨after, argument firstInduction fits⟩
  | @connect _ _ _ _ connective _ _ leftInduction rightInduction =>
      have ofLeft : Grammar.minuses 1 _ = some 2 := leftInduction
      change Grammar.minuses 1 _ = some 2
      rw [minuses_append, ofLeft]
      exact (minuses_connective connective 2 _).trans (minuses_two rightInduction)
  | conditionGroup gapBefore _ gapAfter induction =>
      cases gapBefore
      cases gapAfter
      change Grammar.minuses 1 _ = some 2
      rw [List.nil_append, List.append_nil]
      exact group induction 1
  | @compare _ _ _ _ comparison _ _ leftInduction rightInduction =>
      have ofLeft : Grammar.minuses 1 _ = some 2 := leftInduction
      change Grammar.minuses 1 _ = some 2
      rw [minuses_append, ofLeft]
      exact (minuses_comparison comparison 2 _).trans rightInduction
  | literal gapBefore named gapAfter =>
      cases gapBefore
      cases gapAfter
      rcases word_of_literal? named with ⟨nonempty, areWord⟩
      change Grammar.minuses 1 _ = some 2
      rw [List.nil_append, List.append_nil]
      exact minuses_word (fun character inside => .of_word (areWord character inside)) nonempty 1

end NumericRules.Grammar
