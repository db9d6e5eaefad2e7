import NumericRules.Proofs.Grammar.BlankedReading
import NumericRules.Proofs.Grammar.Rebinding
import NumericRules.Proofs.Grammar.StatementForm
import NumericRules.Proofs.Grammar.StatementReading

/-! # Returned formulas

A formula without comments has the separator of arguments in its brackets alone, unless it
is a character that formulas have for something else. So in the brackets of a return the
formula is the one argument, and it is read there as it is on its own.
-/

namespace NumericRules.Grammar

open Text

/-- Characters that mean nothing else in a formula, so they can separate arguments. -/
def isSeparate (character : Char) : Bool :=
  !isBlank character && !character.isDigit &&
    !(['.', '+', '-', '*', '/', '%', '(', ')'].contains character)

/-- Characters of a kind that has neither the separator nor brackets. -/
theorem closed_of_all {holds : Char → Bool} {separator : Char} (apart : holds separator = false)
    (opening : holds '(' = false) (closing : holds ')' = false) {text : List Char}
    (all : text.all holds = true) : Closed (· ≠ separator) text := by
  apply Closed.of_forall
  intro character inside
  have held := List.all_eq_true.mp all character inside
  have other {excluded : Char} (fails : holds excluded = false) : character ≠ excluded := by
    rintro rfl
    rw [fails] at held
    cases held
  exact ⟨other apart, other opening, other closing⟩

theorem Lexis.spaced_among {separator : Char} (separate : isSeparate separator = true) :
    (Lexis.spaced separator).Among separator (· ≠ separator) (fun _ => True) := by
  simp only [isSeparate, Bool.and_eq_true, Bool.not_eq_true', List.contains_eq_mem,
    decide_eq_false_iff_not, List.mem_cons, List.not_mem_nil, or_false, not_or] at separate
  rcases separate with ⟨⟨notBlank, notDigit⟩, notPoint, notPlus, notMinus, notTimes, notSlash,
    notPercent, notOpening, notClosing⟩
  have blank : isBlank '(' = false ∧ isBlank ')' = false := ⟨by decide, by decide⟩
  have any {text : List Char} (closed : Closed (· ≠ ',') text) : Closed (fun _ => True) text :=
    closed.weaken fun _ _ => trivial
  exact {
    gap := closed_of_all notBlank blank.1 blank.2
    word := closed_of_all (by simp [isTokenCharacter, endsToken])
      (by simp [isTokenCharacter, endsToken]) (by simp [isTokenCharacter, endsToken])
    numeral := fun {text} numeral => by
      have digits : text.all (fun character => character.isDigit || character = '.') = true := by
        apply List.all_eq_true.mpr
        intro character inside
        simpa using ((isNumeric_iff text).mp numeral.isNumeric).2 character inside
      exact closed_of_all (by simp [notDigit, notPoint]) (by decide) (by decide) digits
    operator := fun operator => by
      cases operator
      exacts [Ne.symm notPlus, Ne.symm notMinus, Ne.symm notTimes, Ne.symm notSlash,
        Ne.symm notPercent]
    wider := fun _ _ => trivial
    connective := fun connective => any (Lexis.standard_among.connective connective)
    comparison := fun comparison => any (Lexis.standard_among.comparison comparison)
    literal := fun named => any (Lexis.standard_among.literal named)
    separator := ⟨notOpening, notClosing⟩ }

section Returns

variable {before : Vocabulary ν} {after : Vocabulary μ} {change : ν → μ}
  (extension : before.Extends change after)
  (separate : isSeparate before.argumentSeparator = true) {text : List Char} {tree : Formula ν}
  (accepted : wholeFormula before (.start text) = .ok tree)

include accepted

theorem not_blank_of_wholeFormula : text.all isBlank = false := by
  rw [Bool.eq_false_iff]
  intro blank
  have nothing : (Cursor.start text).skip.rest = [] := by
    have skipped := Cursor.skip_gap blank 0 []
    rw [List.append_nil] at skipped
    exact congrArg Cursor.rest skipped
  rcases whole_refuses (formula_refuses before before.nestingLimit) nothing with ⟨fault, refused⟩
  rw [wholeFormula, refused] at accepted
  cases accepted

include separate in
/-- The separator of arguments stands in brackets alone. -/
theorem closed_of_wholeFormula (commentless : ¬ ['/', '/'] <:+: text) :
    Closed (· ≠ before.argumentSeparator) text :=
  (((formula_condition_reads before before.nestingLimit).1.whole accepted).relax
    (Lexis.spaced_covers commentless)).closed_among (Lexis.spaced_among separate)

include extension separate

theorem readReturn_formula (commentless : ¬ ['/', '/'] <:+: text) (index : Nat)
    (rest : List Char) :
    ∃ stop, readReturn after ⟨index, bracketed text ++ rest⟩ =
      .ok (.return none (tree.map change), ⟨stop, rest⟩) := by
  have closed := closed_of_wholeFormula separate accepted commentless
  have bounds : before.argumentSeparator ≠ '(' ∧ before.argumentSeparator ≠ ')' :=
    (Lexis.spaced_among separate).separator
  have split := readArguments_joinWith bounds.1 bounds.2 (List.cons_ne_nil text [])
    (by simpa using closed) (by simpa using not_blank_of_wholeFormula accepted) index rest
  have value : wholeFormula after ⟨index + 1, text⟩ = .ok (tree.map change) := by
    have moved := wholeFormula_mirrored extension accepted (index + 1)
    rwa [Cursor.moved, Cursor.start, Nat.zero_add] at moved
  refine ⟨index + (bracketed text).length, ?_⟩
  rw [readReturn, extension.argumentSeparator]
  exact (bind_of_ok split).trans (bind_of_ok value)

/-- A formula in the brackets of a return is a process. -/
theorem wholeProcess_return (letters : before.stepSeparator ∉ returnWord)
    (commentless : ¬ ['/', '/'] <:+: text) :
    wholeProcess after (returnWord ++ bracketed text) = .ok [.return none (tree.map change)] := by
  have afterLetters : after.stepSeparator ∉ returnWord := by rwa [extension.stepSeparator]
  have settled : skipSeparators after.stepSeparator (.start (returnWord ++ bracketed text)) =
      .start (returnWord ++ bracketed text) := by
    have apart : ('R' : Char) ≠ after.stepSeparator := fun isSeparator =>
      afterLetters (isSeparator ▸ List.mem_cons_self ..)
    have notBlank : isBlank 'R' = false := by decide
    simp [skipSeparators, Cursor.start, returnWord, skipSeparatorsFrom, notBlank, apart]
  rcases readReturn_formula extension separate accepted commentless returnWord.length [] with
    ⟨stop, returned⟩
  have step : readStep after true (.start (returnWord ++ bracketed text)) =
      .ok (.return none (tree.map change), ⟨stop, []⟩) := by
    have isReturn := readStep_returnWord afterLetters text [] 0
    rw [Nat.zero_add, returned, List.append_nil] at isReturn
    exact isReturn
  have atEnd : StepsAt after true ⟨stop, []⟩ [] := .nil rfl
  have steps : StepsAt after true (.start (returnWord ++ bracketed text))
      [.return none (tree.map change)] := by
    refine .cons ?_ ?_ atEnd
    · rw [settled]
      exact List.cons_ne_nil _ _
    · rw [settled]
      exact readStep_iff.mp step
  exact wholeProcess_iff.mpr ⟨List.cons_ne_nil _ _, steps⟩

end Returns

end NumericRules.Grammar
