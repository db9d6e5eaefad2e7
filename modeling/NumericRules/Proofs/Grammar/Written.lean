import NumericRules.Proofs.Demands
import NumericRules.Proofs.SignFolding
import NumericRules.Proofs.Grammar.Chain
import NumericRules.Proofs.Grammar.Shape

/-! # Written text is derived

Text with every operator in brackets, where a second minus in a row gets brackets
of its own, is derived by the grammar. What it stands for is the tree with the
minuses before numbers folded into them.
-/

namespace NumericRules

open Grammar

mutual
/-- The text of a formula in which no minus directly follows another one that
stands before an operand. -/
def Formula.written [Named ν] : Formula ν → List Char
  | .constant value => Binary64.spell value
  | .name reference => (Named.name reference).toList
  | .binary left operator right => bracketed (left.written ++ operator.symbol :: right.written)
  | .negate inner => negatedForm inner.written
  | .call function arguments =>
      function.toList ++ bracketed (joinWith ',' (Formula.writtenAll arguments))
  | .choose test whenTrue whenFalse =>
      chooseName.toList ++
        bracketed (joinWith ',' [test.written, whenTrue.written, whenFalse.written])

def Formula.writtenAll [Named ν] : List (Formula ν) → List (List Char)
  | [] => []
  | head :: tail => head.written :: Formula.writtenAll tail

def Condition.written [Named ν] : Condition ν → List Char
  | .literal value => if value then ['t', 'r', 'u', 'e'] else ['f', 'a', 'l', 's', 'e']
  | .compare left comparison right =>
      bracketed (left.written ++ comparison.symbol.toList ++ right.written)
  | .connect left connective right =>
      bracketed (left.written ++ connective.symbol.toList ++ right.written)
end

/-- Names and functions are known by the words they are written as, and numbers are
finite. -/
def Demands.writable [Named ν] (vocabulary : Vocabulary ν) : Demands ν where
  number value := value.isFinite = true
  name reference :=
    IsWord (Named.name reference).toList ∧
      vocabulary.resolve? (Named.name reference) = some reference
  call function count :=
    IsWord function.toList ∧
      ∃ accepted, vocabulary.signature? function = some (.native accepted) ∧
        accepted.contains count = true
  choose := vocabulary.signature? chooseName = some .choose

/-! ## Derivations -/

section Derivation

variable {vocabulary : Vocabulary ν}

/-- Conditions in brackets are clauses. -/
theorem derives_bracketed {inner : List Char} {tree : Condition ν}
    (condition : Derives vocabulary .standard .condition inner tree) :
    Derives vocabulary .standard .clause (bracketed inner) tree := by
  have group : Derives vocabulary .standard .clause ([] ++ (bracketed inner ++ [])) tree :=
    .conditionGroup rfl condition rfl
  simpa using group

variable [Named ν]

/-- The text of a formula is derived behind both signs unless it begins with a
minus. A text that does is a negative term, and a minus before it is not the sign
of a number. -/
def Formula.DerivesWritten (vocabulary : Vocabulary ν) (formula : Formula ν) : Prop :=
  (formula.written.head? ≠ some '-' ∧ ∀ negative,
    Derives vocabulary .standard (.atom negative) formula.written
      (if negative then formula.foldSigns.negated else formula.foldSigns)) ∨
  ∃ body, formula.written = '-' :: body ∧
    Derives vocabulary .standard (.atom true) body formula.foldSigns ∧
    formula.foldSigns.negated = .negate formula.foldSigns

theorem Formula.DerivesWritten.term {formula : Formula ν}
    (derives : formula.DerivesWritten vocabulary) :
    Derives vocabulary .standard .term formula.written formula.foldSigns := by
  have whole (negative : Bool) {text : List Char} {tree : Formula ν}
      (atom : Derives vocabulary .standard (.atom negative) text tree) :
      Derives vocabulary .standard .term (signed negative text) tree := by
    have term : Derives vocabulary .standard .term ([] ++ (signed negative text ++ [])) tree :=
      .atom rfl atom rfl
    simpa using term
  rcases derives with ⟨_, atom⟩ | ⟨body, written, atom, _⟩
  · exact whole false (atom false)
  · rw [written]
    exact whole true atom

theorem Formula.DerivesWritten.sum {formula : Formula ν}
    (derives : formula.DerivesWritten vocabulary) :
    Derives vocabulary .standard .sum formula.written formula.foldSigns :=
  .product (.term derives.term)

/-- Whatever is not a number and is written without a minus in front. -/
theorem Formula.derivesWritten_of_atom {formula : Formula ν}
    (unsigned : formula.written.head? ≠ some '-')
    (negated : formula.foldSigns.negated = .negate formula.foldSigns)
    (atom : ∀ negative, Derives vocabulary .standard (.atom negative) formula.written
      (negateIf negative formula.foldSigns)) :
    formula.DerivesWritten vocabulary := by
  refine .inl ⟨unsigned, fun negative => ?_⟩
  rw [negated]
  exact atom negative

theorem IsWord.head?_ne {word : List Char} (isWord : IsWord word) (rest : List Char) :
    (word ++ rest).head? ≠ some '-' := by
  cases word with
  | nil => exact absurd rfl isWord.ne_nil
  | cons first word =>
      intro minus
      cases minus
      have first := List.all_eq_true.mp isWord.1 '-' (List.mem_cons_self ..)
      revert first
      decide

theorem Formula.derivesWritten_constant {value : Binary64} (finite : value.isFinite = true) :
    (Formula.constant value : Formula ν).DerivesWritten vocabulary := by
  rcases Binary64.spell_of_isFinite finite with ⟨numeral, spelled, isNumeral, read⟩
  have signedHead := Binary64.head?_spell finite
  cases sign : value.isNegative with
  | true =>
      have same : value.withSign true = value := by
        rw [← sign, Binary64.withSign_isNegative]
      rw [sign] at spelled
      refine .inr ⟨numeral, spelled, .number isNumeral ?_, ?_⟩
      · rw [read, same]
      · exact if_pos (signedHead.mpr sign)
  | false =>
      have notSigned : (Binary64.spell value).head? ≠ some '-' := by
        rw [ne_eq, signedHead, sign]
        decide
      rw [sign] at spelled
      refine .inl ⟨notSigned, fun negative => ?_⟩
      have text : (Formula.constant value : Formula ν).written = numeral := spelled
      have tree : (if negative then (Formula.constant value : Formula ν).foldSigns.negated
          else (Formula.constant value).foldSigns) = .constant (value.withSign negative) := by
        cases negative with
        | true =>
            have opposite : -value = value.withSign true := congrArg (value.withSign !·) sign
            simp [Formula.foldSigns, Formula.negated, notSigned, opposite]
        | false =>
            have same : value.withSign false = value := by
              rw [← sign, Binary64.withSign_isNegative]
            simp [Formula.foldSigns, same]
      rw [text, tree]
      exact .number isNumeral (read negative)

theorem Formula.derivesWritten_name {reference : ν} (word : IsWord (Named.name reference).toList)
    (known : vocabulary.resolve? (Named.name reference) = some reference) :
    (Formula.name reference).DerivesWritten vocabulary := by
  have unsigned : (Formula.name reference).written.head? ≠ some '-' := by
    have head := IsWord.head?_ne word []
    rwa [List.append_nil] at head
  apply Formula.derivesWritten_of_atom unsigned rfl
  have resolved : vocabulary.resolve? (String.ofList (Named.name reference).toList) =
      some reference := by rwa [String.ofList_toList]
  exact fun negative => .name word resolved

theorem Formula.derivesWritten_binary {left right : Formula ν} (operator : Operator)
    (ofLeft : left.DerivesWritten vocabulary) (ofRight : right.DerivesWritten vocabulary) :
    (Formula.binary left operator right).DerivesWritten vocabulary := by
  have unsigned : (Formula.binary left operator right).written.head? ≠ some '-' := by
    simp [Formula.written, bracketed]
  apply Formula.derivesWritten_of_atom unsigned rfl
  intro negative
  apply Derives.group
  rcases Operator.precedence_cases operator with additive | multiplicative
  · exact .sum ofLeft.sum additive (.term ofRight.term)
  · exact .product (.factor (.term ofLeft.term) multiplicative ofRight.term)

/-- A minus before a text that begins with one gets brackets in between. -/
theorem Formula.derivesWritten_negate {inner : Formula ν}
    (finite : ∀ value, inner.foldSigns = .constant value → value.isFinite = true)
    (ofInner : inner.DerivesWritten vocabulary) :
    (Formula.negate inner).DerivesWritten vocabulary := by
  right
  rcases ofInner with ⟨unsigned, atom⟩ | ⟨body, signedBody, atom, negated⟩
  · exact ⟨inner.written, if_neg unsigned, atom true, Formula.negated_negated finite⟩
  · have isSigned : inner.written.head? = some '-' := by rw [signedBody]; rfl
    have sum := Formula.DerivesWritten.sum (.inr ⟨body, signedBody, atom, negated⟩)
    refine ⟨bracketed inner.written, if_pos isSigned, ?_, ?_⟩
    · change Derives vocabulary .standard (.atom true) _ inner.foldSigns.negated
      rw [negated]
      exact .group sum
    · change inner.foldSigns.negated.negated = .negate inner.foldSigns.negated
      rw [negated]
      rfl

/-- The texts of arguments, between commas. -/
theorem derives_arguments (comma : vocabulary.argumentSeparator = ',') {formulas : List (Formula ν)}
    (each : ∀ formula ∈ formulas, formula.DerivesWritten vocabulary) :
    Derives vocabulary .standard .arguments (joinWith ',' (Formula.writtenAll formulas))
      (Formula.foldSignsAll formulas) := by
  induction formulas with
  | nil => exact .noArgument rfl
  | cons head tail induction =>
      have first := (each head (List.mem_cons_self ..)).sum
      have rest := induction fun formula inside => each formula (List.mem_cons_of_mem _ inside)
      cases tail with
      | nil => exact .argument first
      | cons second tail =>
          have arguments := Derives.arguments first rest
          rwa [comma] at arguments

theorem Formula.derivesWritten_call (comma : vocabulary.argumentSeparator = ',') {function : String}
    {accepted : List Nat} {arguments : List (Formula ν)} (word : IsWord function.toList)
    (known : vocabulary.signature? function = some (.native accepted))
    (count : accepted.contains arguments.length = true)
    (each : ∀ formula ∈ arguments, formula.DerivesWritten vocabulary) :
    (Formula.call function arguments).DerivesWritten vocabulary := by
  apply Formula.derivesWritten_of_atom (IsWord.head?_ne word _) rfl
  intro negative
  have call : Derives vocabulary .standard (.atom negative) _
      (negateIf negative
        (.call (String.ofList function.toList) (Formula.foldSignsAll arguments))) :=
    .call word (by rwa [String.ofList_toList]) (derives_arguments comma each)
      (by rwa [Formula.length_foldSignsAll])
  rwa [String.ofList_toList] at call

theorem Formula.derivesWritten_choose (comma : vocabulary.argumentSeparator = ',')
    {test : Condition ν} {whenTrue whenFalse : Formula ν}
    (known : vocabulary.signature? chooseName = some .choose)
    (ofTest : Derives vocabulary .standard .clause test.written test.foldSigns)
    (ofTrue : whenTrue.DerivesWritten vocabulary) (ofFalse : whenFalse.DerivesWritten vocabulary) :
    (Formula.choose test whenTrue whenFalse).DerivesWritten vocabulary := by
  have word : IsWord chooseName.toList := by decide
  apply Formula.derivesWritten_of_atom (IsWord.head?_ne word _) rfl
  intro negative
  have choose : Derives vocabulary .standard (.atom negative) _
      (negateIf negative (.choose test.foldSigns whenTrue.foldSigns whenFalse.foldSigns)) :=
    .choose word (by rwa [String.ofList_toList]) (.clause ofTest) ofTrue.sum ofFalse.sum
  rwa [comma] at choose

theorem derives_literal (value : Bool) :
    Derives vocabulary .standard .clause (Condition.literal value : Condition ν).written
      (.literal value) := by
  have named : literal? (Condition.literal value : Condition ν).written = some value := by
    cases value <;> rfl
  have literal : Derives vocabulary .standard .clause
      ([] ++ ((Condition.literal value : Condition ν).written ++ [])) (.literal value) :=
    .literal rfl named rfl
  simpa using literal

end Derivation

/-! ## Every writable tree -/

section Trees

variable [Named ν] {vocabulary : Vocabulary ν}

mutual
/-- Every writable tree is derived from its text. -/
theorem Formula.derivesWritten (comma : vocabulary.argumentSeparator = ',') :
    (formula : Formula ν) → formula.Meets (.writable vocabulary) →
    formula.DerivesWritten vocabulary
  | .constant _, finite => Formula.derivesWritten_constant finite
  | .name _, ⟨word, known⟩ => Formula.derivesWritten_name word known
  | .binary left operator right, ⟨ofLeft, ofRight⟩ =>
      Formula.derivesWritten_binary operator (left.derivesWritten comma ofLeft)
        (right.derivesWritten comma ofRight)
  | .negate inner, writable =>
      Formula.derivesWritten_negate (inner.finite_of_foldSigns (fun _ finite => finite) writable)
        (inner.derivesWritten comma writable)
  | .call _ arguments, ⟨⟨word, _, known, count⟩, writable⟩ =>
      Formula.derivesWritten_call comma word known count
        (Formula.derivesWrittenAll comma arguments writable)
  | .choose test whenTrue whenFalse, ⟨known, ofTest, ofTrue, ofFalse⟩ =>
      Formula.derivesWritten_choose comma known (test.derivesWritten comma ofTest)
        (whenTrue.derivesWritten comma ofTrue) (whenFalse.derivesWritten comma ofFalse)

theorem Formula.derivesWrittenAll (comma : vocabulary.argumentSeparator = ',') :
    (formulas : List (Formula ν)) →
    Formula.MeetAll (.writable vocabulary) formulas →
    ∀ formula ∈ formulas, formula.DerivesWritten vocabulary
  | [], _ => by simp
  | head :: tail, ⟨ofHead, ofTail⟩ => by
      have first := head.derivesWritten comma ofHead
      have rest := Formula.derivesWrittenAll comma tail ofTail
      simpa using ⟨first, rest⟩

theorem Condition.derivesWritten (comma : vocabulary.argumentSeparator = ',') :
    (condition : Condition ν) → condition.Meets (.writable vocabulary) →
    Derives vocabulary .standard .clause condition.written condition.foldSigns
  | .literal value, _ => derives_literal value
  | .compare left comparison right, ⟨ofLeft, ofRight⟩ => by
      have clause : Derives vocabulary .standard .clause _
          (.compare left.foldSigns comparison right.foldSigns) :=
        .compare (left.derivesWritten comma ofLeft).sum (right.derivesWritten comma ofRight).sum
      rw [← List.append_assoc] at clause
      exact derives_bracketed (.clause clause)
  | .connect left connective right, ⟨ofLeft, ofRight⟩ => by
      have connected : Derives vocabulary .standard .condition _
          (.connect left.foldSigns connective right.foldSigns) :=
        .connect (left.derivesWritten comma ofLeft) (.clause (right.derivesWritten comma ofRight))
      rw [← List.append_assoc] at connected
      exact derives_bracketed connected
end

end Trees

end NumericRules
