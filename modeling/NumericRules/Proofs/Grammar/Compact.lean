import Mathlib.Data.Bool.AllAny
import Mathlib.Data.List.Chain
import NumericRules.Proofs.Grammar.Minuses
import NumericRules.Proofs.Grammar.Soundness
import NumericRules.Proofs.Grammar.Written

/-! # Compact text

Symbolic forms have no blanks and no comments, their brackets are closed, and they
begin and end with characters of operands.
-/

namespace NumericRules

open Text

namespace Grammar

/-- No two slashes stand next to each other. -/
def Commentless (text : List Char) : Prop :=
  text.IsChain fun first second => first = '/' → second ≠ '/'

theorem Commentless.part {text piece : List Char} (commentless : Commentless text)
    (inside : piece <:+: text) : Commentless piece :=
  List.IsChain.infix commentless inside

theorem Commentless.noComment {text : List Char} (commentless : Commentless text) :
    ¬ ['/', '/'] <:+: text := by
  intro comment
  have slashes := List.isChain_cons.mp (commentless.part comment)
  exact slashes.1 '/' rfl rfl rfl

theorem Commentless.of_notMem {text : List Char} (noSlash : '/' ∉ text) : Commentless text := by
  induction text with
  | nil => exact .nil
  | cons first rest induction =>
      refine List.isChain_cons.mpr ⟨fun second _ isSlash => ?_, induction ?_⟩
      · rw [isSlash] at noSlash
        exact absurd (List.mem_cons_self ..) noSlash
      · exact fun inside => noSlash (List.mem_cons_of_mem _ inside)

/-- Text of one piece that begins and ends like an operand, with `allowed` characters
outside brackets. -/
structure Compact (allowed : Char → Prop) (text : List Char) : Prop where
  notBlank : ∀ character ∈ text, isBlank character = false
  commentless : Commentless text
  closed : Closed allowed text
  begins : Solid text
  ends : ∃ front last, text = front ++ [last] ∧ (last = ')' ∨ isWordCharacter last = true)

namespace Compact

variable {allowed : Char → Prop}

theorem weaken {text : List Char} (compact : Compact allowed text) :
    Compact (fun _ => True) text :=
  { compact with closed := compact.closed.weaken fun _ _ => trivial }

theorem ne_nil {text : List Char} (compact : Compact allowed text) : text ≠ [] := by
  rcases compact.begins with ⟨first, rest, rfl, _⟩
  exact List.cons_ne_nil _ _

theorem head?_ne {text : List Char} (compact : Compact allowed text) : text.head? ≠ some '/' := by
  rcases compact.begins with ⟨first, rest, rfl, begins⟩
  intro isFirst
  cases isFirst
  exact begins.ne (by decide) (by decide) (by decide) rfl

theorem getLast?_ne {text : List Char} (compact : Compact allowed text) :
    text.getLast? ≠ some '/' := by
  rcases compact.ends with ⟨front, last, rfl, closing | word⟩
  · simp [closing]
  · rw [List.getLast?_concat]
    intro isLast
    cases isLast
    cases word

/-- Two pieces with a symbol between them are one piece. -/
theorem between {left symbol right : List Char} (ofLeft : Compact allowed left)
    (plain : ∀ character ∈ symbol,
      isBlank character = false ∧ allowed character ∧ character ≠ '(' ∧ character ≠ ')')
    (commentless : Commentless symbol) (ofRight : Compact allowed right) :
    Compact allowed (left ++ symbol ++ right) where
  notBlank := by
    intro character inside
    rcases List.mem_append.mp inside with inLeft | inRight
    · rcases List.mem_append.mp inLeft with inLeft | inSymbol
      · exact ofLeft.notBlank character inLeft
      · exact (plain character inSymbol).1
    · exact ofRight.notBlank character inRight
  commentless := by
    have before : Commentless (left ++ symbol) := by
      refine List.isChain_append.mpr ⟨ofLeft.commentless, commentless, ?_⟩
      rintro last isLast first _ rfl
      exact absurd isLast ofLeft.getLast?_ne
    refine List.isChain_append.mpr ⟨before, ofRight.commentless, ?_⟩
    rintro last _ first isFirst _ rfl
    exact ofRight.head?_ne isFirst
  closed := by
    have symbolClosed : Closed allowed symbol :=
      .of_forall fun character inside => (plain character inside).2
    exact (ofLeft.closed.append symbolClosed).append ofRight.closed
  begins := (ofLeft.begins.append symbol).append right
  ends := by
    rcases ofRight.ends with ⟨front, last, rfl, isEnd⟩
    exact ⟨left ++ symbol ++ front, last, by simp, isEnd⟩

theorem append {left right : List Char} (ofLeft : Compact allowed left)
    (ofRight : Compact allowed right) : Compact allowed (left ++ right) := by
  have joined := between ofLeft (by simp) List.IsChain.nil ofRight
  rwa [List.append_nil] at joined

/-- Brackets make one piece. -/
theorem group {inner : List Char} (ofInner : inner = [] ∨ Compact (fun _ => True) inner) :
    Compact allowed (bracketed inner) where
  notBlank := by
    intro character inside
    simp only [bracketed, List.mem_cons, List.mem_append, List.not_mem_nil, or_false] at inside
    rcases inside with rfl | inInner | rfl
    · decide
    · rcases ofInner with rfl | compact
      · cases inInner
      · exact compact.notBlank character inInner
    · decide
  commentless := by
    refine List.isChain_cons.mpr ⟨fun _ _ isSlash => absurd isSlash (by decide), ?_⟩
    refine List.isChain_append.mpr ⟨?_, .singleton _, ?_⟩
    · rcases ofInner with rfl | compact
      · exact .nil
      · exact compact.commentless
    · rintro _ _ _ isFirst _ rfl
      cases isFirst
  closed := by
    rcases ofInner with rfl | compact
    · have empty : Closed (fun _ => True) ([] : List Char) := .nil
      exact closed_bracketed empty
    · exact closed_bracketed compact.closed
  begins := ⟨'(', inner ++ [')'], rfl, .inr (.inl rfl)⟩
  ends := ⟨'(' :: inner, ')', rfl, .inl rfl⟩

/-- A minus stands before a piece. -/
theorem minus {text : List Char} (compact : Compact (· ≠ ',') text) :
    Compact (· ≠ ',') ('-' :: text) where
  notBlank := by
    intro character inside
    rcases List.mem_cons.mp inside with rfl | inside
    · decide
    · exact compact.notBlank character inside
  commentless :=
    List.isChain_cons.mpr ⟨fun _ _ isSlash => absurd isSlash (by decide), compact.commentless⟩
  closed := .character (by decide) (by decide) (by decide) compact.closed
  begins := ⟨'-', text, rfl, .inl rfl⟩
  ends := by
    rcases compact.ends with ⟨front, last, rfl, isEnd⟩
    exact ⟨'-' :: front, last, rfl, isEnd⟩

theorem word {text : List Char} (nonempty : text ≠ [])
    (areWord : ∀ character ∈ text, isWordCharacter character = true) :
    Compact (· ≠ ',') text where
  notBlank character inside := not_isBlank_of_isWordCharacter (areWord character inside)
  commentless := .of_notMem fun inside => by
    have word := areWord '/' inside
    revert word
    decide
  closed := by
    apply (closed_of_not_mem_punctuation fun character inside =>
      not_mem_punctuation_of_isWordCharacter (areWord character inside)).weaken
    exact fun _ plain => plain.1
  begins := by
    cases text with
    | nil => exact absurd rfl nonempty
    | cons first rest =>
        exact ⟨first, rest, rfl, .inr (.inr (areWord first (List.mem_cons_self ..)))⟩
  ends := by
    refine ⟨text.dropLast, text.getLast nonempty, (List.dropLast_append_getLast nonempty).symm, ?_⟩
    exact .inr (areWord _ (List.getLast_mem nonempty))

theorem numeral {text : List Char} (isNumeral : IsNumeral text) : Compact (· ≠ ',') text := by
  have digits {digits : List Char} (nonempty : digits ≠ [])
      (areDigits : digits.all Char.isDigit = true) : Compact (· ≠ ',') digits :=
    word nonempty fun character inside =>
      isWordCharacter_of_isDigit (List.all_eq_true.mp areDigits character inside)
  cases isNumeral with
  | integer nonempty areDigits => exact digits nonempty areDigits
  | @decimal whole fraction nonempty areDigits fractionNonempty areFraction =>
      have joined : Compact (· ≠ ',') (whole ++ ['.'] ++ fraction) :=
        between (digits nonempty areDigits) (List.forall_mem_singleton.mpr (by decide))
          (.singleton _)
          (digits fractionNonempty areFraction)
      rwa [List.append_assoc] at joined

/-- Commas join pieces to one piece. -/
theorem join {text : List Char} {texts : List (List Char)}
    (compact : ∀ other ∈ text :: texts, Compact allowed other) :
    Compact (fun _ => True) (joinWith ',' (text :: texts)) := by
  induction texts generalizing text with
  | nil => exact (compact text (List.mem_cons_self ..)).weaken
  | cons next texts induction =>
      have first := (compact text (List.mem_cons_self ..)).weaken
      have rest := induction fun other inside => compact other (List.mem_cons_of_mem _ inside)
      have joined : Compact (fun _ => True) (text ++ [','] ++ joinWith ',' (next :: texts)) :=
        between first (List.forall_mem_singleton.mpr (by decide)) (.singleton _) rest
      rwa [List.append_assoc] at joined

end Compact

end Grammar

open Grammar

/-! ## Symbolic forms -/

section Forms

variable [Named ν] {vocabulary : Vocabulary ν}

theorem IsWord.compact {word : List Char} (isWord : IsWord word) : Compact (· ≠ ',') word :=
  .word isWord.ne_nil (List.all_eq_true.mp isWord.1)

mutual
/-- The symbolic form of a writable tree is compact. -/
theorem Formula.form_compact : (formula : Formula ν) → formula.Meets (.writable vocabulary) →
    Compact (· ≠ ',') formula.form
  | .constant value, finite => by
      rcases Binary64.spell_of_isFinite finite with ⟨numeral, spelled, isNumeral, _⟩
      rw [Formula.form, spelled]
      cases value.isNegative with
      | true => exact (Compact.numeral isNumeral).minus
      | false => exact .numeral isNumeral
  | .name _, known => IsWord.compact known.1
  | .binary left operator right, writable => by
      have plain : ∀ character ∈ [operator.symbol],
          isBlank character = false ∧ character ≠ ',' ∧ character ≠ '(' ∧ character ≠ ')' := by
        refine List.forall_mem_singleton.mpr ?_
        cases operator <;> decide
      have pair := (left.form_compact writable.1).between plain (.singleton _)
        (right.form_compact writable.2)
      rw [List.append_assoc] at pair
      exact .group (.inr pair.weaken)
  | .negate inner, writable => (inner.form_compact writable).minus
  | .call function arguments, writable => by
      apply (IsWord.compact writable.1.1).append
      have compact := Formula.formAll_compact arguments writable.2
      cases arguments with
      | nil => exact .group (.inl rfl)
      | cons head tail => exact .group (.inr (.join compact))
  | .choose test whenTrue whenFalse, writable => by
      have word : IsWord chooseName.toList := by decide
      have ofTest := test.form_compact writable.2.1
      have ofTrue := whenTrue.form_compact writable.2.2.1
      have ofFalse := whenFalse.form_compact writable.2.2.2
      have parts : ∀ form ∈ [test.form, whenTrue.form, whenFalse.form],
          Compact (· ≠ ',') form := by simpa using ⟨ofTest, ofTrue, ofFalse⟩
      exact (IsWord.compact word).append (.group (.inr (.join parts)))

theorem Formula.formAll_compact : (formulas : List (Formula ν)) →
    Formula.MeetAll (.writable vocabulary) formulas →
    ∀ form ∈ Formula.formAll formulas, Compact (· ≠ ',') form
  | [], _ => by simp [Formula.formAll]
  | head :: tail, writable => by
      have ofHead := head.form_compact writable.1
      have ofTail := Formula.formAll_compact tail writable.2
      simpa [Formula.formAll] using ⟨ofHead, ofTail⟩

theorem Condition.form_compact : (condition : Condition ν) →
    condition.Meets (.writable vocabulary) → Compact (· ≠ ',') condition.form
  | .literal value, _ => by
      have word (truth : Bool) :
          Compact (· ≠ ',')
            (if truth then ['t', 'r', 'u', 'e'] else ['f', 'a', 'l', 's', 'e']) := by
        apply IsWord.compact
        cases truth <;> decide
      exact word value
  | .compare left comparison right, writable => by
      have plain : ∀ character ∈ comparison.symbol.toList,
          isBlank character = false ∧ character ≠ ',' ∧ character ≠ '(' ∧ character ≠ ')' := by
        refine List.all_iff_forall_prop.mp ?_
        cases comparison <;> decide
      have noSlash : '/' ∉ comparison.symbol.toList := by cases comparison <;> decide
      have pair := (left.form_compact writable.1).between plain (.of_notMem noSlash)
        (right.form_compact writable.2)
      exact .group (.inr pair.weaken)
  | .connect left connective right, writable => by
      have plain : ∀ character ∈ connective.symbol.toList,
          isBlank character = false ∧ character ≠ ',' ∧ character ≠ '(' ∧ character ≠ ')' := by
        refine List.all_iff_forall_prop.mp ?_
        cases connective <;> decide
      have noSlash : '/' ∉ connective.symbol.toList := by cases connective <;> decide
      have pair := (left.form_compact writable.1).between plain (.of_notMem noSlash)
        (right.form_compact writable.2)
      exact .group (.inr pair.weaken)
end

end Forms

/-- What is read of compact text has no gaps. -/
theorem Grammar.Compact.covers {vocabulary : Vocabulary ν}
    (comma : vocabulary.argumentSeparator = ',') {allowed : Char → Prop}
    {text : List Char} (compact : Compact allowed text) :
    Lexis.tight.Covers (.read vocabulary) text := by
  intro piece inside
  constructor
  · rintro (comment | blank)
    · exact absurd (comment.trans inside) compact.commentless.noComment
    · cases piece with
      | nil => rfl
      | cons first piece =>
          have isBlank := List.all_eq_true.mp blank first (List.mem_cons_self ..)
          rw [compact.notBlank first (inside.subset (List.mem_cons_self ..))] at isBlank
          cases isBlank
  · rintro ⟨⟨token, nonempty, _⟩, _⟩
    rw [comma] at token
    exact ⟨token, nonempty⟩

end NumericRules
