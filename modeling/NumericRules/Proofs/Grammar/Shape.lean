import NumericRules.Proofs.Grammar.Token
import NumericRules.Proofs.Grammar.Brackets

/-! # The shape of derived text

What a part of the grammar looks like from outside: its brackets are closed, and
behind a gap it begins with a minus, a bracket or a word.
-/

namespace NumericRules.Grammar

open Text

/-! ## Characters -/

theorem not_isBlank_of_isWordCharacter {character : Char}
    (word : isWordCharacter character = true) : isBlank character = false := by
  simp only [isWordCharacter, Bool.or_eq_true, Bool.and_eq_true, beq_iff_eq, decide_eq_true_eq,
    Bool.not_eq_true'] at word
  rcases word with (alphanumeric | rfl) | ⟨_, notBlank⟩
  · have codes : (48 ≤ character.toNat ∧ character.toNat ≤ 57) ∨
        (65 ≤ character.toNat ∧ character.toNat ≤ 90) ∨
        (97 ≤ character.toNat ∧ character.toNat ≤ 122) := by
      change ((decide (65 ≤ character.val ∧ character.val ≤ 90) ||
        (decide (97 ≤ character.val) && decide (character.val ≤ 122))) ||
        (decide (48 ≤ character.val) && decide (character.val ≤ 57))) = true at alphanumeric
      simp only [Bool.or_eq_true, Bool.and_eq_true, decide_eq_true_eq, UInt32.le_iff_toNat_le]
        at alphanumeric
      change ((65 ≤ character.toNat ∧ character.toNat ≤ 90) ∨
        (97 ≤ character.toNat ∧ character.toNat ≤ 122)) ∨
        (48 ≤ character.toNat ∧ character.toNat ≤ 57) at alphanumeric
      omega
    apply Bool.eq_false_iff.mpr
    intro blank
    simp only [isBlank, isWhite, isControl, Bool.or_eq_true, Bool.and_eq_true, decide_eq_true_eq,
      beq_iff_eq] at blank
    omega
  · decide
  · exact notBlank

/-- The characters that have a meaning of their own. -/
def punctuation : List Char :=
  ['(', ')', ',', '+', '-', '*', '/', '%', '<', '>', '=', '!', ':', '&', '|', '.']

theorem not_mem_punctuation {holds : Char → Bool}
    (none : punctuation.all (fun character => !holds character) = true) {character : Char}
    (true_of : holds character = true) : character ∉ punctuation := by
  intro inside
  have false_of := List.all_eq_true.mp none character inside
  rw [true_of] at false_of
  cases false_of

theorem not_mem_punctuation_of_isWordCharacter {character : Char}
    (word : isWordCharacter character = true) : character ∉ punctuation :=
  not_mem_punctuation (by decide) word

theorem not_mem_punctuation_of_isWhite {character : Char} (white : isWhite character = true) :
    character ∉ punctuation :=
  not_mem_punctuation (by decide) white

theorem isWordCharacter_of_isDigit {character : Char} (digit : character.isDigit = true) :
    isWordCharacter character = true := by
  simp [isWordCharacter, Char.isAlphanum, digit]

/-- Words are tokens where a comma separates arguments. -/
theorem isTokenCharacter_of_isWordCharacter {character : Char}
    (word : isWordCharacter character = true) : isTokenCharacter ',' character = true := by
  have notBlank := not_isBlank_of_isWordCharacter word
  have notPunctuation := not_mem_punctuation_of_isWordCharacter word
  simp only [punctuation, List.mem_cons, List.not_mem_nil, or_false, not_or] at notPunctuation
  simp [isTokenCharacter, endsToken, isForeign, notBlank, notPunctuation]

theorem IsWord.ne_nil {text : List Char} (word : IsWord text) : text ≠ [] := by
  rintro rfl
  cases word.2

theorem IsWord.token {word : List Char} (isWord : IsWord word) :
    word.all (isTokenCharacter ',') = true ∧ isNumeric word = false := by
  have areWord := List.all_eq_true.mp isWord.1
  constructor
  · exact List.all_eq_true.mpr fun character inside =>
      isTokenCharacter_of_isWordCharacter (areWord character inside)
  · apply Bool.eq_false_iff.mpr
    intro numeric
    have digits : word.all Char.isDigit = true := by
      apply List.all_eq_true.mpr
      intro character inside
      rcases ((isNumeric_iff word).mp numeric).2 character inside with digit | rfl
      · exact digit
      · exact absurd (areWord '.' inside) (by decide)
    rw [isWord.2] at digits
    cases digits

/-! ## Brackets -/

/-- Characters that neither separate arguments nor end a compared formula. -/
def IsPlain (character : Char) : Prop :=
  character ≠ ',' ∧ endsOperand true character = false

/-- Characters outside the brackets of a part. -/
def Category.Outside : Category → Char → Prop
  | .sum | .product | .term | .atom _ => IsPlain
  | .arguments => fun _ => True
  | .condition | .clause => (· ≠ ',')

theorem isPlain_of_not_mem_punctuation {character : Char}
    (notPunctuation : character ∉ punctuation) :
    IsPlain character := by
  simp only [punctuation, List.mem_cons, List.not_mem_nil, or_false, not_or] at notPunctuation
  simp [IsPlain, endsOperand, isComparisonSymbol, notPunctuation]

theorem closed_of_not_mem_punctuation {text : List Char}
    (notPunctuation : ∀ character ∈ text, character ∉ punctuation) : Closed IsPlain text := by
  apply Closed.of_forall
  intro character inside
  have apart := notPunctuation character inside
  refine ⟨isPlain_of_not_mem_punctuation apart, ?_, ?_⟩
  · rintro rfl
    exact apart (by decide)
  · rintro rfl
    exact apart (by decide)

theorem closed_of_white {gap : List Char} (white : gap.all isWhite = true) : Closed IsPlain gap :=
  closed_of_not_mem_punctuation fun character inside =>
    not_mem_punctuation_of_isWhite (List.all_eq_true.mp white character inside)

theorem closed_of_word {text : List Char} (word : IsWord text) : Closed IsPlain text :=
  closed_of_not_mem_punctuation fun character inside =>
    not_mem_punctuation_of_isWordCharacter (List.all_eq_true.mp word.1 character inside)

theorem closed_of_digits {digits : List Char} (areDigits : digits.all Char.isDigit = true) :
    Closed IsPlain digits :=
  closed_of_not_mem_punctuation fun character inside =>
    not_mem_punctuation_of_isWordCharacter
      (isWordCharacter_of_isDigit (List.all_eq_true.mp areDigits character inside))

theorem closed_of_numeral {text : List Char} (numeral : IsNumeral text) : Closed IsPlain text := by
  cases numeral with
  | integer _ areDigits => exact closed_of_digits areDigits
  | decimal _ areDigits _ areFraction =>
      exact (closed_of_digits areDigits).append
        (.character ⟨by decide, by decide⟩ (by decide) (by decide) (closed_of_digits areFraction))

theorem isPlain_symbol (operator : Operator) : IsPlain operator.symbol := by
  cases operator <;> exact ⟨by decide, by decide⟩

theorem symbol_ne_bracket (operator : Operator) :
    operator.symbol ≠ '(' ∧ operator.symbol ≠ ')' := by
  cases operator <;> exact ⟨by decide, by decide⟩

theorem closed_bracketed {allowed other : Char → Prop} {inner : List Char}
    (closed : Closed allowed inner) : Closed other (bracketed inner) := by
  have closedInner := closed.weaken fun _ _ => trivial
  have whole : Closed other (bracketed inner ++ []) := .brackets closedInner .nil
  rwa [List.append_nil] at whole

theorem isWordCharacter_of_toLower {character : Char} (lower : character.toLower.isAlpha = true) :
    isWordCharacter character = true := by
  unfold Char.toLower at lower
  split at lower
  · rename_i upper
    have isUpper : character.isUpper = true := decide_eq_true upper
    have isAlpha : character.isAlpha = true := Bool.or_eq_true_iff.mpr (.inl isUpper)
    simp [isWordCharacter, Char.isAlphanum, isAlpha]
  · simp [isWordCharacter, Char.isAlphanum, lower]

theorem word_of_isWord {word : String} {text : List Char}
    (letters : word.toList ≠ [] ∧ word.toList.all Char.isAlpha = true)
    (named : isWord word text = true) :
    text ≠ [] ∧ ∀ character ∈ text, isWordCharacter character = true := by
  have lower : text.map Char.toLower = word.toList := by simpa [isWord] using named
  constructor
  · rintro rfl
    exact letters.1 lower.symm
  · intro character inside
    apply isWordCharacter_of_toLower
    have mapped : character.toLower ∈ word.toList := by
      rw [← lower]
      exact List.mem_map_of_mem inside
    exact List.all_eq_true.mp letters.2 _ mapped

/-- Truth values are made of letters. -/
theorem word_of_literal? {word : List Char} {value : Bool} (named : literal? word = some value) :
    word ≠ [] ∧ ∀ character ∈ word, isWordCharacter character = true := by
  unfold literal? at named
  split at named
  · rename_i isTrue
    exact word_of_isWord (by decide) isTrue
  · split at named
    · rename_i isFalse
      exact word_of_isWord (by decide) isFalse
    · cases named

/-- Characters outside the brackets of a part, given those of formulas and conditions. -/
def Category.Among (ofFormula ofCondition : Char → Prop) : Category → Char → Prop
  | .sum | .product | .term | .atom _ => ofFormula
  | .arguments => fun _ => True
  | .condition | .clause => ofCondition

/-- Tokens, gaps and symbols have no brackets and only the given characters. -/
structure Lexis.Among (lexis : Lexis) (separator : Char) (ofFormula ofCondition : Char → Prop) :
    Prop where
  gap : ∀ {text}, lexis.Gap text → Closed ofFormula text
  word : ∀ {text}, lexis.Word text → Closed ofFormula text
  numeral : ∀ {text}, IsNumeral text → Closed ofFormula text
  operator : ∀ operator : Operator, ofFormula operator.symbol
  wider : ∀ character, ofFormula character → ofCondition character
  connective : ∀ connective : Connective, Closed ofCondition connective.symbol.toList
  comparison : ∀ comparison : Comparison, Closed ofCondition comparison.symbol.toList
  literal : ∀ {word value}, literal? word = some value → Closed ofCondition word
  separator : separator ≠ '(' ∧ separator ≠ ')'

/-- Every bracket of a part is closed in it. -/
theorem Derives.closed_among {vocabulary : Vocabulary ν} {lexis : Lexis}
    {ofFormula ofCondition : Char → Prop}
    (among : lexis.Among vocabulary.argumentSeparator ofFormula ofCondition)
    {category : Category} {text : List Char} {tree : category.Tree ν}
    (derivation : Derives vocabulary lexis category text tree) :
    Closed (category.Among ofFormula ofCondition) text := by
  have next {left right : List Char} (ofLeft : Closed (fun _ => True) left)
      (ofRight : Closed (fun _ => True) right) :
      Closed (fun _ => True) (left ++ vocabulary.argumentSeparator :: right) :=
    ofLeft.append (.character trivial among.separator.1 among.separator.2 ofRight)
  have any {category : Category} {text : List Char}
      (closed : Closed (category.Among ofFormula ofCondition) text) :
      Closed (fun _ => True) text := closed.weaken fun _ _ => trivial
  have wider {text : List Char} (closed : Closed ofFormula text) : Closed ofCondition text :=
    closed.weaken among.wider
  induction derivation with
  | product _ induction | term _ induction | clause _ induction => exact induction
  | @sum _ _ _ _ operator _ _ _ leftInduction rightInduction
  | @factor _ _ _ _ operator _ _ _ leftInduction rightInduction =>
      rcases symbol_ne_bracket operator with ⟨notOpening, notClosing⟩
      exact leftInduction.append
        (.character (among.operator operator) notOpening notClosing rightInduction)
  | @atom _ _ _ negative _ gapBefore _ gapAfter induction =>
      apply (among.gap gapBefore).append
      apply Closed.append _ (among.gap gapAfter)
      cases negative with
      | true =>
          exact .character (among.operator .subtract) (by decide) (by decide) induction
      | false => exact induction
  | number numeral _ => exact among.numeral numeral
  | name word _ => exact among.word word
  | group _ induction => exact closed_bracketed induction
  | call word _ _ _ induction => exact (among.word word).append (closed_bracketed induction)
  | choose word _ _ _ _ testInduction firstInduction secondInduction =>
      have inner := next (any testInduction) (next (any firstInduction) (any secondInduction))
      exact (among.word word).append (closed_bracketed inner)
  | noArgument gap => exact (among.gap gap).weaken fun _ _ => trivial
  | argument _ induction => exact any induction
  | arguments _ _ firstInduction restInduction => exact next (any firstInduction) restInduction
  | @connect _ _ _ _ connective _ _ leftInduction rightInduction =>
      exact leftInduction.append ((among.connective connective).append rightInduction)
  | conditionGroup gapBefore _ gapAfter induction =>
      exact (wider (among.gap gapBefore)).append
        ((closed_bracketed induction).append (wider (among.gap gapAfter)))
  | @compare _ _ _ _ comparison _ _ leftInduction rightInduction =>
      exact (wider leftInduction).append
        ((among.comparison comparison).append (wider rightInduction))
  | literal gapBefore named gapAfter =>
      exact (wider (among.gap gapBefore)).append
        ((among.literal named).append (wider (among.gap gapAfter)))

/-- In words between white space only brackets hold commas. -/
theorem Lexis.standard_among : Lexis.standard.Among ',' IsPlain (· ≠ ',') where
  gap := closed_of_white
  word := closed_of_word
  numeral := closed_of_numeral
  operator := isPlain_symbol
  wider _ plain := plain.1
  connective connective := by
    apply Closed.of_forall
    cases connective <;> simp [Connective.symbol]
  comparison comparison := by
    apply Closed.of_forall
    cases comparison <;> simp [Comparison.symbol]
  literal named := by
    have plain := closed_of_not_mem_punctuation fun character inside =>
      not_mem_punctuation_of_isWordCharacter ((word_of_literal? named).2 character inside)
    exact plain.weaken fun _ plain => plain.1
  separator := ⟨by decide, by decide⟩

theorem Derives.closed {vocabulary : Vocabulary ν} (comma : vocabulary.argumentSeparator = ',')
    {category : Category} {text : List Char} {tree : category.Tree ν}
    (derivation : Derives vocabulary .standard category text tree) :
    Closed category.Outside text := by
  have among : Lexis.standard.Among vocabulary.argumentSeparator IsPlain (· ≠ ',') :=
    comma ▸ Lexis.standard_among
  have closed := derivation.closed_among among
  cases category <;> exact closed

/-! ## First characters -/

/-- Characters that begin a part behind its gap. -/
def BeginsPart (character : Char) : Prop :=
  character = '-' ∨ character = '(' ∨ isWordCharacter character = true

/-- The text begins with a character of a part. -/
def Solid (core : List Char) : Prop := ∃ first rest, core = first :: rest ∧ BeginsPart first

theorem Solid.append {core : List Char} (solid : Solid core) (rest : List Char) :
    Solid (core ++ rest) := by
  rcases solid with ⟨first, tail, rfl, begins⟩
  exact ⟨first, tail ++ rest, rfl, begins⟩

theorem BeginsPart.not_mem_punctuation {character : Char} (begins : BeginsPart character) :
    character ∉ punctuation ∨ character = '-' ∨ character = '(' := by
  rcases begins with minus | opening | word
  · exact .inr (.inl minus)
  · exact .inr (.inr opening)
  · exact .inl (not_mem_punctuation_of_isWordCharacter word)

theorem BeginsPart.not_isBlank {character : Char} (begins : BeginsPart character) :
    isBlank character = false := by
  rcases begins with rfl | rfl | word
  · decide
  · decide
  · exact not_isBlank_of_isWordCharacter word

theorem BeginsPart.ne {character other : Char} (begins : BeginsPart character)
    (isPunctuation : other ∈ punctuation) (notMinus : other ≠ '-') (notOpening : other ≠ '(') :
    character ≠ other := by
  rintro rfl
  rcases begins.not_mem_punctuation with apart | minus | opening
  · exact apart isPunctuation
  · exact notMinus minus
  · exact notOpening opening

theorem BeginsPart.notOperator {character : Char} (begins : BeginsPart character) :
    Operator.ofSymbol? character = none ∨ Operator.ofSymbol? character = some .subtract := by
  by_cases minus : character = '-'
  · exact .inr (by rw [minus]; rfl)
  · left
    have apart {other : Char} (isPunctuation : other ∈ punctuation) (notOpening : other ≠ '(')
        (notMinus : other ≠ '-') : character ≠ other := begins.ne isPunctuation notMinus notOpening
    unfold Operator.ofSymbol?
    split
    · exact absurd rfl (apart (by decide) (by decide) (by decide))
    · exact absurd rfl minus
    · exact absurd rfl (apart (by decide) (by decide) (by decide))
    · exact absurd rfl (apart (by decide) (by decide) (by decide))
    · exact absurd rfl (apart (by decide) (by decide) (by decide))
    · rfl

theorem Solid.settled {core : List Char} (solid : Solid core) : Settled core := by
  rcases solid with ⟨first, rest, rfl, begins⟩
  intro character isFirst
  cases isFirst
  refine ⟨begins.not_isBlank, ?_⟩
  intro slash
  exact absurd slash (begins.ne (by decide) (by decide) (by decide))

/-- How a formula begins behind its gap: a group is followed by the end of the
formula or by an operator. -/
inductive Begins : List Char → Prop
  | plain {first : Char} {rest : List Char} :
      first = '-' ∨ isWordCharacter first = true → Begins (first :: rest)
  | group {inner gap rest : List Char} :
      Closed (fun _ => True) inner → gap.all isWhite = true →
      (∀ character, rest.head? = some character →
        ∃ operator : Operator, operator.symbol = character) →
      Begins (bracketed inner ++ (gap ++ rest))

theorem Begins.solid {core : List Char} (begins : Begins core) : Solid core := by
  cases begins with
  | plain first =>
      refine ⟨_, _, rfl, ?_⟩
      rcases first with minus | word
      · exact .inl minus
      · exact .inr (.inr word)
  | group _ _ _ => exact ⟨'(', _, rfl, .inr (.inl rfl)⟩

/-- An operator and another operand may follow. -/
theorem Begins.append {core : List Char} (begins : Begins core) (operator : Operator)
    (rest : List Char) : Begins (core ++ operator.symbol :: rest) := by
  cases begins with
  | plain first => exact .plain first
  | @group inner gap tail closed white follows =>
      have group : Begins (bracketed inner ++ (gap ++ (tail ++ operator.symbol :: rest))) := by
        apply Begins.group closed white
        intro character isFirst
        cases tail with
        | nil =>
            cases isFirst
            exact ⟨operator, rfl⟩
        | cons _ _ => exact follows character isFirst
      simpa using group

theorem begins_of_isWordCharacter {text : List Char} (nonempty : text ≠ [])
    (word : ∀ character ∈ text, isWordCharacter character = true) (rest : List Char) :
    Begins (text ++ rest) := by
  cases text with
  | nil => exact absurd rfl nonempty
  | cons first text => exact .plain (.inr (word first (List.mem_cons_self ..)))

theorem begins_of_word {text : List Char} (word : IsWord text) (rest : List Char) :
    Begins (text ++ rest) :=
  begins_of_isWordCharacter word.ne_nil (List.all_eq_true.mp word.1) rest

theorem begins_of_numeral {text : List Char} (numeral : IsNumeral text) (rest : List Char) :
    Begins (text ++ rest) := by
  have digits {digits : List Char} (nonempty : digits ≠ [])
    (areDigits : digits.all Char.isDigit = true)
      (rest : List Char) : Begins (digits ++ rest) :=
    begins_of_isWordCharacter nonempty
      (fun character inside =>
        isWordCharacter_of_isDigit (List.all_eq_true.mp areDigits character inside)) rest
  cases numeral with
  | integer nonempty areDigits => exact digits nonempty areDigits rest
  | decimal nonempty areDigits _ _ =>
      rw [List.append_assoc]
      exact digits nonempty areDigits _

/-- What parts of formulas and conditions begin with. -/
def Category.Begins : Category → List Char → Prop
  | .sum | .product | .term => fun text =>
      ∃ gap core, text = gap ++ core ∧ gap.all isWhite = true ∧ Grammar.Begins core
  | .atom _ => fun text => ∀ gap : List Char, gap.all isWhite = true → Grammar.Begins (text ++ gap)
  | .arguments => fun _ => True
  | .condition | .clause => fun text =>
      ∃ gap core, text = gap ++ core ∧ gap.all isWhite = true ∧ Solid core

theorem Derives.begins {vocabulary : Vocabulary ν} (comma : vocabulary.argumentSeparator = ',')
    {category : Category} {text : List Char} {tree : category.Tree ν}
    (derivation : Derives vocabulary .standard category text tree) : category.Begins text := by
  induction derivation with
  | product _ induction => exact induction
  | @sum _ right _ _ operator _ _ _ leftInduction _
  | @factor _ right _ _ operator _ _ _ leftInduction _ =>
      rcases leftInduction with ⟨gap, core, rfl, white, begins⟩
      exact ⟨gap, core ++ operator.symbol :: right, by simp, white, begins.append operator right⟩
  | term _ induction => exact induction
  | @atom before text after negative _ gapBefore _ gapAfter induction =>
      refine ⟨before, signed negative text ++ after, rfl, gapBefore, ?_⟩
      cases negative with
      | true => exact .plain (.inl rfl)
      | false => exact induction after gapAfter
  | number numeral _ => exact fun gap _ => begins_of_numeral numeral gap
  | name word _ => exact fun gap _ => begins_of_word word gap
  | @group inner _ _ derivation _ =>
      intro gap white
      have closed : Closed (fun _ => True) inner :=
        (derivation.closed comma).weaken fun _ _ => trivial
      have group : Begins (bracketed inner ++ (gap ++ [])) :=
        .group closed white fun _ isFirst => by cases isFirst
      rwa [List.append_nil] at group
  | call word _ _ _ _ | choose word _ _ _ _ _ _ _ =>
      intro gap _
      rw [List.append_assoc]
      exact begins_of_word word _
  | noArgument _ | argument _ _ | arguments _ _ _ _ => trivial
  | clause _ induction => exact induction
  | connect _ _ leftInduction _ =>
      rcases leftInduction with ⟨gap, core, rfl, white, solid⟩
      exact ⟨gap, _, List.append_assoc .., white, solid.append _⟩
  | @conditionGroup before inner after _ gapBefore _ _ _ =>
      exact ⟨before, _, rfl, gapBefore, '(', _, rfl, .inr (.inl rfl)⟩
  | compare _ _ leftInduction _ =>
      rcases leftInduction with ⟨gap, core, rfl, white, begins⟩
      exact ⟨gap, _, List.append_assoc .., white, begins.solid.append _⟩
  | @literal before word after _ gapBefore named _ =>
      rcases word_of_literal? named with ⟨nonempty, word⟩
      exact ⟨before, _, rfl, gapBefore, (begins_of_isWordCharacter nonempty word after).solid⟩

end NumericRules.Grammar
