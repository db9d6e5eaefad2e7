import NumericRules.Proofs.Grammar.FormReading
import NumericRules.Proofs.Grammar.ValueScan

/-! # Reading the symbolic forms of statements

Values in symbolic forms have no blanks, so each reaches to the blank before the next
statement, and the statements are read one by one.
-/

namespace NumericRules.Grammar

open Text

/-! ## The extent of a value -/

/-- The extent of a value without blanks before the character at an index. -/
def Extent.upTo (depth index : Nat) (isOpen : Bool) : Extent :=
  { depth, stop := index, isOpen }

/-- Whether a value goes on behind a text. -/
def openAfter (isOpen : Bool) : List Char → Bool
  | [] => isOpen
  | character :: rest => openAfter (continuesValue ',' character) rest

theorem openAfter_append (isOpen : Bool) (first second : List Char) :
    openAfter isOpen (first ++ second) = openAfter (openAfter isOpen first) second := by
  induction first generalizing isOpen with
  | nil => rfl
  | cons character first induction => exact induction _

theorem continuesValue_comma {character : Char} (word : isWordCharacter character = true) :
    continuesValue ',' character = false := by
  refine continuesValue_word ?_ word
  rintro rfl
  exact absurd word (by decide)

/-- A value that ends like an operand does not go on. -/
theorem Compact.openAfter {allowed : Char → Prop} {text : List Char}
    (compact : Compact allowed text)
    (isOpen : Bool) : openAfter isOpen text = false := by
  rcases compact.ends with ⟨front, last, rfl, isEnd⟩
  rw [openAfter_append]
  change continuesValue ',' last = false
  rcases isEnd with rfl | word
  · decide
  · exact continuesValue_comma word

/-- The scan for the end of a value where a blank separates statements and a comma
separates arguments. -/
abbrev scanValue (extent : Extent) (index : Nat) (text : List Char) : Except Fault (Nat × Cursor) :=
  valueEnd ' ' ',' false extent index text

theorem scanValue_character {character : Char} {rest : List Char}
    (notBlank : isBlank character = false)
    (noComment : character = '/' → rest.head? ≠ some '/') (notOpening : character ≠ '(')
    (notClosing : character ≠ ')') (depth index : Nat) (isOpen : Bool) :
    scanValue (.upTo depth index isOpen) index (character :: rest) =
      scanValue (.upTo depth (index + 1) (continuesValue ',' character)) (index + 1) rest := by
  have notLineEnd : character ≠ '\n' := by
    rintro rfl
    revert notBlank
    decide
  have notComment : ¬ (character = '/' ∧ rest.head? = some '/') :=
    fun both => noComment both.1 both.2
  simp only [scanValue, valueEnd, notLineEnd, notBlank, notClosing, notOpening, Extent.upTo]
  cases continuesValue ',' character <;> cases isOpen <;>
    simp [Extent.operator, Extent.operand, notComment]

theorem scanValue_opening (depth index : Nat) (isOpen : Bool) (rest : List Char) :
    scanValue (.upTo depth index isOpen) index ('(' :: rest) =
      scanValue (.upTo (depth + 1) (index + 1) false) (index + 1) rest := by
  have notBlank : isBlank '(' = false := by decide
  have continues : continuesValue ',' '(' = false := by decide
  cases isOpen <;> simp [scanValue, valueEnd, Extent.upTo, Extent.operand, notBlank, continues]

theorem scanValue_closing (depth index : Nat) (isOpen : Bool) (rest : List Char) :
    scanValue (.upTo (depth + 1) index isOpen) index (')' :: rest) =
      scanValue (.upTo depth (index + 1) false) (index + 1) rest := by
  have notBlank : isBlank ')' = false := by decide
  simp [scanValue, valueEnd, Extent.upTo, Extent.operand, notBlank]

/-- Closed text without blanks belongs to the value. -/
theorem scanValue_closed {allowed : Char → Prop} {text : List Char} (closed : Closed allowed text)
    (notBlank : ∀ character ∈ text, isBlank character = false) (commentless : Commentless text)
    {rest : List Char} (apart : rest.head? ≠ some '/') (depth index : Nat) (isOpen : Bool) :
    scanValue (.upTo depth index isOpen) index (text ++ rest) =
      scanValue (.upTo depth (index + text.length) (openAfter isOpen text)) (index + text.length)
        rest := by
  induction closed generalizing rest depth index isOpen with
  | nil => rfl
  | @character _ character tail _ notOpening notClosing _ induction =>
      have parts := List.isChain_cons.mp commentless
      have noComment : character = '/' → (tail ++ rest).head? ≠ some '/' := by
        intro isSlash
        cases tail with
        | nil => exact apart
        | cons second tail =>
            intro isSecond
            exact parts.1 second rfl isSlash (Option.some.inj isSecond)
      have passed := induction (fun other inside => notBlank other (List.mem_cons_of_mem _ inside))
        parts.2 apart depth (index + 1) (continuesValue ',' character)
      rw [List.cons_append, scanValue_character (notBlank character (List.mem_cons_self ..))
        noComment notOpening notClosing, passed, List.length_cons, Nat.add_assoc,
        Nat.add_comm 1]
      rfl
  | @brackets _ inner tail _ _ innerInduction tailInduction =>
      have insideInner : inner <:+: bracketed inner ++ tail :=
        ⟨['('], ')' :: tail, by simp [bracketed]⟩
      have insideTail : tail <:+: bracketed inner ++ tail := ⟨bracketed inner, [], by simp⟩
      have closing : (')' :: (tail ++ rest)).head? ≠ some '/' := by simp
      have ofInner :=
        innerInduction (fun other inside => notBlank other (insideInner.subset inside))
        (commentless.part insideInner) closing (depth + 1) (index + 1) false
      have ofTail := tailInduction (fun other inside => notBlank other (insideTail.subset inside))
        (commentless.part insideTail) apart depth (index + 1 + inner.length + 1) false
      have width : index + 1 + inner.length + 1 + tail.length =
          index + (bracketed inner ++ tail).length := by
        rw [List.length_append, length_bracketed]
        omega
      have opens : openAfter isOpen (bracketed inner ++ tail) = openAfter false tail := by
        rw [bracketed_append]
        change openAfter false (inner ++ ')' :: tail) = _
        rw [openAfter_append]
        rfl
      rw [List.append_assoc, bracketed_append, scanValue_opening, ofInner, scanValue_closing,
        ofTail, width, opens]

/-- Text behind a statement: nothing, or a blank before a word. -/
def BeforeStatement (rest next : List Char) : Prop :=
  (rest = [] ∧ next = []) ∨
    ∃ first tail, next = first :: tail ∧ isWordCharacter first = true ∧ rest = ' ' :: next

/-- A word behind a blank is not a part of the value. -/
theorem scanValue_word {first : Char} (word : isWordCharacter first = true) (index : Nat)
    (tail : List Char) :
    scanValue (.upTo 0 index false) index (' ' :: first :: tail) =
      .ok (index, ⟨index + 1, first :: tail⟩) := by
  have apart := not_mem_punctuation_of_isWordCharacter word
  have notBlank := not_isBlank_of_isWordCharacter word
  have notSpace : first ≠ ' ' := by
    rintro rfl
    revert notBlank
    decide
  have notLineEnd : first ≠ '\n' := by
    rintro rfl
    revert notBlank
    decide
  simp only [punctuation, List.mem_cons, List.not_mem_nil, or_false, not_or] at apart
  have isSpace : isBlank ' ' = true := by decide
  simp [scanValue, valueEnd, Extent.upTo, isSpace, notBlank, notLineEnd, apart,
    continuesValue_comma word]

/-- The value that is next is compact text up to the next statement. -/
theorem readExtent_compact {allowed : Char → Prop} {text rest next : List Char}
    (compact : Compact allowed text) (before : BeforeStatement rest next) (index : Nat) :
    ∃ stop, readExtent ' ' ',' ⟨index, text ++ rest⟩ = .ok (⟨index, text⟩, ⟨stop, next⟩) := by
  have apart : rest.head? ≠ some '/' := by
    rcases before with ⟨rfl, _⟩ | ⟨_, _, _, _, rfl⟩ <;> simp
  have scanned := scanValue_closed compact.closed compact.notBlank compact.commentless apart 0 index
    false
  rw [compact.openAfter] at scanned
  have ended : ∃ stop, scanValue (.upTo 0 (index + text.length) false) (index + text.length) rest =
      .ok (index + text.length, ⟨stop, next⟩) := by
    rcases before with ⟨rfl, rfl⟩ | ⟨first, tail, rfl, word, rfl⟩
    · exact ⟨index + text.length, rfl⟩
    · exact ⟨index + text.length + 1, scanValue_word word _ tail⟩
  rcases ended with ⟨stop, ended⟩
  refine ⟨stop, ?_⟩
  have taken : (text ++ rest).take (index + text.length - index) = text := by
    rw [Nat.add_sub_cancel_left, List.take_left]
  have scan : valueEnd ' ' ',' false { stop := index } index (text ++ rest) =
      .ok (index + text.length, ⟨stop, next⟩) := scanned.trans ended
  rw [readExtent, scan]
  change Except.ok (Cursor.mk index ((text ++ rest).take (index + text.length - index)), _) = _
  rw [taken]

/-! ## One statement -/

/-- The name and the value of an assignment can be written. Unlike other names a
target may be all digits. -/
structure IsAssignment [Named ν] (vocabulary : Vocabulary ν) (assignment : Assignment ν) :
    Prop where
  nonempty : (Named.name assignment.target).toList ≠ []
  characters : ∀ character ∈ (Named.name assignment.target).toList, isWordCharacter character = true
  known : vocabulary.resolve? (Named.name assignment.target) = some assignment.target
  value : assignment.value.Meets (.writable vocabulary)

theorem endsName_apart {separator character : Char} (word : isWordCharacter character = true)
    (notSeparator : character ≠ separator) : endsName separator character = false := by
  have apart := not_mem_punctuation_of_isWordCharacter word
  have notBlank := not_isBlank_of_isWordCharacter word
  simp only [punctuation, List.mem_cons, List.not_mem_nil, or_false, not_or] at apart
  simp [endsName, notBlank, notSeparator, apart]

theorem endsName_word {character : Char} (word : isWordCharacter character = true) :
    endsName ' ' character = false := by
  apply endsName_apart word
  rintro rfl
  exact absurd (not_isBlank_of_isWordCharacter word) (by decide)

/-- A name is read up to the first character that ends it. -/
theorem takeWhile_unended {separator : Char} {name : List Char}
    (goesOn : ∀ character ∈ name, endsName separator character = false) {first : Char}
    (ends : endsName separator first = true) (rest : List Char) :
    (name ++ first :: rest).takeWhile (fun character => !endsName separator character) = name := by
  rw [List.takeWhile_append_of_pos, List.takeWhile_cons_of_neg, List.append_nil]
  · simp [ends]
  · intro character inside
    simp [goesOn character inside]

theorem takeWhile_name {name : List Char}
    (word : ∀ character ∈ name, isWordCharacter character = true)
    {first : Char} (ends : endsName ' ' first = true) (rest : List Char) :
    (name ++ first :: rest).takeWhile (fun character => !endsName ' ' character) = name :=
  takeWhile_unended (fun character inside => endsName_word (word character inside)) ends rest

theorem readUpdate_symbol (name : List Char) (update : Update) (start index : Nat)
    (rest : List Char) :
    readUpdate name start ⟨index, update.symbol.toList ++ rest⟩ =
      .ok (update, ⟨index + update.symbol.toList.length, rest⟩) := by
  cases update <;> rfl

/-- How an update begins. -/
theorem symbol_begins (update : Update) :
    ∃ first tail, update.symbol.toList = first :: tail ∧ isBlank first = false ∧
      endsName ' ' first = true ∧ first ≠ '(' ∧ (first = '/' → tail = ['=']) := by
  cases update with
  | set => exact ⟨'=', [], rfl, by decide⟩
  | increase => exact ⟨'+', ['='], rfl, by decide⟩
  | decrease => exact ⟨'-', ['='], rfl, by decide⟩
  | multiply => exact ⟨'*', ['='], rfl, by decide⟩
  | divide => exact ⟨'/', ['='], rfl, by decide⟩

/-- The cursor behind a name. -/
theorem advance_name (name rest : List Char) (index : Nat) :
    Cursor.advance ⟨index, name ++ rest⟩ name.length = ⟨index + name.length, rest⟩ := by
  rw [Cursor.advance, List.drop_left]

section Steps

variable [Named ν] {vocabulary : Vocabulary ν} (comma : vocabulary.argumentSeparator = ',')
  (blank : vocabulary.stepSeparator = ' ')

include comma blank

/-- An assignment is read exactly when its value is. -/
theorem readStep_assign {assignment : Assignment ν} (writable : IsAssignment vocabulary assignment)
    (enough : assignment.value.form.length ≤ vocabulary.nestingLimit) (allowReturn : Bool)
    {rest next : List Char} (before : BeforeStatement rest next) (index : Nat) :
    ∃ stop, SucceedsIf assignment.value.singleMinuses
      (.assign assignment.foldSigns, ⟨stop, next⟩)
      (readStep vocabulary allowReturn ⟨index, assignment.form ++ rest⟩) := by
  let name := (Named.name assignment.target).toList
  let value := assignment.value.form ++ rest
  rcases symbol_begins assignment.update with
    ⟨first, tail, symbol, notBlank, ends, notOpening, slash⟩
  have text : assignment.form ++ rest = name ++ (assignment.update.symbol.toList ++ value) := by
    simp [Assignment.form, name, value]
  have taken : (assignment.form ++ rest).takeWhile (fun character => !endsName ' ' character) =
      name := by
    rw [text, symbol]
    exact takeWhile_name writable.characters ends _
  have compact := assignment.value.form_compact writable.value
  let valueIndex := index + name.length + assignment.update.symbol.toList.length
  rcases readExtent_compact compact before valueIndex with ⟨stop, extent⟩
  have afterName : (Cursor.advance ⟨index, assignment.form ++ rest⟩ name.length).skip =
      ⟨index + name.length, assignment.update.symbol.toList ++ value⟩ := by
    rw [text, advance_name]
    apply Cursor.skip_of_settled
    rw [symbol]
    intro character isFirst
    cases isFirst
    refine ⟨notBlank, fun isSlash => ?_⟩
    rw [slash isSlash]
    simp
  have notReturn : (Cursor.mk (index + name.length)
      (assignment.update.symbol.toList ++ value)).next? ≠ some '(' := by
    rw [symbol]
    intro opening
    exact notOpening (Option.some.inj opening)
  have afterUpdate : readExtent ' ' ',' (Cursor.mk valueIndex value).skip =
      .ok (⟨valueIndex, assignment.value.form⟩, ⟨stop, next⟩) := by
    rw [Cursor.skip_of_settled (compact.begins.append rest).settled]
    exact extent
  have resolved : vocabulary.resolve name index (Cursor.mk valueIndex value) =
      .ok assignment.target := by
    rw [Vocabulary.resolve, String.ofList_toList, writable.known]
    rfl
  have nameFilled : name.isEmpty = false := List.isEmpty_eq_false_iff.mpr writable.nonempty
  have valueFilled : assignment.value.form.isEmpty = false :=
    List.isEmpty_eq_false_iff.mpr compact.ne_nil
  refine ⟨stop, ?_⟩
  simp only [readStep, blank, comma, taken, afterName, notReturn, decide_false, Bool.and_false,
    Bool.false_eq_true, if_false]
  apply SucceedsIf.after
    (readUpdate_symbol name assignment.update index (index + name.length) value)
  simp only [nameFilled, Bool.false_eq_true, if_false]
  apply SucceedsIf.after resolved
  apply SucceedsIf.after afterUpdate
  simp only [valueFilled, Bool.false_eq_true, if_false]
  exact (wholeFormula_form comma writable.value enough valueIndex).map fun value =>
    (Step.assign { assignment with value }, Cursor.mk stop next)

omit [Named ν] blank in
theorem readArguments_compact {pieces : List (List Char)} (nonempty : pieces ≠ [])
    (compact : ∀ piece ∈ pieces, Compact (· ≠ ',') piece) (index : Nat) (rest : List Char) :
    readArguments vocabulary.argumentSeparator ⟨index, bracketed (joinWith ',' pieces) ++ rest⟩ =
      .ok (argumentsFrom (index + 1) pieces,
        ⟨index + (bracketed (joinWith ',' pieces)).length, rest⟩) := by
  rw [comma]
  apply readArguments_joinWith (by decide) (by decide) nonempty
  · exact fun piece inside => (compact piece inside).closed
  · intro piece inside
    have notBlank : ([] ++ piece).all isBlank = false :=
      (compact piece inside).begins.not_all_isBlank
    exact notBlank

omit blank in
theorem readReturn_value {value : Formula ν} (writable : value.Meets (.writable vocabulary))
    (enough : value.form.length ≤ vocabulary.nestingLimit) (index : Nat) (rest : List Char) :
    ∃ stop, SucceedsIf value.singleMinuses (.return none value.foldSigns, ⟨stop, rest⟩)
      (readReturn vocabulary ⟨index, bracketed value.form ++ rest⟩) := by
  have compact : ∀ piece ∈ [value.form], Compact (· ≠ ',') piece := by
    simpa using value.form_compact writable
  have split := readArguments_compact comma (List.cons_ne_nil _ _) compact index rest
  let stop := index + (bracketed value.form).length
  refine ⟨stop, SucceedsIf.after split ?_⟩
  exact (wholeFormula_form comma writable enough (index + 1)).map fun value =>
    (Step.return none value, Cursor.mk stop rest)

omit blank in
theorem readReturn_condition {test : Condition ν} {value : Formula ν}
    (writableTest : test.Meets (.writable vocabulary))
    (writable : value.Meets (.writable vocabulary))
    (enoughTest : test.form.length ≤ vocabulary.nestingLimit)
    (enough : value.form.length ≤ vocabulary.nestingLimit) (index : Nat) (rest : List Char) :
    ∃ stop, SucceedsIf (test.singleMinuses && value.singleMinuses)
      (.return (some test.foldSigns) value.foldSigns, ⟨stop, rest⟩)
      (readReturn vocabulary ⟨index, bracketed (test.form ++ ',' :: value.form) ++ rest⟩) := by
  have compact : ∀ piece ∈ [test.form, value.form], Compact (· ≠ ',') piece := by
    simpa using ⟨test.form_compact writableTest, value.form_compact writable⟩
  have split := readArguments_compact comma (List.cons_ne_nil _ _) compact index rest
  let stop := index + (bracketed (test.form ++ ',' :: value.form)).length
  refine ⟨stop, SucceedsIf.after split ?_⟩
  apply (wholeCondition_form comma writableTest enoughTest (index + 1)).bind
  exact (wholeFormula_form comma writable enough _).map fun value =>
    (Step.return (some test.foldSigns) value, Cursor.mk stop rest)

omit [Named ν] comma blank in
/-- A return is a statement unless a letter of it is a separator. -/
theorem readStep_returnWord (letters : vocabulary.stepSeparator ∉ returnWord)
    (inner rest : List Char) (index : Nat) :
    readStep vocabulary true ⟨index, returnWord ++ bracketed inner ++ rest⟩ =
      readReturn vocabulary ⟨index + returnWord.length, bracketed inner ++ rest⟩ := by
  let behind := inner ++ ')' :: rest
  have text : returnWord ++ bracketed inner ++ rest = returnWord ++ '(' :: behind := by
    rw [List.append_assoc, bracketed_append]
  have word : ∀ character ∈ returnWord, isWordCharacter character = true :=
    List.all_eq_true.mp (by decide)
  have goesOn (character : Char) (inside : character ∈ returnWord) :
      endsName vocabulary.stepSeparator character = false :=
    endsName_apart (word character inside) fun isSeparator => letters (isSeparator ▸ inside)
  have taken : (returnWord ++ '(' :: behind).takeWhile
      (fun character => !endsName vocabulary.stepSeparator character) = returnWord :=
    takeWhile_unended goesOn (by simp [endsName]) behind
  have afterName : (Cursor.advance ⟨index, returnWord ++ '(' :: behind⟩ returnWord.length).skip =
      ⟨index + returnWord.length, '(' :: behind⟩ := by
    rw [advance_name]
    apply Cursor.skip_of_settled
    intro character isFirst
    cases isFirst
    exact ⟨by decide, fun isSlash => absurd isSlash (by decide)⟩
  have isReturn : isWord "return" returnWord = true := by decide
  have opening : (Cursor.mk (index + returnWord.length) ('(' :: behind)).next? = some '(' := rfl
  rw [text, bracketed_append]
  simp only [readStep, taken, afterName, isReturn, opening, Bool.and_self, decide_true, if_true]
  rfl

omit [Named ν] comma in
theorem readStep_return (inner rest : List Char) (index : Nat) :
    readStep vocabulary true ⟨index, returnWord ++ bracketed inner ++ rest⟩ =
      readReturn vocabulary ⟨index + returnWord.length, bracketed inner ++ rest⟩ :=
  readStep_returnWord (by rw [blank]; decide) inner rest index

end Steps

/-! ## Statements one after another -/

/-- Nothing is skipped before a statement. -/
theorem skipSeparators_next {rest next : List Char} (before : BeforeStatement rest next)
    (index : Nat) : skipSeparators ' ' ⟨index, next⟩ = ⟨index, next⟩ := by
  rcases before with ⟨_, rfl⟩ | ⟨first, tail, rfl, word, _⟩
  · rfl
  · have notBlank := not_isBlank_of_isWordCharacter word
    have notSlash : first ≠ '/' := by
      rintro rfl
      cases word
    have notSpace : first ≠ ' ' := by
      rintro rfl
      revert notBlank
      decide
    simp [skipSeparators, skipSeparatorsFrom, notBlank, notSlash, notSpace]

/-- The blank before a statement is skipped. -/
theorem skipSeparators_rest {rest next : List Char} (before : BeforeStatement rest next)
    (index : Nat) : ∃ start, skipSeparators ' ' ⟨index, rest⟩ = ⟨start, next⟩ := by
  have same := before
  rcases before with ⟨rfl, rfl⟩ | ⟨first, tail, _, _, rfl⟩
  · exact ⟨index, rfl⟩
  · have step :
        skipSeparators ' ' ⟨index, ' ' :: next⟩ = skipSeparators ' ' ⟨index + 1, next⟩ := rfl
    exact ⟨index + 1, step.trans (skipSeparators_next same (index + 1))⟩

/-- Steps whose text is read, returns only where they are statements. -/
def IsStep [Named ν] (vocabulary : Vocabulary ν) (allowReturn : Bool) : Step ν → Prop
  | .assign assignment => IsAssignment vocabulary assignment
  | .return none value => allowReturn = true ∧ value.Meets (.writable vocabulary)
  | .return (some test) value =>
      allowReturn = true ∧ test.Meets (.writable vocabulary) ∧ value.Meets (.writable vocabulary)

/-- At the end of the text there are no more statements. -/
theorem readSteps_end (vocabulary : Vocabulary ν) (allowReturn : Bool) (fuel : Nat)
    {cursor : Cursor} (atEnd : cursor.rest = []) :
    ∃ stop, readSteps vocabulary allowReturn fuel cursor = .ok ([], stop) := by
  cases fuel with
  | zero => exact ⟨cursor, rfl⟩
  | succ fuel =>
      rcases cursor with ⟨index, rest⟩
      subst atEnd
      exact ⟨⟨index, []⟩, rfl⟩

section Sequences

variable [Named ν] {vocabulary : Vocabulary ν} (comma : vocabulary.argumentSeparator = ',')
  (blank : vocabulary.stepSeparator = ' ') {allowReturn : Bool}

include comma blank

/-- A step is read exactly when its formulas are, and the next statement follows. -/
theorem readStep_form {step : Step ν} (isStep : IsStep vocabulary allowReturn step)
    (enough : step.form.length ≤ vocabulary.nestingLimit) {rest next : List Char}
    (before : BeforeStatement rest next) (index : Nat) :
    ∃ stop, (∃ start, skipSeparators ' ' stop = ⟨start, next⟩) ∧
      SucceedsIf step.singleMinuses (step.foldSigns, stop)
        (readStep vocabulary allowReturn ⟨index, step.form ++ rest⟩) := by
  match step, isStep with
  | .assign assignment, writable =>
      have inside : assignment.value.form.length ≤ vocabulary.nestingLimit := by
        simp only [Step.form, Assignment.form, List.length_append] at enough
        omega
      rcases readStep_assign comma blank writable inside allowReturn before index with ⟨stop, reads⟩
      exact ⟨_, ⟨stop, skipSeparators_next before stop⟩, reads⟩
  | .return none value, ⟨allowed, writable⟩ =>
      have inside : value.form.length ≤ vocabulary.nestingLimit := by
        simp only [Step.form, List.length_append, length_bracketed] at enough
        omega
      rcases readReturn_value comma writable inside (index + returnWord.length) rest with
        ⟨stop, reads⟩
      rw [← readStep_return blank] at reads
      rw [allowed]
      exact ⟨_, skipSeparators_rest before stop, reads⟩
  | .return (some test) value, ⟨allowed, writableTest, writable⟩ =>
      have inside : test.form.length ≤ vocabulary.nestingLimit ∧
          value.form.length ≤ vocabulary.nestingLimit := by
        simp only [Step.form, List.length_append, length_bracketed, List.length_cons] at enough
        omega
      rcases readReturn_condition comma writableTest writable inside.1 inside.2
        (index + returnWord.length) rest with ⟨stop, reads⟩
      rw [← readStep_return blank] at reads
      rw [allowed]
      exact ⟨_, skipSeparators_rest before stop, reads⟩

omit comma blank in
theorem form_begins {step : Step ν} (isStep : IsStep vocabulary allowReturn step) :
    ∃ first tail, step.form = first :: tail ∧ isWordCharacter first = true := by
  match step, isStep with
  | .assign assignment, writable =>
      cases name : (Named.name assignment.target).toList with
      | nil => exact absurd name writable.nonempty
      | cons first tail =>
          refine ⟨first, tail ++ (assignment.update.symbol.toList ++ assignment.value.form), ?_, ?_⟩
          · simp [Step.form, Assignment.form, name]
          · apply writable.characters
            rw [name]
            exact List.mem_cons_self ..
  | .return none _, _ | .return (some _) _, _ => exact ⟨'R', _, rfl, by decide⟩

omit [Named ν] comma blank in
theorem length_le_length_joinWith (separator : Char) (texts : List (List Char)) :
    texts.length ≤ (joinWith separator texts).length + 1 := by
  induction texts with
  | nil => exact Nat.zero_le _
  | cons text texts induction =>
      cases texts with
      | nil => exact Nat.succ_le_succ (Nat.zero_le _)
      | cons next texts =>
          simp only [joinWith, List.length_append, List.length_cons] at *
          omega

omit comma blank in
/-- The text of steps is that of the first one before that of the others. -/
theorem joinWith_forms {step : Step ν} {steps : List (Step ν)}
    (areSteps : ∀ other ∈ steps, IsStep vocabulary allowReturn other) :
    ∃ rest, joinWith ' ' ((step :: steps).map Step.form) = step.form ++ rest ∧
      BeforeStatement rest (joinWith ' ' (steps.map Step.form)) := by
  cases steps with
  | nil => exact ⟨[], (List.append_nil _).symm, .inl ⟨rfl, rfl⟩⟩
  | cons second steps =>
      refine ⟨' ' :: joinWith ' ' ((second :: steps).map Step.form), rfl, .inr ?_⟩
      rcases form_begins (areSteps second (List.mem_cons_self ..)) with ⟨first, tail, form, word⟩
      cases steps with
      | nil => exact ⟨first, tail, form, word, rfl⟩
      | cons third steps =>
          refine ⟨first, tail ++ ' ' :: joinWith ' ' ((third :: steps).map Step.form), ?_, word,
            rfl⟩
          change second.form ++ _ = _
          rw [form]
          rfl

/-- Steps are read exactly when each of them is. -/
theorem readSteps_forms {steps : List (Step ν)}
    (areSteps : ∀ step ∈ steps, IsStep vocabulary allowReturn step)
    (enough : ∀ step ∈ steps, step.form.length ≤ vocabulary.nestingLimit) {fuel : Nat}
    (fuelled : steps.length ≤ fuel) {cursor : Cursor} {start : Nat}
    (skipped : skipSeparators ' ' cursor = ⟨start, joinWith ' ' (steps.map Step.form)⟩) :
    ∃ stop, SucceedsIf (steps.all Step.singleMinuses) (steps.map Step.foldSigns, stop)
      (readSteps vocabulary allowReturn fuel cursor) := by
  induction steps generalizing fuel cursor start with
  | nil =>
      cases fuel with
      | zero => exact ⟨cursor, .pure _⟩
      | succ fuel =>
          refine ⟨⟨start, []⟩, ?_⟩
          rw [readSteps, blank, skipped]
          exact .pure _
  | cons step steps induction =>
      have first := areSteps step (List.mem_cons_self ..)
      have others := fun other inside => areSteps other (List.mem_cons_of_mem step inside)
      rcases joinWith_forms others with ⟨rest, joined, before⟩
      cases fuel with
      | zero => cases fuelled
      | succ fuel =>
          rcases readStep_form comma blank first (enough step (List.mem_cons_self ..)) before start
            with ⟨stop, ⟨next, following⟩, reads⟩
          rcases induction others
            (fun other inside => enough other (List.mem_cons_of_mem step inside))
            (Nat.le_of_succ_le_succ fuelled) following with ⟨final, readsRest⟩
          have filled : (step.form ++ rest).isEmpty = false := by
            rcases form_begins first with ⟨character, tail, form, _⟩
            rw [form]
            rfl
          refine ⟨final, ?_⟩
          rw [readSteps, blank, skipped, joined]
          simp only [filled, Bool.false_eq_true, if_false]
          exact reads.bind (readsRest.map fun results =>
            (step.foldSigns :: results.1, results.2))

/-- A text of steps is read from its start. -/
theorem readSteps_start {steps : List (Step ν)}
    (areSteps : ∀ step ∈ steps, IsStep vocabulary allowReturn step)
    (enough : (joinWith ' ' (steps.map Step.form)).length ≤ vocabulary.nestingLimit) :
    ∃ stop, SucceedsIf (steps.all Step.singleMinuses) (steps.map Step.foldSigns, stop)
      (readSteps vocabulary allowReturn ((joinWith ' ' (steps.map Step.form)).length + 1)
        (.start (joinWith ' ' (steps.map Step.form)))) := by
  have inside : ∀ step ∈ steps, step.form.length ≤ vocabulary.nestingLimit := fun step isIn =>
    Nat.le_trans (length_le_joinWith ' ' (List.mem_map_of_mem isIn)) enough
  have fuelled : steps.length ≤ (joinWith ' ' (steps.map Step.form)).length + 1 := by
    have count := length_le_length_joinWith ' ' (steps.map Step.form)
    rwa [List.length_map] at count
  have before : ∃ rest, BeforeStatement rest (joinWith ' ' (steps.map Step.form)) := by
    cases steps with
    | nil => exact ⟨[], .inl ⟨rfl, rfl⟩⟩
    | cons step steps =>
        have others := fun other isIn => areSteps other (List.mem_cons_of_mem step isIn)
        rcases joinWith_forms others with ⟨rest, joined, _⟩
        rcases form_begins (areSteps step (List.mem_cons_self ..)) with ⟨first, tail, form, word⟩
        rw [joined, form]
        exact ⟨_, .inr ⟨first, tail ++ rest, rfl, word, rfl⟩⟩
  rcases before with ⟨rest, before⟩
  exact readSteps_forms comma blank areSteps inside fuelled (skipSeparators_next before 0)

/-- Assignments are read exactly when each value is. -/
theorem wholeOperations_form {assignments : List (Assignment ν)} (nonempty : assignments ≠ [])
    (writable : ∀ assignment ∈ assignments, IsAssignment vocabulary assignment)
    (enough : (joinWith ' ' (assignments.map Assignment.form)).length ≤ vocabulary.nestingLimit) :
    SucceedsIf (assignments.all (·.value.singleMinuses)) (assignments.map Assignment.foldSigns)
      (wholeOperations vocabulary (joinWith ' ' (assignments.map Assignment.form))) := by
  have forms : (assignments.map Step.assign).map Step.form = assignments.map Assignment.form := by
    simp [Step.form, Function.comp_def]
  have areSteps : ∀ step ∈ assignments.map Step.assign, IsStep vocabulary false step := by
    intro step inside
    rcases List.mem_map.mp inside with ⟨assignment, isIn, rfl⟩
    exact writable assignment isIn
  rw [← forms] at enough
  rcases readSteps_start comma blank areSteps enough with ⟨stop, reads⟩
  rw [forms] at reads
  have kept (pick : Step ν → Option (Assignment ν))
      (picks : ∀ assignment, pick (.assign assignment) = some assignment) :
      ((assignments.map Step.assign).map Step.foldSigns).filterMap pick =
        assignments.map Assignment.foldSigns := by
    simp [List.filterMap_map, Function.comp_def, Step.foldSigns, picks]
  have filled : (assignments.map Assignment.foldSigns).isEmpty = false := by
    rw [List.isEmpty_eq_false_iff]
    simpa using nonempty
  have all : (assignments.map Step.assign).all Step.singleMinuses =
      assignments.all (·.value.singleMinuses) := by
    rw [List.all_map]
    rfl
  rw [← all, ← Bool.and_true ((assignments.map Step.assign).all Step.singleMinuses)]
  apply reads.bind
  dsimp only
  rw [kept _ fun _ => rfl]
  simp only [filled, Bool.false_eq_true, if_false]
  exact .pure _

/-- The steps of a process are read exactly when each of them is. -/
theorem wholeProcess_form {steps : List (Step ν)} (nonempty : steps ≠ [])
    (areSteps : ∀ step ∈ steps, IsStep vocabulary true step)
    (enough : (joinWith ' ' (steps.map Step.form)).length ≤ vocabulary.nestingLimit) :
    SucceedsIf (steps.all Step.singleMinuses) (steps.map Step.foldSigns)
      (wholeProcess vocabulary (joinWith ' ' (steps.map Step.form))) := by
  rcases readSteps_start comma blank areSteps enough with ⟨stop, reads⟩
  have filled : (steps.map Step.foldSigns).isEmpty = false := by
    rw [List.isEmpty_eq_false_iff]
    simpa using nonempty
  rw [← Bool.and_true (steps.all Step.singleMinuses)]
  apply reads.bind
  simp only [filled, Bool.false_eq_true, if_false]
  exact .pure _

end Sequences

end NumericRules.Grammar
