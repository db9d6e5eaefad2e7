import NumericRules.Proofs.Grammar.Cursor
import NumericRules.Grammar.Condition

/-! # Bracketed text

Argument lists, compared formulas and groups are first delimited by counting
brackets. A text whose brackets are closed is passed over as a whole.
-/

namespace NumericRules.Grammar

open Text

theorem bracketed_append (inner rest : List Char) :
    bracketed inner ++ rest = '(' :: (inner ++ ')' :: rest) := by
  simp [bracketed]

theorem length_bracketed (inner : List Char) : (bracketed inner).length = inner.length + 2 := by
  simp [bracketed]

/-- Text in which every bracket is closed, with `allowed` characters outside
brackets. -/
inductive Closed : (allowed : Char → Prop) → List Char → Prop
  | nil {allowed : Char → Prop} : Closed allowed []
  | character {allowed : Char → Prop} {character : Char} {rest : List Char} :
      allowed character → character ≠ '(' → character ≠ ')' → Closed allowed rest →
      Closed allowed (character :: rest)
  | brackets {allowed : Char → Prop} {inner rest : List Char} :
      Closed (fun _ => True) inner → Closed allowed rest → Closed allowed (bracketed inner ++ rest)

namespace Closed

theorem append {allowed : Char → Prop} {left right : List Char} (ofLeft : Closed allowed left)
    (ofRight : Closed allowed right) : Closed allowed (left ++ right) := by
  induction ofLeft with
  | nil => exact ofRight
  | character isAllowed notOpening notClosing _ induction =>
      exact .character isAllowed notOpening notClosing (induction ofRight)
  | brackets inner _ _ induction =>
      rw [List.append_assoc]
      exact .brackets inner (induction ofRight)

theorem weaken {allowed other : Char → Prop} {text : List Char} (closed : Closed allowed text)
    (implied : ∀ character, allowed character → other character) : Closed other text := by
  induction closed with
  | nil => exact .nil
  | character isAllowed notOpening notClosing _ induction =>
      exact .character (implied _ isAllowed) notOpening notClosing (induction implied)
  | brackets inner _ _ induction => exact .brackets inner (induction implied)

/-- Text without brackets is closed. -/
theorem of_forall {allowed : Char → Prop} {text : List Char}
    (plain : ∀ character ∈ text, allowed character ∧ character ≠ '(' ∧ character ≠ ')') :
    Closed allowed text := by
  induction text with
  | nil => exact .nil
  | cons character text induction =>
      have first := plain character (List.mem_cons_self ..)
      exact .character first.1 first.2.1 first.2.2
        (induction fun other inside => plain other (List.mem_cons_of_mem _ inside))

end Closed

/-! ## Argument lists -/

/-- The cursors of arguments that stand one after another from an index on. -/
def argumentsFrom (index : Nat) : List (List Char) → List Cursor
  | [] => []
  | argument :: rest => ⟨index, argument⟩ :: argumentsFrom (index + argument.length + 1) rest

theorem length_argumentsFrom (index : Nat) (arguments : List (List Char)) :
    (argumentsFrom index arguments).length = arguments.length := by
  induction arguments generalizing index with
  | nil => rfl
  | cons argument rest induction => simp [argumentsFrom, induction]

section Splitting

variable {separator : Char} {opening start : Nat} {found : List Cursor}

/-- What is done with one character of a list that is accepted: it belongs to the argument
that is being read, ends the list, or separates two arguments. -/
theorem splitFrom_cons_eq_ok {depth index : Nat} {character : Char} {read rest : List Char}
    {arguments : List Cursor} {stop : Cursor}
    (outcome : splitFrom separator opening depth start read found index (character :: rest) =
      .ok (arguments, stop)) :
    (∃ after, splitFrom separator opening after start (character :: read) found (index + 1) rest =
          .ok (arguments, stop) ∧
        (character = '(' ∧ after = depth + 1 ∨ character = ')' ∧ depth = after + 1 ∨
          character ≠ '(' ∧ character ≠ ')' ∧ after = depth ∧
            (character = separator → 0 < depth))) ∨
      (character = ')' ∧ depth = 0 ∧ stop = ⟨index + 1, rest⟩ ∧
        (read.all isBlank = true ∧ found = [] ∧ arguments = [] ∨
          read.all isBlank = false ∧ arguments = found.reverse ++ [⟨start, read.reverse⟩])) ∨
      (character = separator ∧ depth = 0 ∧ read.all isBlank = false ∧
        splitFrom separator opening 0 (index + 1) [] (⟨start, read.reverse⟩ :: found) (index + 1)
          rest = .ok (arguments, stop)) := by
  unfold splitFrom at outcome
  split at outcome
  · rename_i isOpening
    exact .inl ⟨depth + 1, outcome, .inl ⟨isOpening, rfl⟩⟩
  · rename_i notOpening
    split at outcome
    · rename_i isClosing
      split at outcome
      · rename_i deep
        exact .inl ⟨depth - 1, outcome, .inr (.inl ⟨isClosing, (Nat.sub_add_cancel deep).symm⟩)⟩
      · rename_i outside
        refine .inr (.inl ⟨isClosing, Nat.eq_zero_of_not_pos outside, ?_⟩)
        split at outcome
        · rename_i blank
          split at outcome
          · rename_i empty
            cases outcome
            exact ⟨rfl, .inl ⟨blank, List.isEmpty_iff.mp empty, rfl⟩⟩
          · cases outcome
        · rename_i filled
          cases outcome
          exact ⟨rfl, .inr ⟨Bool.eq_false_iff.mpr filled, List.reverse_cons⟩⟩
    · rename_i notClosing
      split at outcome
      · rename_i separates
        simp only [Bool.and_eq_true, decide_eq_true_eq] at separates
        split at outcome
        · cases outcome
        · rename_i filled
          exact .inr (.inr ⟨separates.1, separates.2, Bool.eq_false_iff.mpr filled, outcome⟩)
      · rename_i goesOn
        simp only [Bool.and_eq_true, decide_eq_true_eq, not_and] at goesOn
        exact .inl ⟨depth, outcome, .inr (.inr ⟨notOpening, notClosing, rfl,
          fun same => Nat.pos_of_ne_zero (goesOn same)⟩)⟩

/-- What a list of arguments was split into: nothing if it is blank, else the texts
between the separators. -/
theorem splitFrom_eq_ok {depth index : Nat} {read rest : List Char}
    {arguments : List Cursor} {stop : Cursor}
    (outcome : splitFrom separator opening depth start read found index rest =
      .ok (arguments, stop)) :
    ∃ inner, Cursor.Spans ⟨index, rest⟩ (inner ++ [')']) stop ∧
      ((found = [] ∧ arguments = [] ∧ (read.reverse ++ inner).all isBlank = true) ∨
        ∃ pieces, pieces ≠ [] ∧
          arguments.map Cursor.rest = found.reverse.map Cursor.rest ++ pieces ∧
          joinWith separator pieces = read.reverse ++ inner) := by
  induction rest generalizing depth start read found index with
  | nil => cases outcome
  | cons character rest induction =>
      have one := Cursor.spans_mk index [character] rest
      rcases splitFrom_cons_eq_ok outcome with
        ⟨after, inside, _⟩ | ⟨rfl, _, rfl, ends⟩ | ⟨rfl, _, _, behind⟩
      · rcases induction inside with ⟨inner, spans, split⟩
        exact ⟨character :: inner, one.trans spans, by simpa using split⟩
      · refine ⟨[], one, ?_⟩
        rcases ends with ⟨blank, rfl, rfl⟩ | ⟨_, rfl⟩
        · exact .inl ⟨rfl, rfl, by simpa using blank⟩
        · exact .inr ⟨[read.reverse], by simp, by simp, by simp [joinWith]⟩
      · rcases induction behind with ⟨inner, spans, split⟩
        refine ⟨character :: inner, one.trans spans, .inr ?_⟩
        rcases split with ⟨nothing, _⟩ | ⟨pieces, nonempty, texts, joined⟩
        · cases nothing
        · refine ⟨read.reverse :: pieces, by simp, by simpa using texts, ?_⟩
          cases pieces with
          | nil => exact absurd rfl nonempty
          | cons piece pieces => simp [joinWith, joined]

theorem splitFrom_opening (depth index : Nat) (read rest : List Char) :
    splitFrom separator opening depth start read found index ('(' :: rest) =
      splitFrom separator opening (depth + 1) start ('(' :: read) found (index + 1) rest := rfl

theorem splitFrom_closing (depth index : Nat) (read rest : List Char) :
    splitFrom separator opening (depth + 1) start read found index (')' :: rest) =
      splitFrom separator opening depth start (')' :: read) found (index + 1) rest := rfl

/-- The last argument ends at the bracket that closes the list. -/
theorem splitFrom_last {read : List Char} (notBlank : read.all isBlank = false) (index : Nat)
    (rest : List Char) :
    splitFrom separator opening 0 start read found index (')' :: rest) =
      .ok (found.reverse ++ [⟨start, read.reverse⟩], ⟨index + 1, rest⟩) := by
  have notOpening : (')' : Char) ≠ '(' := by decide
  simp only [splitFrom, notOpening, notBlank, if_false, if_true, Nat.lt_irrefl, Bool.false_eq_true,
    List.reverse_cons]
  rfl

theorem splitFrom_separator (notOpening : separator ≠ '(') (notClosing : separator ≠ ')')
    {read : List Char} (notBlank : read.all isBlank = false) (index : Nat) (rest : List Char) :
    splitFrom separator opening 0 start read found index (separator :: rest) =
      splitFrom separator opening 0 (index + 1) [] (⟨start, read.reverse⟩ :: found) (index + 1)
        rest := by
  simp [splitFrom, notOpening, notClosing, notBlank]

/-- Closed text is gathered into the argument that is being read. -/
theorem splitFrom_closed {allowed : Char → Prop} {text : List Char} (closed : Closed allowed text)
    {depth : Nat} (apart : depth = 0 → ∀ character, allowed character → character ≠ separator)
    (index : Nat) (read rest : List Char) :
    splitFrom separator opening depth start read found index (text ++ rest) =
      splitFrom separator opening depth start (text.reverse ++ read) found
        (index + text.length) rest := by
  induction closed generalizing depth index read rest with
  | nil => rfl
  | @character _ character text isAllowed notOpening notClosing _ induction =>
      have notSeparator : (character = separator && depth = 0) = false := by
        by_cases outside : depth = 0
        · simp [apart outside character isAllowed]
        · simp [outside]
      simp only [List.cons_append, splitFrom, notOpening, notClosing, notSeparator, if_false,
        Bool.false_eq_true, induction apart]
      simp [Nat.add_assoc, Nat.add_comm 1]
  | @brackets _ inner text _ _ innerInduction induction =>
      have innerApart : depth + 1 = 0 → ∀ character : Char, True → character ≠ separator :=
        fun outside => absurd outside (Nat.succ_ne_zero depth)
      have width : index + 1 + inner.length + 1 + text.length =
          index + (bracketed inner ++ text).length := by
        rw [List.length_append, length_bracketed]
        omega
      rw [List.append_assoc, bracketed_append, splitFrom_opening, innerInduction innerApart,
        splitFrom_closing, induction apart, width]
      simp [bracketed]

/-- Joined arguments are split where they were joined. -/
theorem splitFrom_joinWith (notOpening : separator ≠ '(') (notClosing : separator ≠ ')')
    {pieces : List (List Char)} (nonempty : pieces ≠ [])
    (closed : ∀ piece ∈ pieces, Closed (· ≠ separator) piece)
    (notBlank : ∀ piece ∈ pieces, piece.all isBlank = false) (start : Nat)
    (found : List Cursor) (rest : List Char) :
    splitFrom separator opening 0 start [] found start (joinWith separator pieces ++ ')' :: rest) =
      .ok (found.reverse ++ argumentsFrom start pieces,
        ⟨start + (joinWith separator pieces).length + 1, rest⟩) := by
  induction pieces generalizing start found with
  | nil => exact absurd rfl nonempty
  | cons piece pieces induction =>
      have pieceClosed := closed piece (List.mem_cons_self ..)
      have pieceNotBlank := notBlank piece (List.mem_cons_self ..)
      have readNotBlank : (piece.reverse ++ []).all isBlank = false := by simpa using pieceNotBlank
      have gathered (rest : List Char) :
          splitFrom separator opening 0 start [] found start (piece ++ rest) =
            splitFrom separator opening 0 start (piece.reverse ++ []) found
              (start + piece.length) rest :=
        splitFrom_closed pieceClosed (fun _ _ isAllowed => isAllowed) start [] rest
      cases pieces with
      | nil =>
          rw [joinWith, gathered, splitFrom_last readNotBlank]
          simp [argumentsFrom]
      | cons next pieces =>
          have further := induction (List.cons_ne_nil next pieces)
            (fun other inside => closed other (List.mem_cons_of_mem _ inside))
            (fun other inside => notBlank other (List.mem_cons_of_mem _ inside))
            (start + piece.length + 1) (⟨start, piece⟩ :: found)
          have joined : joinWith separator (piece :: next :: pieces) ++ ')' :: rest =
              piece ++ separator :: (joinWith separator (next :: pieces) ++ ')' :: rest) := by
            simp [joinWith]
          have width : (joinWith separator (piece :: next :: pieces)).length =
              piece.length + 1 + (joinWith separator (next :: pieces)).length := by
            simp only [joinWith, List.length_append, List.length_cons]
            omega
          rw [joined, gathered, splitFrom_separator notOpening notClosing readNotBlank,
            List.append_nil, List.reverse_reverse, further, width]
          simp [argumentsFrom, Nat.add_assoc]

end Splitting

/-- The brackets of a call hold nothing but blanks, or arguments between
separators. -/
theorem readArguments_eq_ok {separator : Char} {cursor : Cursor} {arguments : List Cursor}
    {stop : Cursor} (next : cursor.next? = some '(')
    (outcome : readArguments separator cursor = .ok (arguments, stop)) :
    ∃ inner, cursor.Spans (bracketed inner) stop ∧
      ((arguments = [] ∧ inner.all isBlank = true) ∨
        (arguments ≠ [] ∧ inner = joinWith separator (arguments.map Cursor.rest))) := by
  rcases splitFrom_eq_ok outcome with ⟨inner, spans, split⟩
  refine ⟨inner, (Cursor.spans_next next).trans spans, ?_⟩
  rcases split with ⟨_, empty, blank⟩ | ⟨pieces, nonempty, pieceTexts, joined⟩
  · exact .inl ⟨empty, blank⟩
  · have texts : arguments.map Cursor.rest = pieces := pieceTexts
    rw [texts]
    refine .inr ⟨?_, joined.symm⟩
    rintro rfl
    exact nonempty texts.symm

theorem readArguments_joinWith {separator : Char} (notOpening : separator ≠ '(')
    (notClosing : separator ≠ ')') {pieces : List (List Char)} (nonempty : pieces ≠ [])
    (closed : ∀ piece ∈ pieces, Closed (· ≠ separator) piece)
    (notBlank : ∀ piece ∈ pieces, piece.all isBlank = false) (index : Nat) (rest : List Char) :
    readArguments separator ⟨index, bracketed (joinWith separator pieces) ++ rest⟩ =
      .ok (argumentsFrom (index + 1) pieces,
        ⟨index + (bracketed (joinWith separator pieces)).length, rest⟩) := by
  have width : index + 1 + (joinWith separator pieces).length + 1 =
      index + (bracketed (joinWith separator pieces)).length := by
    rw [length_bracketed]
    omega
  simp only [readArguments, bracketed_append, List.drop_succ_cons, List.drop_zero]
  rw [splitFrom_joinWith notOpening notClosing nonempty closed notBlank, width]
  rfl

theorem readArguments_blank {separator : Char} {gap : List Char}
    (blank : gap.all isBlank = true) (apart : gap.all (· != separator) = true) (index : Nat)
    (rest : List Char) :
    readArguments separator ⟨index, bracketed gap ++ rest⟩ =
      .ok ([], ⟨index + (bracketed gap).length, rest⟩) := by
  have closed : Closed (· ≠ separator) gap := by
    apply Closed.of_forall
    intro character inside
    have isBlankCharacter := List.all_eq_true.mp blank character inside
    refine ⟨by simpa using List.all_eq_true.mp apart character inside, ?_, ?_⟩
    · rintro rfl
      exact absurd isBlankCharacter (by decide)
    · rintro rfl
      exact absurd isBlankCharacter (by decide)
  have width : index + 1 + gap.length + 1 = index + (bracketed gap).length := by
    rw [length_bracketed]
    omega
  have readBlank : (gap.reverse ++ []).all isBlank = true := by simpa using blank
  have notOpening : (')' : Char) ≠ '(' := by decide
  simp only [readArguments, bracketed_append, List.drop_succ_cons, List.drop_zero]
  rw [splitFrom_closed closed fun _ _ isAllowed => isAllowed]
  simp only [splitFrom, notOpening, readBlank, List.isEmpty_nil, Nat.lt_irrefl, if_false, if_true,
    width]
  rfl

/-! ## Compared formulas -/

/-- Characters that end a compared formula. -/
def endsOperand (stopAtComparison : Bool) (character : Char) : Bool :=
  character == '&' || character == '|' || (stopAtComparison && isComparisonSymbol character)

theorem operandEnd_closed {allowed : Char → Prop} {text : List Char} (closed : Closed allowed text)
    {stopAtComparison : Bool} {depth : Nat}
    (apart : depth = 0 → ∀ character, allowed character →
      endsOperand stopAtComparison character = false)
    (index : Nat) (rest : List Char) :
    operandEnd stopAtComparison depth index (text ++ rest) =
      operandEnd stopAtComparison depth (index + text.length) rest := by
  induction closed generalizing depth index rest with
  | nil => rfl
  | @character _ character text isAllowed notOpening notClosing _ induction =>
      have goesOn : depth = 0 → endsOperand stopAtComparison character = false :=
        fun outside => apart outside character isAllowed
      have notEnd : (depth = 0 && (character = '&' || character = '|')) = false ∧
          (depth = 0 && stopAtComparison && ['<', '>', '=', '!'].contains character) = false := by
        by_cases outside : depth = 0
        · simpa [endsOperand, isComparisonSymbol, outside] using goesOn outside
        · simp [outside]
      simp only [List.cons_append, operandEnd, notOpening, notClosing, notEnd.1, notEnd.2, if_false,
        Bool.false_eq_true, induction apart]
      simp [Nat.add_assoc, Nat.add_comm 1]
  | @brackets _ inner text _ _ innerInduction induction =>
      have innerApart : depth + 1 = 0 → ∀ character : Char, True →
          endsOperand stopAtComparison character = false :=
        fun outside => absurd outside (Nat.succ_ne_zero depth)
      have width : index + 1 + inner.length + 1 + text.length =
          index + (bracketed inner ++ text).length := by
        rw [List.length_append, length_bracketed]
        omega
      rw [List.append_assoc, bracketed_append, operandEnd, if_pos rfl, innerInduction innerApart,
        operandEnd, if_neg (by decide), if_pos rfl, if_neg (Nat.succ_ne_zero depth),
        Nat.add_sub_cancel, induction apart, width]

/-- A compared formula that is closed reaches up to what ends it. -/
theorem skipOperand_closed {allowed : Char → Prop} {text : List Char}
    (closed : Closed allowed text) {stopAtComparison : Bool}
    (apart : ∀ character, allowed character → endsOperand stopAtComparison character = false)
    {rest : List Char}
    (ends : ∀ character, rest.head? = some character →
      character = ')' ∨ endsOperand stopAtComparison character = true) (index : Nat) :
    skipOperand stopAtComparison ⟨index, text ++ rest⟩ = ⟨index + text.length, rest⟩ := by
  have outside : 0 = 0 → ∀ character, allowed character →
      endsOperand stopAtComparison character = false := fun _ => apart
  have skipped := operandEnd_closed closed outside index rest
  rw [skipOperand, skipped]
  cases rest with
  | nil => rfl
  | cons character rest =>
      rcases ends character rfl with rfl | ends
      · rfl
      · have notOpening : character ≠ '(' := by
          rintro rfl
          cases stopAtComparison <;> exact absurd ends (by decide)
        by_cases closing : character = ')'
        · simp [operandEnd, closing]
        · simp only [endsOperand, isComparisonSymbol, Bool.or_eq_true, Bool.and_eq_true, beq_iff_eq]
            at ends
          rcases ends with (connective | connective) | comparison
          · simp [operandEnd, connective]
          · simp [operandEnd, connective]
          · simp only [operandEnd, notOpening, closing, comparison.1, comparison.2, decide_true,
              Bool.and_true, if_false, if_true, ite_self]

/-! ## Groups -/

theorem closesFormula_closed {allowed : Char → Prop} {text : List Char}
    (closed : Closed allowed text) (depth : Nat) (rest : List Char) :
    closesFormula (depth + 1) (text ++ rest) = closesFormula (depth + 1) rest := by
  induction closed generalizing depth rest with
  | nil => rfl
  | character _ notOpening notClosing _ induction =>
      simp only [List.cons_append, closesFormula, notOpening, notClosing, if_false, induction]
  | @brackets _ inner text _ _ innerInduction induction =>
      rw [List.append_assoc, bracketed_append, closesFormula, if_pos rfl, innerInduction,
        closesFormula, if_neg (by decide), if_pos rfl, if_neg (by omega), Nat.add_sub_cancel,
        induction]

/-- What follows a group tells whether it is one of a formula. -/
theorem opensFormula_bracketed {allowed : Char → Prop} {inner : List Char}
    (closed : Closed allowed inner) (index : Nat) (rest : List Char) :
    opensFormula ⟨index, bracketed inner ++ rest⟩ = startsContinuation rest := by
  rw [opensFormula, bracketed_append, closesFormula, if_pos rfl, closesFormula_closed closed,
    closesFormula, if_neg (by decide), if_pos rfl, if_pos (Nat.le_refl _)]

end NumericRules.Grammar
