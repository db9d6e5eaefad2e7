import NumericRules.Grammar.Cursor
import Mathlib.Data.List.Infix

/-! # What cursors read

Every parser leaves a cursor further on in the same text. The text between two
cursors is what the parser has read.
-/

namespace NumericRules.Grammar

open Text

/-! ## Skipped text -/

theorem isBlank_of_isWhite {character : Char} (white : isWhite character = true) :
    isBlank character = true := by
  rw [isBlank, white, Bool.true_or]

theorem all_isBlank_of_isWhite {gap : List Char} (white : gap.all isWhite = true) :
    gap.all isBlank = true :=
  List.all_eq_true.mpr fun character inside =>
    isBlank_of_isWhite (List.all_eq_true.mp white character inside)

/-- What is skipped is blank unless it has a comment. -/
def Skippable (gap : List Char) : Prop := ['/', '/'] <:+: gap ∨ gap.all isBlank = true

theorem Skippable.nil : Skippable [] := .inr rfl

theorem Skippable.append {left right : List Char} (ofLeft : Skippable left)
    (ofRight : Skippable right) : Skippable (left ++ right) := by
  rcases ofLeft with comment | blankLeft
  · exact .inl (comment.trans (List.infix_append' [] left right))
  · rcases ofRight with comment | blankRight
    · exact .inl (comment.trans (List.suffix_append left right).isInfix)
    · exact .inr (by simp only [List.all_append, blankLeft, blankRight, Bool.and_self])

theorem Skippable.of_blank {character : Char} {gap : List Char}
    (blank : isBlank character = true) (skippable : Skippable gap) :
    Skippable (character :: gap) :=
  Skippable.append (.inr (by simpa using blank) : Skippable [character]) skippable

/-! ## Spans -/

/-- The text from one cursor to another. -/
structure Cursor.Spans (start : Cursor) (text : List Char) (stop : Cursor) : Prop where
  rest : start.rest = text ++ stop.rest
  index : stop.index = start.index + text.length

namespace Cursor

theorem Spans.trans {start middle stop : Cursor} {left right : List Char}
    (first : start.Spans left middle) (second : middle.Spans right stop) :
    start.Spans (left ++ right) stop where
  rest := by rw [first.rest, second.rest, List.append_assoc]
  index := by rw [second.index, first.index, List.length_append, Nat.add_assoc]

theorem spans_mk (index : Nat) (text rest : List Char) :
    Spans ⟨index, text ++ rest⟩ text ⟨index + text.length, rest⟩ := ⟨rfl, rfl⟩

theorem spans_advance {cursor : Cursor} {text rest : List Char}
    (equal : cursor.rest = text ++ rest) :
    cursor.Spans text (cursor.advance text.length) where
  rest := by simp [advance, equal]
  index := rfl

/-- The next character is what one step reads. -/
theorem spans_next {cursor : Cursor} {character : Char} (next : cursor.next? = some character) :
    cursor.Spans [character] (cursor.advance 1) := by
  rcases List.head?_eq_some_iff.mp next with ⟨rest, equal⟩
  exact spans_advance (equal.trans (List.singleton_append).symm)

/-- A part that is cut out holds the text between its ends. -/
theorem upTo_rest {start stop : Cursor} {text : List Char} (spans : start.Spans text stop) :
    start.upTo stop = ⟨start.index, text⟩ := by
  simp only [upTo, spans.index, spans.rest, Nat.add_sub_cancel_left, List.take_left']

/-! ## More text behind -/

/-- The cursor with more text behind its own. -/
def followed (cursor : Cursor) (back : List Char) : Cursor :=
  ⟨cursor.index, cursor.rest ++ back⟩

theorem next?_followed {cursor : Cursor} (filled : cursor.rest ≠ []) (back : List Char) :
    (cursor.followed back).next? = cursor.next? :=
  List.head?_append_of_ne_nil _ filled

theorem advance_followed {cursor : Cursor} {count : Nat} (within : count ≤ cursor.rest.length)
    (back : List Char) : (cursor.followed back).advance count = (cursor.advance count).followed back := by
  rw [advance, followed, advance, followed, List.drop_append_of_le_length within]

/-! ## Skipping -/

theorem skipFrom_span (inComment : Bool) (index : Nat) (text : List Char) :
    ∃ gap, Spans ⟨index, text⟩ gap (skipFrom inComment index text) := by
  induction text generalizing inComment index with
  | nil => exact ⟨[], rfl, rfl⟩
  | cons character rest induction =>
      have further (inComment : Bool) : ∃ gap, Spans ⟨index, character :: rest⟩ gap
          (skipFrom inComment (index + 1) rest) := by
        rcases induction inComment (index + 1) with ⟨gap, spans⟩
        exact ⟨character :: gap, (spans_mk index [character] rest).trans spans⟩
      unfold skipFrom
      split
      · exact further _
      · split
        · exact further _
        · split
          · exact further _
          · exact ⟨[], rfl, rfl⟩

theorem skipFrom_spans (index : Nat) (text : List Char) :
    ∃ gap, Spans ⟨index, text⟩ gap (skipFrom false index text) ∧ Skippable gap := by
  induction text generalizing index with
  | nil => exact ⟨[], ⟨rfl, rfl⟩, .nil⟩
  | cons character rest induction =>
      unfold skipFrom
      simp only [Bool.false_eq_true, if_false]
      split
      · rename_i blank
        rcases induction (index + 1) with ⟨gap, spans, skippable⟩
        exact ⟨character :: gap, (spans_mk index [character] rest).trans spans,
          .of_blank blank skippable⟩
      · split
        · rename_i comment
          simp only [Bool.and_eq_true, decide_eq_true_eq] at comment
          rcases comment with ⟨rfl, second⟩
          rcases List.head?_eq_some_iff.mp second with ⟨tail, rfl⟩
          rcases skipFrom_span true (index + 2) tail with ⟨gap, spans⟩
          refine ⟨'/' :: '/' :: gap, ?_, .inl ⟨[], gap, rfl⟩⟩
          have slashes : Spans ⟨index, '/' :: '/' :: tail⟩ ['/', '/'] ⟨index + 2, tail⟩ :=
            spans_mk index ['/', '/'] tail
          simpa [skipFrom] using slashes.trans spans
        · exact ⟨[], ⟨rfl, rfl⟩, .nil⟩

/-- Skipping reads a gap. -/
theorem skip_spans (cursor : Cursor) : ∃ gap, cursor.Spans gap cursor.skip ∧ Skippable gap :=
  skipFrom_spans cursor.index cursor.rest

end Cursor

theorem length_skip_le (cursor : Cursor) : cursor.skip.rest.length ≤ cursor.rest.length := by
  rcases Cursor.skip_spans cursor with ⟨gap, spans, _⟩
  rw [spans.rest, List.length_append]
  exact Nat.le_add_left _ _

/-! ## Where skipping stops -/

/-- Text that begins with no gap. -/
def Settled (rest : List Char) : Prop :=
  ∀ character, rest.head? = some character →
    isBlank character = false ∧ (character = '/' → rest.tail.head? ≠ some '/')

/-- The end of the text, or a bracket that closes what is read. -/
def Closes (rest : List Char) : Prop := rest = [] ∨ rest.head? = some ')'

theorem Closes.settled {rest : List Char} (closes : Closes rest) : Settled rest := by
  intro character first
  rcases closes with rfl | closing
  · cases first
  · cases closing.symm.trans first
    exact ⟨by decide, fun equal => by cases equal⟩

namespace Cursor

theorem skip_of_settled {cursor : Cursor} (settled : Settled cursor.rest) :
    cursor.skip = cursor := by
  rcases cursor with ⟨index, _ | ⟨character, rest⟩⟩
  · rfl
  · rcases settled character rfl with ⟨notBlank, noComment⟩
    have goesOn : ¬ (character = '/' ∧ rest.head? = some '/') := fun both => noComment both.1 both.2
    simp [skip, skipFrom, notBlank, goesOn]

theorem skipFrom_settled (inComment : Bool) (index : Nat) (text : List Char) :
    Settled (skipFrom inComment index text).rest := by
  induction text generalizing inComment index with
  | nil =>
      intro character first
      cases first
  | cons character rest induction =>
      unfold skipFrom
      split
      · exact induction _ _
      · split
        · exact induction _ _
        · split
          · exact induction _ _
          · rename_i notBlank noComment
            intro found first
            cases first
            simp only [Bool.and_eq_true, decide_eq_true_eq, not_and] at noComment
            exact ⟨by simpa using notBlank, noComment⟩

/-- Skipping twice skips no more. -/
theorem skip_skip (cursor : Cursor) : cursor.skip.skip = cursor.skip :=
  skip_of_settled (skipFrom_settled false cursor.index cursor.rest)

theorem skip_gap {gap : List Char} (blank : gap.all Text.isBlank = true) (index : Nat)
    (rest : List Char) :
    skip ⟨index, gap ++ rest⟩ = skip ⟨index + gap.length, rest⟩ := by
  induction gap generalizing index with
  | nil => rfl
  | cons character gap induction =>
      rw [List.all_cons, Bool.and_eq_true] at blank
      have step : skip ⟨index, character :: gap ++ rest⟩ = skip ⟨index + 1, gap ++ rest⟩ := by
        simp [skip, skipFrom, blank.1]
      rw [step, induction blank.2, List.length_cons, Nat.add_assoc, Nat.add_comm 1]

end Cursor

/-! ## Success -/

theorem ok_of_bind {ε : Type} {first : Except ε α} {next : α → Except ε β} {result : β}
    (outcome : (first >>= next) = .ok result) :
    ∃ middle, first = .ok middle ∧ next middle = .ok result := by
  cases first with
  | error fault => cases outcome
  | ok middle => exact ⟨middle, rfl, outcome⟩

theorem bind_of_ok {ε : Type} {first : Except ε α} {next : α → Except ε β} {middle : α}
    (outcome : first = .ok middle) : (first >>= next) = next middle := by
  rw [outcome]
  rfl

/-- A reader that makes the same choice as another succeeds like it, if it does in both
cases. -/
theorem ok_of_choice {condition : Prop} [Decidable condition] {first second : Except Fault α}
    {image other : Except Fault β} {result : α} {changed : β}
    (holds : first = .ok result → image = .ok changed)
    (fails : second = .ok result → other = .ok changed)
    (outcome : (if condition then first else second) = .ok result) :
    (if condition then image else other) = .ok changed := by
  split at outcome
  · rename_i isSo
    rw [if_pos isSo]
    exact holds outcome
  · rename_i isNot
    rw [if_neg isNot]
    exact fails outcome

theorem rest_of_expectEnd {cursor : Cursor} (atEnd : cursor.expectEnd = .ok ()) :
    cursor.skip.rest = [] := by
  unfold Cursor.expectEnd Cursor.next? at atEnd
  cases rest : cursor.skip.rest with
  | nil => rfl
  | cons character tail =>
      simp only [rest, List.head?_cons] at atEnd
      split at atEnd
      · contradiction
      · cases atEnd
      · cases atEnd

/-- What is read as a whole is read to its end. -/
theorem whole_eq_ok {parse : Cursor → Except Fault (α × Cursor)} {cursor : Cursor} {result : α}
    (outcome : whole parse cursor = .ok result) :
    ∃ stop, parse cursor = .ok (result, stop) ∧ stop.skip.rest = [] := by
  rcases ok_of_bind outcome with ⟨⟨_, stop⟩, parsed, outcome⟩
  rcases ok_of_bind outcome with ⟨_, atEnd, outcome⟩
  cases outcome
  exact ⟨stop, parsed, rest_of_expectEnd atEnd⟩

end NumericRules.Grammar
