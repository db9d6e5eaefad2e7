import NumericRules.Grammar.Statement
import NumericRules.Proofs.Grammar.Comments
import NumericRules.Proofs.Grammar.Shape

/-! # The scan for the end of a value

The scan reads a value character by character and keeps an extent. Where it comes to the
end of a text, it goes on with the text behind it from what it knows then.
-/

namespace NumericRules.Grammar

open Text

/-! ## One character -/

/-- No value goes on behind a word. -/
theorem continuesValue_word {argumentSeparator character : Char}
    (other : character ≠ argumentSeparator) (word : isWordCharacter character = true) :
    continuesValue argumentSeparator character = false := by
  have apart := not_mem_punctuation_of_isWordCharacter word
  simp only [punctuation, List.mem_cons, List.not_mem_nil, or_false, not_or] at apart
  simp [continuesValue, apart, other]

/-- What a character of an operand does to an extent, with the brackets that are open
behind it. There is no extent where the value ends before the character. -/
def Extent.operand? (separator : Char) (extent : Extent) (depth index : Nat) :
    Except Fault (Option Extent) :=
  if extent.isOpen then .ok (some (.operand depth index))
  else if extent.depth = 0 then
    if extent.ended then .ok none
    else if extent.spaced then
      if separator = ' ' then .ok none else .error ⟨.extraSymbol, index, index⟩
    else .ok (some (.operand depth index))
  else if extent.spaced then .error ⟨.spaceBetweenOperands, index, index⟩
  else .ok (some (.operand depth index))

theorem Extent.operand?_eq_some {separator : Char} {extent after : Extent} {depth index : Nat}
    (read : extent.operand? separator depth index = .ok (some after)) :
    after = .operand depth index := by
  unfold Extent.operand? at read
  repeat' split at read
  all_goals cases read
  all_goals rfl

/-- What a character of code does to an extent. -/
def Extent.read? (separator argumentSeparator : Char) (extent : Extent) (index : Nat)
    (character : Char) : Except Fault (Option Extent) :=
  if character = '\n' then .ok (some extent.endLine)
  else if character = separator && separator ≠ ' ' && extent.depth = 0 then
    .ok (some { extent with ended := true, spaced := false })
  else if isBlank character then .ok (some { extent with spaced := true })
  else if character = ')' then
    if extent.depth = 0 then .error ⟨.unmatchedClosing, index, index⟩
    else .ok (some (.operand (extent.depth - 1) index))
  else if continuesValue argumentSeparator character then .ok (some (extent.operator index))
  else extent.operand? separator (if character = '(' then extent.depth + 1 else extent.depth) index

/-- What a character makes of an extent: it goes on with the same end, or it is the new
end, and then the value is open if the character is one of an operator. -/
theorem Extent.read?_eq_some {separator argumentSeparator character : Char}
    {extent after : Extent} {index : Nat}
    (read : extent.read? separator argumentSeparator index character = .ok (some after)) :
    (after.stop = extent.stop ∧ after.isOpen = extent.isOpen) ∨
      (after.stop = index + 1 ∧ (after.isOpen = true →
        isBlank character = false ∧ character ≠ ')' ∧
          continuesValue argumentSeparator character = true)) := by
  unfold Extent.read? at read
  split at read
  · cases read
    exact .inl ⟨rfl, rfl⟩
  · split at read
    · cases read
      exact .inl ⟨rfl, rfl⟩
    · split at read
      · cases read
        exact .inl ⟨rfl, rfl⟩
      · rename_i notBlank
        split at read
        · split at read
          · cases read
          · cases read
            exact .inr ⟨rfl, nofun⟩
        · rename_i notClosing
          split at read
          · rename_i continues
            cases read
            exact .inr ⟨rfl, fun _ => ⟨Bool.eq_false_iff.mpr notBlank, notClosing, continues⟩⟩
          · cases Extent.operand?_eq_some read
            exact .inr ⟨rfl, nofun⟩

theorem Extent.endLine_endLine (extent : Extent) : extent.endLine.endLine = extent.endLine := by
  have ended : (extent.ended || extent.depth == 0 || extent.depth == 0) =
      (extent.ended || extent.depth == 0) := by rw [Bool.or_assoc, Bool.or_self]
  exact congrArg (fun ended => { extent with ended, spaced := 0 < extent.depth }) ended

theorem Extent.stop_le_of_read? {separator argumentSeparator character : Char}
    {extent after : Extent} {index : Nat}
    (read : extent.read? separator argumentSeparator index character = .ok (some after))
    (within : extent.stop ≤ index) : after.stop ≤ index + 1 := by
  rcases Extent.read?_eq_some read with ⟨same, _⟩ | ⟨new, _⟩
  · exact same ▸ Nat.le_succ_of_le within
  · exact Nat.le_of_eq new

section Scan

variable {separator argumentSeparator character : Char} {rest : List Char} (extent : Extent)
  (index : Nat)

theorem valueEnd_comment (goesOn : character ≠ '\n') :
    valueEnd separator argumentSeparator true extent index (character :: rest) =
      valueEnd separator argumentSeparator true extent (index + 1) rest := by
  rw [valueEnd, if_pos rfl, decide_eq_true goesOn]

theorem valueEnd_lineEnd :
    valueEnd separator argumentSeparator true extent index ('\n' :: rest) =
      valueEnd separator argumentSeparator false extent (index + 1) rest := by
  rw [valueEnd, if_pos rfl]
  rfl

theorem valueEnd_opening (second : rest.head? = some '/') :
    valueEnd separator argumentSeparator false extent index ('/' :: rest) =
      valueEnd separator argumentSeparator true extent.endLine (index + 1) rest := by
  rw [valueEnd, if_neg Bool.false_ne_true, if_pos (by rw [second]; rfl)]

theorem valueEnd_code (apart : character = '/' → rest.head? ≠ some '/') :
    valueEnd separator argumentSeparator false extent index (character :: rest) =
      match extent.read? separator argumentSeparator index character with
      | .error fault => .error fault
      | .ok none => .ok (extent.stop, ⟨index, character :: rest⟩)
      | .ok (some after) => valueEnd separator argumentSeparator false after (index + 1) rest := by
  have noComment : (decide (character = '/') && decide (rest.head? = some '/')) = false := by
    rw [Bool.and_eq_false_imp, decide_eq_true_eq, decide_eq_false_iff_not]
    exact apart
  let goOn (found : Except Fault (Option Extent)) : Except Fault (Nat × Cursor) :=
    match found with
    | .error fault => .error fault
    | .ok none => .ok (extent.stop, ⟨index, character :: rest⟩)
    | .ok (some after) => valueEnd separator argumentSeparator false after (index + 1) rest
  -- the scan and the reading of a character make the same choices
  have choice {condition : Prop} [Decidable condition] {found other : Except Fault (Option Extent)}
      {first second : Except Fault (Nat × Cursor)} (sameFirst : first = goOn found)
      (sameSecond : second = goOn other) :
      (if condition then first else second) = goOn (if condition then found else other) := by
    split
    · exact sameFirst
    · exact sameSecond
  rw [valueEnd, if_neg Bool.false_ne_true, noComment, if_neg Bool.false_ne_true]
  change _ = goOn (extent.read? separator argumentSeparator index character)
  unfold Extent.read? Extent.operand?
  refine choice rfl (choice rfl (choice rfl (choice (choice rfl rfl) (choice rfl ?_))))
  refine choice rfl (choice ?_ (choice rfl rfl))
  exact choice rfl (choice (choice rfl rfl) rfl)

end Scan

/-! ## Text with more behind it -/

/-- What is known at the end of a text, and whether that is in a comment. Nothing is known
where the value ends before. -/
def Extent.behind (separator argumentSeparator : Char) (inComment : Bool) (extent : Extent)
    (index : Nat) : List Char → Except Fault (Option (Bool × Extent))
  | [] => .ok (some (inComment, extent))
  | character :: rest =>
      if inComment then
        behind separator argumentSeparator (character ≠ '\n') extent (index + 1) rest
      else if character = '/' && rest.head? = some '/' then
        behind separator argumentSeparator true extent.endLine (index + 1) rest
      else match extent.read? separator argumentSeparator index character with
        | .error fault => .error fault
        | .ok none => .ok none
        | .ok (some after) => behind separator argumentSeparator false after (index + 1) rest

section Behind

variable {separator argumentSeparator character : Char} {rest : List Char} {extent : Extent}
  {index : Nat}

theorem behind_comment (goesOn : character ≠ '\n') :
    extent.behind separator argumentSeparator true index (character :: rest) =
      extent.behind separator argumentSeparator true (index + 1) rest := by
  rw [Extent.behind, if_pos rfl, decide_eq_true goesOn]

theorem behind_lineEnd :
    extent.behind separator argumentSeparator true index ('\n' :: rest) =
      extent.behind separator argumentSeparator false (index + 1) rest := by
  rw [Extent.behind, if_pos rfl]
  rfl

theorem behind_opening (second : rest.head? = some '/') :
    extent.behind separator argumentSeparator false index ('/' :: rest) =
      extent.endLine.behind separator argumentSeparator true (index + 1) rest := by
  rw [Extent.behind, if_neg Bool.false_ne_true, if_pos (by rw [second]; rfl)]

theorem behind_code (apart : character = '/' → rest.head? ≠ some '/') :
    extent.behind separator argumentSeparator false index (character :: rest) =
      match extent.read? separator argumentSeparator index character with
      | .error fault => .error fault
      | .ok none => .ok none
      | .ok (some after) => after.behind separator argumentSeparator false (index + 1) rest := by
  have noComment : ¬ ((decide (character = '/') && decide (rest.head? = some '/')) = true) := by
    rw [Bool.and_eq_true, decide_eq_true_eq, decide_eq_true_eq]
    exact fun both => apart both.1 both.2
  rw [Extent.behind, if_neg Bool.false_ne_true, if_neg noComment]

/-- The scan stops before the end of a text, whatever follows it, or it goes on behind the
text from what it knows there. -/
theorem valueEnd_append {front back : List Char} (clean : CleanCut front back) (inComment : Bool)
    (extent : Extent) (index : Nat) :
    valueEnd separator argumentSeparator inComment extent index (front ++ back) =
      match extent.behind separator argumentSeparator inComment index front with
      | .error fault => .error fault
      | .ok none => (valueEnd separator argumentSeparator inComment extent index front).map
          fun result => (result.1, result.2.followed back)
      | .ok (some (inComment, extent)) =>
          valueEnd separator argumentSeparator inComment extent (index + front.length) back := by
  induction inComment, front using scan_induction generalizing extent index with
  | nil => rfl
  | comment character rest goesOn induction =>
      rw [List.cons_append, valueEnd_comment _ _ goesOn, valueEnd_comment _ _ goesOn,
        behind_comment goesOn, induction clean.tail, List.length_cons, Nat.add_right_comm,
        Nat.add_assoc]
  | opening rest second induction =>
      have stillSecond := (clean.head? rfl).mpr second
      rw [List.cons_append, valueEnd_opening _ _ second, valueEnd_opening _ _ stillSecond,
        behind_opening second, induction clean.tail, List.length_cons, Nat.add_right_comm,
        Nat.add_assoc]
  | code inComment character rest ends apart induction =>
      have stillApart : character = '/' → (rest ++ back).head? ≠ some '/' := fun isSlash second =>
        apart isSlash ((clean.head? isSlash).mp second)
      rw [List.cons_append, List.length_cons, Nat.add_comm rest.length, ← Nat.add_assoc]
      cases inComment with
      | true =>
          cases ends rfl
          rw [valueEnd_lineEnd, valueEnd_lineEnd, behind_lineEnd]
          exact induction clean.tail extent (index + 1)
      | false =>
          rw [valueEnd_code _ _ apart, valueEnd_code _ _ stillApart, behind_code apart]
          cases extent.read? separator argumentSeparator index character with
          | error fault => rfl
          | ok found =>
              cases found with
              | none => rfl
              | some after => exact induction clean.tail after (index + 1)

theorem valueEnd_append_of_behind {inComment ends : Bool} {after : Extent}
    {front back : List Char} (clean : CleanCut front back)
    (atEnd : extent.behind separator argumentSeparator inComment index front =
      .ok (some (ends, after))) :
    valueEnd separator argumentSeparator inComment extent index (front ++ back) =
      valueEnd separator argumentSeparator ends after (index + front.length) back := by
  rw [valueEnd_append clean, atEnd]

/-- Where a whole text is a value, it ends behind its last character of code. -/
theorem valueEnd_of_behind {inComment ends : Bool} {after : Extent} {text : List Char}
    (atEnd : extent.behind separator argumentSeparator inComment index text =
      .ok (some (ends, after))) :
    valueEnd separator argumentSeparator inComment extent index text =
      .ok (after.stop, ⟨index + text.length, []⟩) := by
  have clean : CleanCut text [] := .of_head (by simp)
  have scanned := valueEnd_append_of_behind clean atEnd
  rwa [List.append_nil] at scanned

theorem valueEnd_of_behind_error {inComment : Bool} {text : List Char} {fault : Fault}
    (failed : extent.behind separator argumentSeparator inComment index text = .error fault) :
    valueEnd separator argumentSeparator inComment extent index text = .error fault := by
  have clean : CleanCut text [] := .of_head (by simp)
  have scanned : valueEnd separator argumentSeparator inComment extent index (text ++ []) =
      .error fault := by rw [valueEnd_append clean, failed]
  rwa [List.append_nil] at scanned

/-- A comment is the end of its line. -/
theorem endLine_of_behind_comment {inComment : Bool} {after : Extent} {text : List Char}
    (lined : inComment = true → extent.endLine = extent)
    (atEnd : extent.behind separator argumentSeparator inComment index text =
      .ok (some (true, after))) : after.endLine = after := by
  induction inComment, text using scan_induction generalizing extent index with
  | nil inComment =>
      cases atEnd
      exact lined rfl
  | comment character rest goesOn induction =>
      rw [behind_comment goesOn] at atEnd
      exact induction lined atEnd
  | opening rest second induction =>
      rw [behind_opening second] at atEnd
      exact induction (fun _ => extent.endLine_endLine) atEnd
  | code inComment character rest ends apart induction =>
      cases inComment with
      | true =>
          cases ends rfl
          rw [behind_lineEnd] at atEnd
          exact induction (by simp) atEnd
      | false =>
          rw [behind_code apart] at atEnd
          split at atEnd
          · cases atEnd
          · cases atEnd
          · exact induction (by simp) atEnd

/-- Behind the last line of a text the scan goes on as at the end of a line. -/
theorem valueEnd_line {inComment : Bool} {after : Extent} {front : List Char}
    (atEnd : extent.behind separator argumentSeparator false index front =
      .ok (some (inComment, after))) (back : List Char) :
    valueEnd separator argumentSeparator false extent index (front ++ '\n' :: back) =
      valueEnd separator argumentSeparator false after.endLine (index + front.length + 1) back := by
  rw [valueEnd_append_of_behind (.of_head (by simp)) atEnd]
  cases inComment with
  | true => rw [endLine_of_behind_comment (by simp) atEnd, valueEnd_lineEnd]
  | false =>
      have apart : '\n' = '/' → back.head? ≠ some '/' := fun isSlash => absurd isSlash (by decide)
      rw [valueEnd_code _ _ apart, Extent.read?, if_pos rfl]

end Behind

/-! ## The end that is found -/

theorem valueEnd_spans {separator argumentSeparator : Char} {inComment : Bool} {extent : Extent}
    {index stop : Nat} {text : List Char} {next : Cursor}
    (found : valueEnd separator argumentSeparator inComment extent index text = .ok (stop, next))
    (within : extent.stop ≤ index) :
    stop ≤ next.index ∧ ∃ read, Cursor.Spans ⟨index, text⟩ read next := by
  induction inComment, text using scan_induction generalizing extent index with
  | nil =>
      cases found
      exact ⟨within, [], rfl, rfl⟩
  | comment character rest goesOn induction =>
      rw [valueEnd_comment _ _ goesOn] at found
      rcases induction found (Nat.le_succ_of_le within) with ⟨bounded, read, spans⟩
      exact ⟨bounded, character :: read, (Cursor.spans_mk index [character] rest).trans spans⟩
  | opening rest second induction =>
      rw [valueEnd_opening _ _ second] at found
      rcases induction found (Nat.le_succ_of_le within) with ⟨bounded, read, spans⟩
      exact ⟨bounded, '/' :: read, (Cursor.spans_mk index ['/'] rest).trans spans⟩
  | code inComment character rest ends apart induction =>
      have further {after : Extent} (within : after.stop ≤ index + 1)
          (found : valueEnd separator argumentSeparator false after (index + 1) rest =
            .ok (stop, next)) :
          stop ≤ next.index ∧ ∃ read, Cursor.Spans ⟨index, character :: rest⟩ read next := by
        rcases induction found within with ⟨bounded, read, spans⟩
        exact ⟨bounded, character :: read, (Cursor.spans_mk index [character] rest).trans spans⟩
      cases inComment with
      | true =>
          cases ends rfl
          rw [valueEnd_lineEnd] at found
          exact further (Nat.le_succ_of_le within) found
      | false =>
          rw [valueEnd_code _ _ apart] at found
          split at found
          · cases found
          · cases found
            exact ⟨within, [], rfl, rfl⟩
          · rename_i after isRead
            exact further (Extent.stop_le_of_read? isRead within) found

/-- Some text ends in a character of an operator, which stands in no comment. `index` is
the index of the text and `stop` the one behind the character. -/
def EndsInOperator (argumentSeparator : Char) (inComment : Bool) (index stop : Nat)
    (text : List Char) : Prop :=
  ∃ front character back, text = front ++ character :: back ∧ stop = index + front.length + 1 ∧
    (blankFrom inComment (front ++ [character])).getLast? = some character ∧
    isBlank character = false ∧ character ≠ ')' ∧
    continuesValue argumentSeparator character = true

/-- The operator stands in a longer text as well. -/
theorem EndsInOperator.cons {argumentSeparator character : Char} {inComment inside : Bool}
    {index stop : Nat} {rest : List Char}
    (blanked : ∀ front, front.head? = rest.head? →
      ∃ image, blankFrom inComment (character :: front) = image :: blankFrom inside front)
    (ends : EndsInOperator argumentSeparator inside (index + 1) stop rest) :
    EndsInOperator argumentSeparator inComment index stop (character :: rest) := by
  rcases ends with ⟨front, operator, back, rfl, stops, last, isOperator⟩
  have sameHead : (front ++ [operator]).head? = (front ++ operator :: back).head? := by
    cases front <;> rfl
  rcases blanked _ sameHead with ⟨image, blanked⟩
  refine ⟨character :: front, operator, back, rfl, ?_, ?_, isOperator⟩
  · rw [stops, List.length_cons]
    omega
  · rw [List.cons_append, blanked, List.getLast?_cons, last]
    rfl

/-- An open value was open before, or it ends in an operator. -/
theorem isOpen_of_behind {separator argumentSeparator : Char} {inComment ends : Bool}
    {extent after : Extent} {index : Nat} {text : List Char}
    (atEnd : extent.behind separator argumentSeparator inComment index text =
      .ok (some (ends, after))) (isOpen : after.isOpen = true) :
    (extent.isOpen = true ∧ after.stop = extent.stop) ∨
      EndsInOperator argumentSeparator inComment index after.stop text := by
  induction inComment, text using scan_induction generalizing extent index with
  | nil =>
      cases atEnd
      exact .inl ⟨isOpen, rfl⟩
  | comment character rest goesOn induction =>
      rw [behind_comment goesOn] at atEnd
      exact (induction atEnd).imp id
        (.cons fun front _ => ⟨' ', blankFrom_comment goesOn⟩)
  | opening rest second induction =>
      rw [behind_opening second] at atEnd
      exact (induction atEnd).imp id
        (.cons fun front same => ⟨' ', blankFrom_opening (same.trans second)⟩)
  | code inComment character rest comment apart induction =>
      have blanked (front : List Char) (same : front.head? = rest.head?) :
          ∃ image, blankFrom inComment (character :: front) = image :: blankFrom false front :=
        ⟨character, blankFrom_code comment (by rwa [same])⟩
      cases inComment with
      | true =>
          cases comment rfl
          rw [behind_lineEnd] at atEnd
          exact (induction atEnd).imp id (.cons blanked)
      | false =>
          rw [behind_code apart] at atEnd
          split at atEnd
          · cases atEnd
          · cases atEnd
          · rename_i next read
            rcases induction atEnd with ⟨nextOpen, stays⟩ | later
            · rcases Extent.read?_eq_some read with ⟨sameStop, sameOpen⟩ | ⟨newStop, operator⟩
              · exact .inl ⟨sameOpen ▸ nextOpen, stays.trans sameStop⟩
              · have alone : blankFrom false [character] = [character] :=
                  blankFrom_code (by simp) (by simp)
                exact .inr ⟨[], character, rest, rfl, stays.trans newStop, by simp [alone],
                  operator nextOpen⟩
            · exact .inr (later.cons blanked)

/-! ## Behind a line -/

/-- A value that was whole where its line ended. -/
structure Extent.Ended (extent : Extent) : Prop where
  outside : extent.depth = 0
  ended : extent.ended = true
  closed : extent.isOpen = false

/-- A value with brackets that were open where its line ended. -/
structure Extent.Broken (extent : Extent) : Prop where
  inside : 0 < extent.depth
  spaced : extent.spaced = true
  closed : extent.isOpen = false

theorem Extent.endLine_ended {extent : Extent} (closed : extent.isOpen = false)
    (outside : extent.depth = 0) : extent.endLine.Ended :=
  ⟨outside, by simp [endLine, outside], closed⟩

theorem Extent.endLine_broken {extent : Extent} (closed : extent.isOpen = false)
    (inside : 0 < extent.depth) : extent.endLine.Broken :=
  ⟨inside, decide_eq_true inside, closed⟩

/-- No value goes on behind the separator of statements as it does behind an operator. -/
def NoOperator (separator argumentSeparator : Char) : Prop :=
  isBlank separator = true ∨
    separator ≠ ')' ∧ continuesValue argumentSeparator separator = false

/-- The next code can only stand at the start of an operand. -/
def StartsOperand (argumentSeparator : Char) (cursor : Cursor) : Prop :=
  ∀ character, cursor.next? = some character →
    character ≠ ')' ∧ continuesValue argumentSeparator character = false

section Separators

variable {separator character : Char} {rest : List Char} (index : Nat)

theorem skipSeparators_comment (goesOn : character ≠ '\n') :
    skipSeparatorsFrom separator true index (character :: rest) =
      skipSeparatorsFrom separator true (index + 1) rest := by
  rw [skipSeparatorsFrom, if_pos rfl, decide_eq_true goesOn]

theorem skipSeparators_lineEnd :
    skipSeparatorsFrom separator true index ('\n' :: rest) =
      skipSeparatorsFrom separator false (index + 1) rest := by
  rw [skipSeparatorsFrom, if_pos rfl]
  rfl

theorem skipSeparators_opening (second : rest.head? = some '/') :
    skipSeparatorsFrom separator false index ('/' :: rest) =
      skipSeparatorsFrom separator true (index + 1) rest := by
  have noBlank : ¬ isBlank '/' = true := by decide
  rw [skipSeparatorsFrom, if_neg Bool.false_ne_true, if_neg noBlank, if_pos (by rw [second]; rfl)]

theorem skipSeparators_gap (apart : character = '/' → rest.head? ≠ some '/')
    (gap : isBlank character = true ∨ character = separator) :
    skipSeparatorsFrom separator false index (character :: rest) =
      skipSeparatorsFrom separator false (index + 1) rest := by
  have noComment : ¬ (character = '/' ∧ rest.head? = some '/') := fun both => apart both.1 both.2
  rcases gap with blank | rfl
  · simp [skipSeparatorsFrom, blank]
  · simp [skipSeparatorsFrom, noComment]

theorem skipSeparators_code (apart : character = '/' → rest.head? ≠ some '/')
    (notBlank : isBlank character = false) (other : character ≠ separator) :
    skipSeparatorsFrom separator false index (character :: rest) = ⟨index, character :: rest⟩ := by
  have noComment : ¬ (character = '/' ∧ rest.head? = some '/') := fun both => apart both.1 both.2
  simp [skipSeparatorsFrom, noComment, notBlank, other]

end Separators

section Gaps

variable {separator argumentSeparator character : Char} {extent : Extent}

theorem Extent.Ended.read?_gap (ended : extent.Ended) (argumentSeparator : Char) (index : Nat)
    (gap : isBlank character = true ∨ character = separator) :
    ∃ after, extent.read? separator argumentSeparator index character = .ok (some after) ∧
      after.Ended ∧ after.stop = extent.stop := by
  unfold Extent.read?
  split
  · exact ⟨_, rfl, Extent.endLine_ended ended.closed ended.outside, rfl⟩
  · split
    · exact ⟨_, rfl, ⟨ended.outside, rfl, ended.closed⟩, rfl⟩
    · rename_i notEnded
      have blank : isBlank character = true := by
        rcases gap with blank | same
        · exact blank
        · -- at depth 0 only a space as the separator does not end the value
          simp only [same, ended.outside, decide_true, Bool.true_and, Bool.and_true,
            decide_eq_true_eq, not_not] at notEnded
          rw [same, notEnded]
          decide
      rw [if_pos blank]
      exact ⟨_, rfl, ⟨ended.outside, ended.ended, ended.closed⟩, rfl⟩

theorem Extent.Ended.read?_operand (ended : extent.Ended) (index : Nat)
    (notBlank : isBlank character = false) (other : character ≠ separator)
    (notClosing : character ≠ ')')
    (notContinuing : continuesValue argumentSeparator character = false) :
    extent.read? separator argumentSeparator index character = .ok none := by
  have sameLine : character ≠ '\n' := by
    rintro rfl
    exact absurd notBlank (by decide)
  simp [Extent.read?, Extent.operand?, sameLine, other, notBlank, notClosing, notContinuing,
    ended.closed, ended.outside, ended.ended]

/-- A value that was whole at the end of its line ends before the next operand. -/
theorem valueEnd_of_ended (ended : extent.Ended) {inComment : Bool} {index : Nat}
    {text : List Char}
    (starts : StartsOperand argumentSeparator (skipSeparatorsFrom separator inComment index text)) :
    valueEnd separator argumentSeparator inComment extent index text =
      .ok (extent.stop, skipSeparatorsFrom separator inComment index text) := by
  induction inComment, text using scan_induction generalizing extent index with
  | nil => rfl
  | comment character rest goesOn induction =>
      rw [skipSeparators_comment _ goesOn] at starts ⊢
      rw [valueEnd_comment _ _ goesOn, induction ended starts]
  | opening rest second induction =>
      have endedLine := Extent.endLine_ended ended.closed ended.outside
      rw [skipSeparators_opening _ second] at starts ⊢
      rw [valueEnd_opening _ _ second, induction endedLine starts]
      rfl
  | code inComment character rest ends apart induction =>
      cases inComment with
      | true =>
          cases ends rfl
          rw [skipSeparators_lineEnd] at starts ⊢
          rw [valueEnd_lineEnd, induction ended starts]
      | false =>
          rw [valueEnd_code _ _ apart]
          by_cases gap : isBlank character = true ∨ character = separator
          · rcases ended.read?_gap argumentSeparator index gap with
              ⟨after, read, endedAfter, sameStop⟩
            rw [skipSeparators_gap _ apart gap] at starts ⊢
            rw [read, ← sameStop]
            exact induction endedAfter starts
          · rw [not_or, Bool.not_eq_true] at gap
            rw [skipSeparators_code _ apart gap.1 gap.2] at starts ⊢
            rcases starts character rfl with ⟨notClosing, notContinuing⟩
            rw [ended.read?_operand index gap.1 gap.2 notClosing notContinuing]

theorem Extent.Broken.read?_blank (broken : extent.Broken) (separator argumentSeparator : Char)
    (index : Nat)
    (blank : isBlank character = true) :
    ∃ after, extent.read? separator argumentSeparator index character = .ok (some after) ∧
      after.Broken := by
  have inside : ¬ extent.depth = 0 := Nat.ne_of_gt broken.inside
  rw [Extent.read?]
  by_cases lineEnd : character = '\n'
  · rw [if_pos lineEnd]
    exact ⟨_, rfl, Extent.endLine_broken broken.closed broken.inside⟩
  · rw [if_neg lineEnd, if_neg (by simp [inside]), if_pos blank]
    exact ⟨_, rfl, ⟨broken.inside, rfl, broken.closed⟩⟩

theorem Extent.Broken.read?_operand (broken : extent.Broken) (separator : Char) (index : Nat)
    (notBlank : isBlank character = false) (notClosing : character ≠ ')')
    (notContinuing : continuesValue argumentSeparator character = false) :
    ∃ fault, extent.read? separator argumentSeparator index character = .error fault := by
  have sameLine : character ≠ '\n' := by
    rintro rfl
    exact absurd notBlank (by decide)
  have inside : ¬ extent.depth = 0 := Nat.ne_of_gt broken.inside
  exact ⟨⟨.spaceBetweenOperands, index, index⟩, by
    simp [Extent.read?, Extent.operand?, sameLine, notBlank, notClosing, notContinuing, inside,
      broken.closed, broken.spaced]⟩

/-- A value with open brackets cannot go on with an operand behind the end of its line, nor
over a separator that is no blank. -/
theorem valueEnd_of_broken (broken : extent.Broken)
    (noOperator : NoOperator separator argumentSeparator)
    {inComment : Bool} {index : Nat} {text : List Char}
    (starts : StartsOperand argumentSeparator (skipSeparatorsFrom separator inComment index text))
    (filled : (skipSeparatorsFrom separator inComment index text).rest ≠ []) :
    ∃ fault, valueEnd separator argumentSeparator inComment extent index text = .error fault := by
  induction inComment, text using scan_induction generalizing extent index with
  | nil => exact absurd rfl filled
  | comment character rest goesOn induction =>
      rw [skipSeparators_comment _ goesOn] at starts filled
      rw [valueEnd_comment _ _ goesOn]
      exact induction broken starts filled
  | opening rest second induction =>
      rw [skipSeparators_opening _ second] at starts filled
      rw [valueEnd_opening _ _ second]
      exact induction (Extent.endLine_broken broken.closed broken.inside) starts filled
  | code inComment character rest ends apart induction =>
      cases inComment with
      | true =>
          cases ends rfl
          rw [skipSeparators_lineEnd] at starts filled
          rw [valueEnd_lineEnd]
          exact induction broken starts filled
      | false =>
          rw [valueEnd_code _ _ apart]
          cases blank : isBlank character with
          | true =>
              rcases broken.read?_blank separator argumentSeparator index blank with
                ⟨after, read, brokenAfter⟩
              rw [skipSeparators_gap _ apart (.inl blank)] at starts filled
              rw [read]
              exact induction brokenAfter starts filled
          | false =>
              have operand : character ≠ ')' ∧
                  continuesValue argumentSeparator character = false := by
                by_cases same : character = separator
                · rw [NoOperator, ← same, blank] at noOperator
                  exact noOperator.resolve_left Bool.false_ne_true
                · rw [skipSeparators_code _ apart blank same] at starts
                  exact starts character rfl
              rcases broken.read?_operand separator index blank operand.1 operand.2 with
                ⟨fault, read⟩
              rw [read]
              exact ⟨fault, rfl⟩

end Gaps

end NumericRules.Grammar
