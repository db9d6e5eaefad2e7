import NumericRules.Proofs.Grammar.Soundness
import NumericRules.Proofs.Grammar.StatementReading
import NumericRules.Proofs.Grammar.ValueScan

/-! # How formulas end

The last character of a formula that stands in no gap closes a bracket or is one of a
number or a name, so no formula ends in an operator. A value is not open where it ends.
-/

namespace NumericRules.Grammar

open Text

/-! ## Gaps that are skipped to their end -/

theorem skipped_tail {known : Bool} {index : Nat} {character : Char} {rest : List Char}
    (skipped : (Cursor.skipFrom known index (character :: rest)).rest = []) :
    ∃ known, (Cursor.skipFrom known (index + 1) rest).rest = [] := by
  unfold Cursor.skipFrom at skipped
  split at skipped
  · exact ⟨_, skipped⟩
  · split at skipped
    · exact ⟨_, skipped⟩
    · split at skipped
      · exact ⟨_, skipped⟩
      · cases skipped

/-- What is skipped to its end is blank but for comments, also where it begins in a comment
that is not known of. -/
theorem blank_of_skipped {known inComment : Bool} {index : Nat} {gap : List Char}
    (covers : known = true → inComment = true)
    (skipped : (Cursor.skipFrom known index gap).rest = []) :
    (blankFrom inComment gap).all isBlank = true := by
  have space : isBlank ' ' = true := by decide
  induction inComment, gap using scan_induction generalizing known index with
  | nil => rfl
  | comment character rest goesOn induction =>
      rcases skipped_tail skipped with ⟨still, skipped⟩
      rw [blankFrom_comment goesOn, List.all_cons, space, induction (fun _ => rfl) skipped]
      rfl
  | opening rest second induction =>
      rcases skipped_tail skipped with ⟨still, skipped⟩
      rw [blankFrom_opening second, List.all_cons, space, induction (fun _ => rfl) skipped]
      rfl
  | code inComment character rest ends apart induction =>
      have endsKnown : known = true → character = '\n' := fun isKnown => ends (covers isKnown)
      rw [blankFrom_code ends apart, List.all_cons]
      cases blank : isBlank character with
      | true =>
          rw [skipFrom_blank index endsKnown blank] at skipped
          rw [induction (by simp) skipped]
          rfl
      | false =>
          rw [skipFrom_code index endsKnown apart blank] at skipped
          cases skipped

/-! ## The last character -/

/-- Some text ends in a character behind which no value goes on. -/
def EndsClosed (argumentSeparator : Char) (text : List Char) : Prop :=
  ∃ front last, text = front ++ [last] ∧
    (last = ')' ∨ continuesValue argumentSeparator last = false)

/-- Every name that stands for the reference is of letters, digits and underscores. -/
def Vocabulary.WordNamed (vocabulary : Vocabulary ν) (reference : ν) : Prop :=
  ∀ name, vocabulary.resolve? (String.ofList name) = some reference →
    name.all isWordCharacter = true

theorem EndsClosed.append {argumentSeparator : Char} {text : List Char}
    (ends : EndsClosed argumentSeparator text) (before : List Char) :
    EndsClosed argumentSeparator (before ++ text) := by
  rcases ends with ⟨front, last, rfl, closed⟩
  exact ⟨before ++ front, last, (List.append_assoc ..).symm, closed⟩

theorem EndsClosed.bracketed (argumentSeparator : Char) (inner : List Char) :
    EndsClosed argumentSeparator (bracketed inner) :=
  ⟨'(' :: inner, ')', rfl, .inl rfl⟩

theorem EndsClosed.signed {argumentSeparator : Char} {text : List Char}
    (ends : EndsClosed argumentSeparator text) (negative : Bool) :
    EndsClosed argumentSeparator (signed negative text) := by
  cases negative with
  | true => exact ends.append ['-']
  | false => exact ends

theorem references_negateIf (negative : Bool) (formula : Formula ν) :
    (negateIf negative formula).references = formula.references := by
  cases negative <;> rfl

section Ends

variable {vocabulary : Vocabulary ν}

/-- Words and numbers leave no value open, for the separator of arguments is in no token. -/
theorem EndsClosed.of_token {separator : Char} {token : List Char} (filled : token ≠ [])
    (areToken : token.all (isTokenCharacter separator) = true)
    (areOperand : ∀ character ∈ token, isWordCharacter character = true ∨ character = '.') :
    EndsClosed separator token := by
  rcases List.eq_nil_or_concat token with rfl | ⟨front, last, rfl⟩
  · exact absurd rfl filled
  · have isLast : last ∈ front.concat last := by simp
    have isToken := List.all_eq_true.mp areToken last isLast
    have other : last ≠ separator := by
      rintro rfl
      simp [isTokenCharacter, endsToken] at isToken
    refine ⟨front, last, by rw [List.concat_eq_append], .inr ?_⟩
    rcases areOperand last isLast with word | rfl
    · exact continuesValue_word other word
    · simp [continuesValue, other]

/-- A number, a name or a call ends in a bracket or in the last character of its token. -/
theorem endsClosed_of_readAtom {deeper : Option (Deeper ν)} (reads : DeeperReads vocabulary deeper)
    {after : Option Operator} {cursor stop : Cursor} {tree : Formula ν}
    (outcome : readAtom vocabulary deeper after cursor = .ok (tree, stop))
    (named : ∀ reference ∈ tree.references, vocabulary.WordNamed reference) :
    ∃ text, cursor.Spans text stop ∧ EndsClosed vocabulary.argumentSeparator text := by
  rcases ok_of_bind outcome with ⟨⟨token, middle⟩, tokenRead, outcome⟩
  rcases readToken_eq_ok tokenRead with ⟨negative, body, rfl, areBody, spans, _⟩
  simp only [head?_signed areBody, Bool.decide_eq_true, tail_signed] at outcome
  split at outcome
  · rename_i numeric
    split at outcome
    · cases outcome
      rcases (isNumeric_iff body).mp numeric with ⟨filled, digits⟩
      exact ⟨_, spans, (EndsClosed.of_token filled areBody fun character inside =>
        (digits character inside).imp_left isWordCharacter_of_isDigit).signed negative⟩
    · cases outcome
  · split at outcome
    · split at outcome
      · rename_i opens
        simp only [Bool.and_eq_true, decide_eq_true_eq] at opens
        rcases ok_of_bind outcome with ⟨⟨inner, behind⟩, group, outcome⟩
        cases outcome
        have innerReads : ∀ inner, deeper = some inner → Reads vocabulary .sum inner.formula :=
          fun inner present => (reads inner present).1
        rcases readGroup_eq_ok innerReads opens.2 group with ⟨text, groupSpans, _⟩
        exact ⟨_, spans.trans groupSpans, (EndsClosed.bracketed _ _).append _⟩
      · cases outcome
    · rename_i notNumeric filled
      have isToken : body.all (isTokenCharacter vocabulary.argumentSeparator) = true ∧ body ≠ [] ∧
          isNumeric body = false :=
        ⟨areBody, mt List.isEmpty_iff.mpr filled, Bool.eq_false_iff.mpr notNumeric⟩
      split at outcome
      · rename_i opens
        rcases ok_of_bind outcome with ⟨⟨call, behind⟩, called, outcome⟩
        cases outcome
        rcases readCall_eq_ok reads isToken opens called with ⟨inner, callSpans, _⟩
        exact ⟨_, spans.trans callSpans, (EndsClosed.bracketed _ _).append _⟩
      · rcases ok_of_bind outcome with ⟨reference, resolved, outcome⟩
        cases outcome
        have mentioned : reference ∈ (negateIf negative (.name reference)).references := by
          rw [references_negateIf]
          exact List.mem_singleton_self _
        have areWord := named reference mentioned body (resolve_iff.mp resolved)
        exact ⟨_, spans, (EndsClosed.of_token isToken.2.1 areBody fun character inside =>
          .inl (List.all_eq_true.mp areWord character inside)).signed negative⟩

theorem endsClosed_of_readOperand {deeper : Option (Deeper ν)}
    (reads : DeeperReads vocabulary deeper) {after : Option Operator} {cursor stop : Cursor}
    {tree : Formula ν} (outcome : readOperand vocabulary deeper after cursor = .ok (tree, stop))
    (named : ∀ reference ∈ tree.references, vocabulary.WordNamed reference) :
    ∃ text, cursor.Spans text stop ∧ EndsClosed vocabulary.argumentSeparator text := by
  rcases Cursor.skip_spans cursor with ⟨gap, gapSpans, _⟩
  unfold readOperand at outcome
  dsimp only at outcome
  split at outcome
  · cases outcome
  · cases outcome
  · rename_i opens
    have innerReads : ∀ inner, deeper = some inner → Reads vocabulary .sum inner.formula :=
      fun inner present => (reads inner present).1
    rcases readGroup_eq_ok innerReads opens outcome with ⟨text, spans, _⟩
    exact ⟨_, gapSpans.trans spans, (EndsClosed.bracketed _ _).append gap⟩
  · rcases endsClosed_of_readAtom reads outcome named with ⟨text, spans, ends⟩
    exact ⟨_, gapSpans.trans spans, ends.append gap⟩

/-! ## Chains -/

theorem references_push (chain : Chain ν) (operator : Operator) (term : Formula ν) :
    (chain.push operator term).finish.references =
      chain.finish.references ++ term.references := by
  rcases chain with ⟨left, _ | ⟨pending, right⟩, leftDepth, rightDepth⟩
  · rfl
  · unfold Chain.push
    dsimp only
    split
    · rfl
    · simp [Chain.finish, Formula.references]

/-- What has been read of a chain stays in its tree. -/
theorem references_readChain {deeper : Option (Deeper ν)} {budget fuel : Nat} {chain : Chain ν}
    {cursor stop : Cursor} {tree : Formula ν}
    (outcome : readChain vocabulary deeper budget fuel chain cursor = .ok (tree, stop)) :
    ∀ reference ∈ chain.finish.references, reference ∈ tree.references := by
  induction fuel generalizing chain cursor with
  | zero =>
      cases outcome
      exact fun _ mentioned => mentioned
  | succ fuel induction =>
      unfold readChain at outcome
      dsimp only at outcome
      split at outcome
      · cases outcome
        exact fun _ mentioned => mentioned
      · cases outcome
        exact fun _ mentioned => mentioned
      · split at outcome
        · cases outcome
        · rename_i operator _
          rcases ok_of_bind outcome with ⟨⟨term, behind⟩, _, outcome⟩
          dsimp only at outcome
          split at outcome
          · cases outcome
          · intro reference mentioned
            apply induction outcome
            rw [references_push]
            exact List.mem_append_left _ mentioned

/-- Behind the last operand of a chain only a gap is read. -/
theorem endsClosed_of_readChain {deeper : Option (Deeper ν)} (reads : DeeperReads vocabulary deeper)
    {budget fuel : Nat} {chain : Chain ν} {start cursor stop : Cursor} {text : List Char}
    {tree : Formula ν} (spans : start.Spans text cursor)
    (ends : EndsClosed vocabulary.argumentSeparator text) (enough : cursor.rest.length < fuel)
    (outcome : readChain vocabulary deeper budget fuel chain cursor = .ok (tree, stop))
    (named : ∀ reference ∈ tree.references, vocabulary.WordNamed reference) :
    ∃ text last, start.Spans text last ∧ EndsClosed vocabulary.argumentSeparator text ∧
      stop = last.skip := by
  induction fuel generalizing chain cursor text with
  | zero => exact absurd enough (Nat.not_lt_zero _)
  | succ fuel induction =>
      unfold readChain at outcome
      dsimp only at outcome
      split at outcome
      · cases outcome
        exact ⟨text, cursor, spans, ends, rfl⟩
      · cases outcome
        exact ⟨text, cursor, spans, ends, rfl⟩
      · rename_i symbol next
        split at outcome
        · cases outcome
        · rename_i operator _
          rcases ok_of_bind outcome with ⟨⟨term, behind⟩, readTerm, outcome⟩
          dsimp only at outcome
          split at outcome
          · cases outcome
          · have mentioned : ∀ reference ∈ term.references, reference ∈ tree.references := by
              intro reference inTerm
              apply references_readChain outcome
              rw [references_push]
              exact List.mem_append_right _ inTerm
            rcases endsClosed_of_readOperand reads readTerm
              (fun reference inTerm => named reference (mentioned reference inTerm)) with
              ⟨operand, operandSpans, operandEnds⟩
            rcases Cursor.skip_spans cursor with ⟨gap, gapSpans, _⟩
            have further := (gapSpans.trans (Cursor.spans_next next)).trans operandSpans
            have shorter : behind.rest.length < fuel := by
              have lengths := congrArg List.length further.rest
              simp only [List.length_append, List.length_singleton] at lengths
              omega
            exact induction (spans.trans further) ((operandEnds.append _).append _) shorter outcome

/-- Behind the last operand of a formula only a gap is read. -/
theorem endsClosed_of_readFormula {deeper : Option (Deeper ν)}
    (reads : DeeperReads vocabulary deeper) {budget : Nat} {cursor stop : Cursor}
    {tree : Formula ν} (outcome : readFormula vocabulary deeper budget cursor = .ok (tree, stop))
    (named : ∀ reference ∈ tree.references, vocabulary.WordNamed reference) :
    ∃ text last, cursor.Spans text last ∧ EndsClosed vocabulary.argumentSeparator text ∧
      stop = last.skip := by
  rcases Cursor.skip_spans cursor with ⟨gap, gapSpans, _⟩
  have chain {term : Formula ν} {behind : Cursor}
      (readTerm : readOperand vocabulary deeper none cursor.skip = .ok (term, behind))
      (outcome : readChain vocabulary deeper budget (behind.rest.length + 1) (.start term) behind =
        .ok (tree, stop)) :
      ∃ text last, cursor.Spans text last ∧ EndsClosed vocabulary.argumentSeparator text ∧
        stop = last.skip := by
    rcases endsClosed_of_readOperand reads readTerm (fun reference inTerm =>
      named reference (references_readChain outcome reference inTerm)) with
      ⟨operand, operandSpans, operandEnds⟩
    exact endsClosed_of_readChain reads (gapSpans.trans operandSpans)
      (operandEnds.append gap) (Nat.lt_succ_self _) outcome named
  unfold readFormula at outcome
  dsimp only at outcome
  split at outcome
  · cases outcome
  · cases outcome
  · split at outcome
    · rcases ok_of_bind outcome with ⟨⟨term, behind⟩, readTerm, outcome⟩
      exact chain readTerm outcome
    · rcases ok_of_bind outcome with ⟨⟨term, behind⟩, readTerm, outcome⟩
      exact chain readTerm outcome
    · cases outcome

/-- A formula is closed text with a gap behind it. -/
theorem endsClosed_of_wholeFormula {cursor : Cursor} {tree : Formula ν}
    (read : wholeFormula vocabulary cursor = .ok tree)
    (named : ∀ reference ∈ tree.references, vocabulary.WordNamed reference) :
    ∃ text gap index, cursor.rest = text ++ gap ∧
      EndsClosed vocabulary.argumentSeparator text ∧
      (Cursor.skipFrom false index gap).rest = [] := by
  rcases whole_eq_ok read with ⟨stop, parsed, atEnd⟩
  have parts : ∃ text last, cursor.Spans text last ∧
      EndsClosed vocabulary.argumentSeparator text ∧ stop = last.skip := by
    cases budget : vocabulary.nestingLimit with
    | zero =>
        rw [budget, formula] at parsed
        have reads : DeeperReads vocabulary none := fun inner isInner => by cases isInner
        exact endsClosed_of_readFormula reads parsed named
    | succ budget' =>
        rw [budget, formula] at parsed
        have reads : DeeperReads vocabulary
            (some ⟨formula vocabulary budget', condition vocabulary budget'⟩) := by
          rintro inner isInner
          cases isInner
          exact formula_condition_reads vocabulary budget'
        exact endsClosed_of_readFormula reads parsed named
  rcases parts with ⟨text, last, spans, ends, rfl⟩
  rw [Cursor.skip_skip] at atEnd
  exact ⟨text, last.rest, last.index, spans.rest, ends, atEnd⟩

/-! ## Values -/

/-- No formula ends in an operator. -/
theorem not_endsInOperator_of_wholeFormula {inComment : Bool} {index start stop : Nat}
    {text : List Char} {tree : Formula ν}
    (read : wholeFormula vocabulary ⟨start, text.take (stop - index)⟩ = .ok tree)
    (named : ∀ reference ∈ tree.references, vocabulary.WordNamed reference) :
    ¬ EndsInOperator vocabulary.argumentSeparator inComment index stop text := by
  rintro ⟨front, operator, back, rfl, rfl, last, notBlank, notClosing, continues⟩
  have taken : (front ++ operator :: back).take (index + front.length + 1 - index) =
      front ++ [operator] := by
    rw [Nat.add_assoc, Nat.add_sub_cancel_left, List.append_cons, List.take_left']
    simp
  rw [taken] at read
  rcases endsClosed_of_wholeFormula read named with
    ⟨text, gap, place, split, ⟨body, final, rfl, closed⟩, skipped⟩
  dsimp only at split
  have clean : CleanCut (body ++ [final]) gap := by
    intro isSlash
    rw [List.getLast?_concat] at isSlash
    cases isSlash
    rcases closed with impossible | impossible
    · exact absurd impossible (by decide)
    · simp [continuesValue] at impossible
  rcases blankFrom_append inComment clean with ⟨inside, blanked⟩
  have gapBlank : (blankFrom inside gap).all isBlank = true :=
    blank_of_skipped (by simp) skipped
  cases gap with
  | nil =>
      have same := congrArg List.getLast? split
      rw [List.append_nil, List.getLast?_concat, List.getLast?_concat] at same
      cases same
      rcases closed with isClosing | isClosed
      · exact notClosing isClosing
      · rw [continues] at isClosed
        cases isClosed
  | cons character gap =>
      have filled : blankFrom inside (character :: gap) ≠ [] := by
        rw [← List.length_pos_iff, length_blankFrom]
        exact Nat.succ_pos _
      rw [split, blanked, List.getLast?_append_of_ne_nil _ filled] at last
      have blank := List.all_eq_true.mp gapBlank operator (List.mem_of_getLast? last)
      rw [blank] at notBlank
      cases notBlank

/-- Where a formula ends a text, its value is not open. -/
theorem isOpen_of_wholeFormula {separator : Char} {ends : Bool} {after : Extent} {cursor : Cursor}
    {tree : Formula ν}
    (atEnd : Extent.behind separator vocabulary.argumentSeparator false { stop := cursor.index }
      cursor.index cursor.rest = .ok (some (ends, after)))
    (read : wholeFormula vocabulary ⟨cursor.index, cursor.rest.take (after.stop - cursor.index)⟩ =
      .ok tree)
    (named : ∀ reference ∈ tree.references, vocabulary.WordNamed reference) :
    after.isOpen = false := by
  rw [← Bool.not_eq_true]
  intro isOpen
  rcases isOpen_of_behind atEnd isOpen with ⟨impossible, _⟩ | endsInOperator
  · cases impossible
  · exact not_endsInOperator_of_wholeFormula read named endsInOperator

end Ends

end NumericRules.Grammar
