import NumericRules.Proofs.Grammar.StatementRebinding
import NumericRules.Proofs.Grammar.ValueEnds

/-! # Statement lists of several lines

A text of statements with a line of other statements behind it holds the statements of
both, unless its last value has brackets that the scan for its end takes for open. Then it
goes on in the other line and is refused.
-/

namespace NumericRules.Grammar

open Text

/-! ## What the last value leaves open -/

/-- The cursor before the value of the assignment that is next. -/
def valueStart? (separator : Char) (allowReturn : Bool) (cursor : Cursor) : Option Cursor :=
  if returnAhead separator allowReturn cursor then none
  else match readUpdate (nameAhead separator cursor) cursor.index
      (behindName separator cursor) with
    | .ok (_, afterUpdate) => some afterUpdate.skip
    | .error _ => none

/-- What the scan for the end of the next value knows at the end of the text, if it goes on
so far. -/
def lastExtent? (separator argumentSeparator : Char) (allowReturn : Bool) (cursor : Cursor) :
    Option Extent :=
  (valueStart? separator allowReturn cursor).bind fun value =>
    match Extent.behind separator argumentSeparator false (.before value) value.index
        value.rest with
    | .ok (some (_, extent)) => some extent
    | .ok none => none
    | .error _ => none

/-- Whether the scan for the end of the last value takes brackets for open at the end of the
text. Each statement takes at least one character, so the length of the text is enough
`fuel`. -/
def leavesOpenFrom (vocabulary : Vocabulary ν) (allowReturn : Bool) : Nat → Cursor → Bool
  | 0, _ => false
  | fuel + 1, cursor =>
      let cursor := skipSeparators vocabulary.stepSeparator cursor
      if cursor.rest.isEmpty then false
      else match lastExtent? vocabulary.stepSeparator vocabulary.argumentSeparator allowReturn
          cursor with
        | some extent => 0 < extent.depth
        | none =>
            match readStep vocabulary allowReturn cursor with
            | .ok (_, next) => leavesOpenFrom vocabulary allowReturn fuel next
            | .error _ => false

def leavesOpen (vocabulary : Vocabulary ν) (allowReturn : Bool) (text : List Char) : Bool :=
  leavesOpenFrom vocabulary allowReturn (text.length + 1) (.start text)

/-! ## With another line behind -/

/-- The start of the line behind a text. -/
def Cursor.lineBehind (cursor : Cursor) (back : List Char) : Cursor :=
  ⟨cursor.index + cursor.rest.length + 1, back⟩

theorem Cursor.Spans.lineBehind {start stop : Cursor} {text : List Char}
    (spans : start.Spans text stop) (back : List Char) :
    stop.lineBehind back = start.lineBehind back := by
  rw [Cursor.lineBehind, Cursor.lineBehind, spans.rest, spans.index, List.length_append,
    Nat.add_assoc start.index]

section Followed

variable {separator argumentSeparator : Char} (back : List Char)

theorem cleanCut_line (front : List Char) : CleanCut front ('\n' :: back) :=
  .of_head (by simp)

theorem skip_followed {cursor : Cursor} (found : cursor.skip.rest ≠ []) :
    (cursor.followed ('\n' :: back)).skip = cursor.skip.followed ('\n' :: back) :=
  skipFrom_append (cleanCut_line back _) found

theorem nameAhead_followed (cursor : Cursor) :
    nameAhead separator (cursor.followed ('\n' :: back)) = nameAhead separator cursor := by
  have ends : endsName separator '\n' = true := by
    have blank : isBlank '\n' = true := by decide
    simp [endsName, blank]
  rcases cursor with ⟨index, text⟩
  change (text ++ '\n' :: back).takeWhile _ = text.takeWhile _
  induction text with
  | nil => simp [ends]
  | cons character text induction =>
      rw [List.cons_append, List.takeWhile_cons, List.takeWhile_cons, induction]

theorem behindName_followed {cursor : Cursor} (found : (behindName separator cursor).rest ≠ []) :
    behindName separator (cursor.followed ('\n' :: back)) =
      (behindName separator cursor).followed ('\n' :: back) := by
  have within : (nameAhead separator cursor).length ≤ cursor.rest.length :=
    (List.takeWhile_prefix _).length_le
  rw [behindName, nameAhead_followed, Cursor.advance_followed within]
  exact skip_followed back found

theorem returnAhead_followed (allowReturn : Bool) {cursor : Cursor}
    (found : (behindName separator cursor).rest ≠ []) :
    returnAhead separator allowReturn (cursor.followed ('\n' :: back)) =
      returnAhead separator allowReturn cursor := by
  rw [returnAhead, nameAhead_followed, behindName_followed back found,
    Cursor.next?_followed found]
  rfl

theorem UpdateAt.filled {cursor next : Cursor} {update : Update}
    (updateAt : UpdateAt cursor update next) : cursor.rest ≠ [] := by
  intro empty
  cases updateAt with
  | set isNext _ | compound isNext _ _ =>
      rw [Cursor.next?, empty] at isNext
      cases isNext

theorem UpdateAt.followed {cursor next : Cursor} {update : Update}
    (updateAt : UpdateAt cursor update next) :
    UpdateAt (cursor.followed back) update (next.followed back) := by
  have isNext := (Cursor.next?_followed updateAt.filled back)
  have one : 1 ≤ cursor.rest.length := List.length_pos_iff.mpr updateAt.filled
  cases updateAt with
  | set first sets =>
      rw [← Cursor.advance_followed one]
      exact .set (isNext.trans first) sets
  | compound first isCompound second =>
      rcases List.head?_eq_some_iff.mp second with ⟨others, behind⟩
      have two : 2 ≤ cursor.rest.length := by
        have length := congrArg List.length behind
        rw [List.length_tail, List.length_cons] at length
        omega
      have sameSecond : (cursor.followed back).second? = cursor.second? := by
        rw [Cursor.second?, Cursor.second?, Cursor.followed,
          List.tail_append_of_ne_nil (List.length_pos_iff.mp one), behind]
        rfl
      rw [← Cursor.advance_followed two]
      exact .compound (isNext.trans first) isCompound (sameSecond.trans second)

theorem UpdateAt.unique {cursor next other : Cursor} {update otherUpdate : Update}
    (updateAt : UpdateAt cursor update next) (otherAt : UpdateAt cursor otherUpdate other) :
    otherUpdate = update ∧ other = next := by
  have read : readUpdate [] 0 cursor = .ok (update, next) := readUpdate_iff.mpr updateAt
  have readOther : readUpdate [] 0 cursor = .ok (otherUpdate, other) := readUpdate_iff.mpr otherAt
  cases read.symm.trans readOther
  exact ⟨rfl, rfl⟩

theorem splitFrom_followed {opening depth start index : Nat} {read rest : List Char}
    {found arguments : List Cursor} {stop : Cursor}
    (split : splitFrom separator opening depth start read found index rest =
      .ok (arguments, stop)) :
    splitFrom separator opening depth start read found index (rest ++ back) =
      .ok (arguments, stop.followed back) := by
  induction rest generalizing depth start read found index with
  | nil => cases split
  | cons character rest induction =>
      rw [List.cons_append]
      unfold splitFrom at split ⊢
      dsimp only at split ⊢
      refine ok_of_choice induction (ok_of_choice (ok_of_choice induction ?_) ?_) split
      · refine ok_of_choice (ok_of_choice ?_ ?_) ?_ <;> intro finished <;> cases finished
        · rfl
        · rfl
      · refine ok_of_choice (ok_of_choice ?_ induction) induction
        intro failed
        cases failed

theorem readArguments_followed {cursor stop : Cursor} {arguments : List Cursor}
    (filled : cursor.rest ≠ [])
    (split : readArguments separator cursor = .ok (arguments, stop)) :
    readArguments separator (cursor.followed back) = .ok (arguments, stop.followed back) := by
  have one : 1 ≤ cursor.rest.length := List.length_pos_iff.mpr filled
  rw [readArguments, Cursor.followed, List.drop_append_of_le_length one]
  exact splitFrom_followed back split

/-- Separators are skipped up to the next statement, or into the other line. -/
theorem skipSeparators_followed (cursor : Cursor) :
    skipSeparators separator (cursor.followed ('\n' :: back)) =
      if (skipSeparators separator cursor).rest = [] then
        skipSeparators separator (cursor.lineBehind back)
      else (skipSeparators separator cursor).followed ('\n' :: back) := by
  have further (inComment : Bool) (index last : Nat) (front : List Char)
      (isLast : index + front.length = last) :
      skipSeparatorsFrom separator inComment index (front ++ '\n' :: back) =
        if (skipSeparatorsFrom separator inComment index front).rest = [] then
          skipSeparatorsFrom separator false (last + 1) back
        else (skipSeparatorsFrom separator inComment index front).followed ('\n' :: back) := by
    induction inComment, front using scan_induction generalizing index with
    | nil inComment =>
        cases isLast
        cases inComment with
        | true => exact skipSeparators_lineEnd index
        | false => exact skipSeparators_gap index (by simp) (.inl (by decide))
    | comment character rest goesOn induction =>
        rw [List.cons_append, skipSeparators_comment _ goesOn, skipSeparators_comment _ goesOn]
        exact induction (index + 1) ((Nat.add_right_comm index 1 _).trans isLast)
    | opening rest second induction =>
        have stillSecond := ((cleanCut_line back _).head? rfl).mpr second
        rw [List.cons_append, skipSeparators_opening _ stillSecond, skipSeparators_opening _ second]
        exact induction (index + 1) ((Nat.add_right_comm index 1 _).trans isLast)
    | code inComment character rest ends apart induction =>
        have next := induction (index + 1) ((Nat.add_right_comm index 1 _).trans isLast)
        cases inComment with
        | true =>
            cases ends rfl
            rw [List.cons_append, skipSeparators_lineEnd, skipSeparators_lineEnd]
            exact next
        | false =>
            have stillApart : character = '/' → (rest ++ '\n' :: back).head? ≠ some '/' :=
              fun isSlash second =>
                apart isSlash (((cleanCut_line back _).head? isSlash).mp second)
            by_cases gap : isBlank character = true ∨ character = separator
            · rw [List.cons_append, skipSeparators_gap _ stillApart gap,
                skipSeparators_gap _ apart gap]
              exact next
            · rw [not_or, Bool.not_eq_true] at gap
              rw [List.cons_append, skipSeparators_code _ stillApart gap.1 gap.2,
                skipSeparators_code _ apart gap.1 gap.2]
              exact (if_neg (List.cons_ne_nil _ _)).symm
  exact further false cursor.index _ cursor.rest rfl

end Followed

section Statements

variable {vocabulary : Vocabulary ν} {allowReturn : Bool} {cursor value next : Cursor}
  {target : ν} {update : Update} {step : Step ν}

theorem TargetAt.valueStart? (targetAt : TargetAt vocabulary allowReturn cursor target update value) :
    valueStart? vocabulary.stepSeparator allowReturn cursor = some value := by
  rcases targetAt with ⟨notReturn, ⟨behind, updateAt, rfl⟩, _, _⟩
  rw [Grammar.valueStart?, if_neg (Bool.eq_false_iff.mp notReturn), readUpdate_iff.mpr updateAt]

theorem TargetAt.followed (targetAt : TargetAt vocabulary allowReturn cursor target update value)
    (filled : value.rest ≠ []) (back : List Char) :
    TargetAt vocabulary allowReturn (cursor.followed ('\n' :: back)) target update
      (value.followed ('\n' :: back)) := by
  rcases targetAt with ⟨notReturn, ⟨behind, updateAt, rfl⟩, named, resolved⟩
  have notEnded := updateAt.filled
  refine ⟨?_, ⟨behind.followed ('\n' :: back), ?_, (skip_followed back filled).symm⟩, ?_, ?_⟩
  · rw [returnAhead_followed back _ notEnded, notReturn]
  · rw [behindName_followed back notEnded]
    exact updateAt.followed _
  · rwa [nameAhead_followed]
  · rwa [nameAhead_followed]

theorem TargetAt.unique {otherTarget : ν} {otherUpdate : Update} {other : Cursor}
    (targetAt : TargetAt vocabulary allowReturn cursor target update value)
    (otherAt : TargetAt vocabulary allowReturn cursor otherTarget otherUpdate other) :
    other = value := by
  rcases targetAt.updated with ⟨behind, updateAt, rfl⟩
  rcases otherAt.updated with ⟨otherBehind, otherUpdateAt, rfl⟩
  rw [(updateAt.unique otherUpdateAt).2]

/-- Part of a text is part of the longer text. -/
theorem until_followed {last : Nat} (within : last ≤ value.index + value.rest.length)
    (back : List Char) : (value.followed back).until last = value.until last := by
  have taken : last - value.index ≤ value.rest.length := by omega
  simp only [Cursor.until, Cursor.followed, List.take_append_of_le_length taken]

/-- A return is read up to its closing bracket, whatever follows. -/
theorem returns_followed {arguments : List Cursor}
    (isReturn : returnAhead vocabulary.stepSeparator allowReturn cursor = true)
    (split : readArguments vocabulary.argumentSeparator
      (behindName vocabulary.stepSeparator cursor) = .ok (arguments, next))
    (returnOf : ReturnOf vocabulary arguments step) (back : List Char) :
    StepAt vocabulary allowReturn (cursor.followed ('\n' :: back)) step
      (next.followed ('\n' :: back)) := by
  have filled : (behindName vocabulary.stepSeparator cursor).rest ≠ [] := by
    intro empty
    simp [returnAhead, Cursor.next?, empty] at isReturn
  refine .returns (by rw [returnAhead_followed back _ filled, isReturn]) ?_ returnOf
  rw [behindName_followed back filled]
  exact readArguments_followed _ filled split

/-- The statement a text ends in. -/
structure LastAt (vocabulary : Vocabulary ν) (allowReturn : Bool) (cursor : Cursor)
    (extent : Extent) (target : ν) (update : Update) (value : Cursor) (tree : Formula ν) : Prop where
  targetAt : TargetAt vocabulary allowReturn cursor target update value
  atEnd : ∃ inComment, Extent.behind vocabulary.stepSeparator vocabulary.argumentSeparator false
    (.before value) value.index value.rest = .ok (some (inComment, extent))
  valued : (value.until extent.stop).rest ≠ []
  read : wholeFormula vocabulary (value.until extent.stop) = .ok tree

/-- Where a value goes on to the end of the text, no statement follows. -/
theorem StepAt.last (stepAt : StepAt vocabulary allowReturn cursor step next) {extent : Extent}
    (isLast : lastExtent? vocabulary.stepSeparator vocabulary.argumentSeparator allowReturn cursor =
      some extent) :
    next.rest = [] ∧ ∃ target update value tree, step = .assign ⟨target, update, tree⟩ ∧
      LastAt vocabulary allowReturn cursor extent target update value tree := by
  rcases Option.bind_eq_some_iff.mp isLast with ⟨value, start, behind⟩
  cases stepAt with
  | returns isReturn _ _ =>
      rw [Grammar.valueStart?, if_pos isReturn] at start
      cases start
  | @assigns target update _ _ last tree targetAt scanned valued read =>
      cases start.symm.trans targetAt.valueStart?
      split at behind
      · rename_i inComment after atEnd
        cases behind
        rw [valueEnd_of_behind atEnd] at scanned
        cases scanned
        exact ⟨rfl, target, update, value, tree, rfl, targetAt, ⟨inComment, atEnd⟩, valued, read⟩
      · cases behind
      · cases behind

/-- A statement that ends before the end of the text is the same with another line behind. -/
theorem StepAt.followed (stepAt : StepAt vocabulary allowReturn cursor step next)
    (ends : lastExtent? vocabulary.stepSeparator vocabulary.argumentSeparator allowReturn cursor =
      none) (back : List Char) :
    StepAt vocabulary allowReturn (cursor.followed ('\n' :: back)) step
      (next.followed ('\n' :: back)) := by
  cases stepAt with
  | returns isReturn split returnOf => exact returns_followed isReturn split returnOf back
  | @assigns _ _ value _ last _ targetAt scanned valued read =>
      rw [lastExtent?, targetAt.valueStart?, Option.bind_some] at ends
      rcases valueEnd_spans scanned (Nat.le_refl _) with ⟨within, text, spans⟩
      have withinText : last ≤ value.index + value.rest.length := by
        have length := congrArg List.length spans.rest
        have index := spans.index
        rw [List.length_append] at length
        dsimp only at length index
        omega
      have filled : value.rest ≠ [] := by
        intro empty
        simp [Cursor.until, empty] at valued
      have scannedOn : valueEnd vocabulary.stepSeparator vocabulary.argumentSeparator false
          (.before value) value.index (value.rest ++ '\n' :: back) =
            .ok (last, next.followed ('\n' :: back)) := by
        rw [valueEnd_append (cleanCut_line back _)]
        split at ends
        · cases ends
        · rename_i stops
          rw [stops, scanned]
          rfl
        · rename_i fault failed
          cases (valueEnd_of_behind_error failed).symm.trans scanned
      refine .assigns (targetAt.followed filled back) scannedOn ?_ ?_
      · rwa [until_followed withinText]
      · rwa [until_followed withinText]

variable {extent : Extent} {tree : Formula ν}

theorem LastAt.filled
    (lastAt : LastAt vocabulary allowReturn cursor extent target update value tree) :
    value.rest ≠ [] := by
  intro empty
  apply lastAt.valued
  rw [Cursor.until, empty, List.take_nil]

/-- The last value does not end in an operator. -/
theorem LastAt.isOpen
    (lastAt : LastAt vocabulary allowReturn cursor extent target update value tree)
    (words : ∀ reference ∈ tree.references, vocabulary.WordNamed reference) :
    extent.isOpen = false := by
  rcases lastAt.atEnd with ⟨inComment, atEnd⟩
  exact isOpen_of_wholeFormula atEnd lastAt.read words

/-- The last value ends with its line if it has no open bracket there. -/
theorem LastAt.followed
    (lastAt : LastAt vocabulary allowReturn cursor extent target update value tree)
    (closed : extent.isOpen = false) (outside : extent.depth = 0) {back : List Char}
    (starts : StartsOperand vocabulary.argumentSeparator
      (skipSeparators vocabulary.stepSeparator (cursor.lineBehind back))) :
    StepAt vocabulary allowReturn (cursor.followed ('\n' :: back)) (.assign ⟨target, update, tree⟩)
      (skipSeparators vocabulary.stepSeparator (cursor.lineBehind back)) := by
  rcases lastAt.targetAt.spans with ⟨text, _, spans⟩
  rw [← spans.lineBehind] at starts ⊢
  rcases lastAt.atEnd with ⟨inComment, atEnd⟩
  have scannedOn : valueEnd vocabulary.stepSeparator vocabulary.argumentSeparator false
      (.before value) value.index (value.rest ++ '\n' :: back) =
        .ok (extent.stop, skipSeparators vocabulary.stepSeparator (value.lineBehind back)) := by
    rw [valueEnd_line atEnd]
    exact valueEnd_of_ended (Extent.endLine_ended closed outside) starts
  have within : extent.stop ≤ value.index + value.rest.length :=
    (valueEnd_spans (valueEnd_of_behind atEnd) (Nat.le_refl _)).1
  refine .assigns (lastAt.targetAt.followed lastAt.filled back) scannedOn ?_ ?_
  · rw [until_followed within]
    exact lastAt.valued
  · rw [until_followed within]
    exact lastAt.read

/-- The last value cannot end, nor go on, if it has an open bracket at the end of its line. -/
theorem LastAt.not_followed
    (lastAt : LastAt vocabulary allowReturn cursor extent target update value tree)
    (closed : extent.isOpen = false) (inside : 0 < extent.depth)
    (noOperator : NoOperator vocabulary.stepSeparator vocabulary.argumentSeparator)
    {back : List Char}
    (starts : StartsOperand vocabulary.argumentSeparator
      (skipSeparators vocabulary.stepSeparator (cursor.lineBehind back)))
    (filled : (skipSeparators vocabulary.stepSeparator (cursor.lineBehind back)).rest ≠ [])
    (stepAt : StepAt vocabulary allowReturn (cursor.followed ('\n' :: back)) step next) : False := by
  rcases lastAt.targetAt.spans with ⟨text, _, spans⟩
  rw [← spans.lineBehind] at starts filled
  rcases lastAt.atEnd with ⟨inComment, atEnd⟩
  have followed := lastAt.targetAt.followed lastAt.filled back
  cases stepAt with
  | returns isReturn _ _ =>
      rw [followed.notReturn] at isReturn
      cases isReturn
  | assigns targetAt scanned _ _ =>
      cases followed.unique targetAt
      rcases valueEnd_of_broken (Extent.endLine_broken closed inside) noOperator starts filled with
        ⟨fault, refused⟩
      have scannedOn := (valueEnd_line atEnd back).trans refused
      cases scannedOn.symm.trans scanned

end Statements

/-! ## Two lists -/

section Lists

variable {vocabulary : Vocabulary ν} {allowReturn : Bool} {cursor : Cursor}

theorem startsOperand_of_nameAhead
    (apart : cursor.next? ≠ some vocabulary.argumentSeparator)
    (named : nameAhead vocabulary.stepSeparator cursor ≠ [])
    (words : ∀ character ∈ nameAhead vocabulary.stepSeparator cursor,
      isWordCharacter character = true) :
    StartsOperand vocabulary.argumentSeparator cursor := by
  intro character next
  rcases List.head?_eq_some_iff.mp next with ⟨rest, equal⟩
  have inName : character ∈ nameAhead vocabulary.stepSeparator cursor := by
    rw [nameAhead, equal, List.takeWhile_cons] at named ⊢
    split at named
    · rename_i goesOn
      rw [if_pos goesOn]
      exact List.mem_cons_self ..
    · exact absurd rfl named
  have word := words character inName
  have other : character ≠ vocabulary.argumentSeparator := by
    rintro rfl
    exact apart next
  refine ⟨?_, continuesValue_word other word⟩
  rintro rfl
  exact absurd word (by decide)

/-- A statement begins with a word. -/
theorem StepAt.startsOperand {step : Step ν} {next : Cursor}
    (apart : cursor.next? ≠ some vocabulary.argumentSeparator)
    (stepAt : StepAt vocabulary allowReturn cursor step next)
    (words : ∀ reference ∈ step.mentions, vocabulary.WordNamed reference) :
    StartsOperand vocabulary.argumentSeparator cursor := by
  cases stepAt with
  | returns isReturn _ _ =>
      simp only [returnAhead, Bool.and_eq_true] at isReturn
      rcases word_of_isWord (by decide) isReturn.1.2 with ⟨named, areWord⟩
      exact startsOperand_of_nameAhead apart named areWord
  | @assigns target _ _ _ _ _ targetAt _ _ _ =>
      have areWord := words target (List.mem_cons_self ..) _ targetAt.resolved
      exact startsOperand_of_nameAhead apart targetAt.named (List.all_eq_true.mp areWord)

theorem StepsAt.startsOperand {steps : List (Step ν)}
    (apart : (skipSeparators vocabulary.stepSeparator cursor).next? ≠
      some vocabulary.argumentSeparator)
    (stepsAt : StepsAt vocabulary allowReturn cursor steps)
    (words : ∀ step ∈ steps, ∀ reference ∈ step.mentions, vocabulary.WordNamed reference) :
    StartsOperand vocabulary.argumentSeparator (skipSeparators vocabulary.stepSeparator cursor) := by
  cases stepsAt with
  | nil atEnd =>
      intro character next
      rw [Cursor.next?, atEnd] at next
      cases next
  | cons _ stepAt _ => exact stepAt.startsOperand apart (words _ (List.mem_cons_self ..))

theorem StepsAt.filled {steps : List (Step ν)} (stepsAt : StepsAt vocabulary allowReturn cursor steps)
    (nonempty : steps ≠ []) : (skipSeparators vocabulary.stepSeparator cursor).rest ≠ [] := by
  cases stepsAt with
  | nil _ => exact absurd rfl nonempty
  | cons goesOn _ _ => exact goesOn

theorem leavesOpenFrom_succ {step : Step ν} {next : Cursor} {fuel : Nat}
    (goesOn : (skipSeparators vocabulary.stepSeparator cursor).rest ≠ [])
    (stepAt : StepAt vocabulary allowReturn (skipSeparators vocabulary.stepSeparator cursor) step
      next) :
    leavesOpenFrom vocabulary allowReturn (fuel + 1) cursor =
      match lastExtent? vocabulary.stepSeparator vocabulary.argumentSeparator allowReturn
          (skipSeparators vocabulary.stepSeparator cursor) with
      | some extent => decide (0 < extent.depth)
      | none => leavesOpenFrom vocabulary allowReturn fuel next := by
  rw [leavesOpenFrom, if_neg (mt List.isEmpty_iff.mp goesOn), readStep_iff.mpr stepAt]

theorem lineBehind_skipSeparators (separator : Char) (cursor : Cursor) (back : List Char) :
    (skipSeparators separator cursor).lineBehind back = cursor.lineBehind back := by
  rcases skipSeparators_spans separator cursor with ⟨gap, spans⟩
  exact spans.lineBehind back

theorem StepAt.lineBehind {step : Step ν} {next : Cursor}
    (stepAt : StepAt vocabulary allowReturn (skipSeparators vocabulary.stepSeparator cursor) step
      next) (back : List Char) : next.lineBehind back = cursor.lineBehind back := by
  rcases stepAt.spans with ⟨text, _, spans⟩
  rw [spans.lineBehind, lineBehind_skipSeparators]

variable {first second : List (Step ν)} {fuel : Nat} {back : List Char}

/-- The statements of two texts, the second of which stands on a line behind the first. -/
theorem StepsAt.append
    (firstAt : StepsAt vocabulary allowReturn cursor first) (enough : cursor.rest.length < fuel)
    (closed : leavesOpenFrom vocabulary allowReturn fuel cursor = false)
    (firstWords : ∀ step ∈ first, ∀ reference ∈ step.mentions, vocabulary.WordNamed reference)
    (secondAt : StepsAt vocabulary allowReturn (cursor.lineBehind back) second)
    (apart : (skipSeparators vocabulary.stepSeparator (cursor.lineBehind back)).next? ≠
      some vocabulary.argumentSeparator)
    (secondWords : ∀ step ∈ second, ∀ reference ∈ step.mentions, vocabulary.WordNamed reference) :
    StepsAt vocabulary allowReturn (cursor.followed ('\n' :: back)) (first ++ second) := by
  induction firstAt generalizing fuel with
  | nil atEnd => exact secondAt.of_skipped ((skipSeparators_followed back _).trans (if_pos atEnd))
  | @cons cursor next step others goesOn stepAt othersAt induction =>
      have skipped := (skipSeparators_followed back cursor).trans (if_neg goesOn)
      have goesOnBoth : (skipSeparators vocabulary.stepSeparator
          (cursor.followed ('\n' :: back))).rest ≠ [] := by
        rw [skipped]
        exact List.append_ne_nil_of_left_ne_nil goesOn _
      have shorter := stepAt.shorter
      have within := length_skipSeparators_le vocabulary.stepSeparator cursor
      cases fuel with
      | zero => exact absurd enough (Nat.not_lt_zero _)
      | succ fuel =>
          rw [leavesOpenFrom_succ goesOn stepAt] at closed
          split at closed
          · rename_i extent isLast
            rcases stepAt.last isLast with ⟨atEnd, target, update, value, tree, rfl, lastAt⟩
            have isClosed := lastAt.isOpen fun reference mentioned =>
              firstWords _ (List.mem_cons_self ..) reference (List.mem_cons_of_mem _ mentioned)
            have outside : extent.depth = 0 := by simpa using closed
            have starts := secondAt.startsOperand apart secondWords
            rw [← lineBehind_skipSeparators vocabulary.stepSeparator] at secondAt starts
            rw [othersAt.eq_nil atEnd]
            refine .cons goesOnBoth ?_ (secondAt.of_skipped (skipSeparators_skipSeparatorsFrom ..))
            rw [skipped]
            exact lastAt.followed isClosed outside starts
          · rename_i ends
            rw [← stepAt.lineBehind] at secondAt apart
            refine .cons goesOnBoth ?_ (induction (by omega) closed (fun step inside =>
              firstWords step (List.mem_cons_of_mem _ inside)) secondAt apart)
            rw [skipped]
            exact stepAt.followed ends back

/-- No statements stand in two texts whose first leaves a bracket open, for the second would
go on with its last value. -/
theorem StepsAt.not_append
    (noOperator : NoOperator vocabulary.stepSeparator vocabulary.argumentSeparator)
    (firstAt : StepsAt vocabulary allowReturn cursor first) (enough : cursor.rest.length < fuel)
    (isOpen : leavesOpenFrom vocabulary allowReturn fuel cursor = true)
    (firstWords : ∀ step ∈ first, ∀ reference ∈ step.mentions, vocabulary.WordNamed reference)
    (secondAt : StepsAt vocabulary allowReturn (cursor.lineBehind back) second)
    (apart : (skipSeparators vocabulary.stepSeparator (cursor.lineBehind back)).next? ≠
      some vocabulary.argumentSeparator)
    (secondWords : ∀ step ∈ second, ∀ reference ∈ step.mentions, vocabulary.WordNamed reference)
    (nonempty : second ≠ []) {steps : List (Step ν)}
    (joinedAt : StepsAt vocabulary allowReturn (cursor.followed ('\n' :: back)) steps) : False := by
  induction firstAt generalizing fuel steps with
  | nil atEnd =>
      cases fuel with
      | zero => cases isOpen
      | succ fuel =>
          rw [leavesOpenFrom, if_pos (List.isEmpty_iff.mpr atEnd)] at isOpen
          cases isOpen
  | @cons cursor next step others goesOn stepAt othersAt induction =>
      have skipped := (skipSeparators_followed back cursor).trans (if_neg goesOn)
      have shorter := stepAt.shorter
      have within := length_skipSeparators_le vocabulary.stepSeparator cursor
      cases fuel with
      | zero => exact absurd enough (Nat.not_lt_zero _)
      | succ fuel =>
          rw [leavesOpenFrom_succ goesOn stepAt] at isOpen
          cases joinedAt with
          | nil atEnd =>
              rw [skipped] at atEnd
              exact List.append_ne_nil_of_left_ne_nil goesOn _ atEnd
          | cons _ joinedStepAt joinedOthersAt =>
              rw [skipped] at joinedStepAt
              split at isOpen
              · rename_i extent isLast
                rcases stepAt.last isLast with ⟨_, target, update, value, tree, rfl, lastAt⟩
                have isClosed := lastAt.isOpen fun reference mentioned =>
                  firstWords _ (List.mem_cons_self ..) reference
                    (List.mem_cons_of_mem _ mentioned)
                have starts := secondAt.startsOperand apart secondWords
                have filled := secondAt.filled nonempty
                rw [← lineBehind_skipSeparators vocabulary.stepSeparator] at starts filled
                exact lastAt.not_followed isClosed (of_decide_eq_true isOpen) noOperator starts
                  filled joinedStepAt
              · rename_i ends
                rw [← stepAt.lineBehind] at secondAt apart
                cases ((stepAt.followed ends back).unique joinedStepAt).2
                exact induction (by omega) isOpen (fun step inside =>
                  firstWords step (List.mem_cons_of_mem _ inside)) secondAt apart joinedOthersAt

end Lists

/-! ## Two texts -/

/-- The first character of code in a text of statements. -/
def firstCode? (separator : Char) (text : List Char) : Option Char :=
  (skipSeparators separator (.start text)).next?

/-- The line behind a text is another text further on. -/
theorem lineBehind_start (front back : List Char) :
    (Cursor.start front).lineBehind back = (Cursor.start back).moved (front.length + 1) := rfl

section Texts

variable {vocabulary : Vocabulary ν} {allowReturn : Bool} {front back : List Char}
  {first second : List (Step ν)}
  (apart : firstCode? vocabulary.stepSeparator back ≠ some vocabulary.argumentSeparator)
  (firstWords : ∀ step ∈ first, ∀ reference ∈ step.mentions, vocabulary.WordNamed reference)
  (secondWords : ∀ step ∈ second, ∀ reference ∈ step.mentions, vocabulary.WordNamed reference)

include apart firstWords secondWords

/-- The statements of two lines are those of both, unless the first leaves a bracket open.
Then there are none, but where the separator of statements is an operator. -/
theorem StepsAt.lines (firstAt : StepsAt vocabulary allowReturn (.start front) first)
    (secondAt : StepsAt vocabulary allowReturn (.start back) second) (filled : second ≠ []) :
    (leavesOpen vocabulary allowReturn front = false →
      StepsAt vocabulary allowReturn (.start (front ++ '\n' :: back)) (first ++ second)) ∧
    (leavesOpen vocabulary allowReturn front = true →
      NoOperator vocabulary.stepSeparator vocabulary.argumentSeparator →
      ∀ steps, ¬ StepsAt vocabulary allowReturn (.start (front ++ '\n' :: back)) steps) := by
  have onLine := secondAt.moved (front.length + 1)
  have apartOnLine : (skipSeparators vocabulary.stepSeparator
      ((Cursor.start back).moved (front.length + 1))).next? ≠
        some vocabulary.argumentSeparator := by
    rwa [skipSeparators_moved, Cursor.next?_moved]
  rw [← lineBehind_start] at onLine apartOnLine
  exact ⟨fun closed => firstAt.append (Nat.lt_succ_self _) closed firstWords onLine apartOnLine
      secondWords,
    fun isOpen noOperator _ => firstAt.not_append noOperator (Nat.lt_succ_self _) isOpen firstWords
      onLine apartOnLine secondWords filled⟩

/-- Two processes are one process of two lines. -/
theorem wholeProcess_lines (readFirst : wholeProcess vocabulary front = .ok first)
    (readSecond : wholeProcess vocabulary back = .ok second) :
    (leavesOpen vocabulary true front = false →
      wholeProcess vocabulary (front ++ '\n' :: back) = .ok (first ++ second)) ∧
    (leavesOpen vocabulary true front = true →
      NoOperator vocabulary.stepSeparator vocabulary.argumentSeparator →
      ∃ fault, wholeProcess vocabulary (front ++ '\n' :: back) = .error fault) := by
  rcases wholeProcess_iff.mp readFirst with ⟨nonempty, firstAt⟩
  rcases wholeProcess_iff.mp readSecond with ⟨filled, secondAt⟩
  rcases firstAt.lines apart firstWords secondWords secondAt filled with ⟨both, none⟩
  constructor
  · intro closed
    exact wholeProcess_iff.mpr ⟨List.append_ne_nil_of_left_ne_nil nonempty _, both closed⟩
  · intro isOpen noOperator
    cases outcome : wholeProcess vocabulary (front ++ '\n' :: back) with
    | error fault => exact ⟨fault, rfl⟩
    | ok steps => exact (none isOpen noOperator steps (wholeProcess_iff.mp outcome).2).elim

end Texts

/-- Two lists of operations are one list of two lines. -/
theorem wholeOperations_lines {vocabulary : Vocabulary ν} {front back : List Char}
    {first second : List (Assignment ν)}
    (apart : firstCode? vocabulary.stepSeparator back ≠ some vocabulary.argumentSeparator)
    (firstWords : ∀ assignment ∈ first, ∀ reference ∈ assignment.mentions,
      vocabulary.WordNamed reference)
    (secondWords : ∀ assignment ∈ second, ∀ reference ∈ assignment.mentions,
      vocabulary.WordNamed reference)
    (readFirst : wholeOperations vocabulary front = .ok first)
    (readSecond : wholeOperations vocabulary back = .ok second) :
    (leavesOpen vocabulary false front = false →
      wholeOperations vocabulary (front ++ '\n' :: back) = .ok (first ++ second)) ∧
    (leavesOpen vocabulary false front = true →
      NoOperator vocabulary.stepSeparator vocabulary.argumentSeparator →
      ∃ fault, wholeOperations vocabulary (front ++ '\n' :: back) = .error fault) := by
  rcases wholeOperations_iff.mp readFirst with ⟨nonempty, firstAt⟩
  rcases wholeOperations_iff.mp readSecond with ⟨filled, secondAt⟩
  rcases firstAt.lines apart (List.forall_mem_map.mpr firstWords)
    (List.forall_mem_map.mpr secondWords) secondAt (mt List.map_eq_nil_iff.mp filled) with
    ⟨both, none⟩
  rw [← List.map_append] at both
  constructor
  · intro closed
    exact wholeOperations_iff.mpr ⟨List.append_ne_nil_of_left_ne_nil nonempty _, both closed⟩
  · intro isOpen noOperator
    cases outcome : wholeOperations vocabulary (front ++ '\n' :: back) with
    | error fault => exact ⟨fault, rfl⟩
    | ok steps => exact (none isOpen noOperator _ (wholeOperations_iff.mp outcome).2).elim

end NumericRules.Grammar
