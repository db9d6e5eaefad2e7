import NumericRules.Proofs.Grammar.ValueScan

/-! # What statements are read

A statement is a return or an assignment, each with the parts that stand for it in the
text. The statements of a text are read one after another to its end.
-/

namespace NumericRules.Grammar

open Text

/-! ## One statement -/

def nameAhead (separator : Char) (cursor : Cursor) : List Char :=
  cursor.rest.takeWhile fun character => !endsName separator character

/-- The cursor before what follows the name that is next. -/
def behindName (separator : Char) (cursor : Cursor) : Cursor :=
  (cursor.advance (nameAhead separator cursor).length).skip

def returnAhead (separator : Char) (allowReturn : Bool) (cursor : Cursor) : Bool :=
  allowReturn && isWord "return" (nameAhead separator cursor) &&
    (behindName separator cursor).next? = some '('

/-- The update that stands at a cursor, and what follows it. -/
inductive UpdateAt (cursor : Cursor) : Update → Cursor → Prop
  | set {symbol : Char} : cursor.next? = some symbol → symbol = '=' ∨ symbol = ':' →
      UpdateAt cursor .set (cursor.advance 1)
  | compound {symbol : Char} {update : Update} : cursor.next? = some symbol →
      Update.compound? symbol = some update → cursor.second? = some '=' →
      UpdateAt cursor update (cursor.advance 2)

/-- What a return is with its arguments. -/
inductive ReturnOf (vocabulary : Vocabulary ν) : List Cursor → Step ν → Prop
  | always {value : Cursor} {tree : Formula ν} :
      wholeFormula vocabulary value = .ok tree → ReturnOf vocabulary [value] (.return none tree)
  | tested {test value : Cursor} {testTree : Condition ν} {tree : Formula ν} :
      wholeCondition vocabulary test = .ok testTree → wholeFormula vocabulary value = .ok tree →
      ReturnOf vocabulary [test, value] (.return (some testTree) tree)

/-- The extent of a value before its first character. -/
def Extent.before (cursor : Cursor) : Extent := { stop := cursor.index }

/-- The part of the text from a cursor up to an index. -/
def Cursor.until (cursor : Cursor) (stop : Nat) : Cursor :=
  ⟨cursor.index, cursor.rest.take (stop - cursor.index)⟩

/-- The target and the update of the assignment that stands at a cursor, and where its
value does. -/
structure TargetAt (vocabulary : Vocabulary ν) (allowReturn : Bool) (cursor : Cursor) (target : ν)
    (update : Update) (value : Cursor) : Prop where
  notReturn : returnAhead vocabulary.stepSeparator allowReturn cursor = false
  updated : ∃ behind, UpdateAt (behindName vocabulary.stepSeparator cursor) update behind ∧
    value = behind.skip
  named : nameAhead vocabulary.stepSeparator cursor ≠ []
  resolved : vocabulary.resolve? (String.ofList (nameAhead vocabulary.stepSeparator cursor)) =
    some target

/-- The statement that stands at a cursor, and where the next one does. -/
inductive StepAt (vocabulary : Vocabulary ν) (allowReturn : Bool) (cursor : Cursor) :
    Step ν → Cursor → Prop
  | returns {arguments : List Cursor} {step : Step ν} {next : Cursor} :
      returnAhead vocabulary.stepSeparator allowReturn cursor = true →
      readArguments vocabulary.argumentSeparator (behindName vocabulary.stepSeparator cursor) =
        .ok (arguments, next) →
      ReturnOf vocabulary arguments step → StepAt vocabulary allowReturn cursor step next
  | assigns {target : ν} {update : Update} {value next : Cursor} {last : Nat} {tree : Formula ν} :
      TargetAt vocabulary allowReturn cursor target update value →
      valueEnd vocabulary.stepSeparator vocabulary.argumentSeparator false (.before value)
        value.index value.rest = .ok (last, next) →
      (value.until last).rest ≠ [] → wholeFormula vocabulary (value.until last) = .ok tree →
      StepAt vocabulary allowReturn cursor (.assign ⟨target, update, tree⟩) next

section Statements

variable {vocabulary : Vocabulary ν} {allowReturn : Bool} {cursor next : Cursor} {step : Step ν}

theorem readUpdate_iff {name : List Char} {start : Nat} {update : Update} :
    readUpdate name start cursor = .ok (update, next) ↔ UpdateAt cursor update next := by
  constructor
  · intro read
    unfold readUpdate at read
    split at read
    · cases read
    · rename_i symbol isNext
      split at read
      · cases read
      · split at read
        · rename_i sets
          cases read
          exact .set isNext (by simpa using sets)
        · split at read
          · rename_i update isCompound
            split at read
            · rename_i second
              cases read
              exact .compound isNext isCompound second
            · cases read
          · cases read
  · intro updateAt
    cases updateAt with
    | set isNext sets =>
        rcases sets with rfl | rfl <;> simp [readUpdate, isNext] <;> rfl
    | @compound symbol _ isNext isCompound second =>
        have notOpening : symbol ≠ '(' := by
          rintro rfl
          cases isCompound
        have notEquals : symbol ≠ '=' := by
          rintro rfl
          cases isCompound
        have notColon : symbol ≠ ':' := by
          rintro rfl
          cases isCompound
        simp [readUpdate, isNext, notOpening, notEquals, notColon, isCompound, second]
        rfl

theorem readReturn_iff :
    readReturn vocabulary cursor = .ok (step, next) ↔
      ∃ arguments, readArguments vocabulary.argumentSeparator cursor = .ok (arguments, next) ∧
        ReturnOf vocabulary arguments step := by
  constructor
  · intro read
    rcases ok_of_bind read with ⟨⟨arguments, behind⟩, split, read⟩
    dsimp only at read
    split at read
    · rcases ok_of_bind read with ⟨value, readValue, read⟩
      cases read
      exact ⟨_, split, .always readValue⟩
    · rcases ok_of_bind read with ⟨test, readTest, read⟩
      rcases ok_of_bind read with ⟨value, readValue, read⟩
      cases read
      exact ⟨_, split, .tested readTest readValue⟩
    · cases read
  · rintro ⟨arguments, split, isReturn⟩
    rw [readReturn, bind_of_ok split]
    cases isReturn with
    | always readValue =>
        dsimp only
        rw [bind_of_ok readValue]
        rfl
    | tested readTest readValue =>
        dsimp only
        rw [bind_of_ok readTest, bind_of_ok readValue]
        rfl

theorem resolve_iff {name : List Char} {start : Nat} {target : ν} :
    vocabulary.resolve name start cursor = .ok target ↔
      vocabulary.resolve? (String.ofList name) = some target := by
  unfold Vocabulary.resolve
  cases vocabulary.resolve? (String.ofList name) with
  | none => exact ⟨nofun, nofun⟩
  | some reference => exact ⟨fun read => by cases read; rfl, fun known => by cases known; rfl⟩

/-- The reader of statements reads what stands there. -/
theorem readStep_iff :
    readStep vocabulary allowReturn cursor = .ok (step, next) ↔
      StepAt vocabulary allowReturn cursor step next := by
  constructor
  · intro read
    unfold readStep at read
    dsimp only at read
    split at read
    · rename_i isReturn
      rcases readReturn_iff.mp read with ⟨arguments, split, returnOf⟩
      exact .returns isReturn split returnOf
    · rename_i notReturn
      rcases ok_of_bind read with ⟨⟨update, afterUpdate⟩, updated, read⟩
      dsimp only at read
      split at read
      · cases read
      · rename_i named
        rcases ok_of_bind read with ⟨target, resolved, read⟩
        rcases ok_of_bind read with ⟨⟨extent, stop⟩, extended, read⟩
        rcases ok_of_bind extended with ⟨⟨last, behind⟩, scanned, extended⟩
        cases extended
        dsimp only at read
        split at read
        · cases read
        · rename_i valued
          rcases ok_of_bind read with ⟨value, readValue, read⟩
          cases read
          have targetAt : TargetAt vocabulary allowReturn cursor target update afterUpdate.skip :=
            ⟨Bool.eq_false_iff.mpr notReturn, ⟨afterUpdate, readUpdate_iff.mp updated, rfl⟩,
              mt List.isEmpty_iff.mpr named, resolve_iff.mp resolved⟩
          exact .assigns targetAt scanned (mt List.isEmpty_iff.mpr valued) readValue
  · intro stepAt
    cases stepAt with
    | returns isReturn split returnOf =>
        exact (if_pos isReturn).trans (readReturn_iff.mpr ⟨_, split, returnOf⟩)
    | assigns targetAt scanned valued readValue =>
        rcases targetAt with ⟨notReturn, ⟨behind, updated, rfl⟩, named, resolved⟩
        have extended : readExtent vocabulary.stepSeparator vocabulary.argumentSeparator _ =
            .ok (_, next) := bind_of_ok scanned
        refine (if_neg (Bool.eq_false_iff.mp notReturn)).trans ?_
        refine (bind_of_ok (readUpdate_iff.mpr updated)).trans ?_
        refine (if_neg (mt List.isEmpty_iff.mp named)).trans ?_
        refine (bind_of_ok (resolve_iff.mpr resolved)).trans ((bind_of_ok extended).trans ?_)
        exact (if_neg (mt List.isEmpty_iff.mp valued)).trans (bind_of_ok readValue)

end Statements

/-! ## The text of a statement -/

theorem UpdateAt.spans {cursor next : Cursor} {update : Update}
    (updateAt : UpdateAt cursor update next) : ∃ text, cursor.Spans text next := by
  cases updateAt with
  | set isNext _ => exact ⟨_, Cursor.spans_next isNext⟩
  | @compound symbol _ isNext _ second =>
      have text : cursor.rest = symbol :: '=' :: cursor.rest.tail.tail := by
        rcases List.head?_eq_some_iff.mp isNext with ⟨tail, equal⟩
        rw [Cursor.second?, equal] at second
        rcases List.head?_eq_some_iff.mp second with ⟨others, rfl⟩
        rw [equal]
        rfl
      exact ⟨[symbol, '='], Cursor.spans_advance text⟩

theorem behindName_spans (separator : Char) (cursor : Cursor) :
    ∃ gap, cursor.Spans (nameAhead separator cursor ++ gap) (behindName separator cursor) := by
  have name : cursor.Spans (nameAhead separator cursor)
      (cursor.advance (nameAhead separator cursor).length) :=
    Cursor.spans_advance List.takeWhile_append_dropWhile.symm
  rcases Cursor.skip_spans (cursor.advance (nameAhead separator cursor).length) with
    ⟨gap, gapSpans, _⟩
  exact ⟨gap, name.trans gapSpans⟩

section Statements

variable {vocabulary : Vocabulary ν} {allowReturn : Bool} {cursor next : Cursor} {step : Step ν}

theorem TargetAt.spans {target : ν} {update : Update} {value : Cursor}
    (targetAt : TargetAt vocabulary allowReturn cursor target update value) :
    ∃ text, text ≠ [] ∧ cursor.Spans text value := by
  rcases targetAt with ⟨_, ⟨behind, updateAt, rfl⟩, named, _⟩
  rcases behindName_spans vocabulary.stepSeparator cursor with ⟨gap, nameSpans⟩
  rcases updateAt.spans with ⟨update, updateSpans⟩
  rcases Cursor.skip_spans behind with ⟨blanks, skipSpans, _⟩
  exact ⟨_, by simp [named], (nameSpans.trans updateSpans).trans skipSpans⟩

/-- Every statement has some text. -/
theorem StepAt.spans (stepAt : StepAt vocabulary allowReturn cursor step next) :
    ∃ text, text ≠ [] ∧ cursor.Spans text next := by
  cases stepAt with
  | returns isReturn split _ =>
      rcases behindName_spans vocabulary.stepSeparator cursor with ⟨gap, nameSpans⟩
      simp only [returnAhead, Bool.and_eq_true, decide_eq_true_eq] at isReturn
      rcases readArguments_eq_ok isReturn.2 split with ⟨inner, spans, _⟩
      exact ⟨_, by simp [bracketed], nameSpans.trans spans⟩
  | assigns targetAt scanned _ _ =>
      rcases targetAt.spans with ⟨text, filled, spans⟩
      rcases valueEnd_spans scanned (Nat.le_refl _) with ⟨_, value, valueSpans⟩
      exact ⟨_, by simp [filled], spans.trans valueSpans⟩

/-- One statement stands at a cursor. -/
theorem StepAt.unique {otherStep : Step ν} {other : Cursor}
    (stepAt : StepAt vocabulary allowReturn cursor step next)
    (otherAt : StepAt vocabulary allowReturn cursor otherStep other) :
    otherStep = step ∧ other = next := by
  cases (readStep_iff.mpr stepAt).symm.trans (readStep_iff.mpr otherAt)
  exact ⟨rfl, rfl⟩

theorem StepAt.shorter (stepAt : StepAt vocabulary allowReturn cursor step next) :
    next.rest.length < cursor.rest.length := by
  rcases stepAt.spans with ⟨text, filled, spans⟩
  have positive := List.length_pos_iff.mpr filled
  rw [spans.rest, List.length_append]
  omega

end Statements

/-! ## Lists of statements -/

theorem skipSeparators_spans (separator : Char) (cursor : Cursor) :
    ∃ gap, cursor.Spans gap (skipSeparators separator cursor) := by
  have spans (inComment : Bool) (index : Nat) (text : List Char) :
      ∃ gap, Cursor.Spans ⟨index, text⟩ gap
        (skipSeparatorsFrom separator inComment index text) := by
    induction text generalizing inComment index with
    | nil => exact ⟨[], rfl, rfl⟩
    | cons character rest induction =>
        have further (inComment : Bool) : ∃ gap, Cursor.Spans ⟨index, character :: rest⟩ gap
            (skipSeparatorsFrom separator inComment (index + 1) rest) := by
          rcases induction inComment (index + 1) with ⟨gap, spans⟩
          exact ⟨character :: gap, (Cursor.spans_mk index [character] rest).trans spans⟩
        unfold skipSeparatorsFrom
        split
        · exact further _
        · split
          · exact further _
          · split
            · exact further _
            · split
              · exact further _
              · exact ⟨[], rfl, rfl⟩
  exact spans false cursor.index cursor.rest

/-- Separators are skipped once. -/
theorem skipSeparators_skipSeparatorsFrom (separator : Char) (inComment : Bool) (index : Nat)
    (text : List Char) :
    skipSeparators separator (skipSeparatorsFrom separator inComment index text) =
      skipSeparatorsFrom separator inComment index text := by
  induction inComment, text using scan_induction generalizing index with
  | nil => rfl
  | comment character rest goesOn induction =>
      rw [skipSeparators_comment _ goesOn]
      exact induction (index + 1)
  | opening rest second induction =>
      rw [skipSeparators_opening _ second]
      exact induction (index + 1)
  | code inComment character rest ends apart induction =>
      cases inComment with
      | true =>
          cases ends rfl
          rw [skipSeparators_lineEnd]
          exact induction (index + 1)
      | false =>
          by_cases gap : isBlank character = true ∨ character = separator
          · rw [skipSeparators_gap _ apart gap]
            exact induction (index + 1)
          · rw [not_or, Bool.not_eq_true] at gap
            rw [skipSeparators_code _ apart gap.1 gap.2]
            exact skipSeparators_code _ apart gap.1 gap.2

/-- The statements from a cursor to the end of the text. -/
inductive StepsAt (vocabulary : Vocabulary ν) (allowReturn : Bool) : Cursor → List (Step ν) → Prop
  | nil {cursor : Cursor} : (skipSeparators vocabulary.stepSeparator cursor).rest = [] →
      StepsAt vocabulary allowReturn cursor []
  | cons {cursor next : Cursor} {step : Step ν} {steps : List (Step ν)} :
      (skipSeparators vocabulary.stepSeparator cursor).rest ≠ [] →
      StepAt vocabulary allowReturn (skipSeparators vocabulary.stepSeparator cursor) step next →
      StepsAt vocabulary allowReturn next steps →
      StepsAt vocabulary allowReturn cursor (step :: steps)

section Lists

variable {vocabulary : Vocabulary ν} {allowReturn : Bool} {cursor : Cursor} {steps : List (Step ν)}

theorem StepsAt.of_skipped {other : Cursor}
    (stepsAt : StepsAt vocabulary allowReturn cursor steps)
    (same : skipSeparators vocabulary.stepSeparator other =
      skipSeparators vocabulary.stepSeparator cursor) :
    StepsAt vocabulary allowReturn other steps := by
  cases stepsAt with
  | nil atEnd => exact .nil (by rwa [same])
  | cons goesOn stepAt othersAt => exact .cons (by rwa [same]) (by rwa [same]) othersAt

/-- No statement stands at the end of the text. -/
theorem StepsAt.eq_nil (stepsAt : StepsAt vocabulary allowReturn cursor steps)
    (atEnd : cursor.rest = []) : steps = [] := by
  cases stepsAt with
  | nil _ => rfl
  | cons goesOn _ _ =>
      rcases cursor with ⟨index, rest⟩
      cases atEnd
      exact absurd rfl goesOn

theorem length_skipSeparators_le (separator : Char) (cursor : Cursor) :
    (skipSeparators separator cursor).rest.length ≤ cursor.rest.length := by
  rcases skipSeparators_spans separator cursor with ⟨gap, spans⟩
  rw [spans.rest, List.length_append]
  exact Nat.le_add_left _ _

/-- With a turn for every unread character, the statements are read to the end of the
text. -/
theorem readSteps_iff {fuel : Nat} (enough : cursor.rest.length < fuel) :
    (∃ stop, readSteps vocabulary allowReturn fuel cursor = .ok (steps, stop)) ↔
      StepsAt vocabulary allowReturn cursor steps := by
  have within := length_skipSeparators_le vocabulary.stepSeparator cursor
  induction fuel generalizing cursor steps with
  | zero => exact absurd enough (Nat.not_lt_zero _)
  | succ fuel induction =>
      constructor
      · rintro ⟨stop, read⟩
        unfold readSteps at read
        dsimp only at read
        split at read
        · rename_i atEnd
          cases read
          exact .nil (List.isEmpty_iff.mp atEnd)
        · rename_i goesOn
          rcases ok_of_bind read with ⟨⟨step, next⟩, readFirst, read⟩
          rcases ok_of_bind read with ⟨⟨others, last⟩, readOthers, read⟩
          cases read
          have stepAt := readStep_iff.mp readFirst
          have shorter := stepAt.shorter
          exact .cons (mt List.isEmpty_iff.mpr goesOn) stepAt
            ((induction (by omega) (length_skipSeparators_le _ _)).mp ⟨last, readOthers⟩)
      · intro stepsAt
        cases stepsAt with
        | nil atEnd =>
            exact ⟨_, if_pos (List.isEmpty_iff.mpr atEnd)⟩
        | @cons _ next step others goesOn stepAt othersAt =>
            have shorter := stepAt.shorter
            rcases (induction (by omega) (length_skipSeparators_le _ _)).mpr othersAt with
              ⟨last, readOthers⟩
            refine ⟨last, (if_neg (mt List.isEmpty_iff.mp goesOn)).trans ?_⟩
            exact (bind_of_ok (readStep_iff.mpr stepAt)).trans (bind_of_ok readOthers)

/-- Where returns are no statements, every statement is an assignment. -/
theorem StepsAt.assignments (stepsAt : StepsAt vocabulary false cursor steps) :
    ∃ assignments : List (Assignment ν), steps = assignments.map .assign := by
  induction stepsAt with
  | nil _ => exact ⟨[], rfl⟩
  | cons _ stepAt _ induction =>
      rcases induction with ⟨others, rfl⟩
      cases stepAt with
      | returns isReturn _ _ => cases isReturn
      | assigns _ _ _ _ => exact ⟨_ :: others, rfl⟩

/-- A process is what stands in its text, at least one step. -/
theorem wholeProcess_iff {text : List Char} :
    wholeProcess vocabulary text = .ok steps ↔
      steps ≠ [] ∧ StepsAt vocabulary true (.start text) steps := by
  have enough : (Cursor.start text).rest.length < text.length + 1 := Nat.lt_succ_self _
  rw [← readSteps_iff enough]
  constructor
  · intro read
    rcases ok_of_bind read with ⟨⟨found, stop⟩, readAll, read⟩
    dsimp only at read
    split at read
    · cases read
    · rename_i nonempty
      cases read
      exact ⟨mt List.isEmpty_iff.mpr nonempty, stop, readAll⟩
  · rintro ⟨nonempty, stop, readAll⟩
    exact (bind_of_ok readAll).trans (if_neg (mt List.isEmpty_iff.mp nonempty))

/-- Operations are the assignments that stand in their text, at least one. -/
theorem wholeOperations_iff {text : List Char} {assignments : List (Assignment ν)} :
    wholeOperations vocabulary text = .ok assignments ↔
      assignments ≠ [] ∧ StepsAt vocabulary false (.start text) (assignments.map .assign) := by
  have enough : (Cursor.start text).rest.length < text.length + 1 := Nat.lt_succ_self _
  rw [← readSteps_iff enough]
  constructor
  · intro read
    rcases ok_of_bind read with ⟨⟨found, stop⟩, readAll, read⟩
    rcases ((readSteps_iff enough).mp ⟨stop, readAll⟩).assignments with ⟨others, rfl⟩
    simp only [List.filterMap_map, Function.comp_def, List.filterMap_some] at read
    split at read
    · cases read
    · rename_i nonempty
      cases read
      exact ⟨mt List.isEmpty_iff.mpr nonempty, stop, readAll⟩
  · rintro ⟨nonempty, stop, readAll⟩
    refine (bind_of_ok readAll).trans ?_
    simp only [List.filterMap_map, Function.comp_def, List.filterMap_some]
    exact if_neg (mt List.isEmpty_iff.mp nonempty)

end Lists

end NumericRules.Grammar
