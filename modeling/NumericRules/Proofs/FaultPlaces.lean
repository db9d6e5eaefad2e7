import NumericRules.Proofs.Grammar.WindowReading
import NumericRules.Proofs.NestingLimit

/-! # Where faults are reported

Every text has an outcome: the parsers that work on indices never read outside the text,
never cut out an inverted range, never count brackets below zero and come to an end. If the
outcome is a fault then the diagnostic has its place in bytes and in lines and columns.
-/

namespace NumericRules

/-! ## Positions -/

namespace Position

/-- The position of the character behind some text. -/
structure Behind (before : String) (position : Position) : Prop where
  offset : position.offset = before.utf8ByteSize
  line : position.line = 1 + before.toList.count '\n'
  column : position.column = 1 + (before.toList.reverse.takeWhile (· ≠ '\n')).length

theorem behind_nil : Behind "" ⟨0, 1, 1⟩ := ⟨rfl, rfl, rfl⟩

/-- One character more. -/
theorem Behind.after {before : String} {position : Position} (behind : position.Behind before)
    (character : Char) :
    (position.after character).Behind (before ++ String.singleton character) := by
  have read : (before ++ String.singleton character).toList = before.toList ++ [character] := by
    rw [String.toList_append, String.toList_singleton]
  have size : (before ++ String.singleton character).utf8ByteSize =
      before.utf8ByteSize + character.utf8Size := by
    rw [String.utf8ByteSize_append, String.utf8ByteSize_singleton]
  by_cases newline : character = '\n'
  · subst newline
    refine ⟨?_, ?_, ?_⟩
    · rw [size, ← behind.offset]
      rfl
    · rw [read, List.count_append, ← Nat.add_assoc, ← behind.line]
      rfl
    · rw [read, List.reverse_append]
      rfl
  · rw [Position.after, if_neg newline]
    refine ⟨?_, ?_, ?_⟩
    · rw [size, ← behind.offset]
    · have absent : '\n' ∉ [character] := fun member => newline (List.mem_singleton.mp member).symm
      rw [read, List.count_append, List.count_eq_zero.mpr absent]
      exact behind.line
    · rw [read, List.reverse_append, List.reverse_singleton, List.singleton_append,
        List.takeWhile_cons_of_pos (by simpa using newline), List.length_cons, ← Nat.add_assoc,
        ← behind.column]

theorem Behind.foldl {before : String} {position : Position} (behind : position.Behind before)
    (text : List Char) :
    (text.foldl Position.after position).Behind (before ++ String.ofList text) := by
  induction text generalizing before position with
  | nil => simpa using behind
  | cons character rest induction =>
      rw [List.foldl_cons, String.ofList_cons, ← String.append_assoc]
      exact induction (behind.after character)

theorem ofIndex_behind (text : List Char) (index : Nat) :
    (ofIndex text index).Behind (String.ofList (text.take index)) := by
  have behind := behind_nil.foldl (text.take index)
  rwa [String.empty_append] at behind

end Position

/-! ## Diagnostics -/

/-- The diagnostic is one of the language, and it has the right place in the text: some text
stands before the fault, some inside it and some behind it. -/
structure Diagnostic.Located (diagnostic : Diagnostic) (language : Language) (text : String) :
    Prop where
  language : diagnostic.language = language
  ordered : diagnostic.start.offset ≤ diagnostic.stop
  within : diagnostic.stop ≤ text.utf8ByteSize
  place : ∃ before inside behind : String, text = before ++ inside ++ behind ∧
    diagnostic.start.Behind before ∧ diagnostic.stop = (before ++ inside).utf8ByteSize ∧
    diagnostic.remaining = Text.trimEnd
      (((inside ++ behind).toList.takeWhile (· ≠ '\n')).take excerptLength)

theorem Diagnostic.locate_located (language : Language) (text : String) (fault : Fault) :
    (locate language text.toList fault).Located language text := by
  let stop := max fault.reached fault.start
  have ordered : fault.start ≤ stop := Nat.le_max_right _ _
  let before := String.ofList (text.toList.take fault.start)
  let inside := String.ofList (Grammar.part text.toList fault.start stop)
  let behind := String.ofList (text.toList.drop stop)
  have upTo : before ++ inside = String.ofList (text.toList.take stop) := by
    rw [← String.ofList_append]
    exact congrArg String.ofList (Grammar.part_append (Nat.zero_le _) ordered).symm
  have left : inside ++ behind = String.ofList (text.toList.drop fault.start) := by
    have dropped : text.toList.drop stop =
        (text.toList.drop fault.start).drop (stop - fault.start) := by
      rw [List.drop_drop, Nat.add_sub_of_le ordered]
    rw [← String.ofList_append, dropped, Grammar.part, List.take_append_drop]
  have whole : text = before ++ inside ++ behind := by
    rw [upTo, ← String.ofList_append, List.take_append_drop, String.ofList_toList]
  have starts : (locate language text.toList fault).start.Behind before :=
    Position.ofIndex_behind _ _
  have stops : (locate language text.toList fault).stop = (before ++ inside).utf8ByteSize := by
    rw [upTo]
    exact (Position.ofIndex_behind _ _).offset
  refine ⟨rfl, ?_, ?_, before, inside, behind, whole, starts, stops, ?_⟩
  · rw [starts.offset, stops, String.utf8ByteSize_append]
    exact Nat.le_add_right _ _
  · have total := congrArg String.utf8ByteSize whole
    rw [String.utf8ByteSize_append] at total
    rw [stops, total]
    exact Nat.le_add_right _ _
  · rw [left, String.toList_ofList]
    rfl

/-! ## Outcomes -/

/-- The outcome of reading a text in a language: a rule made of what the reading on indices
yields, or the located diagnostic of its fault. That reading is not stuck in either case. -/
inductive Reported (language : Language) (text : String) (guarded : Grammar.Guarded α)
    (rule : RuleId → α → β) : Except Error β → Prop
  | accepted (id : RuleId) (content : α) : guarded = pure content →
      Reported language text guarded rule (.ok (rule id content))
  | refused (fault : Fault) : guarded = throw fault → fault.Inside text.toList →
      (Diagnostic.locate language text.toList fault).Located language text →
      Reported language text guarded rule
        (.error (.parse (Diagnostic.locate language text.toList fault)))

namespace Engine

open Grammar (Guarded Window)

theorem readText_reported {engine : Engine σ} {text : String}
    (fits : text.utf8ByteSize ≤ engine.settings.maxSourceBytes) (language : Language)
    {guarded : Guarded α} {parse : List Char → Except Fault α}
    (matched : Guarded.Matches text.toList guarded (parse text.toList)) (rule : RuleId → α → β)
    (world : World σ) :
    ∃ outcome next,
      numbered (engine.readText language text parse) rule world = some (outcome, next) ∧
        Reported language text guarded rule outcome := by
  rw [readText, if_neg (Nat.not_lt_of_le fits)]
  unfold Guarded.Matches Guarded.Follows at matched
  cases matched with
  | refused fault holds =>
      rw [holds.1]
      exact ⟨_, world, rfl,
        .refused fault rfl holds.2 (Diagnostic.locate_located language text fault)⟩
  | done content holds =>
      rw [holds.1]
      exact ⟨_, _, rfl, .accepted ⟨world.readings⟩ content rfl⟩

/-- Every text that is not too long has an outcome in each of the languages, and so has the
reading on the indices of its characters, which is never stuck. A fault is reported for the
language of the whole text, wherever it is nested, at the place of some part of the text: the
offsets are the bytes before the part and up to its end, the line counts the line ends before
it, the column counts the characters behind the last of these, and what remains of the line is
quoted. -/
theorem parse_located (engine : Engine σ) {text : String}
    (fits : text.utf8ByteSize ≤ engine.settings.maxSourceBytes) (world : World σ) :
    (∃ outcome next, engine.parseFormula text world = some (outcome, next) ∧
      Reported .formula text
        (Guarded.wholeFormula text.toList (engine.vocabulary engine.reference?) (.full text.toList))
        (fun id root => (⟨id, root⟩ : FormulaRule)) outcome) ∧
    (∃ outcome next, engine.parseCondition text world = some (outcome, next) ∧
      Reported .condition text
        (Guarded.wholeCondition text.toList (engine.vocabulary engine.reference?)
          (.full text.toList))
        (fun id root => (⟨id, root⟩ : ConditionRule)) outcome) ∧
    (∃ outcome next, engine.parseOperations text world = some (outcome, next) ∧
      Reported .operation text
        (Guarded.wholeOperations text.toList (engine.vocabulary engine.reference?))
        (fun id assignments => ⟨id, assignments, engine.settings.stepSeparator⟩) outcome) ∧
    ∃ outcome next, engine.parseProcess text world = some (outcome, next) ∧
      Reported .process text (Guarded.wholeProcess text.toList (engine.vocabulary some))
        (ProcessRule.ofSteps · engine.settings.stepSeparator engine.registry.identifier? ·)
        outcome := by
  have inText := Window.full_fits text.toList
  have isStart := Window.cursor_full text.toList
  refine ⟨?_, ?_, ?_, ?_⟩
  · exact readText_reported fits .formula
      (isStart ▸ Guarded.wholeFormula_matches _ inText) _ world
  · exact readText_reported fits .condition
      (isStart ▸ Guarded.wholeCondition_matches _ inText) _ world
  · exact readText_reported fits .operation (Guarded.wholeOperations_matches _ _) _ world
  · exact readText_reported fits .process (Guarded.wholeProcess_matches _ _) _ world

/-- An unknown name of two bytes, in brackets in the second line. -/
def accented : String := "x=1\nx=(é+2"

theorem parse_located_accented :
    accented.utf8ByteSize ≤ oneLevel.settings.maxSourceBytes ∧
    ∃ diagnostic next,
      oneLevel.parseOperations accented (oneLevel.start 0 (.ofSeed 0)) =
        some (.error (.parse diagnostic), next) ∧
      diagnostic.cause = .unknownName ['é'] ∧ diagnostic.start = ⟨7, 2, 4⟩ ∧
      diagnostic.stop = 9 ∧ diagnostic.remaining = ['é', '+', '2'] ∧
      diagnostic.Located .operation accented := by
  have fits : accented.utf8ByteSize ≤ oneLevel.settings.maxSourceBytes := by decide
  have refused : ∃ diagnostic next,
      oneLevel.parseOperations accented (oneLevel.start 0 (.ofSeed 0)) =
        some (.error (.parse diagnostic), next) ∧
      diagnostic.cause = .unknownName ['é'] ∧ diagnostic.start = ⟨7, 2, 4⟩ ∧
      diagnostic.stop = 9 ∧ diagnostic.remaining = ['é', '+', '2'] :=
    ⟨_, _, rfl, rfl, rfl, rfl, rfl⟩
  rcases refused with ⟨diagnostic, next, ran, cause, start, stop, remaining⟩
  rcases (parse_located oneLevel fits (oneLevel.start 0 (.ofSeed 0))).2.2.1 with
    ⟨outcome, after, same, reported⟩
  cases same.symm.trans ran
  cases reported with
  | refused _ _ _ located =>
      exact ⟨fits, _, next, ran, cause, start, stop, remaining, located⟩

end Engine

end NumericRules
