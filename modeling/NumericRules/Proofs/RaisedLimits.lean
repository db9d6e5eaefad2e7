import NumericRules.Proofs.Grammar.Limits
import NumericRules.Proofs.NestingLimit

/-! # Raised limits

Raising the limits of an engine never changes a reading, but for texts that were refused
for being too long or nested too deeply. All others are accepted with the same rule or
refused for the same fault at the same place.
-/

namespace NumericRules

namespace Grammar

/-! ## Statements -/

section Statements

variable {vocabulary : Vocabulary ν} {limit : Nat} (le : vocabulary.nestingLimit ≤ limit)

include le

theorem wholeFormula_agrees (cursor : Cursor) :
    Agrees (wholeFormula vocabulary cursor) (wholeFormula (vocabulary.limited limit) cursor) :=
  whole_agrees (formula_condition_agree vocabulary limit le).1 cursor

theorem wholeCondition_agrees (cursor : Cursor) :
    Agrees (wholeCondition vocabulary cursor)
      (wholeCondition (vocabulary.limited limit) cursor) :=
  whole_agrees (formula_condition_agree vocabulary limit le).2 cursor

theorem readReturn_agrees (cursor : Cursor) :
    Agrees (readReturn vocabulary cursor) (readReturn (vocabulary.limited limit) cursor) := by
  apply (Agrees.same _).bind
  intro ⟨arguments, stop⟩
  dsimp only
  split
  · apply (wholeFormula_agrees le _).bind
    intro value
    exact .same _
  · apply (wholeCondition_agrees le _).bind
    intro test
    apply (wholeFormula_agrees le _).bind
    intro value
    exact .same _
  · exact .same _

theorem readStep_agrees (allowReturn : Bool) (cursor : Cursor) :
    Agrees (readStep vocabulary allowReturn cursor)
      (readStep (vocabulary.limited limit) allowReturn cursor) := by
  have separator : (vocabulary.limited limit).stepSeparator = vocabulary.stepSeparator := rfl
  unfold readStep
  simp only [separator]
  split
  · exact readReturn_agrees le _
  · apply (Agrees.same _).bind
    intro ⟨update, afterUpdate⟩
    dsimp only
    split
    · exact .same (.error _)
    · apply (Agrees.same _).bind
      intro target
      apply (Agrees.same _).bind
      intro ⟨extent, stop⟩
      dsimp only
      split
      · exact .same (.error _)
      · apply (wholeFormula_agrees le extent).bind
        intro value
        exact .same _

theorem readSteps_agrees (allowReturn : Bool) (fuel : Nat) (cursor : Cursor) :
    Agrees (readSteps vocabulary allowReturn fuel cursor)
      (readSteps (vocabulary.limited limit) allowReturn fuel cursor) := by
  have separator : (vocabulary.limited limit).stepSeparator = vocabulary.stepSeparator := rfl
  induction fuel generalizing cursor with
  | zero => exact .same _
  | succ fuel induction =>
      unfold readSteps
      simp only [separator]
      split
      · exact .same _
      · apply (readStep_agrees le allowReturn _).bind
        intro read
        rcases read with ⟨step, stop⟩
        apply (induction stop).bind
        intro others
        rcases others with ⟨steps, last⟩
        exact .same _

theorem wholeOperations_agrees (text : List Char) :
    Agrees (wholeOperations vocabulary text)
      (wholeOperations (vocabulary.limited limit) text) := by
  apply (readSteps_agrees le false _ _).bind
  intro ⟨steps, stop⟩
  exact .same _

theorem wholeProcess_agrees (text : List Char) :
    Agrees (wholeProcess vocabulary text) (wholeProcess (vocabulary.limited limit) text) := by
  apply (readSteps_agrees le true _ _).bind
  intro ⟨steps, stop⟩
  exact .same _

end Statements

end Grammar

/-! ## Engines -/

/-- The errors that greater limits may lift. -/
inductive Error.OfLimit : Error → Prop
  | size (allowed actual : Nat) : OfLimit (.sourceTooLong allowed actual)
  | depth {diagnostic : Diagnostic} {limit : Nat} :
      diagnostic.cause = .tooDeep limit → OfLimit (.parse diagnostic)

namespace Engine

variable {engine : Engine σ} {bytes depth : Nat}

/-- The error is lifted by greater limits, or nothing changes. -/
def LiftedOrSame (small large : Except Error α) : Prop :=
  (∃ error, small = .error error ∧ error.OfLimit) ∨ small = large

theorem readText_raised (wider : engine.settings.maxSourceBytes ≤ bytes) (language : Language)
    (text : String) {parse other : List Char → Except Fault α}
    (agree : Grammar.Agrees (parse text.toList) (other text.toList)) :
    LiftedOrSame (engine.readText language text parse)
      ((engine.withLimits bytes depth).readText language text other) := by
  by_cases long : engine.settings.maxSourceBytes < text.utf8ByteSize
  · refine .inl ⟨_, ?_, .size engine.settings.maxSourceBytes text.utf8ByteSize⟩
    rw [readText, if_pos long]
  · have allowed : ¬(engine.withLimits bytes depth).settings.maxSourceBytes < text.utf8ByteSize :=
      Nat.not_lt_of_le (Nat.le_trans (Nat.le_of_not_lt long) wider)
    rw [readText, readText, if_neg long, if_neg allowed]
    rcases agree with ⟨fault, limit, refused, cause⟩ | same
    · refine .inl ⟨.parse (Diagnostic.locate language text.toList fault), ?_, .depth cause⟩
      rw [refused]
      rfl
    · exact .inr (by rw [same])

theorem numbered_raised {small large : Except Error α} (lifted : LiftedOrSame small large)
    (rule : RuleId → α → β) (world : World σ) :
    ∃ outcome next, numbered small rule world = some (outcome, next) ∧
      ((∃ error, outcome = .error error ∧ error.OfLimit) ∨
        numbered large rule world = some (outcome, next)) := by
  rcases lifted with ⟨error, rfl, ofLimit⟩ | rfl
  · exact ⟨.error error, world, rfl, .inl ⟨error, rfl, ofLimit⟩⟩
  · cases small with
    | error error => exact ⟨.error error, world, rfl, .inr rfl⟩
    | ok content => exact ⟨.ok (rule ⟨world.readings⟩ content), _, rfl, .inr rfl⟩

/-- Every text has an outcome in each of the languages, and if it is not refused for a limit
then it has the same one under greater limits: the same rule with the same number, and for a
process the same slots, or the same cause at the same place. -/
theorem parse_raised (engine : Engine σ) {bytes depth : Nat}
    (wider : engine.settings.maxSourceBytes ≤ bytes) (deeper : engine.settings.maxDepth ≤ depth)
    (text : String) (world : World σ) :
    (∃ outcome next, engine.parseFormula text world = some (outcome, next) ∧
      ((∃ error, outcome = .error error ∧ error.OfLimit) ∨
        (engine.withLimits bytes depth).parseFormula text world = some (outcome, next))) ∧
    (∃ outcome next, engine.parseCondition text world = some (outcome, next) ∧
      ((∃ error, outcome = .error error ∧ error.OfLimit) ∨
        (engine.withLimits bytes depth).parseCondition text world = some (outcome, next))) ∧
    (∃ outcome next, engine.parseOperations text world = some (outcome, next) ∧
      ((∃ error, outcome = .error error ∧ error.OfLimit) ∨
        (engine.withLimits bytes depth).parseOperations text world = some (outcome, next))) ∧
    ∃ outcome next, engine.parseProcess text world = some (outcome, next) ∧
      ((∃ error, outcome = .error error ∧ error.OfLimit) ∨
        (engine.withLimits bytes depth).parseProcess text world = some (outcome, next)) := by
  have references : (engine.vocabulary engine.reference?).nestingLimit ≤ depth := deeper
  have names : (engine.vocabulary (some : String → Option String)).nestingLimit ≤ depth := deeper
  refine ⟨?_, ?_, ?_, ?_⟩
  · exact numbered_raised (readText_raised wider .formula text
      (Grammar.wholeFormula_agrees references _)) _ world
  · exact numbered_raised (readText_raised wider .condition text
      (Grammar.wholeCondition_agrees references _)) _ world
  · exact numbered_raised (readText_raised wider .operation text
      (Grammar.wholeOperations_agrees references _)) _ world
  · exact numbered_raised (readText_raised wider .process text
      (Grammar.wholeProcess_agrees names _)) _ world

/-- A process as high as one level allows is the same at three levels, and what is no formula
stays so for the same cause. -/
theorem parse_raised_oneLevel :
    oneLevel.settings.maxSourceBytes ≤ 200 ∧ oneLevel.settings.maxDepth ≤ 3 ∧
    (∃ rule next,
      oneLevel.parseProcess highProcess (oneLevel.start 0 (.ofSeed 0)) =
        some (.ok rule, next) ∧
      (oneLevel.withLimits 200 3).parseProcess highProcess (oneLevel.start 0 (.ofSeed 0)) =
        some (.ok rule, next)) ∧
    ∃ diagnostic next, diagnostic.cause = .noRightOperand .add ∧
      oneLevel.parseFormula "-x+" (oneLevel.start 0 (.ofSeed 0)) =
        some (.error (.parse diagnostic), next) ∧
      (oneLevel.withLimits 200 3).parseFormula "-x+" (oneLevel.start 0 (.ofSeed 0)) =
        some (.error (.parse diagnostic), next) := by
  have wider : oneLevel.settings.maxSourceBytes ≤ 200 := by decide
  have deeper : oneLevel.settings.maxDepth ≤ 3 := by decide
  have accepted : ∃ rule next, oneLevel.parseProcess highProcess (oneLevel.start 0 (.ofSeed 0)) =
      some (.ok rule, next) := ⟨_, _, rfl⟩
  have refused : ∃ diagnostic next, diagnostic.cause = .noRightOperand .add ∧
      oneLevel.parseFormula "-x+" (oneLevel.start 0 (.ofSeed 0)) =
        some (.error (.parse diagnostic), next) := ⟨_, _, rfl, rfl⟩
  refine ⟨wider, deeper, ?_, ?_⟩
  · rcases accepted with ⟨rule, next, accepted⟩
    rcases (parse_raised oneLevel wider deeper highProcess _).2.2.2 with
      ⟨outcome, after, ran, ⟨error, rfl, -⟩ | same⟩
    · cases ran.symm.trans accepted
    · exact ⟨rule, next, accepted, same.trans (ran.symm.trans accepted)⟩
  · rcases refused with ⟨diagnostic, next, cause, refused⟩
    refine ⟨diagnostic, next, cause, refused, ?_⟩
    rcases (parse_raised oneLevel wider deeper "-x+" _).1 with
      ⟨outcome, after, ran, ⟨error, rfl, ofLimit⟩ | same⟩
    · cases ran.symm.trans refused
      cases ofLimit with
      | depth deep => cases cause.symm.trans deep
    · exact same.trans (ran.symm.trans refused)

end Engine

end NumericRules
