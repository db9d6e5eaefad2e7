import NumericRules.Grammar.Expression

/-! # The nesting limit

A greater limit changes the outcome of a reading only where the smaller one
refuses it.
-/

namespace NumericRules.Grammar

/-! ## Levels -/

section Levels

variable (vocabulary : Vocabulary ν)

/-- The parsers for what stands deeper, by the number of levels that are left. -/
def levels : Nat → Option (Deeper ν)
  | 0 => none
  | budget + 1 => some ⟨formula vocabulary budget, condition vocabulary budget⟩

theorem formula_eq (budget : Nat) :
    formula vocabulary budget = readFormula vocabulary (levels vocabulary budget) budget := by
  funext cursor
  cases budget <;> rw [formula] <;> rfl

theorem condition_eq (budget : Nat) :
    condition vocabulary budget =
      readCondition vocabulary (levels vocabulary budget) (formula vocabulary budget) := by
  funext cursor
  rw [formula_eq]
  cases budget <;> rw [condition] <;> rfl

theorem enter_levels {budget : Nat} (positive : 0 < budget) (cursor : Cursor) :
    vocabulary.enter (levels vocabulary budget) cursor =
      .ok ⟨formula vocabulary (budget - 1), condition vocabulary (budget - 1)⟩ := by
  cases budget with
  | zero => exact absurd positive (Nat.lt_irrefl 0)
  | succ budget => rfl

end Levels

/-! ## Agreement -/

/-- The reading is refused for its depth. -/
def TooDeep (outcome : Except Fault α) : Prop :=
  ∃ fault limit, outcome = .error fault ∧ fault.cause = .tooDeep limit

/-- The outcome under a smaller limit is a refusal or the outcome under the greater
one. -/
def Agrees (small large : Except Fault α) : Prop := TooDeep small ∨ small = large

namespace Agrees

theorem same (outcome : Except Fault α) : Agrees outcome outcome := .inr rfl

theorem bind {small large : Except Fault α} {next other : α → Except Fault β}
    (agrees : Agrees small large) (further : ∀ value, Agrees (next value) (other value)) :
    Agrees (small >>= next) (large >>= other) := by
  rcases agrees with ⟨fault, limit, equal, cause⟩ | rfl
  · exact .inl ⟨fault, limit, by rw [equal]; rfl, cause⟩
  · cases small with
    | error fault => exact .inr rfl
    | ok value => exact further value

end Agrees

/-- The vocabulary with another nesting limit. -/
def Vocabulary.limited (vocabulary : Vocabulary ν) (limit : Nat) : Vocabulary ν :=
  { vocabulary with nestingLimit := limit }

/-- The parsers for what stands deeper agree. -/
def DeeperAgrees (small large : Option (Deeper ν)) : Prop :=
  ∀ inner, small = some inner → ∃ outer, large = some outer ∧
    (∀ cursor, Agrees (inner.formula cursor) (outer.formula cursor)) ∧
    ∀ cursor, Agrees (inner.condition cursor) (outer.condition cursor)

section Limits

variable {vocabulary : Vocabulary ν} {limit : Nat} {small large : Option (Deeper ν)}

theorem tooDeep_depthFault (cursor : Cursor) (large : Except Fault α) :
    Agrees (throw (vocabulary.depthFault cursor)) large :=
  .inl ⟨_, vocabulary.nestingLimit, rfl, rfl⟩

theorem whole_agrees {smallParse largeParse : Cursor → Except Fault (α × Cursor)}
    (agrees : ∀ cursor, Agrees (smallParse cursor) (largeParse cursor)) (cursor : Cursor) :
    Agrees (whole smallParse cursor) (whole largeParse cursor) := by
  apply (agrees cursor).bind
  intro result
  exact .same _

theorem readAll_agrees {smallParse largeParse : Cursor → Except Fault α}
    (agrees : ∀ cursor, Agrees (smallParse cursor) (largeParse cursor)) (cursors : List Cursor) :
    Agrees (readAll smallParse cursors) (readAll largeParse cursors) := by
  induction cursors with
  | nil => exact .same _
  | cons cursor cursors induction =>
      apply (agrees cursor).bind
      intro value
      apply induction.bind
      intro values
      exact .same _

variable (deeper : DeeperAgrees small large)

include deeper

/-- Nothing stands deeper where a level is refused. -/
theorem enter_agrees {next other : Deeper ν → Except Fault α} (cursor : Cursor)
    (further : ∀ inner outer, (∀ cursor, Agrees (inner.formula cursor) (outer.formula cursor)) →
      (∀ cursor, Agrees (inner.condition cursor) (outer.condition cursor)) →
      Agrees (next inner) (other outer)) :
    Agrees (vocabulary.enter small cursor >>= next)
      ((vocabulary.limited limit).enter large cursor >>= other) := by
  cases small with
  | none => exact .inl ⟨_, vocabulary.nestingLimit, rfl, rfl⟩
  | some inner =>
      rcases deeper inner rfl with ⟨outer, rfl, formulas, conditions⟩
      exact further inner outer formulas conditions

theorem readGroup_agrees {parse : Deeper ν → Cursor → Except Fault (α × Cursor)}
    (agrees : ∀ inner outer : Deeper ν,
      (∀ cursor, Agrees (inner.formula cursor) (outer.formula cursor)) →
      (∀ cursor, Agrees (inner.condition cursor) (outer.condition cursor)) →
      ∀ cursor, Agrees (parse inner cursor) (parse outer cursor)) (cursor : Cursor) :
    Agrees (readGroup vocabulary small parse cursor)
      (readGroup (vocabulary.limited limit) large parse cursor) := by
  apply enter_agrees deeper
  intro inner outer formulas conditions
  apply (agrees inner outer formulas conditions (cursor.advance 1)).bind
  intro result
  exact .same _

theorem readCall_agrees (start : Nat) (name : List Char) (cursor : Cursor) :
    Agrees (readCall vocabulary small start name cursor)
      (readCall (vocabulary.limited limit) large start name cursor) := by
  have signatures : (vocabulary.limited limit).signature? (String.ofList name) =
      vocabulary.signature? (String.ofList name) := rfl
  simp only [readCall, signatures]
  cases vocabulary.signature? (String.ofList name) with
  | none => exact .same _
  | some signature =>
      apply enter_agrees deeper
      intro inner outer formulas conditions
      apply (Agrees.same _).bind
      intro ⟨arguments, stop⟩
      cases signature with
      | choose =>
          simp only
          split
          · apply (whole_agrees conditions _).bind
            intro test
            apply (whole_agrees formulas _).bind
            intro first
            apply (whole_agrees formulas _).bind
            intro second
            exact .same _
          · exact .same _
      | native accepted =>
          simp only
          split
          · apply (readAll_agrees (whole_agrees formulas) _).bind
            intro values
            exact .same _
          · exact .same _

theorem readOperand_agrees (after : Option Operator) (cursor : Cursor) :
    Agrees (readOperand vocabulary small after cursor)
      (readOperand (vocabulary.limited limit) large after cursor) := by
  have group (cursor : Cursor) : Agrees (readGroup vocabulary small Deeper.formula cursor)
      (readGroup (vocabulary.limited limit) large Deeper.formula cursor) :=
    readGroup_agrees deeper (fun _ _ formulas _ => formulas) cursor
  unfold readOperand
  simp only
  split
  · exact .same _
  · exact .same _
  · exact group _
  · unfold readAtom
    apply (Agrees.same _).bind
    intro ⟨token, stop⟩
    simp only
    generalize (if token.head? = some '-' then token.tail else token) = body
    generalize (if token.head? = some '-' then cursor.skip.index + 1 else cursor.skip.index) = start
    split
    · split
      · exact .same _
      · exact .same _
    · split
      · split
        · apply (group _).bind
          intro result
          exact .same _
        · exact .same _
      · split
        · apply (readCall_agrees deeper _ _ _).bind
          intro result
          exact .same _
        · exact .same _

theorem readChain_agrees {budget wider : Nat} (le : budget ≤ wider) (fuel : Nat) (chain : Chain ν)
    (cursor : Cursor) :
    Agrees (readChain vocabulary small budget fuel chain cursor)
      (readChain (vocabulary.limited limit) large wider fuel chain cursor) := by
  induction fuel generalizing chain cursor with
  | zero => exact .same _
  | succ fuel induction =>
      unfold readChain
      simp only
      split
      · exact .same _
      · exact .same _
      · split
        · exact .same _
        · apply (readOperand_agrees deeper _ _).bind
          intro ⟨term, stop⟩
          simp only
          split
          · exact tooDeep_depthFault stop _
          · rename_i fits
            rw [if_neg (fun high => fits (Nat.lt_of_le_of_lt le high))]
            exact induction _ stop

theorem readFormula_agrees {budget wider : Nat} (le : budget ≤ wider) (cursor : Cursor) :
    Agrees (readFormula vocabulary small budget cursor)
      (readFormula (vocabulary.limited limit) large wider cursor) := by
  have chain : Agrees
      (readOperand vocabulary small none cursor.skip >>= fun read =>
        readChain vocabulary small budget (read.2.rest.length + 1) (.start read.1) read.2)
      (readOperand (vocabulary.limited limit) large none cursor.skip >>= fun read =>
        readChain (vocabulary.limited limit) large wider (read.2.rest.length + 1) (.start read.1)
          read.2) := by
    apply (readOperand_agrees deeper none cursor.skip).bind
    intro ⟨term, stop⟩
    exact readChain_agrees deeper le _ _ stop
  unfold readFormula
  simp only
  split
  · exact .same _
  · exact .same _
  · split
    · exact chain
    · exact chain
    · exact .same _

theorem readCondition_agrees {smallParse largeParse : Cursor → Except Fault (Formula ν × Cursor)}
    (formulas : ∀ cursor, Agrees (smallParse cursor) (largeParse cursor)) (cursor : Cursor) :
    Agrees (readCondition vocabulary small smallParse cursor)
      (readCondition (vocabulary.limited limit) large largeParse cursor) := by
  have connective (left : Condition ν) (cursor : Cursor) :
      Agrees (readConnective vocabulary small left cursor)
        (readConnective (vocabulary.limited limit) large left cursor) := by
    unfold readConnective
    simp only
    split
    · exact .same _
    · exact .same _
    · split
      · exact .same _
      · split
        · exact .same _
        · split
          · exact .same _
          · apply enter_agrees deeper
            intro inner outer _ conditions
            apply (conditions _).bind
            intro result
            exact .same _
  have comparison (cursor : Cursor) :
      Agrees (readComparison smallParse cursor) (readComparison largeParse cursor) := by
    unfold readComparison
    simp only
    split
    · exact .same _
    · split
      · exact .same _
      · split
        · exact .same _
        · split
          · exact .same _
          · apply (whole_agrees formulas _).bind
            intro left
            apply (whole_agrees formulas _).bind
            intro right
            exact .same _
  unfold readCondition
  simp only
  split
  · exact .same _
  · exact .same _
  · split
    · exact .same _
    · split
      · apply (readGroup_agrees deeper (fun _ _ _ conditions => conditions) _).bind
        intro ⟨left, stop⟩
        exact connective left stop
      · apply (comparison _).bind
        intro ⟨left, stop⟩
        exact connective left stop

end Limits

/-- A greater limit only admits deeper texts. -/
theorem formula_condition_agree (vocabulary : Vocabulary ν) (limit : Nat) {budget wider : Nat}
    (le : budget ≤ wider) :
    (∀ cursor, Agrees (formula vocabulary budget cursor)
      (formula (vocabulary.limited limit) wider cursor)) ∧
    ∀ cursor, Agrees (condition vocabulary budget cursor)
      (condition (vocabulary.limited limit) wider cursor) := by
  induction budget generalizing wider with
  | zero =>
      have deeper :
          DeeperAgrees (levels vocabulary 0) (levels (vocabulary.limited limit) wider) := by
        intro inner present
        cases present
      rw [formula_eq, condition_eq, formula_eq, formula_eq, condition_eq, formula_eq]
      exact ⟨readFormula_agrees deeper le,
        readCondition_agrees deeper (readFormula_agrees deeper le)⟩
  | succ budget induction =>
      have deeper : DeeperAgrees (levels vocabulary (budget + 1))
          (levels (vocabulary.limited limit) wider) := by
        intro inner present
        cases present
        cases wider with
        | zero => exact absurd le (Nat.not_succ_le_zero budget)
        | succ wider => exact ⟨_, rfl, induction (Nat.le_of_succ_le_succ le)⟩
      rw [formula_eq, condition_eq, formula_eq, formula_eq, condition_eq, formula_eq]
      exact ⟨readFormula_agrees deeper le,
        readCondition_agrees deeper (readFormula_agrees deeper le)⟩

end NumericRules.Grammar
