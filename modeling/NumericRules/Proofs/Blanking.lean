import Mathlib.Data.String.Basic
import NumericRules.Proofs.Grammar.BlankedStatements
import NumericRules.Proofs.ValueForm

/-! # Texts with blanked comments

Blanks in place of unobtrusive comments change the outcome of no reading, whatever the
language.
-/

namespace NumericRules

open Grammar

/-! ## Texts -/

/-- The text with blanks in place of comments. -/
def blankText (text : String) : String := String.ofList (blankComments text.toList)

/-- Whether a language heeds none of a text's comments. Throughout a condition they are
heeded like those inside the brackets of a call. -/
def Language.ignoresComments (language : Language) (text : String) : Bool :=
  unobtrusiveFrom false false (if language = .condition then 1 else 0) false text.toList

theorem toList_blankText (text : String) : (blankText text).toList = blankComments text.toList :=
  String.toList_ofList

/-- A blank takes no more room than what it stands for. -/
theorem utf8Len_blankFrom_le (inComment : Bool) (text : List Char) :
    String.utf8Len (blankFrom inComment text) ≤ String.utf8Len text := by
  have space (character : Char) : Char.utf8Size ' ' ≤ character.utf8Size :=
    Char.utf8Size_pos character
  induction inComment, text using scan_induction with
  | nil => exact Nat.le_refl _
  | comment character rest goesOn induction =>
      rw [blankFrom_comment goesOn]
      exact Nat.add_le_add induction (space character)
  | opening rest second induction =>
      rw [blankFrom_opening second]
      exact Nat.add_le_add induction (space '/')
  | code inComment character rest ends apart induction =>
      rw [blankFrom_code ends apart]
      exact Nat.add_le_add_right induction _

theorem utf8ByteSize_blankText_le (text : String) :
    (blankText text).utf8ByteSize ≤ text.utf8ByteSize := by
  have size := utf8Len_blankFrom_le false text.toList
  rwa [← String.utf8ByteSize_ofList, ← String.utf8ByteSize_ofList, String.ofList_toList] at size

/-! ## Outcomes -/

/-- The same result and the same state behind it, or both refused. -/
def SameOutcome (first other : Run σ (Except Error α)) : Prop :=
  Except.toOption <$> first = Except.toOption <$> other

namespace Engine

theorem numbered_sameOutcome {first other : Except Error α}
    (same : first.toOption = other.toOption) (rule : RuleId → α → β) :
    SameOutcome (numbered first rule : Run σ _) (numbered other rule) := by
  cases first with
  | error fault =>
      cases other with
      | error _ => rfl
      | ok _ => cases same
  | ok content =>
      cases other with
      | error _ => cases same
      | ok _ =>
          cases same
          rfl

/-- A text is read like the text with its comments blanked if the two are parsed alike and
are both too long or both not. -/
theorem readText_blank {engine : Engine σ} {text : String}
    (fits : text.utf8ByteSize ≤ engine.settings.maxSourceBytes ∨
      engine.settings.maxSourceBytes < (blankText text).utf8ByteSize)
    {parse : List Char → Except Fault α}
    (alike : Alike Eq (parse text.toList) (parse (blankComments text.toList)))
    (language : Language) :
    (engine.readText language text parse).toOption =
      (engine.readText language (blankText text) parse).toOption := by
  have shorter := utf8ByteSize_blankText_le text
  rw [readText, readText, toList_blankText]
  rcases fits with fits | tooLong
  · rw [if_neg (Nat.not_lt_of_le fits), if_neg (Nat.not_lt_of_le (Nat.le_trans shorter fits))]
    generalize parse text.toList = outcome at alike ⊢
    generalize parse (blankComments text.toList) = other at alike ⊢
    cases alike with
    | refused => rfl
    | accepted equal =>
        rw [equal]
        rfl
  · rw [if_pos (Nat.lt_of_lt_of_le tooLong shorter), if_pos tooLong]
    rfl

/-- Where commas separate arguments and blanks separate statements, blanks in place of
comments that a language does not heed change nothing but where a text is refused. -/
theorem sameOutcome_blankText (engine : Engine σ)
    (comma : engine.settings.argumentSeparator = ',')
    (space : engine.settings.stepSeparator = ' ') (text : String)
    (fits : text.utf8ByteSize ≤ engine.settings.maxSourceBytes ∨
      engine.settings.maxSourceBytes < (blankText text).utf8ByteSize) :
    (Language.formula.ignoresComments text = true →
      SameOutcome (engine.parseFormula text) (engine.parseFormula (blankText text))) ∧
    (Language.condition.ignoresComments text = true →
      SameOutcome (engine.parseCondition text) (engine.parseCondition (blankText text))) ∧
    (Language.operation.ignoresComments text = true →
      SameOutcome (engine.parseOperations text) (engine.parseOperations (blankText text))) ∧
    (Language.process.ignoresComments text = true →
      SameOutcome (engine.parseProcess text) (engine.parseProcess (blankText text))) := by
  refine ⟨fun ignored => ?_, fun ignored => ?_, fun ignored => ?_, fun ignored => ?_⟩
  · apply numbered_sameOutcome
    apply readText_blank fits
    have blanked : Blanked false false 0 false text.toList (blankComments text.toList) :=
      .of_text ignored
    exact wholeFormula_blanked comma blanked
  · apply numbered_sameOutcome
    apply readText_blank fits
    have blanked : Blanked false false 1 false text.toList (blankComments text.toList) :=
      .of_text ignored
    exact wholeCondition_blanked comma blanked
  · exact numbered_sameOutcome
      (readText_blank fits (wholeOperations_blank comma space ignored) .operation) _
  · exact numbered_sameOutcome
      (readText_blank fits (wholeProcess_blank comma space ignored) .process) _

/-! ### Comments that are ignored and one that is heeded -/

/-- A text of each language with a comment in it. -/
def boundText : String := "Min(x, 2 // upper bound\n)"

def rangeText : String := "x > 1 // large enough\n&& x < 4"

def startText : String := "x = 2 // at first, (as measured)\nx += 1"

def returnText : String := "x = 2 Return(x > 1 // still\n, x)"

theorem sameOutcome_blankText_accepted :
    measuring.settings.argumentSeparator = ',' ∧ measuring.settings.stepSeparator = ' ' ∧
    (∃ tree, measuring.readFormula boundText = .ok tree) ∧
    SameOutcome (measuring.parseFormula boundText) (measuring.parseFormula (blankText boundText)) ∧
    (∃ tree, measuring.readCondition rangeText = .ok tree) ∧
    SameOutcome (measuring.parseCondition rangeText)
      (measuring.parseCondition (blankText rangeText)) ∧
    (∃ assignments, measuring.readOperations startText = .ok assignments) ∧
    SameOutcome (measuring.parseOperations startText)
      (measuring.parseOperations (blankText startText)) ∧
    (∃ steps, measuring.readSteps returnText = .ok steps) ∧
    SameOutcome (measuring.parseProcess returnText)
      (measuring.parseProcess (blankText returnText)) := by
  have same (text : String) (fits : text.utf8ByteSize ≤ measuring.settings.maxSourceBytes) :=
    sameOutcome_blankText measuring rfl rfl text (.inl fits)
  exact ⟨rfl, rfl, ⟨_, rfl⟩, (same boundText (by decide)).1 (by decide), ⟨_, rfl⟩,
    (same rangeText (by decide)).2.1 (by decide), ⟨_, rfl⟩,
    (same startText (by decide)).2.2.1 (by decide), ⟨_, rfl⟩,
    (same returnText (by decide)).2.2.2 (by decide)⟩

/-- A comment with a comma between the arguments of a call. -/
def largerText : String := "Max(1, // the larger, of both\n2)"

/-- The comma of the comment separates arguments, and the text is refused. -/
theorem comment_separates_arguments :
    (∃ fault, measuring.readFormula largerText = .error fault) ∧
    measuring.readFormula (blankText largerText) =
      .ok (.call "Max" [.constant ⟨0x3ff0000000000000⟩, .constant ⟨0x4000000000000000⟩]) ∧
    ¬ SameOutcome (measuring.parseFormula largerText)
      (measuring.parseFormula (blankText largerText)) := by
  have refused : ∃ fault, measuring.readFormula largerText = .error fault := ⟨_, rfl⟩
  have accepted : measuring.readFormula (blankText largerText) =
      .ok (.call "Max" [.constant ⟨0x3ff0000000000000⟩, .constant ⟨0x4000000000000000⟩]) := rfl
  refine ⟨refused, accepted, fun same => ?_⟩
  rcases refused with ⟨fault, refused⟩
  have answers := congrFun same (measuring.start 0 (.ofSeed 0))
  unfold parseFormula at answers
  rw [refused, accepted] at answers
  cases answers

end Engine

end NumericRules
