import NumericRules.Proofs.Grammar.Rebinding
import NumericRules.Proofs.Grammar.StatementReading
import NumericRules.Proofs.Renaming

/-! # Reading statements with other names

Statements are read alike with the names of another vocabulary that knows theirs, also
further on in another text, and where returns are statements too. The operations of
registered names are the steps of a process by this.
-/

namespace NumericRules

namespace Grammar

open Text

/-! ## Further on in another text -/

section Moved

variable (shift : Nat) {separator argumentSeparator : Char}

theorem skipSeparators_moved (cursor : Cursor) :
    skipSeparators separator (cursor.moved shift) = (skipSeparators separator cursor).moved shift := by
  have further (inComment : Bool) (index : Nat) (text : List Char) :
      skipSeparatorsFrom separator inComment (index + shift) text =
        (skipSeparatorsFrom separator inComment index text).moved shift := by
    induction text generalizing inComment index with
    | nil => rfl
    | cons character rest induction =>
        simp only [skipSeparatorsFrom, Nat.add_right_comm index shift 1, induction]
        repeat' split
        all_goals rfl
  exact further false cursor.index cursor.rest

theorem nameAhead_moved (cursor : Cursor) :
    nameAhead separator (cursor.moved shift) = nameAhead separator cursor := by
  rw [nameAhead, Cursor.rest_moved]
  rfl

theorem behindName_moved (cursor : Cursor) :
    behindName separator (cursor.moved shift) = (behindName separator cursor).moved shift := by
  rw [behindName, nameAhead_moved, Cursor.advance_moved, Cursor.skip_moved]
  rfl

theorem returnAhead_moved (allowReturn : Bool) (cursor : Cursor) :
    returnAhead separator allowReturn (cursor.moved shift) =
      returnAhead separator allowReturn cursor := by
  rw [returnAhead, nameAhead_moved, behindName_moved, Cursor.next?_moved]
  rfl

theorem UpdateAt.moved {cursor next : Cursor} {update : Update}
    (updateAt : UpdateAt cursor update next) :
    UpdateAt (cursor.moved shift) update (next.moved shift) := by
  cases updateAt with
  | set isNext sets =>
      rw [← Cursor.advance_moved]
      exact .set ((Cursor.next?_moved cursor).trans isNext) sets
  | compound isNext isCompound second =>
      rw [← Cursor.advance_moved]
      exact .compound ((Cursor.next?_moved cursor).trans isNext) isCompound
        ((Cursor.second?_moved cursor).trans second)

/-- An extent further on in another text. -/
def Extent.moved (shift : Nat) (extent : Extent) : Extent :=
  { extent with stop := extent.stop + shift }

theorem Extent.operand_moved (depth index : Nat) :
    (operand depth index).moved shift = operand depth (index + shift) := by
  rw [moved, operand, operand, Nat.add_right_comm]

theorem Extent.operator_moved (extent : Extent) (index : Nat) :
    (extent.operator index).moved shift = (extent.moved shift).operator (index + shift) := by
  simp only [moved, operator, Nat.add_right_comm index 1 shift]

theorem Extent.operand?_moved {extent : Extent} {depth index : Nat} {found : Option Extent}
    (read : extent.operand? separator depth index = .ok found) :
    (extent.moved shift).operand? separator depth (index + shift) =
      .ok (found.map (Extent.moved shift)) := by
  have further (same : Except.ok (some (operand depth index)) = (.ok found : Except Fault _)) :
      (.ok (some (operand depth (index + shift))) : Except Fault _) =
        .ok (found.map (Extent.moved shift)) := by
    cases same
    rw [Option.map_some, operand_moved]
  have ended (same : Except.ok none = (.ok found : Except Fault _)) :
      (.ok none : Except Fault _) = .ok (found.map (Extent.moved shift)) := by
    cases same
    rfl
  unfold operand? at read ⊢
  refine ok_of_choice further (ok_of_choice (ok_of_choice ended ?_) ?_) read
  · exact ok_of_choice (ok_of_choice ended nofun) further
  · exact ok_of_choice nofun further

theorem Extent.read?_moved {extent : Extent} {index : Nat} {character : Char}
    {found : Option Extent}
    (read : extent.read? separator argumentSeparator index character = .ok found) :
    (extent.moved shift).read? separator argumentSeparator (index + shift) character =
      .ok (found.map (Extent.moved shift)) := by
  unfold read? at read ⊢
  refine ok_of_choice ?lineEnd (ok_of_choice ?separator (ok_of_choice ?blank (ok_of_choice
    ?bracket (ok_of_choice ?operator (operand?_moved shift))))) read
  case lineEnd | separator | blank =>
    intro same
    cases same
    rfl
  case bracket =>
    refine ok_of_choice nofun ?_
    intro same
    cases same
    rw [Option.map_some, operand_moved]
    rfl
  case operator =>
    intro same
    cases same
    rw [Option.map_some, operator_moved]

theorem valueEnd_moved {inComment : Bool} {extent : Extent} {index stop : Nat} {text : List Char}
    {next : Cursor}
    (found : valueEnd separator argumentSeparator inComment extent index text = .ok (stop, next)) :
    valueEnd separator argumentSeparator inComment (extent.moved shift) (index + shift) text =
      .ok (stop + shift, next.moved shift) := by
  induction inComment, text using scan_induction generalizing extent index with
  | nil =>
      cases found
      rfl
  | comment character rest goesOn induction =>
      rw [valueEnd_comment _ _ goesOn] at found ⊢
      rw [Nat.add_right_comm]
      exact induction found
  | opening rest second induction =>
      rw [valueEnd_opening _ _ second] at found ⊢
      rw [Nat.add_right_comm]
      exact induction found
  | code inComment character rest ends apart induction =>
      cases inComment with
      | true =>
          cases ends rfl
          rw [valueEnd_lineEnd] at found ⊢
          rw [Nat.add_right_comm]
          exact induction found
      | false =>
          rw [valueEnd_code _ _ apart] at found ⊢
          rw [Nat.add_right_comm]
          split at found
          · cases found
          · rename_i read
            cases found
            rw [Extent.read?_moved shift read]
            rfl
          · rename_i after read
            rw [Extent.read?_moved shift read]
            exact induction found

end Moved

/-! ## With other names -/

section Rebinding

variable {before : Vocabulary ν} {after : Vocabulary μ} {change : ν → μ}
  (extension : before.Extends change after) {allowReturn allowImage : Bool} (shift : Nat)

/-- No update begins with the bracket of a return. -/
theorem UpdateAt.not_opening {cursor next : Cursor} {update : Update}
    (updateAt : UpdateAt cursor update next) : cursor.next? ≠ some '(' := by
  intro opening
  cases updateAt with
  | set isNext sets =>
      cases opening.symm.trans isNext
      exact absurd sets (by decide)
  | compound isNext isCompound _ =>
      cases opening.symm.trans isNext
      cases isCompound

include extension

theorem ReturnOf.mirrored {arguments : List Cursor} {step : Step ν}
    (returnOf : ReturnOf before arguments step) :
    ReturnOf after (arguments.map (Cursor.moved shift)) (step.map change) := by
  cases returnOf with
  | always readValue => exact .always (wholeFormula_mirrored extension readValue shift)
  | tested readTest readValue =>
      exact .tested (wholeCondition_mirrored extension readTest shift)
        (wholeFormula_mirrored extension readValue shift)

theorem TargetAt.mirrored {cursor value : Cursor} {target : ν} {update : Update}
    (targetAt : TargetAt before allowReturn cursor target update value) :
    TargetAt after allowImage (cursor.moved shift) (change target) update (value.moved shift) := by
  rcases targetAt with ⟨_, ⟨behind, updateAt, rfl⟩, named, resolved⟩
  have updated : UpdateAt (behindName after.stepSeparator (cursor.moved shift)) update
      (behind.moved shift) := by
    rw [extension.stepSeparator, behindName_moved]
    exact updateAt.moved shift
  constructor
  · rw [returnAhead, decide_eq_false updated.not_opening, Bool.and_false]
  · exact ⟨behind.moved shift, updated, (Cursor.skip_moved behind).symm⟩
  · rwa [extension.stepSeparator, nameAhead_moved]
  · rw [extension.stepSeparator, nameAhead_moved]
    exact extension.resolve resolved

variable (allowed : allowReturn = true → allowImage = true)

include allowed

theorem StepAt.mirrored {cursor next : Cursor} {step : Step ν}
    (stepAt : StepAt before allowReturn cursor step next) :
    StepAt after allowImage (cursor.moved shift) (step.map change) (next.moved shift) := by
  cases stepAt with
  | returns isReturn split returnOf =>
      have bothAllowed : allowImage = allowReturn := by
        simp only [returnAhead, Bool.and_eq_true] at isReturn
        rw [isReturn.1.1, allowed isReturn.1.1]
      refine .returns ?_ ?_ (returnOf.mirrored extension shift)
      · rw [bothAllowed, extension.stepSeparator, returnAhead_moved, isReturn]
      · rw [extension.stepSeparator, extension.argumentSeparator, behindName_moved]
        exact readArguments_moved split
  | @assigns _ _ value _ last _ targetAt scanned valued readValue =>
      have extent : (value.moved shift).until (last + shift) = (value.until last).moved shift := by
        simp only [Cursor.until, Cursor.moved, Nat.add_sub_add_right]
      have scannedOn := valueEnd_moved shift scanned
      rw [← extension.stepSeparator, ← extension.argumentSeparator] at scannedOn
      refine .assigns (targetAt.mirrored extension shift) scannedOn ?_ ?_
      · rwa [extent, Cursor.rest_moved]
      · rw [extent]
        exact wholeFormula_mirrored extension readValue shift

theorem StepsAt.mirrored {cursor : Cursor} {steps : List (Step ν)}
    (stepsAt : StepsAt before allowReturn cursor steps) :
    StepsAt after allowImage (cursor.moved shift) (steps.map (Step.map change)) := by
  induction stepsAt with
  | nil atEnd =>
      exact .nil (by rwa [extension.stepSeparator, skipSeparators_moved, Cursor.rest_moved])
  | cons goesOn stepAt _ induction =>
      refine .cons ?_ ?_ induction
      · rwa [extension.stepSeparator, skipSeparators_moved, Cursor.rest_moved]
      · rw [extension.stepSeparator, skipSeparators_moved]
        exact stepAt.mirrored extension shift allowed

omit allowed

/-- Assignments are the steps of a process, where every name of theirs is known. -/
theorem wholeOperations_mirrored {text : List Char} {assignments : List (Assignment ν)}
    (read : wholeOperations before text = .ok assignments) :
    wholeProcess after text =
      .ok (assignments.map fun assignment => .assign (assignment.map change)) := by
  rcases wholeOperations_iff.mp read with ⟨nonempty, stepsAt⟩
  have mirrored : StepsAt after true (.start text) _ := stepsAt.mirrored extension 0 (fun _ => rfl)
  rw [List.map_map] at mirrored
  exact wholeProcess_iff.mpr ⟨mt List.map_eq_nil_iff.mp nonempty, mirrored⟩

end Rebinding

/-- Statements are read alike further on in another text. -/
theorem StepsAt.moved {vocabulary : Vocabulary ν} {allowReturn : Bool} {cursor : Cursor}
    {steps : List (Step ν)} (stepsAt : StepsAt vocabulary allowReturn cursor steps) (shift : Nat) :
    StepsAt vocabulary allowReturn (cursor.moved shift) steps := by
  have itself : vocabulary.Extends id vocabulary := ⟨fun known => known, rfl, rfl, rfl, rfl⟩
  have moved := stepsAt.mirrored itself shift id
  have same : steps.map (Step.map id) = steps := List.map_id'' Step.map_id steps
  rwa [same] at moved

end Grammar

namespace Engine

open Grammar

/-- In a process registered names are known, and stand for themselves. -/
theorem vocabulary_extends (engine : Engine σ) :
    (engine.vocabulary engine.reference?).Extends Reference.name (engine.vocabulary some) := by
  refine ⟨fun {name reference} known => ?_, rfl, rfl, rfl, rfl⟩
  rcases Option.map_eq_some_iff.mp known with ⟨id, _, rfl⟩
  rfl

/-- A text of assignments to registered names is the text of a process. -/
theorem readSteps_of_readOperations {engine : Engine σ} {text : String}
    {assignments : List (Assignment Reference)}
    (read : engine.readOperations text = .ok assignments) :
    engine.readSteps text =
      .ok (assignments.map fun assignment => .assign (assignment.map Reference.name)) := by
  by_cases size : text.utf8ByteSize ≤ engine.settings.maxSourceBytes
  · rw [readOperations, readText_eq_ok size] at read
    rw [readSteps, readText_eq_ok size]
    exact wholeOperations_mirrored engine.vocabulary_extends read
  · rw [readOperations, readText, if_pos (Nat.lt_of_not_le size)] at read
    cases read

end Engine

end NumericRules
