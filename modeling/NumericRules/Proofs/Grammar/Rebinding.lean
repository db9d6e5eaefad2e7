import NumericRules.Proofs.Grammar.Reading
import Mathlib.Data.Option.Basic

/-! # Reading with other names

A text that is read with the names of one vocabulary is read alike with those of
another that knows them too, also further on in another text. The trees differ by what
the names stand for.
-/

namespace NumericRules

/-! ## Heights -/

section Height

variable {ν μ : Type} (change : ν → μ)

mutual
theorem Formula.depth_map : (formula : Formula ν) → (formula.map change).depth = formula.depth
  | .constant _ => rfl
  | .name _ => rfl
  | .binary left _ right => by
      rw [Formula.map, Formula.depth, Formula.depth, left.depth_map, right.depth_map]
  | .negate inner => congrArg (1 + ·) inner.depth_map
  | .call _ arguments => congrArg (1 + ·) (Formula.depthAll_mapAll arguments)
  | .choose test whenTrue whenFalse => by
      rw [Formula.map, Formula.depth, Formula.depth, test.depth_map, whenTrue.depth_map,
        whenFalse.depth_map]

theorem Formula.depthAll_mapAll : (formulas : List (Formula ν)) →
    Formula.depthAll (Formula.mapAll change formulas) = Formula.depthAll formulas
  | [] => rfl
  | head :: tail => congrArg₂ max head.depth_map (Formula.depthAll_mapAll tail)

theorem Condition.depth_map : (condition : Condition ν) →
    (condition.map change).depth = condition.depth
  | .literal _ => rfl
  | .compare left _ right => by
      rw [Condition.map, Condition.depth, Condition.depth, left.depth_map, right.depth_map]
  | .connect left _ right => by
      rw [Condition.map, Condition.depth, Condition.depth, left.depth_map, right.depth_map]
end

end Height

namespace Grammar

/-! ## Chains -/

namespace Chain

def map (change : ν → μ) (chain : Chain ν) : Chain μ :=
  { left := chain.left.map change
    pending := chain.pending.map fun pending => (pending.1, pending.2.map change)
    leftDepth := chain.leftDepth
    rightDepth := chain.rightDepth }

variable {ν μ : Type} (change : ν → μ)

theorem map_start (term : Formula ν) : (start term).map change = start (term.map change) := by
  rw [start, start, term.depth_map]
  rfl

theorem map_push (chain : Chain ν) (operator : Operator) (term : Formula ν) :
    (chain.push operator term).map change = (chain.map change).push operator (term.map change) := by
  rcases chain with ⟨left, _ | ⟨pending, right⟩, leftDepth, rightDepth⟩
  · simp [push, map, term.depth_map]
  · simp only [push, map, Option.map_some, term.depth_map]
    split <;> rfl

theorem depth_map (chain : Chain ν) : (chain.map change).depth = chain.depth := by
  rcases chain with ⟨left, _ | pending, leftDepth, rightDepth⟩ <;> rfl

theorem map_finish (chain : Chain ν) :
    (chain.map change).finish = chain.finish.map change := by
  rcases chain with ⟨left, _ | pending, leftDepth, rightDepth⟩ <;> rfl

end Chain

/-! ## Moved cursors -/

namespace Cursor

/-- The cursor before the same text further on. -/
def moved (shift : Nat) (cursor : Cursor) : Cursor := ⟨cursor.index + shift, cursor.rest⟩

variable {shift : Nat}

@[simp]
theorem next?_moved (cursor : Cursor) : (cursor.moved shift).next? = cursor.next? := by
  cases cursor
  rfl

@[simp]
theorem second?_moved (cursor : Cursor) : (cursor.moved shift).second? = cursor.second? := by
  cases cursor
  rfl

@[simp]
theorem rest_moved (cursor : Cursor) : (cursor.moved shift).rest = cursor.rest := by
  cases cursor
  rfl

@[simp]
theorem isBlank_moved (cursor : Cursor) : (cursor.moved shift).isBlank = cursor.isBlank := by
  cases cursor
  rfl

@[simp]
theorem advance_moved (cursor : Cursor) (count : Nat) :
    (cursor.moved shift).advance count = (cursor.advance count).moved shift := by
  simp only [moved, advance, Nat.add_right_comm]

@[simp]
theorem upTo_moved (cursor stop : Cursor) :
    (cursor.moved shift).upTo (stop.moved shift) = (cursor.upTo stop).moved shift := by
  simp only [moved, upTo, Nat.add_sub_add_right]

theorem skipFrom_moved (inComment : Bool) (index : Nat) (text : List Char) :
    skipFrom inComment (index + shift) text = (skipFrom inComment index text).moved shift := by
  induction text generalizing inComment index with
  | nil => rfl
  | cons character rest induction =>
      simp only [skipFrom, Nat.add_right_comm index shift 1, induction]
      repeat' split
      all_goals rfl

@[simp]
theorem skip_moved (cursor : Cursor) : (cursor.moved shift).skip = cursor.skip.moved shift :=
  skipFrom_moved false cursor.index cursor.rest

theorem expectEnd_moved {cursor : Cursor} (atEnd : cursor.expectEnd = .ok ()) :
    (cursor.moved shift).expectEnd = .ok () := by
  have nothing : (cursor.moved shift).skip.next? = none := by
    rw [skip_moved]
    change cursor.skip.rest.head? = none
    rw [rest_of_expectEnd atEnd]
    rfl
  rw [expectEnd, nothing]
  rfl

end Cursor

section Scans

variable {shift : Nat} {separator : Char}

theorem tokenFrom_moved {read rest token : List Char} {index : Nat} {stop : Cursor}
    (found : tokenFrom separator read index rest = .ok (token, stop)) :
    tokenFrom separator read (index + shift) rest = .ok (token, stop.moved shift) := by
  induction rest generalizing read index with
  | nil =>
      cases found
      rfl
  | cons character rest induction =>
      unfold tokenFrom at found ⊢
      split at found
      · rename_i ends
        cases found
        rw [if_pos ends]
        rfl
      · rename_i goesOn
        rw [if_neg goesOn]
        split at found
        · cases found
        · rename_i plain
          rw [if_neg plain, Nat.add_right_comm]
          exact induction found

theorem splitFrom_moved {depth opening start index : Nat} {read rest : List Char}
    {found arguments : List Cursor} {stop : Cursor}
    (split : splitFrom separator opening depth start read found index rest =
      .ok (arguments, stop)) :
    splitFrom separator (opening + shift) depth (start + shift) read
        (found.map (Cursor.moved shift)) (index + shift) rest =
      .ok (arguments.map (Cursor.moved shift), stop.moved shift) := by
  induction rest generalizing depth start read found index with
  | nil => cases split
  | cons character rest induction =>
      unfold splitFrom at split ⊢
      simp only [Nat.add_right_comm index shift 1, List.isEmpty_map] at split ⊢
      refine ok_of_choice induction (ok_of_choice (ok_of_choice induction ?_) ?_) split
      · refine ok_of_choice (ok_of_choice ?_ ?_) ?_ <;> intro finished <;> cases finished
        · rfl
        · rw [List.map_reverse]
          rfl
      · refine ok_of_choice (ok_of_choice ?_ induction) induction
        intro failed
        cases failed

theorem readArguments_moved {cursor stop : Cursor} {arguments : List Cursor}
    (split : readArguments separator cursor = .ok (arguments, stop)) :
    readArguments separator (cursor.moved shift) =
      .ok (arguments.map (Cursor.moved shift), stop.moved shift) := by
  have further : splitFrom separator (cursor.index + shift) 0 (cursor.index + 1 + shift) [] []
      (cursor.index + 1 + shift) (cursor.rest.drop 1) =
        .ok (arguments.map (Cursor.moved shift), stop.moved shift) := splitFrom_moved split
  rw [Nat.add_right_comm] at further
  exact further

@[simp]
theorem skipOperand_moved (stopAtComparison : Bool) (cursor : Cursor) :
    skipOperand stopAtComparison (cursor.moved shift) =
      (skipOperand stopAtComparison cursor).moved shift := by
  have further (depth index : Nat) (text : List Char) :
      operandEnd stopAtComparison depth (index + shift) text =
        (operandEnd stopAtComparison depth index text).moved shift := by
    induction text generalizing depth index with
    | nil => rfl
    | cons character rest induction =>
        simp only [operandEnd, Nat.add_right_comm index shift 1, induction]
        repeat' split
        all_goals rfl
  exact further 0 cursor.index cursor.rest

@[simp]
theorem opensFormula_moved (cursor : Cursor) :
    opensFormula (cursor.moved shift) = opensFormula cursor := by
  cases cursor
  rfl

end Scans

/-! ## Parsers -/

/-- The second vocabulary knows the names of the first, as what they are changed to,
and is the same otherwise. -/
structure Vocabulary.Extends (before : Vocabulary ν) (change : ν → μ) (after : Vocabulary μ) :
    Prop where
  resolve : ∀ {name reference}, before.resolve? name = some reference →
    after.resolve? name = some (change reference)
  signature : after.signature? = before.signature?
  argumentSeparator : after.argumentSeparator = before.argumentSeparator
  stepSeparator : after.stepSeparator = before.stepSeparator
  nestingLimit : after.nestingLimit = before.nestingLimit

/-- What the first parser accepts the second accepts further on, with a changed result. -/
def Mirrors (shift : Nat) (change : α → β) (parse : Cursor → Except Fault (α × Cursor))
    (image : Cursor → Except Fault (β × Cursor)) : Prop :=
  ∀ cursor value stop, parse cursor = .ok (value, stop) →
    image (cursor.moved shift) = .ok (change value, stop.moved shift)

/-- The parsers for what stands deeper mirror each other. -/
structure Deeper.Mirrored (shift : Nat) (change : ν → μ) (deeper : Deeper ν) (image : Deeper μ) :
    Prop where
  formula : Mirrors shift (Formula.map change) deeper.formula image.formula
  condition : Mirrors shift (Condition.map change) deeper.condition image.condition

theorem Mirrors.whole {shift : Nat} {change : α → β} {parse : Cursor → Except Fault (α × Cursor)}
    {image : Cursor → Except Fault (β × Cursor)} (mirrors : Mirrors shift change parse image)
    {cursor : Cursor} {value : α} (read : whole parse cursor = .ok value) :
    whole image (cursor.moved shift) = .ok (change value) := by
  rcases ok_of_bind read with ⟨⟨_, stop⟩, parsed, read⟩
  rcases ok_of_bind read with ⟨_, atEnd, read⟩
  cases read
  rw [Grammar.whole, bind_of_ok (mirrors _ _ _ parsed)]
  exact bind_of_ok (Cursor.expectEnd_moved atEnd)

section Rebinding

variable {before : Vocabulary ν} {after : Vocabulary μ} {change : ν → μ} {shift : Nat}
  {deeper : Option (Deeper ν)} {image : Option (Deeper μ)}

theorem enter_mirrored (after : Vocabulary μ)
    (both : Option.Rel (Deeper.Mirrored shift change) deeper image) {cursor : Cursor}
    {inner : Deeper ν} (entered : before.enter deeper cursor = .ok inner) (place : Cursor) :
    ∃ other, after.enter image place = .ok other ∧ inner.Mirrored shift change other := by
  cases both with
  | none => cases entered
  | some mirrored =>
      cases entered
      exact ⟨_, rfl, mirrored⟩

theorem readGroup_mirrored {α β : Type} {part : α → β}
    (both : Option.Rel (Deeper.Mirrored shift change) deeper image)
    {parse : Deeper ν → Cursor → Except Fault (α × Cursor)}
    {parseImage : Deeper μ → Cursor → Except Fault (β × Cursor)}
    (mirrors : ∀ {inner other}, inner.Mirrored shift change other →
      Mirrors shift part (parse inner) (parseImage other)) :
    Mirrors shift part (readGroup before deeper parse) (readGroup after image parseImage) := by
  intro cursor value stop read
  rcases ok_of_bind read with ⟨inner, entered, read⟩
  rcases ok_of_bind read with ⟨⟨result, behind⟩, parsed, read⟩
  rcases enter_mirrored after both entered (cursor.moved shift) with
    ⟨other, alsoEntered, mirrored⟩
  rw [readGroup, bind_of_ok alsoEntered, Cursor.advance_moved,
    bind_of_ok (mirrors mirrored _ _ _ parsed)]
  simp only [Cursor.skip_moved, Cursor.next?_moved, Cursor.advance_moved] at read ⊢
  split at read
  · rename_i closed
    cases read
    rw [if_pos closed]
    rfl
  · cases read

theorem readAll_mirrored {parse : Cursor → Except Fault (Formula ν)}
    {parseImage : Cursor → Except Fault (Formula μ)}
    (mirrors : ∀ {cursor value}, parse cursor = .ok value →
      parseImage (cursor.moved shift) = .ok (value.map change))
    {arguments : List Cursor} {values : List (Formula ν)}
    (read : readAll parse arguments = .ok values) :
    readAll parseImage (arguments.map (Cursor.moved shift)) =
      .ok (Formula.mapAll change values) := by
  induction arguments generalizing values with
  | nil =>
      cases read
      rfl
  | cons argument rest induction =>
      rcases ok_of_bind read with ⟨value, parsed, read⟩
      rcases ok_of_bind read with ⟨others, parsedRest, read⟩
      cases read
      rw [List.map_cons, readAll, bind_of_ok (mirrors parsed), bind_of_ok (induction parsedRest)]
      rfl

theorem map_negateIf (negative : Bool) (formula : Formula ν) :
    (negateIf negative formula).map change = negateIf negative (formula.map change) := by
  cases negative <;> rfl

variable (extension : before.Extends change after)

include extension

theorem resolve_mirrored {name : List Char} {start : Nat} {cursor : Cursor} {reference : ν}
    (resolved : before.resolve name start cursor = .ok reference) (other : Nat)
    (place : Cursor) : after.resolve name other place = .ok (change reference) := by
  unfold Vocabulary.resolve at resolved ⊢
  split at resolved
  · rename_i known
    cases resolved
    rw [extension.resolve known]
    rfl
  · cases resolved

theorem readCall_mirrored (both : Option.Rel (Deeper.Mirrored shift change) deeper image)
    (start other : Nat) (name : List Char) :
    Mirrors shift (Formula.map change) (readCall before deeper start name)
      (readCall after image other name) := by
  intro cursor value stop read
  unfold readCall at read ⊢
  rw [extension.signature, extension.argumentSeparator]
  split at read
  · cases read
  · rename_i signature known
    rcases ok_of_bind read with ⟨inner, entered, read⟩
    rcases ok_of_bind read with ⟨⟨arguments, behind⟩, found, read⟩
    rcases enter_mirrored after both entered (cursor.moved shift) with
      ⟨other, alsoEntered, mirrored⟩
    rw [bind_of_ok alsoEntered, bind_of_ok (readArguments_moved found)]
    dsimp only at read ⊢
    cases signature with
    | choose =>
        dsimp only at read ⊢
        split at read
        · rcases ok_of_bind read with ⟨test, readTest, read⟩
          rcases ok_of_bind read with ⟨whenTrue, readTrue, read⟩
          rcases ok_of_bind read with ⟨whenFalse, readFalse, read⟩
          cases read
          simp only [List.map_cons, List.map_nil]
          rw [bind_of_ok (mirrored.condition.whole readTest),
            bind_of_ok (mirrored.formula.whole readTrue),
            bind_of_ok (mirrored.formula.whole readFalse)]
          rfl
        · cases read
    | native accepted =>
        dsimp only at read ⊢
        split at read
        · rename_i counted
          rcases ok_of_bind read with ⟨values, readValues, read⟩
          cases read
          rw [List.length_map, if_pos counted,
            bind_of_ok (readAll_mirrored mirrored.formula.whole readValues)]
          rfl
        · cases read

theorem readAtom_mirrored (both : Option.Rel (Deeper.Mirrored shift change) deeper image)
    (following : Option Operator) :
    Mirrors shift (Formula.map change) (readAtom before deeper following)
      (readAtom after image following) := by
  intro cursor value stop read
  unfold readAtom at read ⊢
  rw [extension.argumentSeparator]
  rcases ok_of_bind read with ⟨⟨token, behind⟩, found, read⟩
  have foundImage : readToken before.argumentSeparator (cursor.moved shift) =
      .ok (token, behind.moved shift) := tokenFrom_moved found
  rw [bind_of_ok foundImage]
  simp only [Cursor.next?_moved] at read ⊢
  generalize (if token.head? = some '-' then token.tail else token) = body at read ⊢
  split at read
  · rename_i numeric
    rw [if_pos numeric]
    split at read
    · cases read
      rfl
    · cases read
  · rename_i notNumeric
    rw [if_neg notNumeric]
    split at read
    · rename_i empty
      rw [if_pos empty]
      split at read
      · rename_i opened
        rw [if_pos opened]
        rcases ok_of_bind read with ⟨⟨inner, closed⟩, readInner, read⟩
        cases read
        rw [bind_of_ok (readGroup_mirrored both Deeper.Mirrored.formula _ _ _ readInner)]
        rfl
      · cases read
    · rename_i filled
      rw [if_neg filled]
      split at read
      · rename_i opened
        rw [if_pos opened]
        rcases ok_of_bind read with ⟨⟨call, closed⟩, called, read⟩
        cases read
        rw [bind_of_ok (readCall_mirrored extension both _ _ _ _ _ _ called), map_negateIf]
        rfl
      · rename_i alone
        rw [if_neg alone]
        rcases ok_of_bind read with ⟨reference, resolved, read⟩
        cases read
        rw [bind_of_ok (resolve_mirrored extension resolved _ _), map_negateIf]
        rfl

theorem readOperand_mirrored (both : Option.Rel (Deeper.Mirrored shift change) deeper image)
    (following : Option Operator) :
    Mirrors shift (Formula.map change) (readOperand before deeper following)
      (readOperand after image following) := by
  intro cursor value stop read
  unfold readOperand at read ⊢
  simp only [Cursor.skip_moved, Cursor.next?_moved] at read ⊢
  split at read
  · cases read
  · cases read
  · exact readGroup_mirrored both Deeper.Mirrored.formula _ _ _ read
  · exact readAtom_mirrored extension both following _ _ _ read

theorem readChain_mirrored (both : Option.Rel (Deeper.Mirrored shift change) deeper image)
    (budget fuel : Nat) (chain : Chain ν) :
    Mirrors shift (Formula.map change) (readChain before deeper budget fuel chain)
      (readChain after image budget fuel (chain.map change)) := by
  induction fuel generalizing chain with
  | zero =>
      intro cursor value stop read
      cases read
      rw [readChain, chain.map_finish]
  | succ fuel induction =>
      intro cursor value stop read
      unfold readChain at read ⊢
      simp only [Cursor.skip_moved, Cursor.next?_moved, Cursor.advance_moved] at read ⊢
      split at read
      · cases read
        rw [chain.map_finish]
        rfl
      · cases read
        rw [chain.map_finish]
        rfl
      · split at read
        · cases read
        · rename_i operator isOperator
          rcases ok_of_bind read with ⟨⟨term, behind⟩, readTerm, read⟩
          rw [bind_of_ok (readOperand_mirrored extension both _ _ _ _ readTerm)]
          dsimp only at read ⊢
          split at read
          · cases read
          · rename_i low
            rw [← chain.map_push, Chain.depth_map, if_neg low]
            exact induction _ _ _ _ read

theorem readFormula_mirrored (both : Option.Rel (Deeper.Mirrored shift change) deeper image)
    (budget : Nat) :
    Mirrors shift (Formula.map change) (readFormula before deeper budget)
      (readFormula after image budget) := by
  intro cursor value stop read
  unfold readFormula at read ⊢
  simp only [Cursor.skip_moved, Cursor.next?_moved] at read ⊢
  split at read
  · cases read
  · cases read
  · split at read
    · rcases ok_of_bind read with ⟨⟨term, behind⟩, readTerm, read⟩
      rw [bind_of_ok (readOperand_mirrored extension both _ _ _ _ readTerm)]
      dsimp only
      rw [← Chain.map_start]
      exact readChain_mirrored extension both budget _ _ _ _ _ read
    · rcases ok_of_bind read with ⟨⟨term, behind⟩, readTerm, read⟩
      rw [bind_of_ok (readOperand_mirrored extension both _ _ _ _ readTerm)]
      dsimp only
      rw [← Chain.map_start]
      exact readChain_mirrored extension both budget _ _ _ _ _ read
    · cases read

omit extension in
theorem readComparison_mirrored {parse : Cursor → Except Fault (Formula ν × Cursor)}
    {parseImage : Cursor → Except Fault (Formula μ × Cursor)}
    (mirrors : Mirrors shift (Formula.map change) parse parseImage) :
    Mirrors shift (Condition.map change) (readComparison parse) (readComparison parseImage) := by
  intro cursor value stop read
  unfold readComparison at read ⊢
  simp only [skipOperand_moved, Cursor.upTo_moved, Cursor.rest_moved, Cursor.advance_moved,
    Cursor.isBlank_moved] at read ⊢
  split at read
  · cases read
  · rename_i filled
    rw [if_neg filled]
    split at read
    · rename_i alone
      rw [if_pos alone]
      split at read
      · cases read
        rfl
      · cases read
    · rename_i compared
      rw [if_neg compared]
      split at read
      · cases read
      · split at read
        · cases read
        · rename_i rightFilled
          rw [if_neg rightFilled]
          rcases ok_of_bind read with ⟨left, readLeft, read⟩
          rcases ok_of_bind read with ⟨right, readRight, read⟩
          cases read
          rw [bind_of_ok (mirrors.whole readLeft), bind_of_ok (mirrors.whole readRight)]
          rfl

omit extension in
theorem readConnective_mirrored (both : Option.Rel (Deeper.Mirrored shift change) deeper image)
    (left : Condition ν) :
    Mirrors shift (Condition.map change) (readConnective before deeper left)
      (readConnective after image (left.map change)) := by
  intro cursor value stop read
  unfold readConnective at read ⊢
  simp only [Cursor.skip_moved, Cursor.next?_moved, Cursor.second?_moved,
    Cursor.advance_moved] at read ⊢
  split at read
  · cases read
    rfl
  · cases read
    rfl
  · split at read
    · cases read
    · split at read
      · cases read
      · rename_i doubled
        rw [if_neg doubled]
        split at read
        · cases read
        · rename_i goesOn
          rw [if_neg goesOn]
          rcases ok_of_bind read with ⟨inner, entered, read⟩
          rcases ok_of_bind read with ⟨⟨right, behind⟩, readRight, read⟩
          cases read
          rcases enter_mirrored after both entered
            ((cursor.skip.advance 2).skip.moved shift) with ⟨other, alsoEntered, mirrored⟩
          rw [bind_of_ok alsoEntered, bind_of_ok (mirrored.condition _ _ _ readRight)]
          rfl

omit extension in
theorem readCondition_mirrored (both : Option.Rel (Deeper.Mirrored shift change) deeper image)
    {parse : Cursor → Except Fault (Formula ν × Cursor)}
    {parseImage : Cursor → Except Fault (Formula μ × Cursor)}
    (mirrors : Mirrors shift (Formula.map change) parse parseImage) :
    Mirrors shift (Condition.map change) (readCondition before deeper parse)
      (readCondition after image parseImage) := by
  intro cursor value stop read
  unfold readCondition at read ⊢
  simp only [Cursor.skip_moved, Cursor.next?_moved, opensFormula_moved] at read ⊢
  split at read
  · cases read
  · cases read
  · split at read
    · cases read
    · rename_i operand
      rw [if_neg operand]
      split at read
      · rename_i grouped
        rw [if_pos grouped]
        rcases ok_of_bind read with ⟨⟨left, behind⟩, readLeft, read⟩
        rw [bind_of_ok (readGroup_mirrored both Deeper.Mirrored.condition _ _ _ readLeft)]
        exact readConnective_mirrored both left _ _ _ read
      · rename_i compared
        rw [if_neg compared]
        rcases ok_of_bind read with ⟨⟨left, behind⟩, readLeft, read⟩
        rw [bind_of_ok (readComparison_mirrored mirrors _ _ _ readLeft)]
        exact readConnective_mirrored both left _ _ _ read

theorem formula_condition_mirrored (shift budget : Nat) :
    Mirrors shift (Formula.map change) (formula before budget) (formula after budget) ∧
      Mirrors shift (Condition.map change) (condition before budget) (condition after budget) := by
  induction budget with
  | zero =>
      have formulas : Mirrors shift (Formula.map change) (readFormula before none 0)
          (readFormula after none 0) := readFormula_mirrored extension .none 0
      exact ⟨formulas, readCondition_mirrored .none formulas⟩
  | succ budget induction =>
      have both : Option.Rel (Deeper.Mirrored shift change)
          (some ⟨formula before budget, condition before budget⟩)
          (some ⟨formula after budget, condition after budget⟩) :=
        .some ⟨induction.1, induction.2⟩
      have formulas := readFormula_mirrored extension both (budget + 1)
      exact ⟨formulas, readCondition_mirrored both formulas⟩

/-- A formula is read alike further on in another text. -/
theorem wholeFormula_mirrored {cursor : Cursor} {value : Formula ν}
    (read : wholeFormula before cursor = .ok value) (shift : Nat) :
    wholeFormula after (cursor.moved shift) = .ok (value.map change) := by
  rw [wholeFormula, extension.nestingLimit]
  exact (formula_condition_mirrored extension shift _).1.whole read

theorem wholeCondition_mirrored {cursor : Cursor} {test : Condition ν}
    (read : wholeCondition before cursor = .ok test) (shift : Nat) :
    wholeCondition after (cursor.moved shift) = .ok (test.map change) := by
  rw [wholeCondition, extension.nestingLimit]
  exact (formula_condition_mirrored extension shift _).2.whole read

end Rebinding

end Grammar

end NumericRules
