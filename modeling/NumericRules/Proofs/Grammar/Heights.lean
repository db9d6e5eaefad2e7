import NumericRules.Grammar.Statement
import NumericRules.Proofs.Grammar.Chain
import NumericRules.Proofs.Grammar.Cursor
import NumericRules.Proofs.Grammar.Limits

/-! # How high a tree that was read can be

A level of nesting adds at most four to the height of a formula: a minus before a call,
the call, and a connective whose left side is a comparison. Brackets take a level and
add nothing, while minuses and comparisons add to the height and take no level.
-/

namespace NumericRules.Grammar

/-! ## Chains -/

namespace Chain

/-- The heights kept with a chain are those of its trees after every operand. -/
theorem Complete.pushed {chain : Chain ν} {tree : Formula ν} (complete : Complete 0 chain tree)
    (operator : Operator) (term : Formula ν) :
    ∃ next, Complete 0 (chain.push operator term) next := by
  have joins (left : Formula ν) (operator : Operator) (right : Formula ν) :
      ∃ next, Complete 0 (Chain.joined left operator right) next :=
    ⟨_, .joined left right (Nat.zero_le _)⟩
  cases complete with
  | start => exact joins tree operator term
  | @joined pending left right _ =>
      by_cases closes : operator.precedence ≤ pending.precedence
      · rw [push_joined_of_le closes]
        exact joins _ operator term
      · rw [push_joined_of_lt (Nat.lt_of_not_le closes)]
        exact joins left pending _

end Chain

/-! ## One level -/

/-- Bounds for the heights of formulas and conditions of one level that allow for what
stands deeper. -/
structure Bounds (deeper : Option (Deeper ν)) (formulas conditions : Nat) : Prop where
  negation : 1 ≤ formulas
  call : deeper ≠ none → 2 ≤ formulas
  comparison : formulas + 1 ≤ conditions
  connective : deeper ≠ none → formulas + 2 ≤ conditions
  formula : ∀ inner, deeper = some inner → ∀ cursor tree stop,
    inner.formula cursor = .ok (tree, stop) → tree.depth + 2 ≤ formulas
  condition : ∀ inner, deeper = some inner → ∀ cursor tree stop,
    inner.condition cursor = .ok (tree, stop) → tree.depth + 2 ≤ formulas

theorem ok_of_enter {vocabulary : Vocabulary ν} {deeper : Option (Deeper ν)} {cursor : Cursor}
    {inner : Deeper ν} (entered : vocabulary.enter deeper cursor = .ok inner) :
    deeper = some inner := by
  cases deeper with
  | none => cases entered
  | some other =>
      cases entered
      rfl

section Level

variable {vocabulary : Vocabulary ν} {deeper : Option (Deeper ν)} {formulas conditions : Nat}
  {cursor stop : Cursor}

/-- What stands between brackets is read one level deeper. -/
theorem inner_of_readGroup {parse : Deeper ν → Cursor → Except Fault (α × Cursor)} {result : α}
    (read : readGroup vocabulary deeper parse cursor = .ok (result, stop)) :
    ∃ inner, deeper = some inner ∧
      ∃ behind, parse inner (cursor.advance 1) = .ok (result, behind) := by
  rcases ok_of_bind read with ⟨inner, entered, read⟩
  rcases ok_of_bind read with ⟨⟨found, behind⟩, parsed, read⟩
  dsimp only at read
  split at read
  · cases read
    exact ⟨inner, ok_of_enter entered, behind, parsed⟩
  · cases read

theorem depth_negateIf_le (negative : Bool) (tree : Formula ν) :
    (negateIf negative tree).depth ≤ tree.depth + 1 := by
  cases negative
  · exact Nat.le_succ _
  · exact Nat.le_of_eq (Nat.add_comm 1 tree.depth)

/-- Arguments are no higher than every formula that is read in full. -/
theorem depthAll_of_readAll {parse : Cursor → Except Fault (Formula ν)} {bound : Nat}
    (bounded : ∀ cursor tree, parse cursor = .ok tree → tree.depth ≤ bound)
    {cursors : List Cursor} {trees : List (Formula ν)} (read : readAll parse cursors = .ok trees) :
    Formula.depthAll trees ≤ bound := by
  induction cursors generalizing trees with
  | nil =>
      cases read
      exact Nat.zero_le _
  | cons cursor cursors induction =>
      rcases ok_of_bind read with ⟨first, readFirst, read⟩
      rcases ok_of_bind read with ⟨others, readOthers, read⟩
      cases read
      exact Nat.max_le.mpr ⟨bounded cursor first readFirst, induction readOthers⟩

/-- Every operator that is read is checked against the levels that are left. -/
theorem depth_of_readChain {budget fuel : Nat} (le : budget ≤ formulas) {chain : Chain ν}
    {first tree : Formula ν} (complete : Chain.Complete 0 chain first)
    (bounded : first.depth ≤ formulas)
    (read : readChain vocabulary deeper budget fuel chain cursor = .ok (tree, stop)) :
    tree.depth ≤ formulas := by
  induction fuel generalizing chain first cursor with
  | zero =>
      cases read
      rwa [complete.finish]
  | succ fuel induction =>
      unfold readChain at read
      dsimp only at read
      split at read
      · cases read
        rwa [complete.finish]
      · cases read
        rwa [complete.finish]
      · split at read
        · cases read
        · rename_i operator _
          rcases ok_of_bind read with ⟨⟨term, behind⟩, _, read⟩
          dsimp only at read
          split at read
          · cases read
          · rename_i low
            rcases complete.pushed operator term with ⟨next, pushed⟩
            have nextBound : next.depth ≤ formulas := by
              rw [← pushed.depth]
              exact Nat.le_trans (Nat.le_of_not_lt low) le
            exact induction pushed nextBound read

/-- Comparing adds to the height of the compared formulas. -/
theorem depth_of_readComparison {parse : Cursor → Except Fault (Formula ν × Cursor)}
    (bounded : ∀ cursor tree stop, parse cursor = .ok (tree, stop) → tree.depth ≤ formulas)
    {tree : Condition ν} (read : readComparison parse cursor = .ok (tree, stop)) :
    tree.depth ≤ formulas + 1 := by
  have compared {cursor : Cursor} {tree : Formula ν} (read : whole parse cursor = .ok tree) :
      tree.depth ≤ formulas := by
    rcases whole_eq_ok read with ⟨behind, parsed, _⟩
    exact bounded cursor tree behind parsed
  unfold readComparison at read
  dsimp only at read
  split at read
  · cases read
  · split at read
    · split at read
      · cases read
        exact Nat.zero_le _
      · cases read
    · split at read
      · cases read
      · split at read
        · cases read
        · rcases ok_of_bind read with ⟨left, readLeft, read⟩
          rcases ok_of_bind read with ⟨right, readRight, read⟩
          cases read
          have leftBound := compared readLeft
          have rightBound := compared readRight
          rw [Condition.depth]
          omega

variable (bounds : Bounds deeper formulas conditions)

include bounds

theorem Bounds.wholeFormula {inner : Deeper ν} (present : deeper = some inner) {tree : Formula ν}
    (read : whole inner.formula cursor = .ok tree) : tree.depth + 2 ≤ formulas := by
  rcases whole_eq_ok read with ⟨_, parsed, _⟩
  exact bounds.formula inner present _ _ _ parsed

theorem Bounds.wholeCondition {inner : Deeper ν} (present : deeper = some inner)
    {tree : Condition ν} (read : whole inner.condition cursor = .ok tree) :
    tree.depth + 2 ≤ formulas := by
  rcases whole_eq_ok read with ⟨_, parsed, _⟩
  exact bounds.condition inner present _ _ _ parsed

/-- A call leaves room for a minus before it. -/
theorem depth_of_readCall {start : Nat} {name : List Char} {tree : Formula ν}
    (read : readCall vocabulary deeper start name cursor = .ok (tree, stop)) :
    tree.depth + 1 ≤ formulas := by
  unfold readCall at read
  split at read
  · cases read
  · rename_i signature _
    rcases ok_of_bind read with ⟨inner, entered, read⟩
    rcases ok_of_bind read with ⟨⟨arguments, behind⟩, _, read⟩
    have present := ok_of_enter entered
    cases signature with
    | choose =>
        dsimp only at read
        split at read
        · rcases ok_of_bind read with ⟨test, readTest, read⟩
          rcases ok_of_bind read with ⟨first, readFirst, read⟩
          rcases ok_of_bind read with ⟨second, readSecond, read⟩
          cases read
          have testBound := bounds.wholeCondition present readTest
          have firstBound := bounds.wholeFormula present readFirst
          have secondBound := bounds.wholeFormula present readSecond
          rw [Formula.depth]
          omega
        · cases read
    | native accepted =>
        dsimp only at read
        split at read
        · rcases ok_of_bind read with ⟨trees, readTrees, read⟩
          cases read
          have argumentBound : ∀ cursor tree, whole inner.formula cursor = .ok tree →
              tree.depth ≤ formulas - 2 := fun _ _ readTree =>
            Nat.le_sub_of_add_le (bounds.wholeFormula present readTree)
          have listBound := depthAll_of_readAll argumentBound readTrees
          have room := bounds.call (by rw [present]; exact Option.some_ne_none inner)
          rw [Formula.depth]
          omega
        · cases read

theorem depth_of_formulaGroup {tree : Formula ν}
    (read : readGroup vocabulary deeper Deeper.formula cursor = .ok (tree, stop)) :
    tree.depth + 2 ≤ formulas := by
  rcases inner_of_readGroup read with ⟨inner, present, _, parsed⟩
  exact bounds.formula inner present _ _ _ parsed

theorem depth_of_readAtom {after : Option Operator} {tree : Formula ν}
    (read : readAtom vocabulary deeper after cursor = .ok (tree, stop)) :
    tree.depth ≤ formulas := by
  rcases ok_of_bind read with ⟨⟨token, behind⟩, _, read⟩
  dsimp only at read
  generalize (if token.head? = some '-' then token.tail else token) = body at read
  split at read
  · split at read
    · cases read
      exact Nat.zero_le _
    · cases read
  · split at read
    · split at read
      · rcases ok_of_bind read with ⟨⟨inner, last⟩, readInner, read⟩
        cases read
        have innerBound := depth_of_formulaGroup bounds readInner
        dsimp only [Formula.depth] at innerBound ⊢
        omega
      · cases read
    · split at read
      · rcases ok_of_bind read with ⟨⟨call, last⟩, readCall, read⟩
        cases read
        exact Nat.le_trans (depth_negateIf_le _ call) (depth_of_readCall bounds readCall)
      · rcases ok_of_bind read with ⟨reference, _, read⟩
        cases read
        exact Nat.le_trans (depth_negateIf_le _ _) bounds.negation

theorem depth_of_readOperand {after : Option Operator} {tree : Formula ν}
    (read : readOperand vocabulary deeper after cursor = .ok (tree, stop)) :
    tree.depth ≤ formulas := by
  unfold readOperand at read
  dsimp only at read
  split at read
  · cases read
  · cases read
  · exact Nat.le_trans (Nat.le_add_right _ 2) (depth_of_formulaGroup bounds read)
  · exact depth_of_readAtom bounds read

theorem depth_of_readFormula {budget : Nat} (le : budget ≤ formulas) {tree : Formula ν}
    (read : readFormula vocabulary deeper budget cursor = .ok (tree, stop)) :
    tree.depth ≤ formulas := by
  have chained (read : (readOperand vocabulary deeper none cursor.skip >>= fun found =>
      readChain vocabulary deeper budget (found.2.rest.length + 1) (.start found.1) found.2) =
        .ok (tree, stop)) : tree.depth ≤ formulas := by
    rcases ok_of_bind read with ⟨⟨term, behind⟩, readTerm, read⟩
    exact depth_of_readChain le (.start term) (depth_of_readOperand bounds readTerm) read
  unfold readFormula at read
  dsimp only at read
  split at read
  · cases read
  · cases read
  · split at read
    · exact chained read
    · exact chained read
    · cases read

theorem depth_of_readConnective {left tree : Condition ν} (bounded : left.depth ≤ formulas + 1)
    (read : readConnective vocabulary deeper left cursor = .ok (tree, stop)) :
    tree.depth ≤ conditions := by
  have leftBound := Nat.le_trans bounded bounds.comparison
  unfold readConnective at read
  dsimp only at read
  split at read
  · cases read
    exact leftBound
  · cases read
    exact leftBound
  · split at read
    · cases read
    · split at read
      · cases read
      · split at read
        · cases read
        · rcases ok_of_bind read with ⟨inner, entered, read⟩
          rcases ok_of_bind read with ⟨⟨right, behind⟩, readRight, read⟩
          cases read
          have present := ok_of_enter entered
          have rightBound := bounds.condition inner present _ _ _ readRight
          have room := bounds.connective (by rw [present]; exact Option.some_ne_none inner)
          dsimp only [Condition.depth] at rightBound ⊢
          omega

theorem depth_of_readCondition {parse : Cursor → Except Fault (Formula ν × Cursor)}
    (bounded : ∀ cursor tree stop, parse cursor = .ok (tree, stop) → tree.depth ≤ formulas)
    {tree : Condition ν}
    (read : readCondition vocabulary deeper parse cursor = .ok (tree, stop)) :
    tree.depth ≤ conditions := by
  unfold readCondition at read
  dsimp only at read
  split at read
  · cases read
  · cases read
  · split at read
    · cases read
    · split at read
      · rcases ok_of_bind read with ⟨⟨left, behind⟩, readLeft, read⟩
        rcases inner_of_readGroup readLeft with ⟨inner, present, _, parsed⟩
        have leftBound := bounds.condition inner present _ _ _ parsed
        exact depth_of_readConnective bounds
          (Nat.le_succ_of_le (Nat.le_of_add_right_le leftBound)) read
      · rcases ok_of_bind read with ⟨⟨left, behind⟩, readLeft, read⟩
        exact depth_of_readConnective bounds
          (depth_of_readComparison bounded readLeft) read

end Level

/-! ## All levels -/

/-- The height of a formula is bounded by the number of levels that are left. -/
def formulaBound (budget : Nat) : Nat := max 1 (4 * budget)

/-- The height of a condition is bounded by the number of levels that are left. -/
def conditionBound (budget : Nat) : Nat := 4 * budget + 2

theorem le_formulaBound (budget : Nat) : budget ≤ formulaBound budget := by
  rw [formulaBound]
  omega

section Levels

variable {vocabulary : Vocabulary ν}

/-- Formulas and conditions of a level are within their bounds if what stands deeper is
within those of the next level. -/
theorem depth_of_bounds {budget : Nat}
    (bounds : Bounds (levels vocabulary budget) (formulaBound budget) (conditionBound budget)) :
    (∀ cursor tree stop, formula vocabulary budget cursor = .ok (tree, stop) →
      tree.depth ≤ formulaBound budget) ∧
    ∀ cursor tree stop, condition vocabulary budget cursor = .ok (tree, stop) →
      tree.depth ≤ conditionBound budget := by
  have formulas : ∀ cursor tree stop, formula vocabulary budget cursor = .ok (tree, stop) →
      tree.depth ≤ formulaBound budget := by
    intro cursor tree stop read
    rw [formula_eq] at read
    exact depth_of_readFormula bounds (le_formulaBound budget) read
  refine ⟨formulas, fun cursor tree stop read => ?_⟩
  rw [condition_eq] at read
  exact depth_of_readCondition bounds formulas read

theorem formula_condition_depth (budget : Nat) :
    (∀ cursor tree stop, formula vocabulary budget cursor = .ok (tree, stop) →
      tree.depth ≤ formulaBound budget) ∧
    ∀ cursor tree stop, condition vocabulary budget cursor = .ok (tree, stop) →
      tree.depth ≤ conditionBound budget := by
  induction budget with
  | zero =>
      apply depth_of_bounds
      exact {
        negation := Nat.le_refl 1
        call := fun present => absurd rfl present
        comparison := Nat.le_refl 2
        connective := fun present => absurd rfl present
        formula := fun _ present => nomatch present
        condition := fun _ present => nomatch present }
  | succ budget induction =>
      apply depth_of_bounds
      refine {
        negation := Nat.le_max_left _ _
        call := fun _ => ?_
        comparison := ?_
        connective := fun _ => ?_
        formula := fun inner present cursor tree stop read => ?_
        condition := fun inner present cursor tree stop read => ?_ }
      · rw [formulaBound]
        omega
      · rw [formulaBound, conditionBound]
        omega
      · rw [formulaBound, conditionBound]
        omega
      · cases present
        have deeper := induction.1 cursor tree stop read
        rw [formulaBound] at deeper ⊢
        omega
      · cases present
        have deeper := induction.2 cursor tree stop read
        rw [conditionBound] at deeper
        rw [formulaBound]
        omega

theorem depth_of_wholeFormula {cursor : Cursor} {tree : Formula ν}
    (read : wholeFormula vocabulary cursor = .ok tree) :
    tree.depth ≤ formulaBound vocabulary.nestingLimit := by
  rcases whole_eq_ok read with ⟨stop, parsed, _⟩
  exact (formula_condition_depth _).1 cursor tree stop parsed

theorem depth_of_wholeCondition {cursor : Cursor} {tree : Condition ν}
    (read : wholeCondition vocabulary cursor = .ok tree) :
    tree.depth ≤ conditionBound vocabulary.nestingLimit := by
  rcases whole_eq_ok read with ⟨stop, parsed, _⟩
  exact (formula_condition_depth _).2 cursor tree stop parsed

end Levels

end NumericRules.Grammar
