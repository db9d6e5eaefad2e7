import NumericRules.Grammar.Chain

/-! # What chains stand for

Products gather to the right of a pending additive operator and close into the
left operand otherwise, so a chain builds the tree of sums of products.
-/

namespace NumericRules.Grammar

theorem Operator.precedence_cases (operator : Operator) :
    operator.precedence = 1 ∨ operator.precedence = 2 := by
  cases operator <;> decide

namespace Chain

/-- A chain of two trees with their operator. -/
def joined (left : Formula ν) (operator : Operator) (right : Formula ν) : Chain ν :=
  ⟨left, some (operator, right), left.depth, right.depth⟩

/-- The chain after more operators and operands. -/
def feed (chain : Chain ν) : List (Operator × Formula ν) → Chain ν
  | [] => chain
  | (operator, term) :: items => (chain.push operator term).feed items

theorem feed_append (chain : Chain ν) (first second : List (Operator × Formula ν)) :
    chain.feed (first ++ second) = (chain.feed first).feed second := by
  induction first generalizing chain with
  | nil => rfl
  | cons item first induction => exact induction (chain.push item.1 item.2)

/-- Operands joined one after another to the right. -/
def grouped (tree : Formula ν) : List (Operator × Formula ν) → Formula ν
  | [] => tree
  | (operator, term) :: items => grouped (.binary tree operator term) items

theorem grouped_append (tree : Formula ν) (first second : List (Operator × Formula ν)) :
    grouped tree (first ++ second) = grouped (grouped tree first) second := by
  induction first generalizing tree with
  | nil => rfl
  | cons item first induction => exact induction (.binary tree item.1 item.2)

/-! ## Operands pushed one by one -/

/-- An operator that binds no tighter closes the pending one. -/
theorem push_joined_of_le {pending operator : Operator}
    (closes : operator.precedence ≤ pending.precedence) (left right term : Formula ν) :
    (joined left pending right).push operator term =
      joined (.binary left pending right) operator term := by
  simp [push, joined, closes, Formula.depth]

/-- A tighter operator takes the pending right operand. -/
theorem push_joined_of_lt {pending operator : Operator}
    (tighter : pending.precedence < operator.precedence) (left right term : Formula ν) :
    (joined left pending right).push operator term =
      joined left pending (.binary right operator term) := by
  simp [push, joined, Nat.not_le_of_lt tighter, Formula.depth]

/-! ## Sums of products -/

/-- The chain stands for the tree, which an operator of the precedence `level` or a
looser one takes as its left operand. -/
inductive Complete (level : Nat) : Chain ν → Formula ν → Prop
  | start (tree : Formula ν) : Complete level (start tree) tree
  | joined {operator : Operator} (left right : Formula ν) : level ≤ operator.precedence →
      Complete level (joined left operator right) (.binary left operator right)

theorem Complete.finish {level : Nat} {chain : Chain ν} {tree : Formula ν}
    (complete : Complete level chain tree) : chain.finish = tree := by
  cases complete <;> rfl

/-- The height kept with a chain is that of its tree. -/
theorem Complete.depth {level : Nat} {chain : Chain ν} {tree : Formula ν}
    (complete : Complete level chain tree) : chain.depth = tree.depth := by
  cases complete <;> rfl

theorem Complete.loosen {level looser : Nat} {chain : Chain ν} {tree : Formula ν}
    (complete : Complete level chain tree) (le : looser ≤ level) : Complete looser chain tree := by
  cases complete with
  | start => exact .start tree
  | joined left right tight => exact .joined left right (Nat.le_trans le tight)

theorem Complete.push {level : Nat} {chain : Chain ν} {tree : Formula ν}
    (complete : Complete level chain tree) {operator : Operator}
    (looser : operator.precedence ≤ level) (term : Formula ν) :
    chain.push operator term = Chain.joined tree operator term := by
  cases complete with
  | start => rfl
  | joined left right tight => exact push_joined_of_le (Nat.le_trans looser tight) left right term

/-- The factors of a product gather to the right of a pending additive operator. -/
theorem feed_joined {pending : Operator} (additive : pending.precedence = 1)
    (left right : Formula ν)
    {factors : List (Operator × Formula ν)}
    (multiplicative : ∀ factor ∈ factors, factor.1.precedence = 2) :
    (joined left pending right).feed factors = joined left pending (grouped right factors) := by
  induction factors generalizing right with
  | nil => rfl
  | cons factor factors induction =>
      have tighter : pending.precedence < factor.1.precedence := by
        rw [additive, multiplicative factor (List.mem_cons_self ..)]
        exact Nat.lt_succ_self 1
      rw [feed, push_joined_of_lt tighter, grouped]
      exact induction (.binary right factor.1 factor.2)
        fun other inside => multiplicative other (List.mem_cons_of_mem _ inside)

/-- At the start of a formula the factors close into the left operand. -/
theorem complete_feed {chain : Chain ν} {tree : Formula ν} (complete : Complete 2 chain tree)
    {factors : List (Operator × Formula ν)}
    (multiplicative : ∀ factor ∈ factors, factor.1.precedence = 2) :
    Complete 2 (chain.feed factors) (grouped tree factors) := by
  induction factors generalizing chain tree with
  | nil => exact complete
  | cons factor factors induction =>
      have isFactor := multiplicative factor (List.mem_cons_self ..)
      have pushed := complete.push (Nat.le_of_eq isFactor) factor.2
      rw [feed, pushed, grouped]
      exact induction (.joined tree factor.2 (Nat.le_of_eq isFactor.symm))
        fun other inside => multiplicative other (List.mem_cons_of_mem _ inside)

/-! ## Heights -/

/-- A chain only grows. -/
theorem depth_le_push (chain : Chain ν) (operator : Operator) (term : Formula ν) :
    chain.depth ≤ (chain.push operator term).depth := by
  rcases chain with ⟨left, _ | ⟨pending, right⟩, leftDepth, rightDepth⟩
  · simp only [push, depth]
    omega
  · by_cases closes : operator.precedence ≤ pending.precedence <;>
      simp only [push, depth, closes, if_true, if_false] <;>
      omega

theorem depth_le_feed (chain : Chain ν) (items : List (Operator × Formula ν)) :
    chain.depth ≤ (chain.feed items).depth := by
  induction items generalizing chain with
  | nil => exact Nat.le_refl _
  | cons item items induction =>
      exact Nat.le_trans (depth_le_push chain item.1 item.2) (induction (chain.push item.1 item.2))

end Chain

end NumericRules.Grammar
