import NumericRules.Proofs.Grammar.Chain

/-! # Sums of products

A chain decides with every operator that arrives which of its trees the next operand
joins. What comes out can be said of the whole sequence: the runs of `*`, `/` and `%`
are grouped from the left to products, and the products from the left to a sum.
-/

namespace NumericRules

namespace Operator

/-- The operators of a product. -/
def isMultiplicative : Operator → Bool
  | .multiply | .divide | .modulo => true
  | .add | .subtract => false

theorem precedence_of_isMultiplicative {operator : Operator}
    (multiplicative : operator.isMultiplicative = true) : operator.precedence = 2 := by
  revert multiplicative
  cases operator <;> decide

theorem precedence_of_not_isMultiplicative {operator : Operator}
    (additive : operator.isMultiplicative = false) : operator.precedence = 1 := by
  revert additive
  cases operator <;> decide

end Operator

namespace Grammar

/-! ## Two levels of grouping -/

/-- A term and the factors behind it. -/
structure Product (ν : Type) where
  first : Formula ν
  factors : List (Operator × Formula ν)

def Product.tree (product : Product ν) : Formula ν :=
  Chain.grouped product.first product.factors

/-- What follows a term is cut before every additive operator: into the factors that
belong to the term, and the products behind them with the operators before each. -/
def cutProducts : List (Operator × Formula ν) →
    List (Operator × Formula ν) × List (Operator × Product ν)
  | [] => ([], [])
  | (operator, term) :: items =>
      let (factors, products) := cutProducts items
      if operator.isMultiplicative then ((operator, term) :: factors, products)
      else ([], (operator, ⟨term, factors⟩) :: products)

/-- The sum of products that a term and what follows it are read as. -/
def sumOfProducts (first : Formula ν) (items : List (Operator × Formula ν)) : Formula ν :=
  let (factors, products) := cutProducts items
  Chain.grouped (Product.tree ⟨first, factors⟩) (products.map (Prod.map id Product.tree))

example (a b c d e : Formula ν) :
    sumOfProducts a [(.subtract, b), (.multiply, c), (.modulo, d), (.add, e)] =
      .binary (.binary a .subtract (.binary (.binary b .multiply c) .modulo d)) .add e := rfl

section Cutting

variable {operator : Operator} (term : Formula ν) (items : List (Operator × Formula ν))

theorem cutProducts_of_multiplicative (multiplicative : operator.isMultiplicative = true) :
    cutProducts ((operator, term) :: items) =
      ((operator, term) :: (cutProducts items).1, (cutProducts items).2) := by
  simp only [cutProducts, multiplicative, if_true]

theorem cutProducts_of_additive (additive : operator.isMultiplicative = false) :
    cutProducts ((operator, term) :: items) =
      ([], (operator, ⟨term, (cutProducts items).1⟩) :: (cutProducts items).2) := by
  simp only [cutProducts, additive, Bool.false_eq_true, if_false]

end Cutting

/-- A sequence in runs of multiplicative operators, with an additive operator before
every run but the first. -/
structure IsCut (items factors : List (Operator × Formula ν))
    (products : List (Operator × Product ν)) : Prop where
  joined : items =
    factors ++ products.flatMap fun item => (item.1, item.2.first) :: item.2.factors
  factors : ∀ factor ∈ factors, factor.1.isMultiplicative = true
  operators : ∀ item ∈ products, item.1.isMultiplicative = false
  products : ∀ item ∈ products, ∀ factor ∈ item.2.factors, factor.1.isMultiplicative = true

theorem isCut_cutProducts (items : List (Operator × Formula ν)) :
    IsCut items (cutProducts items).1 (cutProducts items).2 := by
  induction items with
  | nil =>
      exact ⟨rfl, List.forall_mem_nil _, List.forall_mem_nil _, List.forall_mem_nil _⟩
  | cons item items induction =>
      rcases item with ⟨operator, term⟩
      cases level : operator.isMultiplicative with
      | true =>
          rw [cutProducts_of_multiplicative term items level]
          exact ⟨congrArg _ induction.joined,
            List.forall_mem_cons.mpr ⟨level, induction.factors⟩,
            induction.operators, induction.products⟩
      | false =>
          rw [cutProducts_of_additive term items level]
          exact ⟨congrArg _ induction.joined, List.forall_mem_nil _,
            List.forall_mem_cons.mpr ⟨level, induction.operators⟩,
            List.forall_mem_cons.mpr ⟨induction.factors, induction.products⟩⟩

namespace Chain

/-- Behind an additive operator the factors gather to the right, and the next additive
operator closes their product. -/
theorem complete_feed_joined {pending : Operator} (additive : pending.isMultiplicative = false)
    (left right : Formula ν) (items : List (Operator × Formula ν)) :
    Complete 1 ((joined left pending right).feed items)
      (grouped left ((pending, Product.tree ⟨right, (cutProducts items).1⟩) ::
        (cutProducts items).2.map (Prod.map id Product.tree))) := by
  have looseness := Operator.precedence_of_not_isMultiplicative additive
  -- The pending operator stays additive: a multiplicative one never becomes pending here.
  induction items generalizing left pending right with
  | nil => exact .joined left right (Nat.le_of_eq looseness.symm)
  | cons item items induction =>
      rcases item with ⟨operator, term⟩
      cases level : operator.isMultiplicative with
      | true =>
          have tighter : pending.precedence < operator.precedence := by
            rw [looseness, Operator.precedence_of_isMultiplicative level]
            exact Nat.lt_succ_self 1
          rw [feed, push_joined_of_lt tighter, cutProducts_of_multiplicative term items level]
          exact induction additive left (.binary right operator term) looseness
      | false =>
          have looser := Operator.precedence_of_not_isMultiplicative level
          rw [feed, push_joined_of_le (Nat.le_of_eq (looser.trans looseness.symm)),
            cutProducts_of_additive term items level]
          exact induction level (.binary left pending right) term looser

/-- The first product closes into the left operand. -/
theorem complete_feed_sumOfProducts {chain : Chain ν} {tree : Formula ν}
    (complete : Complete 2 chain tree) (items : List (Operator × Formula ν)) :
    Complete 1 (chain.feed items) (sumOfProducts tree items) := by
  induction items generalizing chain tree with
  | nil => exact complete.loosen (Nat.le_succ 1)
  | cons item items induction =>
      rcases item with ⟨operator, term⟩
      cases level : operator.isMultiplicative with
      | true =>
          have tight := Operator.precedence_of_isMultiplicative level
          rw [feed, complete.push (Nat.le_of_eq tight), sumOfProducts,
            cutProducts_of_multiplicative term items level]
          exact induction (.joined tree term (Nat.le_of_eq tight.symm))
      | false =>
          have looser := Operator.precedence_of_not_isMultiplicative level
          rw [feed, complete.push (looser ▸ Nat.le_succ 1), sumOfProducts,
            cutProducts_of_additive term items level]
          exact complete_feed_joined level tree term items

end Chain

/-! ## The order of the terms -/

/-- The tree is built of a term and what follows it in their order, with the operators
between them. -/
inductive InOrder : Formula ν → Formula ν → List (Operator × Formula ν) → Prop
  | term (term : Formula ν) : InOrder term term []
  | binary {left right first next : Formula ν} {operator : Operator}
      {before behind : List (Operator × Formula ν)} :
      InOrder left first before → InOrder right next behind →
      InOrder (.binary left operator right) first (before ++ (operator, next) :: behind)

namespace Chain

/-- The trees of the chain hold the terms read so far in their order. -/
inductive Holds : Chain ν → Formula ν → List (Operator × Formula ν) → Prop
  | start (term : Formula ν) : Holds (start term) term []
  | joined {left right first next : Formula ν} {operator : Operator}
      {before behind : List (Operator × Formula ν)} :
      InOrder left first before → InOrder right next behind →
      Holds (joined left operator right) first (before ++ (operator, next) :: behind)

theorem Holds.finish {chain : Chain ν} {first : Formula ν} {items : List (Operator × Formula ν)}
    (holds : Holds chain first items) : InOrder chain.finish first items := by
  cases holds with
  | start => exact .term first
  | joined left right => exact .binary left right

/-- The next term comes last, whichever tree it joins. -/
theorem Holds.push {chain : Chain ν} {first : Formula ν} {items : List (Operator × Formula ν)}
    (holds : Holds chain first items) (operator : Operator) (term : Formula ν) :
    Holds (chain.push operator term) first (items ++ [(operator, term)]) := by
  cases holds with
  | start => exact .joined (.term first) (.term term)
  | @joined left right _ next pending before behind ofLeft ofRight =>
      -- Either both trees become the left one, or the term joins the right one.
      by_cases closes : operator.precedence ≤ pending.precedence
      · rw [push_joined_of_le closes]
        exact .joined (.binary ofLeft ofRight) (.term term)
      · rw [push_joined_of_lt (Nat.lt_of_not_le closes), List.append_assoc, List.cons_append]
        exact .joined ofLeft (.binary ofRight (.term term))

theorem Holds.feed {chain : Chain ν} {first : Formula ν} {items : List (Operator × Formula ν)}
    (holds : Holds chain first items) (further : List (Operator × Formula ν)) :
    Holds (chain.feed further) first (items ++ further) := by
  induction further generalizing chain items with
  | nil => rwa [List.append_nil]
  | cons item further induction =>
      rw [List.append_cons]
      exact induction (holds.push item.1 item.2)

/-- A chain that was fed a sequence stands for its sum of products, where a product is a
whole run of multiplicative operators. Every term has kept its place, and after every
operand the height that the chain keeps is that of its tree. -/
theorem finish_feed (first : Formula ν) (items : List (Operator × Formula ν)) :
    ((start first).feed items).finish = sumOfProducts first items ∧
      IsCut items (cutProducts items).1 (cutProducts items).2 ∧
      InOrder ((start first).feed items).finish first items ∧
      ∀ count, ((start first).feed (items.take count)).depth =
        ((start first).feed (items.take count)).finish.depth := by
  refine ⟨?_, isCut_cutProducts items, ?_, fun count => ?_⟩
  · exact (complete_feed_sumOfProducts (.start first) items).finish
  · exact ((Holds.start first).feed items).finish
  · have complete := complete_feed_sumOfProducts (.start first) (items.take count)
    rw [complete.finish, complete.depth]

end Chain

end Grammar

end NumericRules
