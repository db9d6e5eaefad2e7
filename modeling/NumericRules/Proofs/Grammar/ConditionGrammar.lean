import NumericRules.Proofs.Grammar.Derivation

/-! # Conditions over given formulas

    condition := clause (('&&' | '||') condition)?
    clause    := '(' condition ')' | formula comparison formula | 'true' | 'false'

Gaps may stand around clauses. What a formula is, and what a gap is, is left open: the
conditions of the grammar are those over its sums, and what the parser reads are
conditions over the formulas that it reads.
-/

namespace NumericRules.Grammar

mutual
/-- The text is a clause that stands for the tree. -/
inductive IsClause (gap : List Char → Prop) (isFormula : List Char → Formula ν → Prop) :
    List Char → Condition ν → Prop
  | group {inner : List Char} {tree : Condition ν} :
      IsCondition gap isFormula inner tree → IsClause gap isFormula (bracketed inner) tree
  | compare {left right : List Char} {leftTree rightTree : Formula ν}
      {comparison : Comparison} :
      isFormula left leftTree → isFormula right rightTree →
      IsClause gap isFormula (left ++ (comparison.symbol.toList ++ right))
        (.compare leftTree comparison rightTree)
  | literal {word : List Char} {value : Bool} :
      literal? word = some value → IsClause gap isFormula word (.literal value)

/-- The text is a condition that stands for the tree. A connective takes all that
follows it as its right side. -/
inductive IsCondition (gap : List Char → Prop) (isFormula : List Char → Formula ν → Prop) :
    List Char → Condition ν → Prop
  | clause {before text after : List Char} {tree : Condition ν} :
      gap before → IsClause gap isFormula text tree → gap after →
      IsCondition gap isFormula (before ++ (text ++ after)) tree
  | connect {before left after right : List Char} {leftTree rightTree : Condition ν}
      {connective : Connective} :
      gap before → IsClause gap isFormula left leftTree → gap after →
      IsCondition gap isFormula right rightTree →
      IsCondition gap isFormula
        ((before ++ (left ++ after)) ++ (connective.symbol.toList ++ right))
        (.connect leftTree connective rightTree)
end

/-- The text is of the given kind with gaps around it. -/
def Padded (gap : List Char → Prop) (kind : List Char → α → Prop) (text : List Char)
    (tree : α) : Prop :=
  ∃ before core after, text = before ++ (core ++ after) ∧ gap before ∧ kind core tree ∧ gap after

/-- A clause with its gaps. -/
abbrev IsPaddedClause (gap : List Char → Prop) (isFormula : List Char → Formula ν → Prop) :
    List Char → Condition ν → Prop :=
  Padded gap (IsClause gap isFormula)

section Grammar

variable {gap : List Char → Prop} {isFormula : List Char → Formula ν → Prop}

theorem IsPaddedClause.alone {text : List Char} {tree : Condition ν}
    (padded : IsPaddedClause gap isFormula text tree) : IsCondition gap isFormula text tree := by
  rcases padded with ⟨before, core, after, rfl, gapBefore, clause, gapAfter⟩
  exact .clause gapBefore clause gapAfter

theorem IsPaddedClause.connect {left right : List Char} {leftTree rightTree : Condition ν}
    {connective : Connective} (padded : IsPaddedClause gap isFormula left leftTree)
    (condition : IsCondition gap isFormula right rightTree) :
    IsCondition gap isFormula (left ++ (connective.symbol.toList ++ right))
      (.connect leftTree connective rightTree) := by
  rcases padded with ⟨before, core, after, rfl, gapBefore, clause, gapAfter⟩
  exact .connect gapBefore clause gapAfter condition

/-! ## Other formulas and gaps -/

/-- Every gap of the text is another gap, and every formula of it another formula. -/
structure Passes (gap otherGap : List Char → Prop) (isFormula other : List Char → Formula ν → Prop)
    (text : List Char) : Prop where
  gap : ∀ part, part <:+: text → gap part → otherGap part
  formula : ∀ part tree, part <:+: text → isFormula part tree → other part tree

variable {otherGap : List Char → Prop} {other : List Char → Formula ν → Prop}

theorem Passes.part {text : List Char} (passes : Passes gap otherGap isFormula other text)
    (before part after : List Char) (equal : before ++ (part ++ after) = text) :
    Passes gap otherGap isFormula other part := by
  have inside : part <:+: text := ⟨before, after, by rw [List.append_assoc, equal]⟩
  exact ⟨fun piece within => passes.gap piece (within.trans inside),
    fun piece tree within => passes.formula piece tree (within.trans inside)⟩

mutual
/-- A clause is one over other formulas that include those of its text. -/
theorem IsClause.pass {text : List Char} {tree : Condition ν} :
    IsClause gap isFormula text tree → Passes gap otherGap isFormula other text →
    IsClause otherGap other text tree
  | @IsClause.group _ _ _ inner _ condition, passes =>
      .group (condition.pass (passes.part ['('] inner [')'] rfl))
  | @IsClause.compare _ _ _ left right _ _ comparison ofLeft ofRight, passes =>
      .compare (passes.formula left _ ⟨[], comparison.symbol.toList ++ right, by simp⟩ ofLeft)
        (passes.formula right _ ⟨left ++ comparison.symbol.toList, [], by simp⟩ ofRight)
  | .literal named, _ => .literal named

theorem IsCondition.pass {text : List Char} {tree : Condition ν} :
    IsCondition gap isFormula text tree → Passes gap otherGap isFormula other text →
    IsCondition otherGap other text tree
  | @IsCondition.clause _ _ _ before core after _ gapBefore clause gapAfter, passes =>
      .clause (passes.gap before ⟨[], core ++ after, by simp⟩ gapBefore)
        (clause.pass (passes.part before core after rfl))
        (passes.gap after ⟨before ++ core, [], by simp⟩ gapAfter)
  | @IsCondition.connect _ _ _ before left after right _ _ connective gapBefore clause gapAfter
      condition, passes =>
      let behind := connective.symbol.toList ++ right
      .connect
        (passes.gap before ⟨[], left ++ (after ++ behind), by simp [behind]⟩ gapBefore)
        (clause.pass (passes.part before left (after ++ behind) (by simp [behind])))
        (passes.gap after ⟨before ++ left, behind, by simp [behind]⟩ gapAfter)
        (condition.pass (passes.part (before ++ (left ++ (after ++ connective.symbol.toList)))
          right [] (by simp)))
end

/-! ## Chains -/

/-- A clause of a chain with the connective behind it. -/
structure Link (ν : Type) where
  text : List Char
  clause : Condition ν
  connective : Connective

/-- The text of a chain that ends with the given text. -/
def chainText (links : List (Link ν)) (last : List Char) : List Char :=
  links.foldr (fun link rest => link.text ++ (link.connective.symbol.toList ++ rest)) last

/-- The tree of a chain that ends with the given clause, nested to the right whatever
the connectives are. -/
def chainTree (links : List (Link ν)) (last : Condition ν) : Condition ν :=
  links.foldr (fun link rest => .connect link.clause link.connective rest) last

theorem isCondition_chain {links : List (Link ν)}
    (clauses : ∀ link ∈ links, IsPaddedClause gap isFormula link.text link.clause)
    {lastText : List Char} {last : Condition ν}
    (ofLast : IsPaddedClause gap isFormula lastText last) :
    IsCondition gap isFormula (chainText links lastText) (chainTree links last) := by
  induction links with
  | nil => exact ofLast.alone
  | cons link links induction =>
      rcases List.forall_mem_cons.mp clauses with ⟨ofLink, ofLinks⟩
      exact ofLink.connect (induction ofLinks)

theorem IsCondition.exists_chain {text : List Char} {tree : Condition ν}
    (condition : IsCondition gap isFormula text tree) :
    ∃ (links : List (Link ν)) (lastText : List Char) (last : Condition ν),
      text = chainText links lastText ∧ tree = chainTree links last ∧
      (∀ link ∈ links, IsPaddedClause gap isFormula link.text link.clause) ∧
      IsPaddedClause gap isFormula lastText last := by
  cases condition with
  | @clause before core after _ gapBefore clause gapAfter =>
      exact ⟨[], _, tree, rfl, rfl, List.forall_mem_nil _,
        before, core, after, rfl, gapBefore, clause, gapAfter⟩
  | @connect before left after right leftTree rightTree connective gapBefore clause gapAfter
      condition =>
      rcases condition.exists_chain with ⟨links, lastText, last, rfl, rfl, clauses, ofLast⟩
      exact ⟨⟨before ++ (left ++ after), leftTree, connective⟩ :: links, lastText, last, rfl, rfl,
        List.forall_mem_cons.mpr
          ⟨⟨before, left, after, rfl, gapBefore, clause, gapAfter⟩, clauses⟩, ofLast⟩

/-- A condition is a chain of clauses. -/
theorem isCondition_iff_chain {text : List Char} {tree : Condition ν} :
    IsCondition gap isFormula text tree ↔
    ∃ (links : List (Link ν)) (lastText : List Char) (last : Condition ν),
      text = chainText links lastText ∧ tree = chainTree links last ∧
      (∀ link ∈ links, IsPaddedClause gap isFormula link.text link.clause) ∧
      IsPaddedClause gap isFormula lastText last := by
  constructor
  · exact fun condition => condition.exists_chain
  · rintro ⟨links, lastText, last, rfl, rfl, clauses, ofLast⟩
    exact isCondition_chain clauses ofLast

end Grammar

end NumericRules.Grammar
