import NumericRules.Grammar.Condition

/-! # Reading nested expressions

The one-level parsers are joined along the nesting budget, the number of levels
that may still be entered. Groups, calls and the right sides of connectives each
take one level; the two formulas of a comparison stand at the level of their
condition.
-/

namespace NumericRules.Grammar

mutual
/-- Read a formula up to the end of its part or an unmatched closing
bracket. -/
def formula (vocabulary : Vocabulary ν) :
    Nat → Cursor → Except Fault (Formula ν × Cursor)
  | 0, cursor => readFormula vocabulary none 0 cursor
  | budget + 1, cursor =>
      readFormula vocabulary
        (some ⟨formula vocabulary budget, condition vocabulary budget⟩) (budget + 1) cursor

/-- Read a condition up to the end of its part or an unmatched closing
bracket. -/
def condition (vocabulary : Vocabulary ν) :
    Nat → Cursor → Except Fault (Condition ν × Cursor)
  | 0, cursor => readCondition vocabulary none (readFormula vocabulary none 0) cursor
  | budget + 1, cursor =>
      let deeper := some ⟨formula vocabulary budget, condition vocabulary budget⟩
      readCondition vocabulary deeper (readFormula vocabulary deeper (budget + 1)) cursor
end

/-- Read a part of the text that is one formula throughout. -/
def wholeFormula (vocabulary : Vocabulary ν) (cursor : Cursor) : Except Fault (Formula ν) :=
  whole (formula vocabulary vocabulary.nestingLimit) cursor

/-- Read a part of the text that is one condition throughout. -/
def wholeCondition (vocabulary : Vocabulary ν) (cursor : Cursor) :
    Except Fault (Condition ν) :=
  whole (condition vocabulary vocabulary.nestingLimit) cursor

end NumericRules.Grammar
