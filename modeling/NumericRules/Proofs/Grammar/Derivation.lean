import NumericRules.Grammar.Expression

/-! # The grammar of formulas and conditions

    sum       := product (('+' | '-') product)*
    product   := term (('*' | '/' | '%') term)*
    term      := atom | '-' atom
    atom      := number | name | '(' sum ')' | function '(' arguments ')'
    arguments := nothing | sum (',' sum)*
    condition := clause (('&&' | '||') condition)?
    clause    := '(' condition ')' | sum comparison sum | 'true' | 'false'

Gaps may stand around terms, around bracketed conditions and truth values, and
between empty argument brackets. Nothing stands between a minus and its atom or
between a function and its bracket. The function that chooses takes a condition
and two sums.
-/

namespace NumericRules.Grammar

open Text

/-! ## Words and numbers -/

/-- Letters, digits and the underscore. Beyond ASCII every character that is not
blank counts as a letter. -/
def isWordCharacter (character : Char) : Bool :=
  character.isAlphanum || character == '_' || (128 ≤ character.toNat && !isBlank character)

/-- Letters, digits and underscores that are not all digits. -/
def IsWord (text : List Char) : Prop :=
  text.all isWordCharacter = true ∧ text.all Char.isDigit = false

instance (text : List Char) : Decidable (IsWord text) := inferInstanceAs (Decidable (_ ∧ _))

/-- Digits, or digits on both sides of a point. -/
inductive IsNumeral : List Char → Prop
  | integer {digits : List Char} :
      digits ≠ [] → digits.all Char.isDigit = true → IsNumeral digits
  | decimal {digits fraction : List Char} :
      digits ≠ [] → digits.all Char.isDigit = true →
      fraction ≠ [] → fraction.all Char.isDigit = true →
      IsNumeral (digits ++ '.' :: fraction)

/-- What may stand between words, and what may be a word. -/
structure Lexis where
  Gap : List Char → Prop
  Word : List Char → Prop

/-- White space between words of letters, digits and underscores. -/
def Lexis.standard : Lexis where
  Gap text := text.all isWhite = true
  Word := IsWord

/-! ## Derivations -/

/-- The parts of formulas and conditions. The atom of a negative term stands
directly behind a minus. -/
inductive Category where
  | sum
  | product
  | term
  | atom (negative : Bool)
  | arguments
  | condition
  | clause

/-- What is built for a part. -/
abbrev Category.Tree (ν : Type) : Category → Type
  | sum | product | term | atom _ => Formula ν
  | arguments => List (Formula ν)
  | condition | clause => Condition ν

/-- An atom with its minus. -/
def signed (negative : Bool) (text : List Char) : List Char :=
  if negative then '-' :: text else text

/-- The text is a part of the given category that stands for the tree. Operators
of one level nest to the left and connectives to the right. A minus before a
number makes the negative number. -/
inductive Derives (vocabulary : Vocabulary ν) (lexis : Lexis) :
    (category : Category) → List Char → category.Tree ν → Prop
  | product {text : List Char} {tree : Formula ν} :
      Derives vocabulary lexis .product text tree → Derives vocabulary lexis .sum text tree
  | sum {left right : List Char} {leftTree rightTree : Formula ν} {operator : Operator} :
      Derives vocabulary lexis .sum left leftTree → operator.precedence = 1 →
      Derives vocabulary lexis .product right rightTree →
      Derives vocabulary lexis .sum (left ++ operator.symbol :: right)
        (.binary leftTree operator rightTree)
  | term {text : List Char} {tree : Formula ν} :
      Derives vocabulary lexis .term text tree → Derives vocabulary lexis .product text tree
  | factor {left right : List Char} {leftTree rightTree : Formula ν} {operator : Operator} :
      Derives vocabulary lexis .product left leftTree → operator.precedence = 2 →
      Derives vocabulary lexis .term right rightTree →
      Derives vocabulary lexis .product (left ++ operator.symbol :: right)
        (.binary leftTree operator rightTree)
  | atom {before text after : List Char} {negative : Bool} {tree : Formula ν} :
      lexis.Gap before → Derives vocabulary lexis (.atom negative) text tree → lexis.Gap after →
      Derives vocabulary lexis .term (before ++ (signed negative text ++ after)) tree
  | number {text : List Char} {negative : Bool} {value : Binary64} :
      IsNumeral text → Binary64.readUnsigned? negative text = some value →
      Derives vocabulary lexis (.atom negative) text (.constant value)
  | name {text : List Char} {negative : Bool} {reference : ν} :
      lexis.Word text → vocabulary.resolve? (String.ofList text) = some reference →
      Derives vocabulary lexis (.atom negative) text (negateIf negative (.name reference))
  | group {inner : List Char} {negative : Bool} {tree : Formula ν} :
      Derives vocabulary lexis .sum inner tree →
      Derives vocabulary lexis (.atom negative) (bracketed inner) (negateIf negative tree)
  | call {function inner : List Char} {negative : Bool} {accepted : List Nat}
      {trees : List (Formula ν)} :
      lexis.Word function →
      vocabulary.signature? (String.ofList function) = some (.native accepted) →
      Derives vocabulary lexis .arguments inner trees → accepted.contains trees.length = true →
      Derives vocabulary lexis (.atom negative) (function ++ bracketed inner)
        (negateIf negative (.call (String.ofList function) trees))
  | choose {function test first second : List Char} {negative : Bool}
      {testTree : Condition ν} {firstTree secondTree : Formula ν} :
      lexis.Word function → vocabulary.signature? (String.ofList function) = some .choose →
      Derives vocabulary lexis .condition test testTree →
      Derives vocabulary lexis .sum first firstTree →
      Derives vocabulary lexis .sum second secondTree →
      Derives vocabulary lexis (.atom negative)
        (function ++ bracketed (joinWith vocabulary.argumentSeparator [test, first, second]))
        (negateIf negative (.choose testTree firstTree secondTree))
  | noArgument {text : List Char} :
      lexis.Gap text → Derives vocabulary lexis .arguments text []
  | argument {text : List Char} {tree : Formula ν} :
      Derives vocabulary lexis .sum text tree → Derives vocabulary lexis .arguments text [tree]
  | arguments {text rest : List Char} {tree next : Formula ν} {trees : List (Formula ν)} :
      Derives vocabulary lexis .sum text tree →
      Derives vocabulary lexis .arguments rest (next :: trees) →
      Derives vocabulary lexis .arguments (text ++ vocabulary.argumentSeparator :: rest)
        (tree :: next :: trees)
  | clause {text : List Char} {tree : Condition ν} :
      Derives vocabulary lexis .clause text tree → Derives vocabulary lexis .condition text tree
  | connect {left right : List Char} {leftTree rightTree : Condition ν}
      {connective : Connective} :
      Derives vocabulary lexis .clause left leftTree →
      Derives vocabulary lexis .condition right rightTree →
      Derives vocabulary lexis .condition (left ++ (connective.symbol.toList ++ right))
        (.connect leftTree connective rightTree)
  | conditionGroup {before inner after : List Char} {tree : Condition ν} :
      lexis.Gap before → Derives vocabulary lexis .condition inner tree → lexis.Gap after →
      Derives vocabulary lexis .clause (before ++ (bracketed inner ++ after)) tree
  | compare {left right : List Char} {leftTree rightTree : Formula ν}
      {comparison : Comparison} :
      Derives vocabulary lexis .sum left leftTree →
      Derives vocabulary lexis .sum right rightTree →
      Derives vocabulary lexis .clause (left ++ (comparison.symbol.toList ++ right))
        (.compare leftTree comparison rightTree)
  | literal {before word after : List Char} {value : Bool} :
      lexis.Gap before → literal? word = some value → lexis.Gap after →
      Derives vocabulary lexis .clause (before ++ (word ++ after)) (.literal value)

/-! ## Other gaps and words -/

/-- Every gap and word that occurs in the text is one for another lexis. -/
def Lexis.Covers (other lexis : Lexis) (text : List Char) : Prop :=
  ∀ piece, piece <:+: text →
    (lexis.Gap piece → other.Gap piece) ∧ (lexis.Word piece → other.Word piece)

theorem Lexis.Covers.part {other lexis : Lexis} {text : List Char}
    (covers : other.Covers lexis text) (before part after : List Char)
    (equal : before ++ (part ++ after) = text) : other.Covers lexis part := by
  intro piece inside
  apply covers piece
  exact inside.trans ⟨before, after, by rw [List.append_assoc, equal]⟩

theorem Lexis.Covers.gap {other lexis : Lexis} {text : List Char}
    (covers : other.Covers lexis text) (gap : lexis.Gap text) : other.Gap text :=
  (covers text (List.infix_refl text)).1 gap

theorem Lexis.Covers.word {other lexis : Lexis} {text : List Char}
    (covers : other.Covers lexis text) (word : lexis.Word text) : other.Word text :=
  (covers text (List.infix_refl text)).2 word

/-- A derivation is one for every lexis that has its gaps and words. -/
theorem Derives.relax {vocabulary : Vocabulary ν} {lexis other : Lexis} {category : Category}
    {text : List Char} {tree : category.Tree ν}
    (derivation : Derives vocabulary lexis category text tree)
    (covers : other.Covers lexis text) : Derives vocabulary other category text tree := by
  induction derivation with
  | product _ induction => exact .product (induction covers)
  | @sum left right leftTree rightTree operator _ precedence _ leftInduction rightInduction =>
      exact .sum (leftInduction (covers.part [] left (operator.symbol :: right) (by simp)))
        precedence
        (rightInduction (covers.part (left ++ [operator.symbol]) right [] (by simp)))
  | term _ induction => exact .term (induction covers)
  | @factor left right leftTree rightTree operator _ precedence _ leftInduction rightInduction =>
      exact .factor (leftInduction (covers.part [] left (operator.symbol :: right) (by simp)))
        precedence
        (rightInduction (covers.part (left ++ [operator.symbol]) right [] (by simp)))
  | @atom before text after negative tree gapBefore _ gapAfter induction =>
      have inner : other.Covers lexis text := by
        cases negative with
        | true => exact covers.part (before ++ ['-']) text after (by simp [signed])
        | false => exact covers.part before text after (by simp [signed])
      exact .atom ((covers.part [] before _ rfl).gap gapBefore) (induction inner)
        ((covers.part (before ++ signed negative text) after [] (by simp)).gap gapAfter)
  | number numeral value => exact .number numeral value
  | name word known => exact .name (covers.word word) known
  | @group inner negative tree _ induction =>
      exact .group (induction (covers.part ['('] inner [')'] rfl))
  | @call function inner negative accepted trees word known _ count induction =>
      exact .call ((covers.part [] function (bracketed inner) rfl).word word) known
        (induction (covers.part (function ++ ['(']) inner [')'] (by simp [bracketed]))) count
  | @choose function test first second negative testTree firstTree secondTree word known _ _ _
      testInduction firstInduction secondInduction =>
      let separator := vocabulary.argumentSeparator
      exact .choose ((covers.part [] function _ rfl).word word) known
        (testInduction (covers.part (function ++ ['(']) test
          (separator :: (first ++ separator :: (second ++ [')'])))
          (by simp [bracketed, joinWith, separator])))
        (firstInduction (covers.part (function ++ '(' :: (test ++ [separator])) first
          (separator :: (second ++ [')'])) (by simp [bracketed, joinWith, separator])))
        (secondInduction (covers.part
          (function ++ '(' :: (test ++ separator :: (first ++ [separator]))) second [')']
          (by simp [bracketed, joinWith, separator])))
  | noArgument gap => exact .noArgument (covers.gap gap)
  | argument _ induction => exact .argument (induction covers)
  | @arguments text rest tree next trees _ _ firstInduction restInduction =>
      let separator := vocabulary.argumentSeparator
      exact .arguments
        (firstInduction (covers.part [] text (separator :: rest) (by simp [separator])))
        (restInduction (covers.part (text ++ [separator]) rest [] (by simp [separator])))
  | clause _ induction => exact .clause (induction covers)
  | @connect left right leftTree rightTree connective _ _ leftInduction rightInduction =>
      exact .connect (leftInduction (covers.part [] left _ rfl))
        (rightInduction (covers.part (left ++ connective.symbol.toList) right [] (by simp)))
  | @conditionGroup before inner after tree gapBefore _ gapAfter induction =>
      exact .conditionGroup ((covers.part [] before _ rfl).gap gapBefore)
        (induction (covers.part (before ++ ['(']) inner (')' :: after) (by simp [bracketed])))
        ((covers.part (before ++ bracketed inner) after [] (by simp)).gap gapAfter)
  | @compare left right leftTree rightTree comparison _ _ leftInduction rightInduction =>
      exact .compare (leftInduction (covers.part [] left _ rfl))
        (rightInduction (covers.part (left ++ comparison.symbol.toList) right [] (by simp)))
  | @literal before word after value gapBefore named gapAfter =>
      exact .literal ((covers.part [] before _ rfl).gap gapBefore) named
        ((covers.part (before ++ word) after [] (by simp)).gap gapAfter)

/-! ## Height -/

/-- The height of what is built for a part. -/
def Category.height : (category : Category) → category.Tree ν → Nat
  | .sum, tree | .product, tree | .term, tree | .atom _, tree => Formula.depth tree
  | .arguments, trees => Formula.depthAll trees
  | .condition, tree | .clause, tree => Condition.depth tree

/-- The minus that stands before a part. -/
def Category.signWidth : Category → Nat
  | .atom true => 1
  | _ => 0

theorem depth_negateIf (negative : Bool) (tree : Formula ν) :
    (negateIf negative tree).depth = tree.depth + (Category.atom negative).signWidth := by
  cases negative with
  | true => simp [negateIf, Formula.depth, Category.signWidth, Nat.add_comm]
  | false => simp [negateIf, Category.signWidth]

/-- No tree is higher than its text is long. -/
theorem Derives.height_le {vocabulary : Vocabulary ν} {lexis : Lexis} {category : Category}
    {text : List Char} {tree : category.Tree ν}
    (derivation : Derives vocabulary lexis category text tree) :
    category.height tree ≤ text.length + category.signWidth := by
  induction derivation with
  | product _ induction => exact induction
  | sum _ _ _ leftInduction rightInduction | factor _ _ _ leftInduction rightInduction =>
      simp only [Category.height, Category.signWidth, Formula.depth, List.length_append,
        List.length_cons] at *
      omega
  | term _ induction => exact induction
  | @atom before text after negative tree _ _ _ induction =>
      cases negative <;>
        simp only [Category.height, Category.signWidth, signed, List.length_append,
          List.length_cons, if_true, Bool.false_eq_true, if_false] at * <;>
        omega
  | number _ _ => exact Nat.zero_le _
  | name _ _ =>
      simp only [Category.height, depth_negateIf, Formula.depth]
      omega
  | group _ induction =>
      simp only [Category.height, depth_negateIf, bracketed, List.length_append,
        List.length_cons] at *
      simp only [Category.signWidth] at induction
      omega
  | call _ _ _ _ induction =>
      simp only [Category.height, depth_negateIf, Formula.depth, bracketed, List.length_append,
        List.length_cons] at *
      simp only [Category.signWidth] at induction
      omega
  | choose _ _ _ _ _ testInduction firstInduction secondInduction =>
      simp only [Category.height, depth_negateIf, Formula.depth, bracketed, joinWith,
        List.length_append, List.length_cons] at *
      simp only [Category.signWidth] at testInduction firstInduction secondInduction
      omega
  | noArgument _ => exact Nat.zero_le _
  | argument _ induction =>
      simpa only [Category.height, Category.signWidth, Formula.depthAll, Nat.max_zero]
        using induction
  | arguments _ _ firstInduction restInduction =>
      simp only [Category.height, Category.signWidth, Formula.depthAll, List.length_append,
        List.length_cons] at *
      omega
  | clause _ induction => exact induction
  | @connect left right leftTree rightTree connective _ _ leftInduction rightInduction =>
      have width : connective.symbol.toList.length = 2 := by cases connective <;> rfl
      simp only [Category.height, Category.signWidth, Condition.depth, List.length_append] at *
      omega
  | conditionGroup _ _ _ induction =>
      simp only [Category.height, Category.signWidth, bracketed, List.length_append,
        List.length_cons] at *
      omega
  | @compare left right leftTree rightTree comparison _ _ leftInduction rightInduction =>
      have width : 1 ≤ comparison.symbol.toList.length := by cases comparison <;> decide
      simp only [Category.height, Category.signWidth, Condition.depth, List.length_append] at *
      omega
  | literal _ _ _ => exact Nat.zero_le _

end NumericRules.Grammar
