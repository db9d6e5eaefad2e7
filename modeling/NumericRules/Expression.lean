import NumericRules.Operators
import NumericRules.Binary64.Decimal

/-! # Formulas and conditions

The trees of the two expression languages. They are built over the type of what
a name stands for: text as it was read, a reference to a registered name, or a
slot of a process.
-/

namespace NumericRules

/-- Things that are written as a name. -/
class Named (ν : Type) where
  name : ν → String

instance : Named String where
  name text := text

mutual
/-- A formula. `choose` is the conditional function `If`, and the other calls
name a function of the table they are evaluated with. -/
inductive Formula (ν : Type) where
  | constant (value : Binary64)
  | name (reference : ν)
  | binary (left : Formula ν) (operator : Operator) (right : Formula ν)
  | negate (inner : Formula ν)
  | call (function : String) (arguments : List (Formula ν))
  | choose (test : Condition ν) (whenTrue whenFalse : Formula ν)

inductive Condition (ν : Type) where
  | literal (value : Bool)
  | compare (left : Formula ν) (comparison : Comparison) (right : Formula ν)
  | connect (left : Condition ν) (connective : Connective) (right : Condition ν)
end

/-- The name under which a `choose` is written. -/
def chooseName : String := "If"

/-! ## Height -/

mutual
/-- The height of the tree above its names and constants. -/
def Formula.depth : Formula ν → Nat
  | .constant _ => 0
  | .name _ => 0
  | .binary left _ right => 1 + max left.depth right.depth
  | .negate inner => 1 + inner.depth
  | .call _ arguments => 1 + Formula.depthAll arguments
  | .choose test whenTrue whenFalse =>
      1 + max test.depth (max whenTrue.depth whenFalse.depth)

/-- The greatest height of a list of trees, 0 for none. -/
def Formula.depthAll : List (Formula ν) → Nat
  | [] => 0
  | head :: tail => max head.depth (Formula.depthAll tail)

def Condition.depth : Condition ν → Nat
  | .literal _ => 0
  | .compare left _ right => 1 + max left.depth right.depth
  | .connect left _ right => 1 + max left.depth right.depth
end

/-! ## References -/

mutual
/-- What the names of the tree stand for, in the order of the text and with
repetitions. -/
def Formula.references : Formula ν → List ν
  | .constant _ => []
  | .name reference => [reference]
  | .binary left _ right => left.references ++ right.references
  | .negate inner => inner.references
  | .call _ arguments => Formula.referencesAll arguments
  | .choose test whenTrue whenFalse =>
      test.references ++ (whenTrue.references ++ whenFalse.references)

def Formula.referencesAll : List (Formula ν) → List ν
  | [] => []
  | head :: tail => head.references ++ Formula.referencesAll tail

def Condition.references : Condition ν → List ν
  | .literal _ => []
  | .compare left _ right => left.references ++ right.references
  | .connect left _ right => left.references ++ right.references
end

/-! ## Change of names -/

mutual
/-- The tree with every name replaced by what it stands for elsewhere. -/
def Formula.map (change : ν → μ) : Formula ν → Formula μ
  | .constant value => .constant value
  | .name reference => .name (change reference)
  | .binary left operator right => .binary (left.map change) operator (right.map change)
  | .negate inner => .negate (inner.map change)
  | .call function arguments => .call function (Formula.mapAll change arguments)
  | .choose test whenTrue whenFalse =>
      .choose (test.map change) (whenTrue.map change) (whenFalse.map change)

def Formula.mapAll (change : ν → μ) : List (Formula ν) → List (Formula μ)
  | [] => []
  | head :: tail => head.map change :: Formula.mapAll change tail

def Condition.map (change : ν → μ) : Condition ν → Condition μ
  | .literal value => .literal value
  | .compare left comparison right => .compare (left.map change) comparison (right.map change)
  | .connect left connective right => .connect (left.map change) connective (right.map change)
end

/-! ## Written forms

The symbolic form brackets every operator and always separates arguments by
commas. The value form is the same with values in place of names; there a minus
before a text that itself begins with a minus gets brackets.
-/

/-- Texts one after another with a separator between them. -/
def joinWith (separator : Char) : List (List Char) → List Char
  | [] => []
  | [text] => text
  | text :: next :: rest => text ++ separator :: joinWith separator (next :: rest)

def bracketed (text : List Char) : List Char := '(' :: (text ++ [')'])

mutual
def Formula.form [Named ν] : Formula ν → List Char
  | .constant value => Binary64.spell value
  | .name reference => (Named.name reference).toList
  | .binary left operator right =>
      bracketed (left.form ++ operator.symbol :: right.form)
  | .negate inner => '-' :: inner.form
  | .call function arguments =>
      function.toList ++ bracketed (joinWith ',' (Formula.formAll arguments))
  | .choose test whenTrue whenFalse =>
      chooseName.toList ++ bracketed (joinWith ',' [test.form, whenTrue.form, whenFalse.form])

def Formula.formAll [Named ν] : List (Formula ν) → List (List Char)
  | [] => []
  | head :: tail => head.form :: Formula.formAll tail

def Condition.form [Named ν] : Condition ν → List Char
  | .literal value => if value then ['t', 'r', 'u', 'e'] else ['f', 'a', 'l', 's', 'e']
  | .compare left comparison right =>
      bracketed (left.form ++ comparison.symbol.toList ++ right.form)
  | .connect left connective right =>
      bracketed (left.form ++ connective.symbol.toList ++ right.form)
end

/-- A minus before a value form. -/
def negatedForm (form : List Char) : List Char :=
  if form.head? = some '-' then '-' :: bracketed form else '-' :: form

mutual
/-- The value form. The names are read in the order of the text, and no
function is evaluated. -/
def Formula.valueForm [Monad m] (read : ν → m Binary64) : Formula ν → m (List Char)
  | .constant value => pure (Binary64.spell value)
  | .name reference => do
      let value ← read reference
      pure (Binary64.spell value)
  | .binary left operator right => do
      let leftForm ← left.valueForm read
      let rightForm ← right.valueForm read
      pure (bracketed (leftForm ++ operator.symbol :: rightForm))
  | .negate inner => do
      let form ← inner.valueForm read
      pure (negatedForm form)
  | .call function arguments => do
      let forms ← Formula.valueFormAll read arguments
      pure (function.toList ++ bracketed (joinWith ',' forms))
  | .choose test whenTrue whenFalse => do
      let testForm ← test.valueForm read
      let trueForm ← whenTrue.valueForm read
      let falseForm ← whenFalse.valueForm read
      pure (chooseName.toList ++ bracketed (joinWith ',' [testForm, trueForm, falseForm]))

def Formula.valueFormAll [Monad m] (read : ν → m Binary64) :
    List (Formula ν) → m (List (List Char))
  | [] => pure []
  | head :: tail => do
      let form ← head.valueForm read
      let forms ← Formula.valueFormAll read tail
      pure (form :: forms)

def Condition.valueForm [Monad m] (read : ν → m Binary64) : Condition ν → m (List Char)
  | .literal value =>
      pure (if value then ['t', 'r', 'u', 'e'] else ['f', 'a', 'l', 's', 'e'])
  | .compare left comparison right => do
      let leftForm ← left.valueForm read
      let rightForm ← right.valueForm read
      pure (bracketed (leftForm ++ comparison.symbol.toList ++ rightForm))
  | .connect left connective right => do
      let leftForm ← left.valueForm read
      let rightForm ← right.valueForm read
      pure (bracketed (leftForm ++ connective.symbol.toList ++ rightForm))
end

end NumericRules
