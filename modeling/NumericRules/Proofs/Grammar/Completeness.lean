import NumericRules.Proofs.Grammar.Chain
import NumericRules.Proofs.Grammar.Limits
import NumericRules.Proofs.Grammar.Shape
import Mathlib.Data.List.Forall2
import Mathlib.Data.List.TakeWhile

/-! # What is derived is read

Where a comma separates arguments, every part of the grammar is read to its end
and gives the tree of its derivation, if as many levels are left as the part has
characters.
-/

namespace NumericRules.Grammar

open Text

section Completeness

variable (vocabulary : Vocabulary ν)

/-! ## Parts of a text -/

/-- The text is read as one sum up to the bracket that closes it. -/
def ReadsSum (text : List Char) (tree : Formula ν) : Prop :=
  ∀ budget index rest, text.length ≤ budget → Closes rest →
    formula vocabulary budget ⟨index, text ++ rest⟩ = .ok (tree, ⟨index + text.length, rest⟩)

/-- The text is read as one condition up to the bracket that closes it. -/
def ReadsCondition (text : List Char) (tree : Condition ν) : Prop :=
  ∀ budget index rest, text.length ≤ budget → Closes rest →
    condition vocabulary budget ⟨index, text ++ rest⟩ = .ok (tree, ⟨index + text.length, rest⟩)

/-- Text that may follow an operand. -/
def Follows (rest : List Char) : Prop :=
  ∀ character, rest.head? = some character →
    (endsToken ',' character = true ∨ character = '-') ∧ character ≠ '('

/-- The text is read as one operand; the gap at its end may be left. -/
def ReadsOperand (text : List Char) (tree : Formula ν) : Prop :=
  ∀ budget after index rest, text.length ≤ budget → Follows rest →
    ∃ stop, readOperand vocabulary (levels vocabulary budget) after ⟨index, text ++ rest⟩ =
        .ok (tree, stop) ∧
      stop.skip = Cursor.skip ⟨index + text.length, rest⟩

variable {vocabulary}

theorem Follows.endsToken {rest : List Char} (follows : Follows rest) : EndsToken ',' rest :=
  fun character first => (follows character first).1

theorem Follows.next_ne {rest : List Char} (follows : Follows rest) (index : Nat) :
    Cursor.next? ⟨index, rest⟩ ≠ some '(' :=
  fun first => (follows '(' first).2 rfl

theorem Closes.follows {rest : List Char} (closes : Closes rest) : Follows rest := by
  intro character first
  rcases closes with rfl | closing
  · cases first
  · cases first.symm.trans closing
    exact ⟨.inl (by decide), by decide⟩

theorem follows_symbol (operator : Operator) (rest : List Char) :
    Follows (operator.symbol :: rest) := by
  intro character first
  cases first
  cases operator <;> decide

theorem Follows.gap {rest : List Char} (follows : Follows rest) {gap : List Char}
    (white : gap.all isWhite = true) : Follows (gap ++ rest) := by
  cases gap with
  | nil => exact follows
  | cons character gap =>
      intro found first
      cases first
      have isWhite := List.all_eq_true.mp white character (List.mem_cons_self ..)
      refine ⟨.inl ?_, ?_⟩
      · rw [Grammar.endsToken, isBlank_of_isWhite isWhite]
        rfl
      · rintro rfl
        exact absurd isWhite (by decide)

/-! ## Wholes and groups -/

theorem whole_of_reads {parse : Cursor → Except Fault (α × Cursor)} {index stop : Nat}
    {text : List Char} {result : α} (parsed : parse ⟨index, text⟩ = .ok (result, ⟨stop, []⟩)) :
    whole parse ⟨index, text⟩ = .ok result := by
  simp only [whole, parsed]
  rfl

theorem ReadsSum.throughout {text : List Char} {tree : Formula ν}
    (reads : ReadsSum vocabulary text tree)
    {budget : Nat} (enough : text.length ≤ budget) (index : Nat) :
    whole (formula vocabulary budget) ⟨index, text⟩ = .ok tree := by
  have parsed := reads budget index [] enough (.inl rfl)
  rw [List.append_nil] at parsed
  exact whole_of_reads parsed

theorem ReadsCondition.throughout {text : List Char} {tree : Condition ν}
    (reads : ReadsCondition vocabulary text tree) {budget : Nat} (enough : text.length ≤ budget)
    (index : Nat) : whole (condition vocabulary budget) ⟨index, text⟩ = .ok tree := by
  have parsed := reads budget index [] enough (.inl rfl)
  rw [List.append_nil] at parsed
  exact whole_of_reads parsed

/-- A group is read when what it holds is read one level deeper. -/
theorem readGroup_bracketed {parse : Deeper ν → Cursor → Except Fault (α × Cursor)}
    {text : List Char} {result : α} {budget index : Nat} {rest : List Char} (positive : 0 < budget)
    (parsed : parse ⟨formula vocabulary (budget - 1), condition vocabulary (budget - 1)⟩
        ⟨index + 1, text ++ ')' :: rest⟩ = .ok (result, ⟨index + 1 + text.length, ')' :: rest⟩)) :
    readGroup vocabulary (levels vocabulary budget) parse ⟨index, bracketed text ++ rest⟩ =
      .ok (result, ⟨index + (bracketed text).length, rest⟩) := by
  have closes : Closes (')' :: rest) := .inr rfl
  have atClosing : Cursor.skip ⟨index + 1 + text.length, ')' :: rest⟩ =
      ⟨index + 1 + text.length, ')' :: rest⟩ := Cursor.skip_of_settled closes.settled
  have opened :
      Cursor.advance ⟨index, bracketed text ++ rest⟩ 1 = ⟨index + 1, text ++ ')' :: rest⟩ := by
    rw [bracketed_append]
    rfl
  have width : index + 1 + text.length + 1 = index + (bracketed text).length := by
    rw [length_bracketed]
    omega
  simp only [readGroup, enter_levels vocabulary positive, opened]
  show (parse _ _ >>= _) = _
  rw [parsed]
  simp only [bind, Except.bind, atClosing, Cursor.next?, List.head?_cons, if_true, Cursor.advance,
    List.drop_succ_cons, List.drop_zero, width]
  rfl

/-! ## Operands -/

/-- The text is read as one operand to its end. -/
def ReadsAtom (vocabulary : Vocabulary ν) (text : List Char) (tree : Formula ν) : Prop :=
  ∀ budget after index rest, text.length ≤ budget → Follows rest →
    readOperand vocabulary (levels vocabulary budget) after ⟨index, text ++ rest⟩ =
      .ok (tree, ⟨index + text.length, rest⟩)

theorem ne_of_plain {first other : Char} (plain : first = '-' ∨ isWordCharacter first = true)
    (notMinus : '-' ≠ other) (notWord : isWordCharacter other = false) : first ≠ other := by
  rcases plain with rfl | word
  · exact notMinus
  · rintro rfl
    rw [word] at notWord
    cases notWord

/-- A text that begins with a minus or a word is read as an atom. -/
theorem readOperand_of_plain {first : Char} {tail : List Char}
    (plain : first = '-' ∨ isWordCharacter first = true) (deeper : Option (Deeper ν))
    (after : Option Operator) (index : Nat) :
    readOperand vocabulary deeper after ⟨index, first :: tail⟩ =
      readAtom vocabulary deeper after ⟨index, first :: tail⟩ := by
  have begins : Begins (first :: tail) := .plain plain
  have notOpening : first ≠ '(' := ne_of_plain plain (by decide) (by decide)
  have notClosing : first ≠ ')' := ne_of_plain plain (by decide) (by decide)
  have skipped : Cursor.skip ⟨index, first :: tail⟩ = ⟨index, first :: tail⟩ :=
    Cursor.skip_of_settled begins.solid.settled
  simp only [readOperand, skipped, Cursor.next?, List.head?_cons]

section Atoms

variable (comma : vocabulary.argumentSeparator = ',') {negative : Bool} {body rest : List Char}
  {deeper : Option (Deeper ν)} {after : Option Operator} {index : Nat}

include comma

theorem readToken_body (negative : Bool) (index : Nat)
    (areBody : body.all (isTokenCharacter ',') = true) (nonempty : body ≠ [])
    (ends : EndsToken ',' rest) :
    readToken vocabulary.argumentSeparator ⟨index, signed negative body ++ rest⟩ =
      .ok (signed negative body, ⟨index + (signed negative body).length, rest⟩) := by
  rw [comma]
  exact readToken_append areBody (by decide) ends (fun _ empty => absurd empty nonempty) index

theorem readAtom_number {value : Binary64} (numeral : IsNumeral body)
    (read : Binary64.readUnsigned? negative body = some value)
    (areBody : body.all (isTokenCharacter ',') = true) (ends : EndsToken ',' rest) :
    readAtom vocabulary deeper after ⟨index, signed negative body ++ rest⟩ =
      .ok (.constant value, ⟨index + (signed negative body).length, rest⟩) := by
  have numeric := numeral.isNumeric
  have number := (number?_eq_some numeric value).mpr ⟨numeral, read⟩
  have token := readToken_body comma negative index areBody
    ((isNumeric_iff body).mp numeric).1 ends
  simp only [readAtom, token, bind, Except.bind, head?_signed areBody, Bool.decide_eq_true,
    tail_signed, numeric, number, if_true]
  rfl

theorem readAtom_token {reference : ν} (areBody : body.all (isTokenCharacter ',') = true)
    (nonempty : body ≠ []) (notNumeric : isNumeric body = false)
    (known : vocabulary.resolve? (String.ofList body) = some reference) (follows : Follows rest) :
    readAtom vocabulary deeper after ⟨index, signed negative body ++ rest⟩ =
      .ok (negateIf negative (.name reference), ⟨index + (signed negative body).length, rest⟩) := by
  have token := readToken_body comma negative index areBody nonempty follows.endsToken
  have notEmpty : body.isEmpty = false := by simpa using nonempty
  simp only [readAtom, token, bind, Except.bind, head?_signed areBody, Bool.decide_eq_true,
    tail_signed, notNumeric, notEmpty, Vocabulary.resolve, known, follows.next_ne,
    Bool.false_eq_true, if_false]
  rfl

theorem readAtom_name {reference : ν} (word : IsWord body)
    (known : vocabulary.resolve? (String.ofList body) = some reference) (follows : Follows rest) :
    readAtom vocabulary deeper after ⟨index, signed negative body ++ rest⟩ =
      .ok (negateIf negative (.name reference), ⟨index + (signed negative body).length, rest⟩) :=
  readAtom_token comma word.token.1 word.ne_nil word.token.2 known follows

theorem readAtom_call {inner : List Char} {tree : Formula ν} {stop : Cursor} (word : IsWord body)
    (called : ∀ start, readCall vocabulary deeper start body
      ⟨index + (signed negative body).length, bracketed inner ++ rest⟩ = .ok (tree, stop)) :
    readAtom vocabulary deeper after ⟨index, signed negative body ++ (bracketed inner ++ rest)⟩ =
      .ok (negateIf negative tree, stop) := by
  have areBody := word.token.1
  have ends : EndsToken ',' (bracketed inner ++ rest) := by
    intro character first
    cases first
    exact .inl (by decide)
  have token := readToken_body comma negative index areBody word.ne_nil ends
  have notEmpty : body.isEmpty = false := by simpa using word.ne_nil
  have opens : Cursor.next? ⟨index + (signed negative body).length, bracketed inner ++ rest⟩ =
      some '(' := rfl
  simp only [readAtom, token, bind, Except.bind, head?_signed areBody, Bool.decide_eq_true,
    tail_signed, word.token.2, notEmpty, opens, called, Bool.false_eq_true, if_false, if_true]
  rfl

/-- A minus stands for a token of its own before a group. -/
theorem readAtom_minus {inner : List Char} {tree : Formula ν} {stop : Cursor}
    (group : readGroup vocabulary deeper Deeper.formula ⟨index + 1, bracketed inner ++ rest⟩ =
      .ok (tree, stop)) :
    readAtom vocabulary deeper after ⟨index, '-' :: (bracketed inner ++ rest)⟩ =
      .ok (.negate tree, stop) := by
  have ends : EndsToken ',' (bracketed inner ++ rest) := by
    intro character first
    cases first
    exact .inl (by decide)
  have noBody : List.all [] (isTokenCharacter ',') = true := rfl
  have token : readToken vocabulary.argumentSeparator ⟨index, '-' :: (bracketed inner ++ rest)⟩ =
      .ok (['-'], ⟨index + 1, bracketed inner ++ rest⟩) := by
    rw [comma]
    have apart :
        true = false → ([] : List Char) = [] → (bracketed inner ++ rest).head? ≠ some '-' :=
      fun positive => by cases positive
    exact readToken_append noBody (by decide) ends apart index
  have opens : Cursor.next? ⟨index + 1, bracketed inner ++ rest⟩ = some '(' := rfl
  simp only [readAtom, token, bind, Except.bind, List.head?_cons, if_true, List.tail_cons,
    isNumeric, List.isEmpty_nil, Bool.not_true, Bool.false_and, Bool.false_eq_true, if_false, opens,
    decide_true, Bool.and_self, group]
  rfl

end Atoms

theorem readGroup_of_reads {text : List Char} {tree : Formula ν} {budget index : Nat}
    {rest : List Char} (reads : ReadsSum vocabulary text tree)
    (enough : (bracketed text).length ≤ budget) :
    readGroup vocabulary (levels vocabulary budget) Deeper.formula ⟨index, bracketed text ++ rest⟩ =
      .ok (tree, ⟨index + (bracketed text).length, rest⟩) := by
  rw [length_bracketed] at enough
  apply readGroup_bracketed (by omega)
  exact reads (budget - 1) (index + 1) _ (by omega) (.inr rfl)

/-! ## Chains of operands -/

/-- An operator and its right operand, with the text of the operand. -/
structure Item (ν : Type) where
  operator : Operator
  text : List Char
  tree : Formula ν

def Item.pair (item : Item ν) : Operator × Formula ν := (item.operator, item.tree)

/-- Operators and operands as they stand in a text. -/
def itemsText : List (Item ν) → List Char
  | [] => []
  | item :: items => item.operator.symbol :: (item.text ++ itemsText items)

theorem itemsText_append (first second : List (Item ν)) :
    itemsText (first ++ second) = itemsText first ++ itemsText second := by
  induction first with
  | nil => rfl
  | cons item first induction => simp [itemsText, induction]

/-- The text is read as one operand behind its gap. -/
structure IsOperand (vocabulary : Vocabulary ν) (text : List Char) (tree : Formula ν) : Prop where
  reads : ReadsOperand vocabulary text tree
  begins : Category.Begins .term text

theorem Closes.follows_items {rest : List Char} (closes : Closes rest) (items : List (Item ν)) :
    Follows (itemsText items ++ rest) := by
  cases items with
  | nil => exact closes.follows
  | cons item items => exact follows_symbol item.operator _

/-- No comment begins at an operator. -/
theorem settled_symbol (operator : Operator) {text : List Char}
    (begins : Category.Begins .term text)
    (rest : List Char) : Settled (operator.symbol :: (text ++ rest)) := by
  intro character first
  cases first
  constructor
  · cases operator <;> decide
  · intro _ slash
    rcases begins with ⟨gap, core, rfl, white, begins⟩
    cases gap with
    | nil =>
        rcases begins.solid with ⟨first, tail, rfl, beginsPart⟩
        cases slash
        exact beginsPart.ne (by decide) (by decide) (by decide) rfl
    | cons blank gap =>
        cases slash
        exact absurd (List.all_eq_true.mp white '/' (List.mem_cons_self ..)) (by decide)

theorem Operator.ofSymbol?_symbol (operator : Operator) :
    Operator.ofSymbol? operator.symbol = some operator := by
  cases operator <;> rfl

/-- Nothing is skipped before an operator. -/
theorem skip_items {items : List (Item ν)}
    (operands : ∀ item ∈ items, IsOperand vocabulary item.text item.tree) {rest : List Char}
    (closes : Closes rest) (index : Nat) :
    Cursor.skip ⟨index, itemsText items ++ rest⟩ = ⟨index, itemsText items ++ rest⟩ := by
  have settled : Settled (itemsText items ++ rest) := by
    cases items with
    | nil => exact closes.settled
    | cons item items =>
        have begins := (operands item (List.mem_cons_self ..)).begins
        have atSymbol := settled_symbol item.operator begins (itemsText items ++ rest)
        simpa [itemsText] using atSymbol
  exact Cursor.skip_of_settled settled

/-- The operands behind a chain are pushed one by one. -/
theorem readChain_items {items : List (Item ν)}
    (operands : ∀ item ∈ items, IsOperand vocabulary item.text item.tree) {budget fuel : Nat}
    {chain : Chain ν} {cursor : Cursor} {index : Nat} {rest : List Char} (closes : Closes rest)
    (stands : cursor.skip = Cursor.skip ⟨index, itemsText items ++ rest⟩)
    (enough : items.length < fuel) (roomy : (itemsText items).length ≤ budget)
    (low : (chain.feed (items.map Item.pair)).depth ≤ budget) :
    readChain vocabulary (levels vocabulary budget) budget fuel chain cursor =
      .ok ((chain.feed (items.map Item.pair)).finish,
        ⟨index + (itemsText items).length, rest⟩) := by
  induction items generalizing fuel chain cursor index with
  | nil =>
      cases fuel with
      | zero => exact absurd enough (Nat.not_lt_zero _)
      | succ fuel =>
          rw [skip_items operands closes] at stands
          simp only [itemsText, List.nil_append] at stands
          rcases closes with rfl | closing
          · simp [readChain, stands, Cursor.next?, itemsText, Chain.feed, pure, Except.pure]
          · simp [readChain, stands, Cursor.next?, closing, itemsText, Chain.feed, pure,
              Except.pure]
  | cons item items induction =>
      cases fuel with
      | zero => exact absurd enough (Nat.not_lt_zero _)
      | succ fuel =>
          have operand := operands item (List.mem_cons_self ..)
          rw [skip_items operands closes] at stands
          have width : (itemsText (item :: items)).length =
              item.text.length + 1 + (itemsText items).length := by
            simp only [itemsText, List.length_cons, List.length_append]
            omega
          rcases operand.reads budget (some item.operator) (index + 1) (itemsText items ++ rest)
            (by omega) (closes.follows_items items) with ⟨stop, read, skipped⟩
          have notClosing : item.operator.symbol ≠ ')' := by cases item.operator <;> decide
          have lowNow : (chain.push item.operator item.tree).depth ≤ budget :=
            Nat.le_trans (Chain.depth_le_feed _ _) low
          have opened : Cursor.advance ⟨index, itemsText (item :: items) ++ rest⟩ 1 =
              ⟨index + 1, item.text ++ (itemsText items ++ rest)⟩ := by
            simp [itemsText, Cursor.advance]
          have further :=
            induction (fun other inside => operands other (List.mem_cons_of_mem _ inside))
            skipped (Nat.lt_of_succ_lt_succ enough) (by omega) low
          have next : Cursor.next? ⟨index, itemsText (item :: items) ++ rest⟩ =
              some item.operator.symbol := rfl
          have position : index + 1 + item.text.length + (itemsText items).length =
              index + (itemsText (item :: items)).length := by omega
          simp only [readChain, stands, next, Operator.ofSymbol?_symbol, opened, read, bind,
            Except.bind, Nat.not_lt_of_le lowNow, if_false, further, position]
          rfl

/-! ## Sums and products -/

/-- The text is a list of operands and operators that a chain joins to the tree. -/
structure IsChain (vocabulary : Vocabulary ν) (text : List Char) (tree : Formula ν)
    (firstText : List Char) (first : Formula ν) (items : List (Item ν)) : Prop where
  text_eq : text = firstText ++ itemsText items
  leads : IsOperand vocabulary firstText first
  operands : ∀ item ∈ items, IsOperand vocabulary item.text item.tree
  complete : Chain.Complete 1 ((Chain.start first).feed (items.map Item.pair)) tree

/-- The text is a list of operands and multiplicative operators that are joined to the
tree from the left. -/
structure IsProduct (vocabulary : Vocabulary ν) (text : List Char) (tree : Formula ν)
    (firstText : List Char) (first : Formula ν) (factors : List (Item ν)) : Prop where
  text_eq : text = firstText ++ itemsText factors
  leads : IsOperand vocabulary firstText first
  operands : ∀ item ∈ factors, IsOperand vocabulary item.text item.tree
  multiplicative : ∀ item ∈ factors, item.operator.precedence = 2
  tree_eq : tree = Chain.grouped first (factors.map Item.pair)

section Chains

variable {text left right firstText secondText : List Char}
  {tree leftTree rightTree first second : Formula ν} {items factors : List (Item ν)}
  {operator : Operator}

theorem IsProduct.pairs (product : IsProduct vocabulary text tree firstText first factors) :
    ∀ factor ∈ factors.map Item.pair, factor.1.precedence = 2 := by
  intro factor inside
  rcases List.mem_map.mp inside with ⟨item, itemInside, rfl⟩
  exact product.multiplicative item itemInside

theorem IsProduct.chain (product : IsProduct vocabulary text tree firstText first factors) :
    IsChain vocabulary text tree firstText first factors where
  text_eq := product.text_eq
  leads := product.leads
  operands := product.operands
  complete := by
    have complete := Chain.complete_feed (.start first) product.pairs
    rw [← product.tree_eq] at complete
    exact complete.loosen (Nat.le_succ 1)

theorem IsProduct.factor (product : IsProduct vocabulary left leftTree firstText first factors)
    (multiplicative : operator.precedence = 2) (operand : IsOperand vocabulary right rightTree) :
    IsProduct vocabulary (left ++ operator.symbol :: right) (.binary leftTree operator rightTree)
      firstText first (factors ++ [⟨operator, right, rightTree⟩]) where
  text_eq := by simp [product.text_eq, itemsText_append, itemsText]
  leads := product.leads
  operands := by
    intro item inside
    rcases List.mem_append.mp inside with inFactors | isLast
    · exact product.operands item inFactors
    · rw [List.mem_singleton.mp isLast]
      exact operand
  multiplicative := by
    intro item inside
    rcases List.mem_append.mp inside with inFactors | isLast
    · exact product.multiplicative item inFactors
    · rw [List.mem_singleton.mp isLast]
      exact multiplicative
  tree_eq := by
    rw [List.map_append, Chain.grouped_append, ← product.tree_eq]
    rfl

/-- A product behind an additive operator becomes the pending right operand. -/
theorem IsChain.sum (chain : IsChain vocabulary left leftTree firstText first items)
    (additive : operator.precedence = 1)
    (product : IsProduct vocabulary right rightTree secondText second factors) :
    IsChain vocabulary (left ++ operator.symbol :: right) (.binary leftTree operator rightTree)
      firstText first (items ++ ⟨operator, secondText, second⟩ :: factors) where
  text_eq := by simp [chain.text_eq, product.text_eq, itemsText_append, itemsText]
  leads := chain.leads
  operands := by
    intro item inside
    rcases List.mem_append.mp inside with inItems | inProduct
    · exact chain.operands item inItems
    · rcases List.mem_cons.mp inProduct with rfl | inFactors
      · exact product.leads
      · exact product.operands item inFactors
  complete := by
    have pushed := chain.complete.push (Nat.le_of_eq additive) second
    have gathered := Chain.feed_joined additive leftTree second product.pairs
    rw [← product.tree_eq] at gathered
    rw [List.map_append, Chain.feed_append, List.map_cons, Item.pair, Chain.feed, pushed, gathered]
    exact .joined leftTree rightTree (Nat.le_of_eq additive.symm)

theorem readOperand_skip (deeper : Option (Deeper ν)) (after : Option Operator) (cursor : Cursor) :
    readOperand vocabulary deeper after cursor.skip =
      readOperand vocabulary deeper after cursor := by
  simp only [readOperand, Cursor.skip_skip]

theorem length_le_itemsText (items : List (Item ν)) : items.length ≤ (itemsText items).length := by
  induction items with
  | nil => exact Nat.le_refl 0
  | cons item items induction =>
      simp only [itemsText, List.length_cons, List.length_append]
      omega

/-- A formula that begins as its parts do starts with an operand. -/
theorem readFormula_of_begins {gap core rest : List Char} (white : gap.all isWhite = true)
    (solid : Solid core) (deeper : Option (Deeper ν)) (budget index : Nat) :
    readFormula vocabulary deeper budget ⟨index, gap ++ (core ++ rest)⟩ =
      (readOperand vocabulary deeper none ⟨index, gap ++ (core ++ rest)⟩ >>= fun (term, stop) =>
        readChain vocabulary deeper budget (stop.rest.length + 1) (.start term) stop) := by
  have atCore :
      Cursor.skip ⟨index, gap ++ (core ++ rest)⟩ = ⟨index + gap.length, core ++ rest⟩ := by
    rw [Cursor.skip_gap (all_isBlank_of_isWhite white)]
    exact Cursor.skip_of_settled (solid.append rest).settled
  have operand : readOperand vocabulary deeper none ⟨index + gap.length, core ++ rest⟩ =
      readOperand vocabulary deeper none ⟨index, gap ++ (core ++ rest)⟩ := by
    rw [← atCore, readOperand_skip]
  rcases solid with ⟨first, tail, rfl, begins⟩
  have notClosing : first ≠ ')' := begins.ne (by decide) (by decide) (by decide)
  have next : Cursor.next? ⟨index + gap.length, first :: tail ++ rest⟩ = some first := rfl
  simp only [readFormula, atCore, next, operand]
  rcases begins.notOperator with none | minus
  · simp only [none]
  · simp only [minus]

/-- A chain is read as a formula. -/
theorem IsChain.reads (chain : IsChain vocabulary text tree firstText first items)
    (low : tree.depth ≤ text.length) : ReadsSum vocabulary text tree := by
  intro budget index rest enough closes
  have width : text.length = firstText.length + (itemsText items).length := by
    rw [chain.text_eq, List.length_append]
  rcases chain.leads.reads budget none index (itemsText items ++ rest) (by omega)
    (closes.follows_items items) with ⟨stop, read, skipped⟩
  have turns : items.length < stop.rest.length + 1 := by
    have shorter := length_skip_le stop
    rw [skipped, skip_items chain.operands closes, List.length_append] at shorter
    have inText := length_le_itemsText items
    omega
  have lowChain : ((Chain.start first).feed (items.map Item.pair)).depth ≤ budget := by
    rw [chain.complete.depth]
    exact Nat.le_trans low enough
  have run := readChain_items chain.operands closes skipped turns (by omega) lowChain
  rcases chain.leads.begins with ⟨gap, core, firstEq, white, begins⟩
  have parts : text ++ rest = gap ++ (core ++ (itemsText items ++ rest)) := by
    simp [chain.text_eq, firstEq]
  have sameFirst :
      firstText ++ (itemsText items ++ rest) = gap ++ (core ++ (itemsText items ++ rest)) := by
    simp [firstEq]
  have position : index + firstText.length + (itemsText items).length = index + text.length := by
    omega
  rw [sameFirst] at read
  rw [formula_eq, parts, readFormula_of_begins white begins.solid, read]
  simp only [bind, Except.bind, run, chain.complete.finish, position]

end Chains

/-! ## Calls -/

/-- The text is read as one argument of a call. -/
structure IsArgument (vocabulary : Vocabulary ν) (text : List Char) (tree : Formula ν) : Prop where
  reads : ReadsSum vocabulary text tree
  closed : Closed (· ≠ ',') text
  notBlank : text.all isBlank = false

/-- The text is blank, or arguments between commas. -/
inductive AreArguments (vocabulary : Vocabulary ν) : List Char → List (Formula ν) → Prop
  | none {gap : List Char} : gap.all isWhite = true → AreArguments vocabulary gap []
  | some {texts : List (List Char)} {trees : List (Formula ν)} :
      texts ≠ [] → List.Forall₂ (IsArgument vocabulary) texts trees →
      AreArguments vocabulary (joinWith ',' texts) trees

theorem closed_of_arguments {texts : List (List Char)} {trees : List (Formula ν)}
    (arguments : List.Forall₂ (IsArgument vocabulary) texts trees) :
    ∀ text ∈ texts, Closed (· ≠ ',') text ∧ text.all isBlank = false := by
  induction arguments with
  | nil =>
      intro text inside
      cases inside
  | cons argument _ induction =>
      intro text inside
      rcases List.mem_cons.mp inside with rfl | inTail
      · exact ⟨argument.closed, argument.notBlank⟩
      · exact induction text inTail

theorem Solid.not_all_isBlank {gap core : List Char} (solid : Solid core) :
    (gap ++ core).all isBlank = false := by
  rcases solid with ⟨first, rest, rfl, begins⟩
  simp [begins.not_isBlank]

theorem length_le_joinWith (separator : Char) {text : List Char} {texts : List (List Char)}
    (inside : text ∈ texts) : text.length ≤ (joinWith separator texts).length := by
  induction texts with
  | nil => cases inside
  | cons head tail induction =>
      cases tail with
      | nil =>
          rw [List.mem_singleton.mp inside]
          exact Nat.le_refl _
      | cons next tail =>
          simp only [joinWith, List.length_append, List.length_cons]
          rcases List.mem_cons.mp inside with rfl | inTail
          · omega
          · have bound := induction inTail
            omega

theorem readAll_arguments {budget : Nat} {texts : List (List Char)} {trees : List (Formula ν)}
    (arguments : List.Forall₂ (IsArgument vocabulary) texts trees)
    (enough : ∀ text ∈ texts, text.length ≤ budget) (index : Nat) :
    readAll (whole (formula vocabulary budget)) (argumentsFrom index texts) = .ok trees := by
  induction arguments generalizing index with
  | nil => rfl
  | @cons text tree texts trees argument _ induction =>
      have first := argument.reads.throughout (enough text (List.mem_cons_self ..)) index
      have others := induction (fun other inside => enough other (List.mem_cons_of_mem _ inside))
        (index + text.length + 1)
      simp only [argumentsFrom, readAll, first, others, bind, Except.bind]

section Calls

variable (comma : vocabulary.argumentSeparator = ',') {name inner rest : List Char}
  {budget start index : Nat}

include comma

theorem readCall_native {accepted : List Nat} {trees : List (Formula ν)}
    (known : vocabulary.signature? (String.ofList name) = some (.native accepted))
    (arguments : AreArguments vocabulary inner trees)
    (count : accepted.contains trees.length = true) (enough : (bracketed inner).length ≤ budget) :
    readCall vocabulary (levels vocabulary budget) start name ⟨index, bracketed inner ++ rest⟩ =
      .ok (.call (String.ofList name) trees, ⟨index + (bracketed inner).length, rest⟩) := by
  rw [length_bracketed] at enough
  have positive : 0 < budget := by omega
  have entered := enter_levels vocabulary positive ⟨index, bracketed inner ++ rest⟩
  cases arguments with
  | none white =>
      have apart : inner.all (· != ',') = true := by
        apply List.all_eq_true.mpr
        intro character inside
        have isWhite := List.all_eq_true.mp white character inside
        exact bne_iff_ne.mpr (by rintro rfl; exact absurd isWhite (by decide))
      have split := readArguments_blank (all_isBlank_of_isWhite white) apart index rest
      simp only [readCall, known, comma, entered, split, bind, Except.bind, List.length_nil]
        at count ⊢
      simp only [count, if_true]
      rfl
  | @some texts _ nonempty arguments =>
      have apart : ',' ≠ '(' ∧ ',' ≠ ')' := by decide
      have split := readArguments_joinWith apart.1 apart.2 nonempty
        (fun text inside => (closed_of_arguments arguments text inside).1)
        (fun text inside => (closed_of_arguments arguments text inside).2) index rest
      have short : ∀ text ∈ texts, text.length ≤ budget - 1 := by
        intro text inside
        have bound := length_le_joinWith ',' inside
        omega
      have read := readAll_arguments arguments short (index + 1)
      have width : (argumentsFrom (index + 1) texts).length = trees.length := by
        rw [length_argumentsFrom]
        exact arguments.length_eq
      simp only [readCall, known, comma, entered, split, bind, Except.bind, width, count, read,
        if_true]
      rfl

theorem readCall_choose {test first second : List Char} {testTree : Condition ν}
    {firstTree secondTree : Formula ν}
    (known : vocabulary.signature? (String.ofList name) = some .choose)
    (testReads : ReadsCondition vocabulary test testTree) (testClosed : Closed (· ≠ ',') test)
    (testNotBlank : test.all isBlank = false)
    (firstArgument : IsArgument vocabulary first firstTree)
    (secondArgument : IsArgument vocabulary second secondTree)
    (enough : (bracketed (joinWith ',' [test, first, second])).length ≤ budget) :
    readCall vocabulary (levels vocabulary budget) start name
        ⟨index, bracketed (joinWith ',' [test, first, second]) ++ rest⟩ =
      .ok (.choose testTree firstTree secondTree,
        ⟨index + (bracketed (joinWith ',' [test, first, second])).length, rest⟩) := by
  rw [length_bracketed] at enough
  have positive : 0 < budget := by omega
  have entered := enter_levels vocabulary positive
    ⟨index, bracketed (joinWith ',' [test, first, second]) ++ rest⟩
  have apart : ',' ≠ '(' ∧ ',' ≠ ')' := by decide
  have texts :
      ∀ text ∈ [test, first, second], Closed (· ≠ ',') text ∧ text.all isBlank = false := by
    intro text inside
    simp only [List.mem_cons, List.not_mem_nil, or_false] at inside
    rcases inside with rfl | rfl | rfl
    · exact ⟨testClosed, testNotBlank⟩
    · exact ⟨firstArgument.closed, firstArgument.notBlank⟩
    · exact ⟨secondArgument.closed, secondArgument.notBlank⟩
  have split := readArguments_joinWith apart.1 apart.2 (List.cons_ne_nil test [first, second])
    (fun text inside => (texts text inside).1) (fun text inside => (texts text inside).2) index rest
  simp only [joinWith, List.length_append, List.length_cons] at enough
  have testShort : test.length ≤ budget - 1 := by omega
  have firstShort : first.length ≤ budget - 1 := by omega
  have secondShort : second.length ≤ budget - 1 := by omega
  have testRead := testReads.throughout testShort (index + 1)
  have firstRead := firstArgument.reads.throughout firstShort (index + 1 + test.length + 1)
  have secondRead := secondArgument.reads.throughout secondShort
    (index + 1 + test.length + 1 + first.length + 1)
  simp only [argumentsFrom] at split
  simp only [readCall, known, comma, entered, split, bind, Except.bind, testRead, firstRead,
    secondRead]
  rfl

end Calls

/-! ## Conditions -/

/-- Text that may follow one operand of a condition. -/
def Separates (rest : List Char) : Prop :=
  ∀ character, rest.head? = some character → character = ')' ∨ character = '&' ∨ character = '|'

/-- Read one operand of a condition, where a gap has been skipped. -/
def readClause (vocabulary : Vocabulary ν) (deeper : Option (Deeper ν))
    (parseFormula : Cursor → Except Fault (Formula ν × Cursor)) (cursor : Cursor) :
    Except Fault (Condition ν × Cursor) :=
  if cursor.next? = some '(' && !opensFormula cursor then
    readGroup vocabulary deeper Deeper.condition cursor
  else readComparison parseFormula cursor

/-- The text is read as one operand of a condition; the gap at its end may be left. -/
def ReadsClause (vocabulary : Vocabulary ν) (text : List Char) (tree : Condition ν) : Prop :=
  ∀ budget index rest, text.length ≤ budget → Separates rest →
    ∃ stop, readClause vocabulary (levels vocabulary budget) (formula vocabulary budget)
        (Cursor.skip ⟨index, text ++ rest⟩) = .ok (tree, stop) ∧
      stop.skip = Cursor.skip ⟨index + text.length, rest⟩

theorem Closes.separates {rest : List Char} (closes : Closes rest) : Separates rest := by
  intro character first
  rcases closes with rfl | closing
  · cases first
  · exact .inl (Option.some.inj (first.symm.trans closing))

theorem separates_symbol (connective : Connective) (rest : List Char) :
    Separates (connective.symbol.toList ++ rest) := by
  intro character first
  cases connective with
  | and =>
      cases first
      exact .inr (.inl rfl)
  | or =>
      cases first
      exact .inr (.inr rfl)

theorem Separates.settled {rest : List Char} (separates : Separates rest) : Settled rest := by
  intro character first
  rcases separates character first with rfl | rfl | rfl <;>
    exact ⟨by decide, fun slash => absurd slash (by decide)⟩

/-- No formula goes on behind an operand of a condition. -/
theorem Separates.not_startsContinuation {rest : List Char} (separates : Separates rest)
    {gap : List Char} (white : gap.all isWhite = true) :
    startsContinuation (gap ++ rest) = false := by
  have skipped : (gap ++ rest).find? (fun character => !isBlank character) =
      rest.find? fun character => !isBlank character := by
    rw [List.find?_append, List.find?_eq_none.mpr, Option.none_or]
    intro character inside
    simp [isBlank_of_isWhite (List.all_eq_true.mp white character inside)]
  rw [startsContinuation, skipped]
  cases rest with
  | nil => rfl
  | cons character rest =>
      rcases separates character rfl with rfl | rfl | rfl <;> rfl

/-- A formula goes on behind a group that is followed by an operator or a
comparison. -/
theorem startsContinuation_of {gap : List Char} (white : gap.all isWhite = true) {character : Char}
    (continues : continuesFormula character = true) (rest : List Char) :
    startsContinuation (gap ++ character :: rest) = true := by
  have notBlank : isBlank character = false := by
    simp only [continuesFormula, List.contains_eq_mem, decide_eq_true_eq, List.mem_cons,
      List.not_mem_nil, or_false] at continues
    rcases continues with rfl | rfl | rfl | rfl | rfl | rfl | rfl | rfl | rfl <;> decide
  have found : (gap ++ character :: rest).find? (fun other => !isBlank other) = some character := by
    rw [List.find?_append, List.find?_eq_none.mpr, Option.none_or]
    · simp [notBlank]
    · intro other inside
      simp [isBlank_of_isWhite (List.all_eq_true.mp white other inside)]
  rw [startsContinuation, found]
  exact continues

/-- A condition is one operand and what connects it to the next. -/
theorem readCondition_of_solid {gap core rest : List Char} (white : gap.all isWhite = true)
    (solid : Solid core) (deeper : Option (Deeper ν))
    (parseFormula : Cursor → Except Fault (Formula ν × Cursor)) (index : Nat) :
    readCondition vocabulary deeper parseFormula ⟨index, gap ++ (core ++ rest)⟩ =
      (readClause vocabulary deeper parseFormula (Cursor.skip ⟨index, gap ++ (core ++ rest)⟩) >>=
        fun (left, stop) => readConnective vocabulary deeper left stop) := by
  have atCore :
      Cursor.skip ⟨index, gap ++ (core ++ rest)⟩ = ⟨index + gap.length, core ++ rest⟩ := by
    rw [Cursor.skip_gap (all_isBlank_of_isWhite white)]
    exact Cursor.skip_of_settled (solid.append rest).settled
  rcases solid with ⟨first, tail, rfl, begins⟩
  have notClosing : first ≠ ')' := begins.ne (by decide) (by decide) (by decide)
  have notAnd : first ≠ '&' := begins.ne (by decide) (by decide) (by decide)
  have notOr : first ≠ '|' := begins.ne (by decide) (by decide) (by decide)
  have next : Cursor.next? ⟨index + gap.length, first :: tail ++ rest⟩ = some first := rfl
  simp only [readCondition, atCore, next, notAnd, notOr, readClause, Option.some.injEq,
    decide_false, Bool.or_self, Bool.false_eq_true, if_false]
  split <;> rfl

/-- A bracketed condition is read as an operand. -/
theorem readsClause_group {before inner after : List Char} {tree : Condition ν}
    (whiteBefore : before.all isWhite = true) (whiteAfter : after.all isWhite = true)
    {allowed : Char → Prop} (closed : Closed allowed inner)
    (reads : ReadsCondition vocabulary inner tree) :
    ReadsClause vocabulary (before ++ (bracketed inner ++ after)) tree := by
  intro budget index rest enough separates
  simp only [List.length_append, length_bracketed] at enough
  let start := index + before.length
  have atGroup : Cursor.skip ⟨index, before ++ (bracketed inner ++ after) ++ rest⟩ =
      ⟨start, bracketed inner ++ (after ++ rest)⟩ := by
    have solid : Solid (bracketed inner) := ⟨'(', _, rfl, .inr (.inl rfl)⟩
    rw [List.append_assoc, List.append_assoc, Cursor.skip_gap (all_isBlank_of_isWhite whiteBefore)]
    exact Cursor.skip_of_settled (solid.append (after ++ rest)).settled
  have positive : 0 < budget := by omega
  have parsed := reads (budget - 1) (start + 1) (')' :: (after ++ rest)) (by omega) (.inr rfl)
  have group : readGroup vocabulary (levels vocabulary budget) Deeper.condition
      ⟨start, bracketed inner ++ (after ++ rest)⟩ =
        .ok (tree, ⟨start + (bracketed inner).length, after ++ rest⟩) :=
    readGroup_bracketed positive parsed
  have opens : Cursor.next? ⟨start, bracketed inner ++ (after ++ rest)⟩ = some '(' := rfl
  have notFormula : opensFormula ⟨start, bracketed inner ++ (after ++ rest)⟩ = false := by
    rw [opensFormula_bracketed closed]
    exact separates.not_startsContinuation whiteAfter
  refine ⟨⟨start + (bracketed inner).length, after ++ rest⟩, ?_, ?_⟩
  · rw [atGroup, readClause, opens, notFormula]
    exact group
  · rw [Cursor.skip_gap (all_isBlank_of_isWhite whiteAfter)]
    simp only [start, List.length_append, Nat.add_assoc]

theorem Closed.behind {allowed : Char → Prop} {gap core : List Char}
    (closed : Closed allowed (gap ++ core)) (white : gap.all isWhite = true) :
    Closed allowed core := by
  induction gap with
  | nil => exact closed
  | cons blank gap induction =>
      rw [List.all_cons, Bool.and_eq_true] at white
      rw [List.cons_append] at closed
      generalize equal : blank :: (gap ++ core) = text at closed
      cases closed with
      | nil => cases equal
      | character _ _ _ closedRest =>
          cases equal
          exact induction closedRest white.2
      | brackets _ _ =>
          rw [bracketed_append] at equal
          rw [(List.cons.inj equal).1] at white
          exact absurd white.1 (by decide)

theorem ReadsSum.behind {gap core : List Char} {tree : Formula ν}
    (reads : ReadsSum vocabulary (gap ++ core) tree) (white : gap.all isWhite = true)
    {budget : Nat} (enough : (gap ++ core).length ≤ budget) (index : Nat) :
    whole (formula vocabulary budget) ⟨index + gap.length, core⟩ = .ok tree := by
  have parsed := reads budget index [] enough (.inl rfl)
  have skipped : readFormula vocabulary (levels vocabulary budget) budget ⟨index, gap ++ core⟩ =
      readFormula vocabulary (levels vocabulary budget) budget ⟨index + gap.length, core⟩ := by
    simp only [readFormula, Cursor.skip_gap (all_isBlank_of_isWhite white)]
  rw [List.append_nil, formula_eq, skipped, ← formula_eq] at parsed
  exact whole_of_reads parsed

theorem BeginsPart.not_isWhite {character : Char} (begins : BeginsPart character) :
    isWhite character = false := by
  apply Bool.eq_false_iff.mpr
  intro white
  have blank := isBlank_of_isWhite white
  rw [begins.not_isBlank] at blank
  cases blank

/-- Trimming keeps the characters that are not white. -/
theorem trim_isEmpty {core : List Char} (solid : Solid core) : (trim core).isEmpty = false := by
  rcases solid with ⟨first, rest, rfl, begins⟩
  have notWhite := begins.not_isWhite
  have stays : (first :: rest).dropWhile isWhite = first :: rest := by simp [notWhite]
  have ends : (first :: rest).reverse.dropWhile isWhite ≠ [] := by
    intro empty
    have all := List.dropWhile_eq_nil_iff.mp empty first (by simp)
    rw [notWhite] at all
    cases all
  simpa [trim, trimEnd, stays] using ends

theorem IsPlain.goesOn {character : Char} (plain : IsPlain character) (stopAtComparison : Bool) :
    endsOperand stopAtComparison character = false := by
  cases stopAtComparison with
  | true => exact plain.2
  | false =>
      have all := plain.2
      simp only [endsOperand, Bool.or_eq_false_iff] at all ⊢
      exact ⟨all.1, rfl⟩

theorem Comparison.ofSymbol?_symbol (comparison : Comparison) :
    Comparison.ofSymbol? comparison.symbol.toList = some comparison := by
  cases comparison <;> rfl

/-- The symbol of a comparison is not empty and made of the characters of
comparisons. -/
theorem Comparison.symbol_eq (comparison : Comparison) :
    ∃ first rest, comparison.symbol.toList = first :: rest ∧ isComparisonSymbol first = true ∧
      rest.all isComparisonSymbol = true := by
  cases comparison <;> exact ⟨_, _, rfl, by decide, by decide⟩

theorem continuesFormula_of_isComparisonSymbol {character : Char}
    (isSymbol : isComparisonSymbol character = true) : continuesFormula character = true := by
  simp only [isComparisonSymbol, List.contains_eq_mem, decide_eq_true_eq, List.mem_cons,
    List.not_mem_nil, or_false] at isSymbol
  rcases isSymbol with rfl | rfl | rfl | rfl <;> decide

theorem not_isComparisonSymbol_of_begins {gap core : List Char} (white : gap.all isWhite = true)
    (solid : Solid core) (rest : List Char) :
    ∃ first tail, gap ++ (core ++ rest) = first :: tail ∧ isComparisonSymbol first = false := by
  cases gap with
  | nil =>
      rcases solid with ⟨first, tail, rfl, begins⟩
      refine ⟨first, tail ++ rest, rfl, ?_⟩
      rcases begins with rfl | rfl | word
      · decide
      · decide
      · have plain := isPlain_of_not_mem_punctuation (not_mem_punctuation_of_isWordCharacter word)
        have all := plain.2
        simp only [endsOperand, Bool.or_eq_false_iff, Bool.true_and] at all
        exact all.2
  | cons blank gap =>
      refine ⟨blank, gap ++ (core ++ rest), rfl, ?_⟩
      rw [List.all_cons, Bool.and_eq_true] at white
      have plain := isPlain_of_not_mem_punctuation (not_mem_punctuation_of_isWhite white.1)
      have all := plain.2
      simp only [endsOperand, Bool.or_eq_false_iff, Bool.true_and] at all
      exact all.2

/-- The text is read as one side of a comparison. -/
structure IsComparand (vocabulary : Vocabulary ν) (text : List Char) (tree : Formula ν) : Prop where
  reads : ReadsSum vocabulary text tree
  closed : Closed IsPlain text
  begins : Category.Begins .sum text

/-- A bracket that begins a compared formula is not taken for a condition's. -/
theorem readClause_of_comparison {core : List Char} (begins : Begins core) {first : Char}
    (isSymbol : isComparisonSymbol first = true) (rest : List Char) (deeper : Option (Deeper ν))
    (parseFormula : Cursor → Except Fault (Formula ν × Cursor)) (index : Nat) :
    readClause vocabulary deeper parseFormula ⟨index, core ++ first :: rest⟩ =
      readComparison parseFormula ⟨index, core ++ first :: rest⟩ := by
  have goesOn : (decide (Cursor.next? ⟨index, core ++ first :: rest⟩ = some '(') &&
      !opensFormula ⟨index, core ++ first :: rest⟩) = false := by
    cases begins with
    | @plain head tail plain =>
        have notOpening : head ≠ '(' := ne_of_plain plain (by decide) (by decide)
        simp [Cursor.next?, notOpening]
    | @group inner gap tail closed white follows =>
        have opens :
            opensFormula ⟨index, bracketed inner ++ (gap ++ tail) ++ first :: rest⟩ = true := by
          rw [List.append_assoc, opensFormula_bracketed closed, List.append_assoc]
          cases tail with
          | nil =>
              exact startsContinuation_of white
                (continuesFormula_of_isComparisonSymbol isSymbol) rest
          | cons character tail =>
              rcases follows character rfl with ⟨operator, rfl⟩
              apply startsContinuation_of white
              cases operator <;> decide
        rw [opens, Bool.not_true, Bool.and_false]
  rw [readClause, goesOn]
  rfl

theorem readsClause_compare {left right : List Char} {leftTree rightTree : Formula ν}
    (comparison : Comparison) (leftSide : IsComparand vocabulary left leftTree)
    (rightSide : IsComparand vocabulary right rightTree) :
    ReadsClause vocabulary (left ++ (comparison.symbol.toList ++ right))
      (.compare leftTree comparison rightTree) := by
  intro budget index rest enough separates
  rcases leftSide.begins with ⟨gap, core, rfl, white, begins⟩
  rcases rightSide.begins with ⟨rightGap, rightCore, rightEq, rightWhite, rightBegins⟩
  rcases Comparison.symbol_eq comparison with ⟨first, others, symbolEq, isSymbol, areSymbols⟩
  simp only [List.length_append] at enough
  let symbol := comparison.symbol.toList
  let start := index + gap.length
  let middle := start + core.length
  let behind := middle + symbol.length
  have atCore : Cursor.skip ⟨index, gap ++ core ++ (symbol ++ right) ++ rest⟩ =
      ⟨start, core ++ (symbol ++ (right ++ rest))⟩ := by
    simp only [List.append_assoc]
    rw [Cursor.skip_gap (all_isBlank_of_isWhite white)]
    exact Cursor.skip_of_settled (begins.solid.append _).settled
  -- The left side ends at the symbol and the right side with the clause.
  have coreClosed : Closed IsPlain core := leftSide.closed.behind white
  have leftEnd : skipOperand true ⟨start, core ++ (symbol ++ (right ++ rest))⟩ =
      ⟨middle, symbol ++ (right ++ rest)⟩ := by
    apply skipOperand_closed coreClosed (fun _ plain => plain.2)
    intro character isFirst
    simp only [symbol, symbolEq, List.cons_append, List.head?_cons, Option.some.injEq] at isFirst
    rw [← isFirst]
    exact .inr (by simp [endsOperand, isSymbol])
  have rightEnd : skipOperand false ⟨behind, right ++ rest⟩ = ⟨behind + right.length, rest⟩ := by
    apply skipOperand_closed rightSide.closed (fun _ plain => plain.goesOn false)
    intro character isFirst
    rcases separates character isFirst with rfl | rfl | rfl
    · exact .inl rfl
    · exact .inr (by decide)
    · exact .inr (by decide)
  have leftPart : Cursor.upTo ⟨start, core ++ (symbol ++ (right ++ rest))⟩
      ⟨middle, symbol ++ (right ++ rest)⟩ = ⟨start, core⟩ :=
    Cursor.upTo_rest (Cursor.spans_mk start core _)
  have rightPart : Cursor.upTo ⟨behind, right ++ rest⟩ ⟨behind + right.length, rest⟩ =
      ⟨behind, right⟩ := Cursor.upTo_rest (Cursor.spans_mk behind right rest)
  have taken : (symbol ++ (right ++ rest)).takeWhile isComparisonSymbol = symbol := by
    rcases not_isComparisonSymbol_of_begins rightWhite rightBegins.solid rest with
      ⟨next, tail, tailEq, notSymbol⟩
    have allSymbols : ∀ character ∈ symbol, isComparisonSymbol character = true := by
      simp only [symbol, symbolEq]
      intro character inside
      rcases List.mem_cons.mp inside with rfl | inOthers
      · exact isSymbol
      · exact List.all_eq_true.mp areSymbols character inOthers
    rw [List.takeWhile_append_of_pos allSymbols, rightEq, List.append_assoc, tailEq]
    simp [notSymbol]
  have found : Comparison.ofSymbol? symbol = some comparison :=
    Comparison.ofSymbol?_symbol comparison
  have notEmpty : symbol.isEmpty = false := by simp [symbol, symbolEq]
  have advanced : Cursor.advance ⟨middle, symbol ++ (right ++ rest)⟩ symbol.length =
      ⟨behind, right ++ rest⟩ := by simp [Cursor.advance, behind]
  have rightNotBlank : Cursor.isBlank ⟨behind, right⟩ = false := by
    rw [Cursor.isBlank, rightEq]
    exact rightBegins.solid.not_all_isBlank
  have leftRead : whole (formula vocabulary budget) ⟨start, core⟩ = .ok leftTree :=
    leftSide.reads.behind white (by rw [List.length_append]; omega) index
  have rightRead : whole (formula vocabulary budget) ⟨behind, right⟩ = .ok rightTree :=
    rightSide.reads.throughout (by omega) behind
  have comparisonRead : readComparison (formula vocabulary budget)
      ⟨start, core ++ (symbol ++ (right ++ rest))⟩ =
        .ok (.compare leftTree comparison rightTree, ⟨behind + right.length, rest⟩) := by
    simp only [readComparison, leftEnd, leftPart, trim_isEmpty begins.solid, taken, notEmpty, found,
      advanced, rightEnd, rightPart, rightNotBlank, leftRead, rightRead, bind, Except.bind,
      Bool.false_eq_true, if_false]
    rfl
  refine ⟨⟨behind + right.length, rest⟩, ?_, ?_⟩
  · rw [atCore, ← comparisonRead]
    simp only [symbol, symbolEq]
    exact readClause_of_comparison begins isSymbol _ _ _ start
  · simp only [behind, middle, start, symbol, List.length_append, Nat.add_assoc]

theorem trim_append {word after : List Char} (nonempty : word ≠ [])
    (notWhite : ∀ character ∈ word, isWhite character = false) (white : after.all isWhite = true) :
    trim (word ++ after) = word := by
  have stays {text rest : List Char} (nonempty : text ≠ [])
      (notWhite : ∀ character ∈ text, isWhite character = false) :
      (text ++ rest).dropWhile isWhite = text ++ rest := by
    cases text with
    | nil => exact absurd rfl nonempty
    | cons first text => simp [notWhite first (List.mem_cons_self ..)]
  have allWhite : ∀ character ∈ after.reverse, isWhite character = true := by
    intro character inside
    exact List.all_eq_true.mp white character (List.mem_reverse.mp inside)
  have reversed : (word.reverse ++ []).dropWhile isWhite = word.reverse ++ [] := by
    apply stays (by simpa using nonempty)
    exact fun character inside => notWhite character (List.mem_reverse.mp inside)
  rw [List.append_nil] at reversed
  rw [trim, stays nonempty notWhite, trimEnd, List.reverse_append,
    List.dropWhile_append_of_pos allWhite, reversed, List.reverse_reverse]

/-- A truth value is read as an operand. -/
theorem readsClause_literal {before word after : List Char} {value : Bool}
    (whiteBefore : before.all isWhite = true) (named : literal? word = some value)
    (whiteAfter : after.all isWhite = true) :
    ReadsClause vocabulary (before ++ (word ++ after)) (.literal value) := by
  intro budget index rest _ separates
  rcases word_of_literal? named with ⟨nonempty, isWord⟩
  have begins := begins_of_isWordCharacter nonempty isWord after
  let start := index + before.length
  have atWord : Cursor.skip ⟨index, before ++ (word ++ after) ++ rest⟩ =
      ⟨start, word ++ after ++ rest⟩ := by
    rw [List.append_assoc, Cursor.skip_gap (all_isBlank_of_isWhite whiteBefore)]
    exact Cursor.skip_of_settled (begins.solid.append rest).settled
  have notWhite : ∀ character ∈ word, isWhite character = false :=
    fun character inside => BeginsPart.not_isWhite (.inr (.inr (isWord character inside)))
  have closed : Closed IsPlain (word ++ after) := by
    apply Closed.append _ (closed_of_white whiteAfter)
    apply closed_of_not_mem_punctuation
    exact fun character inside => not_mem_punctuation_of_isWordCharacter (isWord character inside)
  have wordEnd : skipOperand true ⟨start, word ++ after ++ rest⟩ =
      ⟨start + (word ++ after).length, rest⟩ := by
    apply skipOperand_closed closed (fun _ plain => plain.2)
    intro character isFirst
    rcases separates character isFirst with rfl | rfl | rfl
    · exact .inl rfl
    · exact .inr (by decide)
    · exact .inr (by decide)
  have part : Cursor.upTo ⟨start, word ++ after ++ rest⟩ ⟨start + (word ++ after).length, rest⟩ =
      ⟨start, word ++ after⟩ := Cursor.upTo_rest (Cursor.spans_mk start (word ++ after) rest)
  have trimmed : trim (word ++ after) = word := trim_append nonempty notWhite whiteAfter
  have notEmpty : word.isEmpty = false := by simpa using nonempty
  have noSymbol : rest.takeWhile isComparisonSymbol = [] := by
    cases rest with
    | nil => rfl
    | cons character rest =>
        rcases separates character rfl with rfl | rfl | rfl <;> rfl
  refine ⟨⟨start + (word ++ after).length, rest⟩, ?_, ?_⟩
  · rw [atWord]
    have plain : (decide (Cursor.next? ⟨start, word ++ after ++ rest⟩ = some '(') &&
        !opensFormula ⟨start, word ++ after ++ rest⟩) = false := by
      cases word with
      | nil => exact absurd rfl nonempty
      | cons first word =>
          have first_ne : first ≠ '(' :=
            ne_of_plain (.inr (isWord first (List.mem_cons_self ..))) (by decide) (by decide)
          simp [Cursor.next?, first_ne]
    rw [readClause, plain]
    simp only [readComparison, wordEnd, part, trimmed, notEmpty, noSymbol, named, List.isEmpty_nil,
      Bool.false_eq_true, if_false, if_true]
    rfl
  · simp only [start, List.length_append, Nat.add_assoc]

/-! ## Connectives -/

/-- An operand alone is a condition. -/
theorem ReadsClause.condition {text : List Char} {tree : Condition ν}
    (reads : ReadsClause vocabulary text tree) (begins : Category.Begins .clause text) :
    ReadsCondition vocabulary text tree := by
  intro budget index rest enough closes
  rcases reads budget index rest enough closes.separates with ⟨stop, read, skipped⟩
  rcases begins with ⟨gap, core, rfl, white, solid⟩
  have atRest : Cursor.skip ⟨index + (gap ++ core).length, rest⟩ =
      ⟨index + (gap ++ core).length, rest⟩ := Cursor.skip_of_settled closes.settled
  rw [List.append_assoc] at read ⊢
  rw [condition_eq, readCondition_of_solid white solid, read]
  rw [atRest] at skipped
  rcases closes with rfl | closing
  · simp only [bind, Except.bind, readConnective, skipped, Cursor.next?, List.head?_nil]
    rfl
  · simp only [bind, Except.bind, readConnective, skipped, Cursor.next?, closing]
    rfl

theorem readCondition_skip {deeper : Option (Deeper ν)}
    {parseFormula : Cursor → Except Fault (Formula ν × Cursor)} (cursor : Cursor) :
    readCondition vocabulary deeper parseFormula cursor.skip =
      readCondition vocabulary deeper parseFormula cursor := by
  simp only [readCondition, Cursor.skip_skip]

theorem Connective.symbol_eq (connective : Connective) :
    ∃ symbol, connective.symbol.toList = [symbol, symbol] ∧ symbol ≠ ')' ∧
      Connective.ofCharacter? symbol = some connective := by
  cases connective <;> exact ⟨_, rfl, by decide, rfl⟩

/-- Connectives nest to the right. -/
theorem ReadsClause.connect {left right : List Char} {leftTree rightTree : Condition ν}
    (connective : Connective) (leftReads : ReadsClause vocabulary left leftTree)
    (leftBegins : Category.Begins .clause left)
    (rightReads : ReadsCondition vocabulary right rightTree)
    (rightBegins : Category.Begins .condition right) :
    ReadsCondition vocabulary (left ++ (connective.symbol.toList ++ right))
      (.connect leftTree connective rightTree) := by
  intro budget index rest enough closes
  rcases Connective.symbol_eq connective with ⟨symbol, symbolEq, notClosing, found⟩
  simp only [symbolEq, List.length_append, List.length_cons, List.length_nil] at enough
  rcases leftReads budget index ([symbol, symbol] ++ (right ++ rest)) (by omega)
    (by rw [← symbolEq]; exact separates_symbol connective _) with ⟨stop, read, skipped⟩
  let middle := index + left.length
  have atSymbol : Cursor.skip ⟨middle, [symbol, symbol] ++ (right ++ rest)⟩ =
      ⟨middle, [symbol, symbol] ++ (right ++ rest)⟩ := by
    apply Cursor.skip_of_settled
    rw [← symbolEq]
    exact (separates_symbol connective _).settled
  rw [atSymbol] at skipped
  rcases leftBegins with ⟨gap, core, rfl, white, solid⟩
  rcases rightBegins with ⟨rightGap, rightCore, rightEq, rightWhite, rightSolid⟩
  have atRight : Cursor.skip ⟨middle + 2, right ++ rest⟩ =
      ⟨middle + 2 + rightGap.length, rightCore ++ rest⟩ := by
    rw [rightEq, List.append_assoc, Cursor.skip_gap (all_isBlank_of_isWhite rightWhite)]
    exact Cursor.skip_of_settled (rightSolid.append rest).settled
  have rightRead := rightReads (budget - 1) (middle + 2) rest (by omega) closes
  rw [condition_eq, ← readCondition_skip, ← condition_eq, atRight] at rightRead
  have positive : 0 < budget := by omega
  have entered := enter_levels vocabulary positive ⟨middle + 2 + rightGap.length, rightCore ++ rest⟩
  rcases rightSolid with ⟨first, tail, rfl, begins⟩
  have notRightClosing : first ≠ ')' := begins.ne (by decide) (by decide) (by decide)
  have position : middle + 2 + right.length =
      index + (gap ++ core ++ (connective.symbol.toList ++ right)).length := by
    simp only [middle, symbolEq, List.length_append, List.length_cons, List.length_nil]
    omega
  have text : gap ++ core ++ (connective.symbol.toList ++ right) ++ rest =
      gap ++ (core ++ ([symbol, symbol] ++ (right ++ rest))) := by
    simp [symbolEq]
  rw [List.append_assoc] at read
  rw [position] at rightRead
  rw [text, condition_eq, readCondition_of_solid white solid, read]
  have next : Cursor.next? ⟨middle, [symbol, symbol] ++ (right ++ rest)⟩ = some symbol := rfl
  have second : Cursor.second? ⟨middle, [symbol, symbol] ++ (right ++ rest)⟩ = some symbol := rfl
  have advanced : Cursor.advance ⟨middle, [symbol, symbol] ++ (right ++ rest)⟩ 2 =
      ⟨middle + 2, right ++ rest⟩ := rfl
  have rightNext :
      Cursor.next? ⟨middle + 2 + rightGap.length, first :: tail ++ rest⟩ = some first := rfl
  simp only [bind, Except.bind, readConnective, skipped, next, second, found, advanced, atRight,
    rightNext, entered, rightRead, ne_eq, not_true_eq_false, Option.some.injEq, notRightClosing,
    reduceCtorEq, decide_false, Bool.or_self, Bool.false_eq_true, if_false]
  rfl

/-! ## All parts -/

/-- What it means that a part is read. -/
def Category.Read (vocabulary : Vocabulary ν) :
    (category : Category) → List Char → category.Tree ν → Prop
  | .sum => fun text tree =>
      ∃ firstText first items, IsChain vocabulary text tree firstText first items
  | .product => fun text tree =>
      ∃ firstText first factors, IsProduct vocabulary text tree firstText first factors
  | .term => IsOperand vocabulary
  | .atom negative => fun text tree => ReadsAtom vocabulary (signed negative text) tree
  | .arguments => AreArguments vocabulary
  | .condition => ReadsCondition vocabulary
  | .clause => ReadsClause vocabulary

section Parts

variable (comma : vocabulary.argumentSeparator = ',')

include comma

omit comma in
theorem readsSum_of_read {text : List Char} {tree : Formula ν}
    (derivation : Derives vocabulary .standard .sum text tree)
    (read : Category.Read vocabulary .sum text tree) : ReadsSum vocabulary text tree := by
  rcases read with ⟨_, _, _, chain⟩
  exact chain.reads derivation.height_le

theorem isArgument_of_read {text : List Char} {tree : Formula ν}
    (derivation : Derives vocabulary .standard .sum text tree)
    (read : Category.Read vocabulary .sum text tree) : IsArgument vocabulary text tree where
  reads := readsSum_of_read derivation read
  closed := (derivation.closed comma).weaken fun _ plain => plain.1
  notBlank := by
    rcases derivation.begins comma with ⟨_, _, rfl, _, begins⟩
    exact begins.solid.not_all_isBlank

theorem isComparand_of_read {text : List Char} {tree : Formula ν}
    (derivation : Derives vocabulary .standard .sum text tree)
    (read : Category.Read vocabulary .sum text tree) : IsComparand vocabulary text tree where
  reads := readsSum_of_read derivation read
  closed := derivation.closed comma
  begins := derivation.begins comma

omit comma in
theorem readOperand_of_signed {negative : Bool} {body : List Char} (nonempty : body ≠ [])
    (word : ∀ first, body.head? = some first → isWordCharacter first = true)
    (deeper : Option (Deeper ν)) (after : Option Operator) (index : Nat) (rest : List Char) :
    readOperand vocabulary deeper after ⟨index, signed negative body ++ rest⟩ =
      readAtom vocabulary deeper after ⟨index, signed negative body ++ rest⟩ := by
  cases negative with
  | true => exact readOperand_of_plain (.inl rfl) deeper after index
  | false =>
      cases body with
      | nil => exact absurd rfl nonempty
      | cons first body => exact readOperand_of_plain (.inr (word first rfl)) deeper after index

theorem readsAtom_number {text : List Char} {negative : Bool} {value : Binary64}
    (numeral : IsNumeral text) (read : Binary64.readUnsigned? negative text = some value) :
    ReadsAtom vocabulary (signed negative text) (.constant value) := by
  intro budget after index rest _ follows
  have digits {digits : List Char} (areDigits : digits.all Char.isDigit = true) :
      ∀ character ∈ digits, isWordCharacter character = true :=
    fun character inside =>
      isWordCharacter_of_isDigit (List.all_eq_true.mp areDigits character inside)
  have numeric := (isNumeric_iff text).mp numeral.isNumeric
  have areBody : text.all (isTokenCharacter ',') = true := by
    apply List.all_eq_true.mpr
    intro character inside
    rcases numeric.2 character inside with digit | rfl
    · exact isTokenCharacter_of_isWordCharacter (isWordCharacter_of_isDigit digit)
    · decide
  have begins : ∀ first, text.head? = some first → isWordCharacter first = true := by
    intro first isFirst
    cases numeral with
    | integer _ areDigits => exact digits areDigits first (List.mem_of_head? isFirst)
    | @decimal whole _ nonempty areDigits _ _ =>
        rw [List.head?_append_of_ne_nil _ nonempty] at isFirst
        exact digits areDigits first (List.mem_of_head? isFirst)
  rw [readOperand_of_signed numeric.1 begins]
  exact readAtom_number comma numeral read areBody follows.endsToken

omit comma in
theorem IsWord.head {body : List Char} (word : IsWord body) :
    ∀ first, body.head? = some first → isWordCharacter first = true :=
  fun first isFirst => List.all_eq_true.mp word.1 first (List.mem_of_head? isFirst)

theorem readsAtom_group {inner : List Char} {negative : Bool} {tree : Formula ν}
    (reads : ReadsSum vocabulary inner tree) :
    ReadsAtom vocabulary (signed negative (bracketed inner)) (negateIf negative tree) := by
  intro budget after index rest enough _
  cases negative with
  | true =>
      have inside : (bracketed inner).length ≤ budget := Nat.le_of_succ_le enough
      have atom : readAtom vocabulary (levels vocabulary budget) after
          ⟨index, '-' :: (bracketed inner ++ rest)⟩ =
            .ok (.negate tree, ⟨index + 1 + (bracketed inner).length, rest⟩) :=
        readAtom_minus comma (readGroup_of_reads reads inside)
      have width :
          index + 1 + (bracketed inner).length = index + ('-' :: bracketed inner).length := by
        rw [List.length_cons]
        omega
      rw [width] at atom
      exact (readOperand_of_plain (.inl rfl) _ after index).trans atom
  | false =>
      have solid : Solid (bracketed inner) := ⟨'(', _, rfl, .inr (.inl rfl)⟩
      have settled :
          Cursor.skip ⟨index, bracketed inner ++ rest⟩ = ⟨index, bracketed inner ++ rest⟩ :=
        Cursor.skip_of_settled (solid.append rest).settled
      have opens : Cursor.next? ⟨index, bracketed inner ++ rest⟩ = some '(' := rfl
      simp only [signed, Bool.false_eq_true, if_false, readOperand, settled, opens]
      exact readGroup_of_reads reads enough

theorem readsAtom_call {name inner : List Char} {negative : Bool} {tree : Formula ν}
    (word : IsWord name)
    (called : ∀ budget start index rest, (bracketed inner).length ≤ budget →
      readCall vocabulary (levels vocabulary budget) start name ⟨index, bracketed inner ++ rest⟩ =
        .ok (tree, ⟨index + (bracketed inner).length, rest⟩)) :
    ReadsAtom vocabulary (signed negative (name ++ bracketed inner)) (negateIf negative tree) := by
  intro budget after index rest enough _
  have parts : signed negative (name ++ bracketed inner) ++ rest =
      signed negative name ++ (bracketed inner ++ rest) := by
    cases negative <;> simp [signed]
  have width : (signed negative (name ++ bracketed inner)).length =
      (signed negative name).length + (bracketed inner).length := by
    cases negative <;> simp [signed, Nat.add_right_comm]
  rw [parts, readOperand_of_signed word.ne_nil word.head, width, ← Nat.add_assoc]
  apply readAtom_call comma word
  intro start
  exact called budget start _ rest (by omega)

/-- An atom between gaps is an operand. -/
theorem isOperand_of_atom {before text after : List Char} {negative : Bool} {tree : Formula ν}
    (whiteBefore : before.all isWhite = true)
    (derivation : Derives vocabulary .standard (.atom negative) text tree)
    (whiteAfter : after.all isWhite = true)
    (reads : ReadsAtom vocabulary (signed negative text) tree) :
    IsOperand vocabulary (before ++ (signed negative text ++ after)) tree where
  begins := (Derives.atom whiteBefore derivation whiteAfter).begins comma
  reads := by
    intro budget operator index rest enough follows
    simp only [List.length_append] at enough
    refine ⟨⟨index + before.length + (signed negative text).length, after ++ rest⟩, ?_, ?_⟩
    · have skipped : readOperand vocabulary (levels vocabulary budget) operator
            ⟨index, before ++ (signed negative text ++ (after ++ rest))⟩ =
          readOperand vocabulary (levels vocabulary budget) operator
            ⟨index + before.length, signed negative text ++ (after ++ rest)⟩ := by
        simp only [readOperand, Cursor.skip_gap (all_isBlank_of_isWhite whiteBefore)]
      rw [List.append_assoc, List.append_assoc, skipped]
      exact reads budget operator _ _ (by omega) (follows.gap whiteAfter)
    · rw [Cursor.skip_gap (all_isBlank_of_isWhite whiteAfter)]
      simp only [List.length_append, Nat.add_assoc]

/-- Every part of the grammar is read. -/
theorem Derives.read {category : Category} {text : List Char} {tree : category.Tree ν}
    (derivation : Derives vocabulary .standard category text tree) :
    category.Read vocabulary text tree := by
  induction derivation with
  | product _ induction =>
      rcases induction with ⟨firstText, first, factors, product⟩
      exact ⟨firstText, first, factors, product.chain⟩
  | sum _ precedence _ leftInduction rightInduction =>
      rcases leftInduction with ⟨firstText, first, items, chain⟩
      rcases rightInduction with ⟨_, _, _, product⟩
      exact ⟨firstText, first, _, chain.sum precedence product⟩
  | @term text tree _ induction =>
      refine ⟨text, tree, [], ?_, induction, ?_, ?_, rfl⟩
      · simp [itemsText]
      · intro item inside
        cases inside
      · intro item inside
        cases inside
  | factor _ precedence _ leftInduction rightInduction =>
      rcases leftInduction with ⟨firstText, first, factors, product⟩
      exact ⟨firstText, first, _, product.factor precedence rightInduction⟩
  | atom whiteBefore derivation whiteAfter induction =>
      exact isOperand_of_atom comma whiteBefore derivation whiteAfter induction
  | number numeral read => exact readsAtom_number comma numeral read
  | name word known =>
      intro budget after index rest _ follows
      rw [readOperand_of_signed word.ne_nil word.head]
      exact readAtom_name comma word known follows
  | group derivation induction =>
      exact readsAtom_group comma (readsSum_of_read derivation induction)
  | call word known _ count induction =>
      apply readsAtom_call comma word
      intro budget start index rest enough
      exact readCall_native comma known induction count enough
  | choose word known testDerivation firstDerivation secondDerivation testInduction firstInduction
      secondInduction =>
      apply readsAtom_call comma word
      intro budget start index rest enough
      rw [comma] at enough ⊢
      rcases testDerivation.begins comma with ⟨_, _, rfl, _, solid⟩
      exact readCall_choose comma known testInduction (testDerivation.closed comma)
        solid.not_all_isBlank (isArgument_of_read comma firstDerivation firstInduction)
        (isArgument_of_read comma secondDerivation secondInduction) enough
  | noArgument gap => exact .none gap
  | @argument text tree derivation induction =>
      have argument := isArgument_of_read comma derivation induction
      exact .some (List.cons_ne_nil text []) (.cons argument .nil)
  | @arguments text rest tree next trees derivation _ firstInduction restInduction =>
      have argument := isArgument_of_read comma derivation firstInduction
      generalize equal : next :: trees = others at restInduction
      cases restInduction with
      | none _ => cases equal
      | @some texts _ nonempty arguments =>
          subst equal
          have joined : text ++ vocabulary.argumentSeparator :: joinWith ',' texts =
              joinWith ',' (text :: texts) := by
            cases texts with
            | nil => exact absurd rfl nonempty
            | cons second texts => rw [comma, joinWith]
          rw [joined]
          exact .some (List.cons_ne_nil text texts) (.cons argument arguments)
  | clause derivation induction => exact ReadsClause.condition induction (derivation.begins comma)
  | @connect _ _ _ _ connective leftDerivation rightDerivation leftInduction rightInduction =>
      exact ReadsClause.connect connective leftInduction
        (leftDerivation.begins comma) rightInduction
        (rightDerivation.begins comma)
  | conditionGroup whiteBefore derivation whiteAfter induction =>
      exact readsClause_group whiteBefore whiteAfter (derivation.closed comma) induction
  | @compare _ _ _ _ comparison leftDerivation rightDerivation leftInduction rightInduction =>
      exact readsClause_compare comparison (isComparand_of_read comma leftDerivation leftInduction)
        (isComparand_of_read comma rightDerivation rightInduction)
  | literal whiteBefore named whiteAfter => exact readsClause_literal whiteBefore named whiteAfter

/-- A sum is read as a formula when as many levels are left as it has characters. -/
theorem Derives.formula_eq_ok {text : List Char} {tree : Formula ν}
    (derivation : Derives vocabulary .standard .sum text tree) {budget : Nat}
    (enough : text.length ≤ budget) (index : Nat) :
    whole (formula vocabulary budget) ⟨index, text⟩ = .ok tree :=
  (readsSum_of_read derivation (derivation.read comma)).throughout enough index

theorem Derives.condition_eq_ok {text : List Char} {tree : Condition ν}
    (derivation : Derives vocabulary .standard .condition text tree) {budget : Nat}
    (enough : text.length ≤ budget) (index : Nat) :
    whole (condition vocabulary budget) ⟨index, text⟩ = .ok tree :=
  ReadsCondition.throughout (derivation.read comma) enough index

end Parts

end Completeness

end NumericRules.Grammar
