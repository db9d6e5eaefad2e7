import NumericRules.Proofs.Grammar.Token
import NumericRules.Proofs.Grammar.Brackets
import NumericRules.Proofs.Grammar.Chain
import NumericRules.Proofs.Grammar.ConditionGrammar

/-! # What is read is derived

Whatever a parser accepts is a part of the grammar, and the tree is the one of
its derivation. The gaps are what is skipped, and the words are the known tokens.
-/

namespace NumericRules.Grammar

open Text

/-- The gaps and words of the parsers. -/
def Lexis.read (vocabulary : Vocabulary ν) : Lexis where
  Gap := Skippable
  Word text :=
    (text.all (isTokenCharacter vocabulary.argumentSeparator) = true ∧ text ≠ [] ∧
      isNumeric text = false) ∧
    ((vocabulary.resolve? (String.ofList text)).isSome = true ∨
      (vocabulary.signature? (String.ofList text)).isSome = true)

/-- Blanks between tokens, which have no separator in them. -/
def Lexis.spaced (separator : Char) : Lexis where
  Gap text := text.all isBlank = true
  Word text := text.all (isTokenCharacter separator) = true

/-- What is read without comments has blanks between tokens. -/
theorem Lexis.spaced_covers {vocabulary : Vocabulary ν} {text : List Char}
    (commentless : ¬ ['/', '/'] <:+: text) :
    (Lexis.spaced vocabulary.argumentSeparator).Covers (.read vocabulary) text := by
  intro piece inside
  constructor
  · rintro (comment | blank)
    · exact absurd (comment.trans inside) commentless
    · exact blank
  · exact fun word => word.1.1

/-! ## Gaps around parts -/

/-- The parts that gaps may stand around. -/
def Category.HasGaps : Category → Prop
  | .atom _ | .arguments => False
  | _ => True

/-- Gaps around a part belong to the part. -/
theorem Derives.padded {vocabulary : Vocabulary ν} {lexis : Lexis} {category : Category}
    {text : List Char} {tree : category.Tree ν}
    (derivation : Derives vocabulary lexis category text tree) (hasGaps : category.HasGaps)
    (empty : lexis.Gap [])
    (joined : ∀ {left right : List Char}, lexis.Gap left → lexis.Gap right →
      lexis.Gap (left ++ right))
    {before after : List Char} (gapBefore : lexis.Gap before) (gapAfter : lexis.Gap after) :
    Derives vocabulary lexis category (before ++ (text ++ after)) tree := by
  induction derivation generalizing before after with
  | product _ induction => exact .product (induction trivial gapBefore gapAfter)
  | sum _ precedence _ leftInduction rightInduction =>
      have derivation := Derives.sum (leftInduction trivial gapBefore empty) precedence
        (rightInduction trivial empty gapAfter)
      simpa using derivation
  | term _ induction => exact .term (induction trivial gapBefore gapAfter)
  | factor _ precedence _ leftInduction rightInduction =>
      have derivation := Derives.factor (leftInduction trivial gapBefore empty) precedence
        (rightInduction trivial empty gapAfter)
      simpa using derivation
  | atom innerBefore derivation innerAfter _ =>
      have derivation := Derives.atom (joined gapBefore innerBefore) derivation
        (joined innerAfter gapAfter)
      simpa using derivation
  | number _ _ | name _ _ | group _ _ | call _ _ _ _ _ | choose _ _ _ _ _ _ _ _
  | noArgument _ | argument _ _ | arguments _ _ _ _ => exact hasGaps.elim
  | clause _ induction => exact .clause (induction trivial gapBefore gapAfter)
  | @connect left right leftTree rightTree connective _ _ leftInduction rightInduction =>
      have derivation : Derives vocabulary lexis .condition _
          (.connect leftTree connective rightTree) :=
        .connect (leftInduction trivial gapBefore empty) (rightInduction trivial empty gapAfter)
      simpa using derivation
  | conditionGroup innerBefore derivation innerAfter _ =>
      have derivation := Derives.conditionGroup (joined gapBefore innerBefore) derivation
        (joined innerAfter gapAfter)
      simpa using derivation
  | @compare left right leftTree rightTree comparison _ _ leftInduction rightInduction =>
      have derivation : Derives vocabulary lexis .clause _
          (.compare leftTree comparison rightTree) :=
        .compare (leftInduction trivial gapBefore empty) (rightInduction trivial empty gapAfter)
      simpa using derivation
  | @literal _ word _ value innerBefore named innerAfter =>
      have derivation : Derives vocabulary lexis .clause _ (.literal value) :=
        .literal (joined gapBefore innerBefore) named (joined innerAfter gapAfter)
      simpa using derivation

mutual
theorem IsClause.derives {vocabulary : Vocabulary ν} {lexis : Lexis} (empty : lexis.Gap [])
    (joined : ∀ {left right : List Char}, lexis.Gap left → lexis.Gap right →
      lexis.Gap (left ++ right)) {text : List Char} {tree : Condition ν} :
    IsClause lexis.Gap (Derives vocabulary lexis .sum) text tree →
      Derives vocabulary lexis .clause text tree
  | @IsClause.group _ _ _ inner _ condition => by
      have derivation : Derives vocabulary lexis .clause ([] ++ (bracketed inner ++ [])) tree :=
        .conditionGroup empty (condition.derives empty joined) empty
      rwa [List.nil_append, List.append_nil] at derivation
  | .compare left right => .compare left right
  | @IsClause.literal _ _ _ _ value named => by
      have derivation : Derives vocabulary lexis .clause ([] ++ (text ++ [])) (.literal value) :=
        .literal empty named empty
      rwa [List.nil_append, List.append_nil] at derivation

/-- A condition over the sums of the grammar is one of the grammar. -/
theorem IsCondition.derives {vocabulary : Vocabulary ν} {lexis : Lexis} (empty : lexis.Gap [])
    (joined : ∀ {left right : List Char}, lexis.Gap left → lexis.Gap right →
      lexis.Gap (left ++ right)) {text : List Char} {tree : Condition ν} :
    IsCondition lexis.Gap (Derives vocabulary lexis .sum) text tree →
      Derives vocabulary lexis .condition text tree
  | .clause before clause after =>
      .clause ((clause.derives empty joined).padded trivial empty joined before after)
  | .connect before clause after condition =>
      .connect ((clause.derives empty joined).padded trivial empty joined before after)
        (condition.derives empty joined)
end

/-- What a condition or a clause of the grammar is over its sums. -/
def Category.OverSums (vocabulary : Vocabulary ν) (lexis : Lexis) :
    (category : Category) → List Char → category.Tree ν → Prop
  | .condition, text, tree => IsCondition lexis.Gap (Derives vocabulary lexis .sum) text tree
  | .clause, text, tree => IsPaddedClause lexis.Gap (Derives vocabulary lexis .sum) text tree
  | _, _, _ => True

theorem Derives.overSums {vocabulary : Vocabulary ν} {lexis : Lexis} (empty : lexis.Gap [])
    {category : Category} {text : List Char} {tree : category.Tree ν}
    (derivation : Derives vocabulary lexis category text tree) :
    category.OverSums vocabulary lexis text tree := by
  induction derivation with
  | product _ _ | sum _ _ _ _ _ | term _ _ | factor _ _ _ _ _ | atom _ _ _ _ | number _ _
  | name _ _ | group _ _ | call _ _ _ _ _ | choose _ _ _ _ _ _ _ _ | noArgument _
  | argument _ _ | arguments _ _ _ _ => exact trivial
  | clause _ induction => exact induction.alone
  | connect _ _ leftInduction rightInduction => exact leftInduction.connect rightInduction
  | conditionGroup gapBefore _ gapAfter induction =>
      exact ⟨_, _, _, rfl, gapBefore, .group induction, gapAfter⟩
  | compare left right _ _ => exact ⟨[], _, [], by simp, empty, .compare left right, empty⟩
  | literal gapBefore named gapAfter => exact ⟨_, _, _, rfl, gapBefore, .literal named, gapAfter⟩

/-- A condition of the grammar is one over its sums. -/
theorem Derives.isCondition {vocabulary : Vocabulary ν} {lexis : Lexis} (empty : lexis.Gap [])
    {text : List Char} {tree : Condition ν}
    (derivation : Derives vocabulary lexis .condition text tree) :
    IsCondition lexis.Gap (Derives vocabulary lexis .sum) text tree :=
  derivation.overSums empty

section Soundness

variable {vocabulary : Vocabulary ν}

theorem Derives.skipped {category : Category} {text : List Char} {tree : category.Tree ν}
    (derivation : Derives vocabulary (.read vocabulary) category text tree)
    (hasGaps : category.HasGaps) {before after : List Char} (gapBefore : Skippable before)
    (gapAfter : Skippable after) :
    Derives vocabulary (.read vocabulary) category (before ++ (text ++ after)) tree :=
  derivation.padded hasGaps Skippable.nil Skippable.append gapBefore gapAfter

/-! ## Chains of operands -/

/-- The chain stands for the text: its operands are sums and products according to
the operators between them. -/
inductive Chain.Reads (vocabulary : Vocabulary ν) : List Char → Chain ν → Prop
  | start {text : List Char} {tree : Formula ν} {leftDepth rightDepth : Nat} :
      Derives vocabulary (.read vocabulary) .term text tree →
      Reads vocabulary text ⟨tree, none, leftDepth, rightDepth⟩
  | additive {left right : List Char} {leftTree rightTree : Formula ν} {operator : Operator}
      {leftDepth rightDepth : Nat} :
      Derives vocabulary (.read vocabulary) .sum left leftTree → operator.precedence = 1 →
      Derives vocabulary (.read vocabulary) .product right rightTree →
      Reads vocabulary (left ++ operator.symbol :: right)
        ⟨leftTree, some (operator, rightTree), leftDepth, rightDepth⟩
  | multiplicative {left right : List Char} {leftTree rightTree : Formula ν}
      {operator : Operator} {leftDepth rightDepth : Nat} :
      Derives vocabulary (.read vocabulary) .product left leftTree → operator.precedence = 2 →
      Derives vocabulary (.read vocabulary) .term right rightTree →
      Reads vocabulary (left ++ operator.symbol :: right)
        ⟨leftTree, some (operator, rightTree), leftDepth, rightDepth⟩

namespace Chain.Reads

theorem finish {text : List Char} {chain : Chain ν} (reads : chain.Reads vocabulary text) :
    Derives vocabulary (.read vocabulary) .sum text chain.finish := by
  cases reads with
  | start term => exact .product (.term term)
  | additive left precedence right => exact .sum left precedence right
  | multiplicative left precedence right => exact .product (.factor left precedence right)

theorem skipped {text gap : List Char} {chain : Chain ν} (reads : chain.Reads vocabulary text)
    (skippable : Skippable gap) : chain.Reads vocabulary (text ++ gap) := by
  cases reads with
  | start term => exact .start (term.skipped trivial .nil skippable)
  | additive left precedence right =>
      rw [List.append_assoc, List.cons_append]
      exact .additive left precedence (right.skipped trivial .nil skippable)
  | multiplicative left precedence right =>
      rw [List.append_assoc, List.cons_append]
      exact .multiplicative left precedence (right.skipped trivial .nil skippable)

/-- A new operand takes the pending one with it if its operator binds tighter. -/
theorem push {text next : List Char} {chain : Chain ν} {operator : Operator}
    {term : Formula ν} (reads : chain.Reads vocabulary text)
    (derivation : Derives vocabulary (.read vocabulary) .term next term) :
    (chain.push operator term).Reads vocabulary (text ++ operator.symbol :: next) := by
  cases reads with
  | start first =>
      rcases Operator.precedence_cases operator with precedence | precedence
      · exact .additive (.product (.term first)) precedence (.term derivation)
      · exact .multiplicative (.term first) precedence derivation
  | @additive left right leftTree rightTree pending _ _ leftDerivation pendingPrecedence
      rightDerivation =>
      rcases Operator.precedence_cases operator with precedence | precedence
      · have sum := Derives.sum leftDerivation pendingPrecedence rightDerivation
        simpa [Chain.push, precedence, pendingPrecedence] using
          Chain.Reads.additive sum precedence (.term derivation)
      · have product := Derives.factor rightDerivation precedence derivation
        simpa [Chain.push, precedence, pendingPrecedence] using
          Chain.Reads.additive leftDerivation pendingPrecedence product
  | @multiplicative left right leftTree rightTree pending _ _ leftDerivation pendingPrecedence
      rightDerivation =>
      have product := Derives.factor leftDerivation pendingPrecedence rightDerivation
      rcases Operator.precedence_cases operator with precedence | precedence
      · simpa [Chain.push, precedence, pendingPrecedence] using
          Chain.Reads.additive (.product product) precedence (.term derivation)
      · simpa [Chain.push, precedence, pendingPrecedence] using
          Chain.Reads.multiplicative product precedence derivation

end Chain.Reads

/-! ## Operands -/

/-- Whatever the parser accepts is of the given kind and ends at an unmatched closing
bracket or with the text. -/
def ReadsAs (kind : List Char → α → Prop) (parse : Cursor → Except Fault (α × Cursor)) : Prop :=
  ∀ (cursor : Cursor) (result : α) (stop : Cursor), parse cursor = .ok (result, stop) →
    ∃ text, cursor.Spans text stop ∧ kind text result ∧ Closes stop.rest

/-- Whatever the parser accepts is a part of the grammar. -/
def Reads (vocabulary : Vocabulary ν) (category : Category)
    (parse : Cursor → Except Fault (category.Tree ν × Cursor)) : Prop :=
  ReadsAs (Derives vocabulary (.read vocabulary) category) parse

/-- The parsers for what stands deeper are sound. -/
def DeeperReads (vocabulary : Vocabulary ν) (deeper : Option (Deeper ν)) : Prop :=
  ∀ inner, deeper = some inner →
    Reads vocabulary .sum inner.formula ∧ Reads vocabulary .condition inner.condition

theorem enter_eq_ok {deeper : Option (Deeper ν)} {cursor : Cursor} {inner : Deeper ν}
    (outcome : vocabulary.enter deeper cursor = .ok inner) : deeper = some inner := by
  cases deeper with
  | none => cases outcome
  | some _ =>
      cases outcome
      rfl

/-- What is read as a whole is all of its text. -/
theorem ReadsAs.whole {kind : List Char → α → Prop}
    {parse : Cursor → Except Fault (α × Cursor)} (reads : ReadsAs kind parse) {cursor : Cursor}
    {result : α} (outcome : whole parse cursor = .ok result) : kind cursor.rest result := by
  rcases whole_eq_ok outcome with ⟨stop, parsed, atEnd⟩
  rcases reads _ _ _ parsed with ⟨text, spans, isKind, closes⟩
  rw [Cursor.skip_of_settled closes.settled] at atEnd
  rw [spans.rest, atEnd, List.append_nil]
  exact isKind

theorem Reads.whole {category : Category}
    {parse : Cursor → Except Fault (category.Tree ν × Cursor)}
    (reads : Reads vocabulary category parse) {cursor : Cursor} {tree : category.Tree ν}
    (outcome : whole parse cursor = .ok tree) :
    Derives vocabulary (.read vocabulary) category cursor.rest tree :=
  ReadsAs.whole reads outcome

theorem readGroup_eq_ok {deeper : Option (Deeper ν)} {kind : List Char → α → Prop}
    {parse : Deeper ν → Cursor → Except Fault (α × Cursor)}
    (reads : ∀ inner, deeper = some inner → ReadsAs kind (parse inner))
    {cursor : Cursor} {tree : α} {stop : Cursor} (next : cursor.next? = some '(')
    (outcome : readGroup vocabulary deeper parse cursor = .ok (tree, stop)) :
    ∃ inner, cursor.Spans (bracketed inner) stop ∧ kind inner tree := by
  rcases ok_of_bind outcome with ⟨inner, entered, outcome⟩
  rcases ok_of_bind outcome with ⟨⟨result, inside⟩, parsed, outcome⟩
  rcases reads inner (enter_eq_ok entered) _ _ _ parsed with ⟨text, spans, derivation, closes⟩
  simp only [Cursor.skip_of_settled closes.settled] at outcome
  split at outcome
  · rename_i closing
    cases outcome
    have all := ((Cursor.spans_next next).trans spans).trans (Cursor.spans_next closing)
    exact ⟨text, by simpa [bracketed] using all, derivation⟩
  · cases outcome

theorem length_readAll {parse : Cursor → Except Fault α} {cursors : List Cursor} {values : List α}
    (outcome : readAll parse cursors = .ok values) : values.length = cursors.length := by
  induction cursors generalizing values with
  | nil =>
      cases outcome
      rfl
  | cons cursor cursors induction =>
      rcases ok_of_bind outcome with ⟨value, _, outcome⟩
      rcases ok_of_bind outcome with ⟨others, further, outcome⟩
      cases outcome
      rw [List.length_cons, List.length_cons, induction further]

theorem readAll_eq_ok {parse : Cursor → Except Fault (Formula ν × Cursor)}
    (reads : Reads vocabulary .sum parse) {cursors : List Cursor} {trees : List (Formula ν)}
    (nonempty : cursors ≠ []) (outcome : readAll (whole parse) cursors = .ok trees) :
    Derives vocabulary (.read vocabulary) .arguments
      (joinWith vocabulary.argumentSeparator (cursors.map Cursor.rest)) trees := by
  induction cursors generalizing trees with
  | nil => exact absurd rfl nonempty
  | cons cursor cursors induction =>
      rcases ok_of_bind outcome with ⟨tree, parsed, outcome⟩
      rcases ok_of_bind outcome with ⟨others, further, outcome⟩
      cases outcome
      have first := Reads.whole reads parsed
      cases cursors with
      | nil =>
          cases further
          exact .argument first
      | cons next cursors =>
          have rest := induction (List.cons_ne_nil next cursors) further
          cases others with
          | nil => cases length_readAll further
          | cons second others => exact .arguments first rest

/-- A call is read up to its closing bracket. -/
theorem readCall_eq_ok {deeper : Option (Deeper ν)} (reads : DeeperReads vocabulary deeper)
    {start : Nat} {name : List Char} {cursor : Cursor} {tree : Formula ν} {stop : Cursor}
    (isToken : name.all (isTokenCharacter vocabulary.argumentSeparator) = true ∧ name ≠ [] ∧
      isNumeric name = false)
    (next : cursor.next? = some '(')
    (outcome : readCall vocabulary deeper start name cursor = .ok (tree, stop)) :
    ∃ inner, cursor.Spans (bracketed inner) stop ∧ ∀ negative,
      Derives vocabulary (.read vocabulary) (.atom negative) (name ++ bracketed inner)
        (negateIf negative tree) := by
  unfold readCall at outcome
  split at outcome
  · cases outcome
  · rename_i signature known
    have word : (Lexis.read vocabulary).Word name := ⟨isToken, .inr (by rw [known]; rfl)⟩
    rcases ok_of_bind outcome with ⟨inner, entered, outcome⟩
    rcases ok_of_bind outcome with ⟨⟨arguments, after⟩, split, outcome⟩
    rcases reads inner (enter_eq_ok entered) with ⟨formulaReads, conditionReads⟩
    rcases readArguments_eq_ok next split with ⟨text, spans, content⟩
    cases signature with
    | choose =>
        simp only at outcome
        split at outcome
        · rcases ok_of_bind outcome with ⟨test, testParsed, outcome⟩
          rcases ok_of_bind outcome with ⟨first, firstParsed, outcome⟩
          rcases ok_of_bind outcome with ⟨second, secondParsed, outcome⟩
          cases outcome
          rcases content with ⟨empty, _⟩ | ⟨_, rfl⟩
          · cases empty
          · exact ⟨_, spans, fun negative => .choose word known (conditionReads.whole testParsed)
              (formulaReads.whole firstParsed) (formulaReads.whole secondParsed)⟩
        · cases outcome
    | native accepted =>
        simp only at outcome
        split at outcome
        · rename_i count
          rcases ok_of_bind outcome with ⟨trees, parsed, outcome⟩
          cases outcome
          rw [← length_readAll parsed] at count
          refine ⟨text, spans, fun negative => .call word known ?_ count⟩
          rcases content with ⟨rfl, blank⟩ | ⟨nonempty, rfl⟩
          · cases parsed
            exact .noArgument (.inr blank)
          · exact readAll_eq_ok formulaReads nonempty parsed
        · cases outcome

theorem readAtom_eq_ok {deeper : Option (Deeper ν)} (reads : DeeperReads vocabulary deeper)
    {after : Option Operator} {cursor : Cursor} {tree : Formula ν} {stop : Cursor}
    (outcome : readAtom vocabulary deeper after cursor = .ok (tree, stop)) :
    ∃ negative text, cursor.Spans (signed negative text) stop ∧
      Derives vocabulary (.read vocabulary) (.atom negative) text tree := by
  rcases ok_of_bind outcome with ⟨⟨token, middle⟩, tokenRead, outcome⟩
  rcases readToken_eq_ok tokenRead with ⟨negative, body, rfl, areBody, spans, _⟩
  simp only [head?_signed areBody, Bool.decide_eq_true, tail_signed] at outcome
  have further {inner : List Char} (innerSpans : middle.Spans inner stop) :
      cursor.Spans (signed negative (body ++ inner)) stop := by
    have all := spans.trans innerSpans
    cases negative <;> simpa [signed] using all
  split at outcome
  · rename_i numeric
    split at outcome
    · rename_i value number
      cases outcome
      rcases (number?_eq_some numeric value).mp number with ⟨numeral, read⟩
      exact ⟨negative, body, spans, .number numeral read⟩
    · cases outcome
  · rename_i notNumeric
    split at outcome
    · rename_i empty
      split at outcome
      · rename_i opens
        simp only [Bool.and_eq_true, decide_eq_true_eq] at opens
        rcases ok_of_bind outcome with ⟨⟨inner, after⟩, group, outcome⟩
        cases outcome
        have innerReads : ∀ inner, deeper = some inner → Reads vocabulary .sum inner.formula :=
          fun inner present => (reads inner present).1
        rcases readGroup_eq_ok innerReads opens.2 group with ⟨text, groupSpans, derivation⟩
        have whole := further groupSpans
        rw [List.isEmpty_iff.mp empty, List.nil_append, opens.1] at whole
        exact ⟨true, bracketed text, whole, .group derivation⟩
      · cases outcome
    · rename_i nonempty
      have isToken : body.all (isTokenCharacter vocabulary.argumentSeparator) = true ∧ body ≠ [] ∧
          isNumeric body = false := by
        refine ⟨areBody, ?_, by simpa using notNumeric⟩
        simpa using nonempty
      split at outcome
      · rename_i opens
        rcases ok_of_bind outcome with ⟨⟨call, after⟩, called, outcome⟩
        cases outcome
        rcases readCall_eq_ok reads isToken opens called with ⟨inner, callSpans, derivation⟩
        exact ⟨negative, body ++ bracketed inner, further callSpans, derivation negative⟩
      · rcases ok_of_bind outcome with ⟨reference, resolved, outcome⟩
        cases outcome
        unfold Vocabulary.resolve at resolved
        split at resolved
        · rename_i known
          cases resolved
          have word : (Lexis.read vocabulary).Word body := ⟨isToken, .inl (by rw [known]; rfl)⟩
          exact ⟨negative, body, spans, .name word known⟩
        · cases resolved

/-- An operand is read with the gap before it. -/
theorem readOperand_eq_ok {deeper : Option (Deeper ν)} (reads : DeeperReads vocabulary deeper)
    {after : Option Operator} {cursor : Cursor} {tree : Formula ν} {stop : Cursor}
    (outcome : readOperand vocabulary deeper after cursor = .ok (tree, stop)) :
    ∃ text, cursor.Spans text stop ∧
      Derives vocabulary (.read vocabulary) .term text tree := by
  rcases Cursor.skip_spans cursor with ⟨gap, gapSpans, skippable⟩
  have behind (negative : Bool) {text : List Char}
      (spans : cursor.skip.Spans (signed negative text) stop)
      (derivation : Derives vocabulary (.read vocabulary) (.atom negative) text tree) :
      ∃ text, cursor.Spans text stop ∧ Derives vocabulary (.read vocabulary) .term text tree := by
    refine ⟨gap ++ (signed negative text ++ []), ?_, .atom skippable derivation Skippable.nil⟩
    rw [List.append_nil]
    exact gapSpans.trans spans
  unfold readOperand at outcome
  simp only at outcome
  split at outcome
  · cases outcome
  · cases outcome
  · rename_i opens
    have innerReads : ∀ inner, deeper = some inner → Reads vocabulary .sum inner.formula :=
      fun inner present => (reads inner present).1
    rcases readGroup_eq_ok innerReads opens outcome with ⟨text, spans, derivation⟩
    exact behind false spans (.group derivation)
  · rcases readAtom_eq_ok reads outcome with ⟨negative, text, spans, derivation⟩
    exact behind negative spans derivation

/-! ## Formulas -/

theorem Operator.symbol_of_ofSymbol? {symbol : Char} {operator : Operator}
    (found : Operator.ofSymbol? symbol = some operator) : symbol = operator.symbol := by
  unfold Operator.ofSymbol? at found
  split at found <;> cases found <;> rfl

/-- With a turn for every unread character, a chain is read to the end of its part. -/
theorem readChain_eq_ok {deeper : Option (Deeper ν)} (reads : DeeperReads vocabulary deeper)
    {budget fuel : Nat} {chain : Chain ν} {start cursor : Cursor} {text : List Char}
    (spans : start.Spans text cursor) (chainReads : chain.Reads vocabulary text)
    (enough : cursor.rest.length < fuel) {tree : Formula ν} {stop : Cursor}
    (outcome : readChain vocabulary deeper budget fuel chain cursor = .ok (tree, stop)) :
    ∃ text, start.Spans text stop ∧ Derives vocabulary (.read vocabulary) .sum text tree ∧
      Closes stop.rest := by
  induction fuel generalizing chain cursor text with
  | zero => exact absurd enough (Nat.not_lt_zero _)
  | succ fuel induction =>
      rcases Cursor.skip_spans cursor with ⟨gap, gapSpans, skippable⟩
      have chainSkipped := chainReads.skipped skippable
      have spansSkipped := spans.trans gapSpans
      unfold readChain at outcome
      simp only at outcome
      split at outcome
      · rename_i atEnd
        cases outcome
        exact ⟨text ++ gap, spansSkipped, chainSkipped.finish,
          .inl (List.head?_eq_none_iff.mp atEnd)⟩
      · rename_i closing
        cases outcome
        exact ⟨text ++ gap, spansSkipped, chainSkipped.finish, .inr closing⟩
      · rename_i symbol _ next
        split at outcome
        · cases outcome
        · rename_i operator found
          rcases ok_of_bind outcome with ⟨⟨term, after⟩, operand, outcome⟩
          simp only at outcome
          split at outcome
          · cases outcome
          · rcases readOperand_eq_ok reads operand with ⟨operandText, operandSpans, derivation⟩
            have symbolSpans := Cursor.spans_next next
            have allSpans := spansSkipped.trans (symbolSpans.trans operandSpans)
            rw [Operator.symbol_of_ofSymbol? found, List.singleton_append] at allSpans
            apply induction allSpans (chainSkipped.push derivation) _ outcome
            have skippedWidth := congrArg List.length gapSpans.rest
            have symbolWidth := congrArg List.length symbolSpans.rest
            have operandWidth := congrArg List.length operandSpans.rest
            simp only [List.length_append, List.length_singleton] at *
            omega

theorem readFormula_reads {deeper : Option (Deeper ν)} (reads : DeeperReads vocabulary deeper)
    (budget : Nat) : Reads vocabulary .sum (readFormula vocabulary deeper budget) := by
  intro cursor tree stop outcome
  rcases Cursor.skip_spans cursor with ⟨gap, gapSpans, skippable⟩
  have chain {term : Formula ν} {after : Cursor}
      (operand : readOperand vocabulary deeper none cursor.skip = .ok (term, after))
      (outcome : readChain vocabulary deeper budget (after.rest.length + 1) (.start term) after =
        .ok (tree, stop)) :
      ∃ text, cursor.Spans text stop ∧ Derives vocabulary (.read vocabulary) .sum text tree ∧
        Closes stop.rest := by
    rcases readOperand_eq_ok reads operand with ⟨text, spans, derivation⟩
    have padded := derivation.skipped trivial skippable .nil
    rw [List.append_nil] at padded
    exact readChain_eq_ok reads (gapSpans.trans spans) (.start padded) (Nat.lt_succ_self _) outcome
  unfold readFormula at outcome
  simp only at outcome
  split at outcome
  · cases outcome
  · cases outcome
  · split at outcome
    · rcases ok_of_bind outcome with ⟨⟨term, after⟩, operand, outcome⟩
      exact chain operand outcome
    · rcases ok_of_bind outcome with ⟨⟨term, after⟩, operand, outcome⟩
      exact chain operand outcome
    · cases outcome

/-! ## Conditions -/

theorem Skippable.of_white {gap : List Char} (white : gap.all isWhite = true) : Skippable gap :=
  .inr (all_isBlank_of_isWhite white)

/-- Trimming takes white space from both ends. -/
theorem trim_spans (text : List Char) :
    ∃ before after, text = before ++ (trim text ++ after) ∧ before.all isWhite = true ∧
      after.all isWhite = true := by
  let inner := text.dropWhile isWhite
  refine ⟨text.takeWhile isWhite, (inner.reverse.takeWhile isWhite).reverse, ?_,
    List.all_takeWhile, ?_⟩
  · have split : trim text ++ (inner.reverse.takeWhile isWhite).reverse = inner := by
      rw [trim, trimEnd, ← List.reverse_append, List.takeWhile_append_dropWhile,
        List.reverse_reverse]
    rw [split, List.takeWhile_append_dropWhile]
  · rw [List.all_reverse]
    exact List.all_takeWhile

theorem operandEnd_spans (stopAtComparison : Bool) (depth index : Nat) (text : List Char) :
    ∃ part, Cursor.Spans ⟨index, text⟩ part (operandEnd stopAtComparison depth index text) := by
  induction text generalizing depth index with
  | nil => exact ⟨[], rfl, rfl⟩
  | cons character text induction =>
      have further (depth : Nat) : ∃ part, Cursor.Spans ⟨index, character :: text⟩ part
          (operandEnd stopAtComparison depth (index + 1) text) := by
        rcases induction depth (index + 1) with ⟨part, spans⟩
        exact ⟨character :: part, (Cursor.spans_mk index [character] text).trans spans⟩
      unfold operandEnd
      simp only
      split
      · exact further _
      · split
        · split
          · exact ⟨[], rfl, rfl⟩
          · exact further _
        · split
          · exact ⟨[], rfl, rfl⟩
          · split
            · exact ⟨[], rfl, rfl⟩
            · exact further _

theorem skipOperand_spans (stopAtComparison : Bool) (cursor : Cursor) :
    ∃ part, cursor.Spans part (skipOperand stopAtComparison cursor) :=
  operandEnd_spans stopAtComparison 0 cursor.index cursor.rest

theorem Comparison.symbol_of_ofSymbol? {symbol : List Char} {comparison : Comparison}
    (found : Comparison.ofSymbol? symbol = some comparison) :
    symbol = comparison.symbol.toList := by
  unfold Comparison.ofSymbol? at found
  split at found <;> cases found <;> rfl

theorem Connective.symbol_of_ofCharacter? {symbol : Char} {connective : Connective}
    (found : Connective.ofCharacter? symbol = some connective) :
    [symbol, symbol] = connective.symbol.toList := by
  unfold Connective.ofCharacter? at found
  split at found <;> cases found <;> rfl

/-- What the parser of formulas reads as a whole is a formula. -/
def ReadsFormulas (isFormula : List Char → Formula ν → Prop)
    (parseFormula : Cursor → Except Fault (Formula ν × Cursor)) : Prop :=
  ∀ cursor tree, whole parseFormula cursor = .ok tree → isFormula cursor.rest tree

/-- The parsers of conditions that stand deeper are sound. -/
def DeeperConditions (isFormula : List Char → Formula ν → Prop) (deeper : Option (Deeper ν)) :
    Prop :=
  ∀ inner, deeper = some inner → ReadsAs (IsCondition Skippable isFormula) inner.condition

section Conditions

variable {isFormula : List Char → Formula ν → Prop}

theorem readComparison_eq_ok {parseFormula : Cursor → Except Fault (Formula ν × Cursor)}
    (formulas : ReadsFormulas isFormula parseFormula) {cursor : Cursor} {tree : Condition ν}
    {stop : Cursor} (outcome : readComparison parseFormula cursor = .ok (tree, stop)) :
    ∃ text, cursor.Spans text stop ∧ IsPaddedClause Skippable isFormula text tree := by
  rcases skipOperand_spans true cursor with ⟨left, leftSpans⟩
  unfold readComparison at outcome
  simp only [Cursor.upTo_rest leftSpans] at outcome
  split at outcome
  · cases outcome
  · split at outcome
    · split at outcome
      · rename_i value named
        cases outcome
        rcases trim_spans left with ⟨before, after, equal, whiteBefore, whiteAfter⟩
        exact ⟨left, leftSpans, before, _, after, equal, .of_white whiteBefore, .literal named,
          .of_white whiteAfter⟩
      · cases outcome
    · split at outcome
      · cases outcome
      · rename_i comparison found
        let symbol := (skipOperand true cursor).rest.takeWhile isComparisonSymbol
        have symbolSpans : (skipOperand true cursor).Spans symbol
            ((skipOperand true cursor).advance symbol.length) :=
          Cursor.spans_advance (List.takeWhile_append_dropWhile).symm
        rcases skipOperand_spans false ((skipOperand true cursor).advance symbol.length) with
          ⟨right, rightSpans⟩
        simp only [symbol, Cursor.upTo_rest rightSpans] at outcome rightSpans
        split at outcome
        · cases outcome
        · rcases ok_of_bind outcome with ⟨leftTree, leftParsed, outcome⟩
          rcases ok_of_bind outcome with ⟨rightTree, rightParsed, outcome⟩
          cases outcome
          have spans := leftSpans.trans (symbolSpans.trans rightSpans)
          have isSymbol : symbol = comparison.symbol.toList :=
            Comparison.symbol_of_ofSymbol? found
          rw [isSymbol] at spans
          have clause : IsClause Skippable isFormula _ (.compare leftTree comparison rightTree) :=
            .compare (formulas _ _ leftParsed) (formulas _ _ rightParsed)
          exact ⟨_, spans, [], _, [], by simp, .nil, clause, .nil⟩

/-- Gaps may be added around a clause. -/
theorem IsPaddedClause.skipped {text before after : List Char} {tree : Condition ν}
    (padded : IsPaddedClause Skippable isFormula text tree) (gapBefore : Skippable before)
    (gapAfter : Skippable after) :
    IsPaddedClause Skippable isFormula (before ++ (text ++ after)) tree := by
  rcases padded with ⟨innerBefore, core, innerAfter, rfl, ofBefore, clause, ofAfter⟩
  exact ⟨before ++ innerBefore, core, innerAfter ++ after, by simp, gapBefore.append ofBefore,
    clause, ofAfter.append gapAfter⟩

/-- Gaps may be added before a condition. -/
theorem IsCondition.skipped {text before : List Char} {tree : Condition ν}
    (condition : IsCondition Skippable isFormula text tree) (gapBefore : Skippable before) :
    IsCondition Skippable isFormula (before ++ text) tree := by
  cases condition with
  | clause innerBefore clause innerAfter =>
      rw [← List.append_assoc]
      exact .clause (gapBefore.append innerBefore) clause innerAfter
  | @connect _ _ _ _ leftTree rightTree connective innerBefore clause innerAfter condition =>
      have longer : IsCondition Skippable isFormula _ (.connect leftTree connective rightTree) :=
        .connect (gapBefore.append innerBefore) clause innerAfter condition
      simpa using longer

theorem readConnective_eq_ok {deeper : Option (Deeper ν)}
    (conditions : DeeperConditions isFormula deeper) {start cursor : Cursor} {text : List Char}
    {left : Condition ν} (spans : start.Spans text cursor)
    (padded : IsPaddedClause Skippable isFormula text left) {tree : Condition ν} {stop : Cursor}
    (outcome : readConnective vocabulary deeper left cursor = .ok (tree, stop)) :
    ∃ text, start.Spans text stop ∧ IsCondition Skippable isFormula text tree ∧
      Closes stop.rest := by
  rcases Cursor.skip_spans cursor with ⟨gap, gapSpans, skippable⟩
  have spansSkipped := spans.trans gapSpans
  have clause := padded.skipped .nil skippable
  rw [List.nil_append] at clause
  unfold readConnective at outcome
  simp only at outcome
  split at outcome
  · rename_i atEnd
    cases outcome
    exact ⟨text ++ gap, spansSkipped, clause.alone, .inl (List.head?_eq_none_iff.mp atEnd)⟩
  · rename_i closing
    cases outcome
    exact ⟨text ++ gap, spansSkipped, clause.alone, .inr closing⟩
  · rename_i symbol _ next
    split at outcome
    · cases outcome
    · rename_i connective found
      split at outcome
      · cases outcome
      · rename_i doubled
        rw [ne_eq, not_not] at doubled
        split at outcome
        · cases outcome
        · rcases ok_of_bind outcome with ⟨inner, entered, outcome⟩
          rcases ok_of_bind outcome with ⟨⟨right, after⟩, parsed, outcome⟩
          cases outcome
          have twice : cursor.skip.rest = [symbol, symbol] ++ cursor.skip.rest.drop 2 := by
            unfold Cursor.next? at next
            unfold Cursor.second? at doubled
            rcases List.head?_eq_some_iff.mp next with ⟨tail, equal⟩
            rw [equal] at doubled
            rcases List.head?_eq_some_iff.mp doubled with ⟨rest, tailEqual⟩
            rw [List.tail_cons] at tailEqual
            rw [equal, tailEqual]
            rfl
          rcases Cursor.skip_spans (cursor.skip.advance 2) with
            ⟨rightGap, rightGapSpans, rightSkippable⟩
          rcases conditions inner (enter_eq_ok entered) _ _ _ parsed with
            ⟨rightText, rightSpans, condition, closes⟩
          have allSpans := spansSkipped.trans
            ((Cursor.spans_advance twice).trans (rightGapSpans.trans rightSpans))
          rw [Connective.symbol_of_ofCharacter? found] at allSpans
          exact ⟨_, allSpans, clause.connect (condition.skipped rightSkippable), closes⟩

/-- What one level of the parser accepts is a condition over what it reads as formulas. -/
theorem readCondition_readsAs {deeper : Option (Deeper ν)}
    (conditions : DeeperConditions isFormula deeper)
    {parseFormula : Cursor → Except Fault (Formula ν × Cursor)}
    (formulas : ReadsFormulas isFormula parseFormula) :
    ReadsAs (IsCondition Skippable isFormula) (readCondition vocabulary deeper parseFormula) := by
  intro cursor tree stop outcome
  rcases Cursor.skip_spans cursor with ⟨gap, gapSpans, skippable⟩
  have behind {text : List Char} {left : Condition ν} {after : Cursor}
      (spans : cursor.skip.Spans text after)
      (clause : IsPaddedClause Skippable isFormula text left)
      (outcome : readConnective vocabulary deeper left after = .ok (tree, stop)) :
      ∃ text, cursor.Spans text stop ∧ IsCondition Skippable isFormula text tree ∧
        Closes stop.rest := by
    have padded := clause.skipped skippable .nil
    rw [List.append_nil] at padded
    exact readConnective_eq_ok conditions (gapSpans.trans spans) padded outcome
  unfold readCondition at outcome
  simp only at outcome
  split at outcome
  · cases outcome
  · cases outcome
  · rename_i symbol _ next
    split at outcome
    · cases outcome
    · split at outcome
      · rename_i opens
        simp only [Bool.and_eq_true, decide_eq_true_eq] at opens
        rw [opens.1] at next
        rcases ok_of_bind outcome with ⟨⟨left, after⟩, group, outcome⟩
        rcases readGroup_eq_ok conditions next group with ⟨text, spans, condition⟩
        exact behind spans ⟨[], _, [], by simp, .nil, .group condition, .nil⟩ outcome
      · rcases ok_of_bind outcome with ⟨⟨left, after⟩, comparison, outcome⟩
        rcases readComparison_eq_ok formulas comparison with ⟨text, spans, clause⟩
        exact behind spans clause outcome

end Conditions

theorem readCondition_reads {deeper : Option (Deeper ν)} (reads : DeeperReads vocabulary deeper)
    {parseFormula : Cursor → Except Fault (Formula ν × Cursor)}
    (formulaReads : Reads vocabulary .sum parseFormula) :
    Reads vocabulary .condition (readCondition vocabulary deeper parseFormula) := by
  let isFormula := Derives vocabulary (.read vocabulary) .sum
  have conditions : DeeperConditions isFormula deeper := by
    intro inner present cursor tree stop outcome
    rcases (reads inner present).2 cursor tree stop outcome with ⟨text, spans, derivation, closes⟩
    exact ⟨text, spans, derivation.isCondition Skippable.nil, closes⟩
  intro cursor tree stop outcome
  rcases readCondition_readsAs conditions (fun _ _ => formulaReads.whole) cursor tree stop
    outcome with ⟨text, spans, condition, closes⟩
  exact ⟨text, spans, condition.derives Skippable.nil Skippable.append, closes⟩

/-! ## All levels -/

/-- What is accepted at any level is derived. -/
theorem formula_condition_reads (vocabulary : Vocabulary ν) (budget : Nat) :
    Reads vocabulary .sum (formula vocabulary budget) ∧
      Reads vocabulary .condition (condition vocabulary budget) := by
  induction budget with
  | zero =>
      have nothing : DeeperReads vocabulary none := fun inner present => by cases present
      exact ⟨readFormula_reads nothing 0, readCondition_reads nothing (readFormula_reads nothing 0)⟩
  | succ budget induction =>
      have reads : DeeperReads vocabulary
          (some ⟨formula vocabulary budget, condition vocabulary budget⟩) := by
        intro inner present
        cases present
        exact induction
      exact ⟨readFormula_reads reads (budget + 1),
        readCondition_reads reads (readFormula_reads reads (budget + 1))⟩

end Soundness

end NumericRules.Grammar
