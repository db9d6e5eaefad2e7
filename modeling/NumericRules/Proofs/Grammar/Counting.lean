import NumericRules.Grammar.Statement
import NumericRules.Proofs.Grammar.Limits

/-! # Counting levels of nesting

A reading is given the levels that are left. The readings here count the levels that are
taken instead: a counter goes up before a group, a call or the right side of a
connective and comes down behind it. Both refuse the same texts, and behind everything
that is read the counter is back where it was.
-/

namespace NumericRules.Grammar

/-- A reading with a counter of the levels that are taken. -/
abbrev Counted (α : Type) : Type := StateT Nat (Except Fault) α

namespace Counted

/-! ## The counter -/

section Counter

variable (vocabulary : Vocabulary ν)

/-- Take a level, unless all of them are taken. -/
def enter (cursor : Cursor) : Counted Unit := do
  let level ← get
  if vocabulary.nestingLimit ≤ level then throw (vocabulary.depthFault cursor)
  else set (level + 1)

def leave : Counted Unit := modify (· - 1)

/-- Refuse a tree that is higher than the levels that are left. -/
def checkHeight (cursor : Cursor) (height : Nat) : Counted Unit := do
  let level ← get
  if vocabulary.nestingLimit < level + height then throw (vocabulary.depthFault cursor)

/-- Read something one level deeper. -/
def nested (cursor : Cursor) (body : Counted α) : Counted α := do
  enter vocabulary cursor
  let result ← body
  leave
  pure result

end Counter

/-! ## One level -/

/-- The counted parsers for what stands one level deeper. -/
structure Inner (ν : Type) where
  formula : Cursor → Counted (Formula ν × Cursor)
  condition : Cursor → Counted (Condition ν × Cursor)

def whole (parse : Cursor → Counted (α × Cursor)) (cursor : Cursor) : Counted α := do
  let (result, stop) ← parse cursor
  stop.expectEnd
  pure result

def readAll (parse : Cursor → Counted α) : List Cursor → Counted (List α)
  | [] => pure []
  | argument :: rest => do
      let value ← parse argument
      let values ← readAll parse rest
      pure (value :: values)

section Level

variable (vocabulary : Vocabulary ν) (inner : Inner ν)

def readGroup (parse : Cursor → Counted (α × Cursor)) (cursor : Cursor) :
    Counted (α × Cursor) :=
  nested vocabulary cursor do
    let (result, stop) ← parse (cursor.advance 1)
    let closing := stop.skip
    if closing.next? = some ')' then pure (result, closing.advance 1)
    else throw (closing.faultFrom cursor.index .unclosedGroup)

def readCall (start : Nat) (name : List Char) (cursor : Cursor) :
    Counted (Formula ν × Cursor) :=
  match vocabulary.signature? (String.ofList name) with
  | none => throw (cursor.faultFrom start (.undefinedFunction name))
  | some signature => nested vocabulary cursor do
      let (arguments, stop) ← readArguments vocabulary.argumentSeparator cursor
      let wrongArity :=
        stop.faultFrom start (.wrongArity name signature.accepted arguments.length)
      match signature with
      | .choose =>
          match arguments with
          | [test, whenTrue, whenFalse] =>
              let test ← whole inner.condition test
              let whenTrue ← whole inner.formula whenTrue
              let whenFalse ← whole inner.formula whenFalse
              pure (.choose test whenTrue whenFalse, stop)
          | _ => throw wrongArity
      | .native accepted =>
          if accepted.contains arguments.length then
            let arguments ← readAll (whole inner.formula) arguments
            pure (.call (String.ofList name) arguments, stop)
          else throw wrongArity

def readAtom (after : Option Operator) (cursor : Cursor) : Counted (Formula ν × Cursor) := do
  let (token, stop) ← readToken vocabulary.argumentSeparator cursor
  let negative := token.head? = some '-'
  let body := if negative then token.tail else token
  if isNumeric body then
    match number? negative body with
    | some value => pure (.constant value, stop)
    | none => throw (stop.faultFrom cursor.index (.invalidNumber token))
  else if body.isEmpty then
    if negative && stop.next? = some '(' then
      let (inner, stop) ← readGroup vocabulary inner.formula stop
      pure (.negate inner, stop)
    else throw (missingOperand after stop)
  else if stop.next? = some '(' then
    let start := if negative then cursor.index + 1 else cursor.index
    let (call, stop) ← readCall vocabulary inner start body stop
    pure (negateIf negative call, stop)
  else
    let reference ← vocabulary.resolve body cursor.index stop
    pure (negateIf negative (.name reference), stop)

def readOperand (after : Option Operator) (cursor : Cursor) : Counted (Formula ν × Cursor) :=
  let cursor := cursor.skip
  match cursor.next? with
  | none => throw (missingOperand after cursor)
  | some ')' => throw (missingOperand after cursor)
  | some '(' => readGroup vocabulary inner.formula cursor
  | some _ => readAtom vocabulary inner after cursor

def readChain : Nat → Chain ν → Cursor → Counted (Formula ν × Cursor)
  | 0, chain, cursor => pure (chain.finish, cursor)
  | fuel + 1, chain, cursor => do
      let cursor := cursor.skip
      match cursor.next? with
      | none => pure (chain.finish, cursor)
      | some ')' => pure (chain.finish, cursor)
      | some symbol =>
          match Operator.ofSymbol? symbol with
          | none => throw (cursor.fault .extraSymbol)
          | some operator =>
              let (term, stop) ← readOperand vocabulary inner (some operator) (cursor.advance 1)
              let chain := chain.push operator term
              checkHeight vocabulary stop chain.depth
              readChain fuel chain stop

def readFormula (cursor : Cursor) : Counted (Formula ν × Cursor) := do
  let cursor := cursor.skip
  match cursor.next? with
  | none => throw (cursor.fault .emptyExpression)
  | some ')' => throw (cursor.fault .emptyExpression)
  | some symbol =>
      match Operator.ofSymbol? symbol with
      | some .subtract | none =>
          let (term, stop) ← readOperand vocabulary inner none cursor
          readChain vocabulary inner (stop.rest.length + 1) (.start term) stop
      | some operator => throw (cursor.fault (.noLeftOperand operator))

def readComparison (parse : Cursor → Counted (Formula ν × Cursor)) (cursor : Cursor) :
    Counted (Condition ν × Cursor) := do
  let leftStop := skipOperand true cursor
  let left := cursor.upTo leftStop
  let leftText := Text.trim left.rest
  if leftText.isEmpty then throw (leftStop.fault .noLeftComparand)
  else
    let symbol := leftStop.rest.takeWhile isComparisonSymbol
    if symbol.isEmpty then
      match literal? leftText with
      | some value => pure (.literal value, leftStop)
      | none => throw (leftStop.fault (.noComparison leftText))
    else
      let right := leftStop.advance symbol.length
      match Comparison.ofSymbol? symbol with
      | none => throw (right.faultFrom leftStop.index (.invalidComparison symbol))
      | some comparison =>
          let rightStop := skipOperand false right
          let right := right.upTo rightStop
          if right.isBlank then throw (rightStop.fault (.noRightComparand symbol))
          else
            let left ← whole parse left
            let right ← whole parse right
            pure (.compare left comparison right, rightStop)

def readConnective (left : Condition ν) (cursor : Cursor) : Counted (Condition ν × Cursor) := do
  let cursor := cursor.skip
  match cursor.next? with
  | none => pure (left, cursor)
  | some ')' => pure (left, cursor)
  | some symbol =>
      match Connective.ofCharacter? symbol with
      | none => throw (cursor.fault .extraAfterCondition)
      | some connective =>
          if cursor.second? ≠ some symbol then
            throw (cursor.fault (.singleConnective symbol))
          else
            let right := (cursor.advance 2).skip
            if right.next? = none || right.next? = some ')' then
              throw (right.fault (.noRightCondition connective))
            else
              let (right, stop) ← nested vocabulary right (inner.condition right)
              pure (.connect left connective right, stop)

def readCondition (cursor : Cursor) : Counted (Condition ν × Cursor) := do
  let cursor := cursor.skip
  match cursor.next? with
  | none => throw (cursor.fault .emptyCondition)
  | some ')' => throw (cursor.fault .emptyCondition)
  | some symbol =>
      if symbol = '&' || symbol = '|' then throw (cursor.fault (.noLeftCondition symbol))
      else
        let (left, stop) ←
          if symbol = '(' && !opensFormula cursor then
            readGroup vocabulary inner.condition cursor
          else readComparison (readFormula vocabulary inner) cursor
        readConnective vocabulary inner left stop

end Level

/-! ## All levels -/

/-- The counted parsers, for no more levels than the fuel. -/
def inner (vocabulary : Vocabulary ν) : Nat → Inner ν
  | 0 => ⟨fun cursor => throw (vocabulary.depthFault cursor),
      fun cursor => throw (vocabulary.depthFault cursor)⟩
  | fuel + 1 => ⟨readFormula vocabulary (inner vocabulary fuel),
      readCondition vocabulary (inner vocabulary fuel)⟩

/-! ## Statements -/

section Statements

variable (vocabulary : Vocabulary ν) (inner : Inner ν)

def readReturn (cursor : Cursor) : Counted (Step ν × Cursor) := do
  let (arguments, stop) ← readArguments vocabulary.argumentSeparator cursor
  match arguments with
  | [value] =>
      let value ← whole inner.formula value
      pure (.return none value, stop)
  | [test, value] =>
      let test ← whole inner.condition test
      let value ← whole inner.formula value
      pure (.return (some test) value, stop)
  | _ => throw (stop.faultFrom cursor.index (.wrongReturn arguments.length))

def readStep (allowReturn : Bool) (cursor : Cursor) : Counted (Step ν × Cursor) :=
  let name := cursor.rest.takeWhile fun character =>
    !endsName vocabulary.stepSeparator character
  let afterName := (cursor.advance name.length).skip
  if allowReturn && Text.isWord "return" name && afterName.next? = some '(' then
    readReturn vocabulary inner afterName
  else do
    let (update, afterUpdate) ← readUpdate name cursor.index afterName
    if name.isEmpty then throw (afterUpdate.faultFrom cursor.index (.noTarget update))
    else
      let target ← vocabulary.resolve name cursor.index afterUpdate
      let (extent, stop) ←
        readExtent vocabulary.stepSeparator vocabulary.argumentSeparator afterUpdate.skip
      if extent.rest.isEmpty then throw (stop.fault (.noValue name))
      else
        let value ← whole inner.formula extent
        pure (.assign ⟨target, update, value⟩, stop)

def readSteps (allowReturn : Bool) : Nat → Cursor → Counted (List (Step ν) × Cursor)
  | 0, cursor => pure ([], cursor)
  | fuel + 1, cursor => do
      let cursor := skipSeparators vocabulary.stepSeparator cursor
      if cursor.rest.isEmpty then pure ([], cursor)
      else
        let (step, stop) ← readStep vocabulary inner allowReturn cursor
        let (steps, stop) ← readSteps allowReturn fuel stop
        pure (step :: steps, stop)

end Statements

end Counted

/-! ## Counting and spending -/

/-- Started at the level, the counted reading has the outcome of the other one and leaves
the counter where it was. -/
def CountsAt (level : Nat) (counted : Counted α) (plain : Except Fault α) : Prop :=
  counted.run level = plain.map (·, level)

namespace CountsAt

theorem done (level : Nat) (value : α) : CountsAt level (pure value) (pure value) := rfl

theorem refused (level : Nat) (fault : Fault) :
    CountsAt level (throw fault : Counted α) (throw fault) := rfl

/-- What is read without nesting leaves the counter alone. -/
theorem lift (level : Nat) (plain : Except Fault α) :
    CountsAt level (liftM plain : Counted α) plain := by
  cases plain <;> rfl

variable {level : Nat}

theorem bind {counted : Counted α} {plain : Except Fault α} {next : α → Counted β}
    {other : α → Except Fault β} (counts : CountsAt level counted plain)
    (further : ∀ value, CountsAt level (next value) (other value)) :
    CountsAt level (counted >>= next) (plain >>= other) := by
  unfold CountsAt at counts
  rw [CountsAt, StateT.run_bind, counts]
  cases plain with
  | error fault => rfl
  | ok value => exact further value

end CountsAt

/-- The parsers for what stands at the level. -/
def Vocabulary.at (vocabulary : Vocabulary ν) (level : Nat) : Deeper ν :=
  ⟨formula vocabulary (vocabulary.nestingLimit - level),
    condition vocabulary (vocabulary.nestingLimit - level)⟩

/-- The counted parsers read what the parsers for the level read. -/
structure Counted.Inner.Counts (inner : Counted.Inner ν) (vocabulary : Vocabulary ν)
    (level : Nat) : Prop where
  formula : ∀ cursor, CountsAt level (inner.formula cursor) ((vocabulary.at level).formula cursor)
  condition : ∀ cursor,
    CountsAt level (inner.condition cursor) ((vocabulary.at level).condition cursor)

namespace CountsAt

section Parts

variable {level : Nat}

theorem whole {counted : Cursor → Counted (α × Cursor)}
    {plain : Cursor → Except Fault (α × Cursor)}
    (counts : ∀ cursor, CountsAt level (counted cursor) (plain cursor)) (cursor : Cursor) :
    CountsAt level (Counted.whole counted cursor) (Grammar.whole plain cursor) := by
  apply (counts cursor).bind
  intro ⟨result, stop⟩
  apply (CountsAt.lift level stop.expectEnd).bind
  intro _
  exact .done level result

theorem readAll {counted : Cursor → Counted α} {plain : Cursor → Except Fault α}
    (counts : ∀ cursor, CountsAt level (counted cursor) (plain cursor)) (cursors : List Cursor) :
    CountsAt level (Counted.readAll counted cursors) (Grammar.readAll plain cursors) := by
  induction cursors with
  | nil => exact .done level []
  | cons cursor cursors induction =>
      apply (counts cursor).bind
      intro value
      apply induction.bind
      intro values
      exact .done level (value :: values)

end Parts

section Level

variable {vocabulary : Vocabulary ν} {level : Nat} {inner : Counted.Inner ν}

/-- Going one level deeper takes a level and gives it back. -/
theorem nested (le : level ≤ vocabulary.nestingLimit) {body : Counted α}
    {plain : Deeper ν → Except Fault α}
    (counts : level < vocabulary.nestingLimit →
      CountsAt (level + 1) body (plain (vocabulary.at (level + 1)))) (cursor : Cursor) :
    CountsAt level (Counted.nested vocabulary cursor body)
      (vocabulary.enter (levels vocabulary (vocabulary.nestingLimit - level)) cursor >>=
        plain) := by
  rcases Nat.lt_or_eq_of_le le with below | full
  · have entered : (Counted.enter vocabulary cursor).run level = .ok ((), level + 1) := by
      simp only [Counted.enter, StateT.run_bind, StateT.run_get, pure_bind,
        if_neg (Nat.not_le_of_lt below), StateT.run_set]
      rfl
    have counted := counts below
    rw [enter_levels vocabulary (Nat.sub_pos_of_lt below), Nat.sub_sub]
    change CountsAt level _ (plain (vocabulary.at (level + 1)))
    generalize plain _ = outcome at counted ⊢
    unfold CountsAt at counted
    rw [CountsAt, Counted.nested, StateT.run_bind, entered]
    change (body.run (level + 1) >>= _) = _
    rw [counted]
    cases outcome <;> rfl
  · have refused : (Counted.enter vocabulary cursor).run level =
        .error (vocabulary.depthFault cursor) := by
      simp only [Counted.enter, StateT.run_bind, StateT.run_get, pure_bind,
        if_pos (Nat.le_of_eq full.symm)]
      rfl
    rw [CountsAt, Counted.nested, StateT.run_bind, refused, full, Nat.sub_self]
    rfl

variable (le : level ≤ vocabulary.nestingLimit)
  (counts : level < vocabulary.nestingLimit → inner.Counts vocabulary (level + 1))

include le

theorem checkHeight (cursor : Cursor) (height : Nat) {counted : Counted α}
    {plain : Except Fault α} (further : CountsAt level counted plain) :
    CountsAt level (do Counted.checkHeight vocabulary cursor height; counted)
      (if vocabulary.nestingLimit - level < height then
        throw (vocabulary.depthFault cursor) else plain) := by
  by_cases high : vocabulary.nestingLimit < level + height
  · have refused : (Counted.checkHeight vocabulary cursor height).run level =
        .error (vocabulary.depthFault cursor) := by
      simp only [Counted.checkHeight, StateT.run_bind, StateT.run_get, pure_bind, if_pos high]
      rfl
    rw [if_pos (by omega), CountsAt, StateT.run_bind, refused]
    rfl
  · have passed : (Counted.checkHeight vocabulary cursor height).run level =
        .ok ((), level) := by
      simp only [Counted.checkHeight, StateT.run_bind, StateT.run_get, pure_bind, if_neg high]
      rfl
    rw [if_neg (by omega), CountsAt, StateT.run_bind, passed]
    exact further

theorem readGroup {parse : Cursor → Counted (α × Cursor)}
    {plain : Deeper ν → Cursor → Except Fault (α × Cursor)}
    (parses : level < vocabulary.nestingLimit → ∀ cursor, CountsAt (level + 1) (parse cursor)
      (plain (vocabulary.at (level + 1)) cursor))
    (cursor : Cursor) :
    CountsAt level (Counted.readGroup vocabulary parse cursor)
      (Grammar.readGroup vocabulary (levels vocabulary (vocabulary.nestingLimit - level)) plain
        cursor) := by
  apply nested le
  intro below
  apply (parses below (cursor.advance 1)).bind
  intro ⟨result, stop⟩
  dsimp only
  split
  · exact .done _ _
  · exact .refused _ _

include counts

theorem readCall (start : Nat) (name : List Char) (cursor : Cursor) :
    CountsAt level (Counted.readCall vocabulary inner start name cursor)
      (Grammar.readCall vocabulary (levels vocabulary (vocabulary.nestingLimit - level)) start name
        cursor) := by
  unfold Counted.readCall Grammar.readCall
  cases vocabulary.signature? (String.ofList name) with
  | none => exact .refused _ _
  | some signature =>
      apply nested le
      intro below
      have formulas := whole (counts below).formula
      apply (CountsAt.lift _ _).bind
      intro ⟨arguments, stop⟩
      cases signature with
      | choose =>
          rcases arguments with _ | ⟨test, _ | ⟨first, _ | ⟨second, _ | ⟨_, _⟩⟩⟩⟩
          · exact .refused _ _
          · exact .refused _ _
          · exact .refused _ _
          · apply (whole (counts below).condition test).bind
            intro test
            apply (formulas first).bind
            intro first
            apply (formulas second).bind
            intro second
            exact .done _ _
          · exact .refused _ _
      | native accepted =>
          dsimp only
          split
          · apply (readAll formulas _).bind
            intro values
            exact .done _ _
          · exact .refused _ _

theorem readAtom (after : Option Operator) (cursor : Cursor) :
    CountsAt level (Counted.readAtom vocabulary inner after cursor)
      (Grammar.readAtom vocabulary (levels vocabulary (vocabulary.nestingLimit - level)) after
        cursor) := by
  unfold Counted.readAtom Grammar.readAtom
  apply (CountsAt.lift _ _).bind
  intro ⟨token, stop⟩
  dsimp only
  generalize (if token.head? = some '-' then token.tail else token) = body
  split
  · cases number? (decide (token.head? = some '-')) body with
    | none => exact .refused _ _
    | some value => exact .done _ _
  · split
    · split
      · apply (readGroup le (fun below => (counts below).formula) stop).bind
        intro result
        exact .done _ _
      · exact .refused _ _
    · split
      · apply (readCall le counts _ _ _).bind
        intro result
        exact .done _ _
      · apply (CountsAt.lift _ _).bind
        intro reference
        exact .done _ _

theorem readOperand (after : Option Operator) (cursor : Cursor) :
    CountsAt level (Counted.readOperand vocabulary inner after cursor)
      (Grammar.readOperand vocabulary (levels vocabulary (vocabulary.nestingLimit - level)) after
        cursor) := by
  unfold Counted.readOperand
  dsimp only
  split
  · rename_i next
    simp only [Grammar.readOperand, next]
    exact .refused _ _
  · rename_i next
    simp only [Grammar.readOperand, next]
    exact .refused _ _
  · rename_i next
    simp only [Grammar.readOperand, next]
    exact readGroup le (fun below => (counts below).formula) _
  · rename_i next
    simp only [Grammar.readOperand, next]
    exact readAtom le counts after _

theorem readChain (fuel : Nat) (chain : Chain ν) (cursor : Cursor) :
    CountsAt level (Counted.readChain vocabulary inner fuel chain cursor)
      (Grammar.readChain vocabulary (levels vocabulary (vocabulary.nestingLimit - level))
        (vocabulary.nestingLimit - level) fuel chain cursor) := by
  induction fuel generalizing chain cursor with
  | zero => exact .done _ _
  | succ fuel induction =>
      unfold Counted.readChain
      dsimp only
      split
      · rename_i next
        simp only [Grammar.readChain, next]
        exact .done _ _
      · rename_i next
        simp only [Grammar.readChain, next]
        exact .done _ _
      · rename_i symbol _ next
        simp only [Grammar.readChain, next]
        cases Operator.ofSymbol? symbol with
        | none => exact .refused _ _
        | some operator =>
            apply (readOperand le counts _ _).bind
            intro read
            exact checkHeight le read.2 _ (induction _ read.2)

theorem readFormula (cursor : Cursor) :
    CountsAt level (Counted.readFormula vocabulary inner cursor)
      ((vocabulary.at level).formula cursor) := by
  have chained (cursor : Cursor) : CountsAt level
      (Counted.readOperand vocabulary inner none cursor >>= fun read =>
        Counted.readChain vocabulary inner (read.2.rest.length + 1) (.start read.1) read.2)
      (Grammar.readOperand vocabulary (levels vocabulary (vocabulary.nestingLimit - level)) none
          cursor >>= fun read =>
        Grammar.readChain vocabulary (levels vocabulary (vocabulary.nestingLimit - level))
          (vocabulary.nestingLimit - level) (read.2.rest.length + 1) (.start read.1) read.2) := by
    apply (readOperand le counts none cursor).bind
    intro ⟨term, stop⟩
    exact readChain le counts _ _ stop
  rw [Vocabulary.at, formula_eq]
  unfold Counted.readFormula
  dsimp only
  split
  · rename_i next
    simp only [Grammar.readFormula, next]
    exact .refused _ _
  · rename_i next
    simp only [Grammar.readFormula, next]
    exact .refused _ _
  · rename_i symbol _ next
    simp only [Grammar.readFormula, next]
    rcases Operator.ofSymbol? symbol with _ | (_ | _ | _ | _ | _)
    · exact chained _
    · exact .refused _ _
    · exact chained _
    · exact .refused _ _
    · exact .refused _ _
    · exact .refused _ _

omit le counts in
theorem readComparison {counted : Cursor → Counted (Formula ν × Cursor)}
    {plain : Cursor → Except Fault (Formula ν × Cursor)}
    (parses : ∀ cursor, CountsAt level (counted cursor) (plain cursor)) (cursor : Cursor) :
    CountsAt level (Counted.readComparison counted cursor)
      (Grammar.readComparison plain cursor) := by
  unfold Counted.readComparison Grammar.readComparison
  dsimp only
  split
  · exact .refused _ _
  · split
    · cases literal? (Text.trim (cursor.upTo (skipOperand true cursor)).rest) with
      | none => exact .refused _ _
      | some value => exact .done _ _
    · cases Comparison.ofSymbol? ((skipOperand true cursor).rest.takeWhile isComparisonSymbol) with
      | none => exact .refused _ _
      | some comparison =>
          dsimp only
          split
          · exact .refused _ _
          · apply (whole parses _).bind
            intro left
            apply (whole parses _).bind
            intro right
            exact .done _ _

theorem readConnective (left : Condition ν) (cursor : Cursor) :
    CountsAt level (Counted.readConnective vocabulary inner left cursor)
      (Grammar.readConnective vocabulary (levels vocabulary (vocabulary.nestingLimit - level)) left
        cursor) := by
  unfold Counted.readConnective
  dsimp only
  split
  · rename_i next
    simp only [Grammar.readConnective, next]
    exact .done _ _
  · rename_i next
    simp only [Grammar.readConnective, next]
    exact .done _ _
  · rename_i symbol _ next
    simp only [Grammar.readConnective, next]
    cases Connective.ofCharacter? symbol with
    | none => exact .refused _ _
    | some connective =>
        dsimp only
        split
        · exact .refused _ _
        · split
          · exact .refused _ _
          · have deeper (start : Cursor) : CountsAt level _
                (vocabulary.enter _ start >>= fun inner => inner.condition start) :=
              nested le (fun below => (counts below).condition start) start
            specialize deeper (cursor.skip.advance 2).skip
            rw [← bind_assoc]
            apply deeper.bind
            intro result
            exact .done _ _

theorem readCondition (cursor : Cursor) :
    CountsAt level (Counted.readCondition vocabulary inner cursor)
      ((vocabulary.at level).condition cursor) := by
  have connected {counted : Counted (Condition ν × Cursor)}
      {plain : Except Fault (Condition ν × Cursor)} (counts' : CountsAt level counted plain) :
      CountsAt level
        (counted >>= fun read => Counted.readConnective vocabulary inner read.1 read.2)
        (plain >>= fun read => Grammar.readConnective vocabulary
          (levels vocabulary (vocabulary.nestingLimit - level)) read.1 read.2) := by
    apply counts'.bind
    intro ⟨left, stop⟩
    exact readConnective le counts left stop
  rw [Vocabulary.at, condition_eq]
  unfold Counted.readCondition
  dsimp only
  split
  · rename_i next
    simp only [Grammar.readCondition, next]
    exact .refused _ _
  · rename_i next
    simp only [Grammar.readCondition, next]
    exact .refused _ _
  · rename_i next
    simp only [Grammar.readCondition, next]
    split
    · exact .refused _ _
    · split
      · exact connected (readGroup le (fun below => (counts below).condition) _)
      · exact connected (readComparison (readFormula le counts) _)

end Level

/-! ### Statements -/

section Statements

variable {vocabulary : Vocabulary ν} {inner : Counted.Inner ν} (counts : inner.Counts vocabulary 0)

include counts

theorem readReturn (cursor : Cursor) :
    CountsAt 0 (Counted.readReturn vocabulary inner cursor)
      (Grammar.readReturn vocabulary cursor) := by
  have formulas (cursor : Cursor) :
      CountsAt 0 (Counted.whole inner.formula cursor) (wholeFormula vocabulary cursor) :=
    whole counts.formula cursor
  unfold Counted.readReturn Grammar.readReturn
  apply (CountsAt.lift _ _).bind
  intro ⟨arguments, stop⟩
  rcases arguments with _ | ⟨first, _ | ⟨second, _ | ⟨_, _⟩⟩⟩
  · exact .refused _ _
  · apply (formulas first).bind
    intro value
    exact .done _ _
  · apply (whole counts.condition first).bind
    intro test
    apply (formulas second).bind
    intro value
    exact .done _ _
  · exact .refused _ _

theorem readStep (allowReturn : Bool) (cursor : Cursor) :
    CountsAt 0 (Counted.readStep vocabulary inner allowReturn cursor)
      (Grammar.readStep vocabulary allowReturn cursor) := by
  unfold Counted.readStep Grammar.readStep
  dsimp only
  split
  · exact readReturn counts _
  · apply (CountsAt.lift _ _).bind
    intro ⟨update, afterUpdate⟩
    dsimp only
    split
    · exact .refused _ _
    · apply (CountsAt.lift _ _).bind
      intro target
      apply (CountsAt.lift _ _).bind
      intro ⟨extent, stop⟩
      dsimp only
      split
      · exact .refused _ _
      · apply (whole counts.formula extent).bind
        intro value
        exact .done _ _

theorem readSteps (allowReturn : Bool) (fuel : Nat) (cursor : Cursor) :
    CountsAt 0 (Counted.readSteps vocabulary inner allowReturn fuel cursor)
      (Grammar.readSteps vocabulary allowReturn fuel cursor) := by
  induction fuel generalizing cursor with
  | zero => exact .done _ _
  | succ fuel induction =>
      unfold Counted.readSteps Grammar.readSteps
      dsimp only
      split
      · exact .done _ _
      · apply (readStep counts allowReturn _).bind
        intro ⟨step, stop⟩
        apply (induction stop).bind
        intro ⟨steps, last⟩
        exact .done _ _

end Statements

end CountsAt

/-! ## Whatever is read -/

/-- Everything that is read from the level leaves the counter there, and has the outcome that
it has with the levels that are left. -/
structure Counted.Balanced (inner : Counted.Inner ν) (vocabulary : Vocabulary ν) (level : Nat) :
    Prop where
  group : ∀ cursor, CountsAt level (readGroup vocabulary inner.formula cursor)
    (Grammar.readGroup vocabulary (levels vocabulary (vocabulary.nestingLimit - level))
      Deeper.formula cursor)
  call : ∀ start name cursor, CountsAt level (readCall vocabulary inner start name cursor)
    (Grammar.readCall vocabulary (levels vocabulary (vocabulary.nestingLimit - level)) start name
      cursor)
  operand : ∀ after cursor, CountsAt level (readOperand vocabulary inner after cursor)
    (Grammar.readOperand vocabulary (levels vocabulary (vocabulary.nestingLimit - level)) after
      cursor)
  chain : ∀ fuel chain cursor, CountsAt level (readChain vocabulary inner fuel chain cursor)
    (Grammar.readChain vocabulary (levels vocabulary (vocabulary.nestingLimit - level))
      (vocabulary.nestingLimit - level) fuel chain cursor)
  formula : ∀ cursor, CountsAt level (readFormula vocabulary inner cursor)
    (Grammar.formula vocabulary (vocabulary.nestingLimit - level) cursor)
  conditionGroup : ∀ cursor, CountsAt level (readGroup vocabulary inner.condition cursor)
    (Grammar.readGroup vocabulary (levels vocabulary (vocabulary.nestingLimit - level))
      Deeper.condition cursor)
  comparison : ∀ cursor,
    CountsAt level (readComparison (readFormula vocabulary inner) cursor)
      (Grammar.readComparison
        (Grammar.formula vocabulary (vocabulary.nestingLimit - level)) cursor)
  connective : ∀ left cursor, CountsAt level (readConnective vocabulary inner left cursor)
    (Grammar.readConnective vocabulary (levels vocabulary (vocabulary.nestingLimit - level)) left
      cursor)
  condition : ∀ cursor, CountsAt level (readCondition vocabulary inner cursor)
    (Grammar.condition vocabulary (vocabulary.nestingLimit - level) cursor)

/-- The counted parsers stop at the limit by themselves. -/
theorem Counted.inner_counts (vocabulary : Vocabulary ν) {fuel level : Nat}
    (le : level ≤ vocabulary.nestingLimit) (enough : vocabulary.nestingLimit < level + fuel) :
    (Counted.inner vocabulary fuel).Counts vocabulary level := by
  induction fuel generalizing level with
  | zero => exact absurd le (Nat.not_le_of_lt enough)
  | succ fuel induction =>
      have deeper (below : level < vocabulary.nestingLimit) :
          (Counted.inner vocabulary fuel).Counts vocabulary (level + 1) :=
        induction below (by omega)
      exact ⟨CountsAt.readFormula le deeper, CountsAt.readCondition le deeper⟩

theorem Counted.inner_balanced (vocabulary : Vocabulary ν) {fuel level : Nat}
    (le : level ≤ vocabulary.nestingLimit) (enough : vocabulary.nestingLimit ≤ level + fuel) :
    Counted.Balanced (Counted.inner vocabulary fuel) vocabulary level := by
  have deeper (below : level < vocabulary.nestingLimit) :
      (Counted.inner vocabulary fuel).Counts vocabulary (level + 1) :=
    Counted.inner_counts vocabulary below (by omega)
  have formulas := CountsAt.readFormula le deeper
  exact {
    group := CountsAt.readGroup le fun below => (deeper below).formula
    call := CountsAt.readCall le deeper
    operand := CountsAt.readOperand le deeper
    chain := CountsAt.readChain le deeper
    formula := formulas
    conditionGroup := CountsAt.readGroup le fun below => (deeper below).condition
    comparison := CountsAt.readComparison formulas
    connective := CountsAt.readConnective le deeper
    condition := CountsAt.readCondition le deeper }

end NumericRules.Grammar
