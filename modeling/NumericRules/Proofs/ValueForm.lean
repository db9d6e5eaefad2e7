import NumericRules.Evaluation
import NumericRules.Proofs.Rereading

/-! # Value forms read back

The value form of a tree is the text of the tree with its names replaced by the
numbers they read. It reads back to that tree, but for minuses before numbers.
-/

namespace NumericRules

open Grammar

/-! ## Names replaced by numbers -/

section Valued

variable [Monad m] (read : ν → m Binary64)

mutual
/-- The formula with every name replaced by the number it reads. The names are read
in the order of the text. -/
def Formula.valued : Formula ν → m (Formula ν)
  | .constant value => pure (.constant value)
  | .name reference => do
      let value ← read reference
      pure (.constant value)
  | .binary left operator right => do
      let left ← left.valued
      let right ← right.valued
      pure (.binary left operator right)
  | .negate inner => do
      let inner ← inner.valued
      pure (.negate inner)
  | .call function arguments => do
      let arguments ← Formula.valuedAll arguments
      pure (.call function arguments)
  | .choose test whenTrue whenFalse => do
      let test ← test.valued
      let whenTrue ← whenTrue.valued
      let whenFalse ← whenFalse.valued
      pure (.choose test whenTrue whenFalse)

def Formula.valuedAll : List (Formula ν) → m (List (Formula ν))
  | [] => pure []
  | head :: tail => do
      let head ← head.valued
      let tail ← Formula.valuedAll tail
      pure (head :: tail)

def Condition.valued : Condition ν → m (Condition ν)
  | .literal value => pure (.literal value)
  | .compare left comparison right => do
      let left ← left.valued
      let right ← right.valued
      pure (.compare left comparison right)
  | .connect left connective right => do
      let left ← left.valued
      let right ← right.valued
      pure (.connect left connective right)
end

variable [LawfulMonad m] [Named ν]

mutual
/-- The value form is the text of the tree with numbers for names. -/
theorem Formula.valueForm_eq : (formula : Formula ν) →
    formula.valueForm read = Formula.written <$> formula.valued read
  | .constant _ => by simp [Formula.valueForm, Formula.valued, Formula.written]
  | .name _ => by simp [Formula.valueForm, Formula.valued, Formula.written]
  | .binary left _ right => by
      simp [Formula.valueForm, Formula.valued, Formula.written, left.valueForm_eq,
        right.valueForm_eq]
  | .negate inner => by
      simp [Formula.valueForm, Formula.valued, Formula.written, inner.valueForm_eq]
  | .call _ arguments => by
      simp [Formula.valueForm, Formula.valued, Formula.written,
        Formula.valueFormAll_eq arguments]
  | .choose test whenTrue whenFalse => by
      simp [Formula.valueForm, Formula.valued, Formula.written, test.valueForm_eq,
        whenTrue.valueForm_eq, whenFalse.valueForm_eq]

theorem Formula.valueFormAll_eq : (formulas : List (Formula ν)) →
    Formula.valueFormAll read formulas = Formula.writtenAll <$> Formula.valuedAll read formulas
  | [] => by simp [Formula.valueFormAll, Formula.valuedAll, Formula.writtenAll]
  | head :: tail => by
      simp [Formula.valueFormAll, Formula.valuedAll, Formula.writtenAll, head.valueForm_eq,
        Formula.valueFormAll_eq tail]

theorem Condition.valueForm_eq : (condition : Condition ν) →
    condition.valueForm read = Condition.written <$> condition.valued read
  | .literal _ => by simp [Condition.valueForm, Condition.valued, Condition.written]
  | .compare left _ right => by
      simp [Condition.valueForm, Condition.valued, Condition.written, left.valueForm_eq,
        right.valueForm_eq]
  | .connect left _ right => by
      simp [Condition.valueForm, Condition.valued, Condition.written, left.valueForm_eq,
        right.valueForm_eq]
end

end Valued

/-! ## Runs -/

/-- From every state of a kind the run ends in such a state with such a result. -/
def Run.Yields (holds : World σ → Prop) (run : Run σ α) (expected : α → Prop) : Prop :=
  ∀ world, holds world → ∃ result after,
    run world = some (result, after) ∧ expected result ∧ holds after

namespace Run.Yields

variable {holds : World σ → Prop}

theorem pure {expected : α → Prop} {result : α} (isExpected : expected result) :
    Run.Yields holds (Pure.pure result) expected :=
  fun world start => ⟨result, world, rfl, isExpected, start⟩

theorem bind {run : Run σ α} {next : α → Run σ β} {between : α → Prop} {expected : β → Prop}
    (first : run.Yields holds between)
    (second : ∀ result, between result → (next result).Yields holds expected) :
    Run.Yields holds (run >>= next) expected := by
  intro world start
  rcases first world start with ⟨result, middle, ran, isBetween, holdsBetween⟩
  rcases second result isBetween middle holdsBetween with ⟨final, after, ranNext, isExpected, ends⟩
  refine ⟨final, after, ?_, isExpected, ends⟩
  change (run world).bind _ = _
  rw [ran]
  exact ranNext

end Run.Yields

section Runs

variable {holds : World σ → Prop} {read : ν → Run σ Binary64} {wanted : Demands ν}

/-- The demands without any on names. -/
def Demands.nameless (demands : Demands ν) : Demands ν := { demands with name := fun _ => True }

mutual
/-- If every name reads a number that meets the demands, the tree of numbers meets
them. -/
theorem Formula.valued_yields : (formula : Formula ν) → formula.Meets wanted.nameless →
    (∀ reference ∈ formula.references, (read reference).Yields holds wanted.number) →
    (formula.valued read).Yields holds (Formula.Meets wanted)
  | .constant _, meets, _ => .pure meets
  | .name reference, _, reads =>
      (reads reference (List.mem_singleton.mpr rfl)).bind fun _ number => .pure number
  | .binary left _ right, meets, reads => by
      have ofLeft := left.valued_yields meets.1 fun reference inside =>
        reads reference (List.mem_append_left _ inside)
      have ofRight := right.valued_yields meets.2 fun reference inside =>
        reads reference (List.mem_append_right _ inside)
      exact ofLeft.bind fun _ first => ofRight.bind fun _ second => .pure ⟨first, second⟩
  | .negate inner, meets, reads =>
      (inner.valued_yields meets reads).bind fun _ ofInner => .pure ofInner
  | .call _ arguments, meets, reads => by
      apply (Formula.valuedAll_yields arguments meets.2 reads).bind
      rintro trees ⟨all, count⟩
      refine .pure ⟨?_, all⟩
      rw [count]
      exact meets.1
  | .choose test whenTrue whenFalse, meets, reads => by
      have ofTest := test.valued_yields meets.2.1 fun reference inside =>
        reads reference (List.mem_append_left _ inside)
      have ofTrue := whenTrue.valued_yields meets.2.2.1 fun reference inside =>
        reads reference (List.mem_append_right _ (List.mem_append_left _ inside))
      have ofFalse := whenFalse.valued_yields meets.2.2.2 fun reference inside =>
        reads reference (List.mem_append_right _ (List.mem_append_right _ inside))
      exact ofTest.bind fun _ first => ofTrue.bind fun _ second =>
        ofFalse.bind fun _ third => .pure ⟨meets.1, first, second, third⟩

theorem Formula.valuedAll_yields : (formulas : List (Formula ν)) →
    Formula.MeetAll wanted.nameless formulas →
    (∀ reference ∈ Formula.referencesAll formulas, (read reference).Yields holds wanted.number) →
    (Formula.valuedAll read formulas).Yields holds fun trees =>
      Formula.MeetAll wanted trees ∧ trees.length = formulas.length
  | [], _, _ => .pure ⟨trivial, rfl⟩
  | head :: tail, meets, reads => by
      have ofHead := head.valued_yields meets.1 fun reference inside =>
        reads reference (List.mem_append_left _ inside)
      have ofTail := Formula.valuedAll_yields tail meets.2 fun reference inside =>
        reads reference (List.mem_append_right _ inside)
      exact ofHead.bind fun _ first => ofTail.bind fun _ rest =>
        .pure ⟨⟨first, rest.1⟩, congrArg (· + 1) rest.2⟩

theorem Condition.valued_yields : (condition : Condition ν) → condition.Meets wanted.nameless →
    (∀ reference ∈ condition.references, (read reference).Yields holds wanted.number) →
    (condition.valued read).Yields holds (Condition.Meets wanted)
  | .literal _, _, _ => .pure trivial
  | .compare left _ right, meets, reads | .connect left _ right, meets, reads => by
      have ofLeft := left.valued_yields meets.1 fun reference inside =>
        reads reference (List.mem_append_left _ inside)
      have ofRight := right.valued_yields meets.2 fun reference inside =>
        reads reference (List.mem_append_right _ inside)
      exact ofLeft.bind fun _ first => ofRight.bind fun _ second => .pure ⟨first, second⟩
end

end Runs

/-! ## Reading value forms -/

/-- Functions are made of letters, digits and underscores, and numbers are finite. -/
def Demands.plainFunctions : Demands ν where
  number value := value.isFinite = true
  name _ := True
  call function _ := function.toList.all isWordCharacter = true
  choose := True

theorem Demands.plainFunctions_writable [Named ν] (vocabulary : Vocabulary ν) :
    Demands.plainFunctions.Imply (.known vocabulary) (Demands.writable vocabulary).nameless where
  number finite _ := finite
  name _ _ := trivial
  call characters known :=
    ⟨IsWord.of_not_isNumeric characters known.1.1 known.1.2, known.2⟩
  choose _ known := known

namespace Engine

section ValueForms

variable {engine : Engine σ} (reachable : engine.functions.Reachable)
  (comma : engine.settings.argumentSeparator = ',')
  {read : Reference → Run σ Binary64} {holds : World σ → Prop}

include reachable comma

theorem valueForm_of_readFormula {text : String} {tree : Formula Reference}
    (accepted : engine.readFormula text = .ok tree) (plain : tree.Meets .plainFunctions)
    (reads : ∀ reference ∈ tree.references, (read reference).Yields holds (·.isFinite = true))
    {world : World σ} (start : holds world) :
    ∃ valued form after, tree.valued read world = some (valued, after) ∧
      tree.valueForm read world = some (form, after) ∧
      ∀ bytes depth, (engine.withLimits bytes depth).Allows form →
        (engine.withLimits bytes depth).readFormula (String.ofList form) =
          .ok valued.foldSigns := by
  have given := tree.meets_of_imply (Demands.plainFunctions_writable _) plain
    (known_of_readFormula reachable accepted)
  rcases tree.valued_yields given reads world start with ⟨valued, after, ran, writable, _⟩
  refine ⟨valued, valued.written, after, ran, ?_, ?_⟩
  · rw [Formula.valueForm_eq]
    change (tree.valued read world).bind _ = _
    rw [ran]
    rfl
  · intro bytes depth allowed
    exact (engine.withLimits bytes depth).readFormula_written comma writable allowed

theorem valueForm_of_readCondition {text : String} {tree : Condition Reference}
    (accepted : engine.readCondition text = .ok tree) (plain : tree.Meets .plainFunctions)
    (reads : ∀ reference ∈ tree.references, (read reference).Yields holds (·.isFinite = true))
    {world : World σ} (start : holds world) :
    ∃ valued form after, tree.valued read world = some (valued, after) ∧
      tree.valueForm read world = some (form, after) ∧
      ∀ bytes depth, (engine.withLimits bytes depth).Allows form →
        (engine.withLimits bytes depth).readCondition (String.ofList form) =
          .ok valued.foldSigns := by
  have given := tree.meets_of_imply (Demands.plainFunctions_writable _) plain
    (known_of_readCondition reachable accepted)
  rcases tree.valued_yields given reads world start with ⟨valued, after, ran, writable, _⟩
  refine ⟨valued, valued.written, after, ran, ?_, ?_⟩
  · rw [Condition.valueForm_eq]
    change (tree.valued read world).bind _ = _
    rw [ran]
    rfl
  · intro bytes depth allowed
    exact (engine.withLimits bytes depth).readCondition_written comma writable allowed

end ValueForms

/-- Where every name reads a finite number, the value form of a formula or condition
that was read is read again by an engine whose limits allow it, and the result is the
tree with numbers for names, but for minuses before numbers. -/
theorem valueForm_rereads (engine : Engine σ) (reachable : engine.functions.Reachable)
    (comma : engine.settings.argumentSeparator = ',') (read : Reference → Run σ Binary64)
    (holds : World σ → Prop) :
    (∀ text tree, engine.readFormula text = .ok tree → tree.Meets .plainFunctions →
      (∀ reference ∈ tree.references, (read reference).Yields holds (·.isFinite = true)) →
      ∀ world, holds world → ∃ valued form after,
        tree.valued read world = some (valued, after) ∧
        tree.valueForm read world = some (form, after) ∧
        ∀ bytes depth, (engine.withLimits bytes depth).Allows form →
          (engine.withLimits bytes depth).readFormula (String.ofList form) =
            .ok valued.foldSigns) ∧
    (∀ text tree, engine.readCondition text = .ok tree → tree.Meets .plainFunctions →
      (∀ reference ∈ tree.references, (read reference).Yields holds (·.isFinite = true)) →
      ∀ world, holds world → ∃ valued form after,
        tree.valued read world = some (valued, after) ∧
        tree.valueForm read world = some (form, after) ∧
        ∀ bytes depth, (engine.withLimits bytes depth).Allows form →
          (engine.withLimits bytes depth).readCondition (String.ofList form) =
            .ok valued.foldSigns) :=
  ⟨fun _ _ accepted plain reads _ start =>
      valueForm_of_readFormula reachable comma accepted plain reads start,
    fun _ _ accepted plain reads _ start =>
      valueForm_of_readCondition reachable comma accepted plain reads start⟩

/-! ### A value form -/

/-- An engine with one name and the built-in functions. -/
def measuring : Engine Nat := { choosing with functions := Function.builtins }

/-- Minuses before a name, a number and a negative number. -/
def minuses : String := "If(-x > 1, Min(-(-3), -(4)), -(-x))"

def minusesTree : Formula Reference :=
  let x : Formula Reference := .name ⟨⟨0x1000001, Nat.one_ne_zero⟩, "x"⟩
  .choose (.compare (.negate x) .greater (.constant ⟨0x3ff0000000000000⟩))
    (.call "Min"
      [.negate (.constant ⟨0xc008000000000000⟩), .negate (.constant ⟨0x4010000000000000⟩)])
    (.negate (.negate x))

/-- Every name reads -2. -/
def minusTwo (_ : Reference) : Run Nat Binary64 := pure ⟨0xc000000000000000⟩

theorem valueForm_rereads_minuses :
    measuring.functions.Reachable ∧ measuring.settings.argumentSeparator = ',' ∧
    measuring.readFormula minuses = .ok minusesTree ∧ minusesTree.Meets .plainFunctions ∧
    (∀ reference ∈ minusesTree.references,
      (minusTwo reference).Yields (fun _ => True) (·.isFinite = true)) ∧
    ∃ valued form after,
      minusesTree.valued minusTwo (measuring.start 0 (.ofSeed 0)) = some (valued, after) ∧
      minusesTree.valueForm minusTwo (measuring.start 0 (.ofSeed 0)) = some (form, after) ∧
      ∀ bytes depth, (measuring.withLimits bytes depth).Allows form →
        (measuring.withLimits bytes depth).readFormula (String.ofList form) =
          .ok valued.foldSigns := by
  have accepted : measuring.readFormula minuses = .ok minusesTree := rfl
  have plain : minusesTree.Meets .plainFunctions := by
    refine ⟨trivial, ⟨trivial, ?_⟩, ⟨?_, ?_, ?_, trivial⟩, trivial⟩
    all_goals change _ = true
    all_goals decide
  have reads : ∀ reference ∈ minusesTree.references,
      (minusTwo reference).Yields (fun _ => True) (·.isFinite = true) :=
    fun _ _ => .pure (by decide)
  have rereads := valueForm_rereads measuring .builtins rfl minusTwo fun _ => True
  exact ⟨.builtins, rfl, accepted, plain, reads, rereads.1 minuses minusesTree accepted plain reads
    (measuring.start 0 (.ofSeed 0)) trivial⟩

end Engine

end NumericRules
