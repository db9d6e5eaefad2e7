import NumericRules.Function.Library
import NumericRules.Grammar.Statement
import NumericRules.Proofs.Grammar.Soundness
import NumericRules.Proofs.Grammar.StepReading
import NumericRules.Proofs.Grammar.Written

/-! # What a reading knows of its tree

Every name of a tree that was read is known by its text, and every call has a
number of arguments that its function accepts.
-/

namespace NumericRules

open Grammar

/-! ## Vocabularies -/

/-- Names are known by the text they are written as, and only one function
chooses. -/
structure Grammar.Vocabulary.Faithful [Named ν] (vocabulary : Vocabulary ν) : Prop where
  named : ∀ {name reference}, vocabulary.resolve? name = some reference →
    Named.name reference = name
  chooses : ∀ {name}, vocabulary.signature? name = some .choose → name = chooseName

/-- The function tables that programs have. -/
inductive FunctionTable.Reachable : FunctionTable σ → Prop
  | builtins : Reachable Function.builtins
  | register {table next : FunctionTable σ} {name : String} {arity : Nat} {plan : Plan σ} :
      Reachable table → table.register name arity plan = .ok next → Reachable next

/-- Only the conditional function chooses. -/
theorem FunctionTable.Reachable.chooses {table : FunctionTable σ} (reachable : table.Reachable)
    {name : String} (signature : table.signature? name = some .choose) : name = chooseName := by
  have entry : ∀ entry ∈ table.entries, entry.2 = .choose → entry.1 = chooseName := by
    clear signature
    induction reachable with
    | builtins =>
        intro entry inside choose
        simp only [Function.builtins, List.mem_append, List.mem_cons, List.not_mem_nil, or_false,
          List.mem_map] at inside
        rcases inside with ((rfl | rfl | rfl) | ⟨unary, _, rfl⟩) | ⟨binary, _, rfl⟩
        · rfl
        all_goals cases choose
    | @register table next name arity plan _ registered induction =>
        unfold FunctionTable.register at registered
        split at registered
        · cases registered
        · split at registered
          · cases registered
          · cases registered
            intro entry inside choose
            rcases List.mem_append.mp inside with old | new
            · exact induction entry old choose
            · rw [List.mem_singleton.mp new] at choose
              cases choose
  rcases Option.map_eq_some_iff.mp signature with ⟨kind, found, isChoose⟩
  rcases List.lookup_eq_some_iff.mp found with ⟨before, after, entries, _⟩
  cases kind with
  | choose =>
      apply entry (name, .choose) _ rfl
      rw [entries]
      exact List.mem_append_right before (List.mem_cons_self ..)
  | native overloads => cases isChoose

/-! ## Trees -/

section Trees

theorem meets_negateIf {demands : Demands ν} {negative : Bool} {formula : Formula ν} :
    (negateIf negative formula).Meets demands ↔ formula.Meets demands := by
  cases negative <;> rfl

def Grammar.Category.Meets (demands : Demands ν) : (category : Category) → category.Tree ν → Prop
  | .sum, tree | .product, tree | .term, tree | .atom _, tree => Formula.Meets demands tree
  | .arguments, trees => Formula.MeetAll demands trees
  | .condition, tree | .clause, tree => Condition.Meets demands tree

variable [Named ν]

/-- Names and functions are not numerals, and a call has a number of arguments that
its function accepts. -/
def Demands.known (vocabulary : Vocabulary ν) : Demands ν where
  number _ := True
  name reference :=
    ((Named.name reference).toList ≠ [] ∧ isNumeric (Named.name reference).toList = false) ∧
      vocabulary.resolve? (Named.name reference) = some reference
  call function count :=
    (function.toList ≠ [] ∧ isNumeric function.toList = false) ∧
      ∃ accepted, vocabulary.signature? function = some (.native accepted) ∧
        accepted.contains count = true
  choose := vocabulary.signature? chooseName = some .choose

/-- What is derived is known. -/
theorem Grammar.Derives.known {vocabulary : Vocabulary ν} (faithful : vocabulary.Faithful)
    {category : Category} {text : List Char} {tree : category.Tree ν}
    (derivation : Derives vocabulary (.read vocabulary) category text tree) :
    category.Meets (.known vocabulary) tree := by
  induction derivation with
  | product _ induction | term _ induction => exact induction
  | sum _ _ _ leftInduction rightInduction | factor _ _ _ leftInduction rightInduction =>
      exact ⟨leftInduction, rightInduction⟩
  | atom _ _ _ induction => exact induction
  | number _ _ => trivial
  | @name text _ reference word known =>
      have isName : (Named.name reference).toList = text := by
        rw [faithful.named known, String.toList_ofList]
      have sameName : Named.name reference = String.ofList text := faithful.named known
      apply meets_negateIf.mpr
      refine ⟨?_, ?_⟩
      · rw [isName]
        exact word.1.2
      · rwa [sameName]
  | group _ induction => exact meets_negateIf.mpr induction
  | call word known _ count induction =>
      apply meets_negateIf.mpr
      refine ⟨⟨?_, _, known, count⟩, induction⟩
      rw [String.toList_ofList]
      exact word.1.2
  | choose _ known _ _ _ testInduction firstInduction secondInduction =>
      rw [faithful.chooses known] at known
      exact meets_negateIf.mpr ⟨known, testInduction, firstInduction, secondInduction⟩
  | noArgument _ => trivial
  | argument _ induction => exact ⟨induction, trivial⟩
  | arguments _ _ firstInduction restInduction => exact ⟨firstInduction, restInduction⟩
  | clause _ induction => exact induction
  | connect _ _ leftInduction rightInduction | compare _ _ leftInduction rightInduction =>
      exact ⟨leftInduction, rightInduction⟩
  | conditionGroup _ _ _ induction => exact induction
  | literal _ _ _ => trivial

/-! ## Statements -/

/-- A target has a name, and a return stands only where it is a statement. -/
def Step.Known (vocabulary : Vocabulary ν) (allowReturn : Bool) : Step ν → Prop
  | .assign assignment =>
      ((Named.name assignment.target).toList ≠ [] ∧
        vocabulary.resolve? (Named.name assignment.target) = some assignment.target) ∧
      assignment.value.Meets (.known vocabulary)
  | .return none value => allowReturn = true ∧ value.Meets (.known vocabulary)
  | .return (some test) value =>
      allowReturn = true ∧ test.Meets (.known vocabulary) ∧ value.Meets (.known vocabulary)

section Statements

variable {vocabulary : Vocabulary ν} (faithful : vocabulary.Faithful)

include faithful

theorem known_of_wholeFormula {cursor : Cursor} {formula : Formula ν}
    (read : wholeFormula vocabulary cursor = .ok formula) : formula.Meets (.known vocabulary) :=
  ((formula_condition_reads vocabulary _).1.whole read).known faithful

theorem known_of_wholeCondition {cursor : Cursor} {condition : Condition ν}
    (read : wholeCondition vocabulary cursor = .ok condition) :
    condition.Meets (.known vocabulary) :=
  ((formula_condition_reads vocabulary _).2.whole read).known faithful

theorem Grammar.StepRead.known {allowReturn : Bool} {step : Step ν}
    (read : StepRead vocabulary allowReturn step) : step.Known vocabulary allowReturn := by
  cases read with
  | assign nonempty resolved readValue =>
      have sameName := faithful.named resolved
      refine ⟨⟨?_, ?_⟩, known_of_wholeFormula faithful readValue⟩
      · rwa [sameName, String.toList_ofList]
      · rwa [sameName]
  | returns allowed readValue => exact ⟨allowed, known_of_wholeFormula faithful readValue⟩
  | returnsIf allowed readTest readValue =>
      exact ⟨allowed, known_of_wholeCondition faithful readTest,
        known_of_wholeFormula faithful readValue⟩

/-- Operations are assignments of known names, at least one. -/
theorem known_of_wholeOperations {text : List Char} {assignments : List (Assignment ν)}
    (read : wholeOperations vocabulary text = .ok assignments) :
    assignments ≠ [] ∧ ∀ assignment ∈ assignments,
      (Step.assign assignment).Known vocabulary false := by
  rcases stepRead_of_wholeOperations read with ⟨nonempty, read⟩
  exact ⟨nonempty, fun assignment inside => (read assignment inside).known faithful⟩

theorem known_of_wholeProcess {text : List Char} {steps : List (Step ν)}
    (read : wholeProcess vocabulary text = .ok steps) :
    steps ≠ [] ∧ ∀ step ∈ steps, step.Known vocabulary true := by
  rcases stepRead_of_wholeProcess read with ⟨nonempty, read⟩
  exact ⟨nonempty, fun step inside => (read step inside).known faithful⟩

end Statements

/-! ## Words -/

/-- Characters of words that are not all digits make a word. -/
theorem Grammar.IsWord.of_not_isNumeric {text : List Char}
    (characters : text.all isWordCharacter = true) (nonempty : text ≠ [])
    (notNumeric : isNumeric text = false) : IsWord text := by
  refine ⟨characters, Bool.eq_false_iff.mpr fun digits => ?_⟩
  have numeric : isNumeric text = true := by
    apply (isNumeric_iff text).mpr
    refine ⟨nonempty, fun character inside => ?_⟩
    exact .inl (List.all_eq_true.mp digits character inside)
  rw [notNumeric] at numeric
  cases numeric

/-- Names and functions are made of letters, digits and underscores, and numbers are
finite. -/
def Demands.plain : Demands ν where
  number value := value.isFinite = true
  name reference := (Named.name reference).toList.all isWordCharacter = true
  call function _ := function.toList.all isWordCharacter = true
  choose := True

/-- Trees that were read are writable if their names and functions are made of word
characters. -/
theorem Demands.plain_writable (vocabulary : Vocabulary ν) :
    Demands.plain.Imply (.known vocabulary) (.writable vocabulary) where
  number finite _ := finite
  name characters known :=
    ⟨IsWord.of_not_isNumeric characters known.1.1 known.1.2, known.2⟩
  call characters known :=
    ⟨IsWord.of_not_isNumeric characters known.1.1 known.1.2, known.2⟩
  choose _ known := known

end Trees

end NumericRules
