import NumericRules.Proofs.Grammar.StatementLists
import NumericRules.Proofs.Rereading
import NumericRules.Proofs.ValueForm

/-! # Texts of several lines

Operations and processes are accepted line by line as they are accepted each on its own: the
text of two has the statements of the first and then those of the second. The scan for the
end of the first text's last value has to take every bracket for closed.
-/

namespace NumericRules

open Grammar Text

/-! ## Names of statements -/

/-- The statements of operations. -/
def OperationRule.statements (operations : OperationRule) : List (Step Reference) :=
  operations.assignments.map .assign

/-- The steps of a process with names for slots. -/
def ProcessRule.statements (process : ProcessRule) : List (Step String) :=
  process.steps.map (Step.map Slot.name)

/-- The names of a process are those it was read with. -/
theorem ProcessRule.statements_ofSteps (id : RuleId) (separator : Char)
    (identifier? : String → Option Identifier) (steps : List (Step String)) :
    (ofSteps id separator identifier? steps).statements = steps := by
  have same (step : Step String) :
      (step.map (slotOf (slotNames steps))).map Slot.name = step := by
    rw [Step.map_map]
    exact step.map_id
  simp [ProcessRule.statements, ofSteps, Function.comp_def, same]

namespace Engine

/-- Whether the first code of the text is the separator of arguments. -/
def beginsApart (engine : Engine σ) (text : String) : Bool :=
  firstCode? engine.settings.stepSeparator text.toList ≠ some engine.settings.argumentSeparator

def leavesOperationsOpen (engine : Engine σ) (text : String) : Bool :=
  leavesOpen (engine.vocabulary engine.reference?) false text.toList

def leavesProcessOpen (engine : Engine σ) (text : String) : Bool :=
  leavesOpen (engine.vocabulary some) true text.toList

theorem wordNamed_reference (engine : Engine σ) {reference : Reference}
    (word : reference.name.toList.all isWordCharacter = true) :
    (engine.vocabulary engine.reference?).WordNamed reference := by
  intro name known
  rcases Option.map_eq_some_iff.mp known with ⟨id, _, rfl⟩
  rwa [String.toList_ofList] at word

theorem wordNamed_name (engine : Engine σ) {reference : String}
    (word : reference.toList.all isWordCharacter = true) :
    (engine.vocabulary some).WordNamed reference := by
  intro name known
  cases known
  rwa [String.toList_ofList] at word

theorem noOperator_of_separates {engine : Engine σ}
    (separates : engine.settings.stepSeparator = ' ' ∨ engine.settings.stepSeparator = ';')
    (other : engine.settings.argumentSeparator ≠ engine.settings.stepSeparator) :
    NoOperator engine.settings.stepSeparator engine.settings.argumentSeparator := by
  rcases separates with space | semicolon
  · rw [space]
    exact .inl (by decide)
  · rw [semicolon] at other ⊢
    exact .inr ⟨by decide, by simp [continuesValue, other.symm]⟩

/-! ## Two texts -/

/-- The statements of two texts that are accepted, with only words for names, are those of
one text with a line end between them. It is refused if the first text `opens` the second,
unless one separator separates statements and arguments. -/
def JoinsLines (engine : Engine σ) (parse : Engine σ → String → Run σ (Except Error ρ))
    (statements : ρ → List (Step ν)) (name : ν → String) (opens : String → Bool)
    (first second : String) : Prop :=
  ∀ firstStart one firstNext, parse engine first firstStart = some (.ok one, firstNext) →
    ∀ secondStart two secondNext, parse engine second secondStart = some (.ok two, secondNext) →
      (∀ step ∈ statements one ++ statements two, ∀ reference ∈ step.mentions,
        (name reference).toList.all isWordCharacter = true) →
      ∀ world, ∃ outcome after,
        parse engine (first ++ "\n" ++ second) world = some (outcome, after) ∧
        (opens first = false →
          ∃ rule, outcome = .ok rule ∧ statements rule = statements one ++ statements two) ∧
        (opens first = true →
          engine.settings.argumentSeparator ≠ engine.settings.stepSeparator →
          ∃ error, outcome = .error error)

variable {engine : Engine σ} {first second : String}

theorem toList_lines (first second : String) :
    (first ++ "\n" ++ second).toList = first.toList ++ '\n' :: second.toList := by simp

section Lines

variable (separates : engine.settings.stepSeparator = ' ' ∨ engine.settings.stepSeparator = ';')
  (size : (first ++ "\n" ++ second).utf8ByteSize ≤ engine.settings.maxSourceBytes)
  (apart : engine.beginsApart second = true)

include separates size apart

theorem joinsLines_operations :
    engine.JoinsLines parseOperations OperationRule.statements Reference.name
      engine.leavesOperationsOpen first second := by
  intro firstStart one firstNext parsedFirst secondStart two secondNext parsedSecond words world
  rcases ok_of_numbered parsedFirst with ⟨ofFirst, readFirst, rfl⟩
  rcases ok_of_numbered parsedSecond with ⟨ofSecond, readSecond, rfl⟩
  have named : ∀ assignment ∈ ofFirst ++ ofSecond, ∀ reference ∈ assignment.mentions,
      (engine.vocabulary engine.reference?).WordNamed reference := by
    intro assignment inside reference mentioned
    apply wordNamed_reference
    refine words (.assign assignment) ?_ reference mentioned
    rw [OperationRule.statements, OperationRule.statements, ← List.map_append]
    exact List.mem_map_of_mem inside
  have begins : firstCode? (engine.vocabulary engine.reference?).stepSeparator second.toList ≠
      some (engine.vocabulary engine.reference?).argumentSeparator := of_decide_eq_true apart
  have lines := wholeOperations_lines begins
    (fun assignment inside => named assignment (List.mem_append_left _ inside))
    (fun assignment inside => named assignment (List.mem_append_right _ inside))
    (parse_of_readText readFirst) (parse_of_readText readSecond)
  rw [← toList_lines] at lines
  have read : (engine.leavesOperationsOpen first = false →
        engine.readOperations (first ++ "\n" ++ second) = .ok (ofFirst ++ ofSecond)) ∧
      (engine.leavesOperationsOpen first = true ∧
          engine.settings.argumentSeparator ≠ engine.settings.stepSeparator →
        ∃ error, engine.readOperations (first ++ "\n" ++ second) = .error error) :=
    readText_outcome size lines.1 fun both =>
      lines.2 both.1 (noOperator_of_separates separates both.2)
  rcases numbered_outcome read.1 read.2
    (fun id assignments => OperationRule.mk id assignments engine.settings.stepSeparator) world with
    ⟨outcome, after, ran, accepted, refused⟩
  exact ⟨outcome, after, ran,
    fun closed => ⟨_, accepted closed, List.map_append⟩,
    fun isOpen other => refused ⟨isOpen, other⟩⟩

theorem joinsLines_process :
    engine.JoinsLines parseProcess ProcessRule.statements id engine.leavesProcessOpen first
      second := by
  intro firstStart one firstNext parsedFirst secondStart two secondNext parsedSecond words world
  rcases ok_of_numbered parsedFirst with ⟨ofFirst, readFirst, rfl⟩
  rcases ok_of_numbered parsedSecond with ⟨ofSecond, readSecond, rfl⟩
  rw [ProcessRule.statements_ofSteps, ProcessRule.statements_ofSteps] at words ⊢
  have named : ∀ step ∈ ofFirst ++ ofSecond, ∀ reference ∈ step.mentions,
      (engine.vocabulary some).WordNamed reference := fun step inside reference mentioned =>
    engine.wordNamed_name (words step inside reference mentioned)
  have begins : firstCode? (engine.vocabulary some).stepSeparator second.toList ≠
      some (engine.vocabulary some).argumentSeparator := of_decide_eq_true apart
  have lines := wholeProcess_lines begins
    (fun step inside => named step (List.mem_append_left _ inside))
    (fun step inside => named step (List.mem_append_right _ inside))
    (parse_of_readText readFirst) (parse_of_readText readSecond)
  rw [← toList_lines] at lines
  have read : (engine.leavesProcessOpen first = false →
        engine.readSteps (first ++ "\n" ++ second) = .ok (ofFirst ++ ofSecond)) ∧
      (engine.leavesProcessOpen first = true ∧
          engine.settings.argumentSeparator ≠ engine.settings.stepSeparator →
        ∃ error, engine.readSteps (first ++ "\n" ++ second) = .error error) :=
    readText_outcome size lines.1 fun both =>
      lines.2 both.1 (noOperator_of_separates separates both.2)
  rcases numbered_outcome read.1 read.2
    (fun id => ProcessRule.ofSteps id engine.settings.stepSeparator engine.registry.identifier?)
    world with ⟨outcome, after, ran, accepted, refused⟩
  exact ⟨outcome, after, ran,
    fun closed => ⟨_, accepted closed, ProcessRule.statements_ofSteps ..⟩,
    fun isOpen other => refused ⟨isOpen, other⟩⟩

end Lines

/-- Two texts of operations, or of a process, are accepted as the lines of one text, with the
statements of the first followed by those of the second. This holds where the scan for the
end of the first text's last value takes every bracket for closed, which comments in calls
can prevent, and where the second text does not begin with the separator of arguments. -/
theorem statements_joinLines (engine : Engine σ)
    (separates : engine.settings.stepSeparator = ' ' ∨ engine.settings.stepSeparator = ';')
    (first second : String)
    (size : (first ++ "\n" ++ second).utf8ByteSize ≤ engine.settings.maxSourceBytes)
    (apart : engine.beginsApart second = true) :
    engine.JoinsLines parseOperations OperationRule.statements Reference.name
      engine.leavesOperationsOpen first second ∧
    engine.JoinsLines parseProcess ProcessRule.statements id engine.leavesProcessOpen first
      second :=
  ⟨joinsLines_operations separates size apart, joinsLines_process separates size apart⟩

/-! ### Lines that are joined and a comment that keeps them apart -/

/-- A value that goes on behind a comment and has another comment behind it. -/
def earlierLine : String := "x = Max(1, 2) + // and\n 3 // (so far"

def laterLine : String := "// again\nx += Sin(x)"

/-- The start of a run. -/
def measuringStart : World Nat := measuring.start 0 (.ofSeed 0)

theorem statements_joinLines_accepted :
    (measuring.settings.stepSeparator = ' ' ∨ measuring.settings.stepSeparator = ';') ∧
    (earlierLine ++ "\n" ++ laterLine).utf8ByteSize ≤ measuring.settings.maxSourceBytes ∧
    measuring.beginsApart laterLine = true ∧
    (∃ one two rule firstNext secondNext after,
      measuring.parseOperations earlierLine measuringStart = some (.ok one, firstNext) ∧
      measuring.parseOperations laterLine measuringStart = some (.ok two, secondNext) ∧
      measuring.leavesOperationsOpen earlierLine = false ∧
      measuring.parseOperations (earlierLine ++ "\n" ++ laterLine) measuringStart =
        some (.ok rule, after) ∧ rule.statements = one.statements ++ two.statements) ∧
    ∃ one two process firstNext secondNext after,
      measuring.parseProcess earlierLine measuringStart = some (.ok one, firstNext) ∧
      measuring.parseProcess laterLine measuringStart = some (.ok two, secondNext) ∧
      measuring.leavesProcessOpen earlierLine = false ∧
      measuring.parseProcess (earlierLine ++ "\n" ++ laterLine) measuringStart =
        some (.ok process, after) ∧ process.statements = one.statements ++ two.statements := by
  have size : (earlierLine ++ "\n" ++ laterLine).utf8ByteSize ≤
      measuring.settings.maxSourceBytes := by decide
  have apart : measuring.beginsApart laterLine = true := by decide +kernel
  have closed : measuring.leavesOperationsOpen earlierLine = false ∧
      measuring.leavesProcessOpen earlierLine = false := by decide +kernel
  rcases statements_joinLines measuring (.inl rfl) earlierLine laterLine size apart with
    ⟨operations, process⟩
  have operationsRead : ∃ one firstNext two secondNext,
      measuring.parseOperations earlierLine measuringStart = some (.ok one, firstNext) ∧
      measuring.parseOperations laterLine measuringStart = some (.ok two, secondNext) ∧
      ∀ step ∈ one.statements ++ two.statements, ∀ reference ∈ step.mentions,
        reference.name.toList.all isWordCharacter = true :=
    ⟨_, _, _, _, rfl, rfl, by decide +kernel⟩
  have processRead : ∃ one firstNext two secondNext,
      measuring.parseProcess earlierLine measuringStart = some (.ok one, firstNext) ∧
      measuring.parseProcess laterLine measuringStart = some (.ok two, secondNext) ∧
      ∀ step ∈ one.statements ++ two.statements, ∀ name ∈ step.mentions,
        name.toList.all isWordCharacter = true :=
    ⟨_, _, _, _, rfl, rfl, by decide +kernel⟩
  rcases operationsRead with ⟨one, firstNext, two, secondNext, readOne, readTwo, words⟩
  rcases processRead with ⟨first, firstAfter, second, secondAfter, readFirst, readSecond, names⟩
  rcases operations _ _ _ readOne _ _ _ readTwo words measuringStart with
    ⟨outcome, after, ran, accepted, _⟩
  rcases process _ _ _ readFirst _ _ _ readSecond names measuringStart with
    ⟨processOutcome, processAfter, processRan, processAccepted, _⟩
  rcases accepted closed.1 with ⟨rule, rfl, same⟩
  rcases processAccepted closed.2 with ⟨joined, rfl, sameSteps⟩
  exact ⟨.inl rfl, size, apart,
    ⟨one, two, rule, firstNext, secondNext, after, readOne, readTwo, closed.1, ran, same⟩,
    first, second, joined, firstAfter, secondAfter, processAfter, readFirst, readSecond, closed.2,
    processRan, sameSteps⟩

/-- A value whose comment has the bracket that closes a call. -/
def commentedCall : String := "x=Sin(1 // )\n+ 2"

/-- The scan for the end of the value looks for the bracket behind the comment, where the
list of arguments has ended. A line that follows is refused. -/
theorem commented_bracket_refuses_line :
    (∃ one two firstNext secondNext fault,
      measuring.parseOperations commentedCall measuringStart = some (.ok one, firstNext) ∧
      measuring.parseOperations "x=1" measuringStart = some (.ok two, secondNext) ∧
      (∀ step ∈ one.statements ++ two.statements, ∀ reference ∈ step.mentions,
        reference.name.toList.all isWordCharacter = true) ∧
      measuring.parseOperations (commentedCall ++ "\n" ++ "x=1") measuringStart =
        some (.error fault, measuringStart)) ∧
    ∃ one two firstNext secondNext fault,
      measuring.parseProcess commentedCall measuringStart = some (.ok one, firstNext) ∧
      measuring.parseProcess "x=1" measuringStart = some (.ok two, secondNext) ∧
      (∀ step ∈ one.statements ++ two.statements, ∀ name ∈ step.mentions,
        name.toList.all isWordCharacter = true) ∧
      measuring.parseProcess (commentedCall ++ "\n" ++ "x=1") measuringStart =
        some (.error fault, measuringStart) := by
  refine ⟨⟨_, _, _, _, _, rfl, rfl, ?_, rfl⟩, ⟨_, _, _, _, _, rfl, rfl, ?_, rfl⟩⟩
  · decide +kernel
  · decide +kernel

end Engine

end NumericRules
