import NumericRules.Proofs.Grammar.Completeness
import NumericRules.Proofs.ConditionReading
import NumericRules.Proofs.FormulaValue
import NumericRules.Proofs.Grammar.StatementReading
import NumericRules.Proofs.ProcessSlots

/-! # Targets of assignments as names

Statements and formulas end a name at different characters. A target is read as a name by
the formulas of its process unless it holds a character at which only formulas end names,
or is a number.
-/

namespace NumericRules

namespace Grammar

open Text

/-! ## Names in formulas -/

section Names

variable {vocabulary : Vocabulary ν} (comma : vocabulary.argumentSeparator = ',') {name : List Char}

include comma

/-- A token that is no number is read as a name. -/
theorem whole_formula_token (areToken : name.all (isTokenCharacter ',') = true)
    (nonempty : name ≠ []) (notNumeric : isNumeric name = false) {reference : ν}
    (known : vocabulary.resolve? (String.ofList name) = some reference) (budget index : Nat) :
    whole (formula vocabulary budget) ⟨index, name⟩ = .ok (.name reference) := by
  have follows : Follows [] := Closes.follows (.inl rfl)
  have atom (deeper : Option (Deeper ν)) :
      readAtom vocabulary deeper none ⟨index, signed false name ++ []⟩ =
        .ok (negateIf false (.name reference), ⟨index + (signed false name).length, []⟩) :=
    readAtom_token comma areToken nonempty notNumeric known follows
  simp only [signed, negateIf, Bool.false_eq_true, if_false, List.append_nil] at atom
  rcases List.exists_cons_of_ne_nil nonempty with ⟨first, tail, rfl⟩
  rw [List.all_cons, Bool.and_eq_true] at areToken
  have characters := areToken.1
  simp only [isTokenCharacter, endsToken, Bool.and_eq_true, Bool.not_eq_true', Bool.or_eq_false_iff,
    List.contains_eq_mem, decide_eq_false_iff_not, List.mem_cons, not_or, bne_iff_ne] at characters
  rcases characters with ⟨⟨⟨⟨notBlank, _⟩, notPlus, notTimes, notSlash, notPercent, notOpening,
    notClosing, _⟩, _⟩, notMinus⟩
  have skipped : Cursor.skip ⟨index, first :: tail⟩ = ⟨index, first :: tail⟩ := by
    apply Cursor.skip_of_settled
    intro character isFirst
    cases isFirst
    exact ⟨notBlank, fun slash => absurd slash notSlash⟩
  have next : Cursor.next? ⟨index, first :: tail⟩ = some first := rfl
  have noOperator : Operator.ofSymbol? first = none := by
    unfold Operator.ofSymbol?
    split <;> first | contradiction | rfl
  have operand (deeper : Option (Deeper ν)) :
      readOperand vocabulary deeper none ⟨index, first :: tail⟩ =
        readAtom vocabulary deeper none ⟨index, first :: tail⟩ := by
    simp only [readOperand, skipped, next]
  rw [formula_eq, whole]
  simp only [readFormula, skipped, next, noOperator, operand, atom]
  rfl

end Names

/-- A text without brackets that derives a name is the name between gaps. -/
theorem Derives.word_of_name {vocabulary : Vocabulary ν} {lexis : Lexis} {text : List Char}
    {reference : ν} (derivation : Derives vocabulary lexis .sum text (.name reference))
    (unbracketed : '(' ∉ text) :
    Padded lexis.Gap (fun word _ => lexis.Word word) text reference := by
  cases derivation with
  | product derivation =>
  cases derivation with
  | term derivation =>
  cases derivation with
  | @atom before core after negative _ gapBefore derivation gapAfter =>
  generalize equal : Formula.name reference = tree at derivation
  cases derivation with
  | number _ _ => cases equal
  | name word _ =>
      cases negative with
      | true => cases equal
      | false => exact ⟨before, core, after, rfl, gapBefore, word, gapAfter⟩
  | @group inner _ _ _ =>
      have inside : '(' ∈ before ++ (signed negative (bracketed inner) ++ after) := by
        cases negative <;> simp [signed, bracketed]
      exact absurd inside unbracketed
  | call _ _ _ _ => cases negative <;> cases equal
  | choose _ _ _ _ _ => cases negative <;> cases equal

/-! ## Targets as names -/

/-- Characters at which only formulas end a name. -/
def endsOnlyNames (character : Char) : Bool := ['%', ',', '<', '>', '!'].contains character

/-- The symbols of the rule languages. -/
def symbols : List Char := ['+', '-', '*', '/', '%', '(', ')', ',', '<', '>', '=', '!', ':']

/-- Text without blanks and symbols. -/
structure IsIdentifier (name : List Char) : Prop where
  nonempty : name ≠ []
  characters : ∀ character ∈ name, isBlank character = false ∧ character ∉ symbols

section Targets

variable {name : List Char} (target : IsTarget name)

include target

theorem IsTarget.not_mem {character : Char} (ends : endsName ' ' character = true) :
    character ∉ name := by
  intro inside
  rw [target.characters character inside] at ends
  cases ends

theorem IsTarget.apart {character : Char} (inside : character ∈ name) :
    isBlank character = false ∧ character ∉ ['=', ':', '+', '-', '*', '/', '(', ')'] := by
  have apart := target.characters character inside
  simp only [endsName, Bool.or_eq_false_iff, List.contains_eq_mem, decide_eq_false_iff_not] at apart
  exact ⟨apart.1.1, apart.2⟩

/-- There is no gap in a target. -/
theorem IsTarget.gap_eq_nil {gap : List Char} (inside : gap <:+: name) (skippable : Skippable gap) :
    gap = [] := by
  rcases skippable with comment | blank
  · have slash : '/' ∈ name := (comment.trans inside).subset (List.mem_cons_self ..)
    exact absurd slash (target.not_mem (by decide))
  · apply List.eq_nil_iff_forall_not_mem.mpr
    intro character within
    have notBlank := (target.apart (inside.subset within)).1
    rw [List.all_eq_true.mp blank character within] at notBlank
    cases notBlank

theorem IsTarget.isTokenCharacter_iff {character : Char} (inside : character ∈ name) :
    isTokenCharacter ',' character = true ↔ endsOnlyNames character = false := by
  rcases target.apart inside with ⟨notBlank, apart⟩
  simp only [List.mem_cons, not_or] at apart
  simp [isTokenCharacter, endsToken, isForeign, endsOnlyNames, notBlank, apart]
  tauto

/-- A target is an identifier exactly when it goes on over no symbol that ends names. -/
theorem IsTarget.isIdentifier_iff :
    IsIdentifier name ↔ ∀ character ∈ name, endsOnlyNames character = false := by
  have apart_iff {character : Char} (inside : character ∈ name) :
      character ∉ symbols ↔ endsOnlyNames character = false := by
    have apart := (target.apart inside).2
    simp only [List.mem_cons, not_or] at apart
    simp [symbols, endsOnlyNames, apart]
  constructor
  · exact fun identifier character inside =>
      (apart_iff inside).mp (identifier.characters character inside).2
  · exact fun unbroken => ⟨target.nonempty, fun character inside =>
      ⟨(target.apart inside).1, (apart_iff inside).mpr (unbroken character inside)⟩⟩

/-- A formula reads a target as the name it is exactly when it goes on over no symbol that
ends names, and is no number. -/
theorem IsTarget.whole_formula_iff {vocabulary : Vocabulary ν}
    (comma : vocabulary.argumentSeparator = ',') {reference : ν}
    (known : vocabulary.resolve? (String.ofList name) = some reference) (budget index : Nat) :
    whole (formula vocabulary budget) ⟨index, name⟩ = .ok (.name reference) ↔
      (∀ character ∈ name, endsOnlyNames character = false) ∧ isNumeric name = false := by
  constructor
  · intro read
    have derivation : Derives vocabulary (.read vocabulary) .sum name (.name reference) :=
      (formula_condition_reads vocabulary budget).1.whole read
    rcases derivation.word_of_name (target.not_mem (by decide)) with
      ⟨before, word, after, split, gapBefore, ⟨⟨areToken, _, notNumeric⟩, _⟩, gapAfter⟩
    have isWord : name = word := by
      have noBefore : before = [] :=
        target.gap_eq_nil ⟨[], word ++ after, by simpa using split.symm⟩ gapBefore
      have noAfter : after = [] :=
        target.gap_eq_nil ⟨before ++ word, [], by simpa using split.symm⟩ gapAfter
      rw [split, noBefore, noAfter, List.nil_append, List.append_nil]
    rw [← isWord, comma] at areToken
    rw [← isWord] at notNumeric
    exact ⟨fun character inside => (target.isTokenCharacter_iff inside).mp
      (List.all_eq_true.mp areToken character inside), notNumeric⟩
  · rintro ⟨unbroken, notNumeric⟩
    have areToken : name.all (isTokenCharacter ',') = true := List.all_eq_true.mpr
      fun character inside => (target.isTokenCharacter_iff inside).mpr (unbroken character inside)
    exact whole_formula_token comma areToken target.nonempty notNumeric known budget index

end Targets

/-! ## Where targets stand -/

section Statements

variable {vocabulary : Vocabulary ν} {allowReturn : Bool}

/-- The target of a statement is the name that begins it. -/
def TargetIn (vocabulary : Vocabulary ν) (text : List Char) (step : Step ν) : Prop :=
  ∀ assignment, step = .assign assignment → ∃ name, name <:+: text ∧ IsTarget name ∧
    vocabulary.resolve? (String.ofList name) = some assignment.target

theorem TargetIn.of_suffix {text part : List Char} {step : Step ν}
    (targetIn : TargetIn vocabulary part step) (suffix : part <:+ text) :
    TargetIn vocabulary text step := by
  intro assignment isAssignment
  rcases targetIn assignment isAssignment with ⟨name, inside, target⟩
  exact ⟨name, inside.trans suffix.isInfix, target⟩

theorem suffix_of_spans {start stop : Cursor} {text : List Char} (spans : start.Spans text stop) :
    stop.rest <:+ start.rest := ⟨text, spans.rest.symm⟩

theorem targetIn_of_stepAt (space : vocabulary.stepSeparator = ' ') {cursor next : Cursor}
    {step : Step ν} (stepAt : StepAt vocabulary allowReturn cursor step next) :
    TargetIn vocabulary cursor.rest step := by
  intro assignment isAssignment
  cases stepAt with
  | returns _ _ returnOf => cases returnOf <;> cases isAssignment
  | assigns targetAt _ _ _ =>
      cases isAssignment
      have characters : ∀ character ∈ nameAhead vocabulary.stepSeparator cursor,
          endsName ' ' character = false := by
        intro character inside
        rw [← space]
        simpa using List.mem_takeWhile_imp inside
      exact ⟨nameAhead vocabulary.stepSeparator cursor, (List.takeWhile_prefix _).isInfix,
        ⟨targetAt.named, characters⟩, targetAt.resolved⟩

theorem targetIn_of_stepsAt (space : vocabulary.stepSeparator = ' ') {cursor : Cursor}
    {steps : List (Step ν)} (stepsAt : StepsAt vocabulary allowReturn cursor steps) :
    ∀ step ∈ steps, TargetIn vocabulary cursor.rest step := by
  induction stepsAt with
  | nil _ => simp
  | @cons cursor next first others _ stepAt _ induction =>
      rcases skipSeparators_spans vocabulary.stepSeparator cursor with ⟨gap, gapSpans⟩
      rcases stepAt.spans with ⟨text, _, spans⟩
      have settled := suffix_of_spans gapSpans
      intro step inside
      rcases List.mem_cons.mp inside with rfl | inOthers
      · exact (targetIn_of_stepAt space stepAt).of_suffix settled
      · exact (induction step inOthers).of_suffix ((suffix_of_spans spans).trans settled)

/-- Every target of a process is a name that stands in its text. -/
theorem targetIn_of_wholeProcess (space : vocabulary.stepSeparator = ' ') {text : List Char}
    {steps : List (Step ν)} (read : wholeProcess vocabulary text = .ok steps) :
    ∀ step ∈ steps, TargetIn vocabulary text step :=
  targetIn_of_stepsAt space (wholeProcess_iff.mp read).2

end Statements

end Grammar

/-! ## Processes -/

/-- The slot a name stands for in the process. An unknown name gets the next one. -/
def ProcessRule.slotNamed (process : ProcessRule) (name : String) : Slot :=
  ProcessRule.slotOf (process.slots.map (·.name)) name

namespace Engine

open Grammar Text

/-- Read a formula over the names of a process. -/
def readFormulaIn (engine : Engine σ) (process : ProcessRule) (text : String) :
    Except Error (Formula Slot) :=
  engine.readText .formula text fun characters =>
    wholeFormula (engine.vocabulary fun name => some (process.slotNamed name)) (.start characters)

/-- Whatever an accepted process assigns has a name of its text and a slot of that name. The
name is an identifier exactly when it goes on over no symbol that ends names in formulas,
and the formulas of the process read it as that slot exactly when it also is no number. -/
theorem parseProcess_target (engine : Engine σ) (comma : engine.settings.argumentSeparator = ',')
    (space : engine.settings.stepSeparator = ' ') {text : String} {start next : World σ}
    {process : ProcessRule}
    (accepted : engine.parseProcess text start = some (.ok process, next))
    {assignment : Assignment Slot} (assigned : .assign assignment ∈ process.steps) :
    let target := assignment.target
    let unbroken := ∀ character ∈ target.name.toList, endsOnlyNames character = false
    (target.name.toList ≠ [] ∧
      (∀ character ∈ target.name.toList,
        isBlank character = false ∧ character ∉ ['=', ':', '+', '-', '*', '/', '(', ')']) ∧
      0 < target.number ∧
      (process.slots[target.number - 1]?).map (·.name) = some target.name) ∧
    (IsIdentifier target.name.toList ↔ unbroken) ∧
    (engine.readFormulaIn process target.name = .ok (.name target) ↔
      unbroken ∧ isNumeric target.name.toList = false) := by
  rcases ok_of_numbered accepted with ⟨steps, read, rfl⟩
  rcases List.mem_map.mp assigned with ⟨step, inside, mapped⟩
  cases step with
  | «return» test value => cases mapped
  | assign original =>
  cases mapped
  have targets : ∀ step ∈ steps, TargetIn (engine.vocabulary some) text.toList step :=
    targetIn_of_wholeProcess space (parse_of_readText read)
  rcases targets _ inside original rfl with ⟨name, part, target, isName⟩
  have same : original.target.toList = name := by
    rw [← Option.some.inj isName, String.toList_ofList]
  rw [← same] at target part
  let names := ProcessRule.slotNames steps
  let process := ProcessRule.ofSteps ⟨start.readings⟩ engine.settings.stepSeparator
    engine.registry.identifier? steps
  have namesAre : process.slots.map (·.name) = names := ProcessRule.names_ofSteps ..
  have known : original.target ∈ names :=
    ProcessRule.mem_slotNames_of_mention inside (List.mem_cons_self ..)
  have resolved : (engine.vocabulary fun name => some (process.slotNamed name)).resolve?
      (String.ofList original.target.toList) =
        some (ProcessRule.slotOf names original.target) := by
    rw [String.ofList_toList, ← namesAre]
    rfl
  have size : original.target.utf8ByteSize ≤ engine.settings.maxSourceBytes := by
    have within := utf8ByteSize_part part
    rw [String.ofList_toList] at within
    exact Nat.le_trans within (size_of_readText read)
  refine ⟨⟨target.nonempty, fun character inside => target.apart inside, Nat.succ_pos _, ?_⟩,
    target.isIdentifier_iff, ?_⟩
  · rw [← List.getElem?_map, namesAre]
    exact ProcessRule.getElem?_slotOf known
  · exact (readText_eq_ok size).trans (target.whole_formula_iff comma resolved _ 0)

/-! ### A target that is read and some that are not -/

theorem parseProcess_target_unregistered :
    choosing.settings.argumentSeparator = ',' ∧ choosing.settings.stepSeparator = ' ' ∧
    ∃ process next assignment,
      choosing.parseProcess "total_1 += x" (choosing.start 0 (.ofSeed 0)) =
        some (.ok process, next) ∧
      .assign assignment ∈ process.steps ∧ assignment.target = ⟨2, "total_1"⟩ ∧
      IsIdentifier assignment.target.name.toList ∧
      choosing.readFormulaIn process assignment.target.name = .ok (.name assignment.target) := by
  have accepted : ∃ process next assignment,
      choosing.parseProcess "total_1 += x" (choosing.start 0 (.ofSeed 0)) =
        some (.ok process, next) ∧
      .assign assignment ∈ process.steps ∧ assignment.target = ⟨2, "total_1"⟩ :=
    ⟨_, _, _, rfl, .head _, rfl⟩
  rcases accepted with ⟨process, next, assignment, accepted, assigned, isTarget⟩
  rcases parseProcess_target choosing rfl rfl accepted assigned with ⟨_, identifier, read⟩
  have unbroken : ∀ character ∈ assignment.target.name.toList, endsOnlyNames character = false := by
    rw [isTarget]
    exact List.all_iff_forall_prop.mp (by decide)
  have notNumeric : isNumeric assignment.target.name.toList = false := by
    rw [isTarget]
    decide
  exact ⟨rfl, rfl, process, next, assignment, accepted, assigned, isTarget,
    identifier.mpr unbroken, read.mpr ⟨unbroken, notNumeric⟩⟩

/-- A remainder that is no update is an assignment of a name that nothing can read, and a
number can be assigned and still is a number. -/
theorem targets_misread :
    (∃ process next assignment,
      choosing.parseProcess "x%=5" (choosing.start 0 (.ofSeed 0)) = some (.ok process, next) ∧
      .assign assignment ∈ process.steps ∧ ¬ IsIdentifier assignment.target.name.toList ∧
      ∀ formula, choosing.readFormulaIn process assignment.target.name ≠ .ok formula) ∧
    ∃ process next assignment,
      choosing.parseProcess "5=3" (choosing.start 0 (.ofSeed 0)) = some (.ok process, next) ∧
      .assign assignment ∈ process.steps ∧
      choosing.readFormulaIn process assignment.target.name = .ok (.constant 5) := by
  constructor
  · have accepted : ∃ process next assignment fault,
        choosing.parseProcess "x%=5" (choosing.start 0 (.ofSeed 0)) = some (.ok process, next) ∧
        .assign assignment ∈ process.steps ∧ assignment.target.name = "x%" ∧
        choosing.readFormulaIn process assignment.target.name = .error fault :=
      ⟨_, _, _, _, rfl, .head _, rfl, rfl⟩
    rcases accepted with ⟨process, next, assignment, fault, accepted, assigned, named, refused⟩
    refine ⟨process, next, assignment, accepted, assigned, fun identifier => ?_,
      fun formula read => ?_⟩
    · rw [named] at identifier
      exact absurd (identifier.characters '%' (by decide)).2 (by decide)
    · rw [refused] at read
      cases read
  · exact ⟨_, _, _, rfl, .head _, rfl⟩

end Engine

end NumericRules
