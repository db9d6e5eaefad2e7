import NumericRules.Proofs.Grammar.Known
import NumericRules.Proofs.Grammar.Reading

/-! # Reading written text

An engine whose limits do not bind reads the text of a writable tree, and the result
is the tree with the minuses before numbers folded into them.
-/

namespace NumericRules

open Grammar

namespace Engine

/-- The engine with other limits. -/
def withLimits (engine : Engine σ) (bytes depth : Nat) : Engine σ :=
  { engine with settings := { engine.settings with maxSourceBytes := bytes, maxDepth := depth } }

/-- The limits of an engine allow a text. -/
structure Allows (engine : Engine σ) (text : List Char) : Prop where
  size : (String.ofList text).utf8ByteSize ≤ engine.settings.maxSourceBytes
  depth : text.length ≤ engine.settings.maxDepth

theorem named_reference? {engine : Engine σ} {name : String} {reference : Reference}
    (found : engine.reference? name = some reference) : Named.name reference = name := by
  rcases Option.map_eq_some_iff.mp found with ⟨id, _, rfl⟩
  rfl

theorem identifier?_of_reference? {engine : Engine σ} {reference : Reference}
    (found : engine.reference? reference.name = some reference) :
    engine.registry.identifier? reference.name = some reference.id := by
  rcases Option.map_eq_some_iff.mp found with ⟨id, found, same⟩
  rw [found, ← same]

theorem faithful {engine : Engine σ} (reachable : engine.functions.Reachable) :
    (engine.vocabulary engine.reference?).Faithful where
  named := named_reference?
  chooses := reachable.chooses

/-- Where every name is allowed, names stand for themselves. -/
theorem faithful_some {engine : Engine σ} (reachable : engine.functions.Reachable) :
    (engine.vocabulary (some : String → Option String)).Faithful where
  named resolved := (Option.some.inj resolved).symm
  chooses := reachable.chooses

theorem size_of_readText {engine : Engine σ} {language : Language} {text : String}
    {parse : List Char → Except Fault α} {result : α}
    (read : engine.readText language text parse = .ok result) :
    text.utf8ByteSize ≤ engine.settings.maxSourceBytes := by
  rw [readText] at read
  split at read
  · cases read
  · rename_i fits
    exact Nat.le_of_not_lt fits

theorem parse_of_readText {engine : Engine σ} {language : Language} {text : String}
    {parse : List Char → Except Fault α} {result : α}
    (read : engine.readText language text parse = .ok result) : parse text.toList = .ok result :=
  (readText_eq_ok (size_of_readText read)).mp read

theorem ok_of_numbered {result : Except Error α} {rule : RuleId → α → β} {start next : World σ}
    {numberedRule : β} (ran : numbered result rule start = some (.ok numberedRule, next)) :
    ∃ content, result = .ok content ∧ numberedRule = rule ⟨start.readings⟩ content := by
  cases result with
  | error error => cases ran
  | ok content =>
      cases ran
      exact ⟨content, rfl, rfl⟩

/-- Where a text is parsed it is read, and where it is refused there, it is refused. -/
theorem readText_outcome {engine : Engine σ} {language : Language} {text : String}
    {parse : List Char → Except Fault α} {content : α} {accepts refuses : Prop}
    (size : text.utf8ByteSize ≤ engine.settings.maxSourceBytes)
    (accepted : accepts → parse text.toList = .ok content)
    (refused : refuses → ∃ fault, parse text.toList = .error fault) :
    (accepts → engine.readText language text parse = .ok content) ∧
    (refuses → ∃ error, engine.readText language text parse = .error error) := by
  rw [readText, if_neg (Nat.not_lt_of_le size)]
  constructor
  · intro holds
    rw [accepted holds]
    rfl
  · intro fails
    rcases refused fails with ⟨fault, failed⟩
    rw [failed]
    exact ⟨_, rfl⟩

/-- Every reading has an outcome, numbered where it is accepted. -/
theorem numbered_outcome {result : Except Error α} {content : α} {accepts refuses : Prop}
    (accepted : accepts → result = .ok content) (refused : refuses → ∃ error, result = .error error)
    (rule : RuleId → α → β) (world : World σ) :
    ∃ outcome after, numbered result rule world = some (outcome, after) ∧
      (accepts → outcome = .ok (rule ⟨world.readings⟩ content)) ∧
      (refuses → ∃ error, outcome = .error error) := by
  cases result with
  | error error =>
      refine ⟨.error error, world, rfl, fun holds => ?_, fun _ => ⟨error, rfl⟩⟩
      cases accepted holds
  | ok value =>
      refine ⟨.ok (rule ⟨world.readings⟩ value), _, rfl, fun holds => ?_, fun fails => ?_⟩
      · cases accepted holds
        rfl
      · rcases refused fails with ⟨_, impossible⟩
        cases impossible

section Trees

variable {engine : Engine σ}

theorem known_of_readFormula (reachable : engine.functions.Reachable) {text : String}
    {tree : Formula Reference} (read : engine.readFormula text = .ok tree) :
    tree.Meets (.known (engine.vocabulary engine.reference?)) :=
  ((formula_condition_reads _ _).1.whole (parse_of_readText read)).known (faithful reachable)

/-- Names of an accepted formula stand for what the registry knows by them. -/
theorem identifier?_of_readFormula (reachable : engine.functions.Reachable) {text : String}
    {tree : Formula Reference} (read : engine.readFormula text = .ok tree) :
    ∀ reference ∈ tree.references,
      engine.registry.identifier? reference.name = some reference.id := by
  intro reference member
  have known := known_of_readFormula reachable read
  exact identifier?_of_reference? (Formula.name_of_meets tree known reference member).2

theorem known_of_readCondition (reachable : engine.functions.Reachable) {text : String}
    {tree : Condition Reference} (read : engine.readCondition text = .ok tree) :
    tree.Meets (.known (engine.vocabulary engine.reference?)) :=
  ((formula_condition_reads _ _).2.whole (parse_of_readText read)).known (faithful reachable)

variable (comma : engine.settings.argumentSeparator = ',')

include comma

theorem readFormula_written {tree : Formula Reference}
    (writable : tree.Meets (.writable (engine.vocabulary engine.reference?)))
    (allowed : engine.Allows tree.written) :
    engine.readFormula (String.ofList tree.written) = .ok tree.foldSigns := by
  have derivation := (tree.derivesWritten comma writable).sum
  rw [readFormula, readText_eq_ok allowed.size, String.toList_ofList]
  exact derivation.formula_eq_ok comma allowed.depth 0

theorem readCondition_written {tree : Condition Reference}
    (writable : tree.Meets (.writable (engine.vocabulary engine.reference?)))
    (allowed : engine.Allows tree.written) :
    engine.readCondition (String.ofList tree.written) = .ok tree.foldSigns := by
  have derivation := tree.derivesWritten comma writable
  rw [readCondition, readText_eq_ok allowed.size, String.toList_ofList]
  exact (Derives.clause derivation).condition_eq_ok comma allowed.depth 0

end Trees

end Engine

end NumericRules
