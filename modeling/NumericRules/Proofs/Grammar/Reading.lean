import Mathlib.Data.Bool.AllAny
import NumericRules.Engine
import NumericRules.Proofs.RegistryHistory
import NumericRules.Proofs.Grammar.Completeness
import NumericRules.Proofs.Grammar.Soundness

/-! # Readings and the grammar

Where every name and function is a word and a comma separates arguments, a text
is accepted exactly when the grammar derives it, unless a limit refuses it.
-/

namespace NumericRules

open Text

namespace Grammar

/-! ## Texts without comments -/

/-- Everything that is known is written as a word. -/
structure Vocabulary.InWords (vocabulary : Vocabulary ν) : Prop where
  names : ∀ name, (vocabulary.resolve? name).isSome = true → IsWord name.toList
  functions : ∀ name, (vocabulary.signature? name).isSome = true → IsWord name.toList

/-- Text without comments whose blanks are white space. -/
structure IsPlainText (text : List Char) : Prop where
  noComment : ¬ ['/', '/'] <:+: text
  noControl : ∀ character ∈ text, isControl character = true → isWhite character = true

theorem IsPlainText.white {text gap : List Char} (plain : IsPlainText text) (inside : gap <:+: text)
    (skippable : Skippable gap) : gap.all isWhite = true := by
  rcases skippable with comment | blank
  · exact absurd (comment.trans inside) plain.noComment
  · apply List.all_eq_true.mpr
    intro character inGap
    have isBlank := List.all_eq_true.mp blank character inGap
    rcases (Bool.or_eq_true _ _).mp isBlank with white | control
    · exact white
    · exact plain.noControl character (inside.subset inGap) control

/-- What is read of a plain text has gaps of white space between words. -/
theorem IsPlainText.covers {vocabulary : Vocabulary ν} (words : vocabulary.InWords)
    {text : List Char} (plain : IsPlainText text) :
    Lexis.standard.Covers (.read vocabulary) text := by
  intro piece inside
  refine ⟨plain.white inside, ?_⟩
  rintro ⟨_, name | function⟩
  · have word := words.names _ name
    rwa [String.toList_ofList] at word
  · have word := words.functions _ function
    rwa [String.toList_ofList] at word

section Wholes

variable {vocabulary : Vocabulary ν} (comma : vocabulary.argumentSeparator = ',')
  (words : vocabulary.InWords) {text : List Char} (plain : IsPlainText text) {budget : Nat}

include comma words plain

/-- A plain text is a formula exactly when the grammar derives it as a sum. -/
theorem formula_iff (allowed : text.length ≤ budget ∨
      ¬ TooDeep (whole (formula vocabulary budget) (.start text))) (tree : Formula ν) :
    whole (formula vocabulary budget) (.start text) = .ok tree ↔
      Derives vocabulary .standard .sum text tree := by
  constructor
  · intro read
    have derivation := (formula_condition_reads vocabulary budget).1.whole read
    exact derivation.relax (plain.covers words)
  · intro derivation
    rcases allowed with roomy | notRefused
    · exact derivation.formula_eq_ok comma roomy 0
    · have roomy := derivation.formula_eq_ok comma (Nat.le_max_right budget text.length) 0
      rcases whole_agrees (formula_condition_agree vocabulary vocabulary.nestingLimit
        (Nat.le_max_left budget text.length)).1 (.start text) with refused | same
      · exact absurd refused notRefused
      · exact same.trans roomy

end Wholes

end Grammar

/-! ## Engines -/

namespace Engine

/-- The names and functions of the engine are written as words. -/
structure InWords (engine : Engine σ) : Prop where
  names : ∀ name, (engine.registry.identifier? name).isSome = true → Grammar.IsWord name.toList
  functions : ∀ name, engine.functions.contains name = true → Grammar.IsWord name.toList

theorem InWords.vocabulary {engine : Engine σ} (words : engine.InWords) :
    (engine.vocabulary engine.reference?).InWords where
  names name known := words.names name (by simpa [Engine.vocabulary, reference?] using known)
  functions name known := words.functions name
    (by simpa [Engine.vocabulary, FunctionTable.signature?, FunctionTable.contains] using known)

/-- A text that is not too long is read by its language. -/
theorem readText_eq_ok {engine : Engine σ} {language : Language} {text : String}
    {parse : List Char → Except Fault α} {result : α}
    (size : text.utf8ByteSize ≤ engine.settings.maxSourceBytes) :
    engine.readText language text parse = .ok result ↔ parse text.toList = .ok result := by
  rw [readText, if_neg (Nat.not_lt_of_le size)]
  cases parse text.toList with
  | error fault => simp [Except.mapError]
  | ok value => simp [Except.mapError]

/-- A text that its limits allow is accepted as a formula exactly when the grammar
derives it, and the tree is that of the derivation. -/
theorem readFormula_iff (engine : Engine σ) (comma : engine.settings.argumentSeparator = ',')
    (words : engine.InWords) (text : String) (plain : Grammar.IsPlainText text.toList)
    (size : text.utf8ByteSize ≤ engine.settings.maxSourceBytes)
    (depth : text.toList.length ≤ engine.settings.maxDepth ∨
      ∀ diagnostic limit, engine.readFormula text = .error (.parse diagnostic) →
        diagnostic.cause ≠ .tooDeep limit)
    (tree : Formula Reference) :
    (∀ world : World σ, ∃ after, engine.parseFormula text world =
      some ((engine.readFormula text).map fun root => ⟨⟨world.readings⟩, root⟩, after)) ∧
    (engine.readFormula text = .ok tree ↔
      Grammar.Derives (engine.vocabulary engine.reference?) .standard .sum text.toList tree) := by
  constructor
  · intro world
    unfold parseFormula numbered
    cases engine.readFormula text with
    | error error => exact ⟨world, rfl⟩
    | ok root => exact ⟨_, rfl⟩
  · let vocabulary := engine.vocabulary engine.reference?
    have allowed : text.toList.length ≤ engine.settings.maxDepth ∨
        ¬ Grammar.TooDeep (Grammar.wholeFormula vocabulary (.start text.toList)) := by
      rcases depth with roomy | notRefused
      · exact .inl roomy
      · right
        rintro ⟨fault, limit, refused, cause⟩
        apply notRefused (Diagnostic.locate .formula text.toList fault) limit _ cause
        rw [readFormula, readText, if_neg (Nat.not_lt_of_le size)]
        exact congrArg (Except.mapError _) refused
    rw [readFormula, readText_eq_ok size]
    exact Grammar.formula_iff comma words.vocabulary plain allowed tree

/-! ### A reading -/

/-- An engine with one name, the conditional function and a function without
arguments. -/
def choosing : Engine Nat where
  registry := ((RegistryRequest.addName "stat" "x" 0 .temporary {}).carryOut.run {}).2
  functions := ⟨[("If", .choose), ("f", .native [(0, .answer 1)])]⟩
  settings := {}

theorem choosing_inWords : choosing.InWords where
  names := by
    intro name known
    rcases Option.isSome_iff_exists.mp known with ⟨id, found⟩
    rcases Registry.identifier?_eq_some found with ⟨record, inside, rfl, _⟩
    have words : ∀ record ∈ choosing.registry.records, Grammar.IsWord record.name.toList := by
      decide
    exact words record inside
  functions := by
    intro name known
    have words : ∀ entry ∈ choosing.functions.entries, Grammar.IsWord entry.1.toList := by decide
    rcases List.lookup_isSome_iff.mp known with ⟨entry, inside, same⟩
    rw [beq_iff_eq.mp same]
    exact words entry inside

/-- A text with a choice, a group, a call and a negative number. -/
def choice : String := "If(x > 1, -2 * (x + f()), -x)"

theorem readFormula_iff_choice :
    choosing.settings.argumentSeparator = ',' ∧ choosing.InWords ∧
    Grammar.IsPlainText choice.toList ∧
    choice.utf8ByteSize ≤ choosing.settings.maxSourceBytes ∧
    choice.toList.length ≤ choosing.settings.maxDepth ∧
    ∃ tree, choosing.readFormula choice = .ok tree ∧
      Grammar.Derives (choosing.vocabulary choosing.reference?) .standard .sum choice.toList
        tree := by
  have plain : Grammar.IsPlainText choice.toList :=
    ⟨by decide, List.all_iff_forall_prop.mp (by decide)⟩
  have size : choice.utf8ByteSize ≤ choosing.settings.maxSourceBytes := by decide
  have roomy : choice.toList.length ≤ choosing.settings.maxDepth := by decide
  have accepted : ∃ tree, choosing.readFormula choice = .ok tree := ⟨_, rfl⟩
  rcases accepted with ⟨tree, accepted⟩
  have reading := readFormula_iff choosing rfl choosing_inWords choice plain size (.inl roomy) tree
  exact ⟨rfl, choosing_inWords, plain, size, roomy, tree, accepted, reading.2.mp accepted⟩

end Engine

end NumericRules
