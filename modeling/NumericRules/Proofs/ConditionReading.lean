import Mathlib.Data.String.Basic
import NumericRules.Proofs.Grammar.BlankedStatements
import NumericRules.Proofs.Grammar.Reading
import NumericRules.Proofs.StandingValues

/-! # Conditions and their chains

A text is accepted as a condition exactly when it is a chain of clauses over texts that
are accepted as formulas. Whatever its connectives are, a chain nests to the right, and it
is decided by the first clause that settles its connective.
-/

namespace NumericRules

namespace Grammar

open Text

/-! ## Formulas inside conditions -/

/-- Read as a whole somewhere, with some of the levels, the text is the formula. -/
def IsReadFormula (vocabulary : Vocabulary ν) (text : List Char) (tree : Formula ν) : Prop :=
  ∃ index budget, budget ≤ vocabulary.nestingLimit ∧
    whole (formula vocabulary budget) ⟨index, text⟩ = .ok tree

/-- What is accepted as a condition at any level is one over accepted formulas. -/
theorem condition_readsAs (vocabulary : Vocabulary ν) {budget : Nat}
    (within : budget ≤ vocabulary.nestingLimit) :
    ReadsAs (IsCondition Skippable (IsReadFormula vocabulary)) (condition vocabulary budget) := by
  have formulas {budget : Nat} (within : budget ≤ vocabulary.nestingLimit) :
      ReadsFormulas (IsReadFormula vocabulary) (formula vocabulary budget) :=
    fun cursor _ read => ⟨cursor.index, budget, within, read⟩
  induction budget with
  | zero =>
      rw [condition_eq]
      refine readCondition_readsAs ?_ (formulas within)
      intro inner present
      cases present
  | succ budget induction =>
      rw [condition_eq]
      refine readCondition_readsAs ?_ (formulas within)
      intro inner present
      cases present
      exact induction (Nat.le_of_succ_le within)

/-- Where there is no comment, such a formula is accepted alone. -/
theorem IsReadFormula.accepted {vocabulary : Vocabulary ν}
    (comma : vocabulary.argumentSeparator = ',') {text : List Char} {tree : Formula ν}
    (commentless : ¬ ['/', '/'] <:+: text) (read : IsReadFormula vocabulary text tree) :
    wholeFormula vocabulary (.start text) = .ok tree := by
  rcases read with ⟨index, budget, within, read⟩
  have agrees : Agrees (whole (formula vocabulary budget) ⟨index, text⟩)
      (wholeFormula vocabulary ⟨index, text⟩) :=
    whole_agrees (formula_condition_agree vocabulary vocabulary.nestingLimit within).1 _
  rw [read] at agrees
  rcases agrees with ⟨_, _, refused, _⟩ | same
  · cases refused
  · exact wholeFormula_relocated comma commentless same.symm 0

theorem IsPlainText.part {text part : List Char} (plain : IsPlainText text)
    (inside : part <:+: text) : IsPlainText part where
  noComment comment := plain.noComment (comment.trans inside)
  noControl character within := plain.noControl character (inside.subset within)

/-- Only white space stands between the words of a condition. -/
def IsWhiteGap (gap : List Char) : Prop := gap.all isWhite = true

section Wholes

variable {vocabulary : Vocabulary ν} (comma : vocabulary.argumentSeparator = ',')
  (words : vocabulary.InWords) {text : List Char} (plain : IsPlainText text)

include comma words plain

/-- A plain text is a condition exactly when it is one over accepted formulas. -/
theorem wholeCondition_iff (allowed : text.length ≤ vocabulary.nestingLimit ∨
      ¬ TooDeep (wholeCondition vocabulary (.start text))) (tree : Condition ν) :
    wholeCondition vocabulary (.start text) = .ok tree ↔
      IsCondition IsWhiteGap
        (fun part formula => wholeFormula vocabulary (.start part) = .ok formula) text tree := by
  constructor
  · intro read
    have condition := (condition_readsAs vocabulary (Nat.le_refl _)).whole read
    exact condition.pass ⟨fun part inside gap => plain.white inside gap,
      fun part formula inside isRead => isRead.accepted comma (plain.part inside).noComment⟩
  · intro condition
    have overSums : IsCondition IsWhiteGap (Derives vocabulary .standard .sum) text tree := by
      refine condition.pass ⟨fun _ _ white => white, fun part formula inside read => ?_⟩
      have derivation := (formula_condition_reads vocabulary _).1.whole read
      exact derivation.relax ((plain.part inside).covers words)
    have joined {left right : List Char} (ofLeft : IsWhiteGap left) (ofRight : IsWhiteGap right) :
        IsWhiteGap (left ++ right) := by
      rw [IsWhiteGap, List.all_append, ofLeft, ofRight, Bool.and_self]
    have derivation : Derives vocabulary .standard .condition text tree :=
      overSums.derives rfl joined
    rcases allowed with roomy | notRefused
    · exact derivation.condition_eq_ok comma roomy 0
    · have roomy := derivation.condition_eq_ok comma
        (Nat.le_max_right vocabulary.nestingLimit text.length) 0
      rcases whole_agrees (formula_condition_agree vocabulary vocabulary.nestingLimit
        (Nat.le_max_left vocabulary.nestingLimit text.length)).2 (.start text) with refused | same
      · exact absurd refused notRefused
      · exact same.trans roomy

end Wholes

end Grammar

/-! ## Chains that are checked -/

namespace Grammar

/-- Check the clauses of a chain from the left until one decides its connective. -/
def checkChain (check : Condition ν → Run σ Bool) (links : List (Link ν)) (last : Condition ν) :
    Run σ Bool :=
  links.foldr (fun link rest => do
    let holds ← check link.clause
    if holds = link.connective.decider then pure holds else rest) (check last)

/-- The value of a chain whose clauses have the given values. -/
def chainValue (value : Condition ν → Bool) (links : List (Link ν)) (last : Condition ν) : Bool :=
  links.foldr (fun link rest => link.connective.apply (value link.clause) rest) (value last)

variable {functions : FunctionTable σ} {scope : Scope σ ν}

theorem check_chainTree (links : List (Link ν)) (last : Condition ν) :
    (chainTree links last).check functions scope =
      checkChain (Condition.check functions scope) links last := by
  induction links with
  | nil => rfl
  | cons link links induction =>
      have tree : chainTree (link :: links) last =
          .connect link.clause link.connective (chainTree links last) := rfl
      rw [tree, Condition.check, induction]
      refine bind_congr fun holds => ?_
      cases link.connective <;> cases holds <;> rfl

/-- Where the clauses have standing values, so has the chain, nested to the right. -/
theorem checkChain_gives {holds : World σ → Prop} {check : Condition ν → Run σ Bool}
    {value : Condition ν → Bool} {links : List (Link ν)} {last : Condition ν}
    (ofLinks : ∀ link ∈ links, (check link.clause).Gives holds (value link.clause))
    (ofLast : (check last).Gives holds (value last)) :
    (checkChain check links last).Gives holds (chainValue value links last) := by
  induction links with
  | nil => exact ofLast
  | cons link links induction =>
      rcases List.forall_mem_cons.mp ofLinks with ⟨ofLink, ofRest⟩
      refine Run.Gives.bind ofLink ?_
      change Run.Gives holds _
        (link.connective.apply (value link.clause) (chainValue value links last))
      by_cases decided : value link.clause = link.connective.decider
      · rw [if_pos decided, decided, Connective.apply_decider]
        exact .pure _
      · rw [if_neg decided, Connective.apply_other decided]
        exact induction ofRest

end Grammar

/-! ## Engines -/

namespace Engine

open Grammar

/-- The engine accepts the text as the formula. -/
def Accepts (engine : Engine σ) (text : List Char) (formula : Formula Reference) : Prop :=
  engine.readFormula (String.ofList text) = .ok formula

theorem utf8ByteSize_part {text : String} {part : List Char} (inside : part <:+: text.toList) :
    (String.ofList part).utf8ByteSize ≤ text.utf8ByteSize := by
  rcases inside with ⟨before, after, equal⟩
  rw [← String.ofList_toList (s := text), ← equal, String.utf8ByteSize_ofList,
    String.utf8ByteSize_ofList, String.utf8Len_append, String.utf8Len_append]
  omega

/-- A text that its limits allow is accepted as a condition exactly when it is one over
accepted formulas, that is a chain of clauses which nests to the right. Its check goes
through the clauses from the left. -/
theorem readCondition_iff (engine : Engine σ) (comma : engine.settings.argumentSeparator = ',')
    (words : engine.InWords) (text : String) (plain : IsPlainText text.toList)
    (size : text.utf8ByteSize ≤ engine.settings.maxSourceBytes)
    (depth : text.toList.length ≤ engine.settings.maxDepth ∨
      ∀ diagnostic limit, engine.readCondition text = .error (.parse diagnostic) →
        diagnostic.cause ≠ .tooDeep limit)
    (tree : Condition Reference) :
    (∀ world : World σ, ∃ after, engine.parseCondition text world =
      some ((engine.readCondition text).map fun root => ⟨⟨world.readings⟩, root⟩, after)) ∧
    (engine.readCondition text = .ok tree ↔
      IsCondition IsWhiteGap engine.Accepts text.toList tree) ∧
    (engine.readCondition text = .ok tree ↔
      ∃ (links : List (Link Reference)) (lastText : List Char) (last : Condition Reference),
        text.toList = chainText links lastText ∧ tree = chainTree links last ∧
        (∀ link ∈ links, IsPaddedClause IsWhiteGap engine.Accepts link.text link.clause) ∧
        IsPaddedClause IsWhiteGap engine.Accepts lastText last) ∧
    ∀ (links : List (Link Reference)) (last : Condition Reference), tree = chainTree links last →
      ∀ scope : Scope σ Reference,
        let check := Condition.check engine.functions scope
        check tree = checkChain check links last ∧
        ∀ (holds : World σ → Prop) (value : Condition Reference → Bool),
          (∀ link ∈ links, (check link.clause).Gives holds (value link.clause)) →
          (check last).Gives holds (value last) →
          (check tree).Gives holds (chainValue value links last) := by
  have accepted : engine.readCondition text = .ok tree ↔
      IsCondition IsWhiteGap engine.Accepts text.toList tree := by
    let vocabulary := engine.vocabulary engine.reference?
    have allowed : text.toList.length ≤ vocabulary.nestingLimit ∨
        ¬ TooDeep (wholeCondition vocabulary (.start text.toList)) := by
      rcases depth with roomy | notRefused
      · exact .inl roomy
      · right
        rintro ⟨fault, limit, refused, cause⟩
        apply notRefused (Diagnostic.locate .condition text.toList fault) limit _ cause
        rw [readCondition, readText, if_neg (Nat.not_lt_of_le size)]
        exact congrArg (Except.mapError _) refused
    have formulas (part : List Char) (formula : Formula Reference)
        (inside : part <:+: text.toList) :
        engine.Accepts part formula ↔ wholeFormula vocabulary (.start part) = .ok formula := by
      rw [Accepts, readFormula, readText_eq_ok (Nat.le_trans (utf8ByteSize_part inside) size),
        String.toList_ofList]
    rw [readCondition, readText_eq_ok size, wholeCondition_iff comma words.vocabulary plain allowed]
    constructor
    · exact fun condition => condition.pass
        ⟨fun _ _ white => white, fun part formula inside => (formulas part formula inside).mpr⟩
    · exact fun condition => condition.pass
        ⟨fun _ _ white => white, fun part formula inside => (formulas part formula inside).mp⟩
  refine ⟨?_, accepted, accepted.trans isCondition_iff_chain, ?_⟩
  · intro world
    unfold parseCondition numbered
    cases engine.readCondition text with
    | error error => exact ⟨world, rfl⟩
    | ok root => exact ⟨_, rfl⟩
  · rintro links last rfl scope
    refine ⟨check_chainTree links last, fun holds value ofLinks ofLast => ?_⟩
    rw [check_chainTree]
    exact checkChain_gives ofLinks ofLast

/-! ### A mixed chain -/

/-- A chain that would hold for a 2 if the first connective bound tighter. -/
def mixed : String := "x > 3 && (x = 1 || FALSE) || x = 2"

/-- Every name has the value 2. -/
def twos : Scope Nat Reference where
  name _ := pure 2
  identifier _ := pure 0

/-- The clauses of the chain that hold for a 2. -/
def holdsForTwo : Condition Reference → Bool
  | .compare _ .equal _ => true
  | _ => false

theorem readCondition_iff_mixed :
    choosing.settings.argumentSeparator = ',' ∧ choosing.InWords ∧ IsPlainText mixed.toList ∧
    mixed.utf8ByteSize ≤ choosing.settings.maxSourceBytes ∧
    mixed.toList.length ≤ choosing.settings.maxDepth ∧
    ∃ tree, choosing.readCondition mixed = .ok tree ∧
      IsCondition IsWhiteGap choosing.Accepts mixed.toList tree ∧
      (tree.check choosing.functions twos).Gives (fun _ => True) false := by
  have plain : IsPlainText mixed.toList := ⟨by decide, List.all_iff_forall_prop.mp (by decide)⟩
  have size : mixed.utf8ByteSize ≤ choosing.settings.maxSourceBytes := by decide
  have roomy : mixed.toList.length ≤ choosing.settings.maxDepth := by decide
  let check := Condition.check choosing.functions twos
  have accepted : ∃ (first second : Link Reference) (last : Condition Reference),
      choosing.readCondition mixed = .ok (chainTree [first, second] last) ∧
      (∀ link ∈ [first, second],
        (check link.clause).Gives (fun _ => True) (holdsForTwo link.clause)) ∧
      (check last).Gives (fun _ => True) (holdsForTwo last) ∧
      chainValue holdsForTwo [first, second] last = false := by
    refine ⟨⟨[], _, .and⟩, ⟨[], _, .or⟩, _, rfl, ?_, fun world _ => ⟨world, rfl, trivial⟩, rfl⟩
    exact List.forall_mem_cons.mpr ⟨fun world _ => ⟨world, rfl, trivial⟩,
      List.forall_mem_singleton.mpr fun world _ => ⟨world, rfl, trivial⟩⟩
  rcases accepted with ⟨first, second, last, accepted, ofLinks, ofLast, value⟩
  rcases readCondition_iff choosing rfl choosing_inWords mixed plain size (.inl roomy)
    (chainTree [first, second] last) with ⟨_, derived, _, checks⟩
  have fails := (checks [first, second] last rfl twos).2 (fun _ => True) holdsForTwo ofLinks ofLast
  rw [value] at fails
  exact ⟨rfl, choosing_inWords, plain, size, roomy, _, accepted, derived.mp accepted, fails⟩

end Engine

end NumericRules
