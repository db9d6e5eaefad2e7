import NumericRules.Proofs.Grammar.Cursor
import NumericRules.Proofs.Grammar.Limits
import NumericRules.Proofs.Grammar.Rebinding
import NumericRules.Proofs.Grammar.Resolving
import NumericRules.Proofs.Grammar.ValueEnds
import NumericRules.Proofs.Renaming

/-! # Resolving and looking up

A reading that resolves names reads what a reading reads that looks them up, as long as the
names can be resolved. It resolves exactly the names of the tree that it reads, in their
order, and nothing else changes its state.
-/

namespace NumericRules.Grammar

/-! ## One name after another -/

namespace Lexicon

variable {lexicon : Lexicon κ}

theorem Resolves.append {state between after : κ} {first second : List Reference}
    (earlier : lexicon.Resolves state first between)
    (later : lexicon.Resolves between second after) :
    lexicon.Resolves state (first ++ second) after := by
  induction earlier with
  | nil => exact later
  | cons resolved _ induction => exact .cons resolved (induction later)

/-- The names and the state in which they are resolved decide about everything. -/
theorem Resolves.unique {state after last : κ} {references others : List Reference}
    (resolves : lexicon.Resolves state references after)
    (alike : lexicon.Resolves state others last)
    (names : references.map (·.name) = others.map (·.name)) :
    references = others ∧ after = last := by
  induction resolves generalizing others with
  | nil =>
      cases alike with
      | nil => exact ⟨rfl, rfl⟩
      | cons _ _ => cases names
  | cons resolved _ induction =>
      cases alike with
      | nil => cases names
      | cons resolvedAlike restAlike =>
          rcases List.cons.inj names with ⟨sameName, otherNames⟩
          cases sameName
          cases resolved.symm.trans resolvedAlike
          rcases induction restAlike otherNames with ⟨rfl, rfl⟩
          exact ⟨rfl, rfl⟩

theorem Resolves.split {state after : κ} {references : List Reference} {first second : List String}
    (resolves : lexicon.Resolves state references after)
    (names : references.map (·.name) = first ++ second) :
    ∃ earlier later between, earlier.map (·.name) = first ∧ later.map (·.name) = second ∧
      lexicon.Resolves state earlier between ∧ lexicon.Resolves between later after := by
  induction first generalizing state references with
  | nil => exact ⟨[], references, state, rfl, names, .nil state, resolves⟩
  | cons name first induction =>
      cases resolves with
      | nil => cases names
      | @cons _ id _ between _ rest resolved resolvesRest =>
          rcases List.cons.inj names with ⟨rfl, otherNames⟩
          rcases induction resolvesRest otherNames with
            ⟨earlier, later, middle, ofFirst, ofSecond, resolvesEarlier, resolvesLater⟩
          exact ⟨_ :: earlier, later, middle, by rw [List.map_cons, ofFirst], ofSecond,
            .cons resolved resolvesEarlier, resolvesLater⟩

theorem CanResolve.first {state : κ} {first second : List String}
    (can : lexicon.CanResolve state (first ++ second)) : lexicon.CanResolve state first := by
  rcases can with ⟨references, after, resolves, names⟩
  rcases resolves.split names with ⟨earlier, _, between, ofFirst, _, resolvesEarlier, _⟩
  exact ⟨earlier, between, resolvesEarlier, ofFirst⟩

/-- Once the first names are resolved, the others can be. -/
theorem CanResolve.second {state between : κ} {references : List Reference} {second : List String}
    (can : lexicon.CanResolve state (references.map (·.name) ++ second))
    (resolves : lexicon.Resolves state references between) :
    lexicon.CanResolve between second := by
  rcases can with ⟨all, after, resolvesAll, names⟩
  rcases resolvesAll.split names with ⟨earlier, later, _, ofFirst, ofSecond, alike, resolvesLater⟩
  rcases alike.unique resolves ofFirst with ⟨rfl, rfl⟩
  exact ⟨later, after, resolvesLater, ofSecond⟩

end Lexicon

/-! ## Loose chains -/

/-- The chain with its operands as loose trees. -/
def Chain.loose (chain : Chain ν) : LooseChain ν where
  left := chain.left.loose
  pending := chain.pending.map fun pending => (pending.1, pending.2.loose)
  leftDepth := chain.leftDepth
  rightDepth := chain.rightDepth

namespace Chain

theorem loose_start (term : Formula ν) : (start term).loose = .start term.loose := by
  rw [LooseChain.start, term.depth_loose]
  rfl

theorem loose_push (chain : Chain ν) (operator : Operator) (term : Formula ν) :
    (chain.push operator term).loose = chain.loose.push operator term.loose := by
  rcases chain with ⟨left, _ | ⟨pending, right⟩, leftDepth, rightDepth⟩
  · simp [push, loose, LooseChain.push]
  · simp only [push, loose, LooseChain.push, Option.map_some, term.depth_loose]
    split <;> rfl

theorem depth_loose (chain : Chain ν) : chain.loose.depth = chain.depth := by
  rcases chain with ⟨left, _ | pending, leftDepth, rightDepth⟩ <;> rfl

theorem finish_loose (chain : Chain ν) : chain.loose.finish = chain.finish.loose := by
  rcases chain with ⟨left, _ | pending, leftDepth, rightDepth⟩ <;> rfl

end Chain

/-! ## Two ways to know a name -/

/-- A lexicon together with a table that knows the names it resolves, as what their
references are changed to. -/
structure Pairing (κ μ : Type) [Named μ] where
  lexicon : Lexicon κ
  resolve? : String → Option μ
  change : Reference → μ
  sameNames : SameNames change
  known : ∀ {name state id after}, lexicon.resolve name state = some (id, after) →
    resolve? name = some (change ⟨id, name⟩)
  named : ∀ {name target}, resolve? name = some target →
    ∃ reference, change reference = target ∧ reference.name = name
  chooses : ∀ {name}, lexicon.signature? name = some .choose → name = chooseName

/-- What is read, as it is read with a table and with a lexicon, with what has been resolved
for it and the names it mentions. -/
structure Faces (α β γ : Type) where
  plain : γ → α
  loose : γ → β
  references : γ → List Reference
  mentions : α → List String
  mentions_plain : ∀ content, mentions (plain content) = (references content).map (·.name)

/-- The same with a cursor behind what is read. -/
def Faces.stopped (faces : Faces α β γ) : Faces (α × Cursor) (β × Cursor) (γ × Cursor) where
  plain read := (faces.plain read.1, read.2)
  loose read := (faces.loose read.1, read.2)
  references read := faces.references read.1
  mentions read := faces.mentions read.1
  mentions_plain read := faces.mentions_plain read.1

/-- The same of several things one after another. -/
def Faces.all (faces : Faces α β γ) : Faces (List α) (List β) (List γ) where
  plain := List.map faces.plain
  loose := List.map faces.loose
  references := List.flatMap faces.references
  mentions := List.flatMap faces.mentions
  mentions_plain contents := by
    simp only [List.flatMap_map, faces.mentions_plain, List.map_flatMap]

namespace Pairing

variable {κ μ : Type} [Named μ] (pairing : Pairing κ μ)

/-- The vocabulary of the table. -/
def vocabulary : Vocabulary μ := pairing.lexicon.vocabulary pairing.resolve?

/-- A name is known that cannot be resolved after the ones that were. -/
def Stuck (state : κ) : Prop :=
  ∃ references full name, pairing.lexicon.Resolves state references full ∧ name ≠ "" ∧
    (pairing.resolve? name).isSome = true ∧ pairing.lexicon.resolve name full = none

/-- The reading with the lexicon goes as the one with the table, where `seen` has been
resolved for the content before. -/
structure Follows (faces : Faces α β γ) (seen : List Reference) (plain : Except Fault α)
    (resolving : Resolving κ β) : Prop where
  sound : ∀ {state after result}, resolving.run state = .ok (result, after) →
    ∃ content references, plain = .ok (faces.plain content) ∧ result = faces.loose content ∧
      faces.references content = seen ++ references ∧
      pairing.lexicon.Resolves state references after
  starts : ∀ {value}, plain = .ok value → ∃ content rest, faces.plain content = value ∧
    faces.mentions value = seen.map (·.name) ++ rest
  complete : ∀ {state value rest}, plain = .ok value →
    faces.mentions value = seen.map (·.name) ++ rest → pairing.lexicon.CanResolve state rest →
    ∃ result after, resolving.run state = .ok (result, after)
  faults : ∀ {state fault}, resolving.run state = .error fault →
    plain = .error fault ∨ pairing.Stuck state

namespace Follows

variable {pairing} {faces : Faces α β γ} {seen : List Reference}

theorem done (content : γ) (all : faces.references content = seen) :
    pairing.Follows faces seen (pure (faces.plain content))
      (pure (faces.loose content) : Resolving κ β) where
  sound outcome := by
    cases outcome
    exact ⟨content, [], rfl, rfl, by rw [all, List.append_nil], .nil _⟩
  starts outcome := by
    cases outcome
    exact ⟨content, [], rfl, by rw [faces.mentions_plain, all, List.append_nil]⟩
  complete _ _ _ := ⟨_, _, rfl⟩
  faults failed := by cases failed

theorem refused (fault : Fault) :
    pairing.Follows faces seen (throw fault) (throw fault : Resolving κ β) where
  sound outcome := by cases outcome
  starts outcome := by cases outcome
  complete outcome := by cases outcome
  faults failed := by
    cases failed
    exact .inl rfl

theorem choice {p q : Prop} [Decidable p] [Decidable q] (alike : q ↔ p)
    {first second : Except Fault α} {other another : Resolving κ β}
    (whenTrue : pairing.Follows faces seen first other)
    (whenFalse : pairing.Follows faces seen second another) :
    pairing.Follows faces seen (if p then first else second) (if q then other else another) := by
  by_cases holds : p
  · rwa [if_pos holds, if_pos (alike.mpr holds)]
  · rwa [if_neg holds, if_neg (mt alike.mp holds)]

/-- What is read may be taken for something more general. -/
theorem embed {special : Faces α β γ'} {plain : Except Fault α} {resolving : Resolving κ β}
    (follows : pairing.Follows special seen plain resolving) (general : γ' → γ)
    (plains : ∀ content, faces.plain (general content) = special.plain content)
    (looses : ∀ content, faces.loose (general content) = special.loose content)
    (references : ∀ content, faces.references (general content) = special.references content)
    (mentions : faces.mentions = special.mentions) :
    pairing.Follows faces seen plain resolving where
  sound outcome := by
    rcases follows.sound outcome with ⟨content, later, isPlain, isLoose, ofContent, resolves⟩
    exact ⟨general content, later, by rw [plains, isPlain], by rw [looses, isLoose],
      by rw [references, ofContent], resolves⟩
  starts outcome := by
    rcases follows.starts outcome with ⟨content, rest, isPlain, mentioned⟩
    exact ⟨general content, rest, by rw [plains, isPlain], by rw [mentions, mentioned]⟩
  complete outcome mentioned can := follows.complete outcome (by rw [← mentions, mentioned]) can
  faults := follows.faults

/-- What is read without resolving names leaves the state alone. -/
theorem lift {plain : Except Fault δ} {next : δ → Except Fault α} {other : δ → Resolving κ β}
    (further : ∀ value, pairing.Follows faces seen (next value) (other value)) :
    pairing.Follows faces seen (plain >>= next) (liftM plain >>= other) := by
  cases plain with
  | error fault => exact refused fault
  | ok value => exact further value

/-- What follows may use the content that has been read, and what has been resolved for it. -/
theorem bind {first : Faces α' β' γ'} {plain : Except Fault α'} {resolving : Resolving κ β'}
    {next : α' → Except Fault α} {other : β' → Resolving κ β}
    (follows : pairing.Follows first [] plain resolving)
    (further : ∀ content, pairing.Follows faces (seen ++ first.references content)
      (next (first.plain content)) (other (first.loose content))) :
    pairing.Follows faces seen (plain >>= next) (resolving >>= other) where
  sound outcome := by
    rcases ok_of_bind outcome with ⟨⟨_, between⟩, ran, outcome⟩
    rcases follows.sound ran with ⟨part, earlier, isPart, rfl, ofPart, resolves⟩
    rcases (further part).sound outcome with ⟨whole, later, isWhole, rfl, ofWhole, resolvesLater⟩
    refine ⟨whole, earlier ++ later, (bind_of_ok isPart).trans isWhole, rfl, ?_,
      resolves.append resolvesLater⟩
    rw [ofWhole, ofPart, List.nil_append, List.append_assoc]
  starts outcome := by
    rcases ok_of_bind outcome with ⟨_, isPart, outcome⟩
    rcases follows.starts isPart with ⟨part, _, rfl, _⟩
    rcases (further part).starts outcome with ⟨whole, rest, isWhole, mentions⟩
    rw [List.map_append, List.append_assoc] at mentions
    exact ⟨whole, _, isWhole, mentions⟩
  complete {state value rest} outcome mentions can := by
    rcases ok_of_bind outcome with ⟨_, isPart, outcome⟩
    rcases follows.starts isPart with ⟨part, _, rfl, _⟩
    rcases (further part).starts outcome with ⟨_, later, _, ofWhole⟩
    have ofPart : first.mentions (first.plain part) = (first.references part).map (·.name) :=
      first.mentions_plain part
    have splits : rest = (first.references part).map (·.name) ++ later := by
      rw [ofWhole, List.map_append, List.append_assoc] at mentions
      exact (List.append_cancel_left mentions).symm
    rw [splits] at can
    rcases follows.complete isPart ofPart can.first with ⟨_, between, ran⟩
    rcases follows.sound ran with ⟨found, references, isFound, rfl, ofFound, resolves⟩
    have samePart : first.plain part = first.plain found :=
      Except.ok.inj (isPart.symm.trans isFound)
    have sameNames : (first.references part).map (·.name) = references.map (·.name) := by
      rw [← ofPart, samePart, first.mentions_plain, ofFound, List.nil_append]
    rw [sameNames] at can
    rw [samePart] at outcome
    rcases (further found).complete outcome
      (by rw [ofWhole, List.map_append, List.map_append, sameNames, ofFound, List.nil_append])
      (can.second resolves) with ⟨result, after, completed⟩
    refine ⟨result, after, ?_⟩
    rw [StateT.run_bind, ran]
    exact completed
  faults {state fault} failed := by
    rw [StateT.run_bind] at failed
    cases ran : resolving.run state with
    | error earlier =>
        rw [ran] at failed
        cases failed
        refine (follows.faults ran).imp_left fun refused => ?_
        rw [refused]
        rfl
    | ok result =>
        rw [ran] at failed
        rcases follows.sound ran with ⟨part, earlier, isPart, isLoose, _, resolves⟩
        rw [bind_of_ok isPart]
        rw [show result = (first.loose part, result.2) from Prod.ext isLoose rfl] at failed
        refine ((further part).faults failed).imp_right ?_
        rintro ⟨later, full, name, resolvesLater, stuck⟩
        exact ⟨earlier ++ later, full, name, resolves.append resolvesLater, stuck⟩

end Follows

/-! ## The faces of what is read -/

theorem names_references (references : List Reference) :
    (references.map pairing.change).map Named.name = references.map (·.name) := by
  rw [List.map_map]
  exact List.map_congr_left fun reference _ => pairing.sameNames reference

def target : Faces μ Reference Reference where
  plain := pairing.change
  loose := id
  references reference := [reference]
  mentions target := [Named.name target]
  mentions_plain reference := pairing.names_references [reference]

def formula : Faces (Formula μ) (LooseFormula Reference) (Formula Reference) where
  plain := Formula.map pairing.change
  loose := Formula.loose
  references := Formula.references
  mentions formula := formula.references.map Named.name
  mentions_plain formula := by
    rw [Formula.references_map]
    exact pairing.names_references formula.references

def formulas : Faces (List (Formula μ)) (List (LooseFormula Reference)) (List (Formula Reference))
    where
  plain := Formula.mapAll pairing.change
  loose := Formula.looseAll
  references := Formula.referencesAll
  mentions formulas := (Formula.referencesAll formulas).map Named.name
  mentions_plain formulas := by
    rw [Formula.referencesAll_mapAll]
    exact pairing.names_references (Formula.referencesAll formulas)

def condition : Faces (Condition μ) (LooseCondition Reference) (Condition Reference) where
  plain := Condition.map pairing.change
  loose := Condition.loose
  references := Condition.references
  mentions condition := condition.references.map Named.name
  mentions_plain condition := by
    rw [Condition.references_map]
    exact pairing.names_references condition.references

def step : Faces (Step μ) (LooseStep Reference) (Step Reference) where
  plain := Step.map pairing.change
  loose := Step.loose
  references := Step.mentions
  mentions step := step.mentions.map Named.name
  mentions_plain step := by
    rw [Step.mentions_map]
    exact pairing.names_references step.mentions

def assignment : Faces (Assignment μ) (LooseAssignment Reference) (Assignment Reference) where
  plain := Assignment.map pairing.change
  loose := Assignment.loose
  references := Assignment.mentions
  mentions assignment := assignment.mentions.map Named.name
  mentions_plain assignment := by
    rw [Assignment.mentions_map]
    exact pairing.names_references assignment.mentions

/-- An assignment where any step could stand. -/
def assigned : Faces (Step μ) (LooseStep Reference) (Assignment Reference) where
  plain assignment := .assign (assignment.map pairing.change)
  loose assignment := .assign assignment.loose
  references := Assignment.mentions
  mentions step := step.mentions.map Named.name
  mentions_plain := pairing.assignment.mentions_plain

/-! ## Names -/

namespace Follows

variable {pairing}

theorem resolve {name : List Char} (filled : name ≠ []) (start : Nat) (cursor : Cursor) :
    pairing.Follows pairing.target [] (pairing.vocabulary.resolve name start cursor)
      (Resolving.resolve pairing.lexicon name start cursor) where
  sound outcome := by
    unfold Resolving.resolve at outcome
    rw [StateT.run_bind, StateT.run_get, pure_bind] at outcome
    split at outcome
    · rename_i id between resolved
      cases outcome
      exact ⟨⟨id, String.ofList name⟩, [⟨id, String.ofList name⟩],
        resolve_iff.mpr (pairing.known resolved), rfl, rfl, .cons resolved (.nil _)⟩
    · cases outcome
  starts outcome := by
    rcases pairing.named (resolve_iff.mp outcome) with ⟨reference, isTarget, _⟩
    exact ⟨reference, _, isTarget, rfl⟩
  complete outcome mentions can := by
    rcases pairing.named (resolve_iff.mp outcome) with ⟨reference, rfl, sameName⟩
    rcases can with ⟨references, after, resolves, rfl⟩
    cases resolves with
    | nil => cases mentions
    | @cons _ id _ between _ _ resolved resolvesRest =>
        rcases List.cons.inj mentions with ⟨names, _⟩
        have isName : _ = String.ofList name :=
          names.symm.trans ((pairing.sameNames reference).trans sameName)
        refine ⟨⟨id, String.ofList name⟩, between, ?_⟩
        rw [Resolving.resolve, StateT.run_bind, StateT.run_get, pure_bind, ← isName, resolved]
        rfl
  faults {state fault} failed := by
    unfold Resolving.resolve at failed
    rw [StateT.run_bind, StateT.run_get, pure_bind] at failed
    split at failed
    · cases failed
    · rename_i stuck
      cases failed
      unfold Vocabulary.resolve
      cases known : pairing.vocabulary.resolve? (String.ofList name) with
      | none => exact .inl rfl
      | some target =>
          refine .inr ⟨[], state, String.ofList name, .nil state, ?_, ?_, stuck⟩
          · exact fun empty => filled (by simpa using congrArg String.toList empty)
          · exact Option.isSome_iff_exists.mpr ⟨target, known⟩

end Follows

/-! ## One level -/

/-- The parsers for what stands deeper follow each other. -/
structure FollowsInside (deeper : Deeper μ) (inner : Resolving.Inner κ) : Prop where
  formula : ∀ cursor,
    pairing.Follows pairing.formula.stopped [] (deeper.formula cursor) (inner.formula cursor)
  condition : ∀ cursor,
    pairing.Follows pairing.condition.stopped [] (deeper.condition cursor)
      (inner.condition cursor)

namespace Follows

variable {pairing}

theorem whole {faces : Faces α β γ} {plain : Cursor → Except Fault (α × Cursor)}
    {resolving : Cursor → Resolving κ (β × Cursor)}
    (follows : ∀ cursor, pairing.Follows faces.stopped [] (plain cursor) (resolving cursor))
    (cursor : Cursor) :
    pairing.Follows faces [] (Grammar.whole plain cursor) (Resolving.whole resolving cursor) := by
  apply (follows cursor).bind
  intro read
  rcases read with ⟨content, stop⟩
  apply lift
  intro _
  exact done content rfl

theorem readAll {plain : Cursor → Except Fault (Formula μ)}
    {resolving : Cursor → Resolving κ (LooseFormula Reference)}
    (follows : ∀ cursor, pairing.Follows pairing.formula [] (plain cursor) (resolving cursor))
    (cursors : List Cursor) :
    pairing.Follows pairing.formulas [] (Grammar.readAll plain cursors)
      (Resolving.readAll resolving cursors) := by
  induction cursors with
  | nil => exact done [] rfl
  | cons cursor cursors induction =>
      apply (follows cursor).bind
      intro formula
      apply induction.bind
      intro formulas
      exact done (formula :: formulas) rfl

section Level

variable {faces : Faces α β γ} {seen : List Reference} {deeper : Option (Deeper μ)}
  {inner : Option (Resolving.Inner κ)}
  (levels : Option.Rel pairing.FollowsInside deeper inner)

include levels

/-- Either there is a level left in both readings or in none of them. -/
theorem enter {next : Deeper μ → Except Fault α} {other : Resolving.Inner κ → Resolving κ β}
    (further : ∀ {deeper inner}, pairing.FollowsInside deeper inner →
      pairing.Follows faces seen (next deeper) (other inner)) (cursor : Cursor) :
    pairing.Follows faces seen (pairing.vocabulary.enter deeper cursor >>= next)
      (Resolving.enter pairing.lexicon inner cursor >>= other) := by
  cases levels with
  | none => exact refused _
  | some inside => exact further inside

theorem readGroup {parse : Deeper μ → Cursor → Except Fault (α × Cursor)}
    {resolving : Resolving.Inner κ → Cursor → Resolving κ (β × Cursor)}
    (parses : ∀ {deeper inner}, pairing.FollowsInside deeper inner → ∀ cursor,
      pairing.Follows faces.stopped [] (parse deeper cursor) (resolving inner cursor))
    (cursor : Cursor) :
    pairing.Follows faces.stopped [] (Grammar.readGroup pairing.vocabulary deeper parse cursor)
      (Resolving.readGroup pairing.lexicon inner resolving cursor) := by
  apply enter levels
  intro _ _ inside
  apply (parses inside (cursor.advance 1)).bind
  intro read
  rcases read with ⟨content, stop⟩
  dsimp only [Faces.stopped]
  split
  · exact done (content, stop.skip.advance 1) rfl
  · exact refused _

theorem readCall (start : Nat) (name : List Char) (cursor : Cursor) :
    pairing.Follows pairing.formula.stopped []
      (Grammar.readCall pairing.vocabulary deeper start name cursor)
      (Resolving.readCall pairing.lexicon inner start name cursor) := by
  have signatures : pairing.vocabulary.signature? = pairing.lexicon.signature? := rfl
  unfold Grammar.readCall Resolving.readCall
  rw [signatures]
  cases known : pairing.lexicon.signature? (String.ofList name) with
  | none => exact refused _
  | some signature =>
      apply enter levels
      intro _ _ inside
      have formulas := whole inside.formula
      apply lift
      intro read
      rcases read with ⟨arguments, stop⟩
      cases signature with
      | choose =>
          rcases arguments with _ | ⟨test, _ | ⟨first, _ | ⟨second, _ | ⟨_, _⟩⟩⟩⟩
          · exact refused _
          · exact refused _
          · exact refused _
          · rw [pairing.chooses known]
            apply (whole inside.condition test).bind
            intro test
            apply (formulas first).bind
            intro first
            apply (formulas second).bind
            intro second
            refine done (Formula.choose test first second, stop) ?_
            simp [Faces.stopped, Pairing.formula, Pairing.condition, Formula.references]
          · exact refused _
      | native accepted =>
          dsimp only
          split
          · apply (readAll formulas _).bind
            intro values
            exact done (Formula.call (String.ofList name) values, stop) rfl
          · exact refused _

theorem readAtom (after : Option Operator) (cursor : Cursor) :
    pairing.Follows pairing.formula.stopped []
      (Grammar.readAtom pairing.vocabulary deeper after cursor)
      (Resolving.readAtom pairing.lexicon inner after cursor) := by
  unfold Grammar.readAtom Resolving.readAtom
  apply lift
  intro read
  rcases read with ⟨token, stop⟩
  dsimp only
  generalize (if token.head? = some '-' then token.tail else token) = body
  generalize decide (token.head? = some '-') = negative
  split
  · cases number? negative body with
    | none => exact refused _
    | some value => exact done (Formula.constant value, stop) rfl
  · split
    · split
      · apply (readGroup levels (fun inside => inside.formula) stop).bind
        intro read
        rcases read with ⟨content, behind⟩
        exact done (Formula.negate content, behind) rfl
      · exact refused _
    · rename_i notNumeric filled
      split
      · apply (readCall levels _ _ _).bind
        intro read
        rcases read with ⟨content, behind⟩
        cases negative with
        | true => exact done (Formula.negate content, behind) rfl
        | false => exact done (content, behind) rfl
      · apply (resolve (mt List.isEmpty_iff.mpr filled) _ _).bind
        intro reference
        cases negative with
        | true => exact done (Formula.negate (.name reference), stop) rfl
        | false => exact done (Formula.name reference, stop) rfl

theorem readOperand (after : Option Operator) (cursor : Cursor) :
    pairing.Follows pairing.formula.stopped []
      (Grammar.readOperand pairing.vocabulary deeper after cursor)
      (Resolving.readOperand pairing.lexicon inner after cursor) := by
  unfold Resolving.readOperand
  dsimp only
  split
  · rename_i next
    simp only [Grammar.readOperand, next]
    exact refused _
  · rename_i next
    simp only [Grammar.readOperand, next]
    exact refused _
  · rename_i next
    simp only [Grammar.readOperand, next]
    exact readGroup levels (fun inside => inside.formula) _
  · rename_i next
    simp only [Grammar.readOperand, next]
    exact readAtom levels after _

theorem readChain (budget fuel : Nat) (chain : Chain Reference) (cursor : Cursor) :
    pairing.Follows pairing.formula.stopped chain.finish.references
      (Grammar.readChain pairing.vocabulary deeper budget fuel (chain.map pairing.change) cursor)
      (Resolving.readChain pairing.lexicon inner budget fuel chain.loose cursor) := by
  have finished (chain : Chain Reference) (stop : Cursor) :
      pairing.Follows pairing.formula.stopped chain.finish.references
        (pure ((chain.map pairing.change).finish, stop)) (pure (chain.loose.finish, stop)) := by
    rw [Chain.map_finish, Chain.finish_loose]
    exact done (chain.finish, stop) rfl
  induction fuel generalizing chain cursor with
  | zero => exact finished chain cursor
  | succ fuel induction =>
      unfold Resolving.readChain
      dsimp only
      split
      · rename_i next
        simp only [Grammar.readChain, next]
        exact finished chain _
      · rename_i next
        simp only [Grammar.readChain, next]
        exact finished chain _
      · rename_i symbol _ next
        simp only [Grammar.readChain, next]
        cases Operator.ofSymbol? symbol with
        | none => exact refused _
        | some operator =>
            apply (readOperand levels _ _).bind
            intro read
            rcases read with ⟨term, stop⟩
            have further := induction (chain.push operator term) stop
            have depths := (Chain.depth_loose (chain.push operator term)).trans
              (Chain.depth_map pairing.change (chain.push operator term)).symm
            rw [references_push, Chain.map_push, Chain.loose_push] at further
            rw [Chain.map_push, Chain.loose_push] at depths
            exact choice (iff_of_eq (congrArg (budget < ·) depths)) (refused _) further

theorem readFormula (budget : Nat) (cursor : Cursor) :
    pairing.Follows pairing.formula.stopped []
      (Grammar.readFormula pairing.vocabulary deeper budget cursor)
      (Resolving.readFormula pairing.lexicon inner budget cursor) := by
  have chained (cursor : Cursor) : pairing.Follows pairing.formula.stopped []
      (Grammar.readOperand pairing.vocabulary deeper none cursor >>= fun read =>
        Grammar.readChain pairing.vocabulary deeper budget (read.2.rest.length + 1)
          (.start read.1) read.2)
      (Resolving.readOperand pairing.lexicon inner none cursor >>= fun read =>
        Resolving.readChain pairing.lexicon inner budget (read.2.rest.length + 1)
          (.start read.1) read.2) := by
    apply (readOperand levels none cursor).bind
    intro read
    rcases read with ⟨term, stop⟩
    have further := readChain levels budget (stop.rest.length + 1) (.start term) stop
    rw [Chain.map_start, Chain.loose_start] at further
    exact further
  unfold Resolving.readFormula
  dsimp only
  split
  · rename_i next
    simp only [Grammar.readFormula, next]
    exact refused _
  · rename_i next
    simp only [Grammar.readFormula, next]
    exact refused _
  · rename_i symbol _ next
    simp only [Grammar.readFormula, next]
    rcases Operator.ofSymbol? symbol with _ | (_ | _ | _ | _ | _)
    · exact chained _
    · exact refused _
    · exact chained _
    · exact refused _
    · exact refused _
    · exact refused _

omit levels in
theorem readComparison {plain : Cursor → Except Fault (Formula μ × Cursor)}
    {resolving : Cursor → Resolving κ (LooseFormula Reference × Cursor)}
    (parses : ∀ cursor,
      pairing.Follows pairing.formula.stopped [] (plain cursor) (resolving cursor))
    (cursor : Cursor) :
    pairing.Follows pairing.condition.stopped [] (Grammar.readComparison plain cursor)
      (Resolving.readComparison resolving cursor) := by
  unfold Grammar.readComparison Resolving.readComparison
  dsimp only
  split
  · exact refused _
  · split
    · cases literal? (Text.trim (cursor.upTo (skipOperand true cursor)).rest) with
      | none => exact refused _
      | some value => exact done (Condition.literal value, _) rfl
    · cases Comparison.ofSymbol? ((skipOperand true cursor).rest.takeWhile isComparisonSymbol) with
      | none => exact refused _
      | some comparison =>
          dsimp only
          split
          · exact refused _
          · apply (whole parses _).bind
            intro left
            apply (whole parses _).bind
            intro right
            exact done (Condition.compare left comparison right, _) rfl

theorem readConnective (left : Condition Reference) (cursor : Cursor) :
    pairing.Follows pairing.condition.stopped left.references
      (Grammar.readConnective pairing.vocabulary deeper (left.map pairing.change) cursor)
      (Resolving.readConnective pairing.lexicon inner left.loose cursor) := by
  unfold Resolving.readConnective
  dsimp only
  split
  · rename_i next
    simp only [Grammar.readConnective, next]
    exact done (left, _) rfl
  · rename_i next
    simp only [Grammar.readConnective, next]
    exact done (left, _) rfl
  · rename_i symbol _ next
    simp only [Grammar.readConnective, next]
    cases Connective.ofCharacter? symbol with
    | none => exact refused _
    | some connective =>
        dsimp only
        split
        · exact refused _
        · split
          · exact refused _
          · apply enter levels
            intro _ _ inside
            apply (inside.condition _).bind
            intro read
            rcases read with ⟨right, stop⟩
            exact done (Condition.connect left connective right, stop) rfl

theorem readCondition (budget : Nat) (cursor : Cursor) :
    pairing.Follows pairing.condition.stopped []
      (Grammar.readCondition pairing.vocabulary deeper
        (Grammar.readFormula pairing.vocabulary deeper budget) cursor)
      (Resolving.readCondition pairing.lexicon inner budget cursor) := by
  have connected {plain : Except Fault (Condition μ × Cursor)}
      {resolving : Resolving κ (LooseCondition Reference × Cursor)}
      (follows : pairing.Follows pairing.condition.stopped [] plain resolving) :
      pairing.Follows pairing.condition.stopped []
        (plain >>= fun read =>
          Grammar.readConnective pairing.vocabulary deeper read.1 read.2)
        (resolving >>= fun read =>
          Resolving.readConnective pairing.lexicon inner read.1 read.2) := by
    apply follows.bind
    intro read
    rcases read with ⟨left, stop⟩
    exact readConnective levels left stop
  unfold Resolving.readCondition
  dsimp only
  split
  · rename_i next
    simp only [Grammar.readCondition, next]
    exact refused _
  · rename_i next
    simp only [Grammar.readCondition, next]
    exact refused _
  · rename_i next
    simp only [Grammar.readCondition, next]
    split
    · exact refused _
    · split
      · exact connected (readGroup levels (fun inside => inside.condition) _)
      · exact connected (readComparison (readFormula levels budget) _)

end Level

/-! ## All levels -/

/-- At every level the readings go alike. -/
theorem levels (pairing : Pairing κ μ) (budget : Nat) :
    Option.Rel pairing.FollowsInside (Grammar.levels pairing.vocabulary budget)
      (Resolving.levels pairing.lexicon budget) := by
  induction budget with
  | zero => exact .none
  | succ budget induction =>
      refine .some ⟨?_, ?_⟩
      · rw [formula_eq]
        exact readFormula induction budget
      · rw [condition_eq, formula_eq]
        exact readCondition induction budget

theorem wholeFormula (pairing : Pairing κ μ) (cursor : Cursor) :
    pairing.Follows pairing.formula [] (Grammar.wholeFormula pairing.vocabulary cursor)
      (Resolving.wholeFormula pairing.lexicon cursor) := by
  unfold Grammar.wholeFormula
  rw [formula_eq]
  exact whole (readFormula (levels pairing _) _) cursor

theorem wholeCondition (pairing : Pairing κ μ) (cursor : Cursor) :
    pairing.Follows pairing.condition [] (Grammar.wholeCondition pairing.vocabulary cursor)
      (Resolving.wholeCondition pairing.lexicon cursor) := by
  unfold Grammar.wholeCondition
  rw [condition_eq, formula_eq]
  exact whole (readCondition (levels pairing _) _) cursor

/-! ## Statements -/

theorem readReturn (cursor : Cursor) :
    pairing.Follows pairing.step.stopped [] (Grammar.readReturn pairing.vocabulary cursor)
      (Resolving.readReturn pairing.lexicon cursor) := by
  unfold Grammar.readReturn Resolving.readReturn
  apply lift
  intro read
  rcases read with ⟨arguments, stop⟩
  rcases arguments with _ | ⟨first, _ | ⟨second, _ | ⟨_, _⟩⟩⟩
  · exact refused _
  · apply (wholeFormula pairing first).bind
    intro value
    exact done (Step.return none value, stop) rfl
  · apply (wholeCondition pairing first).bind
    intro test
    apply (wholeFormula pairing second).bind
    intro value
    exact done (Step.return (some test) value, stop) rfl
  · exact refused _

theorem readAssignment (cursor : Cursor) :
    pairing.Follows pairing.assigned.stopped [] (Grammar.readStep pairing.vocabulary false cursor)
      (Resolving.readStep pairing.lexicon false cursor) := by
  have separators : pairing.vocabulary.stepSeparator = pairing.lexicon.stepSeparator := rfl
  unfold Grammar.readStep Resolving.readStep
  rw [separators]
  dsimp only [Bool.false_and]
  apply lift
  intro read
  rcases read with ⟨update, afterUpdate⟩
  dsimp only
  split
  · exact refused _
  · rename_i filled
    apply (resolve (mt List.isEmpty_iff.mpr filled) _ _).bind
    intro target
    apply lift
    intro read
    rcases read with ⟨extent, stop⟩
    dsimp only
    split
    · exact refused _
    · apply (wholeFormula pairing extent).bind
      intro value
      exact done ((⟨target, update, value⟩ : Assignment Reference), stop) rfl

theorem readStep (cursor : Cursor) :
    pairing.Follows pairing.step.stopped [] (Grammar.readStep pairing.vocabulary true cursor)
      (Resolving.readStep pairing.lexicon true cursor) :=
  choice Iff.rfl (readReturn _) ((readAssignment cursor).embed
    (fun read : Assignment Reference × Cursor => (Step.assign read.1, read.2)) (fun _ => rfl)
    (fun _ => rfl) (fun _ => rfl) rfl)

theorem readSteps {faces : Faces (Step μ) (LooseStep Reference) γ} {allowReturn : Bool}
    (follows : ∀ cursor, pairing.Follows faces.stopped []
      (Grammar.readStep pairing.vocabulary allowReturn cursor)
      (Resolving.readStep pairing.lexicon allowReturn cursor))
    (fuel : Nat) (cursor : Cursor) :
    pairing.Follows faces.all.stopped []
      (Grammar.readSteps pairing.vocabulary allowReturn fuel cursor)
      (Resolving.readSteps pairing.lexicon allowReturn fuel cursor) := by
  induction fuel generalizing cursor with
  | zero => exact done ([], cursor) rfl
  | succ fuel induction =>
      unfold Grammar.readSteps Resolving.readSteps
      apply choice Iff.rfl
      · exact done ([], _) rfl
      · apply (follows _).bind
        intro read
        rcases read with ⟨step, stop⟩
        apply (induction stop).bind
        intro read
        rcases read with ⟨steps, last⟩
        exact done (step :: steps, last) rfl

theorem wholeProcess (pairing : Pairing κ μ) (text : List Char) :
    pairing.Follows pairing.step.all [] (Grammar.wholeProcess pairing.vocabulary text)
      (Resolving.wholeProcess pairing.lexicon text) := by
  apply (readSteps readStep _ _).bind
  intro read
  rcases read with ⟨steps, stop⟩
  cases steps with
  | nil => exact refused _
  | cons step steps => exact done (step :: steps) rfl

theorem wholeOperations (pairing : Pairing κ μ) (text : List Char) :
    pairing.Follows pairing.assignment.all [] (Grammar.wholeOperations pairing.vocabulary text)
      (Resolving.wholeOperations pairing.lexicon text) := by
  apply (readSteps readAssignment _ _).bind
  intro read
  rcases read with ⟨assignments, stop⟩
  simp only [Faces.stopped, Faces.all, assigned, List.filterMap_map, Function.comp_def,
    List.filterMap_eq_map']
  cases assignments with
  | nil => exact refused _
  | cons assignment assignments => exact done (assignment :: assignments) rfl

end Follows

end Pairing

end NumericRules.Grammar
