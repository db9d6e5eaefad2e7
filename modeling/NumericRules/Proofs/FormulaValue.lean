import NumericRules.Proofs.Blanking
import NumericRules.Proofs.Grammar.Pacing
import NumericRules.Proofs.SymbolicForm

/-! # Formulas as values of assignments

A formula is the value of an assignment exactly when no opening bracket in it stands
before a gap and an operand. The scan for the end of the value takes such a gap for one
between two operands.
-/

namespace NumericRules

namespace Grammar

open Text

/-! ## The extent of a formula -/

theorem Alike.succeedsIf {first other : Except Fault α} (alike : Alike Eq first other)
    {condition : Bool} {result : α} (succeeds : SucceedsIf condition result other) :
    SucceedsIf condition result first := by
  cases alike with
  | accepted equal => rwa [equal]
  | refused =>
      constructor
      · intro holds
        cases succeeds.ok holds
      · exact fun _ => ⟨_, rfl⟩

/-- Formulas are read behind a gap. -/
theorem wholeFormula_skip (vocabulary : Vocabulary ν) (cursor : Cursor) :
    wholeFormula vocabulary cursor.skip = wholeFormula vocabulary cursor := by
  simp only [wholeFormula, whole, formula_eq, readFormula, Cursor.skip_skip]

/-- At the start of a value nothing is due, but an operand goes on. -/
theorem Paced.start {depth : Nat} {mark other : Mark} {next : Pace} {text : List Char}
    (paced : Paced ⟨depth, mark, false⟩ text next)
    (begins : ∀ character, text.head? = some character → isBlank character = false) :
    ∃ next, Paced ⟨depth, other, false⟩ text next := by
  cases paced with
  | nil => exact ⟨_, .nil⟩
  | @blank _ _ character _ blank _ =>
      rw [begins character rfl] at blank
      cases blank
  | closing further => exact ⟨_, .closing further⟩
  | continuing continues further => exact ⟨_, .continuing continues further⟩
  | opening _ further => exact ⟨_, .opening (fun _ => rfl) further⟩
  | operand isOperandCharacter notOpening _ further =>
      exact ⟨_, .operand isOperandCharacter notOpening (fun _ => rfl) further⟩

theorem hasSpacedOpening_gap {gap : List Char} (blank : gap.all isBlank = true) (text : List Char) :
    hasSpacedOpening (gap ++ text) = hasSpacedOpening text := by
  induction gap with
  | nil => rfl
  | cons character gap induction =>
      rw [List.all_cons, Bool.and_eq_true] at blank
      have notOpening : character ≠ '(' := by
        rintro rfl
        exact absurd blank.1 (by decide)
      rw [List.cons_append, hasSpacedOpening_other notOpening, induction blank.2]

/-- How the name of an assignment may be written. -/
structure IsTarget (name : List Char) : Prop where
  nonempty : name ≠ []
  characters : ∀ character ∈ name, endsName ' ' character = false

theorem IsWord.isTarget {name : List Char} (word : IsWord name) : IsTarget name where
  nonempty := word.ne_nil
  characters character inside := endsName_word (List.all_eq_true.mp word.1 character inside)

section Values

variable {vocabulary : Vocabulary ν} (comma : vocabulary.argumentSeparator = ',')

include comma

/-- An accepted formula without comments is one value from end to end. -/
theorem valueEnd_formula {cursor : Cursor} {tree : Formula ν}
    (accepted : wholeFormula vocabulary cursor = .ok tree)
    (commentless : ¬ ['/', '/'] <:+: cursor.rest) (settled : Settled cursor.rest) :
    Reaches cursor.index cursor.rest (hasSpacedOpening cursor.rest)
      (valueEnd ' ' ',' false { stop := cursor.index } cursor.index cursor.rest) := by
  have derivation := (formula_condition_reads vocabulary _).1.whole accepted
  have due : (⟨0, .continuing, false⟩ : Pace).mark ≠ .operand := by simp
  rcases (derivation.relax (covers_of_commentless comma commentless)).keeps comma due with
    ⟨_, paced, _⟩
  rcases paced.start fun character first => (settled character first).1 with ⟨next, started⟩
  have meets : Pace.Meets ⟨0, .operand, false⟩ { stop := cursor.index } :=
    ⟨rfl, rfl, fun _ _ => ⟨rfl, rfl⟩, nofun⟩
  exact valueEnd_paced started commentless meets [] (by simp)

/-- The extent of a formula is all of it but for blanks at its end, unless a bracket opens
before a gap and an operand. -/
theorem readExtent_formula {cursor : Cursor} {tree : Formula ν}
    (accepted : wholeFormula vocabulary cursor = .ok tree)
    (commentless : ¬ ['/', '/'] <:+: cursor.rest) :
    ∃ extent stop, stop.rest = [] ∧ wholeFormula vocabulary extent = .ok tree ∧
      SucceedsIf (!hasSpacedOpening cursor.rest) (extent, stop)
        (readExtent ' ' ',' cursor.skip) := by
  rcases cursor.skip_spans with ⟨gap, spans, skippable⟩
  have blank : gap.all isBlank = true := by
    refine skippable.resolve_left fun comment => commentless (comment.trans ?_)
    rw [spans.rest]
    exact List.prefix_append gap _ |>.isInfix
  have same : hasSpacedOpening cursor.rest = hasSpacedOpening cursor.skip.rest := by
    rw [spans.rest, hasSpacedOpening_gap blank]
  have skippedCommentless : ¬ ['/', '/'] <:+: cursor.skip.rest := by
    intro comment
    apply commentless
    rw [spans.rest]
    exact comment.trans (List.suffix_append gap _).isInfix
  have skipped : wholeFormula vocabulary cursor.skip = .ok tree := by
    rwa [wholeFormula_skip]
  have reaches := valueEnd_formula comma skipped skippedCommentless
    (Cursor.skipFrom_settled false cursor.index cursor.rest)
  rw [same]
  generalize cursor.skip = start at reaches skipped skippedCommentless ⊢
  unfold readExtent
  generalize valueEnd ' ' ',' false { stop := start.index } start.index start.rest = outcome
    at reaches ⊢
  generalize hasSpacedOpening start.rest = refused at reaches ⊢
  cases reaches with
  | refused => exact ⟨start, ⟨0, []⟩, rfl, skipped, nofun, fun _ => ⟨_, rfl⟩⟩
  | @found stop next atEnd blankBehind =>
      refine ⟨_, next, atEnd, ?_, fun _ => rfl, nofun⟩
      have core : ¬ ['/', '/'] <:+: start.rest.take (stop - start.index) := fun comment =>
        skippedCommentless (comment.trans (List.take_prefix _ _).isInfix)
      have blanked : Blanked true false 0 false start.rest (start.rest.take (stop - start.index)) :=
        ⟨start.rest.take (stop - start.index), _, (List.take_append_drop _ _).symm,
          (blankFrom_of_commentless core).symm, unobtrusiveFrom_of_commentless core, blankBehind,
          nofun⟩
      have alike : Alike Eq (wholeFormula vocabulary start)
          (wholeFormula vocabulary ⟨start.index, start.rest.take (stop - start.index)⟩) :=
        wholeFormula_blanked comma blanked
      exact alike.eq_ok skipped

/-! ## Assignments -/

variable (space : vocabulary.stepSeparator = ' ')

include space

theorem readStep_formula {name text : List Char} (target : IsTarget name) {reference : ν}
    (known : vocabulary.resolve? (String.ofList name) = some reference) {tree : Formula ν}
    (accepted : wholeFormula vocabulary (.start text) = .ok tree)
    (commentless : ¬ ['/', '/'] <:+: text) :
    ∃ stop, stop.rest = [] ∧ SucceedsIf (!hasSpacedOpening text)
      (.assign ⟨reference, .set, tree⟩, stop)
      (readStep vocabulary false ⟨0, name ++ '=' :: text⟩) := by
  let value : Cursor := ⟨name.length + 1, text⟩
  have moved : wholeFormula vocabulary value = .ok tree :=
    wholeFormula_relocated comma commentless accepted value.index
  have taken :
      (name ++ '=' :: text).takeWhile (fun character => !endsName ' ' character) = name :=
    takeWhile_unended target.characters (by decide) text
  have afterName : (Cursor.advance ⟨0, name ++ '=' :: text⟩ name.length).skip =
      ⟨name.length, '=' :: text⟩ := by
    rw [advance_name, Nat.zero_add]
    apply Cursor.skip_of_settled
    intro character first
    cases first
    exact ⟨by decide, by simp⟩
  have updated : readUpdate name 0 ⟨name.length, '=' :: text⟩ = .ok (.set, value) :=
    readUpdate_symbol name .set 0 name.length text
  have resolved : vocabulary.resolve name 0 value = .ok reference := by
    rw [Vocabulary.resolve, known]
    rfl
  have filled : name.isEmpty = false := List.isEmpty_eq_false_iff.mpr target.nonempty
  rcases readExtent_formula comma moved commentless with ⟨extent, stop, atEnd, read, extentRead⟩
  have valueFilled : extent.rest.isEmpty = false := by
    rw [List.isEmpty_eq_false_iff]
    intro empty
    have nothing : extent.skip.rest = [] := by
      rcases extent with ⟨index, rest⟩
      subst empty
      rfl
    rcases whole_refuses (formula_refuses vocabulary vocabulary.nestingLimit) nothing with
      ⟨fault, refused⟩
    rw [wholeFormula, refused] at read
    cases read
  refine ⟨stop, atEnd, ?_⟩
  simp only [readStep, space, comma, taken, afterName, Bool.false_and, Bool.false_eq_true, if_false]
  apply SucceedsIf.after updated
  simp only [filled, Bool.false_eq_true, if_false]
  apply SucceedsIf.after resolved
  rw [← Bool.and_true (!hasSpacedOpening text)]
  apply extentRead.bind
  simp only [valueFilled, Bool.false_eq_true, if_false]
  exact .after read (.pure _)

/-- A formula without comments is the value of an assignment unless an opening bracket in
it stands before a gap and an operand. -/
theorem wholeOperations_formula {name text : List Char} (target : IsTarget name) {reference : ν}
    (known : vocabulary.resolve? (String.ofList name) = some reference) {tree : Formula ν}
    (accepted : wholeFormula vocabulary (.start text) = .ok tree)
    (commentless : ¬ ['/', '/'] <:+: text) :
    SucceedsIf (!hasSpacedOpening text) [⟨reference, .set, tree⟩]
      (wholeOperations vocabulary (name ++ '=' :: text)) := by
  rcases readStep_formula comma space target known accepted commentless with
    ⟨stop, atEnd, stepRead⟩
  rcases readSteps_end vocabulary false (name ++ '=' :: text).length atEnd with ⟨last, noSteps⟩
  have settled : Settled (name ++ '=' :: text) := by
    rcases List.exists_cons_of_ne_nil target.nonempty with ⟨first, rest, rfl⟩
    intro character isFirst
    cases isFirst
    have inName := target.characters first (List.mem_cons_self ..)
    simp only [endsName, Bool.or_eq_false_iff] at inName
    refine ⟨inName.1.1, ?_⟩
    rintro rfl
    exact absurd inName.2 (by decide)
  have start : (Cursor.start (name ++ '=' :: text)).skip = .start (name ++ '=' :: text) :=
    Cursor.skip_of_settled settled
  have nonempty : (Cursor.start (name ++ '=' :: text)).rest.isEmpty = false := by
    simp [Cursor.start]
  have steps : SucceedsIf (!hasSpacedOpening text) ([.assign ⟨reference, .set, tree⟩], last)
      (readSteps vocabulary false ((name ++ '=' :: text).length + 1)
        (.start (name ++ '=' :: text))) := by
    unfold readSteps
    simp only [space, skipSeparators_eq_skip, start, nonempty, Bool.false_eq_true, if_false]
    rw [← Bool.and_true (!hasSpacedOpening text)]
    exact stepRead.bind (.after noSteps (.pure _))
  rw [← Bool.and_true (!hasSpacedOpening text)]
  exact steps.bind (.pure _)

end Values

/-! ## Comments -/

/-- Text without slashes and brackets is left alone. -/
theorem blankFrom_plain {front : List Char} (noSlash : '/' ∉ front) (text : List Char) :
    blankFrom false (front ++ text) = front ++ blankFrom false text := by
  induction front with
  | nil => rfl
  | cons character front induction =>
      rw [List.mem_cons, not_or] at noSlash
      have apart : character = '/' → (front ++ text).head? ≠ some '/' := fun isSlash =>
        absurd isSlash.symm noSlash.1
      rw [List.cons_append, blankFrom_code (by simp) apart, induction noSlash.2]
      rfl

theorem unobtrusiveFrom_plain {continued word : Bool} {front : List Char} (noSlash : '/' ∉ front)
    (noOpening : '(' ∉ front) (noClosing : ')' ∉ front) {text : List Char}
    (unobtrusive : unobtrusiveFrom continued false 0 (front.foldl wordAfter word) text = true) :
    unobtrusiveFrom continued false 0 word (front ++ text) = true := by
  induction front generalizing word with
  | nil => exact unobtrusive
  | cons character front induction =>
      rw [List.mem_cons, not_or] at noSlash noOpening noClosing
      have apart : character = '/' → (front ++ text).head? ≠ some '/' := fun isSlash =>
        absurd isSlash.symm noSlash.1
      rw [List.cons_append, unobtrusiveFrom_code (by simp) apart,
        depthAfter_other (Ne.symm noOpening.1) (Ne.symm noClosing.1)]
      exact ⟨fun counts => absurd rfl counts,
        induction noSlash.2 noOpening.2 noClosing.2 unobtrusive⟩

/-- Names of assignments have neither slashes nor brackets. -/
theorem IsTarget.plain {name : List Char} (target : IsTarget name) {character : Char}
    (ends : endsName ' ' character = true) : character ∉ name := by
  intro inside
  rw [target.characters character inside] at ends
  cases ends

end Grammar

namespace Engine

open Grammar

/-- The text of a formula behind a name and an equals sign is one assignment of its tree
exactly when no opening bracket of the formula stands before a gap and an operand. -/
theorem parseOperations_formula (engine : Engine σ)
    (comma : engine.settings.argumentSeparator = ',')
    (space : engine.settings.stepSeparator = ' ') {name : String} {reference : Reference}
    (known : engine.reference? name = some reference) (target : IsTarget name.toList)
    {text : String} {start next : World σ} {rule : FormulaRule}
    (accepted : engine.parseFormula text start = some (.ok rule, next))
    (ignored : Language.formula.ignoresComments text = true)
    (fits : (name ++ "=" ++ text).utf8ByteSize ≤ engine.settings.maxSourceBytes)
    (world : World σ) :
    ∃ outcome after, engine.parseOperations (name ++ "=" ++ text) world = some (outcome, after) ∧
      SucceedsIf (!hasSpacedOpening (blankComments text.toList))
        ⟨⟨world.readings⟩, [⟨reference, .set, rule.root⟩], engine.settings.stepSeparator⟩
        outcome := by
  rcases ok_of_numbered accepted with ⟨tree, read, rfl⟩
  let vocabulary := engine.vocabulary engine.reference?
  have blankAccepted : wholeFormula vocabulary (.start (blankComments text.toList)) = .ok tree := by
    have blanked : Blanked false false 0 false text.toList (blankComments text.toList) :=
      .of_text ignored
    have alike : Alike Eq (wholeFormula vocabulary (.start text.toList))
        (wholeFormula vocabulary (.start (blankComments text.toList))) :=
      wholeFormula_blanked comma blanked
    exact alike.eq_ok (parse_of_readText read)
  have knownWord : vocabulary.resolve? (String.ofList name.toList) = some reference := by
    rwa [String.ofList_toList]
  have blankRead := wholeOperations_formula comma space target knownWord blankAccepted
    (commentless_blankFrom false text.toList)
  have characters : name ++ "=" ++ text =
      String.ofList ((name.toList ++ ['=']) ++ text.toList) := by
    simp [String.ofList_append, String.append_assoc]
  have plain {character : Char} (ends : endsName ' ' character = true) (other : character ≠ '=') :
      character ∉ name.toList ++ ['='] := by
    simpa [other] using target.plain ends
  have noSlash := plain (show endsName ' ' '/' = true by decide) (by decide)
  have unobtrusive : unobtrusiveFrom false false 0 false ((name.toList ++ ['=']) ++ text.toList) =
      true := by
    apply unobtrusiveFrom_plain noSlash (plain (by decide) (by decide))
      (plain (by decide) (by decide))
    rw [List.foldl_append]
    exact ignored
  have alike : Alike Eq (wholeOperations vocabulary ((name.toList ++ ['=']) ++ text.toList))
      (wholeOperations vocabulary (blankComments ((name.toList ++ ['=']) ++ text.toList))) :=
    wholeOperations_blank comma space unobtrusive
  have image : blankComments ((name.toList ++ ['=']) ++ text.toList) =
      name.toList ++ '=' :: blankComments text.toList := by
    rw [blankComments, blankFrom_plain noSlash, List.append_assoc]
    rfl
  rw [image] at alike
  rw [characters] at fits ⊢
  have succeeds : SucceedsIf (!hasSpacedOpening (blankComments text.toList))
      [⟨reference, .set, tree⟩]
      (engine.readOperations (String.ofList ((name.toList ++ ['=']) ++ text.toList))) :=
    readText_succeedsIf fits (alike.succeedsIf blankRead)
  exact numbered_succeedsIf succeeds _ world

/-! ### A formula that is a value and one that is not -/

/-- A formula over two lines, with a comment and gaps in its brackets. -/
def roundedText : String := "Min(x , // upper bound\n (2\n+ -x) )"

theorem parseOperations_formula_rounded :
    measuring.settings.argumentSeparator = ',' ∧ measuring.settings.stepSeparator = ' ' ∧
    IsTarget "x".toList ∧ Language.formula.ignoresComments roundedText = true ∧
    hasSpacedOpening (blankComments roundedText.toList) = false ∧
    ∃ reference rule next after, measuring.reference? "x" = some reference ∧
      measuring.parseFormula roundedText (measuring.start 0 (.ofSeed 0)) =
        some (.ok rule, next) ∧
      measuring.parseOperations ("x" ++ "=" ++ roundedText) next =
        some (.ok ⟨⟨1⟩, [⟨reference, .set, rule.root⟩], ' '⟩, after) := by
  have target : IsTarget "x".toList := IsWord.isTarget (by decide)
  have known : ∃ reference, measuring.reference? "x" = some reference := ⟨_, rfl⟩
  have accepted : ∃ rule next, measuring.parseFormula roundedText (measuring.start 0 (.ofSeed 0)) =
      some (.ok rule, next) ∧ next.readings = 1 := ⟨_, _, rfl, rfl⟩
  have ignored : Language.formula.ignoresComments roundedText = true := by decide
  have unspaced : hasSpacedOpening (blankComments roundedText.toList) = false := by decide
  rcases known with ⟨reference, known⟩
  rcases accepted with ⟨rule, next, accepted, readings⟩
  rcases parseOperations_formula measuring rfl rfl known target accepted ignored (by decide)
    next with ⟨outcome, after, ran, succeeds⟩
  have result := succeeds.ok (by rw [unspaced]; rfl)
  rw [readings] at result
  subst result
  exact ⟨rfl, rfl, target, ignored, unspaced, reference, rule, next, after, known, accepted,
    ran⟩

/-- A blank behind an opening bracket means nothing to a formula, but as a value the same
text is refused. -/
theorem spaced_opening_refused :
    measuring.readFormula "( 1)" = .ok (.constant ⟨0x3ff0000000000000⟩) ∧
    (∃ reference, measuring.reference? "x" = some reference) ∧
    ∀ assignments, measuring.readOperations ("x" ++ "=" ++ "( 1)") ≠ .ok assignments := by
  have refused : ∃ fault, measuring.readOperations ("x" ++ "=" ++ "( 1)") = .error fault := ⟨_, rfl⟩
  refine ⟨rfl, ⟨_, rfl⟩, fun assignments read => ?_⟩
  rcases refused with ⟨fault, refused⟩
  rw [refused] at read
  cases read

end Engine

end NumericRules
