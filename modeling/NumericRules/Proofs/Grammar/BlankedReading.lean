import NumericRules.Proofs.Grammar.BlankedScans
import NumericRules.Proofs.Grammar.Limits
import NumericRules.Proofs.Grammar.Soundness

/-! # Reading blanked text

Formulas and conditions are read alike from a text and from the text with its
unobtrusive comments blanked.
-/

namespace NumericRules.Grammar

open Text

/-! ## Parsers -/

/-- Equal results, with blanked text behind them. -/
def StopsBlanked (trailing continued : Bool) (depth : Nat) (result image : α × Cursor) : Prop :=
  result.1 = image.1 ∧
    ∃ word, Blanked trailing continued depth word result.2.rest image.2.rest

/-- Blanking comments changes nothing for a parser. -/
def Insensitive (trailing continued : Bool) (depth : Nat)
    (parse : Cursor → Except Fault (α × Cursor)) : Prop :=
  ∀ {cursor image : Cursor}, Blanked trailing continued depth false cursor.rest image.rest →
    Alike (StopsBlanked trailing continued depth) (parse cursor) (parse image)

/-- There is nothing to read in a gap. -/
def RefusesGaps (parse : Cursor → Except Fault (α × Cursor)) : Prop :=
  ∀ {cursor : Cursor}, cursor.skip.rest = [] → ∃ fault, parse cursor = .error fault

/-- Blanking comments changes nothing for the parsers of what stands deeper. Conditions
are read inside brackets or in a text of their own, whose brackets count. -/
structure Deeper.Insensitive (inner : Deeper ν) : Prop where
  formula : ∀ {trailing continued depth}, Grammar.Insensitive trailing continued depth inner.formula
  condition : ∀ {base}, Grammar.Insensitive false false (base + 1) inner.condition
  formulaRefuses : RefusesGaps inner.formula
  conditionRefuses : RefusesGaps inner.condition

theorem Alike.eq_ok {first other : Except Fault α} (alike : Alike Eq first other) {value : α}
    (succeeded : first = .ok value) : other = .ok value := by
  cases alike with
  | refused => cases succeeded
  | accepted equal =>
      rw [← equal]
      exact succeeded

theorem Alike.bind_eq {same : α → β → Prop} {result : γ → δ → Prop} {first : Except Fault α}
    {other : Except Fault β} {next : α → Except Fault γ} {nextOther : β → Except Fault δ}
    (alike : Alike same first other)
    (further : ∀ value image, first = .ok value → other = .ok image → same value image →
      Alike result (next value) (nextOther image)) :
    Alike result (first >>= next) (other >>= nextOther) := by
  cases alike with
  | refused => exact .refused
  | accepted agree => exact further _ _ rfl rfl agree

/-- What begins with a fault is one. -/
theorem error_of_first {first : Except Fault α} {next : α → Except Fault β}
    (refused : ∃ fault, first = .error fault) : ∃ fault, (first >>= next) = .error fault := by
  rcases refused with ⟨fault, rfl⟩
  exact ⟨fault, rfl⟩

/-- What goes on with a fault is one. -/
theorem error_of_next {first : Except Fault α} {next : α → Except Fault β}
    (refused : ∀ value, ∃ fault, next value = .error fault) :
    ∃ fault, (first >>= next) = .error fault := by
  cases first with
  | error fault => exact ⟨fault, rfl⟩
  | ok value => exact refused value

theorem Alike.of_refused {same : α → β → Prop} {first : Except Fault α} {fault : Fault}
    (refused : ∃ fault, first = .error fault) : Alike same first (.error fault) := by
  rcases refused with ⟨other, rfl⟩
  exact .refused

theorem Alike.bind_refused {result : γ → δ → Prop} {value : α} {fault : Fault}
    {next : α → Except Fault γ} {nextOther : β → Except Fault δ}
    (refused : ∃ fault, next value = .error fault) :
    Alike result (.ok value >>= next) (.error fault >>= nextOther) := .of_refused refused

theorem expectEnd_blanked {trailing continued : Bool} {depth : Nat} {word : Bool}
    {cursor image : Cursor}
    (blanked : Blanked trailing continued depth word cursor.rest image.rest) :
    Alike Eq cursor.expectEnd image.expectEnd := by
  have same := blanked.skip.head?_eq
  unfold Cursor.expectEnd Cursor.next?
  simp only [same]
  split
  · exact .accepted rfl
  · exact .refused
  · exact .refused

theorem whole_blanked {trailing continued : Bool} {depth : Nat}
    {parse : Cursor → Except Fault (α × Cursor)}
    (insensitive : Insensitive trailing continued depth parse) {word : Bool} {cursor image : Cursor}
    (blanked : Blanked trailing continued depth word cursor.rest image.rest) :
    Alike Eq (whole parse cursor) (whole parse image) := by
  apply (insensitive (blanked.mono (Nat.le_refl _) nofun)).bind
  intro result other stops
  rcases stops with ⟨same, _, behind⟩
  apply (expectEnd_blanked behind).bind
  intro _ _ _
  exact .accepted same

theorem whole_refuses {parse : Cursor → Except Fault (α × Cursor)} (refuses : RefusesGaps parse)
    {cursor : Cursor} (gap : cursor.skip.rest = []) :
    ∃ fault, whole parse cursor = .error fault :=
  error_of_first (refuses gap)

/-! ## Arguments -/

theorem readAll_blanked {base : Nat} {parse : Cursor → Except Fault (α × Cursor)}
    (insensitive : Insensitive false false (base + 1) parse) {arguments images : List Cursor}
    (blanked : ArgumentsBlanked base arguments images) :
    Alike Eq (readAll (whole parse) arguments) (readAll (whole parse) images) := by
  induction blanked with
  | nil => exact .accepted rfl
  | cons first _ induction =>
      apply (whole_blanked insensitive first).bind
      intro value _ sameValue
      apply induction.bind
      intro values _ sameValues
      rw [sameValue, sameValues]
      exact .accepted rfl

theorem readAll_refuses {parse : Cursor → Except Fault (α × Cursor)} (refuses : RefusesGaps parse)
    {arguments : List Cursor} {argument : Cursor} (inside : argument ∈ arguments)
    (gap : argument.skip.rest = []) : ∃ fault, readAll (whole parse) arguments = .error fault := by
  induction arguments with
  | nil => cases inside
  | cons first arguments induction =>
      rcases List.mem_cons.mp inside with rfl | inside
      · exact error_of_first (whole_refuses refuses gap)
      · exact error_of_next fun _ => error_of_first (induction inside)

section Reading

variable {vocabulary : Vocabulary ν} {deeper : Option (Deeper ν)}

theorem enter_blanked {same : α → β → Prop} {next : Deeper ν → Except Fault α}
    {other : Deeper ν → Except Fault β}
    (insensitive : ∀ inner, deeper = some inner → inner.Insensitive) (cursor image : Cursor)
    (further : ∀ inner : Deeper ν, inner.Insensitive → Alike same (next inner) (other inner)) :
    Alike same (vocabulary.enter deeper cursor >>= next)
      (vocabulary.enter deeper image >>= other) := by
  cases deeper with
  | none => exact .refused
  | some inner => exact further inner (insensitive inner rfl)

/-! ## Brackets -/

section Opening

variable {trailing continued : Bool} {depth : Nat} {word : Bool} {cursor image : Cursor}
  (blanked : Blanked trailing continued depth word cursor.rest image.rest)

include blanked

/-- An opening bracket stands outside comments. -/
theorem Blanked.opening (opens : cursor.next? = some '(') :
    ∃ text gap, cursor.rest = '(' :: (text ++ gap) ∧ image.rest = '(' :: blankFrom false text ∧
      unobtrusiveFrom continued false depth word ('(' :: text) = true ∧
      gap.all isBlank = true ∧ (trailing = false → gap = []) := by
  rcases blanked with ⟨text, gap, original, isImage, unobtrusive, blank, noGap⟩
  rw [Cursor.next?, original] at opens
  cases text with
  | nil =>
      rcases List.head?_eq_some_iff.mp opens with ⟨tail, rfl⟩
      rw [List.all_cons, Bool.and_eq_true] at blank
      exact absurd blank.1 (by decide)
  | cons character text =>
      cases Option.some.inj opens
      rw [blankFrom_code (by simp) (by simp)] at isImage
      exact ⟨text, gap, original, isImage, unobtrusive, blank, noGap⟩

theorem Blanked.opens_iff : image.next? = some '(' ↔ cursor.next? = some '(' := by
  constructor
  · intro opens
    rcases blanked with ⟨text, gap, original, isImage, _, _, _⟩
    rw [Cursor.next?, isImage, head?_blankFrom_iff (by decide) (by decide)] at opens
    rcases List.head?_eq_some_iff.mp opens with ⟨tail, rfl⟩
    rw [Cursor.next?, original]
    rfl
  · intro opens
    rcases blanked.opening opens with ⟨text, _, _, isImage, _⟩
    rw [Cursor.next?, isImage]
    rfl

theorem Blanked.inside (opens : cursor.next? = some '(') :
    Blanked trailing continued (depthAfter depth word '(') false (cursor.advance 1).rest
      (image.advance 1).rest := by
  rcases blanked.opening opens with ⟨text, gap, original, isImage, unobtrusive, blank, noGap⟩
  rw [Cursor.advance, Cursor.advance, original, isImage]
  exact Blanked.next (by simp) unobtrusive blank noGap

end Opening

theorem readGroup_blanked {trailing continued : Bool} {depth : Nat} {word : Bool}
    {parse : Deeper ν → Cursor → Except Fault (α × Cursor)}
    (insensitive : ∀ inner, deeper = some inner → inner.Insensitive)
    (parses : ∀ inner : Deeper ν, inner.Insensitive →
      Insensitive trailing continued (depthAfter depth word '(') (parse inner))
    (outside : word = false ∨ depth ≠ 0) {cursor image : Cursor}
    (blanked : Blanked trailing continued depth word cursor.rest image.rest)
    (opens : cursor.next? = some '(') :
    Alike (StopsBlanked trailing continued depth) (readGroup vocabulary deeper parse cursor)
      (readGroup vocabulary deeper parse image) := by
  apply enter_blanked insensitive
  intro inner innerInsensitive
  apply (parses inner innerInsensitive (blanked.inside opens)).bind
  intro ⟨value, stop⟩ ⟨other, stopImage⟩ ⟨same, word, behind⟩
  have ahead := behind.skip
  simp only at same ahead ⊢
  generalize stop.skip = closing at ahead ⊢
  generalize stopImage.skip = closingImage at ahead ⊢
  rcases closing with ⟨index, rest⟩
  rcases closingImage with ⟨indexImage, restImage⟩
  cases ahead with
  | nothing => exact .refused
  | @code character text gap _ apart unobtrusive blank noGap =>
      by_cases isClosing : character = ')'
      · subst isClosing
        have next := Blanked.next apart unobtrusive blank noGap
        rw [depthAfter_closing, depthAfter_opening_sub_one depth _ outside] at next
        exact .accepted ⟨same, _, next⟩
      · have notClosing : some character ≠ some ')' := fun equal =>
          isClosing (Option.some.inj equal)
        simp only [Cursor.next?, List.head?_cons, notClosing, if_false]
        exact .refused

/-- The arguments of a call are split alike. -/
theorem readArguments_blanked {trailing continued : Bool} {depth : Nat} {cursor image : Cursor}
    (blanked : Blanked trailing continued depth true cursor.rest image.rest)
    (opens : cursor.next? = some '(') :
    SplitAlike trailing continued depth (readArguments ',' cursor) (readArguments ',' image) := by
  rcases blanked.opening opens with ⟨text, gap, original, isImage, unobtrusive, blank, noGap⟩
  rw [unobtrusiveFrom_code (by simp) (by simp), depthAfter_opening_word] at unobtrusive
  have clear : opensClearly text = true := unobtrusive.1 (Nat.succ_ne_zero depth)
  rw [readArguments, readArguments, original, isImage]
  exact splitFrom_blanked (.first unobtrusive.2 fun _ => clear) unobtrusive.2 blank noGap .nil

theorem readCall_blanked (comma : vocabulary.argumentSeparator = ',')
    (insensitive : ∀ inner, deeper = some inner → inner.Insensitive) {trailing continued : Bool}
    {depth : Nat} {cursor image : Cursor}
    (blanked : Blanked trailing continued depth true cursor.rest image.rest)
    (opens : cursor.next? = some '(') (start other : Nat) (name : List Char) :
    Alike (StopsBlanked trailing continued depth)
      (readCall vocabulary deeper start name cursor)
      (readCall vocabulary deeper other name image) := by
  unfold readCall
  split
  · exact .refused
  · rename_i signature _
    apply enter_blanked insensitive
    intro inner innerInsensitive
    have split := readArguments_blanked blanked opens
    rw [← comma] at split
    generalize readArguments vocabulary.argumentSeparator cursor = outcome at split ⊢
    generalize readArguments vocabulary.argumentSeparator image = outcomeImage at split ⊢
    cases split with
    | refused => exact .refused
    | hollow inside hollow =>
        apply Alike.bind_refused
        cases signature with
        | choose =>
            simp only
            split
            · simp only [List.mem_cons, List.not_mem_nil, or_false] at inside
              rcases inside with rfl | rfl | rfl
              · exact error_of_first (whole_refuses innerInsensitive.conditionRefuses hollow)
              · exact error_of_next fun _ =>
                  error_of_first (whole_refuses innerInsensitive.formulaRefuses hollow)
              · exact error_of_next fun _ => error_of_next fun _ =>
                  error_of_first (whole_refuses innerInsensitive.formulaRefuses hollow)
            · exact ⟨_, rfl⟩
        | native accepted =>
            simp only
            split
            · exact error_of_first
                (readAll_refuses innerInsensitive.formulaRefuses inside hollow)
            · exact ⟨_, rfl⟩
    | @accepted arguments images stop stopImage word blanked behind =>
        cases signature with
        | choose =>
            rcases blanked with
              _ | ⟨test, _ | ⟨whenTrue, _ | ⟨whenFalse, _ | more⟩⟩⟩
            · exact .refused
            · exact .refused
            · exact .refused
            · apply (whole_blanked innerInsensitive.condition test).bind
              intro _ _ sameTest
              apply (whole_blanked innerInsensitive.formula whenTrue).bind
              intro _ _ sameTrue
              apply (whole_blanked innerInsensitive.formula whenFalse).bind
              intro _ _ sameFalse
              exact .accepted ⟨by rw [sameTest, sameTrue, sameFalse], word, behind⟩
            · exact .refused
        | native accepted =>
            change Alike _ (if accepted.contains arguments.length then _ else _)
              (if accepted.contains images.length then _ else _)
            rw [List.Forall₂.length_eq blanked]
            split
            · apply (readAll_blanked innerInsensitive.formula blanked).bind
              intro values _ same
              exact .accepted ⟨by rw [same], word, behind⟩
            · exact .refused

/-! ## Operands -/

/-- A token is read alike, and behind its last letter a bracket is one of a call. -/
theorem readToken_blanked {trailing continued : Bool} {depth : Nat} {cursor image : Cursor}
    (blanked : Blanked trailing continued depth false cursor.rest image.rest) :
    Alike (fun token other => token.1 = other.1 ∧ Blanked trailing continued depth
        (token.1.getLast?.any (isTokenCharacter ',')) token.2.rest other.2.rest)
      (readToken ',' cursor) (readToken ',' image) := by
  rcases blanked with ⟨text, gap, original, isImage, unobtrusive, blank, noGap⟩
  unfold readToken
  rw [original, isImage]
  exact tokenFrom_blanked unobtrusive blank noGap _ _

/-- A bracket behind a lone minus is one of a group. -/
theorem endsWord_minus : (signed true []).getLast?.any (isTokenCharacter ',') = false := by decide

theorem endsWord_signed {negative : Bool} {body : List Char}
    (areBody : body.all (isTokenCharacter ',') = true) (nonempty : body ≠ []) :
    (signed negative body).getLast?.any (isTokenCharacter ',') = true := by
  have isLast : (signed negative body).getLast? = body.getLast? := by
    cases negative with
    | false => rfl
    | true =>
        rw [signed, if_pos rfl, List.getLast?_cons, List.getLast?_eq_some_getLast nonempty]
        rfl
  rw [isLast, List.getLast?_eq_some_getLast nonempty]
  exact List.all_eq_true.mp areBody _ (List.getLast_mem nonempty)

theorem readAtom_blanked (comma : vocabulary.argumentSeparator = ',')
    (insensitive : ∀ inner, deeper = some inner → inner.Insensitive) (after : Option Operator)
    {trailing continued : Bool} {depth : Nat} {cursor image : Cursor}
    (blanked : Blanked trailing continued depth false cursor.rest image.rest) :
    Alike (StopsBlanked trailing continued depth) (readAtom vocabulary deeper after cursor)
      (readAtom vocabulary deeper after image) := by
  unfold readAtom
  rw [comma]
  apply (readToken_blanked blanked).bind_eq
  intro ⟨token, stop⟩ ⟨other, stopImage⟩ tokenRead _ ⟨same, behind⟩
  simp only at same behind
  subst same
  rcases readToken_eq_ok tokenRead with ⟨negative, body, rfl, areBody, _, _⟩
  have opensIff := behind.opens_iff
  simp only [head?_signed areBody, Bool.decide_eq_true, tail_signed]
  have stops {tree : Formula ν} :
      StopsBlanked trailing continued depth (tree, stop) (tree, stopImage) := ⟨rfl, _, behind⟩
  split
  · split
    · exact .accepted stops
    · exact .refused
  · split
    · rename_i empty
      by_cases opens : negative = true ∧ stop.next? = some '('
      · rw [opens.1, List.isEmpty_iff.mp empty, endsWord_minus] at behind
        rw [if_pos (by simp [opens]), if_pos (by simp [opens, opensIff])]
        apply (readGroup_blanked insensitive (fun _ insensitive => insensitive.formula) (.inl rfl)
          behind opens.2).bind
        intro _ _ ⟨sameTree, word, closed⟩
        exact .accepted ⟨by rw [sameTree], word, closed⟩
      · have imageOpens : ¬ (negative = true ∧ stopImage.next? = some '(') := by rwa [opensIff]
        rw [if_neg (by simpa only [Bool.and_eq_true, decide_eq_true_eq] using opens),
          if_neg (by simpa only [Bool.and_eq_true, decide_eq_true_eq] using imageOpens)]
        exact .refused
    · rename_i nonempty
      by_cases opens : stop.next? = some '('
      · rw [endsWord_signed areBody (by simpa using nonempty)] at behind
        rw [if_pos opens, if_pos (opensIff.mpr opens)]
        apply (readCall_blanked comma insensitive behind opens _ _ body).bind
        intro _ _ ⟨sameTree, word, closed⟩
        exact .accepted ⟨by rw [sameTree], word, closed⟩
      · rw [if_neg opens, if_neg (mt opensIff.mp opens)]
        unfold Vocabulary.resolve
        split
        · exact .accepted stops
        · exact .refused

theorem readOperand_blanked (comma : vocabulary.argumentSeparator = ',')
    (insensitive : ∀ inner, deeper = some inner → inner.Insensitive) (after : Option Operator)
    {trailing continued : Bool} {depth : Nat} {cursor image : Cursor}
    (blanked : Blanked trailing continued depth false cursor.rest image.rest) :
    Alike (StopsBlanked trailing continued depth) (readOperand vocabulary deeper after cursor)
      (readOperand vocabulary deeper after image) := by
  have ahead := blanked.skip
  unfold readOperand
  simp only
  generalize cursor.skip = cursor at ahead ⊢
  generalize image.skip = image at ahead ⊢
  have behind := ahead.blanked
  have atom := readAtom_blanked comma insensitive after behind
  rcases cursor with ⟨index, rest⟩
  rcases image with ⟨indexImage, restImage⟩
  cases ahead with
  | nothing => exact .refused
  | @code character text gap _ apart unobtrusive blank noGap =>
      simp only [Cursor.next?, List.head?_cons]
      split
      · exact .refused
      · exact .refused
      · rename_i opens
        exact readGroup_blanked insensitive (fun _ insensitive => insensitive.formula) (.inl rfl)
          behind opens
      · exact atom

/-! ## Chains -/

/-- Both chains go on for as long as there is text; the original may have blanks at its
end. -/
theorem readChain_blanked (comma : vocabulary.argumentSeparator = ',')
    (reads : DeeperReads vocabulary deeper)
    (insensitive : ∀ inner, deeper = some inner → inner.Insensitive) (budget : Nat)
    {trailing continued : Bool} {depth : Nat} (fuel further : Nat) {word : Bool} (chain : Chain ν)
    {cursor image : Cursor}
    (blanked : Blanked trailing continued depth word cursor.rest image.rest)
    (enough : image.rest.length < fuel) :
    Alike (StopsBlanked trailing continued depth)
      (readChain vocabulary deeper budget (fuel + further) chain cursor)
      (readChain vocabulary deeper budget fuel chain image) := by
  induction fuel generalizing word chain cursor image with
  | zero => exact absurd enough (Nat.not_lt_zero _)
  | succ fuel induction =>
      have ahead := blanked.skip
      have shorter := length_skip_le image
      rw [Nat.add_right_comm]
      unfold readChain
      simp only
      generalize cursor.skip = cursor at ahead ⊢
      generalize image.skip = image at ahead shorter ⊢
      have stops {tree : Formula ν} : StopsBlanked trailing continued depth (tree, cursor)
          (tree, image) := ⟨rfl, word, ahead.blanked⟩
      rcases cursor with ⟨index, rest⟩
      rcases image with ⟨indexImage, restImage⟩
      cases ahead with
      | nothing => exact .accepted stops
      | @code character text gap _ apart unobtrusive blank noGap =>
          simp only [Cursor.next?, List.head?_cons]
          split
          · exact .accepted stops
          · exact .accepted stops
          · rename_i symbol notClosing next
            cases Option.some.inj next
            split
            · exact .refused
            · rename_i operator found
              have notOpening : character ≠ '(' := by
                rintro rfl
                cases found
              have behind := Blanked.next apart unobtrusive blank noGap
              rw [depthAfter_other notOpening notClosing] at behind
              have operand : Alike (StopsBlanked trailing continued depth)
                  (readOperand vocabulary deeper (some operator) ⟨index + 1, text ++ gap⟩)
                  (readOperand vocabulary deeper (some operator)
                    ⟨indexImage + 1, blankFrom false text⟩) :=
                readOperand_blanked comma insensitive _ (behind.mono (Nat.le_refl _) nofun)
              apply operand.bind_eq
              intro ⟨term, stop⟩ ⟨other, stopImage⟩ _ read ⟨same, word, further⟩
              simp only at same further ⊢
              subst same
              split
              · exact .refused
              · rcases readOperand_eq_ok reads read with ⟨operandText, spans, _⟩
                have width := congrArg List.length spans.rest
                apply induction _ further
                simp only [List.length_append, List.length_cons] at width shorter
                omega

theorem Blanked.length_le {trailing continued : Bool} {depth : Nat} {word : Bool}
    {original image : List Char}
    (blanked : Blanked trailing continued depth word original image) :
    image.length ≤ original.length := by
  rcases blanked with ⟨text, gap, rfl, rfl, _⟩
  rw [length_blankFrom, List.length_append]
  exact Nat.le_add_right _ _

theorem readFormula_blanked (comma : vocabulary.argumentSeparator = ',')
    (reads : DeeperReads vocabulary deeper)
    (insensitive : ∀ inner, deeper = some inner → inner.Insensitive) (budget : Nat)
    {trailing continued : Bool} {depth : Nat} :
    Insensitive trailing continued depth (readFormula vocabulary deeper budget) := by
  intro cursor image blanked
  have ahead := blanked.skip
  unfold readFormula
  simp only
  generalize cursor.skip = cursor at ahead ⊢
  generalize image.skip = image at ahead ⊢
  have chain : Alike (StopsBlanked trailing continued depth)
      (readOperand vocabulary deeper none cursor >>= fun read =>
        readChain vocabulary deeper budget (read.2.rest.length + 1) (.start read.1) read.2)
      (readOperand vocabulary deeper none image >>= fun read =>
        readChain vocabulary deeper budget (read.2.rest.length + 1) (.start read.1) read.2) := by
    apply (readOperand_blanked comma insensitive none ahead.blanked).bind
    intro ⟨term, stop⟩ ⟨other, stopImage⟩ ⟨same, word, behind⟩
    simp only at same behind ⊢
    subst same
    have enough : stop.rest.length + 1 =
        stopImage.rest.length + 1 + (stop.rest.length - stopImage.rest.length) := by
      have shorter := behind.length_le
      omega
    rw [enough]
    exact readChain_blanked comma reads insensitive budget _ _ _ behind (Nat.lt_succ_self _)
  rcases cursor with ⟨index, rest⟩
  rcases image with ⟨indexImage, restImage⟩
  cases ahead with
  | nothing => exact .refused
  | code =>
      simp only [Cursor.next?, List.head?_cons]
      split
      · exact .refused
      · exact .refused
      · rename_i next
        cases Option.some.inj next
        split
        · exact chain
        · exact chain
        · exact .refused

theorem readFormula_refuses (budget : Nat) :
    RefusesGaps (readFormula vocabulary deeper budget) := by
  intro cursor gap
  unfold readFormula
  simp only [Cursor.next?, gap, List.head?_nil]
  exact ⟨_, rfl⟩

/-! ## Comparisons -/

/-- The text between two places is blanked where both places are. -/
theorem part_blanked {cursor image stop stopImage : Cursor} {part partImage : List Char}
    (spans : cursor.Spans part stop) (spansImage : image.Spans partImage stopImage)
    (isImage : image.rest = blankFrom false cursor.rest)
    (stopIsImage : stopImage.rest = blankFrom false stop.rest)
    (clean : CleanCut part stop.rest) : partImage = blankFrom false part := by
  rcases blankFrom_append false clean with ⟨inside, blanked⟩
  rw [← spans.rest, ← isImage, spansImage.rest] at blanked
  apply (List.append_inj blanked _).1
  have width := congrArg List.length blanked
  simp only [stopIsImage, List.length_append, length_blankFrom] at width
  rw [length_blankFrom]
  omega

/-- A comparand is delimited alike. -/
theorem skipOperand_blanked (stopAtComparison : Bool) {base : Nat} {word : Bool}
    {cursor image : Cursor}
    (blanked : Blanked false false (base + 1) word cursor.rest image.rest) :
    ∃ part, cursor.Spans part (skipOperand stopAtComparison cursor) ∧
      CleanCut part (skipOperand stopAtComparison cursor).rest ∧
      cursor.upTo (skipOperand stopAtComparison cursor) = ⟨cursor.index, part⟩ ∧
      image.upTo (skipOperand stopAtComparison image) = ⟨image.index, blankFrom false part⟩ ∧
      Blanked false true (base + 1) false part (blankFrom false part) ∧
      ∃ word, Blanked false false (base + 1) word (skipOperand stopAtComparison cursor).rest
        (skipOperand stopAtComparison image).rest := by
  rcases blanked.text with ⟨isImage, unobtrusive⟩
  have outside : unobtrusiveFrom false false (base + 1 + 0) word cursor.rest = true := unobtrusive
  rcases operandEnd_blankFrom outside stopAtComparison cursor.index image.index with
    ⟨stopIsImage, apart, word, behind⟩
  rw [← isImage] at stopIsImage
  rcases skipOperand_spans stopAtComparison cursor with ⟨part, spans⟩
  rcases skipOperand_spans stopAtComparison image with ⟨partImage, spansImage⟩
  have clean : CleanCut part (skipOperand stopAtComparison cursor).rest := .of_head apart
  have isPart := part_blanked spans spansImage isImage stopIsImage clean
  subst isPart
  rw [spans.rest] at unobtrusive
  refine ⟨part, spans, clean, Cursor.upTo_rest spans, Cursor.upTo_rest spansImage, ?_, word, ?_⟩
  · exact .of_text (unobtrusiveFrom_mono (unobtrusiveFrom_of_append clean unobtrusive (.inl rfl))
      (Nat.le_refl _) nofun)
  · rw [skipOperand, skipOperand, stopIsImage]
    exact .of_text behind

/-- A comparison symbol is read alike. -/
theorem takeWhile_blanked {base : Nat} {word : Bool} {cursor image : Cursor}
    (blanked : Blanked false false (base + 1) word cursor.rest image.rest) :
    image.rest.takeWhile isComparisonSymbol = cursor.rest.takeWhile isComparisonSymbol ∧
      ∃ word, Blanked false false (base + 1) word
        (cursor.advance (cursor.rest.takeWhile isComparisonSymbol).length).rest
        (image.advance (cursor.rest.takeWhile isComparisonSymbol).length).rest := by
  rcases blanked.text with ⟨isImage, unobtrusive⟩
  rcases takeWhile_blankFrom (by decide : isComparisonSymbol '/' = false) (by decide) (by decide)
    (by decide) unobtrusive with ⟨taken, dropped, behind⟩
  rw [isImage]
  refine ⟨taken, (cursor.rest.takeWhile isComparisonSymbol).foldl wordAfter word, ?_⟩
  rw [Cursor.advance, Cursor.advance, isImage, dropped]
  exact .of_text behind

/-- A comparand is empty only if its text is. -/
theorem trim_isEmpty_of_begins {character : Char} (notBlank : isBlank character = false)
    (rest : List Char) : (trim (character :: rest)).isEmpty = false := by
  rcases trim_spans (character :: rest) with ⟨before, after, equal, whiteBefore, whiteAfter⟩
  rw [Bool.eq_false_iff]
  intro empty
  have inside : character ∈ before ++ (trim (character :: rest) ++ after) := by
    rw [← equal]
    exact List.mem_cons_self ..
  rw [List.isEmpty_iff.mp empty, List.nil_append, List.mem_append] at inside
  have white : isWhite character = true :=
    inside.elim (List.all_eq_true.mp whiteBefore _) (List.all_eq_true.mp whiteAfter _)
  rw [isBlank_of_isWhite white] at notBlank
  cases notBlank

/-- The left comparand, or the truth value in its place, is the same text but for
comments that the formula skips. -/
theorem leftText_blanked {base : Nat} {word : Bool} {part back : List Char}
    (unobtrusive : unobtrusiveFrom false false (base + 1) word (part ++ back) = true)
    (clean : CleanCut part back)
    (begins : ∀ character, part.head? = some character →
      isBlank character = false ∧ character ≠ ')' ∧
        (character = '/' → part.tail.head? ≠ some '/')) :
    (trim (blankFrom false part)).isEmpty = (trim part).isEmpty ∧
      literal? (trim (blankFrom false part)) = literal? (trim part) := by
  cases part with
  | nil => exact ⟨rfl, rfl⟩
  | cons character rest =>
      rcases begins character rfl with ⟨notBlank, notClosing, apart⟩
      rw [List.tail_cons] at apart
      have stillApart : character = '/' → (rest ++ back).head? ≠ some '/' := fun isSlash second =>
        apart isSlash ((clean.head? isSlash).mp second)
      rw [List.cons_append, unobtrusiveFrom_code (by simp) stillApart] at unobtrusive
      have counts : depthAfter (base + 1) word character ≠ 0 := by
        simp only [depthAfter, notClosing, if_false]
        split
        · simp
        · exact Nat.succ_ne_zero base
      constructor
      · rw [blankFrom_code (by simp) apart, trim_isEmpty_of_begins notBlank,
          trim_isEmpty_of_begins notBlank]
      · exact literal?_trim_blankFrom notBlank apart (unobtrusive.1 counts)

theorem isBlank_of_all {text : List Char} (blank : text.all isBlank = true) (index : Nat) :
    Cursor.isBlank ⟨index, text⟩ = true := blank

theorem not_isBlank_of_all {text : List Char} (notBlank : text.all isBlank = false) (index : Nat) :
    ¬ Cursor.isBlank ⟨index, text⟩ = true := by
  rw [Cursor.isBlank, notBlank]
  exact Bool.false_ne_true

theorem readComparison_blanked {parseFormula : Cursor → Except Fault (Formula ν × Cursor)}
    {base : Nat} (insensitive : Insensitive false true (base + 1) parseFormula)
    (refuses : RefusesGaps parseFormula) {word : Bool} {cursor image : Cursor}
    (ahead : Ahead false false (base + 1) word cursor.rest image.rest)
    (notClosing : cursor.next? ≠ some ')') :
    Alike (StopsBlanked false false (base + 1)) (readComparison parseFormula cursor)
      (readComparison parseFormula image) := by
  rcases skipOperand_blanked true ahead.blanked with
    ⟨left, leftSpans, leftClean, leftPart, leftImage, leftBlanked, leftWord, leftBehind⟩
  rcases takeWhile_blanked leftBehind with ⟨sameSymbol, symbolWord, symbolBehind⟩
  rcases skipOperand_blanked false symbolBehind with
    ⟨right, _, _, rightPart, rightImage, rightBlanked, rightWord, rightBehind⟩
  have leftText : (trim (blankFrom false left)).isEmpty = (trim left).isEmpty ∧
      literal? (trim (blankFrom false left)) = literal? (trim left) := by
    have unobtrusive := ahead.blanked.text.2
    have settled := ahead.settled
    rw [Cursor.next?, leftSpans.rest] at notClosing
    rw [leftSpans.rest] at unobtrusive settled
    apply leftText_blanked unobtrusive leftClean
    intro character first
    rcases List.head?_eq_some_iff.mp first with ⟨tail, rfl⟩
    rcases settled character rfl with ⟨notBlank, apart⟩
    refine ⟨notBlank, fun closing => notClosing (congrArg some closing), fun isSlash second => ?_⟩
    rcases List.head?_eq_some_iff.mp second with ⟨rest, isTail⟩
    rw [List.tail_cons] at isTail
    rw [isTail] at apart
    exact apart isSlash rfl
  unfold readComparison
  simp only [leftPart, leftImage, leftText.1, leftText.2, sameSymbol, rightPart, rightImage]
  split
  · exact .refused
  · split
    · split
      · exact .accepted ⟨rfl, leftWord, leftBehind⟩
      · exact .refused
    · split
      · exact .refused
      · cases blank : right.all isBlank with
        | true =>
            have blankImage : (blankFrom false right).all isBlank = true := by
              rwa [blankFrom_of_blank blank]
            rw [if_pos (isBlank_of_all blank _), if_pos (isBlank_of_all blankImage _)]
            exact .refused
        | false =>
            rw [if_neg (not_isBlank_of_all blank _)]
            cases blankImage : (blankFrom false right).all isBlank with
            | true =>
                rw [if_pos (isBlank_of_all blankImage _)]
                apply Alike.of_refused
                exact error_of_next fun _ =>
                  error_of_first (whole_refuses refuses (skip_eq_nil_of_blanked blankImage _))
            | false =>
                rw [if_neg (not_isBlank_of_all blankImage _)]
                apply (whole_blanked insensitive leftBlanked).bind
                rintro leftTree _ rfl
                apply (whole_blanked insensitive rightBlanked).bind
                rintro rightTree _ rfl
                exact .accepted ⟨rfl, rightWord, rightBehind⟩

/-! ## Conditions -/

/-- Characters of connectives are neither those of gaps nor brackets. -/
theorem isConnective_of_ofCharacter? {symbol : Char} {connective : Connective}
    (found : Connective.ofCharacter? symbol = some connective) :
    symbol ≠ ' ' ∧ symbol ≠ '/' ∧ symbol ≠ '(' ∧ symbol ≠ ')' := by
  unfold Connective.ofCharacter? at found
  split at found
  · decide
  · decide
  · cases found

/-- A doubled symbol is doubled in the image too. -/
theorem Blanked.doubled {base : Nat} {word : Bool} {cursor image : Cursor} {symbol : Char}
    (blanked : Blanked false false (base + 1) word cursor.rest image.rest)
    (next : cursor.next? = some symbol)
    (plain : symbol ≠ ' ' ∧ symbol ≠ '/' ∧ symbol ≠ '(' ∧ symbol ≠ ')') :
    (image.second? = some symbol ↔ cursor.second? = some symbol) ∧
      (cursor.second? = some symbol → ∃ word, Blanked false false (base + 1) word
        (cursor.advance 2).rest (image.advance 2).rest) := by
  rcases plain with ⟨notSpace, notSlash, notOpening, notClosing⟩
  rcases blanked.text with ⟨isImage, unobtrusive⟩
  rcases List.head?_eq_some_iff.mp next with ⟨text, original⟩
  have code {rest : List Char} : symbol = '/' → rest.head? ≠ some '/' := fun isSlash =>
    absurd isSlash notSlash
  rw [original, unobtrusiveFrom_code (by simp) code, depthAfter_other notOpening notClosing]
    at unobtrusive
  rw [original, blankFrom_code (by simp) code] at isImage
  rw [Cursor.second?, Cursor.second?, original, isImage, List.tail_cons, List.tail_cons,
    head?_blankFrom_iff notSpace notSlash]
  refine ⟨Iff.rfl, fun doubled => ?_⟩
  rcases List.head?_eq_some_iff.mp doubled with ⟨tail, rfl⟩
  have behind := unobtrusive.2
  rw [unobtrusiveFrom_code (by simp) code, depthAfter_other notOpening notClosing] at behind
  rw [Cursor.advance, Cursor.advance, original, isImage, blankFrom_code (by simp) code]
  exact ⟨_, .of_text behind.2⟩

theorem readConnective_blanked (insensitive : ∀ inner, deeper = some inner → inner.Insensitive)
    (left : Condition ν) {base : Nat} {word : Bool} {cursor image : Cursor}
    (blanked : Blanked false false (base + 1) word cursor.rest image.rest) :
    Alike (StopsBlanked false false (base + 1)) (readConnective vocabulary deeper left cursor)
      (readConnective vocabulary deeper left image) := by
  have ahead := blanked.skip
  unfold readConnective
  simp only
  generalize cursor.skip = cursor at ahead ⊢
  generalize image.skip = image at ahead ⊢
  have behind := ahead.blanked
  have sameNext : image.next? = cursor.next? := ahead.head?_eq
  rw [sameNext]
  split
  · exact .accepted ⟨rfl, word, behind⟩
  · exact .accepted ⟨rfl, word, behind⟩
  · rename_i symbol _ next
    split
    · exact .refused
    · rename_i connective found
      rcases behind.doubled next (isConnective_of_ofCharacter? found) with ⟨sameSecond, further⟩
      by_cases doubled : cursor.second? = some symbol
      · rw [if_neg (not_not_intro doubled), if_neg (not_not_intro (sameSecond.mpr doubled))]
        rcases further doubled with ⟨_, right⟩
        have rightAhead := right.skip
        generalize (cursor.advance 2).skip = cursor at rightAhead ⊢
        generalize (image.advance 2).skip = image at rightAhead ⊢
        have sameRight : image.next? = cursor.next? := rightAhead.head?_eq
        rw [sameRight]
        split
        · exact .refused
        · apply enter_blanked insensitive
          intro inner innerInsensitive
          apply (innerInsensitive.condition
            (rightAhead.blanked.mono (Nat.le_refl _) nofun)).bind
          intro _ _ ⟨sameTree, word, closed⟩
          exact .accepted ⟨by rw [sameTree], word, closed⟩
      · rw [if_pos doubled, if_pos (mt sameSecond.mp doubled)]
        exact .refused

/-- A bracket opens a formula in both texts or a condition in both. -/
theorem opensFormula_blanked {base : Nat} {word : Bool} {cursor image : Cursor}
    (blanked : Blanked false false (base + 1) word cursor.rest image.rest)
    (opens : cursor.next? = some '(') : opensFormula image = opensFormula cursor := by
  rcases blanked.text with ⟨isImage, unobtrusive⟩
  rcases List.head?_eq_some_iff.mp opens with ⟨text, original⟩
  rw [original, unobtrusiveFrom_code (by simp) (by simp), depthAfter_opening_succ] at unobtrusive
  rw [opensFormula, opensFormula, isImage, original, blankFrom_code (by simp) (by simp),
    closesFormula, if_pos rfl, closesFormula, if_pos rfl]
  exact closesFormula_blankFrom unobtrusive.2

theorem readCondition_blanked (insensitive : ∀ inner, deeper = some inner → inner.Insensitive)
    {parseFormula : Cursor → Except Fault (Formula ν × Cursor)}
    (formulas : ∀ {trailing continued depth}, Insensitive trailing continued depth parseFormula)
    (refuses : RefusesGaps parseFormula) {base : Nat} :
    Insensitive false false (base + 1) (readCondition vocabulary deeper parseFormula) := by
  intro cursor image blanked
  have ahead := blanked.skip
  unfold readCondition
  simp only
  generalize cursor.skip = cursor at ahead ⊢
  generalize image.skip = image at ahead ⊢
  have behind := ahead.blanked
  have sameNext : image.next? = cursor.next? := ahead.head?_eq
  rw [sameNext]
  split
  · exact .refused
  · exact .refused
  · rename_i symbol notClosing next
    split
    · exact .refused
    · by_cases group : symbol = '(' ∧ opensFormula cursor = false
      · rcases group with ⟨rfl, opens⟩
        rw [if_pos (by simp [opens]), if_pos (by simp [opens, opensFormula_blanked behind next])]
        have conditions (inner : Deeper ν) (insensitive : inner.Insensitive) :
            Insensitive false false (depthAfter (base + 1) false '(') inner.condition := by
          rw [depthAfter_opening_succ]
          exact insensitive.condition
        apply (readGroup_blanked insensitive conditions (.inl rfl) behind next).bind
        intro ⟨left, stop⟩ ⟨other, stopImage⟩ ⟨same, _, further⟩
        simp only at same further ⊢
        subst same
        exact readConnective_blanked insensitive left further
      · have groupImage : ¬ (symbol = '(' ∧ opensFormula image = false) := by
          rintro ⟨rfl, opens⟩
          exact group ⟨rfl, (opensFormula_blanked behind next).symm.trans opens⟩
        rw [if_neg (by simpa using group), if_neg (by simpa using groupImage)]
        apply (readComparison_blanked formulas refuses ahead _).bind
        · intro ⟨left, stop⟩ ⟨other, stopImage⟩ ⟨same, _, further⟩
          simp only at same further ⊢
          subst same
          exact readConnective_blanked insensitive left further
        · rw [next]
          exact fun closing => notClosing (Option.some.inj closing)

theorem readCondition_refuses (parseFormula : Cursor → Except Fault (Formula ν × Cursor)) :
    RefusesGaps (readCondition vocabulary deeper parseFormula) := by
  intro cursor gap
  unfold readCondition
  simp only [Cursor.next?, gap, List.head?_nil]
  exact ⟨_, rfl⟩

end Reading

/-! ## All levels -/

theorem formula_refuses (vocabulary : Vocabulary ν) (budget : Nat) :
    RefusesGaps (formula vocabulary budget) := by
  rw [formula_eq]
  exact readFormula_refuses budget

theorem condition_refuses (vocabulary : Vocabulary ν) (budget : Nat) :
    RefusesGaps (condition vocabulary budget) := by
  rw [condition_eq]
  exact readCondition_refuses _

/-- Blanking unobtrusive comments changes nothing for formulas, and nothing for conditions
where brackets count. -/
theorem formula_condition_blanked {vocabulary : Vocabulary ν}
    (comma : vocabulary.argumentSeparator = ',') (budget : Nat) :
    (∀ {trailing continued depth},
      Insensitive trailing continued depth (formula vocabulary budget)) ∧
    ∀ {base}, Insensitive false false (base + 1) (condition vocabulary budget) := by
  have level (budget : Nat) (deeper : Option (Deeper ν)) (reads : DeeperReads vocabulary deeper)
      (insensitive : ∀ inner, deeper = some inner → inner.Insensitive) :
      (∀ {trailing continued depth},
        Insensitive trailing continued depth (readFormula vocabulary deeper budget)) ∧
      ∀ {base}, Insensitive false false (base + 1)
        (readCondition vocabulary deeper (readFormula vocabulary deeper budget)) :=
    ⟨readFormula_blanked comma reads insensitive budget,
      readCondition_blanked insensitive (readFormula_blanked comma reads insensitive budget)
        (readFormula_refuses budget)⟩
  induction budget with
  | zero => exact level 0 none nofun nofun
  | succ budget induction =>
      apply level
      · intro inner present
        cases present
        exact formula_condition_reads vocabulary budget
      · intro inner present
        cases present
        exact ⟨induction.1, induction.2, formula_refuses vocabulary budget,
          condition_refuses vocabulary budget⟩

end NumericRules.Grammar
