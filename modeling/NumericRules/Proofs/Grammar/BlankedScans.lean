import Mathlib.Data.List.Forall2
import NumericRules.Proofs.Grammar.Unobtrusive

/-! # Scans over blanked text

Every scan of the parsers does the same to a text and to the text with its comments
blanked, as long as the comments are unobtrusive where the scan looks. Blanks at the end
of a text may be left out where no condition is read.
-/

namespace NumericRules.Grammar

open Text

/-! ## Outcomes -/

/-- Two faults, or two results that agree. -/
inductive Alike (same : α → β → Prop) : Except Fault α → Except Fault β → Prop
  | refused {fault other : Fault} : Alike same (.error fault) (.error other)
  | accepted {value : α} {other : β} : same value other → Alike same (.ok value) (.ok other)

namespace Alike

variable {same : α → β → Prop}

theorem bind {result : γ → δ → Prop} {first : Except Fault α} {other : Except Fault β}
    {next : α → Except Fault γ} {nextOther : β → Except Fault δ} (alike : Alike same first other)
    (further : ∀ value image, same value image → Alike result (next value) (nextOther image)) :
    Alike result (first >>= next) (other >>= nextOther) := by
  cases alike with
  | refused => exact .refused
  | accepted agree => exact further _ _ agree

end Alike

/-! ## Blanked text -/

/-- The image is the original text with its unobtrusive comments blanked. Blanks at the
end may be missing where they are `trailing`. -/
def Blanked (trailing continued : Bool) (depth : Nat) (word : Bool)
    (original image : List Char) : Prop :=
  ∃ text gap, original = text ++ gap ∧ image = blankFrom false text ∧
    unobtrusiveFrom continued false depth word text = true ∧
    gap.all isBlank = true ∧ (trailing = false → gap = [])

/-- What skipping leads to: the end of both texts, or one character of code. -/
inductive Ahead (trailing continued : Bool) (depth : Nat) (word : Bool) :
    List Char → List Char → Prop
  | nothing : Ahead trailing continued depth word [] []
  | code {character : Char} {text gap : List Char} :
      isBlank character = false → (character = '/' → text.head? ≠ some '/') →
      unobtrusiveFrom continued false depth word (character :: text) = true →
      gap.all isBlank = true → (trailing = false → gap = []) →
      Ahead trailing continued depth word (character :: (text ++ gap))
        (character :: blankFrom false text)

section Blanked

variable {trailing continued : Bool} {depth : Nat} {word : Bool}

theorem Blanked.of_text {text : List Char}
    (unobtrusive : unobtrusiveFrom continued false depth word text = true) :
    Blanked trailing continued depth word text (blankFrom false text) :=
  ⟨text, [], (List.append_nil text).symm, rfl, unobtrusive, rfl, fun _ => rfl⟩

/-- Where there is no comment, only the characters matter. -/
theorem Blanked.of_commentless {text : List Char} (commentless : ¬ ['/', '/'] <:+: text) :
    Blanked trailing continued depth word text text := by
  have blanked : Blanked trailing continued depth word text (blankFrom false text) :=
    .of_text (unobtrusiveFrom_of_commentless commentless)
  rwa [blankFrom_of_commentless commentless] at blanked

theorem Blanked.text {original image : List Char}
    (blanked : Blanked false continued depth word original image) :
    image = blankFrom false original ∧
      unobtrusiveFrom continued false depth word original = true := by
  rcases blanked with ⟨text, gap, rfl, rfl, unobtrusive, _, noGap⟩
  rw [noGap rfl, List.append_nil]
  exact ⟨rfl, unobtrusive⟩

theorem Blanked.mono {lower : Nat} {other : Bool} {original image : List Char}
    (blanked : Blanked trailing continued depth word original image) (le : lower ≤ depth)
    (imp : other = true → word = true) :
    Blanked trailing continued lower other original image := by
  rcases blanked with ⟨text, gap, rfl, rfl, unobtrusive, blank, noGap⟩
  exact ⟨text, gap, rfl, rfl, unobtrusiveFrom_mono unobtrusive le imp, blank, noGap⟩

theorem skipFrom_blank_rest {gap : List Char} (blank : gap.all isBlank = true)
    (inComment : Bool) (index : Nat) : (Cursor.skipFrom inComment index gap).rest = [] := by
  induction gap generalizing inComment index with
  | nil => rfl
  | cons character gap induction =>
      rw [List.all_cons, Bool.and_eq_true] at blank
      unfold Cursor.skipFrom
      split
      · exact induction blank.2 _ _
      · rw [if_pos blank.1]
        exact induction blank.2 _ _

/-- Blanks stay as they are. -/
theorem blankFrom_of_blank {gap : List Char} (blank : gap.all isBlank = true) :
    blankFrom false gap = gap :=
  blankFrom_of_commentless <| commentless_of_not_mem fun inside =>
    absurd (List.all_eq_true.mp blank _ inside) (by decide)

/-- A text of nothing but comments is skipped. -/
theorem skip_eq_nil_of_blanked {text : List Char}
    (blank : (blankFrom false text).all isBlank = true) (index : Nat) :
    (Cursor.mk index text).skip.rest = [] := by
  have skipped := congrArg Cursor.rest (skipFrom_blankFrom false index text)
  rw [skipFrom_blank_rest blank] at skipped
  apply List.eq_nil_of_length_eq_zero
  have width := congrArg List.length skipped
  rwa [length_blankFrom, List.length_nil, eq_comm] at width

theorem CleanCut.of_blank {front gap : List Char} (blank : gap.all isBlank = true) :
    CleanCut front gap := by
  apply CleanCut.of_head
  intro first
  rcases List.head?_eq_some_iff.mp first with ⟨tail, rfl⟩
  rw [List.all_cons, Bool.and_eq_true] at blank
  exact absurd blank.1 (by decide)

/-- Skipping goes over comments and over what they are blanked to. -/
theorem skipFrom_ahead {inComment : Bool} {text gap : List Char}
    (unobtrusive : unobtrusiveFrom continued inComment depth word text = true)
    (blank : gap.all isBlank = true) (noGap : trailing = false → gap = []) (index other : Nat) :
    Ahead trailing continued depth word (Cursor.skipFrom inComment index (text ++ gap)).rest
      (Cursor.skipFrom false other (blankFrom inComment text)).rest := by
  have space : isBlank ' ' = true := by decide
  have clean {text : List Char} : CleanCut text gap := .of_blank blank
  induction inComment, text using scan_induction generalizing index other with
  | nil inComment =>
      rw [List.nil_append, skipFrom_blank_rest blank]
      exact .nothing
  | comment character rest goesOn induction =>
      rw [unobtrusiveFrom_comment goesOn] at unobtrusive
      rw [List.cons_append, skipFrom_comment index goesOn, blankFrom_comment goesOn,
        skipFrom_blank other (by simp) space]
      exact induction unobtrusive.2 _ _
  | opening rest second induction =>
      rw [unobtrusiveFrom_opening second] at unobtrusive
      rw [List.cons_append, skipFrom_opening index ((clean.head? rfl).mpr second),
        blankFrom_opening second, skipFrom_blank other (by simp) space]
      exact induction unobtrusive _ _
  | code inComment character rest ends apart induction =>
      have stillApart : character = '/' → (rest ++ gap).head? ≠ some '/' := fun isSlash second =>
        apart isSlash ((clean.head? isSlash).mp second)
      rw [List.cons_append, blankFrom_code ends apart]
      cases isBlankCharacter : isBlank character with
      | true =>
          rw [unobtrusiveFrom_code ends apart, depthAfter_blank isBlankCharacter,
            wordAfter_blank isBlankCharacter] at unobtrusive
          rw [skipFrom_blank index ends isBlankCharacter,
            skipFrom_blank other (by simp) isBlankCharacter]
          exact induction unobtrusive.2 _ _
      | false =>
          have imageApart : character = '/' → (blankFrom false rest).head? ≠ some '/' :=
            fun isSlash second => apart isSlash (head?_blankFrom second)
          have noComment : false = true → character = '\n' :=
            fun inside => absurd inside Bool.false_ne_true
          rw [unobtrusiveFrom_code ends apart, ← unobtrusiveFrom_code noComment apart]
            at unobtrusive
          rw [skipFrom_code index ends stillApart isBlankCharacter,
            skipFrom_code other (by simp) imageApart isBlankCharacter]
          exact .code isBlankCharacter apart unobtrusive blank noGap

theorem Blanked.skip {cursor image : Cursor}
    (blanked : Blanked trailing continued depth word cursor.rest image.rest) :
    Ahead trailing continued depth word cursor.skip.rest image.skip.rest := by
  rcases blanked with ⟨text, gap, original, isImage, unobtrusive, blank, noGap⟩
  rw [Cursor.skip, Cursor.skip, original, isImage]
  exact skipFrom_ahead unobtrusive blank noGap _ _

namespace Ahead

variable {original image : List Char}

/-- The character ahead has not been read. -/
theorem blanked (ahead : Ahead trailing continued depth word original image) :
    Blanked trailing continued depth word original image := by
  cases ahead with
  | nothing => exact ⟨[], [], rfl, rfl, rfl, rfl, fun _ => rfl⟩
  | @code character text gap _ apart unobtrusive blank noGap =>
      exact ⟨character :: text, gap, rfl, (blankFrom_code (by simp) apart).symm, unobtrusive, blank,
        noGap⟩

theorem head?_eq (ahead : Ahead trailing continued depth word original image) :
    image.head? = original.head? := by
  cases ahead <;> rfl

theorem settled (ahead : Ahead trailing continued depth word original image) :
    Settled original := by
  intro found first
  cases ahead with
  | nothing => cases first
  | @code character text gap notBlank apart _ blank _ =>
      cases Option.some.inj first
      refine ⟨notBlank, fun isSlash second => apart isSlash ?_⟩
      exact (CleanCut.head? (.of_blank blank) isSlash).mp second

end Ahead

/-- Behind one character of code. -/
theorem Blanked.next {character : Char} {text gap : List Char}
    (apart : character = '/' → text.head? ≠ some '/')
    (unobtrusive : unobtrusiveFrom continued false depth word (character :: text) = true)
    (blank : gap.all isBlank = true) (noGap : trailing = false → gap = []) :
    Blanked trailing continued (depthAfter depth word character) (wordAfter word character)
      (text ++ gap) (blankFrom false text) :=
  ⟨text, gap, rfl, rfl, ((unobtrusiveFrom_code (by simp) apart).mp unobtrusive).2, blank, noGap⟩

end Blanked

/-! ## Words -/

/-- Characters that are neither brackets nor those of gaps are read alike. -/
theorem takeWhile_blankFrom {continued : Bool} {depth : Nat} {word : Bool} {text : List Char}
    {holds : Char → Bool} (noSlash : holds '/' = false) (noSpace : holds ' ' = false)
    (noOpening : holds '(' = false) (noClosing : holds ')' = false)
    (unobtrusive : unobtrusiveFrom continued false depth word text = true) :
    (blankFrom false text).takeWhile holds = text.takeWhile holds ∧
      (blankFrom false text).drop (text.takeWhile holds).length =
        blankFrom false (text.drop (text.takeWhile holds).length) ∧
      unobtrusiveFrom continued false depth ((text.takeWhile holds).foldl wordAfter word)
        (text.drop (text.takeWhile holds).length) = true := by
  induction text generalizing word with
  | nil => exact ⟨rfl, rfl, rfl⟩
  | cons character rest induction =>
      cases isHeld : holds character with
      | false =>
          have imageStops : (blankFrom false (character :: rest)).takeWhile holds = [] := by
            unfold blankFrom
            simp only [Bool.false_and, Bool.false_eq_true, if_false]
            split
            · rw [List.takeWhile_cons_of_neg (by simp [noSpace])]
            · rw [List.takeWhile_cons_of_neg (by simp [isHeld])]
          rw [imageStops, List.takeWhile_cons_of_neg (by simp [isHeld])]
          exact ⟨rfl, rfl, unobtrusive⟩
      | true =>
          have apart : character = '/' → rest.head? ≠ some '/' := by
            rintro rfl
            rw [noSlash] at isHeld
            cases isHeld
          have notOpening : character ≠ '(' := by
            rintro rfl
            rw [noOpening] at isHeld
            cases isHeld
          have notClosing : character ≠ ')' := by
            rintro rfl
            rw [noClosing] at isHeld
            cases isHeld
          rw [unobtrusiveFrom_code (by simp) apart, depthAfter_other notOpening notClosing]
            at unobtrusive
          rcases induction unobtrusive.2 with ⟨taken, dropped, further⟩
          rw [blankFrom_code (by simp) apart, List.takeWhile_cons_of_pos isHeld,
            List.takeWhile_cons_of_pos isHeld, taken]
          exact ⟨rfl, dropped, further⟩

/-- A token is read alike. What stands behind it follows a word if the token ends with a
character of one. -/
theorem tokenFrom_blanked {trailing continued : Bool} {depth : Nat} {read text gap : List Char}
    (unobtrusive : unobtrusiveFrom continued false depth
      (read.head?.any (isTokenCharacter ',')) text = true)
    (blank : gap.all isBlank = true) (noGap : trailing = false → gap = []) (index other : Nat) :
    Alike (fun token image => token.1 = image.1 ∧ Blanked trailing continued depth
        (token.1.getLast?.any (isTokenCharacter ',')) token.2.rest image.2.rest)
      (tokenFrom ',' read index (text ++ gap))
      (tokenFrom ',' read other (blankFrom false text)) := by
  have ended {text : List Char} (unobtrusive : unobtrusiveFrom continued false depth
      (read.head?.any (isTokenCharacter ',')) text = true) :
      Blanked trailing continued depth (read.reverse.getLast?.any (isTokenCharacter ','))
        (text ++ gap) (blankFrom false text) :=
    ⟨text, gap, rfl, rfl, by rwa [List.getLast?_reverse], blank, noGap⟩
  induction text generalizing read index other with
  | nil =>
      have original : tokenFrom ',' read index ([] ++ gap) = .ok (read.reverse, ⟨index, gap⟩) := by
        cases gap with
        | nil => rfl
        | cons character gap =>
            rw [List.all_cons, Bool.and_eq_true] at blank
            simp [tokenFrom, endsToken, blank.1]
      rw [original]
      exact .accepted ⟨rfl, ended unobtrusive⟩
  | cons character rest induction =>
      by_cases isSlash : character = '/'
      · have slash : endsToken ',' '/' = true := by decide
        have space : endsToken ',' ' ' = true := by decide
        have image : tokenFrom ',' read other (blankFrom false (character :: rest)) =
            .ok (read.reverse, ⟨other, blankFrom false (character :: rest)⟩) := by
          rw [isSlash]
          unfold blankFrom
          simp only [Bool.false_and, Bool.false_eq_true, if_false]
          split
          · simp [tokenFrom, space]
          · simp [tokenFrom, slash]
        have original : tokenFrom ',' read index (character :: rest ++ gap) =
            .ok (read.reverse, ⟨index, character :: rest ++ gap⟩) := by
          rw [isSlash]
          simp [tokenFrom, slash]
        rw [image, original]
        exact .accepted ⟨rfl, ended unobtrusive⟩
      · have apart : character = '/' → rest.head? ≠ some '/' := fun slash => absurd slash isSlash
        rw [blankFrom_code (by simp) apart, List.cons_append]
        unfold tokenFrom
        split
        · refine .accepted ⟨rfl, ?_⟩
          have last := ended unobtrusive
          rwa [blankFrom_code (by simp) apart] at last
        · rename_i goesOn
          split
          · exact .refused
          · simp only [Bool.or_eq_true, not_or, Bool.not_eq_true] at goesOn
            have notEnd := goesOn.1
            have notBlank : isBlank character = false := by
              simp only [endsToken, Bool.or_eq_false_iff] at notEnd
              exact notEnd.1.1
            have notOpening : character ≠ '(' := by
              rintro rfl
              exact absurd notEnd (by decide)
            have notClosing : character ≠ ')' := by
              rintro rfl
              exact absurd notEnd (by decide)
            have isWord : wordAfter (read.head?.any (isTokenCharacter ',')) character =
                (character :: read).head?.any (isTokenCharacter ',') := by
              simp [wordAfter, notBlank]
            rw [unobtrusiveFrom_code (by simp) apart, depthAfter_other notOpening notClosing,
              isWord] at unobtrusive
            apply induction unobtrusive.2
            intro text unobtrusive
            exact ⟨text, gap, rfl, rfl, by rwa [List.getLast?_reverse], blank, noGap⟩

/-! ## Comparands and groups -/

section Brackets

variable {continued inComment : Bool} {base depth : Nat} {word : Bool} {text : List Char}

theorem depthAfter_opening_counted (base depth : Nat) (word : Bool) :
    depthAfter (base + 1 + depth) word '(' = base + 1 + (depth + 1) := by
  rw [Nat.add_right_comm, depthAfter_opening_succ]
  omega

/-- Behind a clear closing bracket, comments do not change what goes on. -/
theorem startsContinuation_of_settles {rest : List Char} (settled : settles false ')' rest = true) :
    startsContinuation (blankFrom false rest) = startsContinuation rest := by
  rw [settles, if_pos rfl, closesClearly] at settled
  cases ahead : commentAhead rest with
  | false => exact startsContinuation_of_not_commentAhead ahead
  | true =>
      rw [startsContinuation_of_commentAhead ahead, startsContinuation_blankFrom]
      rwa [ahead, Bool.not_true, Bool.false_or] at settled

/-- The end of a comparand stands outside comments. -/
theorem operandEnd_blankFrom
    (unobtrusive : unobtrusiveFrom continued inComment (base + 1 + depth) word text = true)
    (stopAtComparison : Bool) (index other : Nat) :
    (operandEnd stopAtComparison depth other (blankFrom inComment text)).rest =
        blankFrom false (operandEnd stopAtComparison depth index text).rest ∧
      (operandEnd stopAtComparison depth index text).rest.head? ≠ some '/' ∧
      ∃ word, unobtrusiveFrom continued false (base + 1) word
        (operandEnd stopAtComparison depth index text).rest = true := by
  have passes {character : Char} (notHeeded : isHeeded character = false) (depth index : Nat)
      (rest : List Char) : operandEnd stopAtComparison depth index (character :: rest) =
        operandEnd stopAtComparison depth (index + 1) rest := by
    simp only [isHeeded, List.contains_eq_mem, List.mem_cons, List.not_mem_nil, or_false,
      decide_eq_false_iff_not, not_or] at notHeeded
    simp [operandEnd, notHeeded]
  have space : isHeeded ' ' = false := by decide
  induction inComment, text using scan_induction generalizing depth word index other with
  | nil => exact ⟨rfl, by simp [operandEnd], word, rfl⟩
  | comment character rest goesOn induction =>
      rw [unobtrusiveFrom_comment goesOn] at unobtrusive
      rw [blankFrom_comment goesOn, passes space, passes (unobtrusive.1 (by omega))]
      exact induction unobtrusive.2 _ _
  | opening rest second induction =>
      rw [unobtrusiveFrom_opening second] at unobtrusive
      rw [blankFrom_opening second, passes space, passes (by decide)]
      exact induction unobtrusive _ _
  | code inComment character rest ends apart induction =>
      have noComment : false = true → character = '\n' :=
        fun inside => absurd inside Bool.false_ne_true
      rw [unobtrusiveFrom_code ends apart] at unobtrusive
      have further := unobtrusive.2
      rw [← unobtrusiveFrom_code noComment apart] at unobtrusive
      have stops (isHeededCharacter : isHeeded character = true) (outside : depth = 0) :
          character :: blankFrom false rest = blankFrom false (character :: rest) ∧
            (character :: rest).head? ≠ some '/' ∧
            ∃ word, unobtrusiveFrom continued false (base + 1) word (character :: rest) = true := by
        rw [blankFrom_code noComment apart]
        subst outside
        exact ⟨rfl,
          fun first => ne_of_isHeeded isHeededCharacter (by decide) (Option.some.inj first),
          word, unobtrusive⟩
      rw [blankFrom_code ends apart]
      unfold operandEnd
      simp only
      split
      · rename_i opening
        rw [opening, depthAfter_opening_counted] at further
        exact induction further _ _
      · rename_i notOpening
        split
        · rename_i closing
          split
          · exact stops (by rw [closing]; decide) ‹_›
          · rename_i inside
            rw [closing, depthAfter_closing,
              Nat.add_sub_assoc (Nat.pos_of_ne_zero inside)] at further
            exact induction further _ _
        · rename_i notClosing
          rw [depthAfter_other notOpening notClosing] at further
          split
          · rename_i connective
            simp only [Bool.and_eq_true, Bool.or_eq_true, decide_eq_true_eq] at connective
            apply stops _ connective.1
            rcases connective.2 with rfl | rfl <;> decide
          · split
            · rename_i comparison
              simp only [Bool.and_eq_true, decide_eq_true_eq, List.contains_eq_mem, List.mem_cons,
                List.not_mem_nil, or_false] at comparison
              apply stops _ comparison.1.1
              rcases comparison.2 with rfl | rfl | rfl | rfl <;> decide
            · exact induction further _ _

/-- What follows a closing bracket tells the same of its group. -/
theorem closesFormula_blankFrom
    (unobtrusive : unobtrusiveFrom false inComment (base + 1 + (depth + 1)) word text = true) :
    closesFormula (depth + 1) (blankFrom inComment text) = closesFormula (depth + 1) text := by
  have passes {character : Char} (notOpening : character ≠ '(') (notClosing : character ≠ ')')
      (depth : Nat) (rest : List Char) :
      closesFormula depth (character :: rest) = closesFormula depth rest := by
    simp [closesFormula, notOpening, notClosing]
  induction inComment, text using scan_induction generalizing depth word with
  | nil => rfl
  | comment character rest goesOn induction =>
      rw [unobtrusiveFrom_comment goesOn] at unobtrusive
      have notHeeded := unobtrusive.1 (Nat.succ_ne_zero _)
      rw [blankFrom_comment goesOn, passes (by decide) (by decide),
        passes (ne_of_isHeeded (by decide) notHeeded).symm
          (ne_of_isHeeded (by decide) notHeeded).symm]
      exact induction unobtrusive.2
  | opening rest second induction =>
      rw [unobtrusiveFrom_opening second] at unobtrusive
      rw [blankFrom_opening second, passes (by decide) (by decide), passes (by decide) (by decide)]
      exact induction unobtrusive
  | code inComment character rest ends apart induction =>
      rw [unobtrusiveFrom_code ends apart] at unobtrusive
      rcases unobtrusive with ⟨settled, further⟩
      rw [blankFrom_code ends apart]
      by_cases opening : character = '('
      · subst opening
        rw [depthAfter_opening_counted] at further
        rw [closesFormula, if_pos rfl, closesFormula, if_pos rfl, induction further]
      · by_cases closing : character = ')'
        · subst closing
          rw [depthAfter_closing, ← Nat.add_assoc, Nat.add_sub_cancel] at settled further
          rw [closesFormula, if_neg opening, if_pos rfl, closesFormula, if_neg opening, if_pos rfl]
          cases depth with
          | zero =>
              rw [if_pos (Nat.le_refl 1), if_pos (Nat.le_refl 1)]
              exact startsContinuation_of_settles (settled (Nat.succ_ne_zero base))
          | succ depth =>
              rw [if_neg (by omega), if_neg (by omega)]
              exact induction further
        · rw [depthAfter_other opening closing] at further
          rw [passes opening closing, passes opening closing, induction further]

end Brackets

/-! ## Arguments -/

/-- Arguments that are bounded alike, each with its comments blanked. -/
def ArgumentsBlanked (base : Nat) : List Cursor → List Cursor → Prop :=
  List.Forall₂ fun argument image =>
    Blanked false false (base + 1) false argument.rest image.rest

/-- What brackets are split into. An argument of nothing but comments is one only of the
original. -/
inductive SplitAlike (trailing continued : Bool) (base : Nat) :
    Except Fault (List Cursor × Cursor) → Except Fault (List Cursor × Cursor) → Prop
  | refused {fault other : Fault} :
      SplitAlike trailing continued base (.error fault) (.error other)
  | hollow {arguments : List Cursor} {argument stop : Cursor} {fault : Fault} :
      argument ∈ arguments → argument.skip.rest = [] →
      SplitAlike trailing continued base (.ok (arguments, stop)) (.error fault)
  | accepted {arguments images : List Cursor} {stop other : Cursor} {word : Bool} :
      ArgumentsBlanked base arguments images →
      Blanked trailing continued base word stop.rest other.rest →
      SplitAlike trailing continued base (.ok (arguments, stop)) (.ok (images, other))

section Splitting

variable {trailing continued : Bool} {base : Nat} {separator : Char} {opening start : Nat}

/-- Blanks do not close brackets. -/
theorem splitFrom_blank {gap : List Char} (blank : gap.all isBlank = true)
    (notBlank : isBlank separator = false) (depth : Nat) (read : List Char)
    (found : List Cursor) (index : Nat) :
    ∃ fault, splitFrom separator opening depth start read found index gap = .error fault := by
  induction gap generalizing read index with
  | nil => exact ⟨_, rfl⟩
  | cons character gap induction =>
      rw [List.all_cons, Bool.and_eq_true] at blank
      have notOpening : character ≠ '(' := by
        rintro rfl
        exact absurd blank.1 (by decide)
      have notClosing : character ≠ ')' := by
        rintro rfl
        exact absurd blank.1 (by decide)
      have notSeparator : character ≠ separator := by
        rintro rfl
        rw [notBlank] at blank
        cases blank.1
      simpa [splitFrom, notOpening, notClosing, notSeparator] using induction blank.2 _ _

/-- Arguments that were found stay. -/
theorem mem_of_splitFrom {depth index : Nat} {read rest : List Char} {found arguments : List Cursor}
    {stop argument : Cursor}
    (outcome : splitFrom separator opening depth start read found index rest =
      .ok (arguments, stop))
    (inside : argument ∈ found) : argument ∈ arguments := by
  induction rest generalizing depth start read found index with
  | nil => cases outcome
  | cons character rest induction =>
      rcases splitFrom_cons_eq_ok outcome with
        ⟨_, further, _⟩ | ⟨_, _, _, ends⟩ | ⟨_, _, _, behind⟩
      · exact induction further inside
      · rcases ends with ⟨_, rfl, _⟩ | ⟨_, rfl⟩
        · cases inside
        · exact List.mem_append_left _ (List.mem_reverse.mpr inside)
      · exact induction behind (List.mem_cons_of_mem _ inside)

/-- The argument that is being read. `rest` is the text behind what was read of it. -/
structure Reading (continued inComment : Bool) (base : Nat) (found : List Cursor)
    (read image rest : List Char) : Prop where
  width : image.length = read.length
  blanked : blankFrom false (read.reverse ++ rest) = image.reverse ++ blankFrom inComment rest
  unobtrusive : unobtrusiveFrom continued false (base + 1) false (read.reverse ++ rest) = true
  clear : found = [] → opensClearly (read.reverse ++ rest) = true

namespace Reading

variable {inComment inside : Bool} {found : List Cursor} {read image rest : List Char}
  {character shown : Char}

/-- One more character belongs to the argument. -/
theorem push (reading : Reading continued inComment base found read image (character :: rest))
    (step : blankFrom inComment (character :: rest) = shown :: blankFrom inside rest) :
    Reading continued inside base found (character :: read) (shown :: image) rest where
  width := by simp [reading.width]
  blanked := by simpa [step] using reading.blanked
  unobtrusive := by simpa using reading.unobtrusive
  clear nothing := by simpa using reading.clear nothing

theorem first (unobtrusive : unobtrusiveFrom continued false (base + 1) false rest = true)
    (clear : found = [] → opensClearly rest = true) :
    Reading continued false base found [] [] rest :=
  ⟨rfl, rfl, unobtrusive, clear⟩

section Ended

variable (reading : Reading continued false base found read image (character :: rest))
  (heeded : isHeeded character = true)

include reading heeded

theorem image_eq : image.reverse = blankFrom false read.reverse := by
  have notSlash : character ≠ '/' := ne_of_isHeeded heeded (by decide)
  have clean : CleanCut read.reverse (character :: rest) :=
    .of_head fun first => notSlash (Option.some.inj first)
  rcases blankFrom_append false clean with ⟨inside, blanked⟩
  refine (List.append_inj (reading.blanked.symm.trans blanked) ?_).1
  rw [List.length_reverse, length_blankFrom, List.length_reverse, reading.width]

theorem image_blank (blank : read.all isBlank = true) : image.all isBlank = true := by
  have same := reading.image_eq heeded
  rw [blankFrom_of_blank (by rwa [List.all_reverse])] at same
  rwa [List.reverse_injective same]

/-- An argument of nothing but comments is skipped. -/
theorem skip_eq_nil (blank : image.all isBlank = true) (index : Nat) :
    (Cursor.mk index read.reverse).skip.rest = [] := by
  apply skip_eq_nil_of_blanked
  rwa [← reading.image_eq heeded, List.all_reverse]

/-- The brackets hold more than comments. -/
theorem not_hollow (closing : character = ')') (blank : image.all isBlank = true)
    (notBlank : read.all isBlank = false) : found ≠ [] := by
  intro nothing
  have blanked : (blankFrom false read.reverse).all isBlank = true := by
    rw [← reading.image_eq heeded]
    rwa [List.all_reverse]
  have ahead : commentAhead (read.reverse ++ character :: rest) = true :=
    commentAhead_append (commentAhead_of_blanked (by rwa [List.all_reverse]) blanked) _
  have next : codeAhead? (read.reverse ++ character :: rest) = some ')' := by
    rw [codeAhead?, Cursor.next?, Cursor.skip, skipFrom_rest_cut (Nat.succ_ne_zero base) heeded
      reading.unobtrusive (reading.skip_eq_nil heeded blank 0), closing]
    rfl
  have clear := reading.clear nothing
  rw [opensClearly, ahead, next] at clear
  cases clear

theorem argument_blanked (stops : continuesFormula character = false) :
    Blanked false false (base + 1) false read.reverse image.reverse := by
  have notSlash : character ≠ '/' := ne_of_isHeeded heeded (by decide)
  have clean : CleanCut read.reverse (character :: rest) :=
    .of_head fun first => notSlash (Option.some.inj first)
  rw [reading.image_eq heeded]
  exact .of_text (unobtrusiveFrom_of_append clean reading.unobtrusive
    (.inr ⟨character, rfl, heeded, stops⟩))

end Ended

end Reading

theorem splitFrom_end (read : List Char) (found : List Cursor) (index : Nat) (rest : List Char) :
    splitFrom separator opening 0 start read found index (')' :: rest) =
      if read.all isBlank then
        if found.isEmpty then .ok ([], ⟨index + 1, rest⟩)
        else .error ⟨.missingArgument, index, index⟩
      else .ok ((⟨start, read.reverse⟩ :: found).reverse, ⟨index + 1, rest⟩) := rfl

theorem splitFrom_comma (read : List Char) (found : List Cursor) (index : Nat)
    (rest : List Char) :
    splitFrom ',' opening 0 start read found index (',' :: rest) =
      if read.all isBlank then .error ⟨.extraSeparator ',', index, index⟩
      else splitFrom ',' opening 0 (index + 1) [] (⟨start, read.reverse⟩ :: found) (index + 1)
        rest := rfl

theorem splitFrom_other {character : Char} {depth : Nat} (notOpening : character ≠ '(')
    (notClosing : character ≠ ')') (inside : character = ',' → depth ≠ 0) (read : List Char)
    (found : List Cursor) (index : Nat) (rest : List Char) :
    splitFrom ',' opening depth start read found index (character :: rest) =
      splitFrom ',' opening depth start (character :: read) found (index + 1) rest := by
  have noSeparator : (character = ',' && depth = 0) = false := by simpa using inside
  simp only [splitFrom, notOpening, notClosing, noSeparator, if_false, Bool.false_eq_true]

/-- The bracket that ends the list. -/
theorem splitFrom_end_blanked {other start' index index' : Nat} {word : Bool}
    {read image rest gap : List Char} {found images : List Cursor}
    (reading : Reading continued false base found read image (')' :: rest))
    (behind : Blanked trailing continued base word (rest ++ gap) (blankFrom false rest))
    (foundBlanked : ArgumentsBlanked base found images) :
    SplitAlike trailing continued base
      (splitFrom ',' opening 0 start read found index (')' :: (rest ++ gap)))
      (splitFrom ',' other 0 start' image images index' (')' :: blankFrom false rest)) := by
  have heeded : isHeeded ')' = true := by decide
  have empty : images.isEmpty = found.isEmpty := by cases foundBlanked <;> rfl
  rw [splitFrom_end, splitFrom_end, empty]
  cases blank : read.all isBlank with
  | true =>
      rw [reading.image_blank heeded blank, if_pos rfl, if_pos rfl]
      cases found.isEmpty with
      | true => exact .accepted .nil behind
      | false => exact .refused
  | false =>
      rw [if_neg Bool.false_ne_true]
      cases imageBlank : image.all isBlank with
      | true =>
          have nonempty : found.isEmpty = false :=
            List.isEmpty_eq_false_iff.mpr (reading.not_hollow heeded rfl imageBlank blank)
          rw [if_pos rfl, nonempty, if_neg Bool.false_ne_true]
          exact .hollow (List.mem_reverse.mpr (List.mem_cons_self ..))
            (reading.skip_eq_nil heeded imageBlank start)
      | false =>
          rw [if_neg Bool.false_ne_true]
          exact .accepted (List.forall₂_reverse_iff.mpr
            (.cons (reading.argument_blanked heeded rfl) foundBlanked)) behind

/-- A separator, behind which the next argument begins. -/
theorem splitFrom_comma_blanked {other start' index index' : Nat} {read image rest gap : List Char}
    {found images : List Cursor}
    (reading : Reading continued false base found read image (',' :: rest))
    (foundBlanked : ArgumentsBlanked base found images)
    (further : ArgumentsBlanked base (⟨start, read.reverse⟩ :: found)
        (⟨start', image.reverse⟩ :: images) →
      SplitAlike trailing continued base
        (splitFrom ',' opening 0 (index + 1) [] (⟨start, read.reverse⟩ :: found) (index + 1)
          (rest ++ gap))
        (splitFrom ',' other 0 (index' + 1) [] (⟨start', image.reverse⟩ :: images) (index' + 1)
          (blankFrom false rest))) :
    SplitAlike trailing continued base
      (splitFrom ',' opening 0 start read found index (',' :: (rest ++ gap)))
      (splitFrom ',' other 0 start' image images index' (',' :: blankFrom false rest)) := by
  have heeded : isHeeded ',' = true := by decide
  rw [splitFrom_comma, splitFrom_comma]
  cases blank : read.all isBlank with
  | true =>
      rw [reading.image_blank heeded blank]
      exact .refused
  | false =>
      rw [if_neg Bool.false_ne_true]
      cases imageBlank : image.all isBlank with
      | true =>
          rw [if_pos rfl]
          cases outcome : splitFrom ',' opening 0 (index + 1) [] (⟨start, read.reverse⟩ :: found)
              (index + 1) (rest ++ gap) with
          | error fault => exact .refused
          | ok split =>
              exact .hollow (mem_of_splitFrom outcome (List.mem_cons_self ..))
                (reading.skip_eq_nil heeded imageBlank start)
      | false =>
          rw [if_neg Bool.false_ne_true]
          exact further (.cons (reading.argument_blanked heeded rfl) foundBlanked)

/-- Arguments are split alike. -/
theorem splitFrom_blanked {other start' index index' depth : Nat} {inComment word : Bool}
    {read image text gap : List Char} {found images : List Cursor}
    (reading : Reading continued inComment base found read image text)
    (unobtrusive : unobtrusiveFrom continued inComment (base + 1 + depth) word text = true)
    (blank : gap.all isBlank = true) (noGap : trailing = false → gap = [])
    (foundBlanked : ArgumentsBlanked base found images) :
    SplitAlike trailing continued base
      (splitFrom ',' opening depth start read found index (text ++ gap))
      (splitFrom ',' other depth start' image images index' (blankFrom inComment text)) := by
  have passes {character : Char} (notHeeded : isHeeded character = false)
      (opening depth start index : Nat) (read rest : List Char) (found : List Cursor) :
      splitFrom ',' opening depth start read found index (character :: rest) =
        splitFrom ',' opening depth start (character :: read) found (index + 1) rest :=
    splitFrom_other (ne_of_isHeeded (by decide) notHeeded).symm
      (ne_of_isHeeded (by decide) notHeeded).symm
      (fun isComma => absurd isComma (ne_of_isHeeded (by decide) notHeeded).symm) ..
  have space : isHeeded ' ' = false := by decide
  have clean {text : List Char} : CleanCut text gap := .of_blank blank
  induction inComment, text using scan_induction
    generalizing depth word start start' index index' read image found images with
  | nil inComment =>
      have unclosed : ∃ fault,
          splitFrom ',' opening depth start read found index gap = .error fault :=
        splitFrom_blank blank (by decide) depth read found index
      rcases unclosed with ⟨fault, refused⟩
      rw [List.nil_append, refused]
      exact .refused
  | comment character rest goesOn induction =>
      have step : blankFrom true (character :: rest) = ' ' :: blankFrom true rest :=
        blankFrom_comment goesOn
      rw [unobtrusiveFrom_comment goesOn] at unobtrusive
      rw [List.cons_append, step, passes space, passes (unobtrusive.1 (by omega))]
      exact induction (reading.push step) unobtrusive.2 foundBlanked
  | opening rest second induction =>
      have step := blankFrom_opening second
      rw [unobtrusiveFrom_opening second] at unobtrusive
      rw [List.cons_append, step, passes space, passes (by decide)]
      exact induction (reading.push step) unobtrusive foundBlanked
  | code inComment character rest ends apart induction =>
      have step := blankFrom_code ends apart
      rw [unobtrusiveFrom_code ends apart] at unobtrusive
      have further := unobtrusive.2
      rw [List.cons_append, step]
      by_cases isOpening : character = '('
      · subst isOpening
        rw [depthAfter_opening_counted] at further
        exact induction (reading.push step) further foundBlanked
      · by_cases isClosing : character = ')'
        · subst isClosing
          rw [depthAfter_closing] at further
          cases depth with
          | succ depth => exact induction (reading.push step) further foundBlanked
          | zero =>
              have noComment : inComment = false := by
                rw [Bool.eq_false_iff]
                intro isComment
                exact absurd (ends isComment) (by decide)
              subst noComment
              exact splitFrom_end_blanked reading ⟨rest, gap, rfl, rfl, further, blank, noGap⟩
                foundBlanked
        · rw [depthAfter_other isOpening isClosing] at further
          by_cases separates : character = ',' ∧ depth = 0
          · rcases separates with ⟨rfl, rfl⟩
            have noComment : inComment = false := by
              rw [Bool.eq_false_iff]
              intro isComment
              exact absurd (ends isComment) (by decide)
            subst noComment
            exact splitFrom_comma_blanked reading foundBlanked fun blanked =>
              induction (.first further nofun) further blanked
          · have inside : character = ',' → depth ≠ 0 := fun isComma outside =>
              separates ⟨isComma, outside⟩
            rw [splitFrom_other isOpening isClosing inside,
              splitFrom_other isOpening isClosing inside]
            exact induction (reading.push step) further foundBlanked

end Splitting

end NumericRules.Grammar
