import NumericRules.Grammar.Statement
import NumericRules.Proofs.Grammar.BlankedReading
import NumericRules.Proofs.Grammar.ValueScan

/-! # Reading blanked statements

The scan for the end of a value knows comments, so a statement with its comments blanked
has the same extent. Its parts are read alike if their comments are unobtrusive.
-/

namespace NumericRules.Grammar

open Text

/-- The cursor over the text with its comments blanked. -/
def Cursor.blank (cursor : Cursor) : Cursor := ⟨cursor.index, blankComments cursor.rest⟩

/-! ## Between statements -/

theorem Cursor.skip_blank (cursor : Cursor) : cursor.blank.skip = cursor.skip.blank :=
  skipFrom_blankFrom false cursor.index cursor.rest

/-- Where a blank separates statements, nothing else is skipped between them. -/
theorem skipSeparators_eq_skip (cursor : Cursor) : skipSeparators ' ' cursor = cursor.skip := by
  rcases cursor with ⟨index, text⟩
  have same (inComment : Bool) :
      skipSeparatorsFrom ' ' inComment index text = Cursor.skipFrom inComment index text := by
    induction text generalizing inComment index with
    | nil => rfl
    | cons character rest induction =>
        unfold skipSeparatorsFrom Cursor.skipFrom
        split
        · exact induction _ _
        · split
          · exact induction _ _
          · rename_i notBlank
            have notSpace : character ≠ ' ' := by
              rintro rfl
              exact notBlank (by decide)
            rw [if_neg notSpace]
            split
            · exact induction _ _
            · rfl
  exact same false

/-! ## The extent of a value -/

/-- A value ends outside brackets. -/
theorem Extent.of_operand? {extent : Extent} {depth index : Nat} {found : Option Extent}
    (read : extent.operand? ' ' depth index = .ok found) :
    (found = none ∧ extent.depth = 0) ∨ found = some (.operand depth index) := by
  unfold Extent.operand? at read
  split at read
  · exact .inr (Except.ok.inj read).symm
  · split at read
    · rename_i outside
      split at read
      · exact .inl ⟨(Except.ok.inj read).symm, outside⟩
      · split at read
        · exact .inl ⟨(Except.ok.inj read).symm, outside⟩
        · exact .inr (Except.ok.inj read).symm
    · split at read
      · cases read
      · exact .inr (Except.ok.inj read).symm

/-- A character that is read opens or closes a bracket or keeps the depth, and is the
last of the value or none of it. -/
theorem Extent.of_read? {extent : Extent} {index : Nat} {character : Char} {found : Option Extent}
    (read : extent.read? ' ' ',' index character = .ok found) :
    (found = none ∧ extent.depth = 0) ∨
    ∃ after, found = some after ∧ after.depth = depthAfter extent.depth true character ∧
      (after.stop = extent.stop ∨ after.stop = index + 1) := by
  unfold Extent.read? at read
  by_cases lineEnd : character = '\n'
  · rw [if_pos lineEnd] at read
    subst lineEnd
    exact .inr ⟨_, (Except.ok.inj read).symm, rfl, .inl rfl⟩
  have notSeparator : (decide (character = ' ') && decide (' ' ≠ ' ') &&
      decide (extent.depth = 0)) = false := by
    simp
  rw [if_neg lineEnd, notSeparator, if_neg Bool.false_ne_true] at read
  by_cases blank : isBlank character = true
  · rw [if_pos blank] at read
    exact .inr ⟨_, (Except.ok.inj read).symm, (depthAfter_blank blank ..).symm, .inl rfl⟩
  rw [if_neg blank] at read
  by_cases closing : character = ')'
  · rw [if_pos closing] at read
    subst closing
    split at read
    · cases read
    · exact .inr ⟨_, (Except.ok.inj read).symm, (depthAfter_closing ..).symm, .inr rfl⟩
  rw [if_neg closing] at read
  by_cases continues : continuesValue ',' character = true
  · rw [if_pos continues] at read
    have notOpening : character ≠ '(' := by
      rintro rfl
      exact absurd continues (by decide)
    exact .inr ⟨_, (Except.ok.inj read).symm, (depthAfter_other notOpening closing ..).symm,
      .inr rfl⟩
  rw [if_neg continues] at read
  have depth : depthAfter extent.depth true character =
      if character = '(' then extent.depth + 1 else extent.depth := by
    simp [depthAfter, closing]
  rcases Extent.of_operand? read with ended | operand
  · exact .inl ended
  · exact .inr ⟨_, operand, depth.symm, .inr rfl⟩

theorem valueEnd_space (extent : Extent) (index : Nat) (rest : List Char) :
    valueEnd ' ' ',' false extent index (' ' :: rest) =
      valueEnd ' ' ',' false { extent with spaced := true } (index + 1) rest := by
  have apart : (' ' : Char) = '/' → rest.head? ≠ some '/' := by simp
  rw [valueEnd_code extent index apart]
  rfl

/-! ## Blanked values -/

/-- What the scan knows inside a comment, and what it knows in the blanks instead. -/
def Extent.within (inComment : Bool) (extent : Extent) : Extent :=
  if inComment then extent.endLine else extent

def Extent.withinBlanks (inComment : Bool) (extent : Extent) : Extent :=
  if inComment then { extent with spaced := true } else extent

/-- The scan for the end of a value takes comments for blanks. -/
theorem valueEnd_blankFrom (inComment : Bool) (extent : Extent) (index : Nat)
    (text : List Char) :
    valueEnd ' ' ',' false (extent.withinBlanks inComment) index (blankFrom inComment text) =
      (valueEnd ' ' ',' inComment (extent.within inComment) index text).map fun result =>
        (result.1, result.2.blank) := by
  induction inComment, text using scan_induction generalizing extent index with
  | nil inComment => cases inComment <;> rfl
  | comment character rest goesOn induction =>
      rw [blankFrom_comment goesOn, valueEnd_comment _ _ goesOn, ← induction, valueEnd_space]
      rfl
  | opening rest second induction =>
      rw [blankFrom_opening second, valueEnd_opening _ _ second, valueEnd_space]
      exact induction extent (index + 1)
  | code inComment character rest ends apart induction =>
      rw [blankFrom_code ends apart]
      cases inComment with
      | true =>
          cases ends rfl
          exact induction extent.endLine (index + 1)
      | false =>
          have apartImage : character = '/' → (blankFrom false rest).head? ≠ some '/' :=
            fun isSlash second => apart isSlash (head?_blankFrom second)
          have stops : Cursor.blank ⟨index, character :: rest⟩ =
              ⟨index, character :: blankFrom false rest⟩ :=
            congrArg (Cursor.mk index) (blankFrom_code (by simp) apart)
          have goesOn (after : Extent) := induction after (index + 1)
          simp only [Extent.withinBlanks, Extent.within, Bool.false_eq_true, if_false] at goesOn ⊢
          rw [valueEnd_code _ _ apart, valueEnd_code _ _ apartImage]
          cases extent.read? ' ' ',' index character with
          | error fault => rfl
          | ok found =>
              cases found with
              | none => exact congrArg (fun cursor => Except.ok (extent.stop, cursor)) stops.symm
              | some after => exact goesOn after

/-- What the scan has found is what it had found before, or it has read one more
character of code. -/
theorem valueEnd_code_eq_ok {inComment : Bool} {character : Char} {rest : List Char}
    (ends : inComment = true → character = '\n')
    (apart : character = '/' → rest.head? ≠ some '/') {extent : Extent} {index : Nat}
    {result : Nat × Cursor}
    (outcome : valueEnd ' ' ',' inComment extent index (character :: rest) = .ok result) :
    (inComment = false ∧ extent.depth = 0 ∧ result = (extent.stop, ⟨index, character :: rest⟩)) ∨
    ∃ after : Extent, after.depth = depthAfter extent.depth true character ∧
      (after.stop = extent.stop ∨ after.stop = index + 1) ∧
      valueEnd ' ' ',' false after (index + 1) rest = .ok result := by
  cases inComment with
  | true =>
      cases ends rfl
      rw [valueEnd_lineEnd] at outcome
      exact .inr ⟨extent, (depthAfter_other (by decide) (by decide) ..).symm, .inl rfl, outcome⟩
  | false =>
      rw [valueEnd_code _ _ apart] at outcome
      cases read : extent.read? ' ' ',' index character with
      | error fault =>
          rw [read] at outcome
          cases outcome
      | ok found =>
          rw [read] at outcome
          rcases Extent.of_read? read with ⟨rfl, outside⟩ | ⟨after, rfl, depth, stop⟩
          · cases outcome
            exact .inl ⟨rfl, outside, rfl⟩
          · exact .inr ⟨after, depth, stop, outcome⟩

/-- No bracket that counts is open behind a value. -/
theorem unobtrusiveFrom_of_valueEnd {continued inComment : Bool} {depth : Nat} {word : Bool}
    {extent : Extent} {index stop : Nat} {text : List Char} {next : Cursor}
    (unobtrusive : unobtrusiveFrom continued inComment depth word text = true)
    (le : depth ≤ extent.depth)
    (outcome : valueEnd ' ' ',' inComment extent index text = .ok (stop, next)) :
    unobtrusiveFrom continued false 0 false next.rest = true := by
  induction inComment, text using scan_induction generalizing depth word extent index with
  | nil =>
      cases outcome
      rfl
  | comment character rest goesOn induction =>
      rw [unobtrusiveFrom_comment goesOn] at unobtrusive
      rw [valueEnd_comment _ _ goesOn] at outcome
      exact induction unobtrusive.2 le outcome
  | opening rest second induction =>
      rw [unobtrusiveFrom_opening second] at unobtrusive
      rw [valueEnd_opening _ _ second] at outcome
      exact induction unobtrusive (show depth ≤ extent.endLine.depth from le) outcome
  | code inComment character rest ends apart induction =>
      rcases valueEnd_code_eq_ok ends apart outcome with
        ⟨rfl, outside, found⟩ | ⟨after, depthIs, _, further⟩
      · cases found
        rw [outside, Nat.le_zero] at le
        subst le
        exact unobtrusiveFrom_mono unobtrusive (Nat.le_refl 0) nofun
      · rw [unobtrusiveFrom_code ends apart] at unobtrusive
        apply induction unobtrusive.2 _ further
        rw [depthIs]
        exact depthAfter_mono le (fun _ => rfl) character

/-- A cut behind so many characters. -/
def CleanAt (text : List Char) (count : Nat) : Prop := CleanCut (text.take count) (text.drop count)

/-- A value does not end between the slashes of a comment. -/
theorem cleanAt_of_valueEnd {inComment : Bool} {extent : Extent} {base stop : Nat}
    (front : List Char) {text : List Char} {next : Cursor}
    (clean : CleanAt (front ++ text) (extent.stop - base))
    (outcome : valueEnd ' ' ',' inComment extent (base + front.length) text = .ok (stop, next)) :
    CleanAt (front ++ text) (stop - base) := by
  have pass (front : List Char) (character : Char) (rest : List Char) :
      front ++ character :: rest = (front ++ [character]) ++ rest := by simp
  have width (front : List Char) (character : Char) :
      base + front.length + 1 = base + (front ++ [character]).length := by simp [Nat.add_assoc]
  induction inComment, text using scan_induction generalizing extent front with
  | nil =>
      cases outcome
      exact clean
  | comment character rest goesOn induction =>
      rw [valueEnd_comment _ _ goesOn, width front character] at outcome
      rw [pass] at clean ⊢
      exact induction _ clean outcome
  | opening rest second induction =>
      rw [valueEnd_opening _ _ second, width front '/'] at outcome
      rw [pass] at clean ⊢
      exact induction _ (show CleanAt _ (extent.endLine.stop - base) from clean) outcome
  | code inComment character rest ends apart induction =>
      rcases valueEnd_code_eq_ok ends apart outcome with
        ⟨_, _, found⟩ | ⟨after, _, stopIs, further⟩
      · cases found
        exact clean
      · rw [width front character] at further
        rw [pass] at clean ⊢
        refine induction _ ?_ further
        rcases stopIs with same | behind
        · rwa [same]
        · have count : after.stop - base = (front ++ [character]).length := by
            rw [behind, width front character, Nat.add_sub_cancel_left]
          rw [CleanAt, count, List.take_left, List.drop_left]
          intro last
          rw [List.getLast?_append_of_ne_nil _ (List.cons_ne_nil _ _)] at last
          exact apart (Option.some.inj last)

theorem take_blankComments {text : List Char} {count : Nat} (clean : CleanAt text count) :
    (blankComments text).take count = blankComments (text.take count) := by
  by_cases long : count ≤ text.length
  · rcases blankFrom_append false clean with ⟨inside, blanked⟩
    rw [List.take_append_drop] at blanked
    rw [blankComments, blanked]
    apply List.take_left'
    rw [length_blankFrom, List.length_take, Nat.min_eq_left long]
  · have short : text.length ≤ count := Nat.le_of_not_le long
    have shortImage : (blankComments text).length ≤ count := by
      rwa [blankComments, length_blankFrom]
    rw [List.take_of_length_le short, List.take_of_length_le shortImage]

/-! ## Parts of statements -/

/-- No call is open, and the comments of those that follow are unobtrusive. -/
def Cursor.Unobtrusive (cursor : Cursor) : Prop :=
  unobtrusiveFrom false false 0 false cursor.rest = true

/-- Equal results, with the same rest but for its comments. -/
def StopsBlank (found image : α × Cursor) : Prop :=
  image = (found.1, found.2.blank) ∧ found.2.Unobtrusive

theorem Cursor.Unobtrusive.skip {cursor : Cursor} (unobtrusive : cursor.Unobtrusive) :
    cursor.skip.Unobtrusive := by
  have blanked : Blanked false false 0 false cursor.rest cursor.blank.rest := .of_text unobtrusive
  exact blanked.skip.blanked.text.2

theorem isEmpty_blankComments (text : List Char) : (blankComments text).isEmpty = text.isEmpty := by
  rw [Bool.eq_iff_iff, List.isEmpty_iff_length_eq_zero, List.isEmpty_iff_length_eq_zero,
    blankComments, length_blankFrom]

theorem unobtrusiveFrom_tail {continued : Bool} {character : Char} {rest : List Char}
    (apart : character = '/' → rest.head? ≠ some '/')
    (unobtrusive : unobtrusiveFrom continued false 0 false (character :: rest) = true) :
    unobtrusiveFrom continued false 0 false rest = true := by
  rw [unobtrusiveFrom_code (by simp) apart] at unobtrusive
  exact unobtrusiveFrom_mono unobtrusive.2 (Nat.zero_le _) nofun

theorem readExtent_blank {cursor : Cursor} (unobtrusive : cursor.Unobtrusive) :
    Alike (fun found image => image = (found.1.blank, found.2.blank) ∧
        unobtrusiveFrom true false 0 false found.1.rest = true ∧ found.2.Unobtrusive)
      (readExtent ' ' ',' cursor) (readExtent ' ' ',' cursor.blank) := by
  have scan : valueEnd ' ' ',' false { stop := cursor.index } cursor.index cursor.blank.rest =
      (valueEnd ' ' ',' false { stop := cursor.index } cursor.index cursor.rest).map fun result =>
        (result.1, result.2.blank) :=
    valueEnd_blankFrom false { stop := cursor.index } cursor.index cursor.rest
  unfold readExtent
  rw [show cursor.blank.index = cursor.index from rfl, scan]
  cases outcome : valueEnd ' ' ',' false { stop := cursor.index } cursor.index cursor.rest with
  | error fault => exact .refused
  | ok found =>
      rcases found with ⟨stop, next⟩
      have start : CleanAt ([] ++ cursor.rest) (cursor.index - cursor.index) := by
        rw [Nat.sub_self]
        nofun
      have clean : CleanAt cursor.rest (stop - cursor.index) :=
        cleanAt_of_valueEnd [] start outcome
      refine .accepted ⟨?_, ?_, unobtrusiveFrom_of_valueEnd unobtrusive (Nat.zero_le _) outcome⟩
      · exact congrArg (fun text => (Cursor.mk cursor.index text, next.blank))
          (take_blankComments clean)
      · have parts : unobtrusiveFrom false false 0 false (cursor.rest.take (stop - cursor.index) ++
            cursor.rest.drop (stop - cursor.index)) = true := by
          rwa [List.take_append_drop]
        exact unobtrusiveFrom_of_append clean parts (.inl rfl)

theorem readUpdate_blank (name : List Char) (start : Nat) {cursor : Cursor}
    (settled : Settled cursor.rest) (unobtrusive : cursor.Unobtrusive) :
    Alike StopsBlank (readUpdate name start cursor) (readUpdate name start cursor.blank) := by
  rcases cursor with ⟨index, _ | ⟨symbol, rest⟩⟩
  · exact .refused
  · have apart := (settled symbol rfl).2
    rw [List.tail_cons] at apart
    have image : Cursor.blank ⟨index, symbol :: rest⟩ = ⟨index, symbol :: blankFrom false rest⟩ :=
      congrArg (Cursor.mk index) (blankFrom_code (by simp) apart)
    have behind := unobtrusiveFrom_tail apart unobtrusive
    rw [image]
    unfold readUpdate
    simp only [Cursor.next?, List.head?_cons]
    have sameSecond : Cursor.second? ⟨index, symbol :: blankFrom false rest⟩ = some '=' ↔
        Cursor.second? ⟨index, symbol :: rest⟩ = some '=' :=
      head?_blankFrom_iff (by decide) (by decide)
    split
    · exact .refused
    · split
      · exact .accepted ⟨rfl, behind⟩
      · split
        · by_cases second : Cursor.second? ⟨index, symbol :: rest⟩ = some '='
          · rw [if_pos second, if_pos (sameSecond.mpr second)]
            rcases List.head?_eq_some_iff.mp second with ⟨tail, rfl⟩
            refine .accepted ⟨?_, unobtrusiveFrom_tail (by simp) behind⟩
            rw [blankFrom_code (by simp) (by simp)]
            rfl
          · rw [if_neg second, if_neg (mt sameSecond.mp second)]
            exact .refused
        · exact .refused

/-! ## Statements -/

/-- A name that is read as a word of letters ends with one. -/
theorem wordAfter_name {name : List Char} (nonempty : name ≠ [])
    (letters : ∀ character ∈ name, isWordCharacter character = true) (word : Bool) :
    name.foldl wordAfter word = true := by
  induction name generalizing word with
  | nil => exact absurd rfl nonempty
  | cons character name induction =>
      have isWord := letters character (List.mem_cons_self ..)
      have after : wordAfter word character = true := by
        rw [wordAfter, not_isBlank_of_isWordCharacter isWord, if_neg Bool.false_ne_true]
        exact isTokenCharacter_of_isWordCharacter isWord
      cases name with
      | nil => exact after
      | cons next name =>
          exact induction (List.cons_ne_nil _ _)
            (fun character inside => letters character (List.mem_cons_of_mem _ inside)) _

theorem resolve_blank (vocabulary : Vocabulary ν) (name : List Char) (start : Nat)
    (cursor : Cursor) :
    Alike Eq (vocabulary.resolve name start cursor)
      (vocabulary.resolve name start cursor.blank) := by
  unfold Vocabulary.resolve
  split
  · exact .accepted rfl
  · exact .refused

section Steps

variable {vocabulary : Vocabulary ν} (comma : vocabulary.argumentSeparator = ',')

include comma

theorem wholeFormula_blanked {trailing continued : Bool} {depth : Nat} {word : Bool}
    {cursor image : Cursor}
    (blanked : Blanked trailing continued depth word cursor.rest image.rest) :
    Alike Eq (wholeFormula vocabulary cursor) (wholeFormula vocabulary image) :=
  whole_blanked (formula_condition_blanked comma vocabulary.nestingLimit).1 blanked

/-- A formula without comments is read alike wherever it stands. -/
theorem wholeFormula_relocated {index : Nat} {text : List Char}
    (commentless : ¬ ['/', '/'] <:+: text) {tree : Formula ν}
    (accepted : wholeFormula vocabulary ⟨index, text⟩ = .ok tree) (other : Nat) :
    wholeFormula vocabulary ⟨other, text⟩ = .ok tree := by
  have blanked : Blanked false false 0 false text text := .of_commentless commentless
  have alike : Alike Eq (wholeFormula vocabulary ⟨index, text⟩)
      (wholeFormula vocabulary ⟨other, text⟩) := wholeFormula_blanked comma blanked
  exact alike.eq_ok accepted

theorem wholeCondition_blanked {base : Nat} {word : Bool} {cursor image : Cursor}
    (blanked : Blanked false false (base + 1) word cursor.rest image.rest) :
    Alike Eq (wholeCondition vocabulary cursor) (wholeCondition vocabulary image) :=
  whole_blanked (formula_condition_blanked comma vocabulary.nestingLimit).2 blanked

omit comma in
/-- Behind the arguments of a return stands the same rest but for its comments. -/
theorem stop_of_readArguments {cursor stop other : Cursor} {arguments images : List Cursor}
    {word : Bool} (opens : cursor.next? = some '(') (imageOpens : cursor.blank.next? = some '(')
    (read : readArguments ',' cursor = .ok (arguments, stop))
    (readImage : readArguments ',' cursor.blank = .ok (images, other))
    (behind : Blanked false false 0 word stop.rest other.rest) :
    other = stop.blank ∧ stop.Unobtrusive := by
  rcases readArguments_eq_ok opens read with ⟨inner, spans, _⟩
  rcases readArguments_eq_ok imageOpens readImage with ⟨innerImage, spansImage, _⟩
  rcases behind.text with ⟨isImage, unobtrusive⟩
  refine ⟨?_, unobtrusiveFrom_mono unobtrusive (Nat.le_refl 0) nofun⟩
  have width := congrArg List.length spans.rest
  have widthImage := congrArg List.length spansImage.rest
  have sameWidth : cursor.blank.rest.length = cursor.rest.length := length_blankFrom false _
  have sameStart : cursor.blank.index = cursor.index := rfl
  have sameIndex : other.index = stop.index := by
    rw [spansImage.index, spans.index]
    simp only [isImage, List.length_append, length_blankFrom] at width widthImage
    omega
  rcases other with ⟨index, rest⟩
  simp only at sameIndex isImage
  rw [sameIndex, isImage]
  rfl

theorem readReturn_blank {cursor : Cursor} (opens : cursor.next? = some '(')
    (unobtrusive : unobtrusiveFrom false false 0 true cursor.rest = true) :
    Alike StopsBlank (readReturn vocabulary cursor) (readReturn vocabulary cursor.blank) := by
  have blanked : Blanked false false 0 true cursor.rest cursor.blank.rest := .of_text unobtrusive
  have split := readArguments_blanked blanked opens
  have formulaRefuses : RefusesGaps (formula vocabulary vocabulary.nestingLimit) :=
    formula_refuses vocabulary _
  have conditionRefuses : RefusesGaps (condition vocabulary vocabulary.nestingLimit) :=
    condition_refuses vocabulary _
  unfold readReturn
  rw [comma]
  generalize read : readArguments ',' cursor = outcome at split ⊢
  generalize readImage : readArguments ',' cursor.blank = outcomeImage at split ⊢
  cases split with
  | refused => exact .refused
  | hollow inside hollow =>
      apply Alike.bind_refused
      simp only
      split
      · rw [List.mem_singleton] at inside
        subst inside
        exact error_of_first (whole_refuses formulaRefuses hollow)
      · simp only [List.mem_cons, List.not_mem_nil, or_false] at inside
        rcases inside with rfl | rfl
        · exact error_of_first (whole_refuses conditionRefuses hollow)
        · exact error_of_next fun _ => error_of_first (whole_refuses formulaRefuses hollow)
      · exact ⟨_, rfl⟩
  | accepted arguments behind =>
      rcases stop_of_readArguments opens (blanked.opens_iff.mpr opens) read readImage behind with
        ⟨rfl, stopUnobtrusive⟩
      rcases arguments with _ | ⟨first, _ | ⟨second, _ | more⟩⟩
      · exact .refused
      · apply (wholeFormula_blanked comma first).bind
        rintro value _ rfl
        exact .accepted ⟨rfl, stopUnobtrusive⟩
      · apply (wholeCondition_blanked comma first).bind
        rintro test _ rfl
        apply (wholeFormula_blanked comma second).bind
        rintro value _ rfl
        exact .accepted ⟨rfl, stopUnobtrusive⟩
      · exact .refused

variable (space : vocabulary.stepSeparator = ' ')

include space

theorem readStep_blank (allowReturn : Bool) {cursor : Cursor} (unobtrusive : cursor.Unobtrusive) :
    Alike StopsBlank (readStep vocabulary allowReturn cursor)
      (readStep vocabulary allowReturn cursor.blank) := by
  let isName (character : Char) : Bool := !endsName ' ' character
  rcases @takeWhile_blankFrom false 0 false cursor.rest isName (by decide) (by decide) (by decide)
    (by decide) unobtrusive with ⟨taken, dropped, behind⟩
  let name := cursor.rest.takeWhile isName
  have nameEnds : cursor.blank.advance name.length = (cursor.advance name.length).blank :=
    congrArg (Cursor.mk (cursor.index + name.length)) dropped
  have blanked : Blanked false false 0 (name.foldl wordAfter false)
      (cursor.advance name.length).rest (cursor.advance name.length).blank.rest := .of_text behind
  have ahead := blanked.skip
  have readName : cursor.rest.takeWhile (fun character => !endsName ' ' character) = name := rfl
  have sameName : cursor.blank.rest.takeWhile (fun character => !endsName ' ' character) = name :=
    taken
  rw [Cursor.skip_blank] at ahead
  simp only [readStep, space, comma, readName, sameName, nameEnds, Cursor.skip_blank]
  generalize (cursor.advance name.length).skip = afterName at ahead ⊢
  have sameNext : afterName.blank.next? = afterName.next? := ahead.head?_eq
  have sameStart : cursor.blank.index = cursor.index := rfl
  rw [sameNext, sameStart]
  split
  · rename_i isReturn
    simp only [Bool.and_eq_true, decide_eq_true_eq] at isReturn
    rcases isReturn with ⟨⟨_, named⟩, opens⟩
    rcases word_of_isWord (by decide) named with ⟨nonempty, letters⟩
    apply readReturn_blank comma opens
    have inside := ahead.blanked.text.2
    rwa [wordAfter_name nonempty letters] at inside
  · have unobtrusive : afterName.Unobtrusive :=
      unobtrusiveFrom_mono ahead.blanked.text.2 (Nat.le_refl 0) nofun
    apply (readUpdate_blank name cursor.index ahead.settled unobtrusive).bind
    rintro ⟨update, afterUpdate⟩ _ ⟨rfl, behindUpdate⟩
    simp only
    split
    · exact .refused
    · apply (resolve_blank vocabulary name cursor.index afterUpdate).bind
      rintro target _ rfl
      rw [Cursor.skip_blank]
      apply (readExtent_blank behindUpdate.skip).bind
      rintro ⟨extent, stop⟩ _ ⟨rfl, valueUnobtrusive, stopUnobtrusive⟩
      have sameEmpty : extent.blank.rest.isEmpty = extent.rest.isEmpty :=
        isEmpty_blankComments extent.rest
      simp only [sameEmpty]
      split
      · exact .refused
      · have value : Blanked false true 0 false extent.rest extent.blank.rest :=
          .of_text valueUnobtrusive
        apply (wholeFormula_blanked comma value).bind
        rintro value _ rfl
        exact .accepted ⟨rfl, stopUnobtrusive⟩

theorem readSteps_blank (allowReturn : Bool) (fuel : Nat) {cursor : Cursor}
    (unobtrusive : cursor.Unobtrusive) :
    Alike StopsBlank (readSteps vocabulary allowReturn fuel cursor)
      (readSteps vocabulary allowReturn fuel cursor.blank) := by
  induction fuel generalizing cursor with
  | zero => exact .accepted ⟨rfl, unobtrusive⟩
  | succ fuel induction =>
      unfold readSteps
      rw [space]
      simp only [skipSeparators_eq_skip, Cursor.skip_blank]
      have skipped := unobtrusive.skip
      generalize cursor.skip = cursor at skipped ⊢
      have sameEnd : cursor.blank.rest.isEmpty = cursor.rest.isEmpty :=
        isEmpty_blankComments cursor.rest
      rw [sameEnd]
      split
      · exact .accepted ⟨rfl, skipped⟩
      · apply (readStep_blank comma space allowReturn skipped).bind
        rintro ⟨step, stop⟩ _ ⟨rfl, behind⟩
        apply (induction behind).bind
        rintro ⟨steps, stop⟩ _ ⟨rfl, behind⟩
        exact .accepted ⟨rfl, behind⟩

/-- Blanking unobtrusive comments changes nothing for operations. -/
theorem wholeOperations_blank {text : List Char}
    (unobtrusive : unobtrusiveFrom false false 0 false text = true) :
    Alike Eq (wholeOperations vocabulary text)
      (wholeOperations vocabulary (blankComments text)) := by
  unfold wholeOperations
  rw [show (blankComments text).length = text.length from length_blankFrom false text]
  apply (readSteps_blank comma space false (text.length + 1)
    (show (Cursor.start text).Unobtrusive from unobtrusive)).bind
  rintro ⟨steps, stop⟩ _ ⟨rfl, _⟩
  simp only
  split
  · exact .refused
  · exact .accepted rfl

/-- Blanking unobtrusive comments changes nothing for processes. -/
theorem wholeProcess_blank {text : List Char}
    (unobtrusive : unobtrusiveFrom false false 0 false text = true) :
    Alike Eq (wholeProcess vocabulary text) (wholeProcess vocabulary (blankComments text)) := by
  unfold wholeProcess
  rw [show (blankComments text).length = text.length from length_blankFrom false text]
  apply (readSteps_blank comma space true (text.length + 1)
    (show (Cursor.start text).Unobtrusive from unobtrusive)).bind
  rintro ⟨steps, stop⟩ _ ⟨rfl, _⟩
  simp only
  split
  · exact .refused
  · exact .accepted rfl

end Steps

end NumericRules.Grammar
