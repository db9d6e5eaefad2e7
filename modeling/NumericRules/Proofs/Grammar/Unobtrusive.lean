import NumericRules.Proofs.Grammar.Comments
import NumericRules.Proofs.Grammar.Shape
import NumericRules.Proofs.Grammar.Soundness

/-! # Unobtrusive comments

Inside the brackets of calls and everywhere in conditions, a comment is heeded if it has
a bracket, a separator or a symbol of conditions, and if it stands where a scan asks what
is next: behind a closing bracket, alone in brackets or behind a truth value. Elsewhere
comments may hold anything.
-/

namespace NumericRules.Grammar

open Text

/-! ## Heeded comments -/

/-- Characters that the scans for arguments and comparands heed in comments too. -/
def isHeeded (character : Char) : Bool :=
  ['(', ')', ',', '&', '|', '<', '>', '=', '!'].contains character

/-- A comment behind a closing bracket passes for a division, so what follows it has to
continue a formula. Behind the text this is so if it is `continued`. -/
def closesClearly (continued : Bool) (rest : List Char) : Bool :=
  !commentAhead rest || (codeAhead? rest).elim continued continuesFormula

/-- A comment alone in brackets passes for an argument. -/
def opensClearly (rest : List Char) : Bool :=
  !commentAhead rest || codeAhead? rest != some ')'

/-- A truth value has no comment behind it. -/
def namesClearly (text : List Char) : Bool :=
  [4, 5].all fun width => (literal? (text.take width)).isNone || !commentAhead (text.drop width)

/-- Whether the comments behind a character leave its meaning alone. -/
def settles (continued : Bool) (character : Char) (rest : List Char) : Bool :=
  if character = ')' then closesClearly continued rest
  else if character = '(' then opensClearly rest
  else namesClearly (character :: rest)

/-- The brackets that are open from the first one of a call on, where `word` tells that a
word stands before the character. Outside calls the brackets of groups do not count. -/
def depthAfter (depth : Nat) (word : Bool) (character : Char) : Nat :=
  if character = '(' then if depth = 0 && !word then 0 else depth + 1
  else if character = ')' then depth - 1
  else depth

/-- Whether the last character that is not blank belongs to a word. -/
def wordAfter (word : Bool) (character : Char) : Bool :=
  if isBlank character then word else isTokenCharacter ',' character

/-- Whether every comment inside the brackets that count is unobtrusive. -/
def unobtrusiveFrom (continued inComment : Bool) (depth : Nat) (word : Bool) :
    List Char → Bool
  | [] => true
  | character :: rest =>
      if inComment && character ≠ '\n' then
        (depth = 0 || !isHeeded character) && unobtrusiveFrom continued true depth word rest
      else if character = '/' && rest.head? = some '/' then
        unobtrusiveFrom continued true depth word rest
      else
        let depth := depthAfter depth word character
        (depth = 0 || settles continued character rest) &&
          unobtrusiveFrom continued false depth (wordAfter word character) rest

section Equations

variable {continued : Bool} {depth : Nat} {word : Bool} {character : Char} {rest : List Char}

theorem unobtrusiveFrom_comment (goesOn : character ≠ '\n') :
    unobtrusiveFrom continued true depth word (character :: rest) = true ↔
      (depth ≠ 0 → isHeeded character = false) ∧
        unobtrusiveFrom continued true depth word rest = true := by
  simp [unobtrusiveFrom, goesOn, or_iff_not_imp_left]

theorem unobtrusiveFrom_opening (second : rest.head? = some '/') :
    unobtrusiveFrom continued false depth word ('/' :: rest) =
      unobtrusiveFrom continued true depth word rest := by
  simp [unobtrusiveFrom, second]

theorem unobtrusiveFrom_code {inComment : Bool} (ends : inComment = true → character = '\n')
    (apart : character = '/' → rest.head? ≠ some '/') :
    unobtrusiveFrom continued inComment depth word (character :: rest) = true ↔
      (depthAfter depth word character ≠ 0 → settles continued character rest = true) ∧
        unobtrusiveFrom continued false (depthAfter depth word character)
          (wordAfter word character) rest = true := by
  have noComment : ¬ (character = '/' ∧ rest.head? = some '/') := fun both => apart both.1 both.2
  have noRest : ¬ (inComment = true ∧ character ≠ '\n') := fun both => both.2 (ends both.1)
  simp [unobtrusiveFrom, noComment, noRest, or_iff_not_imp_left]

end Equations

/-! ## Depths -/

theorem depthAfter_opening_word (depth : Nat) : depthAfter depth true '(' = depth + 1 := by
  simp [depthAfter]

theorem depthAfter_opening_succ (depth : Nat) (word : Bool) :
    depthAfter (depth + 1) word '(' = depth + 2 := by
  simp [depthAfter]

theorem depthAfter_closing (depth : Nat) (word : Bool) :
    depthAfter depth word ')' = depth - 1 := by
  simp [depthAfter]

theorem depthAfter_other {character : Char} (notOpening : character ≠ '(')
    (notClosing : character ≠ ')') (depth : Nat) (word : Bool) :
    depthAfter depth word character = depth := by
  simp [depthAfter, notOpening, notClosing]

/-- Closing a bracket leads back to the depth at which it was opened. -/
theorem depthAfter_opening_sub_one (depth : Nat) (word : Bool) :
    word = false ∨ depth ≠ 0 → depthAfter depth word '(' - 1 = depth := by
  intro outside
  cases depth with
  | zero =>
      have noWord := outside.resolve_right (by simp)
      simp [depthAfter, noWord]
  | succ depth => simp [depthAfter]

theorem depthAfter_blank {character : Char} (blank : isBlank character = true) (depth : Nat)
    (word : Bool) : depthAfter depth word character = depth := by
  apply depthAfter_other
  · rintro rfl
    exact absurd blank (by decide)
  · rintro rfl
    exact absurd blank (by decide)

theorem wordAfter_blank {character : Char} (blank : isBlank character = true) (word : Bool) :
    wordAfter word character = word := by
  simp [wordAfter, blank]

theorem depthAfter_mono {depth lower : Nat} {word other : Bool} (le : lower ≤ depth)
    (imp : other = true → word = true) (character : Char) :
    depthAfter lower other character ≤ depthAfter depth word character := by
  by_cases opening : character = '('
  · subst opening
    cases depth <;> cases lower <;> cases word <;> cases other <;> simp_all [depthAfter]
  · by_cases closing : character = ')'
    · subst closing
      rw [depthAfter_closing, depthAfter_closing]
      exact Nat.sub_le_sub_right le 1
    · rwa [depthAfter_other opening closing, depthAfter_other opening closing]

theorem wordAfter_mono {word other : Bool} (imp : other = true → word = true) (character : Char) :
    wordAfter other character = true → wordAfter word character = true := by
  unfold wordAfter
  split
  · exact imp
  · exact id

/-- The fewer brackets count, the fewer comments are heeded. -/
theorem unobtrusiveFrom_mono {continued inComment : Bool} {depth lower : Nat} {word other : Bool}
    {text : List Char} (unobtrusive : unobtrusiveFrom continued inComment depth word text = true)
    (le : lower ≤ depth) (imp : other = true → word = true) :
    unobtrusiveFrom continued inComment lower other text = true := by
  have positive {lower depth : Nat} (le : lower ≤ depth) : lower ≠ 0 → depth ≠ 0 := by omega
  induction inComment, text using scan_induction generalizing depth lower word other with
  | nil => rfl
  | comment character rest goesOn induction =>
      rw [unobtrusiveFrom_comment goesOn] at unobtrusive ⊢
      exact ⟨fun counts => unobtrusive.1 (positive le counts), induction unobtrusive.2 le imp⟩
  | opening rest second induction =>
      rw [unobtrusiveFrom_opening second] at unobtrusive ⊢
      exact induction unobtrusive le imp
  | code inComment character rest ends apart induction =>
      rw [unobtrusiveFrom_code ends apart] at unobtrusive ⊢
      have leAfter := depthAfter_mono le imp character
      exact ⟨fun counts => unobtrusive.1 (positive leAfter counts),
        induction unobtrusive.2 leAfter (wordAfter_mono imp character)⟩

/-! ## Texts without comments -/

theorem commentAhead_of_commentless {text : List Char} (commentless : ¬ ['/', '/'] <:+: text) :
    commentAhead text = false := by
  rw [Bool.eq_false_iff]
  intro ahead
  simp only [commentAhead, Bool.and_eq_true, beq_iff_eq] at ahead
  rcases List.head?_eq_some_iff.mp ahead.1 with ⟨rest, found⟩
  rw [found, List.tail_cons] at ahead
  rcases List.head?_eq_some_iff.mp ahead.2 with ⟨tail, rfl⟩
  apply commentless
  have inside : ['/', '/'] <:+: text.dropWhile isBlank := ⟨[], tail, by rw [found]; rfl⟩
  exact inside.trans (List.dropWhile_suffix isBlank).isInfix

theorem settles_of_commentless {continued : Bool} {character : Char} {rest : List Char}
    (commentless : ¬ ['/', '/'] <:+: character :: rest) :
    settles continued character rest = true := by
  have part {text : List Char} (suffix : text <:+ character :: rest) : commentAhead text = false :=
    commentAhead_of_commentless fun inside => commentless (inside.trans suffix.isInfix)
  have behind : commentAhead rest = false := part (List.suffix_cons character rest)
  have four : commentAhead ((character :: rest).drop 4) = false := part (List.drop_suffix ..)
  have five : commentAhead ((character :: rest).drop 5) = false := part (List.drop_suffix ..)
  unfold settles closesClearly opensClearly namesClearly
  split
  · simp [behind]
  · split
    · simp [behind]
    · simp only [List.all_cons, List.all_nil, four, five, Bool.not_false, Bool.or_true,
        Bool.and_self]

theorem unobtrusiveFrom_of_commentless {continued : Bool} {depth : Nat} {word : Bool}
    {text : List Char} (commentless : ¬ ['/', '/'] <:+: text) :
    unobtrusiveFrom continued false depth word text = true := by
  induction text generalizing depth word with
  | nil => rfl
  | cons character rest induction =>
      rcases apart_of_commentless commentless with ⟨apart, behind⟩
      rw [unobtrusiveFrom_code (by simp) apart]
      exact ⟨fun _ => settles_of_commentless commentless, induction behind⟩

/-! ## Parts of a text -/

theorem not_isBlank_of_isHeeded {character : Char} (heeded : isHeeded character = true) :
    isBlank character = false := by
  have none : ['(', ')', ',', '&', '|', '<', '>', '=', '!'].all
      (fun character => !isBlank character) = true := by decide
  simpa using List.all_eq_true.mp none character (List.contains_iff_mem.mp heeded)

theorem ne_of_isHeeded {character other : Char} (heeded : isHeeded character = true)
    (notHeeded : isHeeded other = false) : character ≠ other := by
  rintro rfl
  rw [heeded] at notHeeded
  cases notHeeded

theorem length_of_literal? {text : List Char} {value : Bool}
    (named : literal? text = some value) : text.length = 4 ∨ text.length = 5 := by
  unfold literal? isWord at named
  split at named
  · rename_i same
    have length := congrArg List.length (beq_iff_eq.mp same)
    rw [List.length_map] at length
    exact .inl length
  · split at named
    · rename_i same
      have length := congrArg List.length (beq_iff_eq.mp same)
      rw [List.length_map] at length
      exact .inr length
    · cases named

/-- What is clear in a text is clear in a part at its start, if what follows a closing
bracket at the end of the part is known to continue a formula or not. -/
theorem settles_of_append {continued other : Bool} {character : Char} {front back : List Char}
    (clean : CleanCut front back) (settled : settles continued character (front ++ back) = true)
    (atEnd : character = ')' → commentAhead front = true → codeAhead? front = none →
      other = true) :
    settles other character front = true := by
  unfold settles at settled ⊢
  split
  · rename_i closing
    rw [if_pos closing] at settled
    unfold closesClearly at settled ⊢
    cases ahead : commentAhead front with
    | false => rfl
    | true =>
        rw [commentAhead_append ahead] at settled
        cases code : codeAhead? front with
        | none => simp [atEnd closing ahead code]
        | some next =>
            rw [codeAhead?_append clean code] at settled
            exact settled
  · rename_i notClosing
    rw [if_neg notClosing] at settled
    split
    · rename_i opening
      rw [if_pos opening] at settled
      unfold opensClearly at settled ⊢
      cases ahead : commentAhead front with
      | false => rfl
      | true =>
          rw [commentAhead_append ahead] at settled
          cases code : codeAhead? front with
          | none => rfl
          | some next =>
              rw [codeAhead?_append clean code] at settled
              exact settled
    · rename_i notOpening
      rw [if_neg notOpening] at settled
      simp only [namesClearly, List.all_eq_true] at settled ⊢
      intro width isWidth
      have clear := settled width isWidth
      rw [Bool.or_eq_true] at clear ⊢
      by_cases long : width ≤ (character :: front).length
      · rw [← List.cons_append, List.take_append_of_le_length long,
          List.drop_append_of_le_length long] at clear
        refine clear.imp_right fun notAhead => ?_
        rw [Bool.not_eq_true'] at notAhead ⊢
        rw [Bool.eq_false_iff] at notAhead ⊢
        exact fun ahead => notAhead (commentAhead_append ahead back)
      · right
        rw [List.drop_eq_nil_of_le (Nat.le_of_not_le long)]
        rfl

/-- What ends an argument or an operand of a connective is not hidden in a comment. -/
theorem skipFrom_rest_cut {continued inComment : Bool} {depth : Nat} {word : Bool} {index : Nat}
    {front back : List Char} {character : Char} (counts : depth ≠ 0)
    (heeded : isHeeded character = true)
    (unobtrusive : unobtrusiveFrom continued inComment depth word (front ++ character :: back) =
      true)
    (blank : (Cursor.skipFrom inComment index front).rest = []) :
    (Cursor.skipFrom inComment index (front ++ character :: back)).rest = character :: back := by
  have notSlash : character ≠ '/' := ne_of_isHeeded heeded (by decide)
  have notLineEnd : character ≠ '\n' := ne_of_isHeeded heeded (by decide)
  have clean {front : List Char} : CleanCut front (character :: back) :=
    .of_head fun first => notSlash (Option.some.inj first)
  induction inComment, front using scan_induction generalizing depth word index with
  | nil inComment =>
      cases inComment with
      | true =>
          rw [List.nil_append, unobtrusiveFrom_comment notLineEnd] at unobtrusive
          rw [unobtrusive.1 counts] at heeded
          cases heeded
      | false =>
          rw [List.nil_append, skipFrom_code index (by simp) (fun slash => absurd slash notSlash)
            (not_isBlank_of_isHeeded heeded)]
  | comment first rest goesOn induction =>
      rw [skipFrom_comment index goesOn] at blank
      rw [List.cons_append, unobtrusiveFrom_comment goesOn] at unobtrusive
      rw [List.cons_append, skipFrom_comment index goesOn]
      exact induction counts unobtrusive.2 blank
  | opening rest second induction =>
      have stillSecond : (rest ++ character :: back).head? = some '/' :=
        (CleanCut.head? clean rfl).mpr second
      rw [skipFrom_opening index second] at blank
      rw [List.cons_append, unobtrusiveFrom_opening stillSecond] at unobtrusive
      rw [List.cons_append, skipFrom_opening index stillSecond]
      exact induction counts unobtrusive blank
  | code inComment first rest ends apart induction =>
      have stillApart : first = '/' → (rest ++ character :: back).head? ≠ some '/' :=
        fun isSlash second => apart isSlash ((CleanCut.head? clean isSlash).mp second)
      cases isBlankFirst : isBlank first with
      | true =>
          rw [skipFrom_blank index ends isBlankFirst] at blank
          rw [List.cons_append, unobtrusiveFrom_code ends stillApart,
            depthAfter_blank isBlankFirst] at unobtrusive
          rw [List.cons_append, skipFrom_blank index ends isBlankFirst]
          exact induction counts unobtrusive.2 blank
      | false =>
          rw [skipFrom_code index ends apart isBlankFirst] at blank
          cases blank

/-- The comments of a part at the start of a text are unobtrusive. Where the text goes on
with an end of an argument or operand, nothing continues a formula. -/
theorem unobtrusiveFrom_of_append {continued other inComment : Bool} {depth : Nat} {word : Bool}
    {front back : List Char} (clean : CleanCut front back)
    (unobtrusive : unobtrusiveFrom continued inComment depth word (front ++ back) = true)
    (ends : other = true ∨ ∃ character, back.head? = some character ∧
      isHeeded character = true ∧ continuesFormula character = false) :
    unobtrusiveFrom other inComment depth word front = true := by
  induction inComment, front using scan_induction generalizing depth word with
  | nil => rfl
  | comment character rest goesOn induction =>
      rw [List.cons_append, unobtrusiveFrom_comment goesOn] at unobtrusive
      rw [unobtrusiveFrom_comment goesOn]
      exact ⟨unobtrusive.1, induction clean.tail unobtrusive.2⟩
  | opening rest second induction =>
      have stillSecond := (clean.head? rfl).mpr second
      rw [List.cons_append, unobtrusiveFrom_opening stillSecond] at unobtrusive
      rw [unobtrusiveFrom_opening second]
      exact induction clean.tail unobtrusive
  | code inComment character rest lineEnds apart induction =>
      have stillApart : character = '/' → (rest ++ back).head? ≠ some '/' := fun isSlash second =>
        apart isSlash ((clean.head? isSlash).mp second)
      rw [List.cons_append, unobtrusiveFrom_code lineEnds stillApart] at unobtrusive
      rw [unobtrusiveFrom_code lineEnds apart]
      refine ⟨fun counts => ?_, induction clean.tail unobtrusive.2⟩
      have settled := unobtrusive.1 counts
      apply settles_of_append clean.tail settled
      rintro rfl ahead code
      rcases ends with continues | ⟨next, first, heeded, stops⟩
      · exact continues
      · rcases List.head?_eq_some_iff.mp first with ⟨tail, rfl⟩
        have blank : (Cursor.skipFrom false 0 rest).rest = [] := List.head?_eq_none_iff.mp code
        have found : codeAhead? (rest ++ next :: tail) = some next := by
          rw [codeAhead?, Cursor.next?, Cursor.skip,
            skipFrom_rest_cut counts heeded unobtrusive.2 blank]
          rfl
        rw [settles, if_pos rfl, closesClearly, commentAhead_append ahead, found] at settled
        simp [stops] at settled

/-! ## Truth values -/

/-- Text before a blanked rest was code. -/
theorem of_blankFrom_eq_append {text word after : List Char} (noSpace : ' ' ∉ word)
    (blanked : blankFrom false text = word ++ after) :
    ∃ rest, text = word ++ rest ∧ blankFrom false rest = after := by
  induction word generalizing text with
  | nil => exact ⟨text, rfl, blanked⟩
  | cons character word induction =>
      rw [List.mem_cons, not_or] at noSpace
      cases text with
      | nil => cases blanked
      | cons first rest =>
          by_cases slashes : first = '/' ∧ rest.head? = some '/'
          · rw [slashes.1, blankFrom_opening slashes.2, List.cons_append,
              List.cons.injEq] at blanked
            exact absurd blanked.1 noSpace.1
          · have apart : first = '/' → rest.head? ≠ some '/' := fun isSlash second =>
              slashes ⟨isSlash, second⟩
            rw [blankFrom_code (by simp) apart, List.cons_append, List.cons.injEq] at blanked
            rcases induction noSpace.2 blanked.2 with ⟨tail, rfl, same⟩
            exact ⟨tail, by rw [blanked.1]; rfl, same⟩

theorem commentless_of_not_mem {text : List Char} (noSlash : '/' ∉ text) :
    ¬ ['/', '/'] <:+: text :=
  fun inside => noSlash (inside.subset (List.mem_cons_self ..))

/-- White space and truth values have no slashes. -/
theorem commentless_of_literal? {text : List Char} {value : Bool}
    (named : literal? (trim text) = some value) : ¬ ['/', '/'] <:+: text := by
  rcases trim_spans text with ⟨before, after, equal, whiteBefore, whiteAfter⟩
  have notWhite {gap : List Char} (white : gap.all isWhite = true) : '/' ∉ gap := fun inside =>
    absurd (List.all_eq_true.mp white _ inside) (by decide)
  apply commentless_of_not_mem
  rw [equal, List.mem_append, List.mem_append, not_or, not_or]
  refine ⟨notWhite whiteBefore, fun inside => ?_, notWhite whiteAfter⟩
  exact absurd ((word_of_literal? named).2 '/' inside) (by decide)

/-- A truth value at the start of a text has only blanks behind it. -/
theorem eq_append_of_literal? {text : List Char} {value : Bool}
    (named : literal? (trim text) = some value)
    (begins : ∀ character, text.head? = some character → isBlank character = false) :
    ∃ word after, text = word ++ after ∧ literal? word = some value ∧
      after.all isBlank = true := by
  rcases trim_spans text with ⟨before, after, equal, whiteBefore, whiteAfter⟩
  have atStart : before = [] := by
    cases before with
    | nil => rfl
    | cons first before =>
        have notBlank := begins first (by rw [equal]; rfl)
        rw [List.all_cons, Bool.and_eq_true] at whiteBefore
        rw [isBlank_of_isWhite whiteBefore.1] at notBlank
        cases notBlank
  refine ⟨trim text, after, ?_, named, all_isBlank_of_isWhite whiteAfter⟩
  simpa only [atStart, List.nil_append] using equal

/-- Letters of a truth value that a comment follows are not clear. -/
theorem not_settles_of_literal? {continued : Bool} {character : Char} {rest word back : List Char}
    {value : Bool} (split : character :: rest = word ++ back) (named : literal? word = some value)
    (ahead : commentAhead back = true) : settles continued character rest = false := by
  rcases word_of_literal? named with ⟨nonempty, areWord⟩
  have isWordFirst : isWordCharacter character = true := by
    rcases List.exists_cons_of_ne_nil nonempty with ⟨first, tail, rfl⟩
    rw [List.cons_append, List.cons.injEq] at split
    rw [split.1]
    exact areWord first (List.mem_cons_self ..)
  have notClosing : character ≠ ')' := by
    rintro rfl
    exact absurd isWordFirst (by decide)
  have notOpening : character ≠ '(' := by
    rintro rfl
    exact absurd isWordFirst (by decide)
  have width : word.length ∈ [4, 5] := by simpa using length_of_literal? named
  rw [settles, if_neg notClosing, if_neg notOpening, namesClearly, Bool.eq_false_iff, ne_eq,
    List.all_eq_true]
  intro clear
  have clear := clear word.length width
  rw [split, List.take_left' rfl, List.drop_left' rfl, named, ahead] at clear
  cases clear

/-- A comment neither makes nor hides a truth value where its letters are clear. -/
theorem literal?_trim_blankFrom {continued : Bool} {character : Char} {rest back : List Char}
    (notBlank : isBlank character = false) (apart : character = '/' → rest.head? ≠ some '/')
    (settled : settles continued character (rest ++ back) = true) :
    literal? (trim (blankFrom false (character :: rest))) =
      literal? (trim (character :: rest)) := by
  by_cases comment : ['/', '/'] <:+: character :: rest
  case neg => rw [blankFrom_of_commentless comment]
  have original : literal? (trim (character :: rest)) = none := by
    cases named : literal? (trim (character :: rest)) with
    | none => rfl
    | some value => exact absurd comment (commentless_of_literal? named)
  rw [original]
  cases named : literal? (trim (blankFrom false (character :: rest))) with
  | none => rfl
  | some value =>
      exfalso
      have begins : ∀ first, (blankFrom false (character :: rest)).head? = some first →
          isBlank first = false := by
        rw [blankFrom_code (by simp) apart]
        intro first isFirst
        cases isFirst
        exact notBlank
      rcases eq_append_of_literal? named begins with ⟨word, after, equal, isWord, blank⟩
      have areWord := (word_of_literal? isWord).2
      have noSpace : ' ' ∉ word := fun inside => absurd (areWord ' ' inside) (by decide)
      rcases of_blankFrom_eq_append noSpace equal with ⟨tail, split, rfl⟩
      have notAllBlank : tail.all isBlank = false := by
        rw [Bool.eq_false_iff]
        intro allBlank
        apply commentless_of_not_mem _ comment
        rw [split, List.mem_append, not_or]
        exact ⟨fun inside => absurd (areWord '/' inside) (by decide),
          fun inside => absurd (List.all_eq_true.mp allBlank _ inside) (by decide)⟩
      have ahead := commentAhead_append (commentAhead_of_blanked notAllBlank blank) back
      have whole : character :: (rest ++ back) = word ++ (tail ++ back) := by
        rw [← List.cons_append, split, List.append_assoc]
      rw [not_settles_of_literal? whole isWord ahead] at settled
      cases settled

end NumericRules.Grammar
