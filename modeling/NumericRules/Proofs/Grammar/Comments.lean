import NumericRules.Grammar.Condition
import NumericRules.Proofs.Grammar.Token

/-! # Comments

A comment goes from `//` to the end of its line. It is skipped like a blank, but the
scans that look ahead for the end of an argument, for what a bracket belongs to or for
the end of a comparand take its characters as they stand. Comments that none of these
scans heeds are unobtrusive.
-/

namespace NumericRules.Grammar

open Text

/-! ## Code and comments -/

/-- The characters behind `//` are those of a comment up to the end of the line, which
is code again. -/
theorem scan_induction {motive : Bool → List Char → Prop}
    (nil : ∀ inComment, motive inComment [])
    (comment : ∀ character rest, character ≠ '\n' → motive true rest →
      motive true (character :: rest))
    (opening : ∀ rest, rest.head? = some '/' → motive true rest → motive false ('/' :: rest))
    (code : ∀ inComment character rest, (inComment = true → character = '\n') →
      (character = '/' → rest.head? ≠ some '/') → motive false rest →
      motive inComment (character :: rest))
    (inComment : Bool) (text : List Char) : motive inComment text := by
  induction text generalizing inComment with
  | nil => exact nil inComment
  | cons character rest induction =>
      by_cases lineEnd : character = '\n'
      · subst lineEnd
        exact code inComment _ rest (fun _ => rfl) (by simp) (induction false)
      · cases inComment with
        | true => exact comment character rest lineEnd (induction true)
        | false =>
            by_cases slashes : character = '/' ∧ rest.head? = some '/'
            · rcases slashes with ⟨rfl, second⟩
              exact opening rest second (induction true)
            · exact code false character rest (by simp)
                (fun slash second => slashes ⟨slash, second⟩) (induction false)

/-- Blanks for the characters of comments. -/
def blankFrom (inComment : Bool) : List Char → List Char
  | [] => []
  | character :: rest =>
      if inComment && character ≠ '\n' then ' ' :: blankFrom true rest
      else if character = '/' && rest.head? = some '/' then ' ' :: blankFrom true rest
      else character :: blankFrom false rest

/-- The text with blanks in place of comments. -/
def blankComments (text : List Char) : List Char := blankFrom false text

section Equations

variable {character : Char} {rest : List Char}

theorem blankFrom_comment (goesOn : character ≠ '\n') :
    blankFrom true (character :: rest) = ' ' :: blankFrom true rest := by
  simp [blankFrom, goesOn]

theorem blankFrom_opening (second : rest.head? = some '/') :
    blankFrom false ('/' :: rest) = ' ' :: blankFrom true rest := by
  simp [blankFrom, second]

theorem blankFrom_code {inComment : Bool} (ends : inComment = true → character = '\n')
    (apart : character = '/' → rest.head? ≠ some '/') :
    blankFrom inComment (character :: rest) = character :: blankFrom false rest := by
  have noComment : ¬ (character = '/' ∧ rest.head? = some '/') := fun both => apart both.1 both.2
  have noRest : ¬ (inComment = true ∧ character ≠ '\n') := fun both => both.2 (ends both.1)
  simp [blankFrom, noComment, noRest]

end Equations

theorem length_blankFrom (inComment : Bool) (text : List Char) :
    (blankFrom inComment text).length = text.length := by
  induction inComment, text using scan_induction with
  | nil => rfl
  | comment _ _ goesOn induction => simp [blankFrom_comment goesOn, induction]
  | opening _ second induction => simp [blankFrom_opening second, induction]
  | code _ _ _ ends apart induction => simp [blankFrom_code ends apart, induction]

/-- A cut that leaves no comment's slashes apart. -/
def CleanCut (front back : List Char) : Prop :=
  front.getLast? = some '/' → back.head? ≠ some '/'

theorem CleanCut.of_head {front back : List Char} (apart : back.head? ≠ some '/') :
    CleanCut front back := fun _ => apart

theorem CleanCut.tail {character : Char} {front back : List Char}
    (clean : CleanCut (character :: front) back) : CleanCut front back := by
  intro last
  apply clean
  rw [List.getLast?_cons, last]
  rfl

/-- What follows the first character before a clean cut. -/
theorem CleanCut.head? {character : Char} {front back : List Char}
    (clean : CleanCut (character :: front) back) (isSlash : character = '/') :
    (front ++ back).head? = some '/' ↔ front.head? = some '/' := by
  cases front with
  | nil =>
      have apart : back.head? ≠ some '/' := clean (by simp [isSlash])
      simp [apart]
  | cons => simp

/-- Comments are blanked on both sides of a cut. -/
theorem blankFrom_append (inComment : Bool) {front back : List Char}
    (clean : CleanCut front back) :
    ∃ inside, blankFrom inComment (front ++ back) =
      blankFrom inComment front ++ blankFrom inside back := by
  induction inComment, front using scan_induction with
  | nil inComment => exact ⟨inComment, rfl⟩
  | comment character rest goesOn induction =>
      rcases induction clean.tail with ⟨inside, blanked⟩
      exact ⟨inside, by simp [blankFrom_comment goesOn, blanked]⟩
  | opening rest second induction =>
      rcases induction clean.tail with ⟨inside, blanked⟩
      have stillSecond := (clean.head? rfl).mpr second
      exact ⟨inside, by simp [blankFrom_opening second, blankFrom_opening stillSecond, blanked]⟩
  | code inComment character rest ends apart induction =>
      rcases induction clean.tail with ⟨inside, blanked⟩
      have stillApart : character = '/' → (rest ++ back).head? ≠ some '/' := fun isSlash second =>
        apart isSlash ((clean.head? isSlash).mp second)
      exact ⟨inside, by simp [blankFrom_code ends apart, blankFrom_code ends stillApart, blanked]⟩

/-- Only slashes outside comments are left. -/
theorem head?_blankFrom {text : List Char} (slash : (blankFrom false text).head? = some '/') :
    text.head? = some '/' := by
  cases text with
  | nil => cases slash
  | cons character rest =>
      by_cases slashes : character = '/' ∧ rest.head? = some '/'
      · simp [slashes.1]
      · have apart : character = '/' → rest.head? ≠ some '/' := fun isSlash second =>
          slashes ⟨isSlash, second⟩
        rw [blankFrom_code (by simp) apart] at slash
        exact slash

/-- Neither slashes nor blanks are made by blanking. -/
theorem head?_blankFrom_iff {text : List Char} {character : Char} (notSpace : character ≠ ' ')
    (notSlash : character ≠ '/') :
    (blankFrom false text).head? = some character ↔ text.head? = some character := by
  cases text with
  | nil => rfl
  | cons first rest =>
      by_cases slashes : first = '/' ∧ rest.head? = some '/'
      · simp [slashes.1, blankFrom_opening slashes.2, notSpace.symm, notSlash.symm]
      · have apart : first = '/' → rest.head? ≠ some '/' := fun isSlash second =>
          slashes ⟨isSlash, second⟩
        rw [blankFrom_code (by simp) apart]
        rfl

/-- A text whose comments are blanked has none. -/
theorem commentless_blankFrom (inComment : Bool) (text : List Char) :
    ¬ ['/', '/'] <:+: blankFrom inComment text := by
  induction inComment, text using scan_induction with
  | nil => simp [blankFrom]
  | comment character rest goesOn induction =>
      rw [blankFrom_comment goesOn, List.infix_cons_iff]
      rintro (⟨_, begins⟩ | inside)
      · cases begins
      · exact induction inside
  | opening rest second induction =>
      rw [blankFrom_opening second, List.infix_cons_iff]
      rintro (⟨_, begins⟩ | inside)
      · cases begins
      · exact induction inside
  | code inComment character rest ends apart induction =>
      rw [blankFrom_code ends apart, List.infix_cons_iff]
      rintro (⟨tail, begins⟩ | inside)
      · rw [List.cons_append, List.cons.injEq] at begins
        apply apart begins.1.symm
        apply head?_blankFrom
        rw [← begins.2]
        rfl
      · exact induction inside

/-- No comment begins in a text without comments. -/
theorem apart_of_commentless {character : Char} {rest : List Char}
    (commentless : ¬ ['/', '/'] <:+: character :: rest) :
    (character = '/' → rest.head? ≠ some '/') ∧ ¬ ['/', '/'] <:+: rest := by
  rw [List.infix_cons_iff, not_or] at commentless
  refine ⟨?_, commentless.2⟩
  rintro rfl second
  rcases List.head?_eq_some_iff.mp second with ⟨tail, rfl⟩
  exact commentless.1 ⟨tail, rfl⟩

/-- A text without comments stays as it is. -/
theorem blankFrom_of_commentless {text : List Char} (commentless : ¬ ['/', '/'] <:+: text) :
    blankFrom false text = text := by
  induction text with
  | nil => rfl
  | cons character rest induction =>
      rcases apart_of_commentless commentless with ⟨apart, behind⟩
      rw [blankFrom_code (by simp) apart, induction behind]

/-! ## What skipping finds -/

section Skipping

variable {character : Char} {rest : List Char} (index : Nat)

theorem skipFrom_comment (goesOn : character ≠ '\n') :
    Cursor.skipFrom true index (character :: rest) = Cursor.skipFrom true (index + 1) rest := by
  simp [Cursor.skipFrom, goesOn]

theorem skipFrom_opening (second : rest.head? = some '/') :
    Cursor.skipFrom false index ('/' :: rest) = Cursor.skipFrom true (index + 1) rest := by
  have notBlank : isBlank '/' = false := by decide
  simp [Cursor.skipFrom, second, notBlank]

theorem skipFrom_blank {inComment : Bool} (ends : inComment = true → character = '\n')
    (blank : isBlank character = true) :
    Cursor.skipFrom inComment index (character :: rest) =
      Cursor.skipFrom false (index + 1) rest := by
  cases inComment with
  | true => simp [Cursor.skipFrom, ends rfl]
  | false => simp [Cursor.skipFrom, blank]

theorem skipFrom_code {inComment : Bool} (ends : inComment = true → character = '\n')
    (apart : character = '/' → rest.head? ≠ some '/') (notBlank : isBlank character = false) :
    Cursor.skipFrom inComment index (character :: rest) = ⟨index, character :: rest⟩ := by
  cases inComment with
  | true =>
      rw [ends rfl] at notBlank
      exact absurd notBlank (by decide)
  | false =>
      have noComment : ¬ (character = '/' ∧ rest.head? = some '/') :=
        fun both => apart both.1 both.2
      simp [Cursor.skipFrom, notBlank, noComment]

end Skipping

/-- A gap that ends before a clean cut ends there whatever follows. -/
theorem skipFrom_append {inComment : Bool} {index : Nat} {front back : List Char}
    (clean : CleanCut front back) (found : (Cursor.skipFrom inComment index front).rest ≠ []) :
    Cursor.skipFrom inComment index (front ++ back) =
      (Cursor.skipFrom inComment index front).followed back := by
  induction inComment, front using scan_induction generalizing index with
  | nil => exact absurd rfl found
  | comment character rest goesOn induction =>
      rw [skipFrom_comment index goesOn] at found ⊢
      rw [List.cons_append, skipFrom_comment index goesOn, induction clean.tail found]
  | opening rest second induction =>
      have stillSecond := (clean.head? rfl).mpr second
      rw [skipFrom_opening index second] at found ⊢
      rw [List.cons_append, skipFrom_opening index stillSecond, induction clean.tail found]
  | code inComment character rest ends apart induction =>
      have stillApart : character = '/' → (rest ++ back).head? ≠ some '/' := fun isSlash second =>
        apart isSlash ((clean.head? isSlash).mp second)
      cases blank : isBlank character with
      | true =>
          rw [skipFrom_blank index ends blank] at found ⊢
          rw [List.cons_append, skipFrom_blank index ends blank, induction clean.tail found]
      | false =>
          rw [List.cons_append, skipFrom_code index ends stillApart blank,
            skipFrom_code index ends apart blank]
          rfl

/-- Blanked comments are skipped to the same place. -/
theorem skipFrom_blankFrom (inComment : Bool) (index : Nat) (text : List Char) :
    Cursor.skipFrom false index (blankFrom inComment text) =
      ⟨(Cursor.skipFrom inComment index text).index,
        blankFrom false (Cursor.skipFrom inComment index text).rest⟩ := by
  have space : isBlank ' ' = true := by decide
  induction inComment, text using scan_induction generalizing index with
  | nil => rfl
  | comment character rest goesOn induction =>
      rw [blankFrom_comment goesOn, skipFrom_comment index goesOn,
        skipFrom_blank index (by simp) space, induction]
  | opening rest second induction =>
      rw [blankFrom_opening second, skipFrom_opening index second,
        skipFrom_blank index (by simp) space, induction]
  | code inComment character rest ends apart induction =>
      rw [blankFrom_code ends apart]
      cases blank : isBlank character with
      | true =>
          rw [skipFrom_blank index ends blank, skipFrom_blank index (by simp) blank, induction]
      | false =>
          have stillApart : character = '/' → (blankFrom false rest).head? ≠ some '/' :=
            fun isSlash second => apart isSlash (head?_blankFrom second)
          rw [skipFrom_code index ends apart blank, skipFrom_code index (by simp) stillApart blank,
            blankFrom_code (by simp) apart]

/-! ## What stands behind a character -/

/-- The first character behind blanks and comments. -/
def codeAhead? (text : List Char) : Option Char := (Cursor.skip ⟨0, text⟩).next?

/-- Whether the text begins with a comment, perhaps behind blanks. -/
def commentAhead (text : List Char) : Bool :=
  let text := text.dropWhile isBlank
  text.head? == some '/' && text.tail.head? == some '/'

theorem codeAhead?_append {front back : List Char} (clean : CleanCut front back) {character : Char}
    (ahead : codeAhead? front = some character) : codeAhead? (front ++ back) = some character := by
  have found : (Cursor.skipFrom false 0 front).rest ≠ [] := by
    intro nothing
    simp [codeAhead?, Cursor.next?, Cursor.skip, nothing] at ahead
  have same := skipFrom_append clean found
  simp only [codeAhead?, Cursor.next?, Cursor.skip] at ahead ⊢
  rw [same, Cursor.followed, List.head?_append_of_ne_nil _ found, ahead]

theorem commentAhead_cons_blank {character : Char} (blank : isBlank character = true)
    (rest : List Char) : commentAhead (character :: rest) = commentAhead rest := by
  simp [commentAhead, blank]

theorem commentAhead_cons {character : Char} (notBlank : isBlank character = false)
    (rest : List Char) :
    commentAhead (character :: rest) = true ↔ character = '/' ∧ rest.head? = some '/' := by
  simp [commentAhead, notBlank]

theorem commentAhead_append {front : List Char} (ahead : commentAhead front = true)
    (back : List Char) : commentAhead (front ++ back) = true := by
  induction front with
  | nil => cases ahead
  | cons character front induction =>
      rw [List.cons_append]
      cases blank : isBlank character with
      | true =>
          rw [commentAhead_cons_blank blank] at ahead ⊢
          exact induction ahead
      | false =>
          rw [commentAhead_cons blank] at ahead ⊢
          refine ⟨ahead.1, ?_⟩
          rcases List.head?_eq_some_iff.mp ahead.2 with ⟨tail, rfl⟩
          rfl

/-- Only comments are blanked. -/
theorem commentAhead_of_blanked {text : List Char} (notBlank : text.all isBlank = false)
    (blanked : (blankFrom false text).all isBlank = true) : commentAhead text = true := by
  induction text with
  | nil => cases notBlank
  | cons character rest induction =>
      by_cases slashes : character = '/' ∧ rest.head? = some '/'
      · have slash : isBlank character = false := by
          rw [slashes.1]
          decide
        exact (commentAhead_cons slash rest).mpr slashes
      · have apart : character = '/' → rest.head? ≠ some '/' := fun isSlash second =>
          slashes ⟨isSlash, second⟩
        rw [blankFrom_code (by simp) apart, List.all_cons, Bool.and_eq_true] at blanked
        rw [commentAhead_cons_blank blanked.1]
        apply induction _ blanked.2
        rwa [List.all_cons, blanked.1, Bool.true_and] at notBlank

/-! ## What follows a bracket -/

/-- With its comments blanked, a text continues a formula if its code does. -/
theorem startsContinuation_blankFrom (text : List Char) :
    startsContinuation (blankFrom false text) = (codeAhead? text).elim false continuesFormula := by
  have space : isBlank ' ' = true := by decide
  have found (inComment : Bool) (index : Nat) :
      (blankFrom inComment text).find? (fun character => !isBlank character) =
        (Cursor.skipFrom inComment index text).next? := by
    induction inComment, text using scan_induction generalizing index with
    | nil => rfl
    | comment character rest goesOn induction =>
        rw [blankFrom_comment goesOn, skipFrom_comment index goesOn,
          List.find?_cons_of_neg (by simp [space]), induction]
    | opening rest second induction =>
        rw [blankFrom_opening second, skipFrom_opening index second,
          List.find?_cons_of_neg (by simp [space]), induction]
    | code inComment character rest ends apart induction =>
        rw [blankFrom_code ends apart]
        cases blank : isBlank character with
        | true =>
            rw [skipFrom_blank index ends blank, List.find?_cons_of_neg (by simp [blank]),
              induction]
        | false =>
            rw [skipFrom_code index ends apart blank, List.find?_cons_of_pos (by simp [blank])]
            rfl
  rw [startsContinuation, found false 0, codeAhead?, Cursor.skip]
  cases (Cursor.skipFrom false 0 text).next? <;> rfl

/-- A comment is taken for a division. -/
theorem startsContinuation_of_commentAhead {text : List Char} (ahead : commentAhead text = true) :
    startsContinuation text = true := by
  induction text with
  | nil => cases ahead
  | cons character rest induction =>
      cases blank : isBlank character with
      | true =>
          rw [commentAhead_cons_blank blank] at ahead
          rw [startsContinuation, List.find?_cons_of_neg (by simp [blank])]
          exact induction ahead
      | false =>
          rw [commentAhead_cons blank] at ahead
          rw [startsContinuation, List.find?_cons_of_pos (by simp [blank]), ahead.1]
          rfl

theorem startsContinuation_of_not_commentAhead {text : List Char}
    (ahead : commentAhead text = false) :
    startsContinuation (blankFrom false text) = startsContinuation text := by
  induction text with
  | nil => rfl
  | cons character rest induction =>
      cases blank : isBlank character with
      | true =>
          have apart : character = '/' → rest.head? ≠ some '/' := by
            rintro rfl
            exact absurd blank (by decide)
          rw [commentAhead_cons_blank blank] at ahead
          have same := induction ahead
          rw [startsContinuation, startsContinuation] at same
          rw [blankFrom_code (by simp) apart, startsContinuation, startsContinuation,
            List.find?_cons_of_neg (by simp [blank]), List.find?_cons_of_neg (by simp [blank]),
            same]
      | false =>
          have apart : character = '/' → rest.head? ≠ some '/' := by
            intro isSlash second
            rw [(commentAhead_cons blank rest).mpr ⟨isSlash, second⟩] at ahead
            cases ahead
          rw [blankFrom_code (by simp) apart, startsContinuation, startsContinuation,
            List.find?_cons_of_pos (by simp [blank]), List.find?_cons_of_pos (by simp [blank])]

end NumericRules.Grammar
