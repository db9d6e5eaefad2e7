import NumericRules.Proofs.Grammar.BlankedStatements

/-! # The pace of formulas

The scan for the end of a value knows only brackets, blanks and the characters that leave
a value open. To it a formula without comments is one value from end to end, for operands
stand behind gaps only where one is due. Behind an opening bracket too an operand is due,
but there the scan refuses it.
-/

namespace NumericRules.Grammar

open Text

/-! ## Paced text -/

/-- What the last character that is not blank is to the scan. -/
inductive Mark where
  | opening
  | continuing
  | operand
deriving DecidableEq

/-- The open brackets, the last character that is not blank, and whether blanks stand
behind it. -/
structure Pace where
  depth : Nat
  mark : Mark
  spaced : Bool

/-- Characters that belong to operands. An opening bracket does. -/
def isOperand (character : Char) : Bool :=
  !isBlank character && character != ')' && !continuesValue ',' character

/-- An operand is due, or goes on. -/
def Pace.Takes (pace : Pace) : Prop := pace.mark = .operand → pace.spaced = false

/-- The text leads from one pace to another, with operands only where they are due. -/
inductive Paced : Pace → List Char → Pace → Prop
  | nil {pace : Pace} : Paced pace [] pace
  | blank {pace next : Pace} {character : Char} {rest : List Char} :
      isBlank character = true → Paced { pace with spaced := true } rest next →
      Paced pace (character :: rest) next
  | closing {depth : Nat} {mark : Mark} {spaced : Bool} {next : Pace} {rest : List Char} :
      Paced ⟨depth, .operand, false⟩ rest next → Paced ⟨depth + 1, mark, spaced⟩ (')' :: rest) next
  | continuing {pace next : Pace} {character : Char} {rest : List Char} :
      continuesValue ',' character = true → Paced ⟨pace.depth, .continuing, false⟩ rest next →
      Paced pace (character :: rest) next
  | opening {pace next : Pace} {rest : List Char} :
      pace.Takes → Paced ⟨pace.depth + 1, .opening, false⟩ rest next → Paced pace ('(' :: rest) next
  | operand {pace next : Pace} {character : Char} {rest : List Char} :
      isOperand character = true → character ≠ '(' → pace.Takes →
      Paced ⟨pace.depth, .operand, false⟩ rest next → Paced pace (character :: rest) next

theorem Paced.append {first middle last : Pace} {left right : List Char}
    (ofLeft : Paced first left middle) (ofRight : Paced middle right last) :
    Paced first (left ++ right) last := by
  induction ofLeft with
  | nil => exact ofRight
  | blank isBlankCharacter _ induction => exact .blank isBlankCharacter (induction ofRight)
  | closing _ induction => exact .closing (induction ofRight)
  | continuing continues _ induction => exact .continuing continues (induction ofRight)
  | opening takes _ induction => exact .opening takes (induction ofRight)
  | operand isOperandCharacter notOpening takes _ induction =>
      exact .operand isOperandCharacter notOpening takes (induction ofRight)

/-- The text is paced and closes its own brackets. -/
def Pace.Keeps (pace : Pace) (text : List Char) : Prop :=
  ∃ next, Paced pace text next ∧ next.depth = pace.depth

namespace Pace.Keeps

variable {pace : Pace} {left right : List Char}

theorem append (ofLeft : pace.Keeps left)
    (ofRight : ∀ next : Pace, next.depth = pace.depth → next.Keeps right) :
    pace.Keeps (left ++ right) := by
  rcases ofLeft with ⟨middle, leftPaced, leftDepth⟩
  rcases ofRight middle leftDepth with ⟨last, rightPaced, rightDepth⟩
  exact ⟨last, leftPaced.append rightPaced, rightDepth.trans leftDepth⟩

theorem gap {gap : List Char} (blank : gap.all isBlank = true) (pace : Pace) : pace.Keeps gap := by
  induction gap generalizing pace with
  | nil => exact ⟨pace, .nil, rfl⟩
  | cons character gap induction =>
      rw [List.all_cons, Bool.and_eq_true] at blank
      rcases induction blank.2 { pace with spaced := true } with ⟨next, paced, depth⟩
      exact ⟨next, .blank blank.1 paced, depth⟩

/-- A gap leaves it open whether an operand is due. -/
theorem behind_gap {gap text : List Char} (blank : gap.all isBlank = true)
    (due : pace.mark ≠ .operand)
    (further : ∀ next : Pace, next.depth = pace.depth → next.mark ≠ .operand → next.Keeps text) :
    pace.Keeps (gap ++ text) := by
  induction gap generalizing pace with
  | nil => exact further pace rfl due
  | cons character gap induction =>
      rw [List.all_cons, Bool.and_eq_true] at blank
      have rest : Pace.Keeps { pace with spaced := true } (gap ++ text) :=
        induction blank.2 due further
      rcases rest with ⟨next, paced, depth⟩
      exact ⟨next, .blank blank.1 paced, depth⟩

/-- Behind operators and separators an operand is due. -/
theorem behind_symbol {symbol : List Char} (nonempty : symbol ≠ [])
    (continues : symbol.all (continuesValue ',') = true)
    (further : Pace.Keeps ⟨pace.depth, .continuing, false⟩ right) :
    pace.Keeps (symbol ++ right) := by
  induction symbol generalizing pace with
  | nil => exact absurd rfl nonempty
  | cons character symbol induction =>
      rw [List.all_cons, Bool.and_eq_true] at continues
      have behind : Pace.Keeps ⟨pace.depth, .continuing, false⟩ (symbol ++ right) := by
        cases symbol with
        | nil => exact further
        | cons second symbol => exact induction (List.cons_ne_nil _ _) continues.2 further
      rcases behind with ⟨next, paced, depth⟩
      exact ⟨next, .continuing continues.1 paced, depth⟩

theorem joined {symbol : List Char} (nonempty : symbol ≠ [])
    (continues : symbol.all (continuesValue ',') = true) (ofLeft : pace.Keeps left)
    (ofRight : Pace.Keeps ⟨pace.depth, .continuing, false⟩ right) :
    pace.Keeps (left ++ (symbol ++ right)) := by
  apply ofLeft.append
  intro next depth
  apply behind_symbol nonempty continues
  rwa [depth]

theorem separated {character : Char} (continues : continuesValue ',' character = true)
    (ofLeft : pace.Keeps left) (ofRight : Pace.Keeps ⟨pace.depth, .continuing, false⟩ right) :
    pace.Keeps (left ++ character :: right) := by
  have all : [character].all (continuesValue ',') = true := by simpa using continues
  exact ofLeft.joined (List.cons_ne_nil _ _) all ofRight

theorem bracketed {inner : List Char} (takes : pace.Takes)
    (ofInner : Pace.Keeps ⟨pace.depth + 1, .opening, false⟩ inner) :
    pace.Keeps (bracketed inner) := by
  rcases ofInner with ⟨⟨depth, mark, spaced⟩, paced, same⟩
  simp only at same
  subst same
  exact ⟨⟨pace.depth, .operand, false⟩, .opening takes (paced.append (.closing .nil)), rfl⟩

end Pace.Keeps

/-! ## Formulas -/

/-- Blanks between tokens. -/
def Lexis.blank : Lexis where
  Gap text := text.all isBlank = true
  Word text := text.all (isTokenCharacter ',') = true

theorem covers_of_commentless {vocabulary : Vocabulary ν}
    (comma : vocabulary.argumentSeparator = ',') {text : List Char}
    (commentless : ¬ ['/', '/'] <:+: text) : Lexis.blank.Covers (.read vocabulary) text := by
  have covers : (Lexis.spaced vocabulary.argumentSeparator).Covers (.read vocabulary) text :=
    Lexis.spaced_covers commentless
  rw [comma] at covers
  exact covers

/-- The characters of a token are those of an operand, or they leave the value open. -/
theorem paced_token {token : List Char} (areToken : token.all (isTokenCharacter ',') = true)
    (pace : Pace) (takes : pace.Takes) :
    ∃ next, Paced pace token next ∧ next.depth = pace.depth ∧ next.Takes := by
  induction token generalizing pace with
  | nil => exact ⟨pace, .nil, rfl, takes⟩
  | cons character token induction =>
      rw [List.all_cons, Bool.and_eq_true] at areToken
      have ends : endsToken ',' character = false := by
        have isToken := areToken.1
        simp only [isTokenCharacter, Bool.and_eq_true, Bool.not_eq_true'] at isToken
        exact isToken.1.1
      cases continues : continuesValue ',' character with
      | true =>
          rcases induction areToken.2 ⟨pace.depth, .continuing, false⟩ (fun _ => rfl) with
            ⟨next, paced, depth, nextTakes⟩
          exact ⟨next, .continuing continues paced, depth, nextTakes⟩
      | false =>
          have notOpening : character ≠ '(' := by
            rintro rfl
            exact absurd ends (by decide)
          have notClosing : character ≠ ')' := by
            rintro rfl
            exact absurd ends (by decide)
          have notBlank : isBlank character = false := by
            simp only [endsToken, Bool.or_eq_false_iff] at ends
            exact ends.1.1
          have isOperandCharacter : isOperand character = true := by
            simp [isOperand, notBlank, notClosing, continues]
          rcases induction areToken.2 ⟨pace.depth, .operand, false⟩ (fun _ => rfl) with
            ⟨next, paced, depth, nextTakes⟩
          exact ⟨next, .operand isOperandCharacter notOpening takes paced, depth, nextTakes⟩

/-- A token keeps the brackets, and so does what may follow it without a gap. -/
theorem keeps_behind_token {token text : List Char}
    (areToken : token.all (isTokenCharacter ',') = true) {pace : Pace} (takes : pace.Takes)
    (further : ∀ next : Pace, next.depth = pace.depth → next.Takes → next.Keeps text) :
    pace.Keeps (token ++ text) := by
  rcases paced_token areToken pace takes with ⟨middle, tokenPaced, tokenDepth, middleTakes⟩
  rcases further middle tokenDepth middleTakes with ⟨last, textPaced, textDepth⟩
  exact ⟨last, tokenPaced.append textPaced, textDepth.trans tokenDepth⟩

theorem keeps_token {token : List Char} (areToken : token.all (isTokenCharacter ',') = true)
    {pace : Pace} (takes : pace.Takes) : pace.Keeps token := by
  rcases paced_token areToken pace takes with ⟨next, paced, depth, _⟩
  exact ⟨next, paced, depth⟩

theorem Pace.takes_of_due {pace : Pace} (due : pace.mark ≠ .operand) : pace.Takes :=
  fun isOperandMark => absurd isOperandMark due

theorem IsNumeral.token {text : List Char} (numeral : IsNumeral text) :
    text.all (isTokenCharacter ',') = true := by
  apply List.all_eq_true.mpr
  intro character inside
  rcases ((isNumeric_iff text).mp numeral.isNumeric).2 character inside with digit | rfl
  · exact isTokenCharacter_of_isWordCharacter (isWordCharacter_of_isDigit digit)
  · decide

/-- Where an operand is due, a part of a formula or condition is paced. -/
theorem Derives.keeps {vocabulary : Vocabulary ν} (comma : vocabulary.argumentSeparator = ',')
    {category : Category} {text : List Char} {tree : category.Tree ν}
    (derivation : Derives vocabulary .blank category text tree) {pace : Pace}
    (due : pace.mark ≠ .operand) : pace.Keeps text := by
  have separates : continuesValue ',' vocabulary.argumentSeparator = true := by
    rw [comma]
    decide
  induction derivation generalizing pace with
  | product _ induction | term _ induction | argument _ induction | clause _ induction =>
      exact induction due
  | @sum _ right _ _ operator _ _ _ leftInduction rightInduction
  | @factor _ right _ _ operator _ _ _ leftInduction rightInduction =>
      have continues : continuesValue ',' operator.symbol = true := by cases operator <;> decide
      exact (leftInduction due).separated continues (rightInduction nofun)
  | @atom before text after negative tree gapBefore _ gapAfter induction =>
      apply Pace.Keeps.behind_gap gapBefore due
      intro next _ due
      apply Pace.Keeps.append _ fun _ _ => .gap gapAfter _
      cases negative with
      | false => exact induction due
      | true =>
          have minus : ['-'].all (continuesValue ',') = true := by decide
          exact .behind_symbol (List.cons_ne_nil _ _) minus (induction nofun)
  | number numeral _ => exact keeps_token numeral.token (Pace.takes_of_due due)
  | name word _ => exact keeps_token word (Pace.takes_of_due due)
  | group _ induction => exact .bracketed (Pace.takes_of_due due) (induction nofun)
  | call word _ _ _ induction =>
      apply keeps_behind_token word (Pace.takes_of_due due)
      intro next _ takes
      exact .bracketed takes (induction nofun)
  | choose word _ _ _ _ testInduction firstInduction secondInduction =>
      apply keeps_behind_token word (Pace.takes_of_due due)
      intro next _ takes
      apply Pace.Keeps.bracketed takes
      exact (testInduction (by simp)).separated separates
        ((firstInduction (by simp)).separated separates (secondInduction (by simp)))
  | noArgument gap => exact .gap gap _
  | arguments _ _ firstInduction restInduction =>
      exact (firstInduction due).separated separates (restInduction nofun)
  | @connect _ _ _ _ connective _ _ leftInduction rightInduction =>
      have symbol : connective.symbol.toList ≠ [] ∧
          connective.symbol.toList.all (continuesValue ',') = true := by
        cases connective <;> decide
      exact (leftInduction due).joined symbol.1 symbol.2 (rightInduction nofun)
  | conditionGroup gapBefore _ gapAfter induction =>
      apply Pace.Keeps.behind_gap gapBefore due
      intro next _ due
      apply Pace.Keeps.append _ fun _ _ => .gap gapAfter _
      exact .bracketed (Pace.takes_of_due due) (induction nofun)
  | @compare _ _ _ _ comparison _ _ leftInduction rightInduction =>
      have symbol : comparison.symbol.toList ≠ [] ∧
          comparison.symbol.toList.all (continuesValue ',') = true := by
        cases comparison <;> decide
      exact (leftInduction due).joined symbol.1 symbol.2 (rightInduction nofun)
  | @literal _ word _ _ gapBefore named gapAfter =>
      apply Pace.Keeps.behind_gap gapBefore due
      intro next _ due
      have areToken : word.all (isTokenCharacter ',') = true :=
        List.all_eq_true.mpr fun character inside =>
          isTokenCharacter_of_isWordCharacter ((word_of_literal? named).2 character inside)
      exact keeps_behind_token areToken (Pace.takes_of_due due) fun _ _ _ => .gap gapAfter _

/-! ## Spaced openings -/

/-- Whether an operand begins behind blanks. -/
def startsOperand (text : List Char) : Bool :=
  (text.find? fun character => !isBlank character).any isOperand

/-- Whether an operand begins behind a gap. -/
def startsSpaced (text : List Char) : Bool := text.head?.any isBlank && startsOperand text

/-- Whether an operand stands behind an opening bracket and a gap. -/
def hasSpacedOpening : List Char → Bool
  | [] => false
  | character :: rest => (character == '(' && startsSpaced rest) || hasSpacedOpening rest

/-- Whether the text begins with an operand behind an opening bracket and a gap. -/
def Pace.refuses (pace : Pace) (text : List Char) : Bool :=
  pace.mark == .opening && (pace.spaced || text.head?.any isBlank) && startsOperand text

section Refusals

variable {pace : Pace} {character : Char} {rest : List Char}

theorem startsOperand_blank (blank : isBlank character = true) :
    startsOperand (character :: rest) = startsOperand rest := by
  simp [startsOperand, blank]

theorem startsOperand_character (notBlank : isBlank character = false) :
    startsOperand (character :: rest) = isOperand character := by
  simp [startsOperand, notBlank]

theorem hasSpacedOpening_other (notOpening : character ≠ '(') :
    hasSpacedOpening (character :: rest) = hasSpacedOpening rest := by
  simp [hasSpacedOpening, notOpening]

end Refusals

/-! ## The scan of a paced text -/

section Characters

variable {extent : Extent} {index : Nat} {character : Char}

theorem Extent.read?_blank (blank : isBlank character = true) :
    ∃ after, extent.read? ' ' ',' index character = .ok (some after) ∧ after.depth = extent.depth ∧
      after.isOpen = extent.isOpen ∧ after.stop = extent.stop ∧
      (0 < extent.depth → after.spaced = true) := by
  by_cases lineEnd : character = '\n'
  · exact ⟨extent.endLine, by simp [Extent.read?, lineEnd], rfl, rfl, rfl, decide_eq_true⟩
  · exact ⟨{ extent with spaced := true }, by simp [Extent.read?, lineEnd, blank], rfl, rfl, rfl,
      fun _ => rfl⟩

theorem Extent.read?_closing (inside : 0 < extent.depth) :
    extent.read? ' ' ',' index ')' = .ok (some (.operand (extent.depth - 1) index)) := by
  have notBlank : isBlank ')' = false := by decide
  simp [Extent.read?, notBlank, Nat.ne_of_gt inside]

theorem not_isBlank_of_continuesValue (continues : continuesValue ',' character = true) :
    isBlank character = false := by
  simp only [continuesValue, Bool.or_eq_true, beq_iff_eq, List.contains_iff_mem] at continues
  rcases continues with rfl | inside
  · decide
  · have none : ['+', '-', '*', '/', '%', '&', '|', '<', '>', '=', '!', ':', ','].all
        (fun character => !isBlank character) = true := by decide
    simpa using List.all_eq_true.mp none character inside

theorem Extent.read?_continuing (continues : continuesValue ',' character = true) :
    extent.read? ' ' ',' index character = .ok (some (extent.operator index)) := by
  have notBlank := not_isBlank_of_continuesValue continues
  have notLineEnd : character ≠ '\n' := by
    rintro rfl
    exact absurd notBlank (by decide)
  have notClosing : character ≠ ')' := by
    rintro rfl
    exact absurd continues (by decide)
  simp [Extent.read?, notBlank, notLineEnd, notClosing, continues]

theorem isOperand_iff : isOperand character = true ↔
    isBlank character = false ∧ character ≠ ')' ∧ continuesValue ',' character = false := by
  simp [isOperand, and_assoc]

/-- Where an operand is due or goes on, it is read. -/
theorem Extent.read?_operand (isOperandCharacter : isOperand character = true)
    (takes : extent.isOpen = true ∨ extent.spaced = false ∧ extent.ended = false) :
    extent.read? ' ' ',' index character =
      .ok (some (.operand (if character = '(' then extent.depth + 1 else extent.depth) index)) := by
  rcases isOperand_iff.mp isOperandCharacter with ⟨notBlank, notClosing, stops⟩
  have notLineEnd : character ≠ '\n' := by
    rintro rfl
    exact absurd notBlank (by decide)
  simp only [Extent.read?, Extent.operand?, notBlank, notLineEnd, notClosing, stops, if_false,
    Bool.false_eq_true, ne_eq, not_true_eq_false, decide_false, Bool.and_false, Bool.false_and]
  rcases takes with isOpen | ⟨notSpaced, notEnded⟩
  · rw [if_pos isOpen]
  · simp [notSpaced, notEnded]

/-- Inside brackets blanks before an operand are refused, unless one is due. -/
theorem Extent.read?_refused (isOperandCharacter : isOperand character = true)
    (closed : extent.isOpen = false) (inside : 0 < extent.depth) (spaced : extent.spaced = true) :
    extent.read? ' ' ',' index character = .error ⟨.spaceBetweenOperands, index, index⟩ := by
  rcases isOperand_iff.mp isOperandCharacter with ⟨notBlank, notClosing, stops⟩
  have notLineEnd : character ≠ '\n' := by
    rintro rfl
    exact absurd notBlank (by decide)
  simp [Extent.read?, Extent.operand?, notBlank, notLineEnd, notClosing, stops, closed,
    Nat.ne_of_gt inside, spaced]

end Characters

/-- The extent agrees with the pace. -/
structure Pace.Meets (pace : Pace) (extent : Extent) : Prop where
  depth : extent.depth = pace.depth
  isOpen : extent.isOpen = decide (pace.mark = .continuing)
  fresh : pace.mark ≠ .continuing → pace.spaced = false →
    extent.spaced = false ∧ extent.ended = false
  inside : pace.mark = .opening → 0 < pace.depth ∧ (pace.spaced = true → extent.spaced = true)

/-- The value reaches to the last character that is not blank, unless it is refused. -/
inductive Reaches (base : Nat) (text : List Char) : Bool → Except Fault (Nat × Cursor) → Prop
  | refused {fault : Fault} : Reaches base text true (.error fault)
  | found {stop : Nat} {next : Cursor} :
      next.rest = [] → (text.drop (stop - base)).all isBlank = true →
      Reaches base text false (.ok (stop, next))

/-- Behind an operand's character nothing is due. -/
theorem Pace.Meets.operand (depth index : Nat) :
    Pace.Meets ⟨depth, .operand, false⟩ (.operand depth index) where
  depth := rfl
  isOpen := rfl
  fresh _ _ := ⟨rfl, rfl⟩
  inside := nofun

theorem Pace.Meets.opening (depth index : Nat) :
    Pace.Meets ⟨depth + 1, .opening, false⟩ (.operand (depth + 1) index) where
  depth := rfl
  isOpen := rfl
  fresh _ _ := ⟨rfl, rfl⟩
  inside _ := ⟨Nat.succ_pos depth, nofun⟩

/-- The extent reads an operand where one is due or goes on, but for spaced openings. -/
theorem Pace.Meets.takes {pace : Pace} {extent : Extent} (meets : pace.Meets extent)
    (takes : pace.Takes) (unspaced : pace.mark = .opening → pace.spaced = false) :
    extent.isOpen = true ∨ extent.spaced = false ∧ extent.ended = false := by
  have isOpen := meets.isOpen
  cases mark : pace.mark with
  | continuing =>
      left
      rw [isOpen, mark]
      rfl
  | opening => exact .inr (meets.fresh (by simp [mark]) (unspaced mark))
  | operand => exact .inr (meets.fresh (by simp [mark]) (takes mark))

/-- An operand behind a spaced opening is refused. -/
theorem Pace.Meets.refused {pace : Pace} {extent : Extent} (meets : pace.Meets extent)
    (opening : pace.mark = .opening) (spaced : pace.spaced = true) {character : Char}
    (isOperandCharacter : isOperand character = true) (index : Nat) :
    ∃ fault, extent.read? ' ' ',' index character = .error fault := by
  rcases meets.inside opening with ⟨inside, extentSpaced⟩
  have closed : extent.isOpen = false := by
    rw [meets.isOpen, opening]
    rfl
  rw [← meets.depth] at inside
  exact ⟨_, Extent.read?_refused isOperandCharacter closed inside (extentSpaced spaced)⟩

/-- The part that has been read grows by one character. -/
theorem Reaches.read {base : Nat} {front rest : List Char} {character : Char} {refused : Bool}
    {extent after : Extent} (apart : character = '/' → rest.head? ≠ some '/')
    (read : extent.read? ' ' ',' (base + front.length) character = .ok (some after))
    (further : Reaches base (front ++ [character] ++ rest) refused
      (valueEnd ' ' ',' false after (base + (front ++ [character]).length) rest)) :
    Reaches base (front ++ character :: rest) refused
      (valueEnd ' ' ',' false extent (base + front.length) (character :: rest)) := by
  rw [valueEnd_code _ _ apart, read]
  simpa [Nat.add_assoc] using further

/-- An operand's character is read, unless it stands behind a spaced opening. -/
theorem Pace.Meets.reaches {pace : Pace} {extent : Extent} (meets : pace.Meets extent)
    (takes : pace.Takes) {base : Nat} {front rest : List Char} {character : Char}
    (isOperandCharacter : isOperand character = true)
    (apart : character = '/' → rest.head? ≠ some '/')
    (further : Reaches base (front ++ [character] ++ rest) (hasSpacedOpening (character :: rest))
      (valueEnd ' ' ',' false
        (.operand (if character = '(' then extent.depth + 1 else extent.depth)
          (base + front.length)) (base + (front ++ [character]).length) rest)) :
    Reaches base (front ++ character :: rest)
      (pace.refuses (character :: rest) || hasSpacedOpening (character :: rest))
      (valueEnd ' ' ',' false extent (base + front.length) (character :: rest)) := by
  have notBlank := (isOperand_iff.mp isOperandCharacter).1
  have refuses : pace.refuses (character :: rest) = (pace.mark == .opening && pace.spaced) := by
    rw [Pace.refuses, startsOperand_character notBlank]
    simp [notBlank, isOperandCharacter]
  rw [refuses]
  by_cases refused : pace.mark = .opening ∧ pace.spaced = true
  · rcases meets.refused refused.1 refused.2 isOperandCharacter (base + front.length) with
      ⟨fault, read⟩
    rw [valueEnd_code _ _ apart, read]
    simp only [refused, beq_self_eq_true, Bool.and_self, Bool.true_or]
    exact .refused
  · have unrefused : (pace.mark == .opening && pace.spaced) = false := by simpa using refused
    have unspaced : pace.mark = .opening → pace.spaced = false := by simpa using refused
    rw [unrefused, Bool.false_or]
    exact .read apart (Extent.read?_operand isOperandCharacter (meets.takes takes unspaced)) further

/-- A paced text is a value, unless a bracket in it opens before a gap and an operand. -/
theorem valueEnd_paced {pace next : Pace} {text : List Char} (paced : Paced pace text next)
    (commentless : ¬ ['/', '/'] <:+: text) {extent : Extent} (meets : pace.Meets extent)
    {base : Nat} (front : List Char)
    (covered : (front.drop (extent.stop - base)).all isBlank = true) :
    Reaches base (front ++ text) (pace.refuses text || hasSpacedOpening text)
      (valueEnd ' ' ',' false extent (base + front.length) text) := by
  have reached (front : List Char) (character : Char) :
      ((front ++ [character]).drop (base + front.length + 1 - base)).all isBlank = true := by
    have width : base + front.length + 1 - base = (front ++ [character]).length := by
      rw [List.length_append, Nat.add_assoc, Nat.add_sub_cancel_left]
      rfl
    rw [width, List.drop_length]
    rfl
  induction paced generalizing extent front with
  | @nil pace =>
      have unrefused : (pace.refuses [] || hasSpacedOpening []) = false := by
        simp [Pace.refuses, startsOperand, hasSpacedOpening]
      rw [unrefused]
      refine .found rfl ?_
      rwa [List.append_nil]
  | @blank pace next character rest blank _ induction =>
      rcases apart_of_commentless commentless with ⟨apart, behind⟩
      rcases Extent.read?_blank blank with ⟨after, read, depth, isOpen, stop, spaced⟩
      have notOpening : character ≠ '(' := by
        rintro rfl
        exact absurd blank (by decide)
      have same : pace.refuses (character :: rest) =
          Pace.refuses { pace with spaced := true } rest := by
        simp [Pace.refuses, startsOperand_blank blank, blank]
      have still : Pace.Meets { pace with spaced := true } after :=
        { depth := depth.trans meets.depth
          isOpen := isOpen.trans meets.isOpen
          fresh := nofun
          inside := fun opening => by
            have inside := (meets.inside opening).1
            exact ⟨inside, fun _ => spaced (by rwa [meets.depth])⟩ }
      rw [same, hasSpacedOpening_other notOpening]
      apply Reaches.read apart read
      apply induction behind still
      rw [stop, List.drop_append, List.all_append, covered, Bool.true_and]
      have blankCharacter : [character].all isBlank = true := by simpa using blank
      exact List.all_eq_true.mpr fun other inside =>
        List.all_eq_true.mp blankCharacter other (List.mem_of_mem_drop inside)
  | @closing depth mark spaced next rest _ induction =>
      rcases apart_of_commentless commentless with ⟨apart, behind⟩
      have inside : 0 < extent.depth := by
        rw [meets.depth]
        exact Nat.succ_pos depth
      have same : Pace.refuses ⟨depth + 1, mark, spaced⟩ (')' :: rest) =
          Pace.refuses ⟨depth, .operand, false⟩ rest := by
        rw [Pace.refuses, startsOperand_character (by decide)]
        simp [Pace.refuses, isOperand]
      rw [same, hasSpacedOpening_other (by decide)]
      apply Reaches.read apart (Extent.read?_closing inside)
      rw [meets.depth]
      exact induction behind (.operand depth _) _ (reached front ')')
  | @continuing pace next character rest continues _ induction =>
      rcases apart_of_commentless commentless with ⟨apart, behind⟩
      have notBlank := not_isBlank_of_continuesValue continues
      have notOpening : character ≠ '(' := by
        rintro rfl
        exact absurd continues (by decide)
      have same : pace.refuses (character :: rest) =
          Pace.refuses ⟨pace.depth, .continuing, false⟩ rest := by
        rw [Pace.refuses, startsOperand_character notBlank]
        simp [Pace.refuses, isOperand, continues]
      have still : Pace.Meets ⟨pace.depth, .continuing, false⟩
          (extent.operator (base + front.length)) :=
        { depth := meets.depth, isOpen := rfl, fresh := nofun, inside := nofun }
      rw [same, hasSpacedOpening_other notOpening]
      apply Reaches.read apart (Extent.read?_continuing continues)
      exact induction behind still _ (reached front character)
  | @opening pace next rest takes _ induction =>
      rcases apart_of_commentless commentless with ⟨apart, behind⟩
      have same : hasSpacedOpening ('(' :: rest) =
          (Pace.refuses ⟨pace.depth + 1, .opening, false⟩ rest || hasSpacedOpening rest) := rfl
      apply meets.reaches takes (by decide) apart
      rw [same, if_pos rfl, meets.depth]
      exact induction behind (.opening pace.depth _) _ (reached front '(')
  | @operand pace next character rest isOperandCharacter notOpening takes _ induction =>
      rcases apart_of_commentless commentless with ⟨apart, behind⟩
      have same : hasSpacedOpening (character :: rest) =
          (Pace.refuses ⟨pace.depth, .operand, false⟩ rest || hasSpacedOpening rest) :=
        hasSpacedOpening_other notOpening
      apply meets.reaches takes isOperandCharacter apart
      rw [same, if_neg notOpening, meets.depth]
      exact induction behind (.operand pace.depth _) _ (reached front character)

end NumericRules.Grammar
