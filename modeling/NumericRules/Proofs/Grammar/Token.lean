import NumericRules.Proofs.Grammar.Derivation
import NumericRules.Proofs.Grammar.Cursor

/-! # Tokens

A token is a minus or nothing, followed by characters that belong to tokens. It
goes as far as these characters do.
-/

namespace NumericRules.Grammar

open Text

/-! ## Numerals -/

theorem isNumeric_iff (token : List Char) :
    isNumeric token = true ↔
      token ≠ [] ∧ ∀ character ∈ token, character.isDigit = true ∨ character = '.' := by
  simp [isNumeric]

theorem isDigit_point : Char.isDigit '.' = false := by decide

theorem takeWhile_isDigit {digits : List Char} (areDigits : digits.all Char.isDigit = true)
    (rest : List Char) :
    (digits ++ rest).takeWhile Char.isDigit = digits ++ rest.takeWhile Char.isDigit :=
  List.takeWhile_append_of_pos (List.all_eq_true.mp areDigits)

theorem dropWhile_isDigit {digits : List Char} (areDigits : digits.all Char.isDigit = true)
    (rest : List Char) :
    (digits ++ rest).dropWhile Char.isDigit = rest.dropWhile Char.isDigit :=
  List.dropWhile_append_of_pos (List.all_eq_true.mp areDigits)

theorem IsNumeral.isNumeric {text : List Char} (numeral : IsNumeral text) :
    isNumeric text = true := by
  rw [isNumeric_iff]
  cases numeral with
  | integer nonempty areDigits =>
      exact ⟨nonempty, fun character inside => .inl (List.all_eq_true.mp areDigits _ inside)⟩
  | decimal nonempty areDigits _ areFraction =>
      refine ⟨by simp, fun character inside => ?_⟩
      rcases List.mem_append.mp inside with inWhole | inFraction
      · exact .inl (List.all_eq_true.mp areDigits _ inWhole)
      · rcases List.mem_cons.mp inFraction with equal | inFraction
        · exact .inr equal
        · exact .inl (List.all_eq_true.mp areFraction _ inFraction)

/-- The numbers among the numeric tokens are the numerals. -/
theorem number?_eq_some {negative : Bool} {token : List Char} (numeric : isNumeric token = true)
    (value : Binary64) :
    number? negative token = some value ↔
      IsNumeral token ∧ Binary64.readUnsigned? negative token = some value := by
  constructor
  · intro read
    have split : token.takeWhile Char.isDigit ++ token.dropWhile Char.isDigit = token :=
      List.takeWhile_append_dropWhile
    have areDigits : (token.takeWhile Char.isDigit).all Char.isDigit = true := List.all_takeWhile
    unfold number? at read
    cases tail : token.dropWhile Char.isDigit with
    | nil =>
        rw [tail, List.append_nil] at split
        simp only [tail] at read
        split at read
        · cases read
        · rename_i nonempty
          rw [split] at nonempty areDigits
          exact ⟨.integer (by simpa using nonempty) areDigits, read⟩
    | cons point fraction =>
        simp only [tail] at read
        split at read
        · cases read
        · rename_i notRefused
          simp only [Bool.or_eq_true, List.isEmpty_iff, Bool.not_eq_true', not_or,
            Bool.not_eq_false] at notRefused
          rcases notRefused with ⟨⟨wholeNonempty, fractionNonempty⟩, areFraction⟩
          have notDigit : point.isDigit = false := by
            have first := List.head?_dropWhile_not Char.isDigit token
            simpa [tail] using first
          have isPoint : point = '.' := by
            have inside : point ∈ token := by
              rw [← split, tail]
              simp
            rcases ((isNumeric_iff token).mp numeric).2 point inside with digit | equal
            · rw [notDigit] at digit
              cases digit
            · exact equal
          have numeral : IsNumeral (token.takeWhile Char.isDigit ++ '.' :: fraction) :=
            .decimal wholeNonempty areDigits fractionNonempty areFraction
          rw [tail, isPoint] at split
          rw [split] at numeral
          exact ⟨numeral, read⟩
  · rintro ⟨numeral, read⟩
    cases numeral with
    | integer nonempty areDigits =>
        have taken := takeWhile_isDigit areDigits []
        have dropped := dropWhile_isDigit areDigits []
        simp only [List.append_nil, List.takeWhile_nil, List.dropWhile_nil] at taken dropped
        simp [number?, taken, dropped, nonempty, read]
    | @decimal digits fraction nonempty areDigits fractionNonempty areFraction =>
        have taken := takeWhile_isDigit areDigits ('.' :: fraction)
        have dropped := dropWhile_isDigit areDigits ('.' :: fraction)
        simp only [List.takeWhile_cons, List.dropWhile_cons, isDigit_point] at taken dropped
        simp [number?, taken, dropped, nonempty, fractionNonempty, areFraction, read]

/-! ## Where tokens end -/

/-- Characters of a token behind its first one. -/
def isTokenCharacter (separator character : Char) : Bool :=
  !endsToken separator character && !isForeign character && character != '-'

theorem head?_signed {separator : Char} {negative : Bool} {body : List Char}
    (areBody : body.all (isTokenCharacter separator) = true) :
    (signed negative body).head? = some '-' ↔ negative = true := by
  cases negative with
  | true => simp [signed]
  | false =>
      cases body with
      | nil => simp [signed]
      | cons character body =>
          simp only [List.all_cons, Bool.and_eq_true, isTokenCharacter, bne_iff_ne] at areBody
          simp [signed, areBody.1.2]

theorem tail_signed (negative : Bool) (body : List Char) :
    (if negative = true then (signed negative body).tail else signed negative body) = body := by
  cases negative <;> rfl

/-- The end of the text, or a character that ends tokens. -/
def EndsToken (separator : Char) (rest : List Char) : Prop :=
  ∀ character, rest.head? = some character →
    endsToken separator character = true ∨ character = '-'

theorem tokenFrom_eq_ok {separator : Char} {read : List Char} {index : Nat} {rest : List Char}
    {token : List Char} {stop : Cursor} (started : read ≠ [])
    (outcome : tokenFrom separator read index rest = .ok (token, stop)) :
    ∃ body, token = read.reverse ++ body ∧ body.all (isTokenCharacter separator) = true ∧
      Cursor.Spans ⟨index, rest⟩ body stop ∧ EndsToken separator stop.rest := by
  induction rest generalizing read index with
  | nil =>
      cases outcome
      exact ⟨[], (List.append_nil _).symm, rfl, ⟨rfl, rfl⟩, fun character first => by cases first⟩
  | cons character rest induction =>
      unfold tokenFrom at outcome
      split at outcome
      · rename_i ends
        cases outcome
        refine ⟨[], (List.append_nil _).symm, rfl, ⟨rfl, rfl⟩, fun found first => ?_⟩
        cases first
        simp only [Bool.or_eq_true, Bool.and_eq_true, decide_eq_true_eq] at ends
        rcases ends with ends | minus
        · exact .inl ends
        · exact .inr minus.1
      · rename_i goesOn
        split at outcome
        · cases outcome
        · rename_i notForeign
          rcases induction (List.cons_ne_nil _ _) outcome with ⟨body, token, areBody, spans, ends⟩
          refine ⟨character :: body, by simp [token], ?_,
            (Cursor.spans_mk index [character] rest).trans spans, ends⟩
          have isCharacter : isTokenCharacter separator character = true := by
            have nonempty : read.isEmpty = false := by simpa using started
            simp only [Bool.or_eq_true, Bool.and_eq_true, decide_eq_true_eq, nonempty,
              Bool.not_false, and_true, not_or, Bool.not_eq_true] at goesOn
            simp only [Bool.not_eq_true] at notForeign
            simp [isTokenCharacter, goesOn.1, goesOn.2, notForeign]
          rw [List.all_cons, isCharacter, areBody]
          rfl

/-- A token that was read is a minus or nothing and the characters up to the end of the
token. -/
theorem readToken_eq_ok {separator : Char} {cursor : Cursor} {token : List Char} {stop : Cursor}
    (outcome : readToken separator cursor = .ok (token, stop)) :
    ∃ negative body, token = signed negative body ∧
      body.all (isTokenCharacter separator) = true ∧ cursor.Spans token stop ∧
      EndsToken separator stop.rest := by
  rcases cursor with ⟨index, rest⟩
  unfold readToken at outcome
  cases rest with
  | nil =>
      cases outcome
      exact ⟨false, [], rfl, rfl, ⟨rfl, rfl⟩, fun character first => by cases first⟩
  | cons character rest =>
      simp only [tokenFrom, List.isEmpty_nil, Bool.not_true, Bool.and_false, Bool.or_false,
        List.reverse_nil] at outcome
      split at outcome
      · rename_i ends
        cases outcome
        refine ⟨false, [], rfl, rfl, ⟨rfl, rfl⟩, fun found first => ?_⟩
        cases first
        exact .inl ends
      · rename_i notEnd
        split at outcome
        · cases outcome
        · rename_i notForeign
          rcases tokenFrom_eq_ok (List.cons_ne_nil _ _) outcome with
            ⟨body, token, areBody, spans, ends⟩
          rw [List.reverse_singleton, List.singleton_append] at token
          subst token
          have spansAll := (Cursor.spans_mk index [character] rest).trans spans
          by_cases minus : character = '-'
          · exact ⟨true, body, by rw [minus]; rfl, areBody, spansAll, ends⟩
          · refine ⟨false, character :: body, rfl, ?_, spansAll, ends⟩
            simp only [Bool.not_eq_true] at notEnd notForeign
            simp [isTokenCharacter, notEnd, notForeign, minus, areBody]

theorem tokenFrom_append {separator : Char} {read body : List Char} (started : read ≠ [])
    (areBody : body.all (isTokenCharacter separator) = true) {rest : List Char}
    (ends : EndsToken separator rest) (index : Nat) :
    tokenFrom separator read index (body ++ rest) =
      .ok (read.reverse ++ body, ⟨index + body.length, rest⟩) := by
  induction body generalizing read index with
  | nil =>
      cases rest with
      | nil => simp [tokenFrom]
      | cons character rest =>
          have stops :
              (endsToken separator character || (character = '-' && !read.isEmpty)) = true := by
            rcases ends character rfl with ends | minus
            · rw [ends, Bool.true_or]
            · simp [minus, started]
          simp [tokenFrom, stops]
  | cons character body induction =>
      simp only [List.all_cons, Bool.and_eq_true, isTokenCharacter, Bool.not_eq_true',
        bne_iff_ne, ne_eq] at areBody
      rcases areBody with ⟨⟨⟨notEnd, notForeign⟩, notMinus⟩, areBody⟩
      have further := induction (List.cons_ne_nil character read)
        (by simpa [isTokenCharacter] using areBody) (index + 1)
      simp only [List.cons_append, tokenFrom, notEnd, notForeign, notMinus, decide_false,
        Bool.false_and, Bool.or_false, Bool.false_eq_true, if_false, further]
      simp [Nat.add_assoc, Nat.add_comm 1]

/-- A token with its minus is read up to where it ends. -/
theorem readToken_append {separator : Char} {negative : Bool} {body : List Char}
    (areBody : body.all (isTokenCharacter separator) = true)
    (minusBelongs : endsToken separator '-' = false)
    {rest : List Char} (ends : EndsToken separator rest)
    (apart : negative = false → body = [] → rest.head? ≠ some '-') (index : Nat) :
    readToken separator ⟨index, signed negative body ++ rest⟩ =
      .ok (signed negative body, ⟨index + (signed negative body).length, rest⟩) := by
  have minusStarts (body : List Char) (areBody : body.all (isTokenCharacter separator) = true) :
      readToken separator ⟨index, '-' :: (body ++ rest)⟩ =
        .ok ('-' :: body, ⟨index + (body.length + 1), rest⟩) := by
    have further := tokenFrom_append (List.cons_ne_nil '-' []) areBody ends (index + 1)
    simp only [readToken, tokenFrom, minusBelongs, List.isEmpty_nil, Bool.not_true, Bool.and_false,
      Bool.or_false, Bool.false_eq_true, if_false, further]
    simp [isForeign, Nat.add_assoc, Nat.add_comm 1]
  cases negative with
  | true => exact minusStarts body areBody
  | false =>
      cases body with
      | nil =>
          cases rest with
          | nil => rfl
          | cons character rest =>
              have notMinus := apart rfl rfl
              rcases ends character rfl with ends | minus
              · simp [signed, readToken, tokenFrom, ends]
              · exact absurd (congrArg some minus) notMinus
      | cons character body =>
          simp only [List.all_cons, Bool.and_eq_true] at areBody
          have started := areBody.1
          simp only [isTokenCharacter, Bool.and_eq_true, Bool.not_eq_true', bne_iff_ne, ne_eq]
            at started
          have further :=
            tokenFrom_append (List.cons_ne_nil character []) areBody.2 ends (index + 1)
          simp only [signed, Bool.false_eq_true, if_false, List.cons_append, readToken, tokenFrom,
            started.1.1, started.1.2, List.isEmpty_nil, Bool.not_true, Bool.and_false,
            Bool.or_false, further]
          simp [Nat.add_assoc, Nat.add_comm 1]

end NumericRules.Grammar
