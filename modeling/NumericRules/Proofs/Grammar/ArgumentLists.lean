import NumericRules.Proofs.Grammar.Brackets

/-! # Splitting and joining argument lists

An argument is text that is not blank, in which brackets nest and every separator is
inside of one. What is written as arguments between separators is split into the same
arguments, and nothing is accepted that is not written in this way, empty brackets apart.
-/

namespace NumericRules.Grammar

open Text

/-! ## Nested brackets -/

/-- Text between a place with `before` and a place with `after` open brackets. -/
structure Nested (separator : Char) (before after : Nat) (text : List Char) : Prop where
  /-- No bracket closes without one that is open. -/
  opened : ∀ front, front <+: text → front.count ')' ≤ before + front.count '('
  /-- Every separator stands inside of a bracket. -/
  enclosed : ∀ front, front ++ [separator] <+: text →
    front.count ')' < before + front.count '('
  balance : after + text.count ')' = before + text.count '('

instance (separator : Char) (before after : Nat) (text : List Char) :
    Decidable (Nested separator before after text) :=
  decidable_of_iff
    ((∀ front ∈ text.inits, front.count ')' ≤ before + front.count '(') ∧
      (∀ front ∈ text.inits, front ++ [separator] <+: text →
        front.count ')' < before + front.count '(') ∧
      after + text.count ')' = before + text.count '(')
    ⟨fun ⟨opened, enclosed, balance⟩ =>
      ⟨fun front inside => opened front ((List.mem_inits front text).mpr inside),
        fun front inside => enclosed front
          ((List.mem_inits front text).mpr ((List.prefix_append front _).trans inside)) inside,
        balance⟩,
    fun nested =>
      ⟨fun front inside => nested.opened front ((List.mem_inits front text).mp inside),
        fun front _ inside => nested.enclosed front inside, nested.balance⟩⟩

/-- The text of one argument. -/
structure IsArgumentText (separator : Char) (text : List Char) : Prop where
  filled : text.all isBlank = false
  nested : Nested separator 0 0 text

namespace Nested

variable {separator : Char} {before middle after : Nat} {text : List Char}

theorem nil (separator : Char) (depth : Nat) : Nested separator depth depth [] where
  opened front inside := by
    rw [List.prefix_nil.mp inside]
    exact Nat.zero_le _
  enclosed front inside := absurd (List.prefix_nil.mp inside) (by simp)
  balance := rfl

/-- Text with one more character. -/
theorem push (nested : Nested separator before middle text) {character : Char}
    (next : after + [character].count ')' = middle + [character].count '(')
    (enclosed : character = separator → 0 < middle) :
    Nested separator before after (text ++ [character]) := by
  have balance := nested.balance
  have whole : after + (text ++ [character]).count ')' =
      before + (text ++ [character]).count '(' := by
    rw [List.count_append, List.count_append]
    omega
  refine ⟨fun front inside => ?_, fun front inside => ?_, whole⟩
  · rcases List.prefix_concat_iff.mp inside with rfl | inside
    · exact whole ▸ Nat.le_add_left _ after
    · exact nested.opened front inside
  · rcases List.prefix_concat_iff.mp inside with last | inside
    · rcases List.append_inj' last rfl with ⟨rfl, same⟩
      have deep := enclosed (List.singleton_inj.mp same).symm
      omega
    · exact nested.enclosed front inside

/-- Text without its first character. -/
theorem tail {character : Char} (nested : Nested separator before after (character :: text))
    (next : middle + [character].count ')' = before + [character].count '(') :
    Nested separator middle after text := by
  have counts (front : List Char) (bracket : Char) :
      (character :: front).count bracket =
        [character].count bracket + front.count bracket := by
    rw [← List.singleton_append, List.count_append]
  refine ⟨fun front inside => ?_, fun front inside => ?_, ?_⟩
  · have bound := nested.opened (character :: front)
      (List.cons_prefix_cons.mpr ⟨rfl, inside⟩)
    rw [counts front ')', counts front '('] at bound
    omega
  · have bound := nested.enclosed (character :: front)
      (List.cons_prefix_cons.mpr ⟨rfl, inside⟩)
    rw [counts front ')', counts front '('] at bound
    omega
  · have balance := nested.balance
    rw [counts text ')', counts text '('] at balance
    omega

end Nested

/-! ## Closed text -/

/-- Text that closes `depth` brackets which were opened before it, with `allowed`
characters behind all of them. -/
inductive ClosesBrackets (allowed : Char → Prop) : Nat → List Char → Prop
  | closed {text : List Char} : Closed allowed text → ClosesBrackets allowed 0 text
  | bracket {depth : Nat} {inner rest : List Char} :
      Closed (fun _ => True) inner → ClosesBrackets allowed depth rest →
      ClosesBrackets allowed (depth + 1) (inner ++ ')' :: rest)

/-- Closed text may stand before it. -/
theorem ClosesBrackets.prepend {allowed other : Char → Prop} {depth : Nat}
    {front rest : List Char} (closes : ClosesBrackets allowed depth rest)
    (closed : Closed other front)
    (implied : depth = 0 → ∀ character, other character → allowed character) :
    ClosesBrackets allowed depth (front ++ rest) := by
  cases closes with
  | closed behind => exact .closed ((closed.weaken (implied rfl)).append behind)
  | bracket inner behind =>
      rw [← List.append_assoc]
      exact .bracket ((closed.weaken fun _ _ => trivial).append inner) behind

theorem count_singleton_of_ne {character bracket : Char} (different : character ≠ bracket) :
    [character].count bracket = 0 :=
  List.count_eq_zero.mpr fun inside => different (List.mem_singleton.mp inside).symm

/-- Where brackets nest, each one that is open is closed by its own. -/
theorem Nested.closes {separator : Char} {depth : Nat} {text : List Char}
    (nested : Nested separator depth 0 text) :
    ClosesBrackets (· ≠ separator) depth text := by
  induction text generalizing depth with
  | nil =>
      have none : depth = 0 := nested.balance.symm
      exact none ▸ .closed .nil
  | cons character text induction =>
      by_cases opening : character = '('
      · subst opening
        -- The bracket that closes this one splits what follows.
        have deeper : Nested separator (depth + 1) 0 text := nested.tail rfl
        cases induction deeper with
        | @bracket _ inner rest closed closes =>
            have group : Closed (fun _ => False) (bracketed inner) :=
              List.append_nil (bracketed inner) ▸ .brackets closed .nil
            rw [← bracketed_append]
            exact closes.prepend group fun _ _ => False.elim
      · by_cases closing : character = ')'
        · subst closing
          have bound := nested.opened [')'] (List.prefix_append [')'] text)
          cases depth with
          | zero => exact absurd bound (by decide)
          | succ depth => exact .bracket .nil (induction (nested.tail rfl))
        · have plain : Closed (· = character) [character] :=
            .character rfl opening closing .nil
          have behind : Nested separator depth 0 text := nested.tail
            (by rw [count_singleton_of_ne opening, count_singleton_of_ne closing])
          refine (induction behind).prepend plain fun outside other same isSeparator => ?_
          have separates : separator = character := isSeparator.symm.trans same
          have bound := nested.enclosed [] (separates ▸ List.prefix_append [character] text)
          exact Nat.not_lt_zero _ (outside ▸ bound)

theorem IsArgumentText.closed {separator : Char} {text : List Char}
    (argument : IsArgumentText separator text) : Closed (· ≠ separator) text := by
  cases argument.nested.closes with
  | closed closed => exact closed

/-! ## Splitting -/

section Splitting

variable {separator : Char} {opening depth start index : Nat} {found arguments : List Cursor}
  {stop : Cursor}

/-- The arguments of an accepted list stand one after another, and each of them is
text of an argument. -/
theorem arguments_of_splitFrom (notOpening : separator ≠ '(') (notClosing : separator ≠ ')')
    {read rest : List Char} (nested : Nested separator 0 depth read.reverse)
    (place : index = start + read.length)
    (outcome : splitFrom separator opening depth start read found index rest =
      .ok (arguments, stop)) :
    ∃ pieces, arguments = found.reverse ++ argumentsFrom start pieces ∧
      ∀ piece ∈ pieces, IsArgumentText separator piece := by
  induction rest generalizing depth start read found index with
  | nil => cases outcome
  | cons character rest induction =>
      -- `nested` is what every character keeps; outside of brackets it makes an argument.
      have isArgument (outside : depth = 0) (filled : read.all isBlank = false) :
          IsArgumentText separator read.reverse :=
        ⟨by rw [List.all_reverse, filled], outside ▸ nested⟩
      rcases splitFrom_cons_eq_ok outcome with
        ⟨after, inside, step⟩ | ⟨_, outside, _, ends⟩ | ⟨_, outside, filled, behind⟩
      · have nested : Nested separator 0 after (character :: read).reverse := by
          rw [List.reverse_cons]
          rcases step with ⟨rfl, rfl⟩ | ⟨rfl, rfl⟩ | ⟨noOpening, noClosing, rfl, deep⟩
          · exact nested.push rfl fun same => absurd same.symm notOpening
          · exact nested.push rfl fun same => absurd same.symm notClosing
          · refine nested.push ?_ deep
            rw [count_singleton_of_ne noOpening, count_singleton_of_ne noClosing]
        exact induction nested (by rw [place, List.length_cons, Nat.add_assoc]) inside
      · rcases ends with ⟨_, rfl, rfl⟩ | ⟨filled, rfl⟩
        · exact ⟨[], rfl, List.forall_mem_nil _⟩
        · exact ⟨[read.reverse], rfl, List.forall_mem_singleton.mpr (isArgument outside filled)⟩
      · rcases induction (.nil separator 0) rfl behind with ⟨pieces, rfl, areArguments⟩
        refine ⟨read.reverse :: pieces, ?_,
          List.forall_mem_cons.mpr ⟨isArgument outside filled, areArguments⟩⟩
        rw [List.reverse_cons, List.append_assoc, argumentsFrom, List.length_reverse, place]
        rfl

end Splitting

theorem map_rest_argumentsFrom (index : Nat) (pieces : List (List Char)) :
    (argumentsFrom index pieces).map Cursor.rest = pieces := by
  induction pieces generalizing index with
  | nil => rfl
  | cons piece pieces induction => rw [argumentsFrom, List.map_cons, induction]

/-- Joined arguments are split into themselves, each at its place in the text, up to the
bracket that closes their list. A list that is accepted is made of such arguments and of
the separators between them, unless it is blank. -/
theorem readArguments_inverts {separator : Char} (notOpening : separator ≠ '(')
    (notClosing : separator ≠ ')') :
    (∀ (pieces : List (List Char)) (index : Nat) (rest : List Char),
      (∀ piece ∈ pieces, IsArgumentText separator piece) →
      readArguments separator ⟨index, bracketed (joinWith separator pieces) ++ rest⟩ =
        .ok (argumentsFrom (index + 1) pieces,
          ⟨index + (bracketed (joinWith separator pieces)).length, rest⟩)) ∧
      ∀ (cursor : Cursor) (arguments : List Cursor) (stop : Cursor),
        cursor.next? = some '(' → readArguments separator cursor = .ok (arguments, stop) →
        ∃ pieces inner, arguments = argumentsFrom (cursor.index + 1) pieces ∧
          (∀ piece ∈ pieces, IsArgumentText separator piece) ∧
          cursor.Spans (bracketed inner) stop ∧
          (inner = joinWith separator pieces ∨ pieces = [] ∧ inner.all isBlank = true) := by
  constructor
  · intro pieces index rest areArguments
    cases pieces with
    | nil => exact readArguments_blank rfl rfl index rest
    | cons piece pieces =>
        exact readArguments_joinWith notOpening notClosing (List.cons_ne_nil piece pieces)
          (fun other inside => (areArguments other inside).closed)
          (fun other inside => (areArguments other inside).filled) index rest
  · intro cursor arguments stop opens outcome
    rcases readArguments_eq_ok opens outcome with ⟨inner, spans, content⟩
    rcases arguments_of_splitFrom notOpening notClosing (.nil separator 0) rfl outcome with
      ⟨pieces, rfl, areArguments⟩
    refine ⟨pieces, inner, rfl, areArguments, spans, ?_⟩
    rw [List.reverse_nil, List.nil_append, map_rest_argumentsFrom] at content
    rcases content with ⟨empty, blank⟩ | ⟨_, joined⟩
    · exact .inr ⟨(map_rest_argumentsFrom _ pieces).symm.trans (congrArg _ empty), blank⟩
    · exact .inl joined

/-- A call with a separator of its own, and a name behind a blank. -/
def callAndName : List (List Char) := [['f', '(', 'a', ',', 'b', ')'], [' ', 'c']]

theorem readArguments_inverts_nested :
    let cursor : Cursor := ⟨2, bracketed (joinWith ',' callAndName) ++ ['*', 'd']⟩
    let arguments : List Cursor := [⟨3, ['f', '(', 'a', ',', 'b', ')']⟩, ⟨10, [' ', 'c']⟩]
    let stop : Cursor := ⟨13, ['*', 'd']⟩
    ((',' : Char) ≠ '(' ∧ (',' : Char) ≠ ')') ∧
      (∀ piece ∈ callAndName, IsArgumentText ',' piece) ∧
      readArguments ',' cursor = .ok (arguments, stop) ∧ cursor.next? = some '(' ∧
      ∃ pieces inner, arguments = argumentsFrom 3 pieces ∧
        (∀ piece ∈ pieces, IsArgumentText ',' piece) ∧
        cursor.Spans (bracketed inner) stop ∧
        (inner = joinWith ',' pieces ∨ pieces = [] ∧ inner.all isBlank = true) := by
  intro cursor arguments stop
  have apart : (',' : Char) ≠ '(' ∧ (',' : Char) ≠ ')' := by decide
  have areArguments : ∀ piece ∈ callAndName, IsArgumentText ',' piece :=
    List.forall_mem_cons.mpr ⟨⟨rfl, by decide⟩, List.forall_mem_singleton.mpr ⟨rfl, by decide⟩⟩
  rcases readArguments_inverts apart.1 apart.2 with ⟨joined, accepted⟩
  have split := joined callAndName 2 ['*', 'd'] areArguments
  exact ⟨apart, areArguments, split, rfl, accepted cursor arguments stop rfl split⟩

end NumericRules.Grammar
