import NumericRules.Grammar.Cursor

/-! # Windows

The readers take the text that is left from a list. The readings here work on the
characters of the whole text by their indices, and everything that can go wrong with
indices is checked: reading outside the text, cutting out an inverted range, counting
below zero and a loop that does not end make a reading stuck.
-/

namespace NumericRules.Grammar

/-! ## Readings that may get stuck -/

/-- A reading that has an outcome or, with `none`, is stuck. -/
abbrev Guarded (α : Type) : Type := ExceptT Fault Option α

namespace Guarded

def stuck : Guarded α := ExceptT.mk none

/-- The reading is not stuck, and its faults and values are of this kind. -/
inductive Ends (fails : Fault → Prop) (post : α → Prop) : Guarded α → Prop
  | refused (fault : Fault) : fails fault → Ends fails post (throw fault)
  | done (value : α) : post value → Ends fails post (pure value)

namespace Ends

variable {fails : Fault → Prop}

theorem bind {middle : α → Prop} {post : β → Prop} {reading : Guarded α} {next : α → Guarded β}
    (ends : Ends fails middle reading)
    (further : ∀ value, middle value → Ends fails post (next value)) :
    Ends fails post (reading >>= next) := by
  cases ends with
  | refused fault holds => exact .refused fault holds
  | done value holds => exact further value holds

theorem weaken {post wider : α → Prop} {reading : Guarded α} (ends : Ends fails post reading)
    (weaker : ∀ value, post value → wider value) : Ends fails wider reading := by
  cases ends with
  | refused fault holds => exact .refused fault holds
  | done value holds => exact .done value (weaker value holds)

/-- What has no faults has a value. -/
theorem returns {post : α → Prop} {reading : Guarded α}
    (ends : Ends (fun _ => False) post reading) :
    ∃ value, reading = pure value ∧ post value := by
  cases ends with
  | refused _ holds => exact holds.elim
  | done value holds => exact ⟨value, rfl, holds⟩

/-- A reading that makes the same choice as something with a known outcome. -/
theorem choice {condition : Prop} [Decidable condition] {first second outcome : β}
    {post : α → Prop} {reading other : Guarded α}
    (known : (if condition then first else second) = outcome)
    (isSo : condition → first = outcome → Ends fails post reading)
    (isNot : ¬condition → second = outcome → Ends fails post other) :
    Ends fails post (if condition then reading else other) := by
  split
  · rename_i holds
    exact isSo holds ((if_pos holds).symm.trans known)
  · rename_i fails
    exact isNot fails ((if_neg fails).symm.trans known)

end Ends

/-- One less than a counter, which must not be zero. -/
def lower (counter : Nat) : Guarded Nat := if 0 < counter then pure (counter - 1) else stuck

theorem lower_eq {counter : Nat} (positive : 0 < counter) :
    lower counter = pure (counter - 1) := if_pos positive

end Guarded

/-! ## Parts of a text -/

/-- The characters from one index to another. -/
def part (text : List Char) (first last : Nat) : List Char := (text.drop first).take (last - first)

section Parts

variable {text : List Char} {first middle last : Nat}

theorem part_self : part text first first = [] := by
  rw [part, Nat.sub_self, List.take_zero]

theorem length_part (ordered : first ≤ last) (inside : last ≤ text.length) :
    (part text first last).length = last - first := by
  rw [part, List.length_take, List.length_drop]
  omega

/-- The next character of a part comes first. -/
theorem part_cons {character : Char} (before : first < last)
    (next : text[first]? = some character) :
    part text first last = character :: part text (first + 1) last := by
  rcases List.getElem?_eq_some_iff.mp next with ⟨inside, rfl⟩
  have count : last - first = last - (first + 1) + 1 := by omega
  rw [part, List.drop_eq_getElem_cons inside, count, List.take_succ_cons, part]

theorem part_append (before : first ≤ middle) (behind : middle ≤ last) :
    part text first last = part text first middle ++ part text middle last := by
  have count : last - first = middle - first + (last - middle) := by omega
  rw [part, count, List.take_add, List.drop_drop, Nat.add_sub_of_le before, part, part]

/-- The next character behind a part comes last. -/
theorem part_snoc {character : Char} (before : first ≤ last) (next : text[last]? = some character) :
    part text first (last + 1) = part text first last ++ [character] := by
  rw [part_append before (Nat.le_succ last), part_cons (Nat.lt_succ_self last) next, part_self]

theorem take_part (behind : middle ≤ last) :
    (part text first last).take (middle - first) = part text first middle := by
  rw [part, List.take_take, Nat.min_eq_left (Nat.sub_le_sub_right behind first), part]

theorem getElem?_part (ahead : Nat) :
    (part text first last)[ahead]? =
      if first + ahead < last then text[first + ahead]? else none := by
  have within : ahead < last - first ↔ first + ahead < last := by omega
  simp only [part, List.getElem?_take, List.getElem?_drop, within]

end Parts

namespace Guarded

/-- A part of the text, whose range must be within it and not inverted. -/
def slice (text : List Char) (first last : Nat) : Guarded (List Char) :=
  if first ≤ last ∧ last ≤ text.length then pure (part text first last) else stuck

theorem slice_eq {text : List Char} {first last : Nat} (ordered : first ≤ last)
    (inside : last ≤ text.length) : slice text first last = pure (part text first last) :=
  if_pos ⟨ordered, inside⟩

end Guarded

/-! ## Windows -/

/-- What a parser reads from: the index of the next character and the index behind the last
one. -/
structure Window where
  pos : Nat
  stop : Nat
deriving DecidableEq, Repr

namespace Window

variable (text : List Char)

/-- The window from one index to another, cut down to the text. -/
def bounded (first last : Nat) : Window :=
  ⟨min first (min last text.length), min last text.length⟩

/-- The window of the whole text. -/
def full : Window := bounded text 0 text.length

/-- A character ahead of the next one, if the window reaches so far. -/
def peek (window : Window) (ahead : Nat) : Guarded (Option Char) :=
  if window.pos + ahead < window.stop then
    match text[window.pos + ahead]? with
    | some character => pure (some character)
    | none => Guarded.stuck
  else pure none

/-- The window behind its next character, if there is one. -/
def bump (window : Window) : Window :=
  if window.pos < window.stop then { window with pos := window.pos + 1 } else window

/-- The place of the window, where faults are reported. -/
def here (window : Window) : Cursor := ⟨window.pos, []⟩

def rest (window : Window) : List Char := part text window.pos window.stop

/-- The cursor that has the same characters left. -/
def cursor (window : Window) : Cursor := ⟨window.pos, window.rest text⟩

/-- The window is a window of the text. -/
structure Fits (window : Window) : Prop where
  ordered : window.pos ≤ window.stop
  inside : window.stop ≤ text.length

/-- The second window is further on and has the same end. -/
structure Leads (start window : Window) : Prop where
  fits : window.Fits text
  stop : window.stop = start.stop
  pos : start.pos ≤ window.pos

variable {text} {window : Window}

@[simp]
theorem rest_cursor : (window.cursor text).rest = window.rest text := rfl

theorem cursor_eq {rest : List Char} (shows : window.rest text = rest) :
    window.cursor text = ⟨window.pos, rest⟩ := by
  rw [cursor, shows]

theorem Fits.leads (fits : window.Fits text) : window.Leads text window :=
  ⟨fits, rfl, Nat.le_refl _⟩

theorem Fits.pos_le (fits : window.Fits text) : window.pos ≤ text.length :=
  Nat.le_trans fits.ordered fits.inside

theorem Leads.trans {start middle : Window} (first : start.Leads text middle)
    (second : middle.Leads text window) : start.Leads text window :=
  ⟨second.fits, second.stop.trans first.stop, Nat.le_trans first.pos second.pos⟩

theorem bounded_eq {first last : Nat} (ordered : first ≤ last) (inside : last ≤ text.length) :
    bounded text first last = ⟨first, last⟩ := by
  rw [bounded, Nat.min_eq_left inside, Nat.min_eq_left ordered]

theorem bounded_fits (first last : Nat) : (bounded text first last).Fits text :=
  ⟨Nat.min_le_right _ _, Nat.min_le_right _ _⟩

variable (text) in
theorem full_eq : full text = ⟨0, text.length⟩ :=
  bounded_eq (Nat.zero_le _) (Nat.le_refl _)

variable (text) in
theorem full_fits : (full text).Fits text := bounded_fits 0 text.length

variable (text) in
theorem cursor_full : (full text).cursor text = .start text := by
  rw [full_eq, cursor, rest, part, Nat.sub_zero, List.drop_zero, List.take_length]
  rfl

theorem cursor_bounded {first last : Nat} (ordered : first ≤ last) (inside : last ≤ text.length) :
    (bounded text first last).cursor text = ⟨first, part text first last⟩ := by
  rw [bounded_eq ordered inside, cursor, rest]

theorem peek_eq (fits : window.Fits text) (ahead : Nat) :
    window.peek text ahead = pure (window.rest text)[ahead]? := by
  rw [rest, getElem?_part, peek]
  split
  · rename_i within
    rw [List.getElem?_eq_getElem (Nat.lt_of_lt_of_le within fits.inside)]
  · rfl

theorem peek_next (fits : window.Fits text) :
    window.peek text 0 = pure (window.cursor text).next? := by
  rw [peek_eq fits, ← List.head?_eq_getElem?]
  rfl

theorem peek_second (fits : window.Fits text) :
    window.peek text 1 = pure (window.cursor text).second? := by
  rw [peek_eq fits, Cursor.second?, List.head?_tail]
  rfl

theorem Fits.peek_cons (fits : window.Fits text) {character : Char} {others : List Char}
    (shows : window.rest text = character :: others) :
    window.peek text 1 = pure others.head? := by
  rw [peek_eq fits, shows, List.getElem?_cons_succ, List.head?_eq_getElem?]

theorem length_rest (fits : window.Fits text) :
    (window.rest text).length = window.stop - window.pos :=
  length_part fits.ordered fits.inside

theorem Fits.isEmpty_rest (fits : window.Fits text) :
    (window.rest text).isEmpty = decide (window.stop ≤ window.pos) := by
  rw [Bool.eq_iff_iff, List.isEmpty_iff_length_eq_zero, length_rest fits, decide_eq_true_eq]
  exact Nat.sub_eq_zero_iff_le

/-- Behind its next character, the window shows the others. -/
theorem Fits.bump_cons (fits : window.Fits text) {character : Char} {others : List Char}
    (shows : window.rest text = character :: others) :
    window.bump = ⟨window.pos + 1, window.stop⟩ ∧ window.bump.rest text = others ∧
      text[window.pos]? = some character ∧ window.Leads text window.bump := by
  have first : (window.rest text)[0]? = some character := by rw [shows]; rfl
  rw [rest, getElem?_part] at first
  split at first
  · rename_i within
    have isBump : window.bump = ⟨window.pos + 1, window.stop⟩ := if_pos within
    have left : window.rest text = character :: part text (window.pos + 1) window.stop :=
      part_cons within first
    rw [shows, List.cons.injEq] at left
    refine ⟨isBump, ?_, first, ?_⟩
    · rw [isBump]
      exact left.2.symm
    · rw [isBump]
      exact ⟨⟨within, fits.inside⟩, rfl, Nat.le_succ _⟩
  · cases first

/-- There is nothing behind the end of a window. -/
theorem Fits.bump_nil (fits : window.Fits text) (shows : window.rest text = []) :
    window.bump = window := by
  have unread := length_rest fits
  rw [shows, List.length_nil] at unread
  exact if_neg (by omega)

/-- A window shows what lies before a later one and what that shows. -/
theorem Leads.rest_eq {start : Window} (leads : start.Leads text window) :
    start.rest text = part text start.pos window.pos ++ window.rest text := by
  rw [rest, rest, leads.stop]
  exact part_append leads.pos (leads.stop ▸ leads.fits.ordered)

theorem Leads.upTo {start : Window} (leads : start.Leads text window) :
    (start.cursor text).upTo (window.cursor text) =
      ⟨start.pos, part text start.pos window.pos⟩ := by
  have behind : window.pos ≤ start.stop := leads.stop ▸ leads.fits.ordered
  exact congrArg (Cursor.mk start.pos) (take_part behind)

/-- A later window shows what is left behind the characters in between. -/
theorem Leads.advance {start : Window} (leads : start.Leads text window) :
    (start.cursor text).advance (window.pos - start.pos) = window.cursor text := by
  have between := length_part leads.pos leads.fits.pos_le
  rw [Cursor.advance, cursor, cursor, leads.rest_eq, ← between, List.drop_left, between,
    Nat.add_sub_of_le leads.pos]

end Window

/-! ## Loops -/

namespace Guarded

/-- What a turn of a loop does: go on behind the character or end with a result. -/
inductive Turn (σ β : Type) where
  | goOn (state : σ)
  | stop (result : β)

/-- Take turns at one character of the window after another, no more of them than the fuel. -/
def loop (text : List Char) (turn : σ → Window → Option Char → Guarded (Turn σ β)) :
    Nat → σ → Window → Guarded (β × Window)
  | 0, _, _ => stuck
  | fuel + 1, state, window => do
      let next ← window.peek text 0
      match ← turn state window next with
      | .goOn state => loop text turn fuel state window.bump
      | .stop result => pure (result, window)

/-- A loop over a window, with one turn for each character and one for its end. -/
def scan (text : List Char) (turn : σ → Window → Option Char → Guarded (Turn σ β)) (state : σ)
    (window : Window) : Guarded (β × Window) :=
  loop text turn (window.stop - window.pos + 1) state window

/-- The loop goes on or ends with states and results of this kind. -/
def Turn.Yields (goesOn : σ → Prop) (stops : β → Prop) : Turn σ β → Prop
  | .goOn state => goesOn state
  | .stop result => stops result

/-- A loop whose turns keep an invariant ends. The invariant is about the state, the index and
the characters that are left. -/
theorem Ends.scan {text : List Char} {turn : σ → Window → Option Char → Guarded (Turn σ β)}
    {start : Window} (fits : start.Fits text) {fails : Fault → Prop}
    (invariant : σ → Nat → List Char → Prop) (post : β → Window → Prop)
    (atEnd : ∀ state window, start.Leads text window → window.rest text = [] →
      invariant state window.pos [] →
      Ends fails (Turn.Yields (fun _ => False) (post · window)) (turn state window none))
    (turns : ∀ state window character others, start.Leads text window →
      window.rest text = character :: others → invariant state window.pos (character :: others) →
      Ends fails (Turn.Yields (invariant · (window.pos + 1) others) (post · window))
        (turn state window (some character)))
    {state : σ} (initially : invariant state start.pos (start.rest text)) :
    Ends fails (fun result => start.Leads text result.2 ∧ post result.1 result.2)
      (scan text turn state start) := by
  have looped (fuel : Nat) (state : σ) (window : Window) (leads : start.Leads text window)
      (holds : invariant state window.pos (window.rest text))
      (enough : window.stop - window.pos < fuel) :
      Ends fails (fun result => start.Leads text result.2 ∧ post result.1 result.2)
        (loop text turn fuel state window) := by
    induction fuel generalizing state window with
    | zero => exact absurd enough (Nat.not_lt_zero _)
    | succ fuel induction =>
        rw [loop, Window.peek_eq leads.fits, ← List.head?_eq_getElem?, pure_bind]
        cases shows : window.rest text with
        | nil =>
            apply (atEnd state window leads shows (shows ▸ holds)).bind
            intro taken kept
            cases taken with
            | stop result => exact .done _ ⟨leads, kept⟩
            | goOn next => exact kept.elim
        | cons character others =>
            apply (turns state window character others leads shows (shows ▸ holds)).bind
            intro taken kept
            cases taken with
            | stop result => exact .done _ ⟨leads, kept⟩
            | goOn next =>
                rcases leads.fits.bump_cons shows with ⟨isBump, left, -, further⟩
                have unread := Window.length_rest leads.fits
                rw [shows, List.length_cons] at unread
                have behind : window.bump.pos = window.pos + 1 := by rw [isBump]
                refine induction next window.bump (leads.trans further) ?_ ?_
                · rw [behind, left]
                  exact kept
                · rw [behind, further.stop]
                  omega
  exact looped _ state start fits.leads initially (Nat.lt_succ_self _)

/-- A loop whose turns keep an invariant and have no faults has a result. -/
theorem scan_returns {text : List Char} {turn : σ → Window → Option Char → Guarded (Turn σ β)}
    {start : Window} (fits : start.Fits text) (invariant : σ → Nat → List Char → Prop)
    (post : β → Window → Prop)
    (atEnd : ∀ state window, start.Leads text window → window.rest text = [] →
      invariant state window.pos [] → Ends (fun _ => False)
        (Turn.Yields (fun _ => False) (post · window)) (turn state window none))
    (turns : ∀ state window character others, start.Leads text window →
      window.rest text = character :: others → invariant state window.pos (character :: others) →
      Ends (fun _ => False) (Turn.Yields (invariant · (window.pos + 1) others) (post · window))
        (turn state window (some character)))
    {state : σ} (initially : invariant state start.pos (start.rest text)) :
    ∃ result stop, scan text turn state start = pure (result, stop) ∧ start.Leads text stop ∧
      post result stop := by
  rcases (Ends.scan fits invariant post atEnd turns initially).returns with
    ⟨⟨result, stop⟩, ended, leads, holds⟩
  exact ⟨result, stop, ended, leads, holds⟩

/-- A loop that only passes over characters. -/
def pass (text : List Char) (turn : σ → Window → Option Char → Guarded (Turn σ Unit)) (state : σ)
    (window : Window) : Guarded Window := do
  let (_, stop) ← scan text turn state window
  pure stop

/-- A loop passes over what a plain scan of the characters passes over, if every turn goes on
or stops like it. -/
theorem pass_eq {text : List Char} {turn : σ → Window → Option Char → Guarded (Turn σ Unit)}
    {start : Window} (fits : start.Fits text) (plain : σ → Nat → List Char → Cursor)
    (atEnd : ∀ state window,
      plain state window.pos [] = ⟨window.pos, []⟩ ∧ turn state window none = pure (.stop ()))
    (turns : ∀ state window character others outcome, window.Fits text →
      window.rest text = character :: others →
      plain state window.pos (character :: others) = outcome →
      Ends (fun _ => False) (Turn.Yields (plain · (window.pos + 1) others = outcome)
        fun _ => outcome = ⟨window.pos, character :: others⟩)
        (turn state window (some character)))
    (state : σ) :
    ∃ stop, pass text turn state start = pure stop ∧ start.Leads text stop ∧
      stop.cursor text = plain state start.pos (start.rest text) := by
  have scanned : ∃ result stop, scan text turn state start = pure (result, stop) ∧
      start.Leads text stop ∧ stop.cursor text = plain state start.pos (start.rest text) := by
    refine scan_returns fits
      (fun later index rest => plain later index rest = plain state start.pos (start.rest text))
      (fun _ stop => stop.cursor text = plain state start.pos (start.rest text)) ?_ ?_ rfl
    · intro later window _ shows passed
      rw [(atEnd later window).1] at passed
      rw [(atEnd later window).2]
      exact .done (Turn.stop ()) ((Window.cursor_eq shows).trans passed)
    · intro later window character others leads shows passed
      refine (turns later window character others _ leads.fits shows passed).weaken fun taken kept => ?_
      cases taken with
      | goOn next => exact kept
      | stop result => exact (Window.cursor_eq shows).trans kept.symm
  rcases scanned with ⟨_, stop, ended, leads, same⟩
  exact ⟨stop, by rw [pass, ended, pure_bind], leads, same⟩

end Guarded

end NumericRules.Grammar
