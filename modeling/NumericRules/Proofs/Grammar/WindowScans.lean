import NumericRules.Grammar.Statement
import NumericRules.Proofs.Grammar.Windows

/-! # Scans of windows

The loops of the readers, on indices. None of them gets stuck, and each has the outcome of
the scan of the characters that are left.
-/

namespace NumericRules

/-- The fault is at characters of the text or at its end. -/
structure Fault.Inside (text : List Char) (fault : Fault) : Prop where
  start : fault.start ≤ text.length
  reached : fault.reached ≤ text.length

namespace Grammar

open Text

namespace Guarded

/-- The reading on indices is not stuck and has the outcome of the plain one. Its faults are
inside the text, and its values are good. -/
def Follows (text : List Char) (good : α → Prop) (image : α → β) (guarded : Guarded α)
    (plain : Except Fault β) : Prop :=
  Ends (fun fault => plain = .error fault ∧ fault.Inside text)
    (fun value => plain = .ok (image value) ∧ good value) guarded

namespace Follows

variable {text : List Char} {good : α → Prop} {image : α → β}

theorem done {value : α} (isGood : good value) :
    Follows text good image (pure value) (pure (image value)) :=
  Ends.done value ⟨rfl, isGood⟩

theorem refused {fault : Fault} (inside : fault.Inside text) :
    Follows text good image (throw fault) (throw fault) :=
  Ends.refused fault ⟨rfl, inside⟩

theorem bind {further : γ → Prop} {shows : γ → δ} {guarded : Guarded α} {plain : Except Fault β}
    {next : α → Guarded γ} {other : β → Except Fault δ}
    (follows : Follows text good image guarded plain)
    (goesOn : ∀ value, good value → Follows text further shows (next value) (other (image value))) :
    Follows text further shows (guarded >>= next) (plain >>= other) := by
  unfold Follows at follows
  cases follows with
  | refused fault holds =>
      rcases holds with ⟨rfl, inside⟩
      exact refused inside
  | done value holds =>
      rcases holds with ⟨rfl, isGood⟩
      exact goesOn value isGood

theorem choice {condition : Prop} [Decidable condition] {first second : Guarded α}
    {plain other : Except Fault β} (isSo : condition → Follows text good image first plain)
    (isNot : ¬condition → Follows text good image second other) :
    Follows text good image (if condition then first else second)
      (if condition then plain else other) := by
  split
  · rename_i holds
    exact isSo holds
  · rename_i fails
    exact isNot fails

end Follows

/-- What is read and the cursor behind it, for a window behind it. -/
def shown (text : List Char) (read : α × Window) : α × Cursor := (read.1, read.2.cursor text)

variable {text : List Char} {window : Window}

/-! ## Blanks and comments -/

/-- What a turn of skipping does; `inComment` tells that a comment goes on. -/
def skipTurn (text : List Char) (inComment : Bool) (window : Window) :
    Option Char → Guarded (Turn Bool Unit)
  | none => pure (.stop ())
  | some character =>
      if inComment then pure (.goOn (character ≠ '\n'))
      else if isBlank character then pure (.goOn false)
      else do
        let second ← window.peek text 1
        if character = '/' && second = some '/' then pure (.goOn true) else pure (.stop ())

def skip (text : List Char) (window : Window) : Guarded Window :=
  pass text (skipTurn text) false window

theorem skip_eq (fits : window.Fits text) :
    ∃ stop, skip text window = pure stop ∧ window.Leads text stop ∧
      stop.cursor text = (window.cursor text).skip := by
  refine pass_eq fits Cursor.skipFrom (fun _ _ => ⟨rfl, rfl⟩) ?_ false
  intro inComment stop character others outcome within shows skipped
  unfold Cursor.skipFrom at skipped
  simp only [skipTurn, within.peek_cons shows, pure_bind]
  refine .choice skipped (fun _ goesOn => .done (Turn.goOn _) goesOn) fun _ skipped => ?_
  refine .choice skipped (fun _ goesOn => .done (Turn.goOn _) goesOn) fun _ skipped => ?_
  exact .choice skipped (fun _ goesOn => .done (Turn.goOn _) goesOn) fun _ ended =>
    .done (Turn.stop ()) ended.symm

/-! ## Runs of characters -/

def whileTurn (holds : Char → Bool) (_ : Unit) (_ : Window) : Option Char → Guarded (Turn Unit Unit)
  | none => pure (.stop ())
  | some character => if holds character then pure (.goOn ()) else pure (.stop ())

/-- Cut out the characters up to the first that is of another kind. -/
def readWhile (text : List Char) (holds : Char → Bool) (window : Window) :
    Guarded (List Char × Window) := do
  let (_, stop) ← scan text (whileTurn holds) () window
  let read ← slice text window.pos stop.pos
  pure (read, stop)

theorem readWhile_eq (fits : window.Fits text) (holds : Char → Bool) :
    ∃ stop, readWhile text holds window = pure ((window.rest text).takeWhile holds, stop) ∧
      window.Leads text stop ∧
      stop.pos = window.pos + ((window.rest text).takeWhile holds).length ∧
      stop.cursor text =
        (window.cursor text).advance ((window.rest text).takeWhile holds).length := by
  have scanned : ∃ result stop, scan text (whileTurn holds) () window = pure (result, stop) ∧
      window.Leads text stop ∧
      part text window.pos stop.pos = (window.rest text).takeWhile holds := by
    refine scan_returns fits (fun _ index rest =>
      part text window.pos index ++ rest.takeWhile holds = (window.rest text).takeWhile holds)
      (fun _ stop => part text window.pos stop.pos = (window.rest text).takeWhile holds) ?_ ?_ ?_
    · intro _ stop _ _ read
      rw [List.takeWhile_nil, List.append_nil] at read
      exact .done (Turn.stop ()) read
    · intro _ stop character others leads shows read
      rw [List.takeWhile_cons] at read
      dsimp only [whileTurn]
      split
      · rename_i isOne
        rw [if_pos isOne, List.append_cons,
          ← part_snoc leads.pos (leads.fits.bump_cons shows).2.2.1] at read
        exact .done (Turn.goOn ()) read
      · rename_i isOther
        rw [if_neg isOther, List.append_nil] at read
        exact .done (Turn.stop ()) read
    · rw [part_self, List.nil_append]
  rcases scanned with ⟨_, stop, ended, leads, read⟩
  have count : stop.pos - window.pos = ((window.rest text).takeWhile holds).length := by
    rw [← read, length_part leads.pos leads.fits.pos_le]
  refine ⟨stop, ?_, leads, ?_, ?_⟩
  · rw [readWhile, ended, pure_bind]
    dsimp only
    rw [slice_eq leads.pos leads.fits.pos_le, pure_bind, read]
  · rw [← count, Nat.add_sub_of_le leads.pos]
  · rw [← count, leads.advance]

/-! ## Tokens -/

/-- A turn of reading a token, the characters that have been read being passed in reverse. -/
def tokenTurn (separator : Char) (read : List Char) (window : Window) :
    Option Char → Guarded (Turn (List Char) (List Char))
  | none => pure (.stop read.reverse)
  | some character =>
      if endsToken separator character || (character = '-' && !read.isEmpty) then
        pure (.stop read.reverse)
      else if isForeign character then throw (window.here.fault (.unexpectedSymbol character))
      else pure (.goOn (character :: read))

def readToken (text : List Char) (separator : Char) (window : Window) :
    Guarded (List Char × Window) :=
  scan text (tokenTurn separator) [] window

theorem readToken_follows (fits : window.Fits text) (separator : Char) :
    Follows text
      (fun read => window.Leads text read.2 ∧ read.2.pos = window.pos + read.1.length)
      (shown text) (readToken text separator window)
      (Grammar.readToken separator (window.cursor text)) := by
  refine (Ends.scan fits (fun read index rest => tokenFrom separator read index rest =
      Grammar.readToken separator (window.cursor text) ∧ index = window.pos + read.length)
    (fun token stop => Grammar.readToken separator (window.cursor text) =
      .ok (token, stop.cursor text) ∧ stop.pos = window.pos + token.length) ?_ ?_ ?_).weaken ?_
  · intro read stop _ shows holds
    refine .done (Turn.stop _) ⟨?_, ?_⟩
    · rw [Window.cursor_eq shows]
      exact holds.1.symm
    · rw [List.length_reverse]
      exact holds.2
  · intro read stop character others leads shows holds
    rcases holds with ⟨outcome, count⟩
    unfold tokenFrom at outcome
    refine .choice outcome (fun _ ended => ?_) fun _ outcome => ?_
    · refine .done (Turn.stop _) ⟨?_, ?_⟩
      · rw [Window.cursor_eq shows]
        exact ended.symm
      · rw [List.length_reverse]
        exact count
    · refine .choice outcome (fun _ refused => ?_) fun _ goesOn => ?_
      · exact .refused _ ⟨refused.symm, leads.fits.pos_le, leads.fits.pos_le⟩
      · exact .done (Turn.goOn _) ⟨goesOn, by rw [List.length_cons, count, Nat.add_assoc]⟩
  · exact ⟨rfl, rfl⟩
  · intro read holds
    exact ⟨holds.2.1, holds.1, holds.2.2⟩

/-! ## Argument lists -/

/-- The state of a scan of arguments: the brackets that are open, the index where an argument
starts, and the earlier arguments, last first. -/
structure Splitting where
  depth : Nat := 0
  start : Nat
  found : List Window := []

def splitTurn (text : List Char) (separator : Char) (opening : Nat) (state : Splitting)
    (window : Window) : Option Char → Guarded (Turn Splitting (List Window))
  | none => throw (window.here.faultFrom opening .unclosedArguments)
  | some character =>
      if character = '(' then pure (.goOn { state with depth := state.depth + 1 })
      else if character = ')' then
        if 0 < state.depth then do
          let depth ← lower state.depth
          pure (.goOn { state with depth })
        else do
          let argument ← slice text state.start window.pos
          if argument.all isBlank then
            if state.found.isEmpty then pure (.stop [])
            else throw (window.here.fault .missingArgument)
          else pure (.stop (.bounded text state.start window.pos :: state.found).reverse)
      else if character = separator && state.depth = 0 then do
        let argument ← slice text state.start window.pos
        if argument.all isBlank then throw (window.here.fault (.extraSeparator character))
        else
          pure (.goOn
            { start := window.pos + 1
              found := .bounded text state.start window.pos :: state.found })
      else pure (.goOn state)

/-- Read the argument list whose opening bracket is next. -/
def readArguments (text : List Char) (separator : Char) (window : Window) :
    Guarded (List Window × Window) := do
  let (arguments, closing) ← scan text (splitTurn text separator window.pos)
    { start := window.bump.pos } window.bump
  pure (arguments, closing.bump)

/-- The cursors of the arguments and the one behind them. -/
def shownArguments (text : List Char) (read : List Window × Window) : List Cursor × Cursor :=
  (read.1.map (·.cursor text), read.2.cursor text)

/-- What a scan of arguments keeps: the plain scan is in the same state. -/
structure Splitting.Keeps (text : List Char) (separator : Char) (opening : Nat)
    (outcome : Except Fault (List Cursor × Cursor)) (state : Splitting) (index : Nat)
    (rest : List Char) : Prop where
  plain : splitFrom separator opening state.depth state.start
    (part text state.start index).reverse (state.found.map (·.cursor text)) index rest = outcome
  start : state.start ≤ index
  found : ∀ argument ∈ state.found, argument.Fits text

theorem splitTurn_keeps {separator : Char} {opening : Nat}
    {outcome : Except Fault (List Cursor × Cursor)} {state : Splitting} (fits : window.Fits text)
    {character : Char} {others : List Char} (shows : window.rest text = character :: others)
    (keeps : state.Keeps text separator opening outcome window.pos (character :: others)) :
    Ends (fun fault => outcome = .error fault ∧ fault.Inside text)
      (Turn.Yields (Splitting.Keeps text separator opening outcome · (window.pos + 1) others)
        fun arguments => (∀ argument ∈ arguments, argument.Fits text) ∧
          window.Leads text window.bump ∧
          outcome = .ok (shownArguments text (arguments, window.bump)))
      (splitTurn text separator opening state window (some character)) := by
  rcases keeps with ⟨known, start, found⟩
  rcases fits.bump_cons shows with ⟨isBump, left, next, further⟩
  have inside := fits.pos_le
  have later := Nat.le_succ_of_le start
  have more : (part text state.start (window.pos + 1)).reverse =
      character :: (part text state.start window.pos).reverse := by
    rw [part_snoc start next, List.reverse_append, List.reverse_singleton, List.singleton_append]
  have isArgument : (⟨state.start, (part text state.start window.pos).reverse.reverse⟩ : Cursor) =
      (Window.bounded text state.start window.pos).cursor text := by
    rw [List.reverse_reverse, Window.cursor_bounded start inside]
  have foundNow : ∀ argument ∈ .bounded text state.start window.pos :: state.found,
      argument.Fits text :=
    List.forall_mem_cons.mpr ⟨Window.bounded_fits _ _, found⟩
  have behind : window.bump.cursor text = ⟨window.pos + 1, others⟩ := by
    rw [Window.cursor_eq left, isBump]
  unfold splitFrom at known
  rw [← more, List.all_reverse, isArgument, List.isEmpty_map] at known
  dsimp only at known
  simp only [splitTurn, slice_eq start inside, pure_bind]
  refine .choice known (fun _ goesOn => ?opened) fun _ known => ?notOpened
  case opened => exact .done (Turn.goOn _) ⟨goesOn, later, found⟩
  refine .choice known (fun _ known => ?closed) fun _ known => ?notClosed
  case closed =>
    refine .choice known (fun positive goesOn => ?inner) fun _ known => ?last
    case inner =>
      rw [lower_eq positive, pure_bind]
      exact .done (Turn.goOn _) ⟨goesOn, later, found⟩
    refine .choice known (fun _ known => ?blank) fun _ ended => ?filled
    case filled =>
      refine .done (Turn.stop _)
        ⟨fun argument member => foundNow argument (List.mem_reverse.mp member), further, ?_⟩
      rw [shownArguments, behind, List.map_reverse, List.map_cons]
      exact ended.symm
    refine .choice known (fun _ ended => ?none) fun _ refused => ?missing
    case none =>
      refine .done (Turn.stop _) ⟨List.forall_mem_nil _, further, ?_⟩
      rw [shownArguments, behind]
      exact ended.symm
    case missing => exact .refused _ ⟨refused.symm, inside, inside⟩
  refine .choice known (fun _ known => ?separated) fun _ goesOn => ?within
  case within => exact .done (Turn.goOn _) ⟨goesOn, later, found⟩
  refine .choice known (fun _ refused => ?extra) fun _ goesOn => ?further
  case extra => exact .refused _ ⟨refused.symm, inside, inside⟩
  case further =>
    refine .done (Turn.goOn _) ⟨?_, Nat.le_refl _, foundNow⟩
    rw [part_self]
    exact goesOn

theorem readArguments_follows (fits : window.Fits text) {others : List Char}
    (shows : window.rest text = '(' :: others) (separator : Char) :
    Follows text
      (fun read => (∀ argument ∈ read.1, argument.Fits text) ∧ window.Leads text read.2)
      (shownArguments text) (readArguments text separator window)
      (Grammar.readArguments separator (window.cursor text)) := by
  rcases fits.bump_cons shows with ⟨isBump, left, -, behind⟩
  have inside := fits.pos_le
  refine (Ends.scan behind.fits (Splitting.Keeps text separator window.pos
      (Grammar.readArguments separator (window.cursor text)))
    (fun arguments stop => (∀ argument ∈ arguments, argument.Fits text) ∧
      stop.Leads text stop.bump ∧ Grammar.readArguments separator (window.cursor text) =
        .ok (shownArguments text (arguments, stop.bump))) ?_ ?_ ?_).bind ?_
  · intro state stop leads _ keeps
    exact .refused _ ⟨keeps.plain.symm, inside, Nat.max_le.mpr ⟨leads.fits.pos_le, inside⟩⟩
  · intro state stop character others leads shows keeps
    exact splitTurn_keeps leads.fits shows keeps
  · refine ⟨?_, Nat.le_refl _, List.forall_mem_nil _⟩
    rw [part_self, left, isBump, Window.cursor_eq shows]
    rfl
  · intro ⟨arguments, closing⟩ ⟨leads, allFit, further, read⟩
    exact Ends.done _ ⟨read, allFit, (behind.trans leads).trans further⟩

/-! ## Conditions -/

def operandTurn (stopAtComparison : Bool) (depth : Nat) (_ : Window) :
    Option Char → Guarded (Turn Nat Unit)
  | none => pure (.stop ())
  | some character =>
      if character = '(' then pure (.goOn (depth + 1))
      else if character = ')' then
        if depth = 0 then pure (.stop ())
        else do
          let depth ← lower depth
          pure (.goOn depth)
      else if depth = 0 && (character = '&' || character = '|') then pure (.stop ())
      else if depth = 0 && stopAtComparison && ['<', '>', '=', '!'].contains character then
        pure (.stop ())
      else pure (.goOn depth)

/-- Skip over one compared formula. -/
def skipOperand (text : List Char) (stopAtComparison : Bool) (window : Window) : Guarded Window :=
  pass text (operandTurn stopAtComparison) 0 window

theorem skipOperand_eq (fits : window.Fits text) (stopAtComparison : Bool) :
    ∃ stop, skipOperand text stopAtComparison window = pure stop ∧ window.Leads text stop ∧
      stop.cursor text = Grammar.skipOperand stopAtComparison (window.cursor text) := by
  refine pass_eq fits (operandEnd stopAtComparison) (fun _ _ => ⟨rfl, rfl⟩) ?_ 0
  intro depth stop character others outcome _ _ known
  unfold operandEnd at known
  refine .choice known (fun _ goesOn => .done (Turn.goOn _) goesOn) fun _ known => ?_
  refine .choice known (fun _ known => ?closed) fun _ known => ?notClosed
  case closed =>
    refine .choice known (fun _ ended => .done (Turn.stop ()) ended.symm) fun isOpen goesOn => ?_
    rw [lower_eq (Nat.pos_of_ne_zero isOpen), pure_bind]
    exact .done (Turn.goOn _) goesOn
  refine .choice known (fun _ ended => .done (Turn.stop ()) ended.symm) fun _ known => ?_
  exact .choice known (fun _ ended => .done (Turn.stop ()) ended.symm) fun _ goesOn =>
    .done (Turn.goOn _) goesOn

/-- A turn of looking for the bracket that closes the first one. -/
def closingTurn (depth : Nat) (_ : Window) : Option Char → Guarded (Turn Nat Unit)
  | none => pure (.stop ())
  | some character =>
      if character = '(' then pure (.goOn (depth + 1))
      else if character = ')' then do
        let depth ← lower depth
        if depth = 0 then pure (.stop ()) else pure (.goOn depth)
      else pure (.goOn depth)

/-- A turn of looking for a character that continues a formula. -/
def continuationTurn (_ : Unit) (_ : Window) : Option Char → Guarded (Turn Unit Bool)
  | none => pure (.stop false)
  | some character =>
      if isBlank character then pure (.goOn ()) else pure (.stop (continuesFormula character))

/-- Whether the bracket that is next opens a formula and not a condition. -/
def opensFormula (text : List Char) (window : Window) : Guarded Bool := do
  let (_, closing) ← scan text closingTurn 0 window
  let (continues, _) ← scan text continuationTurn () closing.bump
  pure continues

theorem startsContinuation_cons (character : Char) (others : List Char) :
    startsContinuation (character :: others) =
      if isBlank character then startsContinuation others else continuesFormula character := by
  cases blank : isBlank character <;> simp [startsContinuation, blank]

/-- The counter of brackets never falls below zero, since the first character opens one. -/
theorem opensFormula_eq (fits : window.Fits text) {others : List Char}
    (shows : window.rest text = '(' :: others) :
    opensFormula text window = pure (Grammar.opensFormula (window.cursor text)) := by
  have closed : ∃ result stop, scan text closingTurn 0 window = pure (result, stop) ∧
      window.Leads text stop ∧ stop.bump.Fits text ∧
      startsContinuation (stop.bump.rest text) = Grammar.opensFormula (window.cursor text) := by
    refine scan_returns fits (fun depth _ rest =>
        closesFormula depth rest = Grammar.opensFormula (window.cursor text) ∧
          (0 < depth ∨ rest.head? = some '('))
      (fun _ stop => stop.bump.Fits text ∧
        startsContinuation (stop.bump.rest text) = Grammar.opensFormula (window.cursor text))
      ?_ ?_ ⟨rfl, .inr (by rw [shows]; rfl)⟩
    · intro depth stop leads shows holds
      refine .done (Turn.stop ()) ?_
      have unmoved := leads.fits.bump_nil shows
      rw [unmoved]
      exact ⟨leads.fits, by rw [shows]; exact holds.1⟩
    · intro depth stop character others leads shows holds
      rcases holds with ⟨known, positive⟩
      rcases leads.fits.bump_cons shows with ⟨-, left, -, further⟩
      unfold closesFormula at known
      refine .choice known (fun _ goesOn => .done (Turn.goOn _) ⟨goesOn, .inl (Nat.succ_pos _)⟩)
        fun notOpening known => ?_
      have counted : 0 < depth :=
        positive.resolve_right fun first => notOpening (Option.some.inj first)
      refine .choice known (fun _ known => ?_) fun _ goesOn =>
        .done (Turn.goOn _) ⟨goesOn, .inl counted⟩
      rw [lower_eq counted, pure_bind]
      split
      · rename_i outermost
        rw [if_pos (by omega)] at known
        exact .done (Turn.stop ()) ⟨further.fits, by rw [left]; exact known⟩
      · rename_i inner
        rw [if_neg (by omega)] at known
        exact .done (Turn.goOn _) ⟨known, .inl (Nat.pos_of_ne_zero inner)⟩
  rcases closed with ⟨_, closing, found, -, behind, known⟩
  have continued : ∃ result stop, scan text continuationTurn () closing.bump =
        pure (result, stop) ∧ closing.bump.Leads text stop ∧
      result = Grammar.opensFormula (window.cursor text) := by
    refine scan_returns behind (fun _ _ rest =>
        startsContinuation rest = Grammar.opensFormula (window.cursor text))
      (fun continues _ => continues = Grammar.opensFormula (window.cursor text)) ?_ ?_ known
    · intro _ stop _ _ known
      exact .done (Turn.stop _) known
    · intro _ stop character others _ _ known
      rw [startsContinuation_cons] at known
      exact .choice known (fun _ goesOn => .done (Turn.goOn _) goesOn) fun _ ended =>
        .done (Turn.stop _) ended
  rcases continued with ⟨_, stop, scanned, -, rfl⟩
  rw [opensFormula, found, pure_bind]
  dsimp only
  rw [scanned, pure_bind]

/-! ## Statements -/

/-- What a turn of skipping over blanks, comments and step separators does. -/
def separatorTurn (text : List Char) (separator : Char) (inComment : Bool) (window : Window) :
    Option Char → Guarded (Turn Bool Unit)
  | none => pure (.stop ())
  | some character =>
      if inComment then pure (.goOn (character ≠ '\n'))
      else if isBlank character then pure (.goOn false)
      else do
        let second ← window.peek text 1
        if character = '/' && second = some '/' then pure (.goOn true)
        else if character = separator then pure (.goOn false)
        else pure (.stop ())

def skipSeparators (text : List Char) (separator : Char) (window : Window) : Guarded Window :=
  pass text (separatorTurn text separator) false window

theorem skipSeparators_eq (fits : window.Fits text) (separator : Char) :
    ∃ stop, skipSeparators text separator window = pure stop ∧ window.Leads text stop ∧
      stop.cursor text = Grammar.skipSeparators separator (window.cursor text) := by
  refine pass_eq fits (skipSeparatorsFrom separator) (fun _ _ => ⟨rfl, rfl⟩) ?_ false
  intro inComment stop character others outcome within shows skipped
  unfold skipSeparatorsFrom at skipped
  simp only [separatorTurn, within.peek_cons shows, pure_bind]
  refine .choice skipped (fun _ goesOn => .done (Turn.goOn _) goesOn) fun _ skipped => ?_
  refine .choice skipped (fun _ goesOn => .done (Turn.goOn _) goesOn) fun _ skipped => ?_
  refine .choice skipped (fun _ goesOn => .done (Turn.goOn _) goesOn) fun _ skipped => ?_
  exact .choice skipped (fun _ goesOn => .done (Turn.goOn _) goesOn) fun _ ended =>
    .done (Turn.stop ()) ended.symm

/-- A turn of looking for the end of a value. The state tells whether a comment goes on, and
what has been seen of the value. -/
def valueTurn (text : List Char) (separator argumentSeparator : Char) (state : Bool × Extent)
    (window : Window) : Option Char → Guarded (Turn (Bool × Extent) Nat)
  | none => pure (.stop state.2.stop)
  | some character => do
      let extent := state.2
      let second ← window.peek text 1
      if state.1 then pure (.goOn (character ≠ '\n', extent))
      else if character = '/' && second = some '/' then pure (.goOn (true, extent.endLine))
      else if character = '\n' then pure (.goOn (false, extent.endLine))
      else if character = separator && separator ≠ ' ' && extent.depth = 0 then
        pure (.goOn (false, { extent with ended := true, spaced := false }))
      else if isBlank character then pure (.goOn (false, { extent with spaced := true }))
      else if character = ')' then
        if extent.depth = 0 then throw (window.here.fault .unmatchedClosing)
        else do
          let depth ← lower extent.depth
          pure (.goOn (false, .operand depth window.pos))
      else if continuesValue argumentSeparator character then
        pure (.goOn (false, extent.operator window.pos))
      else
        let depth := if character = '(' then extent.depth + 1 else extent.depth
        if extent.isOpen then pure (.goOn (false, .operand depth window.pos))
        else if extent.depth = 0 then
          if extent.ended then pure (.stop extent.stop)
          else if extent.spaced then
            if separator = ' ' then pure (.stop extent.stop)
            else throw (window.here.fault .extraSymbol)
          else pure (.goOn (false, .operand depth window.pos))
        else if extent.spaced then throw (window.here.fault .spaceBetweenOperands)
        else pure (.goOn (false, .operand depth window.pos))

/-- Read the extent of the value that is next, as a bounded window. -/
def readExtent (text : List Char) (separator argumentSeparator : Char) (window : Window) :
    Guarded (Window × Window) := do
  let (stop, next) ←
    scan text (valueTurn text separator argumentSeparator) (false, { stop := window.pos }) window
  pure (.bounded text window.pos stop, next)

/-- What a scan of a value keeps: the plain scan is in the same state, and the value ends
between the start and the next character. -/
structure Scanned (separator argumentSeparator : Char) (start : Nat)
    (outcome : Except Fault (Nat × Cursor)) (state : Bool × Extent) (index : Nat)
    (rest : List Char) : Prop where
  plain : valueEnd separator argumentSeparator state.1 state.2 index rest = outcome
  start : start ≤ state.2.stop
  stop : state.2.stop ≤ index

theorem valueTurn_keeps {separator argumentSeparator : Char} {start : Nat}
    {outcome : Except Fault (Nat × Cursor)} {state : Bool × Extent} (fits : window.Fits text)
    {character : Char} {others : List Char} (shows : window.rest text = character :: others)
    (scanned : Scanned separator argumentSeparator start outcome state window.pos
      (character :: others)) :
    Ends (fun fault => outcome = .error fault ∧ fault.Inside text)
      (Turn.Yields (Scanned separator argumentSeparator start outcome · (window.pos + 1) others)
        fun stop => outcome = .ok (stop, window.cursor text) ∧ start ≤ stop ∧ stop ≤ window.pos)
      (valueTurn text separator argumentSeparator state window (some character)) := by
  rcases state with ⟨inComment, extent⟩
  rcases scanned with ⟨known, begins, ends⟩
  have inside := fits.pos_le
  have later : extent.stop ≤ window.pos + 1 := Nat.le_succ_of_le ends
  have behind : start ≤ window.pos + 1 := Nat.le_trans begins later
  -- the value goes on as far as before or up to this character
  have same {next : Bool × Extent} (unmoved : next.2.stop = extent.stop)
      (goesOn : valueEnd separator argumentSeparator next.1 next.2 (window.pos + 1) others =
        outcome) :
      Scanned separator argumentSeparator start outcome next (window.pos + 1) others :=
    ⟨goesOn, unmoved ▸ begins, unmoved ▸ later⟩
  have longer {next : Bool × Extent} (moved : next.2.stop = window.pos + 1)
      (goesOn : valueEnd separator argumentSeparator next.1 next.2 (window.pos + 1) others =
        outcome) :
      Scanned separator argumentSeparator start outcome next (window.pos + 1) others :=
    ⟨goesOn, moved ▸ behind, Nat.le_of_eq moved⟩
  unfold valueEnd at known
  dsimp only at known
  simp only [valueTurn, fits.peek_cons shows, pure_bind]
  refine .choice known (fun _ goesOn => .done (Turn.goOn _) (same rfl goesOn)) fun _ known => ?_
  refine .choice known (fun _ goesOn => .done (Turn.goOn _) (same rfl goesOn)) fun _ known => ?_
  refine .choice known (fun _ goesOn => .done (Turn.goOn _) (same rfl goesOn)) fun _ known => ?_
  refine .choice known (fun _ goesOn => .done (Turn.goOn _) (same rfl goesOn)) fun _ known => ?_
  refine .choice known (fun _ goesOn => .done (Turn.goOn _) (same rfl goesOn)) fun _ known => ?_
  refine .choice known (fun _ known => ?closed) fun _ known => ?notClosed
  case closed =>
    refine .choice known (fun _ refused => .refused _ ⟨refused.symm, inside, inside⟩)
      fun isOpen goesOn => ?_
    rw [lower_eq (Nat.pos_of_ne_zero isOpen), pure_bind]
    exact .done (Turn.goOn _) (longer rfl goesOn)
  refine .choice known (fun _ goesOn => .done (Turn.goOn _) (longer rfl goesOn)) fun _ known => ?_
  refine .choice known (fun _ goesOn => .done (Turn.goOn _) (longer rfl goesOn)) fun _ known => ?_
  have stops (ended : Except.ok (extent.stop, ⟨window.pos, character :: others⟩) = outcome) :
      outcome = .ok (extent.stop, window.cursor text) ∧ start ≤ extent.stop ∧
        extent.stop ≤ window.pos :=
    ⟨by rw [Window.cursor_eq shows]; exact ended.symm, begins, ends⟩
  refine .choice known (fun _ known => ?outside) fun _ known => ?inside
  case inside =>
    exact .choice known (fun _ refused => .refused _ ⟨refused.symm, inside, inside⟩)
      fun _ goesOn => .done (Turn.goOn _) (longer rfl goesOn)
  refine .choice known (fun _ ended => .done (Turn.stop _) (stops ended)) fun _ known => ?_
  refine .choice known (fun _ known => ?spaced) fun _ goesOn =>
    .done (Turn.goOn _) (longer rfl goesOn)
  case spaced =>
    exact .choice known (fun _ ended => .done (Turn.stop _) (stops ended))
      fun _ refused => .refused _ ⟨refused.symm, inside, inside⟩

/-- The window of a value and the one behind it, as cursors. -/
def shownExtent (text : List Char) (read : Window × Window) : Cursor × Cursor :=
  (read.1.cursor text, read.2.cursor text)

theorem readExtent_follows (fits : window.Fits text) (separator argumentSeparator : Char) :
    Follows text (fun read => read.1.Fits text ∧ window.Leads text read.2) (shownExtent text)
      (readExtent text separator argumentSeparator window)
      (Grammar.readExtent separator argumentSeparator (window.cursor text)) := by
  have scanned : Follows text
      (fun read => window.Leads text read.2 ∧ window.pos ≤ read.1 ∧ read.1 ≤ read.2.pos)
      (shown text)
      (scan text (valueTurn text separator argumentSeparator) (false, { stop := window.pos })
        window)
      (valueEnd separator argumentSeparator false { stop := window.pos } window.pos
        (window.rest text)) := by
    generalize known : valueEnd separator argumentSeparator false { stop := window.pos }
      window.pos (window.rest text) = outcome
    refine (Ends.scan fits (Scanned separator argumentSeparator window.pos outcome)
      (fun stop next => outcome = .ok (stop, next.cursor text) ∧ window.pos ≤ stop ∧
        stop ≤ next.pos) ?_ ?_ ⟨known, Nat.le_refl _, Nat.le_refl _⟩).weaken ?_
    · intro state next _ shows holds
      refine .done (Turn.stop _) ⟨?_, holds.start, holds.stop⟩
      rw [Window.cursor_eq shows]
      exact holds.plain.symm
    · intro state next character others leads shows holds
      exact valueTurn_keeps leads.fits shows holds
    · intro read holds
      exact ⟨holds.2.1, holds.1, holds.2.2⟩
  apply scanned.bind
  intro ⟨stop, next⟩ ⟨leads, begins, ends⟩
  have inside := Nat.le_trans ends leads.fits.pos_le
  have behind : stop ≤ window.stop := Nat.le_trans ends (leads.stop ▸ leads.fits.ordered)
  refine Ends.done _ ⟨?_, Window.bounded_fits _ _, leads⟩
  rw [shownExtent, Window.cursor_bounded begins inside, ← take_part behind]
  rfl

end Guarded

end Grammar

end NumericRules
