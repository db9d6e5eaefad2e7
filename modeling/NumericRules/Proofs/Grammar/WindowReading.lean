import NumericRules.Proofs.Grammar.Limits
import NumericRules.Proofs.Grammar.WindowReaders

/-! # Reading from windows

The readers on indices agree with the readers of cursors: whatever is read, no reading gets
stuck, and every fault is inside the text.
-/

namespace NumericRules.Grammar

open Text

namespace Guarded

/-! ## Agreement -/

/-- The reading on indices follows the one of the cursor and comes to a window further on. -/
def Tracks (text : List Char) (window : Window) (guarded : Guarded (α × Window))
    (plain : Except Fault (α × Cursor)) : Prop :=
  Follows text (fun read => window.Leads text read.2) (shown text) guarded plain

/-- The reading on indices follows the other one to its end. -/
def Matches (text : List Char) (guarded : Guarded α) (plain : Except Fault α) : Prop :=
  Follows text (fun _ => True) id guarded plain

/-- The parsers on indices track the others wherever they start. -/
structure Inner.Tracks (text : List Char) (inner : Inner ν) (deeper : Deeper ν) : Prop where
  formula : ∀ window, window.Fits text →
    Guarded.Tracks text window (inner.formula window) (deeper.formula (window.cursor text))
  condition : ∀ window, window.Fits text →
    Guarded.Tracks text window (inner.condition window) (deeper.condition (window.cursor text))

/-- No level is left on either side, or the parsers of both track each other. -/
inductive LevelTracks (text : List Char) : Option (Inner ν) → Option (Deeper ν) → Prop
  | last : LevelTracks text none none
  | inner {inner : Inner ν} {deeper : Deeper ν} :
      inner.Tracks text deeper → LevelTracks text (some inner) (some deeper)

variable {text : List Char} {window : Window}

theorem inside_fault (fits : window.Fits text) (cause : Cause) :
    (window.here.fault cause).Inside text :=
  ⟨fits.pos_le, fits.pos_le⟩

theorem inside_faultFrom (fits : window.Fits text) {start : Nat} (inside : start ≤ text.length)
    (cause : Cause) : (window.here.faultFrom start cause).Inside text :=
  ⟨inside, Nat.max_le.mpr ⟨fits.pos_le, inside⟩⟩

theorem Tracks.behind {start : Window} {guarded : Guarded (α × Window)}
    {plain : Except Fault (α × Cursor)} (leads : start.Leads text window)
    (tracks : Tracks text window guarded plain) : Tracks text start guarded plain :=
  Ends.weaken tracks fun _ holds => ⟨holds.1, leads.trans holds.2⟩

/-- Behind the next character, the window shows what is left. -/
theorem bump_next (fits : window.Fits text) {character : Char}
    (next : (window.cursor text).next? = some character) :
    window.Leads text window.bump ∧ window.pos < window.bump.pos ∧
      window.bump.cursor text = (window.cursor text).advance 1 := by
  rcases List.head?_eq_some_iff.mp next with ⟨others, shows⟩
  change window.rest text = character :: others at shows
  rcases fits.bump_cons shows with ⟨isBump, left, -, leads⟩
  have further : window.bump.pos = window.pos + 1 := by rw [isBump]
  refine ⟨leads, by omega, ?_⟩
  rw [Window.cursor_eq left, further, Window.cursor_eq shows]
  rfl

theorem bump_second (fits : window.Fits text) {character other : Char}
    (next : (window.cursor text).next? = some character)
    (second : (window.cursor text).second? = some other) :
    window.Leads text window.bump.bump ∧
      window.bump.bump.cursor text = (window.cursor text).advance 2 := by
  rcases bump_next fits next with ⟨first, -, advanced⟩
  have nextThere : (window.bump.cursor text).next? = some other := by
    rw [advanced, Cursor.next?, Cursor.advance, List.drop_one]
    exact second
  rcases bump_next first.fits nextThere with ⟨further, -, behind⟩
  refine ⟨first.trans further, ?_⟩
  rw [behind, advanced, Cursor.advance, Cursor.advance, Cursor.advance, List.drop_drop]

section Parts

theorem expectEnd_matches (fits : window.Fits text) :
    Matches text (expectEnd text window) (window.cursor text).expectEnd := by
  rcases skip_eq fits with ⟨stop, skipped, leads, same⟩
  unfold expectEnd
  rw [skipped, pure_bind, Window.peek_next leads.fits, pure_bind]
  split
  · rename_i next
    simp only [Cursor.expectEnd, ← same, next]
    exact .done trivial
  · rename_i next
    simp only [Cursor.expectEnd, ← same, next]
    exact .refused (inside_fault leads.fits _)
  · rename_i next
    simp only [Cursor.expectEnd, ← same, next]
    exact .refused (inside_fault leads.fits _)

theorem whole_matches {parse : Window → Guarded (α × Window)}
    {plain : Cursor → Except Fault (α × Cursor)}
    (tracks : ∀ window, window.Fits text →
      Tracks text window (parse window) (plain (window.cursor text)))
    (fits : window.Fits text) :
    Matches text (whole text parse window) (Grammar.whole plain (window.cursor text)) := by
  apply (tracks window fits).bind
  intro ⟨result, stop⟩ leads
  apply (expectEnd_matches leads.fits).bind
  intro _ _
  exact .done trivial

theorem readAll_matches {parse : Window → Guarded α} {plain : Cursor → Except Fault α}
    (matched : ∀ window, window.Fits text →
      Matches text (parse window) (plain (window.cursor text)))
    (windows : List Window) (fit : ∀ window ∈ windows, window.Fits text) :
    Matches text (readAll parse windows) (Grammar.readAll plain (windows.map (·.cursor text))) := by
  induction windows with
  | nil => exact .done trivial
  | cons window windows induction =>
      rcases List.forall_mem_cons.mp fit with ⟨first, others⟩
      apply (matched window first).bind
      intro value _
      apply (induction others).bind
      intro values _
      exact .done trivial

end Parts

section Level

variable {vocabulary : Vocabulary ν} {inner : Option (Inner ν)} {deeper : Option (Deeper ν)}

theorem resolve_matches (fits : window.Fits text) (name : List Char) {start : Nat}
    (inside : start ≤ text.length) :
    Matches text (resolve vocabulary name start window)
      (vocabulary.resolve name start (window.cursor text)) := by
  unfold resolve Vocabulary.resolve
  cases vocabulary.resolve? (String.ofList name) with
  | none => exact .refused (inside_faultFrom fits inside _)
  | some reference => exact .done trivial

variable (level : LevelTracks text inner deeper)

include level

theorem enter_bind {good : α → Prop} {image : α → β} {next : Inner ν → Guarded α}
    {other : Deeper ν → Except Fault β} (fits : window.Fits text)
    (further : ∀ inner deeper, inner.Tracks text deeper →
      Follows text good image (next inner) (other deeper)) :
    Follows text good image (enter vocabulary inner window >>= next)
      (vocabulary.enter deeper (window.cursor text) >>= other) := by
  cases level with
  | last => exact .refused (inside_fault fits _)
  | inner tracks => exact further _ _ tracks

theorem readGroup_tracks {parse : Inner ν → Window → Guarded (α × Window)}
    {plain : Deeper ν → Cursor → Except Fault (α × Cursor)}
    (tracks : ∀ inner deeper, inner.Tracks text deeper → ∀ window, window.Fits text →
      Tracks text window (parse inner window) (plain deeper (window.cursor text)))
    (fits : window.Fits text) (next : (window.cursor text).next? = some '(') :
    Tracks text window (readGroup text vocabulary inner parse window)
      (Grammar.readGroup vocabulary deeper plain (window.cursor text)) := by
  apply enter_bind level fits
  intro inner deeper deep
  rcases bump_next fits next with ⟨bumped, -, advanced⟩
  rw [← advanced]
  apply (tracks inner deeper deep window.bump bumped.fits).bind
  intro ⟨result, stop⟩ leads
  dsimp only [shown] at leads ⊢
  rcases skip_eq leads.fits with ⟨closing, skipped, further, same⟩
  rw [skipped, pure_bind, Window.peek_next further.fits, pure_bind, ← same]
  split
  · rename_i closes
    rcases bump_next further.fits closes with ⟨last, -, behind⟩
    rw [← behind]
    exact .done (((bumped.trans leads).trans further).trans last)
  · exact .refused (inside_faultFrom further.fits fits.pos_le _)

theorem readCall_tracks {start : Nat} (inside : start ≤ text.length) (name : List Char)
    (fits : window.Fits text) (next : (window.cursor text).next? = some '(') :
    Tracks text window (readCall text vocabulary inner start name window)
      (Grammar.readCall vocabulary deeper start name (window.cursor text)) := by
  unfold readCall Grammar.readCall
  cases vocabulary.signature? (String.ofList name) with
  | none => exact .refused (inside_faultFrom fits inside _)
  | some signature =>
      apply enter_bind level fits
      intro inner deeper deep
      have formulas {window : Window} (fits : window.Fits text) :=
        whole_matches deep.formula fits
      have conditions {window : Window} (fits : window.Fits text) :=
        whole_matches deep.condition fits
      rcases List.head?_eq_some_iff.mp next with ⟨others, shows⟩
      apply (readArguments_follows fits shows _).bind
      intro ⟨arguments, stop⟩ ⟨allFit, leads⟩
      dsimp only [shownArguments]
      rw [List.length_map]
      cases signature with
      | choose =>
          rcases arguments with _ | ⟨test, _ | ⟨first, _ | ⟨second, _ | ⟨_, _⟩⟩⟩⟩
          · exact .refused (inside_faultFrom leads.fits inside _)
          · exact .refused (inside_faultFrom leads.fits inside _)
          · exact .refused (inside_faultFrom leads.fits inside _)
          · simp only [List.forall_mem_cons] at allFit
            apply (conditions allFit.1).bind
            intro test _
            apply (formulas allFit.2.1).bind
            intro first _
            apply (formulas allFit.2.2.1).bind
            intro second _
            exact .done leads
          · exact .refused (inside_faultFrom leads.fits inside _)
      | native accepted =>
          dsimp only
          split
          · apply (readAll_matches (fun _ => formulas) arguments allFit).bind
            intro values _
            exact .done leads
          · exact .refused (inside_faultFrom leads.fits inside _)

theorem readAtom_tracks (after : Option Operator) (fits : window.Fits text) :
    Tracks text window (readAtom text vocabulary inner after window)
      (Grammar.readAtom vocabulary deeper after (window.cursor text)) := by
  unfold readAtom Grammar.readAtom
  apply (readToken_follows fits _).bind
  intro ⟨token, stop⟩ ⟨leads, count⟩
  dsimp only [shown] at leads count ⊢
  rw [Window.peek_next leads.fits, pure_bind]
  have inside := fits.pos_le
  -- a name behind a minus starts within the token
  have named : (if token.head? = some '-' then window.pos + 1 else window.pos) ≤ text.length := by
    split
    · rename_i negative
      rcases List.head?_eq_some_iff.mp negative with ⟨others, rfl⟩
      have stopInside := leads.fits.pos_le
      rw [List.length_cons] at count
      omega
    · exact inside
  generalize (if token.head? = some '-' then token.tail else token) = body
  split
  · cases number? (decide (token.head? = some '-')) body with
    | none => exact .refused (inside_faultFrom leads.fits inside _)
    | some value => exact .done leads
  · split
    · split
      · rename_i bracket
        simp only [Bool.and_eq_true, decide_eq_true_eq] at bracket
        apply ((readGroup_tracks level (fun _ _ deep => deep.formula) leads.fits
          bracket.2).behind leads).bind
        intro read further
        exact .done further
      · exact .refused (inside_fault leads.fits _)
    · split
      · rename_i bracket
        apply ((readCall_tracks level named body leads.fits bracket).behind leads).bind
        intro read further
        exact .done further
      · apply (resolve_matches leads.fits body inside).bind
        intro reference _
        exact .done leads

theorem readOperand_tracks (after : Option Operator) (fits : window.Fits text) :
    Tracks text window (readOperand text vocabulary inner after window)
      (Grammar.readOperand vocabulary deeper after (window.cursor text)) := by
  rcases skip_eq fits with ⟨start, skipped, leads, same⟩
  unfold readOperand
  rw [skipped, pure_bind, Window.peek_next leads.fits, pure_bind]
  split
  · rename_i next
    simp only [Grammar.readOperand, ← same, next]
    exact .refused (inside_fault leads.fits _)
  · rename_i next
    simp only [Grammar.readOperand, ← same, next]
    exact .refused (inside_fault leads.fits _)
  · rename_i next
    simp only [Grammar.readOperand, ← same, next]
    exact (readGroup_tracks level (fun _ _ deep => deep.formula) leads.fits next).behind leads
  · rename_i next
    simp only [Grammar.readOperand, ← same, next]
    exact (readAtom_tracks level after leads.fits).behind leads

/-- Every turn reads an operator, so the fuel does not run out. -/
theorem readChain_tracks (budget : Nat) {fuel : Nat} (chain : Chain ν) (fits : window.Fits text)
    (enough : window.stop - window.pos < fuel) :
    Tracks text window (readChain text vocabulary inner budget fuel chain window)
      (Grammar.readChain vocabulary deeper budget fuel chain (window.cursor text)) := by
  induction fuel generalizing chain window with
  | zero => exact absurd enough (Nat.not_lt_zero _)
  | succ fuel induction =>
      rcases skip_eq fits with ⟨start, skipped, leads, same⟩
      unfold readChain
      rw [skipped, pure_bind, Window.peek_next leads.fits, pure_bind]
      split
      · rename_i next
        simp only [Grammar.readChain, ← same, next]
        exact .done leads
      · rename_i next
        simp only [Grammar.readChain, ← same, next]
        exact .done leads
      · rename_i symbol _ next
        simp only [Grammar.readChain, ← same, next]
        cases Operator.ofSymbol? symbol with
        | none => exact .refused (inside_fault leads.fits _)
        | some operator =>
            rcases bump_next leads.fits next with ⟨bumped, read, advanced⟩
            rw [← advanced]
            apply (readOperand_tracks level (some operator) bumped.fits).bind
            intro read further
            rcases read with ⟨term, stop⟩
            dsimp only [shown] at further ⊢
            have fuelLeft : stop.stop - stop.pos < fuel := by
              have ends := further.stop.trans (bumped.stop.trans leads.stop)
              have starts := leads.pos
              have goesOn := further.pos
              have ordered := further.fits.ordered
              omega
            refine .choice (fun _ => .refused (inside_fault further.fits _)) fun _ => ?_
            exact (induction _ further.fits fuelLeft).behind ((leads.trans bumped).trans further)

theorem readFormula_tracks (budget : Nat) (fits : window.Fits text) :
    Tracks text window (readFormula text vocabulary inner budget window)
      (Grammar.readFormula vocabulary deeper budget (window.cursor text)) := by
  rcases skip_eq fits with ⟨start, skipped, leads, same⟩
  have chained : Tracks text start
      (readOperand text vocabulary inner none start >>= fun read =>
        readChain text vocabulary inner budget (read.2.stop - read.2.pos + 1) (.start read.1)
          read.2)
      (Grammar.readOperand vocabulary deeper none (start.cursor text) >>= fun read =>
        Grammar.readChain vocabulary deeper budget (read.2.rest.length + 1) (.start read.1)
          read.2) := by
    apply (readOperand_tracks level none leads.fits).bind
    intro ⟨term, stop⟩ further
    dsimp only [shown] at further ⊢
    have unread : (stop.cursor text).rest.length = stop.stop - stop.pos :=
      Window.length_rest further.fits
    rw [unread]
    exact (readChain_tracks level budget _ further.fits (Nat.lt_succ_self _)).behind further
  unfold readFormula
  rw [skipped, pure_bind, Window.peek_next leads.fits, pure_bind]
  split
  · rename_i next
    simp only [Grammar.readFormula, ← same, next]
    exact .refused (inside_fault leads.fits _)
  · rename_i next
    simp only [Grammar.readFormula, ← same, next]
    exact .refused (inside_fault leads.fits _)
  · rename_i symbol _ next
    simp only [Grammar.readFormula, ← same, next]
    rcases Operator.ofSymbol? symbol with _ | (_ | _ | _ | _ | _)
    · exact chained.behind leads
    · exact .refused (inside_fault leads.fits _)
    · exact chained.behind leads
    · exact .refused (inside_fault leads.fits _)
    · exact .refused (inside_fault leads.fits _)
    · exact .refused (inside_fault leads.fits _)

omit level in
theorem readComparison_tracks {parse : Window → Guarded (Formula ν × Window)}
    {plain : Cursor → Except Fault (Formula ν × Cursor)}
    (tracks : ∀ window, window.Fits text →
      Tracks text window (parse window) (plain (window.cursor text)))
    (fits : window.Fits text) :
    Tracks text window (readComparison text parse window)
      (Grammar.readComparison plain (window.cursor text)) := by
  rcases skipOperand_eq fits true with ⟨leftStop, leftScanned, toLeft, sameLeft⟩
  rcases readWhile_eq toLeft.fits isComparisonSymbol with
    ⟨right, symbolRead, toRight, -, behindSymbol⟩
  rcases skipOperand_eq toRight.fits false with ⟨rightStop, rightScanned, toEnd, sameRight⟩
  have leftInside := toLeft.fits.pos_le
  have rightInside := toEnd.fits.pos_le
  unfold readComparison Grammar.readComparison
  simp only [leftScanned, slice_eq toLeft.pos leftInside, ← sameLeft, toLeft.upTo, pure_bind]
  refine .choice (fun _ => .refused (inside_fault toLeft.fits _)) fun _ => ?_
  simp only [symbolRead, pure_bind, Window.rest_cursor, ← behindSymbol]
  generalize (leftStop.rest text).takeWhile isComparisonSymbol = symbol
  refine .choice (fun _ => ?alone) fun _ => ?compared
  case alone =>
    cases literal? (trim (part text window.pos leftStop.pos)) with
    | none => exact .refused (inside_fault toLeft.fits _)
    | some value => exact .done toLeft
  cases Comparison.ofSymbol? symbol with
  | none => exact .refused (inside_faultFrom toRight.fits leftInside _)
  | some comparison =>
      simp only [rightScanned, slice_eq toEnd.pos rightInside, ← sameRight, toEnd.upTo, pure_bind,
        Cursor.isBlank]
      refine .choice (fun _ => .refused (inside_fault toEnd.fits _)) fun _ => ?_
      rw [← Window.cursor_bounded toLeft.pos leftInside,
        ← Window.cursor_bounded toEnd.pos rightInside]
      apply (whole_matches tracks (Window.bounded_fits _ _)).bind
      intro left _
      apply (whole_matches tracks (Window.bounded_fits _ _)).bind
      intro right _
      exact .done ((toLeft.trans toRight).trans toEnd)

theorem readConnective_tracks (left : Condition ν) (fits : window.Fits text) :
    Tracks text window (readConnective text vocabulary inner left window)
      (Grammar.readConnective vocabulary deeper left (window.cursor text)) := by
  rcases skip_eq fits with ⟨start, skipped, leads, same⟩
  unfold readConnective
  rw [skipped, pure_bind, Window.peek_next leads.fits, pure_bind]
  split
  · rename_i next
    simp only [Grammar.readConnective, ← same, next]
    exact .done leads
  · rename_i next
    simp only [Grammar.readConnective, ← same, next]
    exact .done leads
  · rename_i symbol _ next
    simp only [Grammar.readConnective, ← same, next]
    cases Connective.ofCharacter? symbol with
    | none => exact .refused (inside_fault leads.fits _)
    | some connective =>
        dsimp only
        rw [Window.peek_second leads.fits, pure_bind]
        refine .choice (fun _ => .refused (inside_fault leads.fits _)) fun doubled => ?_
        rcases bump_second leads.fits next (Decidable.not_not.mp doubled) with ⟨bumped, advanced⟩
        rcases skip_eq bumped.fits with ⟨right, skippedRight, toRight, sameRight⟩
        rw [← advanced, skippedRight, pure_bind, Window.peek_next toRight.fits, pure_bind,
          ← sameRight]
        refine .choice (fun _ => .refused (inside_fault toRight.fits _)) fun _ => ?_
        apply enter_bind level toRight.fits
        intro inner deeper deep
        apply (deep.condition right toRight.fits).bind
        intro read further
        exact .done (((leads.trans bumped).trans toRight).trans further)

omit level in
theorem opensCondition_eq (fits : window.Fits text) {symbol : Char}
    (next : (window.cursor text).next? = some symbol) :
    opensCondition text symbol window =
      pure (symbol = '(' && !Grammar.opensFormula (window.cursor text)) := by
  unfold opensCondition
  split
  · rename_i bracket
    subst bracket
    rcases List.head?_eq_some_iff.mp next with ⟨others, shows⟩
    rw [opensFormula_eq fits shows, pure_bind, decide_eq_true rfl, Bool.true_and]
  · rename_i other
    rw [decide_eq_false other, Bool.false_and]

theorem readCondition_tracks (budget : Nat) (fits : window.Fits text) :
    Tracks text window (readCondition text vocabulary inner budget window)
      (Grammar.readCondition vocabulary deeper (Grammar.readFormula vocabulary deeper budget)
        (window.cursor text)) := by
  rcases skip_eq fits with ⟨start, skipped, leads, same⟩
  have connected {guarded : Guarded (Condition ν × Window)}
      {plain : Except Fault (Condition ν × Cursor)} (tracks : Tracks text start guarded plain) :
      Tracks text window
        (guarded >>= fun read => readConnective text vocabulary inner read.1 read.2)
        (plain >>= fun read => Grammar.readConnective vocabulary deeper read.1 read.2) := by
    apply tracks.bind
    intro ⟨left, stop⟩ further
    exact (readConnective_tracks level left further.fits).behind (leads.trans further)
  have compared : Tracks text start
      (readComparison text (readFormula text vocabulary inner budget) start)
      (Grammar.readComparison (Grammar.readFormula vocabulary deeper budget)
        (start.cursor text)) :=
    readComparison_tracks (fun _ fits => readFormula_tracks level budget fits) leads.fits
  unfold readCondition
  rw [skipped, pure_bind, Window.peek_next leads.fits, pure_bind]
  split
  · rename_i next
    simp only [Grammar.readCondition, ← same, next]
    exact .refused (inside_fault leads.fits _)
  · rename_i next
    simp only [Grammar.readCondition, ← same, next]
    exact .refused (inside_fault leads.fits _)
  · rename_i symbol _ next
    simp only [Grammar.readCondition, ← same, next]
    refine .choice (fun _ => .refused (inside_fault leads.fits _)) fun _ => ?_
    rw [opensCondition_eq leads.fits next, pure_bind]
    exact .choice
      (fun isGroup => connected (readGroup_tracks level (fun _ _ deep => deep.condition) leads.fits
        (by simp only [Bool.and_eq_true, decide_eq_true_eq] at isGroup; rw [next, isGroup.1])))
      fun _ => connected compared

end Level

section Whole

variable (text) (vocabulary : Vocabulary ν)

theorem levels_track (budget : Nat) :
    LevelTracks text (levels text vocabulary budget) (Grammar.levels vocabulary budget) := by
  induction budget with
  | zero => exact .last
  | succ budget induction =>
      refine .inner ⟨fun window fits => ?_, fun window fits => ?_⟩
      · rw [formula_eq]
        exact readFormula_tracks induction budget fits
      · rw [condition_eq, formula_eq]
        exact readCondition_tracks induction budget fits

variable {text}

theorem wholeFormula_matches (fits : window.Fits text) :
    Matches text (wholeFormula text vocabulary window)
      (Grammar.wholeFormula vocabulary (window.cursor text)) := by
  refine whole_matches (fun window fits => ?_) fits
  rw [formula_eq]
  exact readFormula_tracks (levels_track text vocabulary _) _ fits

theorem wholeCondition_matches (fits : window.Fits text) :
    Matches text (wholeCondition text vocabulary window)
      (Grammar.wholeCondition vocabulary (window.cursor text)) := by
  refine whole_matches (fun window fits => ?_) fits
  rw [condition_eq, formula_eq]
  exact readCondition_tracks (levels_track text vocabulary _) _ fits

end Whole

/-! ### Statements -/

theorem readUpdate_tracks (name : List Char) {start : Nat} (inside : start ≤ text.length)
    (fits : window.Fits text) :
    Tracks text window (readUpdate text name start window)
      (Grammar.readUpdate name start (window.cursor text)) := by
  unfold readUpdate
  rw [Window.peek_next fits, pure_bind]
  cases next : (window.cursor text).next? with
  | none =>
      simp only [Grammar.readUpdate, next]
      exact .refused (inside_faultFrom fits inside _)
  | some symbol =>
      simp only [Grammar.readUpdate, next]
      rcases bump_next fits next with ⟨bumped, -, advanced⟩
      refine .choice (fun _ => .refused (inside_faultFrom fits inside _)) fun _ => ?_
      refine .choice (fun _ => advanced ▸ .done bumped) fun _ => ?_
      cases Update.compound? symbol with
      | none => exact .refused (inside_fault fits _)
      | some update =>
          dsimp only
          rw [Window.peek_second fits, pure_bind]
          refine .choice (fun assigns => ?_) fun _ => .refused (inside_fault fits _)
          rcases bump_second fits next assigns with ⟨further, behind⟩
          exact behind ▸ .done further

section Statements

variable (vocabulary : Vocabulary ν)

theorem readReturn_tracks (fits : window.Fits text)
    (next : (window.cursor text).next? = some '(') :
    Tracks text window (readReturn text vocabulary window)
      (Grammar.readReturn vocabulary (window.cursor text)) := by
  rcases List.head?_eq_some_iff.mp next with ⟨others, shows⟩
  unfold readReturn Grammar.readReturn
  apply (readArguments_follows fits shows _).bind
  intro ⟨arguments, stop⟩ ⟨allFit, leads⟩
  have wrong (cause : Cause) : (stop.here.faultFrom window.pos cause).Inside text :=
    inside_faultFrom leads.fits fits.pos_le cause
  dsimp only [shownArguments]
  rw [List.length_map]
  rcases arguments with _ | ⟨first, _ | ⟨second, _ | ⟨_, _⟩⟩⟩
  · exact .refused (wrong _)
  · apply (wholeFormula_matches vocabulary (List.forall_mem_cons.mp allFit).1).bind
    intro value _
    exact .done leads
  · simp only [List.forall_mem_cons] at allFit
    apply (wholeCondition_matches vocabulary allFit.1).bind
    intro test _
    apply (wholeFormula_matches vocabulary allFit.2.1).bind
    intro value _
    exact .done leads
  · exact .refused (wrong _)

/-- A statement takes at least one character. -/
theorem readStep_follows (allowReturn : Bool) (fits : window.Fits text) :
    Follows text (fun read => window.Leads text read.2 ∧ window.pos < read.2.pos) (shown text)
      (readStep text vocabulary allowReturn window)
      (Grammar.readStep vocabulary allowReturn (window.cursor text)) := by
  rcases readWhile_eq fits fun character => !endsName vocabulary.stepSeparator character with
    ⟨behind, nameRead, toName, count, behindName⟩
  rcases skip_eq toName.fits with ⟨afterName, skipped, toUpdate, sameName⟩
  have leads := toName.trans toUpdate
  have inside := fits.pos_le
  unfold readStep Grammar.readStep
  rw [nameRead, pure_bind]
  dsimp only
  rw [skipped, pure_bind, Window.peek_next toUpdate.fits, pure_bind, Window.rest_cursor,
    ← behindName, ← sameName]
  generalize (window.rest text).takeWhile _ = name at count
  -- what starts with a name goes on behind it
  have further {stop : Window} (named : name ≠ []) (later : afterName.Leads text stop) :
      window.Leads text stop ∧ window.pos < stop.pos := by
    have characters := List.length_pos_iff.mpr named
    have goesOn := (toUpdate.trans later).pos
    exact ⟨leads.trans later, by omega⟩
  refine .choice (fun returns => ?_) fun _ => ?_
  · simp only [Bool.and_eq_true, decide_eq_true_eq] at returns
    have named : name ≠ [] := by
      rintro rfl
      cases returns.1.2
    exact Ends.weaken (readReturn_tracks vocabulary toUpdate.fits returns.2) fun _ holds =>
      ⟨holds.1, further named holds.2⟩
  · apply (readUpdate_tracks name inside toUpdate.fits).bind
    intro ⟨update, afterUpdate⟩ updated
    dsimp only [shown] at updated ⊢
    refine .choice (fun _ => .refused (inside_faultFrom updated.fits inside _)) fun named => ?_
    apply (resolve_matches updated.fits name inside).bind
    intro target _
    rcases skip_eq updated.fits with ⟨start, skippedBlanks, toValue, sameStart⟩
    rw [skippedBlanks, pure_bind, ← sameStart]
    apply (readExtent_follows toValue.fits _ _).bind
    intro ⟨extent, stop⟩ ⟨extentFits, toStop⟩
    simp only [shownExtent, Window.rest_cursor, extentFits.isEmpty_rest, decide_eq_true_eq]
    refine .choice (fun _ => .refused (inside_fault toStop.fits _)) fun _ => ?_
    apply (wholeFormula_matches vocabulary extentFits).bind
    intro value _
    have isNamed : name ≠ [] := fun empty => named (List.isEmpty_iff.mpr empty)
    exact .done (further isNamed ((updated.trans toValue).trans toStop))

/-- Every statement takes a character, so the fuel does not run out. -/
theorem readSteps_tracks (allowReturn : Bool) {fuel : Nat} (fits : window.Fits text)
    (enough : window.stop - window.pos < fuel) :
    Tracks text window (readSteps text vocabulary allowReturn fuel window)
      (Grammar.readSteps vocabulary allowReturn fuel (window.cursor text)) := by
  induction fuel generalizing window with
  | zero => exact absurd enough (Nat.not_lt_zero _)
  | succ fuel induction =>
      rcases skipSeparators_eq fits vocabulary.stepSeparator with ⟨start, skipped, leads, same⟩
      unfold readSteps Grammar.readSteps
      rw [skipped, pure_bind, ← same]
      simp only [Window.rest_cursor, leads.fits.isEmpty_rest, decide_eq_true_eq]
      refine .choice (fun _ => .done leads) fun _ => ?_
      apply (readStep_follows vocabulary allowReturn leads.fits).bind
      intro ⟨step, stop⟩ ⟨further, taken⟩
      have fuelLeft : stop.stop - stop.pos < fuel := by
        have ends := further.stop.trans leads.stop
        have starts := leads.pos
        have ordered := further.fits.ordered
        dsimp only at taken ends ordered
        omega
      apply (induction further.fits fuelLeft).bind
      intro ⟨steps, last⟩ behind
      exact .done ((leads.trans further).trans behind)

end Statements

/-! ### Whole texts -/

section Texts

variable (text) (vocabulary : Vocabulary ν)

theorem readSteps_full (allowReturn : Bool) :
    Tracks text (.full text) (readSteps text vocabulary allowReturn (text.length + 1) (.full text))
      (Grammar.readSteps vocabulary allowReturn (text.length + 1) (.start text)) := by
  have enough : (Window.full text).stop - (Window.full text).pos < text.length + 1 := by
    rw [Window.full_eq]
    exact Nat.lt_succ_self _
  rw [← Window.cursor_full]
  exact readSteps_tracks vocabulary allowReturn (Window.full_fits text) enough

theorem wholeOperations_matches :
    Matches text (wholeOperations text vocabulary) (Grammar.wholeOperations vocabulary text) := by
  apply (readSteps_full text vocabulary false).bind
  intro ⟨steps, stop⟩ leads
  exact .choice (fun _ => .refused (inside_fault leads.fits _)) fun _ => .done trivial

theorem wholeProcess_matches :
    Matches text (wholeProcess text vocabulary) (Grammar.wholeProcess vocabulary text) := by
  apply (readSteps_full text vocabulary true).bind
  intro ⟨steps, stop⟩ leads
  exact .choice (fun _ => .refused (inside_fault leads.fits _)) fun _ => .done trivial

end Texts

end Guarded

end NumericRules.Grammar
