import NumericRules.Proofs.Grammar.ReturnedFormula
import NumericRules.Proofs.ProcessRefinement
import NumericRules.Proofs.StandingValues
import NumericRules.Proofs.Tracing

/-! # Formulas as processes

A process that returns a formula works on slots, which it loads with the values of the names
that the formula mentions. So it returns the value of the formula, but not below 0. This
supposes that the functions of the formula do not ask their scope for registered names, for
in a process the answer is the value of some slot.
-/

namespace NumericRules

/-! ## Runs with standing values -/

namespace Run

/-- Neither the value arrays of processes nor the log matter to the property. -/
structure Aside (holds : World σ → Prop) : Prop where
  pads : ∀ {world}, holds world → ∀ pads, holds { world with pads }
  log : ∀ {world}, holds world → ∀ log, holds { world with log }

variable {holds : World σ → Prop}

/-- What has a value with a store has it standing while the store is so. -/
theorem Fixed.gives {store : Store σ} {run : Run σ α} {value : α} (fixed : run.Fixed store value) :
    run.Gives (fun world => world.store = store) value :=
  fun world same => ⟨world, fixed world same, same⟩

/-- A first run that ends with some value or other comes before one with a standing value. -/
theorem Gives.after {first : Run σ α} {next : α → Run σ β} {result : β}
    (ends : ∀ world, holds world → ∃ value between, first world = some (value, between) ∧
      holds between)
    (ofNext : ∀ value, (next value).Gives holds result) : (first >>= next).Gives holds result := by
  intro world held
  rcases ends world held with ⟨value, between, ran, kept⟩
  rw [bind_apply, ran]
  exact ofNext value between kept

end Run

/-! ## A process of one return -/

namespace ProcessRule

section Return

variable {holds : World σ → Prop} (aside : Run.Aside holds) {functions : FunctionTable σ}

include aside

/-- A return without a condition writes the value and ends the process. -/
theorem executeTaken_return {values : SlotValues} {formula : Formula Slot} {result : Binary64}
    (evaluates : (formula.evaluate functions values.scope).Gives holds result) (traced : Bool)
    (number : Nat) :
    (executeTaken functions traced number values [.return none formula]).Gives holds
      ([.return none formula], values.update resultSlot.number .set result) := by
  rw [executeTaken_cons]
  have traces : (if traced then traceStep number values (.return none formula)
      else pure () : Run σ Unit).Gives holds () := by
    cases traced with
    | false => exact .pure ()
    | true =>
        intro world held
        rcases traceStep_run number values (.return none formula) world with ⟨entry, ran⟩
        exact ⟨_, ran, aside.log held _⟩
  have body : (Step.return none formula).execute functions values =
      formula.evaluate functions values.scope >>= fun result =>
        pure (values.update resultSlot.number .set result, true) := by
    simp [Step.execute]
  have executes : ((Step.return none formula).execute functions values).Gives holds
      (values.update resultSlot.number .set result, true) := by
    rw [body]
    exact evaluates.bind (.pure _)
  exact traces.bind (executes.bind (.pure _))

theorem compute_return {read : Identifier → Run σ Binary64} {value : Identifier → Binary64}
    {process : ProcessRule} {formula : Formula Slot}
    (steps : process.steps = [.return none formula])
    (reads : ∀ slot ∈ process.slots, ∀ id, slot.global? = some id →
      (read id).Gives holds (value id))
    {result : Binary64}
    (evaluates : (formula.evaluate functions (SlotValues.ofSlots value process.slots).scope).Gives
      holds result) (traced : Bool) :
    let loaded := SlotValues.ofSlots value process.slots
    (process.compute functions read traced).Gives holds
      ⟨loaded, process.steps, loaded.update resultSlot.number .set result⟩ := by
  have takes (world : World σ) (held : holds world) : ∃ pad between,
      takePad process world = some (pad, between) ∧ holds between := by
    rcases takePad_run process world with ⟨pad, pads, ran⟩
    exact ⟨pad, _, ran, aside.pads held pads⟩
  refine .after takes fun pad => ?_
  have loads : (load read ((pad.getD #[]).take 0) process.slots).Gives holds
      (SlotValues.ofSlots value process.slots) := by
    have loading : (Run.Valuation.standing holds).has (load read #[] process.slots)
        (#[] ++ SlotValues.ofSlots value process.slots) := load_value reads #[]
    have emptied : (pad.getD #[]).take 0 = #[] := by simp
    rw [Array.empty_append] at loading
    rw [emptied]
    exact loading
  have executes := executeTaken_return aside evaluates traced 1
  rw [← steps] at executes
  refine loads.bind (executes.bind ?_)
  cases pad with
  | none => exact .pure _
  | some _ => exact fun world held => ⟨_, rfl, aside.pads held _⟩

end Return

/-- The names whose slots are loaded with what is not a number. It differs from itself. -/
def rewritten (value : Identifier → Binary64) (process : ProcessRule) :
    List (Identifier × Binary64) :=
  process.slots.filterMap fun slot => slot.global?.bind fun id =>
    if (value id).isNotANumber then some (id, value id) else none

/-- A process that only writes its result changes no other slot. -/
theorem changes_of_result {registry : Registry σ} {process : ProcessRule}
    (bound : process.BoundTo registry) (value : Identifier → Binary64) (result : Binary64) :
    let loaded := SlotValues.ofSlots value process.slots
    process.changes loaded (loaded.update resultSlot.number .set result) =
      process.rewritten value := by
  intro loaded
  have places : process.rewritten value = process.slots.zipIdx.filterMap fun entry =>
      entry.1.global?.bind fun id =>
        if (value id).isNotANumber then some (id, value id) else none := by
    conv_lhs => rw [rewritten, ← List.zipIdx_map_fst 0 process.slots, List.filterMap_map]
    rfl
  rw [places, changes]
  apply List.filterMap_congr
  rintro ⟨slot, place⟩ inside
  have found : process.slots[place]? = some slot := List.mem_zipIdx_iff_getElem?.mp inside
  cases global : slot.global? with
  | none =>
      simp only [global]
      rfl
  | some id =>
      have behind : place + 1 ≠ resultSlot.number :=
        fun first => (bound.pos_of_global found global).ne' (Nat.succ.inj first)
      have kept : (loaded.update resultSlot.number .set result).value (place + 1) = value id := by
        rw [SlotValues.value_update_other loaded (by decide) (Nat.succ_pos place) behind,
          SlotValues.value_ofSlots value found, LocalSlot.value, global]
        rfl
      have before : loaded.value (place + 1) = value id := by
        rw [SlotValues.value_ofSlots value found, LocalSlot.value, global]
        rfl
      simp only [global, kept, before, Binary64.bne_self, Option.bind_some]

/-! ## The slots of the process -/

section Returning

variable (id : RuleId) (separator : Char) (identifier? : String → Option Identifier)
  (formula : Formula Reference)

/-- The process that returns a formula. -/
def returning : ProcessRule :=
  ofSteps id separator identifier? [.return none (formula.map Reference.name)]

/-- The names of its slots. -/
def returningNames : List String := slotNames [.return none (formula.map Reference.name)]

variable {formula}

theorem mem_returningNames {name : String} :
    name ∈ returningNames formula ↔
      name = resultName ∨ ∃ reference ∈ formula.references, reference.name = name := by
  simp [returningNames, slotNames, mem_firstOccurrences, Step.mentions, Formula.references_map]

variable {identifier?}
  (resolved : ∀ reference ∈ formula.references, identifier? reference.name = some reference.id)

include resolved

/-- Slots stand for the names that the formula mentions. -/
theorem mentioned_of_returning {slot : LocalSlot}
    (inside : slot ∈ (returning id separator identifier? formula).slots) {global : Identifier}
    (stands : slot.global? = some global) :
    ∃ reference ∈ formula.references, reference.id = global :=
  mentioned_of_global (fun _ known => mem_returningNames.mp known) resolved inside stands

/-- The slot of a name is loaded with the value of the name. -/
theorem value_of_returning (value : Identifier → Binary64) {reference : Reference}
    (mentioned : reference ∈ formula.references) (notResult : reference.name ≠ resultName) :
    (SlotValues.ofSlots value (returning id separator identifier? formula).slots).value
      (slotOf (returningNames formula) reference.name).number = value reference.id := by
  have known : reference.name ∈ returningNames formula :=
    mem_returningNames.mpr (.inr ⟨reference, mentioned, rfl⟩)
  have found : (returning id separator identifier? formula).slots[
      (returningNames formula).idxOf reference.name]? = some ⟨reference.name, some reference.id⟩ :=
    getElem?_localSlot known notResult (resolved reference mentioned)
  exact SlotValues.value_ofSlots value found

end Returning

end ProcessRule

/-! ## Accepted formulas -/

namespace Engine

open Grammar

/-- While a property of the state holds, the names of a formula have standing values, and so
has whatever else its functions may ask their scope for. Where a scope has these values, calls
have the answers for the values of their arguments. -/
structure Determines (engine : Engine σ) (responder : Responder σ) (holds : World σ → Prop)
    (formula : Formula Reference) (value : Identifier → Binary64) (asked : Identifier → Prop)
    (answers : String → List Binary64 → Binary64) : Prop where
  aside : Run.Aside holds
  names : ∀ reference ∈ formula.references,
    (responder.read reference.id).Gives holds (value reference.id)
  asks : ∀ id, asked id → (responder.read id).Gives holds (value id)
  calls : ∀ identifier : Identifier → Run σ Binary64,
    (∀ id, asked id → (identifier id).Gives holds (value id)) →
    formula.Meets (.answered (.standing holds) engine.functions identifier answers)

section Determined

variable {engine : Engine σ} {responder : Responder σ} {holds : World σ → Prop}
  {formula : Formula Reference} {value : Identifier → Binary64} {asked : Identifier → Prop}
  {answers : String → List Binary64 → Binary64}
  (determined : engine.Determines responder holds formula value asked answers)

include determined

theorem Determines.evaluate : (responder.evaluate engine formula).Gives holds
    (formula.value answers fun reference => value reference.id) :=
  formula.evaluate_value (determined.calls _ determined.asks) determined.names

open ProcessRule

/-- The process writes back what is not a number, and returns the value of the formula. -/
theorem Determines.runProcess (id : RuleId) (separator : Char)
    (resolved : ∀ reference ∈ formula.references,
      engine.registry.identifier? reference.name = some reference.id)
    (notResult : ∀ reference ∈ formula.references, reference.name ≠ resultName)
    (agree : let process := returning id separator engine.registry.identifier? formula
      ∀ id, asked id → (SlotValues.ofSlots value process.slots).value id.raw = value id)
    (traced : Bool) {world : World σ} (held : holds world) :
    let process := returning id separator engine.registry.identifier? formula
    let result := formula.value answers fun reference => value reference.id
    ∃ between, holds between ∧ responder.runProcess engine process traced world =
      (responder.writeAll (process.rewritten value) >>= fun _ =>
        pure (({} : Bounds).clamp result)) between := by
  intro process result
  let loaded := SlotValues.ofSlots value process.slots
  let inner := (formula.map Reference.name).map (slotOf (returningNames formula))
  have bound : process.BoundTo engine.registry := ⟨_, _, _, rfl⟩
  have steps : process.steps = [.return none inner] := rfl
  have reads (slot : LocalSlot) (inside : slot ∈ process.slots) (global : Identifier)
      (stands : slot.global? = some global) :
      (responder.read global).Gives holds (value global) := by
    rcases mentioned_of_returning id separator resolved inside stands with
      ⟨reference, mentioned, rfl⟩
    exact determined.names reference mentioned
  have evaluates : (inner.evaluate engine.functions loaded.scope).Gives holds result := by
    rw [Formula.evaluate_map, Formula.evaluate_map]
    refine formula.evaluate_value (determined.calls _ fun id isAsked => ?_)
      fun reference inside => ?_
    · change Run.Gives holds (pure (loaded.value id.raw)) (value id)
      rw [agree id isAsked]
      exact .pure _
    · change Run.Gives holds (pure (loaded.value _)) (value reference.id)
      rw [value_of_returning id separator resolved value inside (notResult reference inside)]
      exact .pure _
  have computes := compute_return determined.aside steps reads evaluates traced
  rcases computes world held with ⟨between, ran, kept⟩
  refine ⟨between, kept, ?_⟩
  rw [runProcess_eq, Run.bind_apply, ran]
  dsimp only
  rw [Computation.saved, changes_of_result bound]
  have filled : 0 < (returningNames formula).length :=
    List.length_pos_of_mem (mem_returningNames.mpr (.inl rfl))
  have size : loaded.size = (returningNames formula).length := by
    simp [loaded, SlotValues.ofSlots, process, returning, ofSteps, returningNames]
  have inRange : resultSlot.number ≤ loaded.size := filled.trans_eq size.symm
  have written : (loaded.update resultSlot.number .set result).value resultSlot.number =
      ({} : Bounds).clamp result :=
    SlotValues.value_update_self loaded Nat.one_pos inRange .set result
  rw [written]

end Determined

/-- Functions with plans that make their answers from values, some of names, leave nothing
to chance. -/
theorem Determines.of_made {engine : Engine σ} {responder : Responder σ}
    {holds : World σ → Prop} {formula : Formula Reference} {value : Identifier → Binary64}
    {asked : Identifier → Prop} {answers : String → List Binary64 → Binary64}
    (aside : Run.Aside holds)
    (names : ∀ reference ∈ formula.references,
      (responder.read reference.id).Gives holds (value reference.id))
    (asks : ∀ id, asked id → (responder.read id).Gives holds (value id))
    (made : formula.Meets (.made engine.functions asked value answers)) :
    engine.Determines responder holds formula value asked answers where
  aside := aside
  names := names
  asks := asks
  calls _ asks :=
    formula.meets_of_imply (Demands.made_imply asks engine.functions answers) made made

open ProcessRule

/-- An accepted formula in the brackets of a return is accepted as a process, and returns its
value, but not below 0, if every slot that a called function reads by the raw number of a
registered name holds the value of the name. Of the names it writes back only those that are
not numbers. -/
theorem parseProcess_return {engine : Engine σ}
    (separate : isSeparate engine.settings.argumentSeparator = true)
    (letters : engine.settings.stepSeparator ∉ returnWord)
    (functions : engine.functions.Reachable) {text : String} {start next : World σ}
    {rule : FormulaRule} (accepted : engine.parseFormula text start = some (.ok rule, next))
    (commentless : ¬ ['/', '/'] <:+: text.toList)
    (notResult : ∀ reference ∈ rule.root.references, reference.name ≠ resultName)
    (fits : ("Return(" ++ text ++ ")").utf8ByteSize ≤ engine.settings.maxSourceBytes)
    (world : World σ) :
    ∃ process after,
      engine.parseProcess ("Return(" ++ text ++ ")") world = some (.ok process, after) ∧
      ∀ {responder : Responder σ} {holds : World σ → Prop} {value : Identifier → Binary64}
        {asked : Identifier → Prop} {answers : String → List Binary64 → Binary64},
        engine.Determines responder holds rule.root value asked answers →
        let result := rule.root.value answers fun reference => value reference.id
        let retained := if result < 0 then 0 else result
        (responder.evaluate engine rule.root).Gives holds result ∧
        ((∀ id, asked id → (SlotValues.ofSlots value process.slots).value id.raw = value id) →
          ∀ traced,
            (∀ world, holds world → ∃ between, holds between ∧
              responder.runProcess engine process traced world =
                (responder.writeAll (process.rewritten value) >>= fun _ => pure retained)
                  between) ∧
            ((∀ reference ∈ rule.root.references,
                (value reference.id).isNotANumber = false) →
              (responder.runProcess engine process traced).Gives holds retained)) := by
  rcases ok_of_numbered accepted with ⟨root, read, rfl⟩
  have resolved := identifier?_of_readFormula functions read
  let process := returning ⟨world.readings⟩ engine.settings.stepSeparator
    engine.registry.identifier? root
  have isReturn : ("Return(" ++ text ++ ")").toList = returnWord ++ bracketed text.toList := by
    simp [returnWord, bracketed]
  have steps : engine.readSteps ("Return(" ++ text ++ ")") =
      .ok [.return none (root.map Reference.name)] := by
    rw [readSteps, readText_eq_ok fits, isReturn]
    exact wholeProcess_return engine.vocabulary_extends separate (parse_of_readText read) letters
      commentless
  have parsed : ∃ after, engine.parseProcess ("Return(" ++ text ++ ")") world =
      some (.ok process, after) := by
    rw [parseProcess, steps]
    exact ⟨_, rfl⟩
  rcases parsed with ⟨after, parsed⟩
  refine ⟨process, after, parsed, ?_⟩
  intro responder holds value asked answers determined result retained
  refine ⟨determined.evaluate, fun agree traced => ?_⟩
  have runs (world : World σ) (held : holds world) : ∃ between, holds between ∧
      responder.runProcess engine process traced world =
        (responder.writeAll (process.rewritten value) >>= fun _ => pure retained) between := by
    rcases determined.runProcess ⟨_⟩ engine.settings.stepSeparator resolved notResult agree
      traced held with ⟨between, kept, ran⟩
    rw [Bounds.clamp_default] at ran
    exact ⟨between, kept, ran⟩
  refine ⟨runs, fun numbers world held => ?_⟩
  have nothing : process.rewritten value = [] := by
    apply List.filterMap_eq_nil_iff.mpr
    intro slot inside
    cases stands : slot.global? with
    | none => rfl
    | some id =>
        rcases mentioned_of_returning _ _ resolved inside stands with ⟨reference, mentioned, rfl⟩
        simp [numbers reference mentioned]
  rcases runs world held with ⟨between, kept, ran⟩
  rw [nothing] at ran
  exact ⟨between, ran, kept⟩

end Engine

/-! ### A function that reads a name -/

namespace Scaling

def x : NameRecord Nat := { id := ⟨0x1000001, Nat.one_ne_zero⟩, name := "x" }

def y : NameRecord Nat := { id := ⟨0x1000002, Nat.succ_ne_zero 1⟩, name := "y" }

/-- The argument times `y`. -/
def scaled : Plan Nat :=
  .argument 0 fun argument => .read y.id fun scale => .answer (argument * scale)

/-- An engine that knows these names and the function. -/
def engine : Engine Nat where
  registry := .ofRequests
    [.addName "stat" "x" 0 .temporary {}, .addName "stat" "y" 0 .temporary {}]
  functions := ⟨Function.builtins.entries ++ [("Scaled", .native [(1, scaled)])]⟩
  settings := {}

def start : World Nat := engine.start 0 ⟨fun _ => 0, 0⟩

/-- A store where `x` is 5 and `y` is 3. -/
def store : Store Nat := (start.store.written x .set 5).written y .set 3

theorem ordinary_x : x.Ordinary := ⟨rfl, by decide, .inr (by decide), rfl, rfl⟩

theorem ordinary_y : y.Ordinary := ⟨rfl, by decide, .inr (by decide), rfl, rfl⟩

theorem sound_store : store.Sound engine.registry :=
  ((Store.Sound.new engine.registry none).written rfl ordinary_x .set 5).written rfl ordinary_y
    .set 3

theorem reachable_functions : engine.functions.Reachable := by
  have registered : Function.builtins.register "Scaled" 1 scaled = .ok engine.functions := rfl
  exact .register .builtins registered

def answers : String → List Binary64 → Binary64
  | "Scaled", [argument] => argument * store.valueOf y.id
  | "Max", [first, second] => Function.maximum first second
  | _, _ => 0

/-- Functions may read `y` and have these answers. -/
abbrev functioning : Demands Reference :=
  .made engine.functions (· = y.id) store.valueOf answers

theorem functioning_scaled : functioning.call "Scaled" 1 := by
  refine ⟨scaled, rfl, fun values count => ?_⟩
  rcases List.length_eq_one_iff.mp count with ⟨argument, rfl⟩
  exact .argument (.read rfl (.answer _))

theorem functioning_max : functioning.call "Max" 2 := by
  refine ⟨.binary Function.maximum, rfl, fun values count => ?_⟩
  rcases List.length_eq_two.mp count with ⟨first, second, rfl⟩
  exact .argument (.argument (.answer _))

theorem reads {id : Identifier} (known : id = x.id ∨ id = y.id) :
    ((engine.respond 1).read id).Gives (fun world => world.store = store) (store.valueOf id) := by
  have hookless : engine.Hookless id := by
    right
    intro record found
    rcases known with rfl | rfl
    · have registered : engine.registry.record? x.id = some x := rfl
      exact Option.some.inj (registered.symm.trans found) ▸ rfl
    · have registered : engine.registry.record? y.id = some y := rfl
      exact Option.some.inj (registered.symm.trans found) ▸ rfl
  exact (engine.read_fixed sound_store hookless 0).gives

theorem determines {formula : Formula Reference}
    (known : ∀ reference ∈ formula.references, reference.id = x.id ∨ reference.id = y.id)
    (meets : formula.Meets functioning) :
    engine.Determines (engine.respond 1) (fun world => world.store = store) formula store.valueOf
      (· = y.id) answers :=
  .of_made ⟨fun same _ => same, fun same _ => same⟩
    (fun reference mentioned => reads (known reference mentioned))
    (fun _ isY => reads (.inr isY)) meets

end Scaling

namespace Engine

open Grammar ProcessRule

open Scaling in
/-- In the process `y` is the second name. -/
theorem parseProcess_return_scaled :
    isSeparate Scaling.engine.settings.argumentSeparator = true ∧
    Scaling.engine.settings.stepSeparator ∉ returnWord ∧
    Scaling.engine.functions.Reachable ∧
    ∃ rule next,
      Scaling.engine.parseFormula "Max(Scaled(y),x)" Scaling.start = some (.ok rule, next) ∧
      Scaling.engine.Determines (Scaling.engine.respond 1) (fun world => world.store = store)
        rule.root store.valueOf (· = y.id) answers ∧
      ∃ process after,
        Scaling.engine.parseProcess "Return(Max(Scaled(y),x))" Scaling.start =
          some (.ok process, after) ∧
        ((Scaling.engine.respond 1).evaluate Scaling.engine rule.root).Gives
          (fun world => world.store = store) 9 ∧
        ((Scaling.engine.respond 1).runProcess Scaling.engine process true).Gives
          (fun world => world.store = store) 9 := by
  let formula : Formula Reference :=
    .call "Max" [.call "Scaled" [.name ⟨y.id, "y"⟩], .name ⟨x.id, "x"⟩]
  have separate : isSeparate Scaling.engine.settings.argumentSeparator = true := by decide
  have letters : Scaling.engine.settings.stepSeparator ∉ returnWord := by decide
  have accepted : ∃ next, Scaling.engine.parseFormula "Max(Scaled(y),x)" Scaling.start =
      some (.ok ⟨⟨0⟩, formula⟩, next) := ⟨_, rfl⟩
  have mentions : formula.references = [⟨y.id, "y"⟩, ⟨x.id, "x"⟩] := rfl
  have determined : Scaling.engine.Determines (Scaling.engine.respond 1)
      (fun world => world.store = store) formula store.valueOf (· = y.id) answers :=
    determines (by simp [mentions])
      ⟨functioning_max, ⟨functioning_scaled, trivial, trivial⟩, trivial, trivial⟩
  rcases accepted with ⟨next, accepted⟩
  rcases parseProcess_return separate letters reachable_functions accepted (by decide)
    (by simp [mentions, resultName]) (by decide) Scaling.start with
    ⟨process, after, parsed, returns⟩
  rcases returns determined with ⟨evaluates, runs⟩
  have isProcess : ∃ after, Scaling.engine.parseProcess "Return(Max(Scaled(y),x))" Scaling.start =
      some (.ok (returning ⟨0⟩ ' ' Scaling.engine.registry.identifier? formula), after) := ⟨_, rfl⟩
  rcases isProcess with ⟨_, isProcess⟩
  cases parsed.symm.trans isProcess
  have agree (id : Identifier) (isY : id = y.id) : (SlotValues.ofSlots store.valueOf
      (returning ⟨0⟩ ' ' Scaling.engine.registry.identifier? formula).slots).value id.raw =
        store.valueOf id := by
    rw [isY]
    rfl
  have result : formula.value answers (fun reference => store.valueOf reference.id) = 9 := by
    decide +kernel
  have numbers : ∀ reference ∈ formula.references,
      (store.valueOf reference.id).isNotANumber = false := by
    rw [mentions]
    exact List.forall_mem_cons.mpr ⟨rfl, List.forall_mem_singleton.mpr rfl⟩
  have returned := (runs agree true).2 numbers
  have notBelow : ¬ (9 : Binary64) < 0 := by decide +kernel
  rw [result] at evaluates returned
  rw [if_neg notBelow] at returned
  exact ⟨separate, letters, reachable_functions, _, next, accepted, determined, _, _, isProcess,
    evaluates, returned⟩

/-- What a formula evaluates to, and what the process that returns it returns. -/
def bothValues (engine : Engine σ) (text : String) (world : World σ) :
    Option (Binary64 × Binary64) :=
  match engine.parseFormula text world, engine.parseProcess ("Return(" ++ text ++ ")") world with
  | some (.ok rule, _), some (.ok process, _) => do
      let (value, _) ← (engine.respond 1).evaluate engine rule.root world
      let (result, _) ← (engine.respond 1).runProcess engine process false world
      pure (value, result)
  | _, _ => none

open Scaling in
/-- In the process `x` is the second name, so the function multiplies by `x`. -/
theorem scope_misread :
    (∃ next, Scaling.engine.parseFormula "Scaled(x)" Scaling.start =
      some (.ok ⟨⟨0⟩, .call "Scaled" [.name ⟨x.id, "x"⟩]⟩, next)) ∧
    Scaling.engine.Determines (Scaling.engine.respond 1) (fun world => world.store = store)
      (.call "Scaled" [.name ⟨x.id, "x"⟩]) store.valueOf (· = y.id) answers ∧
    Scaling.engine.bothValues "Scaled(x)" { Scaling.start with store } = some (15, 25) := by
  refine ⟨⟨_, rfl⟩, determines ?_ ⟨functioning_scaled, trivial, trivial⟩, by decide +kernel⟩
  intro reference mentioned
  cases List.mem_singleton.mp mentioned
  exact .inl rfl

end Engine

end NumericRules
