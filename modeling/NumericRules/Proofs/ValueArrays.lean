import NumericRules.Proofs.ConditionChanges
import NumericRules.Proofs.Unseen

/-! # Value arrays

All runs of a process have one value array, whichever store they work on, and a run that
finds the array in use by another one gets an array of its own. Neither this nor tracing
shows in what a run writes and answers: that is settled by the values its slots are
loaded with.
-/

namespace NumericRules

open Run (Coupled)
open World (SeenAlike)

/-! ## Runs that always have one value -/

/-- Wherever it starts, the run ends with the value. -/
def Run.Always (run : Run σ α) (value : α) : Prop :=
  ∀ world, ∃ after, run world = some (value, after)

namespace Run.Always

theorem pure (value : α) : Run.Always (pure value : Run σ α) value := fun world => ⟨world, rfl⟩

theorem bind {first : Run σ α} {next : α → Run σ β} {value : α} {result : β}
    (ofFirst : first.Always value) (ofNext : (next value).Always result) :
    (first >>= next).Always result := by
  intro world
  rcases ofFirst world with ⟨between, ran⟩
  rcases ofNext between with ⟨after, further⟩
  exact ⟨after, by rw [bind_apply, ran]; exact further⟩

end Run.Always

/-- Having one value wherever it starts is kept by sequences. -/
def Run.Valuation.always : Run.Valuation σ where
  has := Run.Always
  has_pure := .pure
  has_bind := .bind

/-! ## Deterministic functions -/

/-- The answer of the plan depends on nothing but the values of the arguments and of the
names it asks for. -/
def Plan.Deterministic (plan : Plan σ) (arity : Nat) : Prop :=
  ∀ (values : List Binary64) (lookup : Identifier → Binary64), values.length = arity →
    ∃ answer, ∀ (identifier : Identifier → Run σ Binary64) (arguments : List (Run σ Binary64)),
      (∀ id, (identifier id).Always (lookup id)) →
      List.Forall₂ Run.Always arguments values → (plan.run identifier arguments).Always answer

/-- A plan that makes its answers of values is deterministic. -/
theorem Plan.deterministic_of_makes {plan : Plan σ} {arity : Nat}
    (makes : ∀ (values : List Binary64) (lookup : Identifier → Binary64), values.length = arity →
      ∃ answer, plan.Makes (fun _ => True) lookup values answer) : plan.Deterministic arity := by
  intro values lookup count
  rcases makes values lookup count with ⟨answer, made⟩
  refine ⟨answer, fun identifier arguments reads evaluated => ?_⟩
  change Run.Valuation.always.has (plan.run identifier arguments) answer
  exact made.run (fun id _ => reads id) evaluated

theorem Plan.deterministic_answer (value : Binary64) (arity : Nat) :
    (Plan.answer value : Plan σ).Deterministic arity :=
  deterministic_of_makes fun _ _ _ => ⟨value, .answer value⟩

theorem Plan.deterministic_unary (function : Binary64 → Binary64) (arity : Nat) :
    (Plan.unary function : Plan σ).Deterministic arity :=
  deterministic_of_makes fun _ _ _ => ⟨_, .argument (.answer _)⟩

theorem Plan.deterministic_binary (function : Binary64 → Binary64 → Binary64) (arity : Nat) :
    (Plan.binary function : Plan σ).Deterministic arity :=
  deterministic_of_makes fun _ _ _ => ⟨_, .argument (.argument (.answer _))⟩

/-- The built-in functions are deterministic, except for the one that draws numbers. -/
theorem Function.builtins_deterministic {name : String} {count : Nat} {plan : Plan σ}
    (notRandom : name ≠ "Random") (found : Function.builtins.plan? name count = some plan) :
    plan.Deterministic count := by
  rcases Option.bind_eq_some_iff.mp found with ⟨kind, known, found⟩
  rcases List.lookup_eq_some_iff.mp known with ⟨before, after, entries, -⟩
  have member : (name, kind) ∈ (Function.builtins : FunctionTable σ).entries :=
    entries ▸ List.mem_append_right before (.head _)
  have only {arity : Nat} {given : Plan σ} (isDeterministic : given.Deterministic count)
      (found : (FunctionKind.native [(arity, given)]).plan? count = some plan) :
      plan.Deterministic count := by
    rcases List.lookup_eq_some_iff.mp found with ⟨before, after, entries, -⟩
    have same : (count, plan) ∈ [(arity, given)] :=
      entries ▸ List.mem_append_right before (.head _)
    cases List.mem_singleton.mp same
    exact isDeterministic
  simp only [Function.builtins, List.mem_append, List.mem_cons, List.not_mem_nil, or_false,
    List.mem_map, Prod.mk.injEq] at member
  rcases member with ((⟨_, rfl⟩ | ⟨isRandom, _⟩ | ⟨_, rfl⟩) | ⟨unary, _, _, rfl⟩) |
    ⟨binary, _, _, rfl⟩
  · cases found
  · exact absurd isRandom notRandom
  · exact only (Plan.deterministic_answer _ _) found
  · exact only (Plan.deterministic_unary unary.2 _) found
  · exact only (Plan.deterministic_binary binary.2 _) found

/-- Called functions are deterministic. -/
def Demands.deterministic (functions : FunctionTable σ) : Demands ν where
  number _ := True
  name _ := True
  call function count := ∀ plan, functions.plan? function count = some plan →
    plan.Deterministic count
  choose := True

/-- Where names have their values, deterministic functions have answers. -/
theorem FunctionTable.exists_always (functions : FunctionTable σ)
    (lookup : Identifier → Binary64) :
    ∃ answers : String → List Binary64 → Binary64,
      ∀ identifier : Identifier → Run σ Binary64, (∀ id, (identifier id).Always (lookup id)) →
        Demands.Imply (ν := ν) (.deterministic functions) (.deterministic functions)
          (.answered .always functions identifier answers) := by
  rcases functions.exists_answers_of Plan.Deterministic
      (fun _ : { identifier : Identifier → Run σ Binary64 //
        ∀ id, (identifier id).Always (lookup id) } => .always)
      (fun setting => setting.1) (fun plan values isDeterministic => by
        rcases isDeterministic values lookup rfl with ⟨answer, answers⟩
        exact ⟨answer, fun setting arguments => answers setting.1 arguments setting.2⟩) with
    ⟨answers, answered⟩
  refine ⟨answers, fun identifier reads => ⟨fun _ _ => trivial, fun _ _ => trivial, ?_,
    fun _ _ => trivial⟩⟩
  intro function count areDeterministic _ arguments values sameCount evaluated
  subst sameCount
  exact answered function values areDeterministic ⟨identifier, reads⟩ arguments evaluated

/-! ## Steps -/

section Steps

variable {functions : FunctionTable σ}

/-- From given values of the slots a step has one effect. -/
theorem Step.execute_always {step : Step Slot} (meets : step.Meets (.deterministic functions))
    (values : SlotValues) : ∃ outcome, (step.execute functions values).Always outcome := by
  let scope : Scope σ Slot := values.scope
  rcases functions.exists_always (ν := Slot) fun id => values.value id.raw with
    ⟨answers, answered⟩
  have imply := answered scope.identifier fun _ => .pure _
  have evaluates {formula : Formula Slot} (meets : formula.Meets (.deterministic functions)) :
      Run.Valuation.always.has (formula.evaluate functions scope)
        (formula.value answers fun slot => values.value slot.number) :=
    formula.evaluate_value (formula.meets_of_imply imply meets meets) fun _ _ => .pure _
  have fires {value : Formula Slot} (meets : value.Meets (.deterministic functions))
      (ends : Bool) : ∃ outcome,
        (if ends then do
          let result ← value.evaluate functions scope
          pure (values.update ProcessRule.resultSlot.number .set result, true)
        else pure (values, false) : Run σ (SlotValues × Bool)).Always outcome := by
    cases ends with
    | true => exact ⟨_, (evaluates meets).bind (.pure _)⟩
    | false => exact ⟨_, .pure _⟩
  cases step with
  | assign assignment => exact ⟨_, (evaluates meets.2).bind (.pure _)⟩
  | «return» condition value =>
      cases condition with
      | none => exact fires meets true
      | some condition =>
          have checks : Run.Valuation.always.has (condition.check functions scope)
              (condition.holds answers fun slot => values.value slot.number) :=
            condition.check_holds (condition.meets_of_imply imply meets.1 meets.1) fun _ _ =>
              .pure _
          rcases fires meets.2 (condition.holds answers fun slot => values.value slot.number) with
            ⟨outcome, fired⟩
          exact ⟨outcome, checks.bind fired⟩

/-- From given values of the slots the steps have one result, traced or not. -/
theorem ProcessRule.executeSteps_always {steps : List (Step Slot)}
    (meet : ∀ step ∈ steps, step.Meets (.deterministic functions)) (values : SlotValues) :
    ∃ final, ∀ traced number,
      (executeSteps functions traced number values steps).Always final := by
  induction steps generalizing values with
  | nil => exact ⟨values, fun _ _ => .pure values⟩
  | cons step rest induction =>
      rcases List.forall_mem_cons.mp meet with ⟨meets, restMeet⟩
      rcases step.execute_always meets values with ⟨outcome, executes⟩
      have traces (traced : Bool) (number : Nat) :
          (if traced then traceStep number values step else pure () : Run σ Unit).Always () := by
        intro world
        rcases traceStep_if traced number values step world with ⟨log, ran⟩
        exact ⟨_, ran⟩
      cases ends : outcome.2 with
      | true =>
          refine ⟨outcome.1, fun traced number => ?_⟩
          rw [executeSteps_cons]
          refine (traces traced number).bind (executes.bind ?_)
          rw [ends]
          exact .pure _
      | false =>
          rcases induction restMeet outcome.1 with ⟨final, goes⟩
          refine ⟨final, fun traced number => ?_⟩
          rw [executeSteps_cons]
          refine (traces traced number).bind (executes.bind ?_)
          rw [ends]
          exact goes traced (number + 1)

end Steps

/-! ## Runs of processes -/

namespace ProcessRule

/-- Whether slots are loaded with the array of the process taken or not makes no difference to
the values they get. -/
theorem load_takePad {read : Identifier → Run σ Binary64}
    (reads : ∀ id, Coupled SeenAlike (read id) (read id)) (process : ProcessRule)
    (world : World σ) :
    (load read #[] process.slots world = none ∧
      ∃ pad pads, takePad process world = some (pad, { world with pads }) ∧
        load read #[] process.slots { world with pads } = none) ∨
    ∃ loaded after pad pads taken, load read #[] process.slots world = some (loaded, after) ∧
      takePad process world = some (pad, { world with pads }) ∧
      load read #[] process.slots { world with pads } = some (loaded, taken) := by
  rcases takePad_run process world with ⟨pad, pads, took⟩
  rcases load_coupled reads #[] process.slots world { world with pads } ⟨pads, world.log, rfl⟩ with
    ⟨fails, alsoFails⟩ | ⟨loaded, after, taken, loads, alsoLoads, -⟩
  · exact .inl ⟨fails, pad, pads, took, alsoFails⟩
  · exact .inr ⟨loaded, after, pad, pads, taken, loads, took, alsoLoads⟩

/-- What a process of deterministic functions writes and answers is settled by the values that
reading its slots gives, as if no run had its array. -/
theorem exists_settle {functions : FunctionTable σ} {process : ProcessRule}
    (meet : ∀ step ∈ process.steps, step.Meets (.deterministic functions)) :
    ∃ settle : SlotValues → List (Identifier × Binary64) × Binary64,
      ∀ read : Identifier → Run σ Binary64, (∀ id, Coupled SeenAlike (read id) (read id)) →
        ∀ traced world, (process.outcome functions read traced world).map Prod.fst =
          (load read #[] process.slots world).map fun result => settle result.1 := by
  choose final executes using executeSteps_always meet
  refine ⟨fun loaded => (process.changes loaded (final loaded),
    (final loaded).value resultSlot.number), fun read reads traced world => ?_⟩
  have emptied (pad : Option SlotValues) : (pad.getD #[]).take 0 = #[] := by simp
  rw [outcome_eq, Run.bind_apply]
  rcases load_takePad reads process world with ⟨fails, pad, pads, took, alsoFails⟩ |
    ⟨loaded, after, pad, pads, taken, loads, took, alsoLoads⟩
  · simp only [took, emptied, Run.bind_apply, alsoFails, fails]
    rfl
  · rcases executes loaded traced 1 taken with ⟨later, ran⟩
    simp only [took, emptied, Run.bind_apply, alsoLoads, loads, ran]
    cases pad <;> rfl

/-- What a slot may be loaded with: what its name reads as in a state related to the first, or
0 if it stands for no name. -/
def LoadedWith (relation : World σ → World σ → Prop) (read : Identifier → Run σ Binary64)
    (world : World σ) (slot : LocalSlot) (value : Binary64) : Prop :=
  (slot.global? = none ∧ value = 0) ∨ ∃ id before later, slot.global? = some id ∧
    relation world before ∧ read id before = some (value, later)

theorem load_loadedWith {relation : World σ → World σ → Prop} (steady : Run.Steady relation)
    {read : Identifier → Run σ Binary64} (reads : ∀ id, (read id).Respects relation)
    {slots : List LocalSlot} {values loaded : SlotValues} {world after : World σ}
    (loads : load read values slots world = some (loaded, after)) :
    ∃ more : List Binary64, loaded = values ++ more.toArray ∧
      List.Forall₂ (LoadedWith relation read world) slots more := by
  induction slots generalizing values world with
  | nil =>
      cases loads
      exact ⟨[], by simp, .nil⟩
  | cons slot rest induction =>
      have pushed (value : Binary64) (more : List Binary64) :
          values.push value ++ more.toArray = values ++ (value :: more).toArray := by simp
      cases global : slot.global? with
      | none =>
          simp only [load, global, pure_bind] at loads
          rcases induction loads with ⟨more, isLoaded, loadedWith⟩
          exact ⟨0 :: more, isLoaded.trans (pushed 0 more), .cons (.inl ⟨global, rfl⟩) loadedWith⟩
      | some id =>
          simp only [load, global] at loads
          rcases Run.bind_eq_some loads with ⟨value, between, ran, loads⟩
          rcases induction loads with ⟨more, isLoaded, loadedWith⟩
          have related := reads id world value between ran
          refine ⟨value :: more, isLoaded.trans (pushed value more), .cons ?_ (loadedWith.imp ?_)⟩
          · exact .inr ⟨id, world, between, global, steady.beside rfl rfl, ran⟩
          · rintro slot value (none | ⟨id, before, later, global, further, ran⟩)
            · exact .inl none
            · exact .inr ⟨id, before, later, global, steady.trans related further, ran⟩

/-- A slot of a name without a hook is loaded with what is stored for the name before the run,
whatever the hooks of other names do. -/
theorem value_load_hookless {engine : Engine σ} {depth : Nat} {slots : List LocalSlot}
    {loaded : SlotValues} {world after : World σ}
    (loads : load (engine.respond depth).read #[] slots world = some (loaded, after))
    {place : Nat} {slot : LocalSlot} (found : slots[place]? = some slot) {id : Identifier}
    (global : slot.global? = some id) (hookless : engine.Hookless id) :
    loaded.value (place + 1) = engine.plainValue world.store id := by
  rcases load_loadedWith World.steady_unchanged (engine.read_unchanged depth) loads with
    ⟨more, isLoaded, loadedWith⟩
  rcases List.forall₂_iff_get.mp loadedWith with ⟨sameLength, each⟩
  rcases List.getElem?_eq_some_iff.mp found with ⟨inside, isSlot⟩
  have alsoInside : place < more.length := sameLength ▸ inside
  have loadedValue : loaded.value (place + 1) = more[place] := by
    simp [isLoaded, SlotValues.value, alsoInside]
  rcases each place inside alsoInside with ⟨none, -⟩ | ⟨other, before, later, same, unchanged, ran⟩
  · rw [List.get_eq_getElem, isSlot, global] at none
    cases none
  · rw [List.get_eq_getElem, isSlot, global] at same
    cases same
    cases depth with
    | zero => cases ran
    | succ depth =>
        have plain := engine.read_hookless hookless depth before
        rw [loadedValue, ← engine.plainValue_congr (unchanged.valueOf_eq id)]
        exact congrArg Prod.fst (Option.some.inj (ran.symm.trans plain))

/-- Runs of a process make the same writes and answer alike whatever its value array holds,
whether another run has it or not, and traced or not. The writes and the answer are settled by
the values its slots are loaded with, as if no run had the array, and a slot of a name without
a hook is loaded with what is stored for it. -/
theorem run_independent (engine : Engine σ) {process : ProcessRule}
    (meet : ∀ step ∈ process.steps, step.Meets (.deterministic engine.functions)) :
    (∀ depth traced, (engine.respond depth).runProcess engine process traced = (do
      let settled ← process.outcome engine.functions (engine.respond depth).read traced
      (engine.respond depth).writeAll settled.1
      pure settled.2)) ∧
    (∀ depth traced alsoTraced,
      Coupled SeenAlike (process.outcome engine.functions (engine.respond depth).read traced)
        (process.outcome engine.functions (engine.respond depth).read alsoTraced) ∧
      Coupled SeenAlike ((engine.respond depth).runProcess engine process traced)
        ((engine.respond depth).runProcess engine process alsoTraced)) ∧
    (∃ settle : SlotValues → List (Identifier × Binary64) × Binary64,
      ∀ depth traced world,
        (process.outcome engine.functions (engine.respond depth).read traced world).map Prod.fst =
          (load (engine.respond depth).read #[] process.slots world).map
            fun result => settle result.1) ∧
    (∀ depth world loaded after,
      load (engine.respond depth).read #[] process.slots world = some (loaded, after) →
      ∀ place slot id, process.slots[place]? = some slot → slot.global? = some id →
        engine.Hookless id → loaded.value (place + 1) = engine.plainValue world.store id) := by
  have blind := Engine.respond_blind engine
  refine ⟨fun depth traced => runProcess_eq_outcome _ _ _ _, fun depth traced alsoTraced => ?_,
    ?_, fun _ _ _ _ loads _ _ _ found global hookless =>
      value_load_hookless loads found global hookless⟩
  · have outcomes : Coupled SeenAlike
        (process.outcome engine.functions (engine.respond depth).read traced)
        (process.outcome engine.functions (engine.respond depth).read alsoTraced) :=
      outcome_coupled (fun id => blind depth (.read id)) rfl fun values =>
        executeSteps_coupled _ _ _ (List.forall₂_same.mpr fun _ _ _ => rfl) 1 values
    exact ⟨outcomes, Responder.runProcess_coupled_of_outcome (blind depth) outcomes⟩
  · rcases exists_settle meet with ⟨settle, settles⟩
    exact ⟨settle, fun depth => settles _ fun id => blind depth (.read id)⟩

/-! ### A hook that runs the process -/

namespace Nesting

/-- The names of the engine below. -/
def names : Registry Bool := .ofRequests [.addName "stat" "speed" 0 .temporary {},
  .addName "mode" "gear" 0 .temporary {}]

/-- The process `gear = Max(speed, 3) Return(gear)`. -/
def process : ProcessRule :=
  .ofSteps ⟨0⟩ ' ' names.identifier?
    [.assign ⟨"gear", .set, .call "Max" [.name "speed", .constant 3]⟩, .return none (.name "gear")]

/-- The hook runs the process against another store. In that run it gives 7. -/
def hook : GetHook Bool := fun _ =>
  .host (fun _ => true) fun nested =>
    if nested then .finish (.ok 7)
    else .elsewhere (.run process false fun result => .finish (.ok result)) fun outcome =>
      .host (fun _ => false) fun _ => .finish outcome

/-- An engine where reading the speed runs the process. -/
def engine : Engine Bool where
  registry := .ofRequests [.addName "stat" "speed" 0 .temporary {},
    .addName "mode" "gear" 0 .temporary {}, .hookName "speed" (.get hook)]
  functions := Function.builtins
  settings := {}

def gear : Identifier := ⟨0x2000001, Nat.one_ne_zero⟩

def start : World Bool := engine.start false ⟨fun _ => 0, 0⟩

/-- Another run has the value array. -/
def lent : World Bool := { start with pads := [(process.id, .lent)] }

/-- What the process answers, and what the gear is then. -/
def answerAndGear (traced : Bool) (world : World Bool) : Option (Binary64 × Binary64) :=
  ((engine.respond 4).runProcess engine process traced world).map fun result =>
    (result.1, result.2.store.valueOf gear)

end Nesting

open Nesting in
/-- A traced run while another one has the value array, and one that is not traced. -/
theorem run_independent_of_nesting :
    (∀ step ∈ process.steps, step.Meets (.deterministic engine.functions)) ∧
      answerAndGear true lent = some (7, 7) ∧ answerAndGear false start = some (7, 7) ∧
      Coupled SeenAlike ((engine.respond 4).runProcess engine process true)
        ((engine.respond 4).runProcess engine process false) := by
  have ofMax : ∀ plan, engine.functions.plan? "Max" 2 = some plan → plan.Deterministic 2 :=
    fun plan found => Function.builtins_deterministic (by decide) found
  have meet : ∀ step ∈ process.steps, step.Meets (.deterministic engine.functions) :=
    List.forall_mem_cons.mpr ⟨⟨trivial, ofMax, trivial, trivial, trivial⟩,
      List.forall_mem_singleton.mpr trivial⟩
  refine ⟨meet, by decide +kernel, by decide +kernel, ?_⟩
  exact ((run_independent engine meet).2.1 4 true false).2

end ProcessRule

end NumericRules
