import NumericRules.Proofs.Accounts
import NumericRules.Proofs.InstalledWatches
import NumericRules.Proofs.References

/-! # What changes a condition

Whether a condition holds depends on the values of the names that it mentions. If these
have no hooks, then a store decides it until one of them is written or reset, and a watch
listens to just those names.
-/

namespace NumericRules

/-! ## Stores that nobody can tell apart -/

/-- One store or the other is in place, and the state of the host program and the dice are
the same. -/
structure World.Beside (first second : Store σ) (world other : World σ) : Prop where
  first : world.store = first
  second : other.store = second
  host : other.host = world.host
  dice : other.dice = world.dice

/-- Whichever of the stores is in place, the run answers the same, does the same to the
host program and the dice, and leaves the store as it is. -/
def Run.Impartial (first second : Store σ) (run : Run σ α) : Prop :=
  Run.Coupled (World.Beside first second) run run

theorem Run.coupling_beside (first second : Store σ) :
    Run.Coupling (World.Beside first second) where
  host update := by
    intro world other beside
    refine .inr ⟨world.host, _, { other with host := update other.host }, rfl, ?_, beside.first,
      beside.second, congrArg update beside.host, beside.dice⟩
    rw [← beside.host]
    rfl
  draw low high := by
    intro world other beside
    refine .inr ⟨(world.dice.draw low high).1, _, { other with
      dice := (world.dice.draw low high).2 }, rfl, ?_, beside.first, beside.second, beside.host,
      rfl⟩
    rw [← beside.dice]
    rfl

section Reads

theorem ConditionRule.mem_identifiers (condition : ConditionRule) {reference : Reference}
    (mentioned : reference ∈ condition.root.references) :
    reference.id ∈ condition.identifiers :=
  mem_firstOccurrences.mpr (List.mem_map_of_mem mentioned)

/-- What a name without a hook reads as. -/
def Engine.plainValue (engine : Engine σ) (store : Store σ) (id : Identifier) : Binary64 :=
  if id.isOrdered || (engine.registry.record? id).isSome then store.valueOf id else 0

theorem Engine.plainValue_congr (engine : Engine σ) {first second : Store σ} {id : Identifier}
    (same : second.valueOf id = first.valueOf id) :
    engine.plainValue second id = engine.plainValue first id := by
  rw [plainValue, plainValue, same]

theorem World.Unchanged.valueOf_eq {before after : World σ} (unchanged : before.Unchanged after)
    (id : Identifier) : after.store.valueOf id = before.store.valueOf id := by
  simp only [Store.valueOf, Store.denseValue, Store.stored, Store.entry?, unchanged.1, unchanged.2.1]

variable {engine : Engine σ} {id : Identifier}

theorem Engine.read_hookless (hookless : engine.Hookless id) (depth : Nat) (world : World σ) :
    engine.respond (depth + 1) (.read id) world =
      some (engine.plainValue world.store id, world) := by
  rw [respond, answer, readOnce, Run.store_bind, plainValue, Store.valueOf]
  cases ordered : id.isOrdered with
  | true => rfl
  | false =>
      simp only [Bool.false_eq_true, if_false, Bool.false_or]
      cases known : engine.registry.record? id with
      | none => rfl
      | some record =>
          have plain := hookless.resolve_left (by simp [ordered]) record known
          simp only [plain]
          rfl

theorem Engine.read_impartial {first second : Store σ} (hookless : engine.Hookless id)
    (same : second.valueOf id = first.valueOf id) (depth : Nat) :
    (engine.respond depth (.read id)).Impartial first second := by
  intro world other beside
  cases depth with
  | zero => exact .inl ⟨rfl, rfl⟩
  | succ depth =>
      refine .inr ⟨_, _, _, engine.read_hookless hookless depth world, ?_, beside⟩
      rw [engine.read_hookless hookless, beside.second, engine.plainValue_congr same,
        beside.first]

/-- Conditions whose names have the same values in two stores do not tell them apart. -/
theorem Engine.check_impartial {first second : Store σ} {condition : ConditionRule}
    (through : condition.root.Meets (.throughArguments engine.functions))
    (hookless : ∀ id ∈ condition.identifiers, engine.Hookless id)
    (same : ∀ id ∈ condition.identifiers, second.valueOf id = first.valueOf id) (depth : Nat) :
    ((engine.respond depth).check engine condition.root).Impartial first second := by
  refine condition.root.check_coupled
    (Demands.couple_throughArguments (Run.coupling_beside first second)) through ?_
  intro reference mentioned
  have inside := condition.mem_identifiers mentioned
  exact Engine.read_impartial (hookless _ inside) (same _ inside) depth

/-- Whether a condition holds depends on the values of its names alone, if its functions
use nothing but the values of their arguments. -/
theorem Condition.exists_truth {functions : FunctionTable σ} (lookup : ν → Binary64)
    (condition : Condition ν) (meets : condition.Meets (.fromArguments functions)) :
    ∃ holds, ∀ (scope : Scope σ ν) (store : Store σ),
      scope.Gives store lookup condition.references →
      (condition.check functions scope).Fixed store holds := by
  rcases functions.exists_answeredBy with ⟨answers, answered⟩
  exact ⟨condition.holds answers lookup, fun _ _ gives => Condition.check_fixed answered meets gives⟩

/-- Such a condition holds in both stores or in none of them. -/
theorem Engine.check_fixed {first second : Store σ} {condition : ConditionRule}
    (meets : condition.root.Meets (.fromArguments engine.functions))
    (hookless : ∀ id ∈ condition.identifiers, engine.Hookless id)
    (same : ∀ id ∈ condition.identifiers, second.valueOf id = first.valueOf id) (depth : Nat) :
    ∃ holds, ((engine.respond (depth + 1)).check engine condition.root).Fixed first holds ∧
      ((engine.respond (depth + 1)).check engine condition.root).Fixed second holds := by
  rcases condition.root.exists_truth (fun reference => engine.plainValue first reference.id)
    meets with ⟨holds, fixed⟩
  refine ⟨holds, fixed _ first ?_, fixed _ second ?_⟩
  · rintro reference mentioned world rfl
    exact engine.read_hookless (hookless _ (condition.mem_identifiers mentioned)) depth world
  · rintro reference mentioned world rfl
    have inside := condition.mem_identifiers mentioned
    change _ = some (engine.plainValue first reference.id, world)
    rw [← engine.plainValue_congr (same _ inside)]
    exact engine.read_hookless (hookless _ inside) depth world

end Reads

/-! ## The listeners of a watch -/

theorem Bus.listeners_add (bus : Bus σ) (id other : Identifier) (callback : Listener σ) :
    (bus.add id callback).2.listeners other =
      bus.listeners other ++ if other = id then [callback] else [] := by
  rw [Bus.listeners, Bus.listeners, Bus.subscriptions_eq_held, Bus.subscriptions_eq_held, Bus.add,
    Bus.held_insert]
  split
  · rename_i same
    rw [same, List.map_append, List.map_singleton]
  · rw [List.append_nil]

theorem Store.listeners_subscribeEach (store : Store σ) (callback : Listener σ)
    {ids : List Identifier} (nodup : ids.Nodup) (id : Identifier) :
    (store.subscribeEach callback ids).2.bus.listeners id =
      store.bus.listeners id ++ if id ∈ ids then [callback] else [] := by
  induction ids generalizing store with
  | nil => exact (List.append_nil _).symm
  | cons first rest induction =>
      rw [List.nodup_cons] at nodup
      rw [Store.subscribeEach]
      dsimp only
      rw [induction _ nodup.2, Bus.listeners_add, List.append_assoc]
      congr 1
      by_cases same : id = first
      · subst same
        simp [nodup.1]
      · simp [same]

/-- A watch that is installed listens to each name of its condition once. -/
theorem Store.listeners_watch (store : Store σ) (station : StationId) (condition : ConditionRule)
    (callback : Listener σ) (id : Identifier) :
    (store.watch station condition.id condition.identifiers callback).bus.listeners id =
      store.bus.listeners id ++ if id ∈ condition.identifiers then [callback] else [] :=
  store.listeners_subscribeEach callback (nodup_firstOccurrences _) id

/-! ## What can change a condition -/

/-- Evaluations and value forms depend on the scope for the names of the tree alone, if the
functions use it only through their arguments.

If none of its names has a hook, whatever is done to a store leaves a condition as it is
unless a name of the condition is written or reset: its check answers the same for the same
dice and the same state of the host program, and it holds as before whatever these are if
its functions use neither. A watch listens to just these names, and its listener checks the
condition whenever it is told of a change. -/
theorem Engine.conditions_change_by_references (engine : Engine σ) :
    (∀ (ν : Type) (scope other : Scope σ ν),
      (∀ formula : Formula ν, formula.Meets (.throughArguments engine.functions) →
        (∀ reference ∈ formula.references, scope.name reference = other.name reference) →
        formula.evaluate engine.functions scope = formula.evaluate engine.functions other ∧
        formula.valueForm scope.name = formula.valueForm other.name) ∧
      ∀ condition : Condition ν, condition.Meets (.throughArguments engine.functions) →
        (∀ reference ∈ condition.references, scope.name reference = other.name reference) →
        condition.check engine.functions scope = condition.check engine.functions other ∧
        condition.valueForm scope.name = condition.valueForm other.name) ∧
    (∀ condition : ConditionRule, (∀ id ∈ condition.identifiers, engine.Hookless id) →
      ∀ first acts last, Store.Worked engine first acts last →
        (∀ act ∈ acts, ∀ id ∈ act.changes, id ∉ condition.identifiers) → ∀ depth,
        (condition.root.Meets (.throughArguments engine.functions) →
          ((engine.respond depth).check engine condition.root).Impartial first last) ∧
        (condition.root.Meets (.fromArguments engine.functions) → ∃ holds,
          ((engine.respond (depth + 1)).check engine condition.root).Fixed first holds ∧
          ((engine.respond (depth + 1)).check engine condition.root).Fixed last holds)) ∧
    (∀ first acts last, Store.Worked engine first acts last →
      ∀ access (script : Script σ access) depth world outcome after, world.store = last →
        script.play engine (engine.respond depth) world = some (outcome, after) →
        ∃ more, (script.journal engine depth).run [] world = some ((outcome, more), after) ∧
          Store.Worked engine first (acts ++ more) after.store) ∧
    ∀ station (condition : ConditionRule) (callback : Script σ .writing) world,
      world.store.isWatching station condition.id = false →
      ∃ after, Run.watch station condition callback world = some ((), after) ∧
        (∀ id, after.store.bus.listeners id = world.store.bus.listeners id ++
          if id ∈ condition.identifiers then [watcher condition.root callback] else []) ∧
        ∀ id ∈ condition.identifiers, ∀ responder change turn told,
          engine.deliver responder change (after.store.bus.listeners id) turn = some ((), told) →
          ∃ between holds next,
            responder.check engine condition.root between = some (holds, next) ∧
            (holds = true → ∃ outcome done,
              callback.play engine responder next = some (outcome, done)) := by
  refine ⟨fun ν scope other => ⟨fun formula through agree => ?_, fun condition through agree => ?_⟩,
    ?_, ?_, ?_⟩
  · exact ⟨Formula.evaluate_eq through agree, formula.valueForm_congr agree⟩
  · exact ⟨Condition.check_eq through agree, condition.valueForm_congr agree⟩
  · intro condition hookless first acts last worked untouched depth
    have same (id : Identifier) (inside : id ∈ condition.identifiers) :
        last.valueOf id = first.valueOf id :=
      worked.explained.values id not_false fun act member changed =>
        untouched act member id changed inside
    exact ⟨fun through => engine.check_impartial through hookless same depth,
      fun meets => engine.check_fixed meets hookless same depth⟩
  · intro first acts last worked access script depth world outcome after same ran
    exact worked.further script depth same ran
  · intro station condition callback world off
    rcases Run.watch_new callback off with ⟨after, run, same, -⟩
    have listeners := world.store.listeners_watch station condition
      (watcher condition.root callback)
    refine ⟨after, run, same ▸ listeners, fun id inside responder change turn told delivered => ?_⟩
    refine Engine.deliver_checks ?_ delivered
    rw [same, listeners, if_pos inside]
    exact List.mem_append_right _ (List.mem_singleton_self _)

/-! ### A condition on a random number -/

namespace Lottery

/-- An engine that knows two names and the built-in functions. -/
def engine : Engine Nat where
  registry := .ofRequests [.addName "stat" "stake" 0 .temporary {},
    .addName "money" "prize" 0 .day { initial := 9 }]
  functions := Function.builtins
  settings := {}

def stake : Identifier := ⟨0x1000001, Nat.one_ne_zero⟩

def prize : Identifier := ⟨0x2000001, Nat.one_ne_zero⟩

/-- The condition `Random(stake + 2) > 0`. -/
def condition : ConditionRule :=
  ⟨⟨0⟩, .compare (.call "Random" [.binary (.name ⟨stake, "stake"⟩) .add (.constant 2)]) .greater
    (.constant 0)⟩

def station : StationId := ⟨0⟩

def opening : World Nat := engine.start 0 ⟨fun _ => 1, 0⟩

/-- The prize is written and reset while somebody listens who writes it again. -/
def script : Script Nat .writing :=
  .subscribe .store prize
    (fun change => if change.operand = 3 then .write prize .set 4 fun _ => .done else .done)
    fun _ => .write prize .set 3 fun _ => .reset (.identifier prize) .done

theorem hookless {id : Identifier} (inside : id ∈ condition.identifiers) :
    engine.Hookless id := by
  have only : condition.identifiers = [stake] := rfl
  rw [only, List.mem_singleton] at inside
  subst inside
  refine .inr fun record known => ?_
  cases known
  rfl

end Lottery

open Lottery in
theorem Engine.conditions_change_by_references_lottery :
    ∃ outcome after, script.play engine (engine.respond 2) opening = some (outcome, after) ∧
      condition.root.Meets (.throughArguments engine.functions) ∧
      (∀ id ∈ condition.identifiers, engine.Hookless id) ∧
      Store.Worked engine opening.store [.write prize, .write prize, .reset [prize]] after.store ∧
      ((engine.respond 1).check engine condition.root).Impartial opening.store after.store ∧
      after.store.isWatching station condition.id = false ∧
      ∃ watched, Run.watch station condition .done after = some ((), watched) ∧
        watched.store.bus.listeners stake = [watcher condition.root .done] := by
  have ran : ((script.journal engine 2).run [] opening).map (fun result =>
      (result.1.2, result.2.store.isWatching station condition.id,
        (result.2.store.bus.listeners stake).length)) =
      some ([.write prize, .write prize, .reset [prize]], false, 0) := by decide +kernel
  rcases Option.map_eq_some_iff.mp ran with ⟨⟨⟨outcome, acts⟩, after⟩, journaled, facts⟩
  simp only [Prod.mk.injEq, List.length_eq_zero_iff] at facts
  rcases facts with ⟨rfl, off, nobody⟩
  have depends := Engine.conditions_change_by_references engine
  have worked : Store.Worked engine opening.store _ after.store := .play script 2 .start journaled
  have played := (script.journal_accounts engine 2).plain_run journaled
  have through : condition.root.Meets (.throughArguments engine.functions) :=
    condition.root.throughArguments_builtins
  have untouched : ∀ act ∈ [Act.write prize, .write prize, .reset [prize]],
      ∀ id ∈ act.changes, id ∉ condition.identifiers := by decide
  rcases depends.2.2.2 station condition .done after off with ⟨watched, run, listeners, _⟩
  refine ⟨outcome, after, played, through, fun id => hookless, worked,
    (depends.2.1 condition (fun id => hookless) _ _ _ worked untouched 1).1 through, off, watched,
    run, ?_⟩
  rw [listeners stake, nobody]
  rfl

end NumericRules
