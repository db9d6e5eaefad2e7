import NumericRules.Proofs.Reordering

/-! # Reading stores that are in another order

Hooks that compute a value for a reader cannot tell in which order the names of a store were
first written. So every name reads the same in both stores, whatever hooks it has.
-/

namespace NumericRules

/-- The states differ at most in the order in which names were first written, the log and
the value arrays of processes. -/
def World.Rearranged (world other : World σ) : Prop :=
  ∃ store pads log, other = { world with store, pads, log } ∧ world.store.Rearranged store

open World (Rearranged SeenAlike)
open Run (Coupled)

theorem Store.Rearranged.withBus {first second : Store σ} (rearranged : first.Rearranged second)
    (bus : Bus σ) : { first with bus }.Rearranged { second with bus } where
  dense := rearranged.dense
  entries := rearranged.entries
  owner := rearranged.owner
  bus := rfl
  logs := rearranged.logs
  touched := rearranged.touched
  listed := rearranged.listed

/-! ## Single requests -/

namespace Run

theorem coupling_rearranged : Coupling (Rearranged (σ := σ)) where
  host _ := by
    rintro world _ ⟨store, pads, log, rfl, rearranged⟩
    exact .inr ⟨_, _, _, rfl, rfl, store, pads, log, rfl, rearranged⟩
  draw _ _ := by
    rintro world _ ⟨store, pads, log, rfl, rearranged⟩
    exact .inr ⟨_, _, _, rfl, rfl, store, pads, log, rfl, rearranged⟩

/-- A run that goes on alike with both stores. -/
theorem store_rearranged {next : Store σ → Run σ α}
    (same : ∀ first second : Store σ, first.Rearranged second → next second = next first)
    (later : ∀ store, Coupled Rearranged (next store) (next store)) :
    Coupled Rearranged (Run.store >>= next) (Run.store >>= next) := by
  rintro world _ ⟨store, pads, log, rfl, rearranged⟩
  rw [store_bind, store_bind, same world.store store rearranged]
  exact later world.store world _ ⟨store, pads, log, rfl, rearranged⟩

theorem changeBus_rearranged (tier : Tier) (change : Bus σ → α × Bus σ) :
    Coupled Rearranged (changeBus tier change) (changeBus tier change) := by
  rintro world _ ⟨store, pads, log, rfl, rearranged⟩
  cases tier with
  | engine => exact .inr ⟨_, _, _, rfl, rfl, store, pads, log, rfl, rearranged⟩
  | store =>
      refine .inr ⟨(change world.store.bus).1, _, _, rfl, ?_,
        { store with bus := (change world.store.bus).2 }, pads, log, rfl, rearranged.withBus _⟩
      rw [← rearranged.bus]
      rfl

theorem report_rearranged (entry : LogEntry) :
    Coupled Rearranged (report entry : Run σ Unit) (report entry) := by
  rintro world _ ⟨store, pads, log, rfl, rearranged⟩
  exact .inr ⟨(), _, _, rfl, rfl, store, pads, log ++ [entry], rfl, rearranged⟩

theorem numbered_rearranged (result : Except Error α) (rule : RuleId → α → β) :
    Coupled Rearranged (Engine.numbered result rule : Run σ (Except Error β))
      (Engine.numbered result rule) := by
  rintro world _ ⟨store, pads, log, rfl, rearranged⟩
  cases result with
  | error error => exact .inr ⟨_, _, _, rfl, rfl, store, pads, log, rfl, rearranged⟩
  | ok content => exact .inr ⟨_, _, _, rfl, rfl, store, pads, log, rfl, rearranged⟩

end Run

/-- What is done to another store does not depend on this one. -/
theorem Journaled.playElsewhere_rearranged {engine : Engine σ} {responder : Responder σ}
    (blind : responder.Blind) (body : Script σ .writing) :
    Coupled Rearranged (playElsewhere engine responder body)
      (playElsewhere engine responder body) := by
  have returns (world : World σ) : playElsewhere engine responder body world =
      (body.play engine responder { world with store := .new engine.registry }).map
        fun result => (result.1, { result.2 with store := world.store }) := by
    have changed : (Run.changeStore fun _ => ((), Store.new engine.registry) : Run σ Unit) world =
        some ((), { world with store := .new engine.registry }) := rfl
    rw [playElsewhere, Run.store_bind, Run.bind_apply, changed]
    dsimp only
    rw [Run.bind_apply]
    cases body.play engine responder { world with store := .new engine.registry } <;> rfl
  rintro world _ ⟨store, pads, log, rfl, rearranged⟩
  rw [returns, returns]
  have alike : ({ world with store := .new engine.registry } : World σ).SeenAlike
      { world with store := .new engine.registry, pads, log } := ⟨pads, log, rfl⟩
  rcases body.play_coupled blind _ _ alike with ⟨fails, alsoFails⟩ |
    ⟨outcome, after, _, ran, alsoRan, pads, log, rfl⟩
  · exact .inl ⟨by rw [fails]; rfl, by rw [alsoFails]; rfl⟩
  · refine .inr ⟨outcome, { after with store := world.store }, { after with store, pads, log },
      ?_, ?_, store, pads, log, rfl, rearranged⟩
    · rw [ran]
      rfl
    · rw [alsoRan]
      rfl

/-! ## Reading scripts and names -/

section Reading

variable {engine : Engine σ} {responder : Responder σ} (blind : responder.Blind)
  (reads : ∀ id, Coupled Rearranged (responder (.read id)) (responder (.read id)))

include blind reads

theorem Script.play_rearranged (script : Script σ access) (reading : access = .reading) :
    Coupled Rearranged (script.play engine responder) (script.play engine responder) := by
  have couple : (Demands.naming fun _ => True).Couple Rearranged engine.functions responder.scope
      responder.scope := Demands.couple_of_reads Run.coupling_rearranged reads
  induction script with
  | finish outcome => exact .pure outcome
  | host update next induction =>
      exact (Run.coupling_rearranged.host update).bind fun _ => induction _ reading
  | read id next induction => exact (reads id).bind fun _ => induction _ reading
  | stored id next induction =>
      refine Run.store_rearranged (fun first second rearranged => ?_) fun _ => induction _ reading
      rw [rearranged.entries]
  | evaluate formula next induction =>
      have evaluates := formula.evaluate_coupled couple (formula.meets_naming fun _ _ => trivial)
        fun reference _ => reads reference.id
      exact evaluates.bind fun _ => induction _ reading
  | check condition next induction =>
      have checks := condition.check_coupled couple (condition.meets_naming fun _ _ => trivial)
        fun reference _ => reads reference.id
      exact checks.bind fun _ => induction _ reading
  | parse text next induction =>
      exact (Run.numbered_rearranged _ _).bind fun _ => induction _ reading
  | produced station next induction =>
      refine Run.store_rearranged (fun _ _ rearranged => ?_) fun _ => induction _ reading
      rw [Store.produced, Store.produced, Store.logOf, Store.logOf, rearranged.logs]
  | isWatching station condition next induction =>
      refine Run.store_rearranged (fun _ _ rearranged => ?_) fun _ => induction _ reading
      rw [Store.isWatching, Store.isWatching, Store.logOf, Store.logOf, rearranged.logs]
  | subscribe tier id callback next _ induction =>
      exact (Run.changeBus_rearranged tier _).bind fun _ => induction _ reading
  | unsubscribe tier id key next induction =>
      exact (Run.changeBus_rearranged tier _).bind fun _ => induction _ reading
  | unsubscribeAll tier id next induction =>
      exact (Run.changeBus_rearranged tier _).bind fun _ => induction _ reading
  | clear tier next induction =>
      exact (Run.changeBus_rearranged tier _).bind fun _ => induction reading
  | elsewhere body next _ induction =>
      rw [Script.play_elsewhere]
      exact (Journaled.playElsewhere_rearranged blind body).bind fun _ => induction _ reading
  | write | reset | execute | run | workOperations | workProcess | watch | unwatch =>
      cases reading

theorem Engine.readOnce_rearranged (id : Identifier) :
    Coupled Rearranged (engine.readOnce responder id) (engine.readOnce responder id) := by
  refine Run.store_rearranged (fun first second rearranged => ?_) fun store => ?_
  · rw [rearranged.denseValue, rearranged.stored]
  · split
    · exact .pure _
    · split
      · exact .pure 0
      · split
        · exact .pure _
        · refine (Script.play_rearranged blind reads _ rfl).bind fun outcome => ?_
          cases outcome with
          | ok value => exact .pure value
          | error message => exact (Run.report_rearranged _).bind fun _ => .pure 0

end Reading

/-- Every name reads the same in stores that are in another order. -/
theorem Engine.read_rearranged (engine : Engine σ) (depth : Nat) (id : Identifier) :
    Coupled Rearranged (engine.respond depth (.read id)) (engine.respond depth (.read id)) := by
  induction depth generalizing id with
  | zero => exact fun _ _ _ => .inl ⟨rfl, rfl⟩
  | succ depth induction => exact readOnce_rearranged (engine.respond_blind depth) induction id

end NumericRules
