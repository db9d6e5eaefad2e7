import NumericRules.Proofs.CompoundUpdates
import NumericRules.Proofs.ImmediateHooks

/-! # Runs that have a result

Code of the host program may call itself without end. Where hooks answer at once and nobody
listens to changes no such code is run, and so everything that rules do has a result.
-/

namespace NumericRules

/-! ## What a run leaves alone -/

namespace World

/-- Subscriptions are the same, and so is what workstations have done. -/
def SameBooks (before after : World σ) : Prop :=
  before.SameBuses after ∧ after.store.logs = before.store.logs

theorem SameBooks.refl (world : World σ) : world.SameBooks world := ⟨⟨rfl, rfl⟩, rfl⟩

theorem SameBooks.trans {first second third : World σ} (earlier : first.SameBooks second)
    (later : second.SameBooks third) : first.SameBooks third :=
  ⟨steady_sameBuses.trans earlier.1 later.1, later.2.trans earlier.2⟩

end World

/-- Wherever nobody listens to changes the run has a result, and nobody subscribes. -/
def Run.Completes (run : Run σ α) : Prop :=
  ∀ world : World σ, world.Unheard →
    ∃ value after, run world = some (value, after) ∧ world.SameBooks after

namespace Run.Completes

theorem pure (value : α) : Completes (pure value : Run σ α) :=
  fun world _ => ⟨value, world, rfl, .refl world⟩

theorem bind {first : Run σ α} {next : α → Run σ β} (ofFirst : first.Completes)
    (ofNext : ∀ value, (next value).Completes) : (first >>= next).Completes := by
  intro world unheard
  rcases ofFirst world unheard with ⟨value, between, ran, same⟩
  rcases ofNext value between (unheard.kept same.1) with ⟨result, after, further, still⟩
  exact ⟨result, after, by rw [bind_apply, ran]; exact further, same.trans still⟩

theorem changeHost (update : σ → σ) : (Run.changeHost update).Completes :=
  fun _ _ => ⟨_, _, rfl, ⟨rfl, rfl⟩, rfl⟩

theorem draw (low high : Int) : (Run.draw low high : Run σ Int).Completes :=
  fun _ _ => ⟨_, _, rfl, ⟨rfl, rfl⟩, rfl⟩

theorem report (entry : LogEntry) : (Run.report entry : Run σ Unit).Completes :=
  fun _ _ => ⟨_, _, rfl, ⟨rfl, rfl⟩, rfl⟩

theorem changeStore {change : Store σ → α × Store σ}
    (bus : ∀ store, (change store).2.bus = store.bus)
    (logs : ∀ store, (change store).2.logs = store.logs) : (Run.changeStore change).Completes :=
  fun world _ => ⟨_, _, rfl, ⟨rfl, bus world.store⟩, logs world.store⟩

theorem compositional : Compositional fun run : Run σ _ => run.Completes :=
  ⟨pure, bind, changeHost, draw⟩

end Run.Completes

/-! ## Requests -/

namespace Engine

open Run (Completes)

variable {engine : Engine σ} (immediate : engine.registry.Immediate) (depth : Nat)

include immediate

/-- Reading a name changes nothing, not even the log. -/
theorem read_immediate (id : Identifier) (world : World σ) :
    ∃ value, engine.respond (depth + 1) (.read id) world = some (value, world) := by
  rw [respond, answer, readOnce, Run.store_bind]
  cases id.isOrdered with
  | true => exact ⟨_, rfl⟩
  | false =>
      simp only [Bool.false_eq_true, if_false]
      cases known : engine.registry.record? id with
      | none => exact ⟨0, rfl⟩
      | some record =>
          cases given : record.getHook with
          | none => exact ⟨_, by simp only [given]; rfl⟩
          | some hook =>
              rcases (immediate record (List.mem_of_find?_eq_some known)).2 hook given id with
                ⟨value, answers⟩
              exact ⟨value, by simp only [given, answers]; rfl⟩

theorem keep_completes {record : NameRecord σ} (known : record ∈ engine.registry.records)
    (responder : Responder σ) (update : Update) (operand : Binary64) :
    (engine.keep responder record update operand).Completes := by
  rw [keep]
  split
  · exact .changeStore (fun store => by rw [Store.updateDense_snd])
      fun store => by rw [Store.updateDense_snd]
  · rw [writeEntry]
    refine .bind (.changeStore (fun store => store.bus_touch record)
      fun store => store.logs_touch record) fun _ => ?_
    split
    · exact .pure 0
    · simp only [(immediate record known).1]
      refine .changeStore (fun store => ?_) fun store => ?_ <;> split <;> rfl

theorem write_completes (id : Identifier) (update : Update) (operand : Binary64) :
    (engine.respond (depth + 1) (.write id update operand)).Completes := by
  change (engine.writeOnce (engine.respond depth) id update operand).Completes
  cases known : engine.registry.record? id with
  | none =>
      simp only [writeOnce, known]
      exact .bind (.report _) fun _ => .pure 0
  | some record =>
      rw [writeOnce_eq known]
      intro world unheard
      rcases keep_completes immediate (List.mem_of_find?_eq_some known) (engine.respond depth)
        update operand world unheard with ⟨retained, after, kept, same⟩
      refine ⟨retained, after, ?_, same⟩
      rw [Run.bind_apply, kept]
      exact engine.tell_silent _ ⟨id, update, operand⟩ (unheard.kept same.1 id) retained

theorem respond_completes (request : Request) :
    (engine.respond (depth + 1) request).Completes := by
  cases request with
  | read id =>
      intro world _
      rcases engine.read_immediate immediate depth id world with ⟨value, ran⟩
      exact ⟨value, world, ran, .refl world⟩
  | write id update operand => exact write_completes immediate depth id update operand

end Engine

end NumericRules
