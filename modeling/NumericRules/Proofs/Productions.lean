import NumericRules.Proofs.Accounts

/-! # What workstations have produced

A workstation remembers the targets of the rules that it executed tracked, each rule once.
What it remembers in a store can be read off the acts of the store, and resetting what it
produced restores just these names.
-/

namespace NumericRules

/-! ## First occurrences -/

section FirstOccurrences

variable [BEq α] [LawfulBEq α]

theorem firstOccurrences_concat (items : List α) (item : α) :
    firstOccurrences (items ++ [item]) =
      if items.contains item then firstOccurrences items else firstOccurrences items ++ [item] := by
  have last : firstOccurrences (items ++ [item]) = addOccurrence (firstOccurrences items) item :=
    List.foldl_append
  have known : (firstOccurrences items).contains item = items.contains item := by
    rw [Bool.eq_iff_iff, List.contains_iff_mem, List.contains_iff_mem, mem_firstOccurrences]
  rw [last, addOccurrence, known]

theorem firstOccurrences_of_nodup {items : List α} (nodup : items.Nodup) :
    firstOccurrences items = items := by
  induction items using List.reverseRecOn with
  | nil => rfl
  | append_singleton items item induction =>
      rw [← List.concat_eq_append, List.nodup_concat] at nodup
      rw [firstOccurrences_concat, induction nodup.2, if_neg (by simpa using nodup.1)]

/-- What occurs first may be picked from the front of a list beforehand. -/
theorem firstOccurrences_append (items others : List α) :
    firstOccurrences (firstOccurrences items ++ others) = firstOccurrences (items ++ others) := by
  have parts (front : List α) : firstOccurrences (front ++ others) =
      others.foldl addOccurrence (firstOccurrences front) := List.foldl_append
  rw [parts, parts, firstOccurrences_of_nodup (nodup_firstOccurrences items)]

end FirstOccurrences

/-! ## Tracked executions -/

namespace Act

/-- A rule that is executed tracked at the workstation, with its targets. -/
def production? (station : StationId) : Act → Option (RuleId × List Identifier)
  | .work worker rule targets true => if worker = station then some (rule, targets) else none
  | _ => none

/-- The tracked executions at a workstation, in the order they began. -/
def productions (acts : List Act) (station : StationId) : List (RuleId × List Identifier) :=
  acts.filterMap (production? station)

end Act

/-- The targets of rules in the order the rules were first executed, each identifier
once. -/
def targetsOf (productions : List (RuleId × List Identifier)) : List Identifier :=
  firstOccurrences <| (firstOccurrences (productions.map (·.1))).flatMap fun rule =>
    (productions.lookup rule).getD []

theorem targetsOf_concat (productions : List (RuleId × List Identifier)) (rule : RuleId)
    (targets : List Identifier) :
    targetsOf (productions ++ [(rule, targets)]) =
      if (productions.map (·.1)).contains rule then targetsOf productions
      else firstOccurrences (targetsOf productions ++ targets) := by
  -- rules that were executed before have the targets they had
  have known {other : RuleId} (executed : other ∈ productions.map (·.1)) :
      (productions ++ [(rule, targets)]).lookup other = productions.lookup other := by
    have found : (productions.lookup other).isSome = true := by
      rw [List.lookup_isSome_iff]
      rcases List.mem_map.mp executed with ⟨entry, member, rfl⟩
      exact ⟨entry, member, beq_self_eq_true _⟩
    rw [List.lookup_append, Option.or_of_isSome found]
  have old : (firstOccurrences (productions.map (·.1))).flatMap (fun other =>
        ((productions ++ [(rule, targets)]).lookup other).getD []) =
      (firstOccurrences (productions.map (·.1))).flatMap fun other =>
        (productions.lookup other).getD [] := by
    refine List.flatMap_congr fun other member => ?_
    rw [known (mem_firstOccurrences.mp member)]
  rw [targetsOf, List.map_append, List.map_singleton, firstOccurrences_concat]
  split
  · rw [old, targetsOf]
  · rename_i new
    have unknown : productions.lookup rule = none := by
      rw [List.lookup_eq_none_iff]
      intro entry member
      exact bne_iff_ne.mpr fun same => new (by
        rw [List.contains_iff_mem]
        exact List.mem_map.mpr ⟨entry, member, same.symm⟩)
    rw [List.flatMap_append, old, List.flatMap_singleton, List.lookup_append, unknown,
      Option.none_or, List.lookup_cons_self, Option.getD_some, targetsOf, firstOccurrences_append]

/-- The rules that a log remembers, and their targets. -/
theorem StationLog.foldl_produce (productions : List (RuleId × List Identifier)) :
    (∀ rule, (productions.foldl (fun log entry => log.produce entry.1 entry.2)
        ({} : StationLog)).tracked.contains rule = (productions.map (·.1)).contains rule) ∧
      (productions.foldl (fun log entry => log.produce entry.1 entry.2)
        ({} : StationLog)).produced = targetsOf productions := by
  induction productions using List.reverseRecOn with
  | nil => exact ⟨fun _ => rfl, rfl⟩
  | append_singleton productions entry induction =>
      rw [List.foldl_append, List.foldl_cons, List.foldl_nil, targetsOf_concat, ← induction.1,
        ← induction.2, List.map_append, List.map_singleton]
      rcases induction with ⟨tracked, _⟩
      generalize productions.foldl _ ({} : StationLog) = log at tracked ⊢
      rw [produce]
      split
      · rename_i known
        refine ⟨fun rule => ?_, rfl⟩
        rw [tracked] at known ⊢
        rw [Bool.eq_iff_iff]
        simp only [List.contains_iff_mem, List.mem_append, List.mem_singleton] at known ⊢
        exact ⟨.inl, fun either => either.elim id fun same => same ▸ known⟩
      · refine ⟨fun rule => ?_, rfl⟩
        rw [List.contains_cons, tracked, Bool.eq_iff_iff]
        simp only [Bool.or_eq_true, beq_iff_eq, List.contains_iff_mem, List.mem_append,
          List.mem_singleton]
        exact or_comm

theorem Act.foldl_remember (acts : List Act) (station : StationId) (log : StationLog) :
    acts.foldl (Act.remember station) log =
      (productions acts station).foldl (fun log entry => log.produce entry.1 entry.2) log := by
  induction acts generalizing log with
  | nil => rfl
  | cons act rest induction =>
      rw [List.foldl_cons, induction, productions, productions, List.filterMap_cons]
      match act with
      | .write _ | .reset _ | .work _ _ _ false => rfl
      | .work worker rule targets true =>
          by_cases same : worker = station <;> simp [remember, production?, same]

/-! ## Stores at work -/

namespace Store.Worked

section Produced

variable {engine : Engine σ} {owner : Option Owner} {acts : List Act} {store : Store σ}

theorem produced_eq (worked : Worked engine (.new engine.registry owner) acts store)
    (station : StationId) : store.produced station = targetsOf (Act.productions acts station) := by
  have work := worked.explained.work station
  have fresh : ((Store.new engine.registry owner).logOf station).work = {} := rfl
  rw [fresh, Act.foldl_remember] at work
  have produced := congrArg StationLog.produced work
  rwa [(StationLog.foldl_produce _).2] at produced

/-- What a workstation has produced in a store are the targets of the rules that it executed
there tracked, in the order in which these executions began, and each identifier once. It
stays so whatever scripts do, also in listeners. Resetting what was produced gives just the
entries of these identifiers their initial values, and changes nothing else. -/
theorem tracked_productions (worked : Worked engine (.new engine.registry owner) acts store)
    (station : StationId) :
    store.produced station = targetsOf (Act.productions acts station) ∧
    (store.produced station).Nodup ∧
    (∀ access (script : Script σ access) depth world outcome after, world.store = store →
      script.play engine (engine.respond depth) world = some (outcome, after) →
      ∃ more, (script.journal engine depth).run [] world = some ((outcome, more), after) ∧
        Worked engine (.new engine.registry owner) (acts ++ more) after.store ∧
        after.store.produced station = targetsOf (Act.productions (acts ++ more) station)) ∧
    ∀ world : World σ, world.store = store →
      Run.reset (.produced station) world = some (0, { world with
        store := { store with
          entries := store.entries.map fun entry =>
            if entry.record.id ∈ targetsOf (Act.productions acts station) then
              { entry with
                value := if entry.record.cycle = .event then 0 else entry.record.bounds.initial }
            else entry } }) := by
  have produced := worked.produced_eq station
  refine ⟨produced, ?_, ?_, ?_⟩
  · rw [produced]
    exact nodup_firstOccurrences _
  · intro access script depth world outcome after same ran
    rcases worked.further script depth same ran with ⟨more, journaled, further⟩
    exact ⟨more, journaled, further, further.produced_eq station⟩
  · rintro world rfl
    have reset : Run.reset (.produced station) world =
        some (0, { world with store := world.store.resetProduced station }) := rfl
    rw [reset, resetProduced, resetEach_entries, produced]
    rfl

end Produced

/-! ### A workstation that is called while it works -/

namespace Workshop

/-- An engine that knows five names, each of a type of its own. -/
def engine : Engine Nat where
  registry := .ofRequests [.addName "metal" "iron" 0 .temporary {},
    .addName "ware" "tool" 0 .temporary {}, .addName "money" "profit" 0 .day { initial := 7 },
    .addName "sound" "noise" 0 .event {}, .addName "soil" "dirt" 0 .temporary {}]
  functions := Function.builtins
  settings := {}

def iron : Identifier := ⟨0x1000001, Nat.one_ne_zero⟩

def tool : Identifier := ⟨0x2000001, Nat.one_ne_zero⟩

def profit : Identifier := ⟨0x3000001, Nat.one_ne_zero⟩

def noise : Identifier := ⟨0x4000001, Nat.one_ne_zero⟩

def dirt : Identifier := ⟨0x5000001, Nat.one_ne_zero⟩

def smith : StationId := ⟨0⟩

def neighbour : StationId := ⟨1⟩

/-- The operations `iron=1 tool=2`. -/
def forge : OperationRule :=
  ⟨⟨0⟩, [⟨⟨iron, "iron"⟩, .set, .constant 1⟩, ⟨⟨tool, "tool"⟩, .set, .constant 2⟩], ' '⟩

/-- The process `profit=3`. -/
def sell : ProcessRule :=
  .ofSteps ⟨1⟩ ' ' engine.registry.identifier? [.assign ⟨"profit", .set, .constant 3⟩]

/-- The operations `noise=1`. -/
def ring : OperationRule := ⟨⟨2⟩, [⟨⟨noise, "noise"⟩, .set, .constant 1⟩], ' '⟩

/-- The operations `dirt=1`. -/
def sweep : OperationRule := ⟨⟨3⟩, [⟨⟨dirt, "dirt"⟩, .set, .constant 1⟩], ' '⟩

/-- Whenever iron is written, the smith sells. The smith forges, the neighbour rings, the
smith sweeps untracked and forges again. -/
def script : Script Nat .writing :=
  .subscribe .store iron (fun _ => .workProcess smith sell true fun _ => .done) fun _ =>
    .workOperations smith forge true <| .workOperations neighbour ring true <|
      .workOperations smith sweep false <| .workOperations smith forge true .done

def opening : World Nat := engine.start 0 ⟨fun _ => 0, 0⟩

/-- What the script asks of the store. -/
def acts : List Act :=
  [.work smith ⟨0⟩ [iron, tool] true, .write iron, .work smith ⟨1⟩ [profit] true, .write profit,
    .write tool, .work neighbour ⟨2⟩ [noise] true, .write noise, .work smith ⟨3⟩ [dirt] false,
    .write dirt, .work smith ⟨0⟩ [iron, tool] true, .write iron, .work smith ⟨1⟩ [profit] true,
    .write tool]

end Workshop

open Workshop in
theorem tracked_productions_workshop :
    ∃ outcome after, (script.journal Workshop.engine 2).run [] opening =
        some ((outcome, Workshop.acts), after) ∧
      Worked Workshop.engine (.new Workshop.engine.registry) Workshop.acts after.store ∧
      after.store.produced smith = [iron, tool, profit] ∧
      after.store.produced neighbour = [noise] ∧
      ∃ last, Run.reset (.produced smith) after = some (0, last) ∧
        last.store.entries.map (fun entry => (entry.record.id, entry.value)) =
          [(iron, 0), (profit, 7), (tool, 0), (noise, 0), (dirt, 1)] := by
  have ran : ((script.journal Workshop.engine 2).run [] opening).map (fun result =>
      (result.1.2, result.2.store.entries.map fun entry =>
        (entry.record.id, entry.record.cycle, entry.record.bounds.initial, entry.value))) =
      some (Workshop.acts, [(iron, .temporary, 0, 1), (profit, .day, 7, 3),
        (tool, .temporary, 0, 2), (noise, .event, 0, 0), (dirt, .temporary, 0, 1)]) := by
    decide +kernel
  rcases Option.map_eq_some_iff.mp ran with ⟨⟨⟨outcome, acts⟩, after⟩, journaled, facts⟩
  simp only [Prod.mk.injEq] at facts
  rcases facts with ⟨rfl, entries⟩
  have worked : Worked Workshop.engine (.new Workshop.engine.registry) Workshop.acts
      after.store := .play script 2 .start journaled
  have bySmith := worked.tracked_productions smith
  have targets : targetsOf (Act.productions Workshop.acts smith) = [iron, tool, profit] := by
    decide
  refine ⟨outcome, after, journaled, worked, bySmith.1.trans targets,
    (worked.tracked_productions neighbour).1.trans (by decide), _, bySmith.2.2.2 after rfl, ?_⟩
  have restored := congrArg (List.map fun entry : Identifier × Cycle × Binary64 × Binary64 =>
    (entry.1, if entry.1 ∈ targetsOf (Act.productions Workshop.acts smith) then
      if entry.2.1 = .event then 0 else entry.2.2.1 else entry.2.2.2)) entries
  rw [List.map_map] at restored ⊢
  refine Eq.trans (List.map_congr_left fun entry _ => ?_) (restored.trans ?_)
  · simp only [Function.comp]
    split <;> rfl
  · rw [targets]
    decide +kernel

end Store.Worked

end NumericRules
