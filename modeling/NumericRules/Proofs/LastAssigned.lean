import NumericRules.Proofs.CompletedRuns
import NumericRules.Proofs.Productions
import NumericRules.Proofs.WellFormedRules

/-! # The last assigned value

A run that shows its result alone prints, if it is not that of a process, the value of one
of the names assigned. This is not always the name that was assigned last: names are listed
in the order in which they were first assigned, and the last one of the list is shown.
-/

namespace NumericRules

/-! ## Newest items -/

section Newest

variable {α : Type} {items : List α} {item : α}

/-- The item is the last one of a list that occurs for the first time: what follows has
occurred before. -/
def IsNewest (items : List α) (item : α) : Prop :=
  ∃ earlier later, items = earlier ++ item :: later ∧ item ∉ earlier ∧
    ∀ other ∈ later, other ∈ earlier ∨ other = item

theorem isNewest_concat_of_mem {last : α} (known : last ∈ items) :
    IsNewest (items ++ [last]) item ↔ IsNewest items item := by
  constructor
  · rintro ⟨earlier, later, split, fresh, repeated⟩
    rcases List.eq_nil_or_concat later with rfl | ⟨initial, final, rfl⟩
    · rcases List.append_inj' split rfl with ⟨rfl, same⟩
      cases same
      exact absurd known fresh
    · have parts : items = earlier ++ item :: initial ∧ [last] = [final] :=
        List.append_inj' (split.trans (by simp)) rfl
      refine ⟨earlier, initial, parts.1, fresh, fun other member => ?_⟩
      exact repeated other (by simp [member])
  · rintro ⟨earlier, later, rfl, fresh, repeated⟩
    refine ⟨earlier, later ++ [last], by simp, fresh, fun other member => ?_⟩
    rcases List.mem_append.mp member with inLater | isLast
    · exact repeated other inLater
    · rw [List.mem_singleton.mp isLast]
      rcases List.mem_append.mp known with inEarlier | inRest
      · exact .inl inEarlier
      · rcases List.mem_cons.mp inRest with same | inLater
        · exact .inr same
        · exact repeated last inLater

theorem isNewest_concat_of_not_mem {last : α} (unknown : last ∉ items) :
    IsNewest (items ++ [last]) item ↔ item = last := by
  constructor
  · rintro ⟨earlier, later, split, fresh, repeated⟩
    rcases List.eq_nil_or_concat later with rfl | ⟨initial, final, rfl⟩
    · have parts := List.append_inj' split rfl
      exact (List.singleton_inj.mp parts.2).symm
    · have parts : items = earlier ++ item :: initial ∧ [last] = [final] :=
        List.append_inj' (split.trans (by simp)) rfl
      rw [parts.1] at unknown
      rcases repeated final (by simp) with inEarlier | same
      · simp [List.singleton_inj.mp parts.2, inEarlier] at unknown
      · simp [List.singleton_inj.mp parts.2, same] at unknown
  · rintro rfl
    exact ⟨items, [], rfl, unknown, List.forall_mem_nil _⟩

/-- It is the last one that is kept where each item is kept once. -/
theorem getLast?_firstOccurrences [BEq α] [LawfulBEq α] (items : List α) (item : α) :
    (firstOccurrences items).getLast? = some item ↔ IsNewest items item := by
  induction items using List.reverseRecOn with
  | nil =>
      constructor
      · intro nothing
        cases nothing
      · rintro ⟨earlier, later, split, _⟩
        simp at split
  | append_singleton items last induction =>
      rw [firstOccurrences_concat]
      by_cases known : last ∈ items
      · rw [if_pos (by simpa using known), isNewest_concat_of_mem known, induction]
      · rw [if_neg (by simpa using known), isNewest_concat_of_not_mem known]
        simp [eq_comm]

theorem exists_isNewest [BEq α] [LawfulBEq α] (filled : items ≠ []) :
    ∃ item, IsNewest items item := by
  rcases List.exists_mem_of_ne_nil items filled with ⟨item, member⟩
  have kept : item ∈ firstOccurrences items := mem_firstOccurrences.mpr member
  exact ⟨_, (getLast?_firstOccurrences items _).mp
    (List.getLast?_eq_some_getLast (List.ne_nil_of_mem kept))⟩

theorem IsNewest.unique [BEq α] [LawfulBEq α] {other : α} (newest : IsNewest items item)
    (alsoNewest : IsNewest items other) : other = item := by
  rw [← getLast?_firstOccurrences] at newest alsoNewest
  exact Option.some.inj (alsoNewest.symm.trans newest)

end Newest

/-! ## What one rule produces -/

/-- At a workstation that has done nothing yet, the targets of a rule are what is produced. -/
theorem Store.produced_produce {store : Store σ} (unused : store.logs = []) (station : StationId)
    (rule : RuleId) (targets : List Identifier) :
    (store.produce station rule targets).produced station = firstOccurrences targets := by
  simp [produce, updateLog, produced, logOf, unused, StationLog.produce]

namespace CommandLine

/-! ## Runs of assignments -/

/-- What a run of assignments does before it shows what they have produced. -/
def runAssignments (engine : PlainEngine) (text : String) (seeds : List Seed) :
    Run Unit (Except Failure StationId) := do
  let station ← Run.newStation
  plant engine seeds
  match ← engine.parseOperations text with
  | .error error => pure (.error (.library error))
  | .ok rule => do
      (responderOf engine).workOperations engine station rule true
      pure (.ok station)

/-- Then it shows what is there. -/
theorem run_of_runAssignments {engine : PlainEngine} {text : String} {seeds : List Seed}
    {start after : World Unit} {station : StationId}
    (ran : runAssignments engine text seeds start = some (.ok station, after)) (raw : Bool) :
    run engine text seeds false raw start = showProduced engine station none raw after := by
  rcases Run.bind_eq_some ran with ⟨opened, first, opens, ran⟩
  rcases Run.bind_eq_some ran with ⟨_, second, plants, ran⟩
  rcases Run.bind_eq_some ran with ⟨outcome, third, parses, ran⟩
  cases outcome with
  | error error => cases ran
  | ok rule =>
      rcases Run.bind_eq_some ran with ⟨_, fourth, works, finishes⟩
      cases finishes
      simp only [run, Run.bind_apply, opens, plants, Bool.false_eq_true, if_false, parses, works]

/-! ## What is shown -/

section Shown

variable {engine : PlainEngine} {world : World Unit} {value : Identifier → Binary64}
  (reads : ∀ id, (responderOf engine).read id world = some (value id, world))

include reads

/-- Names that are registered are shown with their values. -/
theorem namedValues_run {ids : List Identifier}
    (named : ∀ id ∈ ids, (engine.registry.name? id).isSome = true) :
    ∃ rows, namedValues engine ids world = some (rows, world) ∧
      rows.map Prod.snd = ids.map value := by
  induction ids with
  | nil => exact ⟨[], rfl, rfl⟩
  | cons id rest induction =>
      rcases List.forall_mem_cons.mp named with ⟨isNamed, others⟩
      rcases induction others with ⟨rows, shows, values⟩
      rcases Option.isSome_iff_exists.mp isNamed with ⟨name, known⟩
      refine ⟨(name, value id) :: rows, ?_, by simp [values]⟩
      simp only [namedValues, Run.bind_apply, reads, shows, known]
      rfl

theorem showProduced_raw {station : StationId} {newest : Identifier}
    (named : ∀ id ∈ world.store.produced station, (engine.registry.name? id).isSome = true)
    (isLast : (world.store.produced station).getLast? = some newest) :
    showProduced engine station none true world =
      some (.ok { output := Binary64.format (value newest) ++ "\n" }, world) := by
  rcases namedValues_run reads named with ⟨rows, shows, values⟩
  have shown : rows.getLast?.map Prod.snd = some (value newest) := by
    rw [← List.getLast?_map, values, List.getLast?_map, isLast]
    rfl
  rw [showProduced, Run.store_bind, Run.bind_apply, shows]
  simp only [shown, if_true, Option.none_or, Option.getD_some]
  rfl

end Shown

/-! ## Engines of the command line -/

section Assignments

variable {engine : PlainEngine} (selfContained : engine.SelfContained)

include selfContained

theorem responderOf_completes (request : Request) : (responderOf engine request).Completes :=
  engine.respond_completes selfContained.immediate 0 request

/-- Assignments that are accepted are carried out, and the workstation has produced their
targets. -/
theorem runAssignments_accepted {text : String} {assignments : List (Assignment Reference)}
    (accepted : engine.readOperations text = .ok assignments) (seeds : List Seed) (dice : Dice) :
    ∃ station world,
      runAssignments engine text seeds (engine.start () dice) = some (.ok station, world) ∧
      world.store.produced station = firstOccurrences (assignments.map (·.target.id)) := by
  have answers := responderOf_completes selfContained
  let opened : World Unit := { engine.start () dice with stations := 1 }
  have unheard : opened.Unheard := fun _ => ⟨rfl, rfl⟩
  rcases Responder.writeAll_has Run.Completes.compositional answers
    (seeds.filterMap fun seed => (engine.registry.identifier? seed.name).map (·, seed.value))
    opened unheard with ⟨_, planted, plants, same⟩
  let rule : OperationRule := ⟨⟨planted.readings⟩, assignments, engine.settings.stepSeparator⟩
  let numbered : World Unit := { planted with readings := planted.readings + 1 }
  let recorded : World Unit :=
    { numbered with store := numbered.store.produce ⟨0⟩ rule.id rule.targets }
  have parses : engine.parseOperations text planted = some (.ok rule, numbered) := by
    rw [Engine.parseOperations, accepted]
    rfl
  rcases Responder.assignAll_has Run.Completes.compositional answers engine assignments recorded
    (unheard.kept same.1) with ⟨_, world, assigns, kept⟩
  have works : (responderOf engine).workOperations engine ⟨0⟩ rule true numbered =
      some ((), world) := by
    rw [Responder.workOperations_eq, Run.bind_apply]
    exact assigns
  refine ⟨⟨0⟩, world, ?_, ?_⟩
  · have opens : Run.newStation (engine.start () dice) = some (⟨0⟩, opened) := rfl
    simp only [runAssignments, plant, Run.bind_apply, opens, plants, parses, works]
    rfl
  · have unused : numbered.store.logs = [] := same.2
    rw [← Store.produced_produce unused ⟨0⟩ rule.id]
    simp only [Store.produced, Store.logOf, kept.2]
    rfl

/-- Every name can be read, and that changes nothing. -/
theorem exists_value (world : World Unit) :
    ∃ value : Identifier → Binary64, ∀ id,
      (responderOf engine).read id world = some (value id, world) :=
  ⟨fun id => (engine.read_immediate selfContained.immediate 0 id world).choose,
    fun id => (engine.read_immediate selfContained.immediate 0 id world).choose_spec⟩

/-- The targets of accepted assignments have names. -/
theorem isNamed_of_accepted {text : String} {assignments : List (Assignment Reference)}
    (accepted : engine.readOperations text = .ok assignments) :
    ∀ id ∈ assignments.map (·.target.id), (engine.registry.name? id).isSome = true := by
  have functions : engine.functions.Reachable := selfContained.functions ▸ .builtins
  intro id member
  rcases List.mem_map.mp member with ⟨assignment, inside, rfl⟩
  have registers := (Engine.registers_of_readOperations selfContained.reachable functions accepted
    assignment inside).1
  exact Option.isSome_iff_exists.mpr ⟨_, registers.1⟩

end Assignments

section Printing

variable {files : Files} {words operands pairs : List String} {invocation : Invocation}
  {file? : Option String} {traced : Bool} {text : String} {seeds : List Seed}
  {engine : PlainEngine} {assignments : List (Assignment Reference)}

/-- A run is worked with the engine that its catalog, its seeds and its options make. -/
theorem outcomeOf_run (given : readArguments words = .ok invocation) {isProcess raw : Bool}
    (command : invocation.command = .run operands file? isProcess traced raw)
    (source : runSource files operands file? = .ok (text, pairs))
    (read : pairs.mapM Seed.read = .ok seeds)
    (prepared : engineFor files invocation.catalog? seeds traced = .ok engine) (dice : Dice) :
    outcomeOf files dice words = work engine dice (run engine text seeds isProcess raw) := by
  have performed : perform files dice invocation =
      .ok (work engine dice (run engine text seeds isProcess raw)) := by
    rw [perform, command]
    simp only [Grammar.bind_of_ok source, Grammar.bind_of_ok read, Grammar.bind_of_ok prepared]
    rfl
  simp only [outcomeOf, given, performed]

/-- Where its result alone is asked for, a run of assignments that are accepted always has one,
whatever the catalog, the seeds and the assignments are. It prints what the name holds that
was the last one to be assigned for the first time. What the target of the last assignment
holds is printed exactly if no other name is assigned for the first time behind the first
assignment of that target, or if the two values have the same text. -/
theorem raw_prints_newest (given : readArguments words = .ok invocation)
    (command : invocation.command = .run operands file? false traced true)
    (source : runSource files operands file? = .ok (text, pairs))
    (read : pairs.mapM Seed.read = .ok seeds)
    (prepared : engineFor files invocation.catalog? seeds traced = .ok engine)
    (accepted : engine.readOperations text = .ok assignments) (dice : Dice) :
    ∃ (station : StationId) (world : World Unit) (value : Identifier → Binary64)
      (newest last : Identifier),
      runAssignments engine text seeds (engine.start () dice) = some (.ok station, world) ∧
      (∀ id, (responderOf engine).read id world = some (value id, world)) ∧
      IsNewest (assignments.map (·.target.id)) newest ∧
      (assignments.map (·.target.id)).getLast? = some last ∧
      outcomeOf files dice words =
        { output := Binary64.format (value newest) ++ "\n", log := world.log } ∧
      ((outcomeOf files dice words).output = Binary64.format (value last) ++ "\n" ↔
        IsNewest (assignments.map (·.target.id)) last ∨
          Binary64.format (value newest) = Binary64.format (value last)) := by
  have selfContained := selfContained_of_engineFor prepared
  have filled : assignments.map (·.target.id) ≠ [] := by
    simpa using (Grammar.wholeOperations_iff.mp (Engine.parse_of_readText accepted)).1
  rcases exists_isNewest filled with ⟨newest, isNewest⟩
  rcases runAssignments_accepted selfContained accepted seeds dice with
    ⟨station, world, ran, produced⟩
  rcases exists_value selfContained world with ⟨value, reads⟩
  have named : ∀ id ∈ world.store.produced station,
      (engine.registry.name? id).isSome = true := by
    intro id member
    rw [produced, mem_firstOccurrences] at member
    exact isNamed_of_accepted selfContained accepted id member
  have shows := showProduced_raw reads named
    (produced ▸ (getLast?_firstOccurrences _ _).mpr isNewest)
  have outcome : outcomeOf files dice words =
      { output := Binary64.format (value newest) ++ "\n", log := world.log } := by
    have worked : (run engine text seeds false true).run (engine.start () dice) =
        some (.ok { output := Binary64.format (value newest) ++ "\n" }, world) :=
      (run_of_runAssignments ran true).trans shows
    rw [outcomeOf_run given command source read prepared, work, worked]
  refine ⟨station, world, value, newest, _, ran, reads, isNewest,
    List.getLast?_eq_some_getLast filled, outcome, ?_⟩
  rw [outcome, String.append_left_inj]
  constructor
  · exact .inr
  · rintro (lastNewest | same)
    · rw [isNewest.unique lastNewest]
    · exact same

end Printing

/-! ### Two names -/

namespace Pair

/-- No file can be read. -/
def files : Files := .error

def seeds : List Seed := [⟨"a", 0⟩, ⟨"b", 0⟩]

def words (text : String) : List String := ["run", text, "a=0", "b=0", "--raw"]

def dice : Dice := ⟨fun _ => 0, 0⟩

/-- The names have a type of their own behind those of texts and constants. -/
def first : Identifier := ⟨0x3000001, Nat.one_ne_zero⟩

theorem secondRaw_ne_zero : 2 ≠ 0 := Nat.succ_ne_zero 1

def second : Identifier := ⟨0x3000002, secondRaw_ne_zero⟩

/-- The targets of a text that is accepted. -/
def targets? (text : String) : Option (List Identifier) := do
  let engine ← (engineFor files none seeds false).toOption
  let assignments ← (engine.readOperations text).toOption
  pure (assignments.map (·.target.id))

/-- What a name holds after a run. -/
def valueAfter? (text : String) (id : Identifier) : Option Binary64 := do
  let engine ← (engineFor files none seeds false).toOption
  let outcome ← (runAssignments engine text seeds).run (engine.start () dice)
  let answer ← ((responderOf engine).read id).run outcome.2
  pure answer.1

theorem ok_of_toOption {ε : Type} {result : Except ε α} {answer : α}
    (outcome : result.toOption = some answer) : result = .ok answer := by
  cases result <;> cases outcome
  rfl

theorem accepted_of_targets? {text : String} {ids : List Identifier}
    (known : targets? text = some ids) :
    ∃ (engine : PlainEngine) (assignments : List (Assignment Reference)),
      engineFor files none seeds false = .ok engine ∧
      engine.readOperations text = .ok assignments ∧ assignments.map (·.target.id) = ids := by
  rw [targets?, Option.bind_eq_bind, Option.bind_eq_some_iff] at known
  rcases known with ⟨engine, prepared, known⟩
  rw [Option.bind_eq_bind, Option.bind_eq_some_iff] at known
  rcases known with ⟨assignments, accepted, same⟩
  exact ⟨engine, assignments, ok_of_toOption prepared, ok_of_toOption accepted,
    Option.some.inj same⟩

end Pair

open Pair in
/-- No name is new behind the first assignment of the last target. -/
theorem raw_prints_newest_repeated :
    targets? "a = 1 b = 2 b = 7" = some [first, second, second] ∧
      ∃ (engine : PlainEngine) (station : StationId) (world : World Unit)
        (value : Identifier → Binary64),
        engineFor files none seeds false = .ok engine ∧
        runAssignments engine "a = 1 b = 2 b = 7" seeds (engine.start () dice) =
          some (.ok station, world) ∧
        (∀ id, (responderOf engine).read id world = some (value id, world)) ∧
        (outcomeOf files dice (words "a = 1 b = 2 b = 7")).output =
          Binary64.format (value second) ++ "\n" := by
  have targets : targets? "a = 1 b = 2 b = 7" = some [first, second, second] := by decide +kernel
  refine ⟨targets, ?_⟩
  rcases accepted_of_targets? targets with ⟨engine, assignments, prepared, accepted, same⟩
  have given : readArguments (words "a = 1 b = 2 b = 7") = .ok
      ⟨none, false, .run ["a = 1 b = 2 b = 7", "a=0", "b=0"] none false false true⟩ := rfl
  have source : runSource files ["a = 1 b = 2 b = 7", "a=0", "b=0"] none =
      .ok ("a = 1 b = 2 b = 7", ["a=0", "b=0"]) := rfl
  have read : ["a=0", "b=0"].mapM Seed.read = .ok seeds := rfl
  rcases raw_prints_newest given rfl source read prepared accepted dice with
    ⟨station, world, value, newest, last, ran, reads, isNewest, isLast, outcome, iff⟩
  rw [same] at isLast iff
  cases isLast
  refine ⟨engine, station, world, value, prepared, ran, reads, iff.mpr (.inl ?_)⟩
  exact (getLast?_firstOccurrences _ _).mp (by decide)

open Pair in
/-- What is shown is not what the target of the last assignment holds. -/
theorem raw_prints_earlier :
    targets? "a = 1 b = 2 a = 3" = some [first, second, first] ∧
      valueAfter? "a = 1 b = 2 a = 3" first = some 3 ∧
      (outcomeOf files dice (words "a = 1 b = 2 a = 3")).output = "2\n" := by
  decide +kernel

end CommandLine

end NumericRules
