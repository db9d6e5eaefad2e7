import NumericRules.Proofs.Skips

/-! # Code that is not reached

What an evaluation does not reach may be anything: with another formula or condition in its
place the evaluation goes the same way. A branch that is not chosen is not reached, nor is
the right side of a decided connective or an argument that nobody asks for, nor anything
inside of these.
-/

namespace NumericRules

/-! ## Parts of trees -/

mutual
/-- The second formula is the first one with something else of the same kind at a place. -/
inductive Formula.Replaced {ν : Type} : Formula ν → List Nat → Formula ν → Prop
  | here (old new : Formula ν) : Formula.Replaced old [] new
  | left (operator : Operator) (right : Formula ν) : Formula.Replaced old path new →
      Formula.Replaced (.binary old operator right) (0 :: path) (.binary new operator right)
  | right (left : Formula ν) (operator : Operator) : Formula.Replaced old path new →
      Formula.Replaced (.binary left operator old) (1 :: path) (.binary left operator new)
  | inner : Formula.Replaced old path new →
      Formula.Replaced (.negate old) (0 :: path) (.negate new)
  | argument (function : String) (before after : List (Formula ν)) :
      Formula.Replaced old path new →
      Formula.Replaced (.call function (before ++ old :: after)) (before.length :: path)
        (.call function (before ++ new :: after))
  | test (whenTrue whenFalse : Formula ν) : Condition.Replaced old path new →
      Formula.Replaced (.choose old whenTrue whenFalse) (0 :: path)
        (.choose new whenTrue whenFalse)
  | whenTrue (test : Condition ν) (whenFalse : Formula ν) : Formula.Replaced old path new →
      Formula.Replaced (.choose test old whenFalse) (1 :: path) (.choose test new whenFalse)
  | whenFalse (test : Condition ν) (whenTrue : Formula ν) : Formula.Replaced old path new →
      Formula.Replaced (.choose test whenTrue old) (2 :: path) (.choose test whenTrue new)

/-- The second condition is the first one with something else of the same kind at a place. -/
inductive Condition.Replaced {ν : Type} : Condition ν → List Nat → Condition ν → Prop
  | here (old new : Condition ν) : Condition.Replaced old [] new
  | compareLeft (comparison : Comparison) (right : Formula ν) : Formula.Replaced old path new →
      Condition.Replaced (.compare old comparison right) (0 :: path)
        (.compare new comparison right)
  | compareRight (left : Formula ν) (comparison : Comparison) : Formula.Replaced old path new →
      Condition.Replaced (.compare left comparison old) (1 :: path)
        (.compare left comparison new)
  | connectLeft (connective : Connective) (right : Condition ν) :
      Condition.Replaced old path new →
      Condition.Replaced (.connect old connective right) (0 :: path)
        (.connect new connective right)
  | connectRight (left : Condition ν) (connective : Connective) :
      Condition.Replaced old path new →
      Condition.Replaced (.connect left connective old) (1 :: path)
        (.connect left connective new)
end

/-! ## Runs that agree unless a place is reached -/

namespace Followed

/-- From where the first run does not reach the place, the second one is the same. -/
def AgreeOff (place : List Nat) (left right : Followed σ α) : Prop :=
  ∀ world, ¬ left.Reaches world place → right world = left world

namespace AgreeOff

variable {place : List Nat}

theorem refl (followed : Followed σ α) : AgreeOff place followed followed := fun _ _ => rfl

theorem bind {left right : Followed σ α} {next other : α → Followed σ β}
    (first : AgreeOff place left right)
    (later : ∀ value, AgreeOff place (next value) (other value)) :
    AgreeOff place (left >>= next) (right >>= other) := by
  intro world unreached
  rw [bind_apply, bind_apply]
  rcases ran : left world with ⟨_ | ⟨value, after⟩, happened⟩
  · rw [Reaches, bind_apply, ran] at unreached
    have same := first world (by rwa [Reaches, ran])
    rw [same, ran]
  · simp only [Reaches, bind_apply, ran, List.mem_append, not_or] at unreached
    have same := first world (by rw [Reaches, ran]; exact unreached.1)
    rw [same, ran]
    simp only [later value after unreached.2]

/-- What begins by reaching the place agrees with anything. -/
theorem of_visit (left right : Followed σ α) :
    AgreeOff place (do note (.visit place); left) right :=
  fun _ unreached => absurd List.mem_cons_self unreached

/-- Runs that agree have the same result where the place is not reached. -/
theorem of_erase {left right : Followed σ α} {run other : Run σ α}
    (agree : AgreeOff place left right) (ofLeft : left.erase = run) (ofRight : right.erase = other)
    {world : World σ} (unreached : ¬ left.Reaches world place) :
    other world = run world ∧ right world = left world := by
  have same := agree world unreached
  refine ⟨?_, same⟩
  rw [← ofLeft, ← ofRight]
  exact congrArg Prod.fst same

theorem getD {arguments others : List (Followed σ α)}
    (agree : List.Forall₂ (AgreeOff place) arguments others) (index : Nat)
    (missing : Followed σ α) :
    AgreeOff place ((arguments[index]?).getD missing) ((others[index]?).getD missing) := by
  induction agree generalizing index with
  | nil => exact refl _
  | cons head _ induction =>
      cases index with
      | zero => exact head
      | succ index => exact induction index

end AgreeOff

end Followed

open Followed (note AgreeOff)

/-- Functions that are given arguments which agree. -/
theorem Plan.follow_agree (identifier : Identifier → Run σ Binary64) {reached : List Nat}
    {arguments others : List (Followed σ Binary64)}
    (agree : List.Forall₂ (AgreeOff reached) arguments others) (place : List Nat)
    (plan : Plan σ) :
    AgreeOff reached (plan.follow identifier arguments place)
      (plan.follow identifier others place) := by
  induction plan with
  | answer value => exact .refl _
  | argument index next induction =>
      exact (AgreeOff.refl _).bind fun _ => (AgreeOff.getD agree index _).bind fun value =>
        (AgreeOff.refl _).bind fun _ => induction value
  | read id next induction => exact (AgreeOff.refl _).bind induction
  | host update next induction => exact (AgreeOff.refl _).bind induction
  | draw low high next induction => exact (AgreeOff.refl _).bind induction

section Trees

variable (functions : FunctionTable σ) (scope : Scope σ ν)

theorem Formula.follow_visits (formula : Formula ν) (place : List Nat) :
    ∃ rest, formula.follow functions scope place = (do note (.visit place); rest) := by
  cases formula <;> exact ⟨_, rfl⟩

theorem Condition.follow_visits (condition : Condition ν) (place : List Nat) :
    ∃ rest, condition.follow functions scope place = (do note (.visit place); rest) := by
  cases condition <;> exact ⟨_, rfl⟩

theorem Formula.followings_append (place : List Nat) (index : Nat)
    (before after : List (Formula ν)) :
    Formula.followings functions scope place index (before ++ after) =
      Formula.followings functions scope place index before ++
        Formula.followings functions scope place (index + before.length) after := by
  induction before generalizing index with
  | nil => rfl
  | cons head tail induction =>
      simp only [List.cons_append, Formula.followings, induction, List.length_cons]
      congr 3
      omega

/-- Calls with arguments of which one agrees. -/
theorem Formula.call_agree (function : String) (before after : List (Formula ν))
    {old new : Formula ν} {reached : List Nat} (place : List Nat)
    (agree : AgreeOff reached (old.follow functions scope (place ++ [before.length]))
      (new.follow functions scope (place ++ [before.length]))) :
    AgreeOff reached
      ((Formula.call function (before ++ old :: after)).follow functions scope place)
      ((Formula.call function (before ++ new :: after)).follow functions scope place) := by
  have arguments : List.Forall₂ (AgreeOff reached)
      (Formula.followings functions scope place 0 (before ++ old :: after))
      (Formula.followings functions scope place 0 (before ++ new :: after)) := by
    have same (formulas : List (Formula ν)) (index : Nat) : List.Forall₂ (AgreeOff reached)
        (Formula.followings functions scope place index formulas)
        (Formula.followings functions scope place index formulas) :=
      List.forall₂_same.mpr fun _ _ => .refl _
    rw [Formula.followings_append, Formula.followings_append]
    refine List.rel_append (same before 0) (.cons ?_ (same after _))
    simpa only [Nat.zero_add] using agree
  have count : (before ++ new :: after).length = (before ++ old :: after).length := by simp
  refine (AgreeOff.refl _).bind fun _ => ?_
  rw [count]
  cases functions.plan? function (before ++ old :: after).length with
  | none => exact .refl _
  | some plan =>
      exact (AgreeOff.refl _).bind fun _ => plan.follow_agree scope.identifier arguments place

mutual
theorem Formula.Replaced.follow_agree {old new : Formula ν} {path : List Nat} (place : List Nat) :
    old.Replaced path new →
      AgreeOff (place ++ path) (old.follow functions scope place) (new.follow functions scope place)
  | .here old new => by
      rcases old.follow_visits functions scope place with ⟨rest, visits⟩
      rw [visits, List.append_nil]
      exact .of_visit rest _
  | .left operator right replaced => by
      rw [List.append_cons]
      exact (AgreeOff.refl _).bind fun _ => (replaced.follow_agree (place ++ [0])).bind fun _ =>
        .refl _
  | .right left operator replaced => by
      rw [List.append_cons]
      exact (AgreeOff.refl _).bind fun _ => (AgreeOff.refl _).bind fun _ =>
        (replaced.follow_agree (place ++ [1])).bind fun _ => .refl _
  | .inner replaced => by
      rw [List.append_cons]
      exact (AgreeOff.refl _).bind fun _ => (replaced.follow_agree (place ++ [0])).bind fun _ =>
        .refl _
  | .argument function before after replaced => by
      rw [List.append_cons]
      exact Formula.call_agree functions scope function before after place
        (replaced.follow_agree (place ++ [before.length]))
  | .test whenTrue whenFalse replaced => by
      rw [List.append_cons]
      exact (AgreeOff.refl _).bind fun _ => (replaced.follow_agree (place ++ [0])).bind fun _ =>
        .refl _
  | .whenTrue test whenFalse replaced => by
      rw [List.append_cons]
      refine (AgreeOff.refl _).bind fun _ => (AgreeOff.refl _).bind fun holds => ?_
      cases holds with
      | true => exact replaced.follow_agree (place ++ [1])
      | false => exact .refl _
  | .whenFalse test whenTrue replaced => by
      rw [List.append_cons]
      refine (AgreeOff.refl _).bind fun _ => (AgreeOff.refl _).bind fun holds => ?_
      cases holds with
      | true => exact .refl _
      | false => exact replaced.follow_agree (place ++ [2])

theorem Condition.Replaced.follow_agree {old new : Condition ν} {path : List Nat}
    (place : List Nat) : old.Replaced path new →
      AgreeOff (place ++ path) (old.follow functions scope place) (new.follow functions scope place)
  | .here old new => by
      rcases old.follow_visits functions scope place with ⟨rest, visits⟩
      rw [visits, List.append_nil]
      exact .of_visit rest _
  | .compareLeft comparison right replaced => by
      rw [List.append_cons]
      exact (AgreeOff.refl _).bind fun _ => (replaced.follow_agree (place ++ [0])).bind fun _ =>
        .refl _
  | .compareRight left comparison replaced => by
      rw [List.append_cons]
      exact (AgreeOff.refl _).bind fun _ => (AgreeOff.refl _).bind fun _ =>
        (replaced.follow_agree (place ++ [1])).bind fun _ => .refl _
  | .connectLeft connective right replaced => by
      rw [List.append_cons]
      exact (AgreeOff.refl _).bind fun _ => (replaced.follow_agree (place ++ [0])).bind fun _ =>
        .refl _
  | .connectRight left connective replaced => by
      rw [List.append_cons]
      refine (AgreeOff.refl _).bind fun _ => (AgreeOff.refl _).bind fun holds => ?_
      split
      · exact .refl _
      · exact replaced.follow_agree (place ++ [1])
end

end Trees

/-! ## Statements with replaced parts -/

/-- The second step is the first one with something else of the same kind at a place. -/
inductive Step.Replaced : Step Slot → List Nat → Step Slot → Prop
  | assign (target : Slot) (update : Update) : Formula.Replaced old path new →
      Step.Replaced (.assign ⟨target, update, old⟩) path (.assign ⟨target, update, new⟩)
  | condition (value : Formula Slot) : Condition.Replaced old path new →
      Step.Replaced (.return (some old) value) (0 :: path) (.return (some new) value)
  | value (condition : Option (Condition Slot)) : Formula.Replaced old path new →
      Step.Replaced (.return condition old) (1 :: path) (.return condition new)

theorem Step.Replaced.follow_agree {old new : Step Slot} {path : List Nat}
    (replaced : old.Replaced path new) (functions : FunctionTable σ) (values : SlotValues)
    (place : List Nat) :
    AgreeOff (place ++ path) (old.follow functions values place)
      (new.follow functions values place) := by
  cases replaced with
  | assign target update replaced =>
      exact (replaced.follow_agree functions values.scope place).bind fun _ => .refl _
  | condition value replaced =>
      rw [List.append_cons]
      exact (replaced.follow_agree functions values.scope (place ++ [0])).bind fun _ => .refl _
  | value condition replaced =>
      rw [List.append_cons]
      have agree := replaced.follow_agree functions values.scope (place ++ [1])
      cases condition with
      | none => exact agree.bind fun _ => .refl _
      | some condition =>
          refine (AgreeOff.refl _).bind fun ends => ?_
          cases ends with
          | false => exact .refl _
          | true => exact agree.bind fun _ => .refl _

theorem ProcessRule.followSteps_agree (functions : FunctionTable σ) {old new : Step Slot}
    {path : List Nat} (replaced : old.Replaced path new) (before after : List (Step Slot))
    (index : Nat) (values : SlotValues) :
    AgreeOff ((index + before.length) :: path)
      (followSteps functions index values (before ++ old :: after))
      (followSteps functions index values (before ++ new :: after)) := by
  induction before generalizing index values with
  | nil => exact (replaced.follow_agree functions values [index]).bind fun _ => .refl _
  | cons step rest induction =>
      refine (AgreeOff.refl _).bind fun outcome => ?_
      cases outcome.2 with
      | true => exact .refl _
      | false =>
          have later := induction (index + 1) outcome.1
          rwa [Nat.add_assoc, Nat.add_comm 1] at later

namespace Responder

variable (responder : Responder σ) (engine : Engine σ)

theorem followAll_agree {old new : Formula Reference} {path : List Nat}
    (replaced : old.Replaced path new) (target : Reference) (update : Update)
    (before after : List (Assignment Reference)) (index : Nat) :
    AgreeOff ((index + before.length) :: path)
      (responder.followAll engine index (before ++ ⟨target, update, old⟩ :: after))
      (responder.followAll engine index (before ++ ⟨target, update, new⟩ :: after)) := by
  induction before generalizing index with
  | nil =>
      exact (replaced.follow_agree engine.functions responder.scope [index]).bind fun _ => .refl _
  | cons assignment rest induction =>
      have later := induction (index + 1)
      rw [Nat.add_assoc, Nat.add_comm 1] at later
      exact (AgreeOff.refl _).bind fun _ => (AgreeOff.refl _).bind fun _ => later

theorem followProcess_agree {old new : Step Slot} {path : List Nat}
    (replaced : old.Replaced path new) (process : ProcessRule) (before after : List (Step Slot)) :
    AgreeOff (before.length :: path)
      (responder.followProcess engine { process with steps := before ++ old :: after })
      (responder.followProcess engine { process with steps := before ++ new :: after }) := by
  refine (AgreeOff.refl _).bind fun _ => (AgreeOff.refl _).bind fun loaded => ?_
  have steps := ProcessRule.followSteps_agree engine.functions replaced before after 0 loaded
  rw [Nat.zero_add] at steps
  exact steps.bind fun _ => .refl _

end Responder

/-! ## All that is evaluated -/

theorem World.SeenAlike.trans {first second third : World σ} (earlier : first.SeenAlike second)
    (later : second.SeenAlike third) : first.SeenAlike third := by
  rcases earlier with ⟨_, _, rfl⟩
  rcases later with ⟨pads, log, rfl⟩
  exact ⟨pads, log, rfl⟩

/-- Both runs have no result, or the same one in states that nobody tells apart. -/
def Run.AlikeFrom (world : World σ) (first second : Run σ α) : Prop :=
  Option.Rel (fun one other => one.1 = other.1 ∧ one.2.SeenAlike other.2) (first world)
    (second world)

theorem Run.Coupled.alikeFrom {first second : Run σ α}
    (coupled : Coupled World.SeenAlike first second) (world : World σ) :
    AlikeFrom world first second := by
  rcases coupled world world (.refl world) with
    ⟨none, other⟩ | ⟨value, after, last, ran, other, alike⟩
  · rw [AlikeFrom, none, other]
    exact .none
  · rw [AlikeFrom, ran, other]
    exact .some ⟨rfl, alike⟩

theorem Run.AlikeFrom.trans {world : World σ} {first second third : Run σ α}
    (earlier : AlikeFrom world first second) (later : AlikeFrom world second third) :
    AlikeFrom world first third := by
  unfold AlikeFrom at *
  generalize first world = one at *
  generalize second world = two at *
  generalize third world = three at *
  cases earlier with
  | none => exact later
  | some earlier =>
      cases later with
      | some later => exact .some ⟨earlier.1.trans later.1, earlier.2.trans later.2⟩

/-- Logging the steps of a process changes nothing that anybody sees. -/
theorem Responder.runProcess_traced {responder : Responder σ} (blind : responder.Blind)
    (engine : Engine σ) (process : ProcessRule) (traced alsoTraced : Bool) :
    Run.Coupled World.SeenAlike (responder.runProcess engine process traced)
      (responder.runProcess engine process alsoTraced) :=
  runProcess_coupled_of_outcome blind <|
    ProcessRule.outcome_coupled (fun id => blind (.read id)) rfl fun _ =>
      ProcessRule.executeSteps_coupled _ _ _ (List.forall₂_same.mpr fun _ _ _ => rfl) _ _

/-- Code that is not reached does nothing. A part of a formula, of a condition, of a statement
or of a step that an evaluation does not reach can be replaced by anything of its kind: the
evaluation has the same result in the same state, reaches the same places, and calls the same
functions in the same order with the same arguments. What is skipped is not reached: the
branch that is not chosen, the right side of a decided connective, an argument that is not
asked for, the value of a return whose condition fails and all that is inside of these. If
steps are logged as they are carried out, nothing differs that anybody sees. -/
theorem Engine.unreached_code (engine : Engine σ) (depth : Nat) :
    let functions := engine.functions
    let responder := engine.respond depth
    (∀ (ν : Type) (scope : Scope σ ν) (old new : Formula ν) (path : List Nat) (world : World σ),
      old.Replaced path new → ¬ (old.follow functions scope []).Reaches world path →
        new.evaluate functions scope world = old.evaluate functions scope world ∧
        new.follow functions scope [] world = old.follow functions scope [] world) ∧
    (∀ (ν : Type) (scope : Scope σ ν) (old new : Condition ν) (path : List Nat) (world : World σ),
      old.Replaced path new → ¬ (old.follow functions scope []).Reaches world path →
        new.check functions scope world = old.check functions scope world ∧
        new.follow functions scope [] world = old.follow functions scope [] world) ∧
    (∀ (old new : Formula Reference) (path : List Nat) (target : Reference) (update : Update)
        (before after : List (Assignment Reference)) (world : World σ),
      let statements value := before ++ ⟨target, update, value⟩ :: after
      old.Replaced path new →
      ¬ (responder.followAll engine 0 (statements old)).Reaches world (before.length :: path) →
        responder.assignAll engine (statements new) world =
          responder.assignAll engine (statements old) world ∧
        responder.followAll engine 0 (statements new) world =
          responder.followAll engine 0 (statements old) world) ∧
    (∀ (old new : Step Slot) (path : List Nat) (before after : List (Step Slot))
        (values : SlotValues) (world : World σ),
      let steps step := before ++ step :: after
      old.Replaced path new →
      ¬ (ProcessRule.followSteps functions 0 values (steps old)).Reaches world
        (before.length :: path) →
        ProcessRule.executeSteps functions false 1 values (steps new) world =
          ProcessRule.executeSteps functions false 1 values (steps old) world ∧
        ProcessRule.followSteps functions 0 values (steps new) world =
          ProcessRule.followSteps functions 0 values (steps old) world) ∧
    (∀ (old new : Step Slot) (path : List Nat) (before after : List (Step Slot))
        (rule : ProcessRule) (world : World σ),
      let process step := { rule with steps := before ++ step :: after }
      old.Replaced path new →
      ¬ (responder.followProcess engine (process old)).Reaches world (before.length :: path) →
        responder.runProcess engine (process new) false world =
          responder.runProcess engine (process old) false world ∧
        responder.followProcess engine (process new) world =
          responder.followProcess engine (process old) world ∧
        ∀ traced, Run.AlikeFrom world (responder.runProcess engine (process old) traced)
          (responder.runProcess engine (process new) traced)) ∧
    (∀ (ν : Type) (scope : Scope σ ν), Skips functions scope) ∧
    ∀ (condition : Condition Slot) (value : Formula Slot) (values : SlotValues)
        (place path : List Nat) (world after : World σ),
      condition.check functions values.scope world = some (false, after) →
        ¬ ((Step.return (some condition) value).follow functions values place).Reaches world
          (place ++ 1 :: path) := by
  intro functions responder
  refine ⟨?_, ?_, ?_, ?_, ?_, fun _ scope => functions.skips scope,
    fun _ _ values _ _ _ _ => Step.return_skips functions values⟩
  · intro ν scope old new path world replaced
    exact (replaced.follow_agree functions scope []).of_erase (old.erase_follow functions scope [])
      (new.erase_follow functions scope [])
  · intro ν scope old new path world replaced
    exact (replaced.follow_agree functions scope []).of_erase (old.erase_follow functions scope [])
      (new.erase_follow functions scope [])
  · intro old new path target update before after world statements replaced
    have agree := responder.followAll_agree engine replaced target update before after 0
    rw [Nat.zero_add] at agree
    exact agree.of_erase (responder.erase_followAll engine 0 _)
      (responder.erase_followAll engine 0 _)
  · intro old new path before after values world steps replaced
    have agree := ProcessRule.followSteps_agree functions replaced before after 0 values
    rw [Nat.zero_add] at agree
    exact agree.of_erase (ProcessRule.erase_followSteps functions 0 1 values _)
      (ProcessRule.erase_followSteps functions 0 1 values _)
  · intro old new path before after rule world process replaced unreached
    have same := (responder.followProcess_agree engine replaced rule before after).of_erase
      (responder.erase_followProcess engine _) (responder.erase_followProcess engine _) unreached
    refine ⟨same.1, same.2, fun traced => ?_⟩
    have logged (process : ProcessRule) (traced alsoTraced : Bool) :=
      (Responder.runProcess_traced (engine.respond_blind depth) engine process traced
        alsoTraced).alikeFrom world
    have middle := logged (process new) false traced
    rw [Run.AlikeFrom, same.1] at middle
    exact (logged (process old) traced false).trans middle

namespace Branches

def engine : Engine Unit := ⟨{}, Function.builtins, {}⟩

def world : World Unit := engine.start () ⟨fun _ => 0, 0⟩

/-- The second branch is not chosen. -/
def formula (argument : Formula Reference) : Formula Reference :=
  .choose (.compare (.constant 1) .less (.constant 2)) (.call "Abs" [.constant 3])
    (.call "Abs" [argument])

end Branches

open Branches in
/-- The argument in the branch that is not chosen is replaced by one that draws an integer. -/
theorem Engine.unreached_code_branches :
    (formula (.constant 4)).Replaced [2, 0] (formula (.call "Random" [.constant 4])) ∧
      ((formula (.constant 4)).follow engine.functions (engine.respond 0).scope []).Reaches world
        [1, 0] ∧
      (formula (.call "Random" [.constant 4])).evaluate engine.functions (engine.respond 0).scope
          world =
        (formula (.constant 4)).evaluate engine.functions (engine.respond 0).scope world := by
  have replaced : (formula (.constant 4)).Replaced [2, 0]
      (formula (.call "Random" [.constant 4])) :=
    .whenFalse _ _ (.argument "Abs" [] [] (.here _ _))
  have unreached : ¬ ((formula (.constant 4)).follow engine.functions
      (engine.respond 0).scope []).Reaches world [2, 0] := by
    unfold Followed.Reaches
    decide +kernel
  refine ⟨replaced, ?_, ?_⟩
  · unfold Followed.Reaches
    decide +kernel
  · exact ((Engine.unreached_code engine 0).1 _ _ _ _ _ world replaced unreached).1

end NumericRules
