import NumericRules.Proofs.Unseen

/-! # Evaluations followed

An evaluation is followed through the places of a tree. What happens is kept in the order in
which it does, also in the middle of an evaluation that has no result: every part of the
tree that is reached, every call of a function of the table, the arguments it asks for and
their values. Nothing else changes by that.
-/

namespace NumericRules

/-- What happens at a place of a tree. A place is the way to it from the root: which part is
taken of each tree on the way, counted from 0. -/
inductive Happening where
  /-- The part of the tree at the place is reached. -/
  | visit (place : List Nat)
  /-- A function of the table is called with a number of arguments. -/
  | invoke (place : List Nat) (function : String) (count : Nat)
  /-- The function asks for an argument. -/
  | ask (place : List Nat) (index : Nat)
  /-- It is given the value of the argument. -/
  | give (place : List Nat) (index : Nat) (value : Binary64)
  /-- The function answers. -/
  | answer (place : List Nat) (value : Binary64)
deriving DecidableEq

def Happening.place : Happening → List Nat
  | .visit place | .invoke place _ _ | .ask place _ | .give place _ _ | .answer place _ => place

/-- A run with what happens in it. -/
def Followed (σ α : Type) : Type := World σ → Option (α × World σ) × List Happening

namespace Followed

instance : Monad (Followed σ) where
  pure value := fun world => (some (value, world), [])
  bind first next := fun world =>
    match first world with
    | (some (value, after), happened) =>
        ((next value after).1, happened ++ (next value after).2)
    | (none, happened) => (none, happened)

/-- A run in which nothing happens that is followed. -/
def lift (run : Run σ α) : Followed σ α := fun world => (run world, [])

def note (happening : Happening) : Followed σ Unit := fun world =>
  (some ((), world), [happening])

/-- The part of the tree at the place is reached. -/
def Reaches (followed : Followed σ α) (world : World σ) (place : List Nat) : Prop :=
  .visit place ∈ (followed world).2

end Followed

open Followed (lift note)

/-! ## Trees -/

/-- Carry out the plan of the function at a place. -/
def Plan.follow (identifier : Identifier → Run σ Binary64)
    (arguments : List (Followed σ Binary64)) (place : List Nat) : Plan σ → Followed σ Binary64
  | .answer value => do
      note (.answer place value)
      pure value
  | .argument index next => do
      note (.ask place index)
      let value ← (arguments[index]?).getD (pure 0)
      note (.give place index value)
      (next value).follow identifier arguments place
  | .read id next => do
      let value ← lift (identifier id)
      (next value).follow identifier arguments place
  | .host update next => do
      let before ← lift (Run.changeHost update)
      (next before).follow identifier arguments place
  | .draw low high next => do
      let drawn ← lift (Run.draw low high)
      (next drawn).follow identifier arguments place

/-- The truth of the left side with which the right side is not needed. -/
def Connective.decisive (connective : Connective) : Bool := connective == .or

section Trees

variable (functions : FunctionTable σ) (scope : Scope σ ν)

mutual
def Formula.follow (place : List Nat) : Formula ν → Followed σ Binary64
  | .constant value => do
      note (.visit place)
      pure value
  | .name reference => do
      note (.visit place)
      lift (scope.name reference)
  | .binary left operator right => do
      note (.visit place)
      let leftValue ← left.follow (place ++ [0])
      let rightValue ← right.follow (place ++ [1])
      pure (operator.apply leftValue rightValue)
  | .negate inner => do
      note (.visit place)
      let value ← inner.follow (place ++ [0])
      pure (0 - value)
  | .call function arguments => do
      note (.visit place)
      match functions.plan? function arguments.length with
      | some plan => do
          note (.invoke place function arguments.length)
          plan.follow scope.identifier (Formula.followings place 0 arguments) place
      | none => pure 0
  | .choose test whenTrue whenFalse => do
      note (.visit place)
      let holds ← test.follow (place ++ [0])
      if holds then whenTrue.follow (place ++ [1]) else whenFalse.follow (place ++ [2])

def Formula.followings (place : List Nat) (index : Nat) :
    List (Formula ν) → List (Followed σ Binary64)
  | [] => []
  | head :: tail => head.follow (place ++ [index]) :: Formula.followings place (index + 1) tail

def Condition.follow (place : List Nat) : Condition ν → Followed σ Bool
  | .literal value => do
      note (.visit place)
      pure value
  | .compare left comparison right => do
      note (.visit place)
      let leftValue ← left.follow (place ++ [0])
      let rightValue ← right.follow (place ++ [1])
      pure (comparison.holds leftValue rightValue)
  | .connect left connective right => do
      note (.visit place)
      let leftHolds ← left.follow (place ++ [0])
      if leftHolds = connective.decisive then pure leftHolds else right.follow (place ++ [1])
end

end Trees

/-! ## Statements -/

/-- Carry out assignments in order. The place of a statement is its index. -/
def Responder.followAll (responder : Responder σ) (engine : Engine σ) (index : Nat) :
    List (Assignment Reference) → Followed σ Unit
  | [] => pure ()
  | assignment :: rest => do
      let operand ← assignment.value.follow engine.functions responder.scope [index]
      let _ ← lift (responder.write assignment.target.id assignment.update operand)
      responder.followAll engine (index + 1) rest

/-- Carry out the step at a place. -/
def Step.follow (functions : FunctionTable σ) (values : SlotValues) (place : List Nat) :
    Step Slot → Followed σ (SlotValues × Bool)
  | .assign assignment => do
      let operand ← assignment.value.follow functions values.scope place
      pure (values.update assignment.target.number assignment.update operand, false)
  | .return condition value => do
      let ends ← match condition with
        | some condition => condition.follow functions values.scope (place ++ [0])
        | none => pure true
      if ends then
        let result ← value.follow functions values.scope (place ++ [1])
        pure (values.update ProcessRule.resultSlot.number .set result, true)
      else pure (values, false)

/-- Carry out steps in order, none of them logged. The place of a step is its index. -/
def ProcessRule.followSteps (functions : FunctionTable σ) (index : Nat) (values : SlotValues) :
    List (Step Slot) → Followed σ SlotValues
  | [] => pure values
  | step :: rest => do
      let outcome ← step.follow functions values [index]
      if outcome.2 then pure outcome.1 else followSteps functions (index + 1) outcome.1 rest

/-- Run a process, its steps not logged. -/
def Responder.followProcess (responder : Responder σ) (engine : Engine σ)
    (process : ProcessRule) : Followed σ Binary64 := do
  let pad ← lift process.takePad
  let loaded ← lift (ProcessRule.load responder.read ((pad.getD #[]).take 0) process.slots)
  let final ← ProcessRule.followSteps engine.functions 0 loaded process.steps
  lift do
    if pad.isSome then modify (·.setPad process.id (.idle final))
    responder.writeAll (process.changes loaded final)
    pure (final.value ProcessRule.resultSlot.number)

/-! ## Following changes nothing -/

namespace Followed

theorem bind_apply (first : Followed σ α) (next : α → Followed σ β) (world : World σ) :
    (first >>= next) world =
      match first world with
      | (some (value, after), happened) =>
          ((next value after).1, happened ++ (next value after).2)
      | (none, happened) => (none, happened) := rfl

/-- The run without what happens in it. -/
def erase (followed : Followed σ α) : Run σ α := fun world => (followed world).1

@[simp] theorem erase_pure (value : α) : (pure value : Followed σ α).erase = pure value := rfl

@[simp] theorem erase_lift (run : Run σ α) : (lift run).erase = run := rfl

@[simp] theorem erase_note (happening : Happening) :
    (note happening : Followed σ Unit).erase = pure () := rfl

@[simp] theorem erase_bind (first : Followed σ α) (next : α → Followed σ β) :
    (first >>= next).erase = (do
      let value ← first.erase
      (next value).erase) := by
  funext world
  rw [erase, bind_apply, Run.bind_apply, erase]
  rcases first world with ⟨_ | ⟨value, after⟩, happened⟩ <;> rfl

@[simp] theorem erase_ite (test : Prop) [Decidable test] (whenTrue whenFalse : Followed σ α) :
    (if test then whenTrue else whenFalse).erase =
      if test then whenTrue.erase else whenFalse.erase := by
  split <;> rfl

end Followed

theorem Plan.erase_follow (identifier : Identifier → Run σ Binary64)
    (arguments : List (Followed σ Binary64)) (place : List Nat) (plan : Plan σ) :
    (plan.follow identifier arguments place).erase =
      plan.run identifier (arguments.map Followed.erase) := by
  induction plan with
  | answer value => rfl
  | argument index next induction =>
      have asked : ((arguments[index]?).getD (pure 0)).erase =
          ((arguments.map Followed.erase)[index]?).getD (pure 0) := by
        rw [List.getElem?_map]
        cases arguments[index]? <;> rfl
      simp only [follow, run, Followed.erase_bind, Followed.erase_note, pure_bind, asked, induction]
  | read id next induction =>
      simp only [follow, run, Followed.erase_bind, Followed.erase_lift, induction]
  | host update next induction =>
      simp only [follow, run, Followed.erase_bind, Followed.erase_lift, induction]
  | draw low high next induction =>
      simp only [follow, run, Followed.erase_bind, Followed.erase_lift, induction]

section Trees

variable (functions : FunctionTable σ) (scope : Scope σ ν)

mutual
theorem Formula.erase_follow (place : List Nat) : (formula : Formula ν) →
    (formula.follow functions scope place).erase = formula.evaluate functions scope
  | .constant value => rfl
  | .name reference => rfl
  | .binary left operator right => by
      simp only [Formula.follow, Formula.evaluate, Followed.erase_bind, Followed.erase_note,
        Followed.erase_pure, pure_bind, left.erase_follow, right.erase_follow]
  | .negate inner => by
      simp only [Formula.follow, Formula.evaluate, Followed.erase_bind, Followed.erase_note,
        Followed.erase_pure, pure_bind, inner.erase_follow]
  | .call function arguments => by
      simp only [Formula.follow, Formula.evaluate, Followed.erase_bind, Followed.erase_note,
        pure_bind]
      cases functions.plan? function arguments.length with
      | none => rfl
      | some plan =>
          simp only [Followed.erase_bind, Followed.erase_note, pure_bind, Plan.erase_follow,
            Formula.erase_followings place 0 arguments]
  | .choose test whenTrue whenFalse => by
      simp only [Formula.follow, Formula.evaluate, Followed.erase_bind, Followed.erase_note,
        Followed.erase_ite, pure_bind, test.erase_follow, whenTrue.erase_follow,
        whenFalse.erase_follow]

theorem Formula.erase_followings (place : List Nat) (index : Nat) :
    (arguments : List (Formula ν)) →
    (Formula.followings functions scope place index arguments).map Followed.erase =
      Formula.evaluations functions scope arguments
  | [] => rfl
  | head :: tail => by
      simp only [Formula.followings, Formula.evaluations, List.map_cons, head.erase_follow,
        Formula.erase_followings place (index + 1) tail]

theorem Condition.erase_follow (place : List Nat) : (condition : Condition ν) →
    (condition.follow functions scope place).erase = condition.check functions scope
  | .literal value => rfl
  | .compare left comparison right => by
      simp only [Condition.follow, Condition.check, Followed.erase_bind, Followed.erase_note,
        Followed.erase_pure, pure_bind, left.erase_follow, right.erase_follow]
  | .connect left connective right => by
      simp only [Condition.follow, Condition.check, Followed.erase_bind, Followed.erase_note,
        Followed.erase_ite, Followed.erase_pure, pure_bind, left.erase_follow,
        right.erase_follow]
      congr 1
      funext holds
      cases connective <;> cases holds <;> rfl
end

end Trees

theorem Responder.erase_followAll (responder : Responder σ) (engine : Engine σ) (index : Nat)
    (assignments : List (Assignment Reference)) :
    (responder.followAll engine index assignments).erase =
      responder.assignAll engine assignments := by
  induction assignments generalizing index with
  | nil => rfl
  | cons assignment rest induction =>
      simp only [followAll, assignAll, assign, evaluate, Followed.erase_bind, Followed.erase_lift,
        Formula.erase_follow, induction, bind_assoc]

theorem Step.erase_follow (functions : FunctionTable σ) (values : SlotValues) (place : List Nat)
    (step : Step Slot) :
    (step.follow functions values place).erase = step.execute functions values := by
  cases step with
  | assign assignment =>
      simp only [follow, execute, Followed.erase_bind, Followed.erase_pure, Formula.erase_follow]
  | «return» condition value =>
      cases condition <;>
        simp only [follow, execute, Followed.erase_bind, Followed.erase_ite, Followed.erase_pure,
          Formula.erase_follow, Condition.erase_follow, pure_bind]

theorem ProcessRule.erase_followSteps (functions : FunctionTable σ) (index number : Nat)
    (values : SlotValues) (steps : List (Step Slot)) :
    (followSteps functions index values steps).erase =
      executeSteps functions false number values steps := by
  induction steps generalizing index number values with
  | nil => rfl
  | cons step rest induction =>
      rw [executeSteps_cons]
      simp only [followSteps, Followed.erase_bind, Followed.erase_ite, Followed.erase_pure,
        Step.erase_follow, induction (index + 1) (number + 1), Bool.false_eq_true, if_false,
        pure_bind]

theorem Responder.erase_followProcess (responder : Responder σ) (engine : Engine σ)
    (process : ProcessRule) :
    (responder.followProcess engine process).erase =
      responder.runProcess engine process false := by
  rw [ProcessRule.runProcess_eq_outcome, ProcessRule.outcome_eq]
  simp only [followProcess, Followed.erase_bind, Followed.erase_lift, bind_assoc,
    ProcessRule.erase_followSteps _ 0 1]
  congr 1
  funext pad
  congr 1
  funext loaded
  congr 1
  funext final
  cases pad.isSome <;> simp only [if_true, Bool.false_eq_true, if_false, bind_assoc, pure_bind]

end NumericRules
