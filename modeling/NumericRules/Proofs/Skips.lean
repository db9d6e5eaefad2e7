import NumericRules.Proofs.Followed

/-! # What evaluations skip

Everything that happens in the evaluation of a tree does so at its place or inside of it, and
inside of a part only once the part is reached. So a branch that is not chosen is not reached,
nor is the right side of a decided connective, an argument that nobody asks for or the value
of a return whose condition fails, nor anything inside of these.
-/

namespace NumericRules

open Followed (note)

/-! ## What can happen where -/

namespace Followed

/-- Facts about what happens that hold of two runs one after another if they hold of both. -/
structure Additive (holds : List Happening → Prop) : Prop where
  nil : holds []
  append : ∀ {first second}, holds first → holds second → holds (first ++ second)

/-- Wherever it starts, the fact holds of what happens in the run. -/
def Leaves (holds : List Happening → Prop) (followed : Followed σ α) : Prop :=
  ∀ world, holds (followed world).2

namespace Leaves

variable {holds : List Happening → Prop} (additive : Additive holds)

include additive

theorem pure (value : α) : Leaves holds (pure value : Followed σ α) := fun _ => additive.nil

theorem lift (run : Run σ α) : Leaves holds (lift run) := fun _ => additive.nil

theorem bind {first : Followed σ α} {next : α → Followed σ β} (ofFirst : Leaves holds first)
    (ofNext : ∀ value, Leaves holds (next value)) : Leaves holds (first >>= next) := by
  intro world
  have happened := ofFirst world
  rw [bind_apply]
  rcases ran : first world with ⟨_ | ⟨value, after⟩, earlier⟩
  · rwa [ran] at happened
  · rw [ran] at happened
    exact additive.append happened (ofNext value after)

end Leaves

theorem bind_assoc (first : Followed σ α) (next : α → Followed σ β) (last : β → Followed σ γ) :
    first >>= next >>= last = first >>= fun value => next value >>= last := by
  funext world
  simp only [bind_apply]
  rcases first world with ⟨_ | ⟨value, after⟩, earlier⟩
  · rfl
  · dsimp only
    rcases next value after with ⟨_ | ⟨result, later⟩, happened⟩
    · rfl
    · simp only [List.append_assoc]

end Followed

open Followed (Additive Leaves)

/-- What happens in a call does so when the function asks, is given a value or answers. -/
theorem Plan.follow_leaves {holds : List Happening → Prop} (additive : Additive holds)
    (identifier : Identifier → Run σ Binary64) {arguments : List (Followed σ Binary64)}
    {place : List Nat}
    (asks : ∀ index, Leaves holds (do
      note (.ask place index)
      (arguments[index]?).getD (pure 0)))
    (gives : ∀ index value, holds [.give place index value])
    (answers : ∀ value, holds [.answer place value]) (plan : Plan σ) :
    Leaves holds (plan.follow identifier arguments place) := by
  induction plan with
  | answer value => exact .bind additive (fun _ => answers value) fun _ => .pure additive _
  | argument index next induction =>
      have later (value : Binary64) : Leaves holds (do
          note (.give place index value)
          (next value).follow identifier arguments place) :=
        .bind additive (fun _ => gives index value) fun _ => induction value
      have asked := Leaves.bind additive (asks index) later
      rwa [Followed.bind_assoc] at asked
  | read id next induction => exact .bind additive (.lift additive _) induction
  | host update next induction => exact .bind additive (.lift additive _) induction
  | draw low high next induction => exact .bind additive (.lift additive _) induction

theorem prefix_sibling {place path : List Nat} {index other : Nat}
    (within : place ++ [index] <+: place ++ other :: path) : index = other := by
  rw [List.prefix_append_right_inj, List.cons_prefix_cons] at within
  exact within.1

/-- Everything happens at the place or inside of it, and what is inside of a part is reached
only with the part. -/
structure Confined (place : List Nat) (happened : List Happening) : Prop where
  within : ∀ happening ∈ happened, place <+: happening.place
  nested : ∀ path rest, .visit (place ++ (path ++ rest)) ∈ happened →
    .visit (place ++ path) ∈ happened

/-- The same of what happens at a place that has been reached. -/
structure Inside (place : List Nat) (happened : List Happening) : Prop where
  within : ∀ happening ∈ happened, place <+: happening.place
  nested : ∀ index path rest, .visit (place ++ index :: (path ++ rest)) ∈ happened →
    .visit (place ++ index :: path) ∈ happened

theorem Inside.additive (place : List Nat) : Additive (Inside place) where
  nil := ⟨by simp, by simp⟩
  append first second := by
    refine ⟨List.forall_mem_append.mpr ⟨first.within, second.within⟩, ?_⟩
    intro index path rest reached
    rcases List.mem_append.mp reached with earlier | later
    · exact List.mem_append_left _ (first.nested index path rest earlier)
    · exact List.mem_append_right _ (second.nested index path rest later)

theorem Confined.inside {place : List Nat} {index : Nat} {happened : List Happening}
    (confined : Confined (place ++ [index]) happened) : Inside place happened where
  within happening member :=
    (List.prefix_append place [index]).trans (confined.within happening member)
  nested other path rest reached := by
    cases prefix_sibling (confined.within _ reached)
    rw [List.append_cons] at reached ⊢
    exact confined.nested path rest reached

theorem Inside.visit {place : List Nat} {happened : List Happening}
    (inside : Inside place happened) : Confined place (.visit place :: happened) where
  within happening member := by
    rcases List.mem_cons.mp member with rfl | later
    · exact List.prefix_rfl
    · exact inside.within happening later
  nested path rest reached := by
    cases path with
    | nil => simp
    | cons index path =>
        refine List.mem_cons_of_mem _ (inside.nested index path rest ?_)
        simpa using reached

theorem Inside.single {place : List Nat} {happening : Happening} (here : happening.place = place)
    (other : ∀ reached, happening ≠ .visit reached) : Inside place [happening] where
  within event member := by rw [List.mem_singleton.mp member, here]
  nested _ _ _ reached := absurd (List.mem_singleton.mp reached).symm (other _)

section Trees

variable (functions : FunctionTable σ) (scope : Scope σ ν)

theorem Followed.leaves_visit {place : List Nat} {body : Followed σ α}
    (inside : Leaves (Inside place) body) :
    Leaves (Confined place) (do note (.visit place); body) :=
  fun world => (inside world).visit

theorem Followed.leaves_inner {place : List Nat} {index : Nat} {followed : Followed σ α}
    (confined : Leaves (Confined (place ++ [index])) followed) : Leaves (Inside place) followed :=
  fun world => (confined world).inside

open Followed in
mutual
theorem Formula.follow_confined (place : List Nat) : (formula : Formula ν) →
    Leaves (Confined place) (formula.follow functions scope place)
  | .constant value => leaves_visit (.pure (Inside.additive place) value)
  | .name reference => leaves_visit (.lift (Inside.additive place) (scope.name reference))
  | .binary left operator right => by
      have additive := Inside.additive place
      have ofLeft := leaves_inner (left.follow_confined (place ++ [0]))
      have ofRight := leaves_inner (right.follow_confined (place ++ [1]))
      exact leaves_visit (.bind additive ofLeft fun _ => .bind additive ofRight fun _ =>
        .pure additive _)
  | .negate inner => by
      have additive := Inside.additive place
      have ofInner := leaves_inner (inner.follow_confined (place ++ [0]))
      exact leaves_visit (.bind additive ofInner fun _ => .pure additive _)
  | .call function arguments => by
      have additive := Inside.additive place
      refine leaves_visit ?_
      cases functions.plan? function arguments.length with
      | none => exact .pure additive 0
      | some plan =>
          refine .bind additive (fun _ => .single rfl (by simp)) fun _ => ?_
          refine plan.follow_leaves additive scope.identifier (fun index => ?_)
            (fun _ _ => .single rfl (by simp)) fun _ => .single rfl (by simp)
          refine .bind additive (fun _ => .single rfl (by simp)) fun _ => ?_
          have confined := Formula.followings_confined place 0 arguments index
          cases found : (Formula.followings functions scope place 0 arguments)[index]? with
          | none => exact .pure additive 0
          | some argument => exact leaves_inner (confined argument found)
  | .choose test whenTrue whenFalse => by
      have additive := Inside.additive place
      have ofTest := leaves_inner (test.follow_confined (place ++ [0]))
      refine leaves_visit (.bind additive ofTest fun holds => ?_)
      cases holds with
      | true => exact leaves_inner (whenTrue.follow_confined (place ++ [1]))
      | false => exact leaves_inner (whenFalse.follow_confined (place ++ [2]))

theorem Formula.followings_confined (place : List Nat) (index : Nat) :
    (arguments : List (Formula ν)) → ∀ (asked : Nat) (argument : Followed σ Binary64),
      (Formula.followings functions scope place index arguments)[asked]? = some argument →
      Leaves (Confined (place ++ [index + asked])) argument
  | [] => fun _ _ found => by cases found
  | head :: tail => fun asked argument found => by
      cases asked with
      | zero =>
          cases found
          exact head.follow_confined (place ++ [index])
      | succ asked =>
          have later := Formula.followings_confined place (index + 1) tail asked argument found
          rwa [Nat.add_assoc, Nat.add_comm 1] at later

theorem Condition.follow_confined (place : List Nat) : (condition : Condition ν) →
    Leaves (Confined place) (condition.follow functions scope place)
  | .literal value => leaves_visit (.pure (Inside.additive place) value)
  | .compare left comparison right => by
      have additive := Inside.additive place
      have ofLeft := leaves_inner (left.follow_confined (place ++ [0]))
      have ofRight := leaves_inner (right.follow_confined (place ++ [1]))
      exact leaves_visit (.bind additive ofLeft fun _ => .bind additive ofRight fun _ =>
        .pure additive _)
  | .connect left connective right => by
      have additive := Inside.additive place
      have ofLeft := leaves_inner (left.follow_confined (place ++ [0]))
      refine leaves_visit (.bind additive ofLeft fun holds => ?_)
      split
      · exact .pure additive holds
      · exact leaves_inner (right.follow_confined (place ++ [1]))
end

end Trees

/-! ## What is skipped -/

/-- What an evaluation skips it does not reach, wherever the tree stands. -/
structure Skips (functions : FunctionTable σ) (scope : Scope σ ν) : Prop where
  /-- A branch that is not chosen. -/
  whenFalse : ∀ test whenTrue whenFalse place path world after,
    test.check functions scope world = some (true, after) →
    ¬ ((Formula.choose test whenTrue whenFalse).follow functions scope place).Reaches world
      (place ++ 2 :: path)
  whenTrue : ∀ test whenTrue whenFalse place path world after,
    test.check functions scope world = some (false, after) →
    ¬ ((Formula.choose test whenTrue whenFalse).follow functions scope place).Reaches world
      (place ++ 1 :: path)
  /-- The right side after a left side that decides. -/
  decided : ∀ left connective right place path world after,
    left.check functions scope world = some (connective.decisive, after) →
    ¬ ((Condition.connect left connective right).follow functions scope place).Reaches world
      (place ++ 1 :: path)
  /-- An argument that its function does not ask for. -/
  unasked : ∀ function arguments place index path world,
    .ask place index ∉ ((Formula.call function arguments).follow functions scope place world).2 →
    ¬ ((Formula.call function arguments).follow functions scope place).Reaches world
      (place ++ index :: path)
  /-- What is inside of a part that is not reached. -/
  formula : ∀ (formula : Formula ν) place path rest world,
    ¬ (formula.follow functions scope place).Reaches world (place ++ path) →
    ¬ (formula.follow functions scope place).Reaches world (place ++ (path ++ rest))
  condition : ∀ (condition : Condition ν) place path rest world,
    ¬ (condition.follow functions scope place).Reaches world (place ++ path) →
    ¬ (condition.follow functions scope place).Reaches world (place ++ (path ++ rest))

namespace Followed

theorem Leaves.not_reaches_sibling {place path : List Nat} {index other : Nat}
    {followed : Followed σ α} (confined : Leaves (Confined (place ++ [index])) followed)
    (different : index ≠ other) (world : World σ) :
    ¬ followed.Reaches world (place ++ other :: path) :=
  fun reached => different (prefix_sibling ((confined world).within _ reached))

/-- What is reached is reached by one of two runs. -/
theorem Reaches.of_bind {reached : List Nat} {first : Followed σ α} {next : α → Followed σ β}
    {world after : World σ} {value : α} (ran : first.erase world = some (value, after))
    (reaches : (first >>= next).Reaches world reached) :
    first.Reaches world reached ∨ (next value).Reaches after reached := by
  rw [Reaches, bind_apply] at reaches
  rcases outcome : first world with ⟨_ | ⟨found, later⟩, earlier⟩
  · simp [erase, outcome] at ran
  · simp only [erase, outcome, Option.some.injEq, Prod.mk.injEq] at ran
    rcases ran with ⟨rfl, rfl⟩
    rw [outcome] at reaches
    rw [Reaches, outcome]
    exact List.mem_append.mp reaches

/-- What is reached inside of a place is reached after the place. -/
theorem Reaches.of_visit {place path : List Nat} {index : Nat} {body : Followed σ α}
    {world : World σ}
    (reaches : Followed.Reaches (do note (.visit place); body) world (place ++ index :: path)) :
    body.Reaches world (place ++ index :: path) :=
  (List.mem_cons.mp reaches).resolve_left fun same => by simp at same

end Followed

theorem Followed.additive_mem_imp (result cause : Happening) :
    Additive fun happened => result ∈ happened → cause ∈ happened where
  nil := by simp
  append first second reached := by
    rcases List.mem_append.mp reached with earlier | later
    · exact List.mem_append_left _ (first earlier)
    · exact List.mem_append_right _ (second later)

/-- The arguments of a call are reached when they are asked for. -/
theorem Formula.call_asks (functions : FunctionTable σ) (scope : Scope σ ν) (function : String)
    (arguments : List (Formula ν)) (place : List Nat) (index : Nat) (path : List Nat) :
    Leaves (fun happened => .visit (place ++ index :: path) ∈ happened →
        .ask place index ∈ happened)
      ((Formula.call function arguments).follow functions scope place) := by
  have additive := Followed.additive_mem_imp (.visit (place ++ index :: path)) (.ask place index)
  refine .bind additive (fun _ => by simp [note]) fun _ => ?_
  cases functions.plan? function arguments.length with
  | none => exact .pure additive 0
  | some plan =>
      refine .bind additive (fun _ => by simp [note]) fun _ => ?_
      refine plan.follow_leaves additive scope.identifier (fun asked world reached => ?_)
        (fun _ _ => by simp) fun _ => by simp
      have inArgument := (List.mem_cons.mp reached).resolve_left (by simp)
      have confined := Formula.followings_confined functions scope place 0 arguments asked
      cases found : (Formula.followings functions scope place 0 arguments)[asked]? with
      | none =>
          rw [found] at inArgument
          cases inArgument
      | some argument =>
          rw [found] at inArgument
          have within := (confined argument found world).within _ inArgument
          rw [Nat.zero_add] at within
          cases prefix_sibling within
          exact List.mem_cons_self

theorem FunctionTable.skips (functions : FunctionTable σ) (scope : Scope σ ν) :
    Skips functions scope where
  whenFalse test whenTrue whenFalse place path world after holds reached := by
    have ran := (congrFun (test.erase_follow functions scope (place ++ [0])) world).trans holds
    rcases Followed.Reaches.of_bind ran reached.of_visit with inTest | inBranch
    · exact (test.follow_confined functions scope _).not_reaches_sibling (by decide) world inTest
    · exact (whenTrue.follow_confined functions scope _).not_reaches_sibling (by decide) after
        inBranch
  whenTrue test whenTrue whenFalse place path world after fails reached := by
    have ran := (congrFun (test.erase_follow functions scope (place ++ [0])) world).trans fails
    rcases Followed.Reaches.of_bind ran reached.of_visit with inTest | inBranch
    · exact (test.follow_confined functions scope _).not_reaches_sibling (by decide) world inTest
    · exact (whenFalse.follow_confined functions scope _).not_reaches_sibling (by decide) after
        inBranch
  decided left connective right place path world after decides reached := by
    have ran := (congrFun (left.erase_follow functions scope (place ++ [0])) world).trans decides
    rcases Followed.Reaches.of_bind ran reached.of_visit with inLeft | inRight
    · exact (left.follow_confined functions scope _).not_reaches_sibling (by decide) world inLeft
    · rw [if_pos rfl] at inRight
      cases inRight
  unasked function arguments place index path world unasked reached :=
    unasked (Formula.call_asks functions scope function arguments place index path world reached)
  formula formula place path rest world unreached reached :=
    unreached ((formula.follow_confined functions scope place world).nested path rest reached)
  condition condition place path rest world unreached reached :=
    unreached ((condition.follow_confined functions scope place world).nested path rest reached)

/-- A return whose condition fails does not reach its value. -/
theorem Step.return_skips (functions : FunctionTable σ) (values : SlotValues)
    {condition : Condition Slot} {value : Formula Slot} {place path : List Nat}
    {world after : World σ}
    (fails : condition.check functions values.scope world = some (false, after)) :
    ¬ ((Step.return (some condition) value).follow functions values place).Reaches world
      (place ++ 1 :: path) := by
  have ran := (congrFun (condition.erase_follow functions values.scope (place ++ [0])) world).trans
    fails
  intro reached
  rcases Followed.Reaches.of_bind ran reached with inCondition | inValue
  · exact (condition.follow_confined functions values.scope _).not_reaches_sibling (by decide) world
      inCondition
  · cases inValue

end NumericRules
