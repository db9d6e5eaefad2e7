import NumericRules.Bus
import Mathlib.Data.List.Nodup

/-! # The subscriptions of a bus

A bus stands for the list of its live subscriptions in the order they were made.
Buckets only arrange them: what a bus answers can be read off that list, whatever
was subscribed and ended before.
-/

namespace NumericRules

/-- A subscription that has not ended, with the identifier it was made for. -/
structure LiveSubscription (σ : Type) extends Subscription σ where
  id : Identifier

namespace Bus

/-! ## Buckets -/

/-- The subscriptions in the first bucket of an identifier. -/
def held (buckets : List (Bucket σ)) (id : Identifier) : List (Subscription σ) :=
  subscriptions ⟨buckets, 0⟩ id

theorem subscriptions_eq_held (bus : Bus σ) (id : Identifier) :
    bus.subscriptions id = held bus.buckets id := rfl

theorem held_cons (bucket : Bucket σ) (rest : List (Bucket σ)) (id : Identifier) :
    held (bucket :: rest) id = if bucket.id = id then bucket.subscriptions else held rest id := by
  by_cases same : bucket.id = id <;> simp [held, subscriptions, same]

theorem held_of_notMem {buckets : List (Bucket σ)} {id : Identifier}
    (absent : id ∉ buckets.map (·.id)) : held buckets id = [] := by
  induction buckets with
  | nil => rfl
  | cons bucket rest induction =>
      rw [List.map_cons, List.mem_cons, not_or] at absent
      rw [held_cons, if_neg (Ne.symm absent.1), induction absent.2]

/-! ### Putting in -/

theorem held_insert (id : Identifier) (subscription : Subscription σ)
    (buckets : List (Bucket σ)) (other : Identifier) :
    held (insert id subscription buckets) other =
      if other = id then held buckets id ++ [subscription] else held buckets other := by
  induction buckets with
  | nil =>
      by_cases same : other = id
      · simp [insert, held, subscriptions, same]
      · simp [insert, held, subscriptions, same, Ne.symm same]
  | cons bucket rest induction =>
      by_cases found : bucket.id = id
      · by_cases same : other = id
        · simp [insert, held_cons, found, same]
        · simp [insert, held_cons, found, same, Ne.symm same]
      · simp only [insert, if_neg found, held_cons, induction]
        by_cases same : other = id
        · simp [same, found]
        · simp [same]

theorem ids_insert (id : Identifier) (subscription : Subscription σ)
    (buckets : List (Bucket σ)) :
    (insert id subscription buckets).map (·.id) =
      if id ∈ buckets.map (·.id) then buckets.map (·.id) else buckets.map (·.id) ++ [id] := by
  induction buckets with
  | nil => rfl
  | cons bucket rest induction =>
      by_cases found : bucket.id = id
      · simp [insert, found]
      · have different : id ≠ bucket.id := Ne.symm found
        simp only [insert, if_neg found, List.map_cons, induction, List.mem_cons, different,
          false_or]
        split <;> rfl

/-! ### Taking out -/

/-- A bucket that is dropped uncovers no other one of its identifier. -/
theorem held_discard {buckets : List (Bucket σ)} (nodup : (buckets.map (·.id)).Nodup)
    (id : Identifier) (key : SubscriptionKey) (other : Identifier) :
    held (discard id key buckets) other =
      if other = id then (held buckets id).filter (·.key ≠ key) else held buckets other := by
  induction buckets with
  | nil => simp [discard, held, subscriptions]
  | cons bucket rest induction =>
      rw [List.map_cons, List.nodup_cons] at nodup
      by_cases found : bucket.id = id
      · have uncovered : held rest id = [] := held_of_notMem (found ▸ nodup.1)
        simp only [discard, if_pos found]
        split
        · rename_i empty
          by_cases same : other = id
          · rw [same, if_pos rfl, uncovered, held_cons, if_pos found, empty]
          · rw [if_neg same, held_cons, if_neg (found ▸ Ne.symm same)]
        · rename_i kept _
          by_cases same : other = id
          · rw [same, if_pos rfl, held_cons, if_pos rfl, held_cons, if_pos found]
          · rw [if_neg same, held_cons, if_neg (Ne.symm same), held_cons,
              if_neg (found ▸ Ne.symm same)]
      · simp only [discard, if_neg found, held_cons, induction nodup.2]
        by_cases same : other = id
        · simp [same, found]
        · simp [same]

theorem ids_discard_sublist (id : Identifier) (key : SubscriptionKey)
    (buckets : List (Bucket σ)) :
    ((discard id key buckets).map (·.id)).Sublist (buckets.map (·.id)) := by
  induction buckets with
  | nil => exact .slnil
  | cons bucket rest induction =>
      by_cases found : bucket.id = id
      · simp only [discard, if_pos found]
        split
        · exact List.sublist_cons_self _ _
        · rw [List.map_cons, List.map_cons, found]
      · rw [discard, if_neg found]
        exact induction.cons_cons _

theorem held_filter (buckets : List (Bucket σ)) (id other : Identifier) :
    held (buckets.filter (·.id ≠ id)) other = if other = id then [] else held buckets other := by
  induction buckets with
  | nil => simp [held, subscriptions]
  | cons bucket rest induction =>
      by_cases found : bucket.id = id
      · rw [List.filter_cons_of_neg (by simpa using found), induction, held_cons, found]
        by_cases same : other = id
        · simp [same]
        · simp [same, Ne.symm same]
      · rw [List.filter_cons_of_pos (by simpa using found), held_cons, held_cons, induction]
        by_cases same : other = id
        · simp [same, found]
        · simp [same]

end Bus

/-! ## The list a bus stands for -/

namespace Bus

/-- The live subscriptions of an identifier, in the order they were made. -/
def liveOf (live : List (LiveSubscription σ)) (id : Identifier) : List (LiveSubscription σ) :=
  live.filter (·.id = id)

/-- The bus holds the live subscriptions, and their keys are all different and were
counted before. -/
structure Represents (bus : Bus σ) (live : List (LiveSubscription σ)) : Prop where
  ids : (bus.buckets.map (·.id)).Nodup
  subscriptions : ∀ id, bus.subscriptions id = (liveOf live id).map (·.toSubscription)
  keys : (live.map (·.key)).Nodup
  counted : ∀ item ∈ live, item.key.number < bus.nextKey

/-- Every live subscription is in one bucket. -/
theorem length_flatMap_eq {buckets : List (Bucket σ)} (nodup : (buckets.map (·.id)).Nodup)
    {live : List (LiveSubscription σ)}
    (holds : ∀ id, held buckets id = (liveOf live id).map (·.toSubscription)) :
    (buckets.flatMap (·.subscriptions)).length = live.length := by
  induction buckets generalizing live with
  | nil =>
      cases live with
      | nil => rfl
      | cons item rest =>
          have empty := holds item.id
          simp [held, Bus.subscriptions, liveOf] at empty
  | cons bucket rest induction =>
      rw [List.map_cons, List.nodup_cons] at nodup
      -- what the other buckets hold is what is live of other identifiers
      have others : ∀ id, held rest id =
          (liveOf (live.filter (·.id ≠ bucket.id)) id).map (·.toSubscription) := by
        intro id
        by_cases same : bucket.id = id
        · have none : liveOf (live.filter (·.id ≠ bucket.id)) id = [] := by
            simp only [liveOf, List.filter_filter, List.filter_eq_nil_iff]
            intro item _
            simp [same]
          rw [none, held_of_notMem (same ▸ nodup.1), List.map_nil]
        · have unchanged : liveOf (live.filter (·.id ≠ bucket.id)) id = liveOf live id := by
            rw [liveOf, liveOf, List.filter_filter]
            refine List.filter_congr fun item _ => ?_
            by_cases ofId : item.id = id
            · simp [ofId, Ne.symm same]
            · simp [ofId]
          rw [unchanged, ← holds id, held_cons, if_neg same]
      have first : bucket.subscriptions = (liveOf live bucket.id).map (·.toSubscription) := by
        rw [← holds, held_cons, if_pos rfl]
      have parts := List.length_eq_length_filter_add (l := live) fun item => item.id = bucket.id
      rw [List.flatMap_cons, List.length_append, induction nodup.2 others, first, List.length_map,
        parts]
      simp [liveOf]

namespace Represents

variable {bus : Bus σ} {live : List (LiveSubscription σ)}

theorem new : Represents ({} : Bus σ) [] := ⟨.nil, fun _ => rfl, .nil, by simp⟩

theorem add (represents : bus.Represents live) (id : Identifier) (callback : Listener σ) :
    (bus.add id callback).2.Represents
      (live ++ [{ key := ⟨bus.nextKey⟩, callback, id }]) where
  ids := by
    change ((insert id _ bus.buckets).map (·.id)).Nodup
    rw [ids_insert]
    split
    · exact represents.ids
    · rename_i absent
      exact List.concat_eq_append ▸ represents.ids.concat absent
  subscriptions other := by
    change held (insert id _ bus.buckets) other = _
    rw [held_insert, ← subscriptions_eq_held, ← subscriptions_eq_held, represents.subscriptions,
      represents.subscriptions]
    by_cases same : other = id
    · simp [liveOf, same]
    · simp [liveOf, same, Ne.symm same]
  keys := by
    rw [List.map_append, List.map_singleton, ← List.concat_eq_append]
    refine represents.keys.concat fun member => ?_
    rcases List.mem_map.mp member with ⟨item, isLive, same⟩
    have counted := represents.counted item isLive
    rw [same] at counted
    exact Nat.lt_irrefl _ counted
  counted item member := by
    change item.key.number < bus.nextKey + 1
    rcases List.mem_append.mp member with old | new
    · exact Nat.lt_succ_of_lt (represents.counted item old)
    · rw [List.mem_singleton.mp new]
      exact Nat.lt_succ_self _

/-- Ending subscriptions keeps the others as they were. -/
theorem subset (represents : bus.Represents live) {buckets : List (Bucket σ)}
    {rest : List (LiveSubscription σ)} (ids : (buckets.map (·.id)).Nodup)
    (holds : ∀ id, held buckets id = (liveOf rest id).map (·.toSubscription))
    (sublist : rest.Sublist live) :
    ({ bus with buckets } : Bus σ).Represents rest where
  ids := ids
  subscriptions := holds
  keys := (sublist.map _).nodup represents.keys
  counted item member := represents.counted item (sublist.subset member)

theorem remove (represents : bus.Represents live) (id : Identifier) (key : SubscriptionKey) :
    (bus.remove id key).2.Represents
      (live.filter fun item => ¬(item.key = key ∧ item.id = id)) := by
  refine represents.subset (represents.ids.sublist (ids_discard_sublist id key _)) ?_
    List.filter_sublist
  intro other
  rw [held_discard represents.ids, ← subscriptions_eq_held, ← subscriptions_eq_held,
    represents.subscriptions, represents.subscriptions]
  by_cases same : other = id
  · rw [if_pos same, same, List.filter_map, liveOf, liveOf, List.filter_filter, List.filter_filter]
    congr 1
    refine List.filter_congr fun item _ => ?_
    by_cases ofId : item.id = id <;> simp [ofId]
  · rw [if_neg same, liveOf, liveOf, List.filter_filter]
    congr 1
    refine List.filter_congr fun item _ => ?_
    by_cases ofOther : item.id = other
    · simp [ofOther, same]
    · simp [ofOther]

theorem removeAll (represents : bus.Represents live) (id : Identifier) :
    (bus.removeAll id).2.Represents (live.filter (·.id ≠ id)) := by
  refine represents.subset (represents.ids.sublist (List.filter_sublist.map _)) ?_
    List.filter_sublist
  intro other
  rw [held_filter, ← subscriptions_eq_held, represents.subscriptions, liveOf, liveOf,
    List.filter_filter]
  by_cases same : other = id
  · rw [if_pos same, eq_comm, List.map_eq_nil_iff, List.filter_eq_nil_iff]
    intro item _
    simp [same]
  · rw [if_neg same]
    congr 1
    refine List.filter_congr fun item _ => ?_
    by_cases ofOther : item.id = other
    · simp [ofOther, same]
    · simp [ofOther]

theorem clear (represents : bus.Represents live) : bus.clear.Represents [] :=
  represents.subset .nil (fun _ => rfl) (List.nil_sublist _)

/-! ### Answers -/

theorem listeners (represents : bus.Represents live) (id : Identifier) :
    bus.listeners id = (liveOf live id).map (·.callback) := by
  rw [Bus.listeners, represents.subscriptions, List.map_map]
  rfl

theorem count (represents : bus.Represents live) (id : Identifier) :
    bus.count id = (liveOf live id).length := by
  rw [Bus.count, represents.subscriptions, List.length_map]

theorem total (represents : bus.Represents live) : bus.total = live.length :=
  length_flatMap_eq represents.ids represents.subscriptions

theorem remove_iff (represents : bus.Represents live) (id : Identifier) (key : SubscriptionKey) :
    (bus.remove id key).1 = true ↔ ∃ item ∈ live, item.key = key ∧ item.id = id := by
  simp only [Bus.remove, represents.subscriptions, liveOf, List.any_map, List.any_eq_true,
    List.mem_filter, Function.comp, decide_eq_true_eq]
  constructor
  · rintro ⟨item, ⟨isLive, ofId⟩, hasKey⟩
    exact ⟨item, isLive, hasKey, ofId⟩
  · rintro ⟨item, isLive, hasKey, ofId⟩
    exact ⟨item, ⟨isLive, ofId⟩, hasKey⟩

end Represents

/-! ## Histories -/

/-- A bus that some sequence of subscriptions and endings leaves behind, with the
subscriptions that are live then and all keys that were handed out. -/
inductive History : Bus σ → List (LiveSubscription σ) → List SubscriptionKey → Prop
  | new : History {} [] []
  | add {bus : Bus σ} {live : List (LiveSubscription σ)} {issued : List SubscriptionKey}
      (id : Identifier) (callback : Listener σ) : History bus live issued →
      History (bus.add id callback).2
        (live ++ [{ key := (bus.add id callback).1, callback, id }])
        (issued ++ [(bus.add id callback).1])
  | remove {bus : Bus σ} {live : List (LiveSubscription σ)} {issued : List SubscriptionKey}
      (id : Identifier) (key : SubscriptionKey) : History bus live issued →
      History (bus.remove id key).2
        (live.filter fun item => ¬(item.key = key ∧ item.id = id)) issued
  | removeAll {bus : Bus σ} {live : List (LiveSubscription σ)} {issued : List SubscriptionKey}
      (id : Identifier) : History bus live issued →
      History (bus.removeAll id).2 (live.filter (·.id ≠ id)) issued
  | clear {bus : Bus σ} {live : List (LiveSubscription σ)} {issued : List SubscriptionKey} :
      History bus live issued → History bus.clear [] issued

namespace History

variable {bus : Bus σ} {live : List (LiveSubscription σ)} {issued : List SubscriptionKey}

theorem represents (history : History bus live issued) : bus.Represents live := by
  induction history with
  | new => exact .new
  | add id callback _ induction => exact induction.add id callback
  | remove id key _ induction => exact induction.remove id key
  | removeAll id _ induction => exact induction.removeAll id
  | clear _ induction => exact induction.clear

/-- Keys are counted up, and clearing does not begin anew. -/
theorem issued_lt (history : History bus live issued) :
    ∀ key ∈ issued, key.number < bus.nextKey := by
  induction history with
  | new => simp
  | @add bus live issued id callback _ induction =>
      intro key member
      change key.number < bus.nextKey + 1
      rcases List.mem_append.mp member with old | new
      · exact Nat.lt_succ_of_lt (induction key old)
      · rw [List.mem_singleton.mp new]
        exact Nat.lt_succ_self _
  | remove _ _ _ induction => exact induction
  | removeAll _ _ induction => exact induction
  | clear _ induction => exact induction

end History

/-- What a bus answers after any history is read off the list of the live
subscriptions. A new key was never handed out before; the listeners of an identifier
are those of its live subscriptions in the order they were made; a subscription ends
exactly when it is live and was made for the identifier, and no other one has its key. -/
theorem history_answers {bus : Bus σ} {live : List (LiveSubscription σ)}
    {issued : List SubscriptionKey} (history : History bus live issued) :
    (∀ id callback, (bus.add id callback).1 ∉ issued) ∧
    (∀ id, bus.listeners id = (liveOf live id).map (·.callback)) ∧
    (∀ id key, (bus.remove id key).1 = true ↔ ∃ item ∈ live, item.key = key ∧ item.id = id) ∧
    (live.map (·.key)).Nodup ∧
    (∀ id, (bus.removeAll id).1 = (liveOf live id).length) ∧
    (∀ id, bus.count id = (liveOf live id).length) ∧
    bus.total = live.length := by
  have represents := history.represents
  refine ⟨?_, represents.listeners, represents.remove_iff, represents.keys, represents.count,
    represents.count, represents.total⟩
  intro id callback member
  exact Nat.lt_irrefl _ (history.issued_lt _ member)

/-! ### One listener subscribed again and again -/

namespace Repeated

def first : Identifier := ⟨0x1000001, Nat.one_ne_zero⟩

def second : Identifier := ⟨0x1000002, by decide⟩

def callback : Listener Nat := fun _ => .done

/-- The listener subscribes to one identifier, to another and to the first again.
Its second key is tried with the wrong identifier before everything is ended; then it
subscribes once more. -/
def bus : Bus Nat :=
  let subscribed :=
    (((({} : Bus Nat).add first callback).2.add second callback).2.add first callback).2
  ((subscribed.remove first ⟨1⟩).2.clear.add first callback).2

/-- The subscription made after everything was ended. -/
def live : List (LiveSubscription Nat) := [{ key := ⟨3⟩, callback, id := first }]

def issued : List SubscriptionKey := [⟨0⟩, ⟨1⟩, ⟨2⟩, ⟨3⟩]

theorem history : History bus live issued :=
  .add first callback (.clear (.remove first ⟨1⟩
    (.add first callback (.add second callback (.add first callback .new)))))

end Repeated

open Repeated in
theorem history_answers_repeated :
    History bus live issued ∧ (bus.add second callback).1 ∉ issued ∧
    bus.listeners first = [callback] ∧
    ((bus.remove first ⟨0⟩).1 = true ↔ ∃ item ∈ live, item.key = ⟨0⟩ ∧ item.id = first) ∧
    (bus.removeAll second).1 = 0 ∧ bus.total = 1 := by
  have answers := history_answers history
  exact ⟨history, answers.1 second callback, answers.2.1 first, answers.2.2.1 first ⟨0⟩,
    answers.2.2.2.2.1 second, answers.2.2.2.2.2.2⟩

end Bus

end NumericRules
