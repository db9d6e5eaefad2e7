import NumericRules.Proofs.WatchCalls

/-! # Watches that are ended again

Ending a watch undoes it, whatever was done to the store in between. A run in which a
condition is watched and a run in which it is not are compared step by step: the keys that
went to the watch are missing from the second one, so that later keys have other numbers
there, and otherwise both have the same subscriptions in the same order.
-/

namespace NumericRules

/-! ## Gaps in the numbers of keys -/

/-- Some numbers of keys that are left out: `count` of them from `first` on. -/
structure KeyGap where
  first : Nat
  count : Nat

namespace KeyGap

variable (gap : KeyGap)

def Contains (key : SubscriptionKey) : Prop :=
  gap.first ≤ key.number ∧ key.number < gap.first + gap.count

instance (key : SubscriptionKey) : Decidable (gap.Contains key) := by
  unfold Contains
  infer_instance

/-- What a key becomes when the numbers of the gap are left out. -/
def across (key : SubscriptionKey) : SubscriptionKey :=
  if key.number < gap.first then key else ⟨key.number + gap.count⟩

def acrossEach (keys : List (Identifier × SubscriptionKey)) :
    List (Identifier × SubscriptionKey) :=
  keys.map fun entry => (entry.1, gap.across entry.2)

theorem not_contains_across (key : SubscriptionKey) : ¬gap.Contains (gap.across key) := by
  unfold across Contains
  split
  · rename_i old
    exact fun inside => Nat.not_lt.mpr inside.1 old
  · rename_i new
    intro inside
    exact new (Nat.lt_of_add_lt_add_right inside.2)

theorem across_injective {key other : SubscriptionKey} (same : gap.across key = gap.across other) :
    key = other := by
  rcases key with ⟨number⟩
  rcases other with ⟨otherNumber⟩
  simp only [across, SubscriptionKey.mk.injEq] at same ⊢
  split at same <;> split at same <;> simp only [SubscriptionKey.mk.injEq] at same <;> omega

theorem across_of_lt {key : SubscriptionKey} (old : key.number < gap.first) :
    gap.across key = key := if_pos old

theorem across_new {number : Nat} (new : gap.first ≤ number) :
    gap.across ⟨number⟩ = ⟨number + gap.count⟩ := if_neg (Nat.not_lt.mpr new)

theorem mem_acrossEach {keys : List (Identifier × SubscriptionKey)} {id : Identifier}
    {key : SubscriptionKey} : (id, gap.across key) ∈ gap.acrossEach keys ↔ (id, key) ∈ keys := by
  simp only [acrossEach, List.mem_map, Prod.mk.injEq]
  constructor
  · rintro ⟨entry, member, rfl, same⟩
    rwa [← gap.across_injective same]
  · exact fun member => ⟨(id, key), member, rfl, rfl⟩

end KeyGap

def LiveSubscription.across (gap : KeyGap) (item : LiveSubscription σ) : LiveSubscription σ :=
  { item with key := gap.across item.key }

/-! ## Buses -/

/-- The second bus lacks the subscriptions whose keys are in the gap. -/
structure Bus.Lacks (gap : KeyGap) (more fewer : Bus σ) (live others : List (LiveSubscription σ)) :
    Prop where
  ofMore : more.Represents live
  ofFewer : fewer.Represents others
  rest : (live.filter fun item => ¬gap.Contains item.key) = others.map (·.across gap)
  first : gap.first ≤ fewer.nextKey
  nextKey : more.nextKey = fewer.nextKey + gap.count

namespace Bus.Lacks

variable {gap : KeyGap} {more fewer : Bus σ} {live others : List (LiveSubscription σ)}
  (lacks : more.Lacks gap fewer live others)

include lacks

/-- The next key is the same across the gap. -/
theorem across_next : gap.across ⟨fewer.nextKey⟩ = ⟨more.nextKey⟩ := by
  rw [gap.across_new lacks.first, lacks.nextKey]

theorem add (id : Identifier) (callback : Listener σ) :
    (more.add id callback).2.Lacks gap (fewer.add id callback).2
      (live ++ [{ key := ⟨more.nextKey⟩, callback, id }])
      (others ++ [{ key := ⟨fewer.nextKey⟩, callback, id }]) where
  ofMore := lacks.ofMore.add id callback
  ofFewer := lacks.ofFewer.add id callback
  rest := by
    have outside : ¬gap.Contains ⟨more.nextKey⟩ :=
      lacks.across_next ▸ gap.not_contains_across ⟨fewer.nextKey⟩
    rw [List.filter_append, lacks.rest, List.map_append, List.filter_cons_of_pos (by simpa)]
    simp only [List.filter_nil, List.map_cons, List.map_nil, LiveSubscription.across,
      lacks.across_next]
  first := Nat.le_succ_of_le lacks.first
  nextKey := by
    change more.nextKey + 1 = fewer.nextKey + 1 + gap.count
    rw [lacks.nextKey, Nat.add_right_comm]

/-- Ending subscriptions on both sides that correspond to each other. -/
theorem endings {left right : Bus σ} {ended otherEnded : LiveSubscription σ → Bool}
    (ofLeft : left.Represents (live.filter ended))
    (ofRight : right.Represents (others.filter otherEnded))
    (same : ∀ item, ended (item.across gap) = otherEnded item)
    (leftKey : left.nextKey = more.nextKey) (rightKey : right.nextKey = fewer.nextKey) :
    left.Lacks gap right (live.filter ended) (others.filter otherEnded) where
  ofMore := ofLeft
  ofFewer := ofRight
  rest := by
    have sameEnded : (ended ∘ fun item : LiveSubscription σ => item.across gap) = otherEnded :=
      funext same
    rw [List.filter_filter, ← sameEnded, ← List.filter_map, ← lacks.rest, List.filter_filter]
    simp only [Bool.and_comm]
  first := rightKey ▸ lacks.first
  nextKey := by rw [leftKey, rightKey, lacks.nextKey]

theorem remove (id : Identifier) (key : SubscriptionKey) :
    (more.remove id (gap.across key)).2.Lacks gap (fewer.remove id key).2
      (live.filter fun item => ¬(item.key = gap.across key ∧ item.id = id))
      (others.filter fun item => ¬(item.key = key ∧ item.id = id)) := by
  refine lacks.endings (lacks.ofMore.remove id _) (lacks.ofFewer.remove id key) (fun item => ?_)
    rfl rfl
  have same : gap.across item.key = gap.across key ↔ item.key = key :=
    ⟨gap.across_injective, fun same => same ▸ rfl⟩
  simp only [LiveSubscription.across, same]

theorem removeAll (id : Identifier) :
    (more.removeAll id).2.Lacks gap (fewer.removeAll id).2 (live.filter (·.id ≠ id))
      (others.filter (·.id ≠ id)) :=
  lacks.endings (lacks.ofMore.removeAll id) (lacks.ofFewer.removeAll id) (fun _ => rfl) rfl rfl

theorem clear : more.clear.Lacks gap fewer.clear [] [] where
  ofMore := lacks.ofMore.clear
  ofFewer := lacks.ofFewer.clear
  rest := rfl
  first := lacks.first
  nextKey := lacks.nextKey

/-- Without the subscriptions in the gap both have the same listeners. -/
theorem listeners_eq {left : Bus σ}
    (ended : left.Represents (live.filter fun item => ¬gap.Contains item.key))
    (id : Identifier) : left.listeners id = fewer.listeners id := by
  rw [ended.listeners, lacks.ofFewer.listeners, lacks.rest, liveOf, liveOf, List.filter_map,
    List.map_map]
  rfl

end Bus.Lacks

/-! ## Stores -/

namespace Store

/-- The watch is on in the first store, where the keys of its subscriptions are those in the
gap. The second store lacks it, and otherwise both have the same subscriptions and
watches. -/
structure Apart (gap : KeyGap) (watch : WatchId) (more fewer : Store σ)
    (live others : List (LiveSubscription σ)) : Prop where
  buses : more.bus.Lacks gap fewer.bus live others
  off : fewer.keysOf watch = none
  on : ∃ keys, more.keysOf watch = some keys ∧ (∀ entry ∈ keys, gap.Contains entry.2) ∧
    ∀ item ∈ live, gap.Contains item.key → (item.id, item.key) ∈ keys
  rest : ∀ other, other ≠ watch → more.keysOf other = (fewer.keysOf other).map gap.acrossEach

/-- Somebody subscribes on both sides. -/
theorem subscribeEach_lacks {gap : KeyGap} {more fewer : Store σ}
    {live others : List (LiveSubscription σ)}
    (lacks : more.bus.Lacks gap fewer.bus live others) (callback : Listener σ)
    (ids : List Identifier) :
    ∃ left right, (more.subscribeEach callback ids).2.bus.Lacks gap
        (fewer.subscribeEach callback ids).2.bus left right ∧
      (more.subscribeEach callback ids).1 = gap.acrossEach (fewer.subscribeEach callback ids).1 ∧
      ∀ item ∈ left, item ∈ live ∨ ¬gap.Contains item.key ∧ item.callback = callback := by
  induction ids generalizing more fewer live others with
  | nil => exact ⟨live, others, lacks, rfl, fun _ member => .inl member⟩
  | cons id rest induction =>
      have added : ({ more with bus := (more.bus.add id callback).2 } : Store σ).bus.Lacks gap
          ({ fewer with bus := (fewer.bus.add id callback).2 } : Store σ).bus _ _ :=
        lacks.add id callback
      rcases induction added with ⟨left, right, further, keys, origin⟩
      refine ⟨left, right, further, ?_, fun item member => ?_⟩
      · have first : (more.bus.add id callback).1 = gap.across (fewer.bus.add id callback).1 :=
          lacks.across_next.symm
        simp only [subscribeEach, KeyGap.acrossEach, List.map_cons]
        rw [first, keys]
        rfl
      · rcases origin item member with old | new
        · rcases List.mem_append.mp old with older | added
          · exact .inl older
          · rw [List.mem_singleton.mp added]
            refine .inr ⟨?_, rfl⟩
            exact lacks.across_next ▸ gap.not_contains_across ⟨fewer.bus.nextKey⟩
        · exact .inr new

namespace Apart

variable {gap : KeyGap} {watch : WatchId} {more fewer : Store σ}
  {live others : List (LiveSubscription σ)} (apart : Apart gap watch more fewer live others)

include apart

/-- Something is done on both sides that neither ends nor makes subscriptions of the watch
by itself. -/
theorem edit {left right : Store σ} {leftLive rightLive : List (LiveSubscription σ)}
    (buses : left.bus.Lacks gap right.bus leftLive rightLive)
    (origin : ∀ item ∈ leftLive, item ∈ live ∨ ¬gap.Contains item.key)
    (on : left.keysOf watch = more.keysOf watch) (off : right.keysOf watch = fewer.keysOf watch)
    (rest : ∀ other, other ≠ watch →
      left.keysOf other = (right.keysOf other).map gap.acrossEach) :
    Apart gap watch left right leftLive rightLive where
  buses := buses
  off := off.trans apart.off
  on := by
    rcases apart.on with ⟨keys, isOn, inside, covered⟩
    refine ⟨keys, on.trans isOn, inside, fun item member contained => ?_⟩
    exact covered item ((origin item member).resolve_right fun outside => outside contained)
      contained
  rest := rest

/-- Something is done to both buses alone. -/
theorem editBus {left right : Bus σ} {leftLive rightLive : List (LiveSubscription σ)}
    (buses : left.Lacks gap right leftLive rightLive)
    (origin : ∀ item ∈ leftLive, item ∈ live ∨ ¬gap.Contains item.key) :
    Apart gap watch { more with bus := left } { fewer with bus := right } leftLive rightLive :=
  apart.edit buses origin rfl rfl apart.rest

/-- Nothing is done to subscriptions and watches. -/
theorem same {left right : Store σ} (leftBus : left.bus = more.bus)
    (rightBus : right.bus = fewer.bus) (leftKeys : left.keysOf = more.keysOf)
    (rightKeys : right.keysOf = fewer.keysOf) : Apart gap watch left right live others := by
  refine apart.edit (leftBus ▸ rightBus ▸ apart.buses) (fun _ member => .inl member) ?_ ?_ ?_
  · rw [leftKeys]
  · rw [rightKeys]
  · rw [leftKeys, rightKeys]
    exact apart.rest

theorem isWatching_eq {station : StationId} {condition : RuleId}
    (other : (⟨station, condition⟩ : WatchId) ≠ watch) :
    more.isWatching station condition = fewer.isWatching station condition := by
  rw [Store.isWatching_eq, Store.isWatching_eq, apart.rest _ other, Option.isSome_map]

/-- Another condition is watched on both sides. -/
theorem watch_other {station : StationId} {condition : RuleId}
    (other : (⟨station, condition⟩ : WatchId) ≠ watch) (ids : List Identifier)
    (callback : Listener σ) :
    ∃ left right, Apart gap watch (more.watch station condition ids callback)
        (fewer.watch station condition ids callback) left right ∧
      ∀ item ∈ left, item ∈ live ∨ item.callback = callback := by
  rcases subscribeEach_lacks apart.buses callback ids with ⟨left, right, lacks, keys, origin⟩
  have ofMore := keysOf_watch more station condition ids callback
  have ofFewer := keysOf_watch fewer station condition ids callback
  refine ⟨left, right, apart.edit lacks (fun item member => (origin item member).imp_right (·.1))
    ?_ ?_ ?_, fun item member => (origin item member).imp_right (·.2)⟩
  · rw [ofMore, if_neg other.symm]
  · rw [ofFewer, if_neg other.symm]
  · intro another different
    rw [ofMore, ofFewer]
    split
    · rw [Option.map_some, keys]
    · exact apart.rest another different

/-- The watch of another condition is ended on both sides. -/
theorem unwatch_other {station : StationId} {condition : RuleId}
    (other : (⟨station, condition⟩ : WatchId) ≠ watch) :
    ∃ left right, Apart gap watch (more.unwatch station condition).2
        (fewer.unwatch station condition).2 left right ∧ ∀ item ∈ left, item ∈ live := by
  have corresponds := apart.rest _ other
  cases found : fewer.keysOf ⟨station, condition⟩ with
  | none =>
      rw [found] at corresponds
      rw [unwatch_of_off found, unwatch_of_off corresponds]
      exact ⟨live, others, apart, fun _ member => member⟩
  | some keys =>
      rw [found, Option.map_some] at corresponds
      rcases unwatch_of_on corresponds apart.buses.ofMore with ⟨ofMore, moreKey⟩
      rcases unwatch_of_on found apart.buses.ofFewer with ⟨ofFewer, fewerKey⟩
      have lacks := apart.buses.endings ofMore ofFewer
        (fun item => by simp only [LiveSubscription.across, gap.mem_acrossEach]) moreKey fewerKey
      have leftKeys := keysOf_unwatch more station condition
      have rightKeys := keysOf_unwatch fewer station condition
      refine ⟨_, _, apart.edit lacks (fun item member => .inl (List.mem_filter.mp member).1) ?_ ?_
        ?_, fun item member => (List.mem_filter.mp member).1⟩
      · rw [leftKeys, if_neg other.symm]
      · rw [rightKeys, if_neg other.symm]
      · intro another different
        rw [leftKeys, rightKeys]
        split
        · rfl
        · exact apart.rest another different

/-- Ending the watch leaves the subscriptions and the watches of the second store. It ends
no subscription of another watch. -/
theorem unwatch {station : StationId} {condition : RuleId}
    (isWatch : watch = ⟨station, condition⟩) :
    ∃ store, more.unwatch station condition = (true, store) ∧
      (∀ id, store.bus.listeners id = fewer.bus.listeners id) ∧
      store.isWatching station condition = false ∧
      (∀ other, other ≠ watch → store.keysOf other = more.keysOf other ∧
        (store.keysOf other).isSome = (fewer.keysOf other).isSome ∧
        ∀ keys, store.keysOf other = some keys → ∀ entry ∈ keys,
          (store.bus.Holds entry.2 ↔ more.bus.Holds entry.2)) ∧
      store.unwatch station condition = (false, store) := by
  subst isWatch
  rcases apart.on with ⟨keys, on, inside, covered⟩
  have found : (more.logOf station).watches.lookup condition = some keys := on
  have ended : (more.unwatch station condition).1 = true := by simp only [Store.unwatch, found]
  have ofMore := (unwatch_of_on on apart.buses.ofMore).1
  have keysOf := keysOf_unwatch more station condition
  have sameLive : (live.filter fun item => (item.id, item.key) ∉ keys) =
      live.filter fun item => ¬gap.Contains item.key := by
    refine List.filter_congr fun item member => ?_
    have exactly : (item.id, item.key) ∈ keys ↔ gap.Contains item.key :=
      ⟨fun kept => inside _ kept, covered item member⟩
    simp only [exactly]
  rw [sameLive] at ofMore
  have off : (more.unwatch station condition).2.keysOf ⟨station, condition⟩ = none := by
    rw [keysOf, if_pos rfl]
  refine ⟨(more.unwatch station condition).2, Prod.ext ended rfl,
    fun id => apart.buses.listeners_eq ofMore id, ?_, fun other different => ?_, ?_⟩
  · rw [Store.isWatching_eq, off]
    rfl
  · have corresponds := apart.rest other different
    rw [keysOf, if_neg different]
    refine ⟨rfl, by rw [corresponds, Option.isSome_map], fun others isOn entry member => ?_⟩
    have outside : ¬gap.Contains entry.2 := by
      rw [corresponds] at isOn
      rcases Option.map_eq_some_iff.mp isOn with ⟨_, _, rfl⟩
      rcases List.mem_map.mp member with ⟨original, _, rfl⟩
      exact gap.not_contains_across original.2
    rw [ofMore.holds_iff, apart.buses.ofMore.holds_iff]
    constructor
    · rintro ⟨item, isLive, same⟩
      exact ⟨item, (List.mem_filter.mp isLive).1, same⟩
    · rintro ⟨item, isLive, same⟩
      exact ⟨item, List.mem_filter.mpr ⟨isLive, by simpa [same] using outside⟩, same⟩
  · refine Prod.ext ?_ (unwatch_of_off off)
    have absent : ((more.unwatch station condition).2.logOf station).watches.lookup condition =
        none := off
    rw [Store.unwatch, absent]

end Apart

theorem nextKey_subscribeEach (store : Store σ) (callback : Listener σ) (ids : List Identifier) :
    (store.subscribeEach callback ids).2.bus.nextKey = store.bus.nextKey + ids.length := by
  induction ids generalizing store with
  | nil => rfl
  | cons id rest induction =>
      rw [subscribeEach]
      dsimp only
      rw [induction, List.length_cons, Nat.add_comm rest.length, ← Nat.add_assoc]
      rfl

/-- The numbers of the keys that a watch of some identifiers takes. -/
def gapOf (store : Store σ) (ids : List Identifier) : KeyGap := ⟨store.bus.nextKey, ids.length⟩

theorem nextKey_watch (store : Store σ) (station : StationId) (condition : RuleId)
    (ids : List Identifier) (callback : Listener σ) :
    (store.watch station condition ids callback).bus.nextKey =
      (store.gapOf ids).first + (store.gapOf ids).count :=
  store.nextKey_subscribeEach callback ids

/-- A store at work, with a new watch and without it. -/
theorem Reached.apart {engine : Engine σ} {store : Store σ} (reached : store.Reached engine)
    {station : StationId} {condition : RuleId}
    (off : store.isWatching station condition = false) (ids : List Identifier)
    (callback : Listener σ) :
    ∃ live keys, store.bus.Represents live ∧
      Apart (store.gapOf ids) ⟨station, condition⟩ (store.watch station condition ids callback)
        store (live ++ made callback keys) live := by
  rcases reached.watchHistory with ⟨watches, history⟩
  rcases history.reflects with ⟨live, reflects⟩
  rcases subscribeEach_represents reflects.represents callback ids with
    ⟨represents, -, fresh, -⟩
  have nextKey := store.nextKey_subscribeEach callback ids
  have keysOf := keysOf_watch store station condition ids callback
  generalize (store.subscribeEach callback ids).1 = keys at represents fresh keysOf
  have old (key : SubscriptionKey) (counted : key.number < store.bus.nextKey) :
      ¬(store.gapOf ids).Contains key := fun inside => Nat.not_lt.mpr inside.1 counted
  have inside (entry : Identifier × SubscriptionKey) (member : entry ∈ keys) :
      (store.gapOf ids).Contains entry.2 := by
    have counted := represents.counted { key := entry.2, callback, id := entry.1 }
      (List.mem_append_right _ (List.mem_map_of_mem member))
    rw [nextKey] at counted
    exact ⟨fresh entry member, counted⟩
  refine ⟨live, keys, reflects.represents, ⟨represents, reflects.represents, ?_, Nat.le_refl _,
    nextKey⟩, ?_, ⟨keys, ?_, inside, ?_⟩, ?_⟩
  · have kept : (live.filter fun item => ¬(store.gapOf ids).Contains item.key) = live :=
      List.filter_eq_self.mpr fun item member => by
        simpa using old item.key (reflects.represents.counted item member)
    have dropped : ((made callback keys).filter fun item =>
        ¬(store.gapOf ids).Contains item.key) = [] := by
      refine List.filter_eq_nil_iff.mpr fun item member => ?_
      rcases List.mem_map.mp member with ⟨entry, isKey, rfl⟩
      simpa using inside entry isKey
    have unchanged : live.map (·.across (store.gapOf ids)) = live := by
      refine List.map_congr_left (fun item member => ?_) |>.trans (List.map_id live)
      rw [LiveSubscription.across,
        KeyGap.across_of_lt _ (reflects.represents.counted item member)]
      rfl
    rw [List.filter_append, kept, dropped, List.append_nil, unchanged]
  · simpa [Store.isWatching_eq] using off
  · rw [keysOf, if_pos rfl]
  · intro item member contained
    rcases List.mem_append.mp member with isOld | isNew
    · exact absurd contained (old item.key (reflects.represents.counted item isOld))
    · rcases List.mem_map.mp isNew with ⟨entry, isKey, rfl⟩
      exact isKey
  · intro other different
    rw [keysOf, if_neg different]
    cases found : store.keysOf other with
    | none => rfl
    | some others =>
        have unchanged : (store.gapOf ids).acrossEach others = others := by
          refine List.map_congr_left (fun entry member => ?_) |>.trans (List.map_id others)
          rw [KeyGap.across_of_lt _ (reflects.kept other others found entry member).2]
          rfl
        rw [Option.map_some, unchanged]

end Store

/-! ## Passive listeners -/

namespace World

/-- All listeners leave subscriptions alone. -/
def Passive (world : World σ) : Prop :=
  ∀ tier id, ∀ listener ∈ (world.busAt tier).listeners id, ∀ change,
    (listener change).Quiet .writing

theorem lasting_passive : Lasting (Passive (σ := σ)) where
  kept passive kept tier id := by
    cases tier with
    | engine =>
        rw [busAt, kept.bus]
        exact passive .engine id
    | store =>
        rw [busAt, kept.storeBus]
        exact passive .store id
  new _ passive tier id := by
    cases tier with
    | engine => exact passive .engine id
    | store => exact List.forall_mem_nil _

/-- Two states with passive listeners, in one of which a watch is on. -/
structure Apart (gap : KeyGap) (watch : WatchId) (more fewer : World σ) : Prop where
  stores : ∃ live others, more.store.Apart gap watch fewer.store live others ∧
    ∀ item ∈ live, ∀ change, (item.callback change).Quiet .writing
  more : ∀ id, ∀ listener ∈ more.bus.listeners id, ∀ change, (listener change).Quiet .writing
  fewer : ∀ id, ∀ listener ∈ fewer.bus.listeners id, ∀ change, (listener change).Quiet .writing

namespace Apart

variable {gap : KeyGap} {watch : WatchId} {more fewer : World σ}
  (apart : more.Apart gap watch fewer)

include apart

theorem passive_more : more.Passive := by
  rcases apart.stores with ⟨live, others, stores, quiet⟩
  intro tier id listener member change
  cases tier with
  | engine => exact apart.more id listener member change
  | store =>
      change listener ∈ more.store.bus.listeners id at member
      rw [stores.buses.ofMore.listeners] at member
      rcases List.mem_map.mp member with ⟨item, isLive, rfl⟩
      exact quiet item (List.mem_filter.mp isLive).1 change

theorem passive_fewer : fewer.Passive := by
  rcases apart.stores with ⟨live, others, stores, quiet⟩
  intro tier id listener member change
  cases tier with
  | engine => exact apart.fewer id listener member change
  | store =>
      change listener ∈ fewer.store.bus.listeners id at member
      rw [stores.buses.ofFewer.listeners] at member
      rcases List.mem_map.mp member with ⟨item, isLive, rfl⟩
      -- the same listener is subscribed on the other side
      have across : item.across gap ∈ others.map (·.across gap) :=
        List.mem_map_of_mem (List.mem_filter.mp isLive).1
      rw [← stores.buses.rest] at across
      exact quiet _ (List.mem_filter.mp across).1 change

/-- Both stores are changed, and nothing at the engine. -/
theorem change {left right : World σ} {live others : List (LiveSubscription σ)}
    (stores : left.store.Apart gap watch right.store live others)
    (quiet : ∀ item ∈ live, ∀ change, (item.callback change).Quiet .writing)
    (leftBus : left.bus = more.bus) (rightBus : right.bus = fewer.bus) :
    left.Apart gap watch right :=
  ⟨⟨live, others, stores, quiet⟩, leftBus ▸ apart.more, rightBus ▸ apart.fewer⟩

end Apart

end World

/-! ## What is done in between -/

/-- A handle of a subscription at a bus that has handed out some keys: one of these, or one
that is handed out later, counted from then on. -/
inductive Handle (issued : Nat) where
  | old (key : SubscriptionKey) (isOld : key.number < issued)
  | new (count : Nat)

/-- The key for a handle if later keys are numbered from `start` on. -/
def Handle.key (start : Nat) : Handle issued → SubscriptionKey
  | .old key _ => key
  | .new count => ⟨start + count⟩

/-- Something that is done to a store: watches, subscriptions at its bus, and whatever
scripts do. -/
inductive Deed (σ : Type) (issued : Nat) where
  | watch (station : StationId) (condition : ConditionRule) (callback : Script σ .writing)
  | unwatch (station : StationId) (condition : RuleId)
  | subscribe (id : Identifier) (callback : Listener σ)
  | unsubscribe (id : Identifier) (handle : Handle issued)
  | unsubscribeAll (id : Identifier)
  | clear
  | work (script : Script σ .writing)

namespace Deed

variable {issued : Nat}

def carryOut (engine : Engine σ) (depth start : Nat) : Deed σ issued → Run σ Unit
  | .watch station condition callback => Run.watch station condition callback
  | .unwatch station condition => do
      let _ ← Run.changeStore (·.unwatch station condition)
  | .subscribe id callback => do
      let _ ← Run.changeBus .store (·.add id callback)
  | .unsubscribe id handle => do
      let _ ← Run.changeBus .store (·.remove id (handle.key start))
  | .unsubscribeAll id => do
      let _ ← Run.changeBus .store (·.removeAll id)
  | .clear => Run.changeBus .store fun bus => ((), bus.clear)
  | .work script => do
      let _ ← script.play engine (engine.respond depth)

def carryOutAll (engine : Engine σ) (depth start : Nat) : List (Deed σ issued) → Run σ Unit
  | [] => pure ()
  | deed :: rest => do
      deed.carryOut engine depth start
      carryOutAll engine depth start rest

/-- The deed neither begins the watch nor ends it, and what it calls or has called later
leaves subscriptions alone. -/
def Spares (watch : WatchId) : Deed σ issued → Prop
  | .watch station condition callback =>
      condition.watchAt station ≠ watch ∧ callback.Quiet .writing
  | .unwatch station condition => (⟨station, condition⟩ : WatchId) ≠ watch
  | .subscribe _ callback => ∀ change, (callback change).Quiet .writing
  | .unsubscribe _ _ => True
  | .unsubscribeAll _ => True
  | .clear => True
  | .work script => script.Quiet .writing

/-- One step: a deed that spares the watch keeps the states apart. -/
theorem carryOut_apart {engine : Engine σ} (quiet : engine.Quiet) {gap : KeyGap}
    {watch : WatchId} {deed : Deed σ gap.first} (spares : deed.Spares watch)
    {more fewer left right : World σ} (apart : more.Apart gap watch fewer) {depth other : Nat}
    (ranMore : deed.carryOut engine depth (gap.first + gap.count) more = some ((), left))
    (ranFewer : deed.carryOut engine other gap.first fewer = some ((), right)) :
    left.Apart gap watch right := by
  rcases apart.stores with ⟨live, others, stores, heard⟩
  cases deed with
  | watch station condition callback =>
      have same := stores.isWatching_eq spares.1
      cases watching : fewer.store.isWatching station condition.id with
      | true =>
          cases ranMore.symm.trans (Run.watch_again callback (same.trans watching))
          cases ranFewer.symm.trans (Run.watch_again callback watching)
          exact apart
      | false =>
          rcases Run.watch_new callback (same.trans watching) with ⟨_, watches, ofLeft, leftBus⟩
          cases ranMore.symm.trans watches
          rcases Run.watch_new callback watching with ⟨_, watches, ofRight, rightBus⟩
          cases ranFewer.symm.trans watches
          rcases stores.watch_other spares.1 condition.identifiers
            (watcher condition.root callback) with ⟨_, _, stores, origin⟩
          refine apart.change (ofLeft ▸ ofRight ▸ stores) (fun item member change => ?_) leftBus
            rightBus
          rcases origin item member with old | new
          · exact heard item old change
          · rw [new]
            exact watcher_quiet spares.2 change
  | unwatch station condition =>
      rcases stores.unwatch_other spares with ⟨_, _, stores, fromLive⟩
      cases ranMore
      cases ranFewer
      exact apart.change stores (fun item member => heard item (fromLive item member)) rfl rfl
  | subscribe id callback =>
      cases ranMore
      cases ranFewer
      have outside : ¬gap.Contains ⟨more.store.bus.nextKey⟩ :=
        stores.buses.across_next ▸ gap.not_contains_across ⟨fewer.store.bus.nextKey⟩
      refine apart.change (stores.editBus (stores.buses.add id callback) fun item member => ?_)
        (fun item member => ?_) rfl rfl
      · rcases List.mem_append.mp member with old | new
        · exact .inl old
        · rw [List.mem_singleton.mp new]
          exact .inr outside
      · rcases List.mem_append.mp member with old | new
        · exact heard item old
        · rw [List.mem_singleton.mp new]
          exact spares
  | unsubscribe id handle =>
      cases ranMore
      cases ranFewer
      have key : handle.key (gap.first + gap.count) = gap.across (handle.key gap.first) := by
        cases handle with
        | old key isOld => exact (gap.across_of_lt isOld).symm
        | new count =>
            rw [Handle.key, Handle.key, gap.across_new (Nat.le_add_right _ _),
              Nat.add_right_comm]
      have removed := stores.buses.remove id (handle.key gap.first)
      rw [← key] at removed
      exact apart.change
        (stores.editBus removed fun item member => .inl (List.mem_filter.mp member).1)
        (fun item member => heard item (List.mem_filter.mp member).1) rfl rfl
  | unsubscribeAll id =>
      cases ranMore
      cases ranFewer
      have removed := stores.buses.removeAll id
      exact apart.change
        (stores.editBus removed fun item member => .inl (List.mem_filter.mp member).1)
        (fun item member => heard item (List.mem_filter.mp member).1) rfl rfl
  | clear =>
      cases ranMore
      cases ranFewer
      exact apart.change
        (stores.editBus stores.buses.clear fun _ member => nomatch member)
        (fun _ member => nomatch member) rfl rfl
  | work script =>
      have plays (depth : Nat) : (script.play engine (engine.respond depth)).Respects
          (World.KeepsIf World.Passive .writing) :=
        script.play_keepsIf World.lasting_passive (engine.respond_quietIf World.lasting_passive
          quiet (fun _ passive => passive) depth) spares
      rcases Run.bind_eq_some ranMore with ⟨_, _, played, ended⟩
      cases ended
      have leftKept := plays depth _ _ _ played apart.passive_more
      rcases Run.bind_eq_some ranFewer with ⟨_, _, played, ended⟩
      cases ended
      have rightKept := plays other _ _ _ played apart.passive_fewer
      exact apart.change (stores.same leftKept.storeBus rightKept.storeBus leftKept.watches
        rightKept.watches) heard leftKept.bus rightKept.bus

/-- Every run: deeds that spare the watch keep the states apart. -/
theorem carryOutAll_apart {engine : Engine σ} (quiet : engine.Quiet) {gap : KeyGap}
    {watch : WatchId} {deeds : List (Deed σ gap.first)} (spares : ∀ deed ∈ deeds, deed.Spares watch)
    {more fewer left right : World σ} (apart : more.Apart gap watch fewer) {depth other : Nat}
    (ranMore : carryOutAll engine depth (gap.first + gap.count) deeds more = some ((), left))
    (ranFewer : carryOutAll engine other gap.first deeds fewer = some ((), right)) :
    left.Apart gap watch right := by
  induction deeds generalizing more fewer with
  | nil =>
      cases ranMore
      cases ranFewer
      exact apart
  | cons deed rest induction =>
      rcases List.forall_mem_cons.mp spares with ⟨first, others⟩
      rcases Run.bind_eq_some ranMore with ⟨_, _, stepMore, restMore⟩
      rcases Run.bind_eq_some ranFewer with ⟨_, _, stepFewer, restFewer⟩
      exact induction others (carryOut_apart quiet first apart stepMore stepFewer) restMore
        restFewer

end Deed

/-- Ending a watch undoes just this watch. A condition that was not watched is watched, then
anything is done to the store that neither watches it nor ends the watch, while all code that
runs leaves subscriptions alone, and then the watch is ended. Ending it succeeds, and from
then on every identifier has the listeners that it would have if the condition had never been
watched. Other watches are what they would be and what they were, and none of their
subscriptions is ended. Ending the watch once more changes nothing. -/
theorem Run.watch_undone {engine : Engine σ} (quiet : engine.Quiet) {world : World σ}
    (reached : world.store.Reached engine) (passive : world.Passive) {station : StationId}
    {condition : ConditionRule} {callback : Script σ .writing} (calls : callback.Quiet .writing)
    (off : world.store.isWatching station condition.id = false) :
    ∃ watched, Run.watch station condition callback world = some ((), watched) ∧
      ∀ deeds : List (Deed σ world.store.bus.nextKey),
        (∀ deed ∈ deeds, deed.Spares (condition.watchAt station)) →
        ∀ depth other more fewer,
          Deed.carryOutAll engine depth watched.store.bus.nextKey deeds watched =
            some ((), more) →
          Deed.carryOutAll engine other world.store.bus.nextKey deeds world = some ((), fewer) →
          ∃ store, more.store.unwatch station condition.id = (true, store) ∧
            (∀ id, store.bus.listeners id = fewer.store.bus.listeners id) ∧
            store.isWatching station condition.id = false ∧
            (∀ watch, watch ≠ condition.watchAt station →
              store.keysOf watch = more.store.keysOf watch ∧
              (store.keysOf watch).isSome = (fewer.store.keysOf watch).isSome ∧
              ∀ keys, store.keysOf watch = some keys → ∀ entry ∈ keys,
                (store.bus.Holds entry.2 ↔ more.store.bus.Holds entry.2)) ∧
            store.unwatch station condition.id = (false, store) := by
  rcases Run.watch_new callback off with ⟨watched, watches, ofWatched, bus⟩
  rcases reached.apart off condition.identifiers (watcher condition.root callback) with
    ⟨live, keys, represents, stores⟩
  have heard : ∀ item ∈ live ++ Store.made (watcher condition.root callback) keys, ∀ change,
      (item.callback change).Quiet .writing := by
    intro item member change
    rcases List.mem_append.mp member with old | new
    · have listener : item.callback ∈ world.store.bus.listeners item.id := by
        rw [represents.listeners]
        exact List.mem_map_of_mem (List.mem_filter.mpr ⟨old, by simp⟩)
      exact passive .store item.id item.callback listener change
    · rcases List.mem_map.mp new with ⟨entry, _, rfl⟩
      exact watcher_quiet calls change
  have apart : World.Apart (world.store.gapOf condition.identifiers)
      (condition.watchAt station) watched world :=
    ⟨⟨_, live, ofWatched ▸ stores, heard⟩, bus ▸ passive .engine, passive .engine⟩
  have start : watched.store.bus.nextKey = _ := ofWatched ▸
    world.store.nextKey_watch station condition.id condition.identifiers _
  refine ⟨watched, watches, fun deeds spares depth other more fewer ranMore ranFewer => ?_⟩
  rw [start] at ranMore
  rcases (Deed.carryOutAll_apart quiet spares apart ranMore ranFewer).stores with ⟨_, _, stores, -⟩
  exact stores.unwatch rfl

namespace Bell

open Store.Unattended (engine name station start)

/-- A counting listener is subscribed twice and its first subscription ended, the condition is
watched at another station, and a value above 0 is written. -/
def deeds : List (Deed Nat start.store.bus.nextKey) :=
  [.subscribe name fun _ => watch.callback, .watch ⟨1⟩ watch.condition watch.callback,
    .subscribe name fun _ => watch.callback, .unsubscribe name (.new 0),
    .work (.write name .set 1 fun _ => .done)]

end Bell

open Store.Unattended (engine name station start) in
/-- The counting watch is undone. -/
theorem Run.watch_undone_bell :
    engine.Quiet ∧ start.store.Reached engine ∧ start.Passive ∧ Bell.watch.callback.Quiet .writing ∧
    start.store.isWatching station Bell.watch.condition.id = false ∧
    (∀ deed ∈ Bell.deeds, deed.Spares (Bell.watch.condition.watchAt station)) ∧
    ∃ more fewer,
      Deed.carryOutAll engine 2 Bell.world.store.bus.nextKey Bell.deeds Bell.world =
        some ((), more) ∧
      Deed.carryOutAll engine 2 start.store.bus.nextKey Bell.deeds start = some ((), fewer) ∧
      more.host = 3 ∧ fewer.host = 2 ∧
      ∃ store, more.store.unwatch station Bell.watch.condition.id = (true, store) ∧
        ∀ id, store.bus.listeners id = fewer.store.bus.listeners id := by
  have reached : start.store.Reached engine := ⟨none, .start⟩
  have passive : start.Passive := fun tier _ _ member => by cases tier <;> cases member
  have calls : Bell.watch.callback.Quiet .writing := fun _ => trivial
  have off : start.store.isWatching station Bell.watch.condition.id = false := rfl
  have spares : ∀ deed ∈ Bell.deeds, deed.Spares (Bell.watch.condition.watchAt station) := by
    have elsewhere : Bell.watch.condition.watchAt ⟨1⟩ ≠ Bell.watch.condition.watchAt station := by
      decide
    simp only [Bell.deeds, List.forall_mem_cons]
    exact ⟨fun _ => calls, ⟨elsewhere, calls⟩, fun _ => calls, trivial, ⟨rfl, fun _ => trivial⟩,
      fun _ member => nomatch member⟩
  have withWatch : (Deed.carryOutAll engine 2 Bell.world.store.bus.nextKey Bell.deeds
      Bell.world).map (·.2.host) = some 3 := by decide +kernel
  have without : (Deed.carryOutAll engine 2 start.store.bus.nextKey Bell.deeds start).map
      (·.2.host) = some 2 := by decide +kernel
  rcases Option.map_eq_some_iff.mp withWatch with ⟨⟨⟨⟩, more⟩, ranMore, three⟩
  rcases Option.map_eq_some_iff.mp without with ⟨⟨⟨⟩, fewer⟩, ranFewer, two⟩
  rcases Run.watch_undone Bell.quiet reached passive calls off with ⟨watched, watches, undone⟩
  have isWorld : watched = Bell.world := by
    have run : Run.watch station Bell.watch.condition Bell.watch.callback start =
        some ((), Bell.world) := rfl
    exact congrArg Prod.snd (Option.some.inj (watches.symm.trans run))
  rw [isWorld] at undone
  rcases undone Bell.deeds spares 2 2 more fewer ranMore ranFewer with ⟨store, ended, same, -⟩
  exact ⟨Bell.quiet, reached, passive, calls, off, spares, more, fewer, ranMore, ranFewer,
    three, two, store, ended, same⟩

end NumericRules
