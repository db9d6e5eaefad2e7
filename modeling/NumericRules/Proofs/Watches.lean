import NumericRules.Proofs.ProcessSlots
import NumericRules.Proofs.StoreHistory
import NumericRules.Proofs.Subscriptions

/-! # Watched conditions

What a workstation watches is kept twice: as keys in its log of a store and as
subscriptions at the bus of the store. A history tells which subscriptions were made
for which watch and whether any of them was ended by other means than the watch. A
watch is attended to exactly as long as none was.
-/

namespace NumericRules

/-! ## What logs keep -/

section Lookup

variable {α β : Type} [DecidableEq α]

theorem lookup_cons_ne {key other : α} (different : other ≠ key) (value : β)
    (entries : List (α × β)) : ((key, value) :: entries).lookup other = entries.lookup other := by
  rw [List.lookup_cons, beq_false_of_ne different]

theorem lookup_filter_ne (entries : List (α × β)) (key other : α) :
    (entries.filter (·.1 ≠ key)).lookup other =
      if other = key then none else entries.lookup other := by
  induction entries with
  | nil => simp
  | cons entry rest induction =>
      rcases entry with ⟨first, value⟩
      by_cases dropped : first = key
      · rw [List.filter_cons_of_neg (by simpa using dropped), induction, dropped]
        split
        · rfl
        · rename_i different
          rw [lookup_cons_ne different]
      · rw [List.filter_cons_of_pos (by simpa using dropped)]
        by_cases found : other = first
        · rw [found, List.lookup_cons_self, List.lookup_cons_self, if_neg dropped]
        · rw [lookup_cons_ne found, lookup_cons_ne found, induction]

theorem lookup_replace (entries : List (α × β)) (key other : α) (value : β) :
    ((key, value) :: entries.filter (·.1 ≠ key)).lookup other =
      if other = key then some value else entries.lookup other := by
  by_cases same : other = key
  · rw [same, List.lookup_cons_self, if_pos rfl]
  · rw [lookup_cons_ne same, lookup_filter_ne, if_neg same, if_neg same]

end Lookup

/-- A watch is known by its workstation and the number of its condition. -/
structure WatchId where
  station : StationId
  condition : RuleId
deriving DecidableEq

/-- The watch of a condition at a workstation. -/
abbrev ConditionRule.watchAt (condition : ConditionRule) (station : StationId) : WatchId :=
  ⟨station, condition.id⟩

namespace Store

theorem logOf_updateLog (store : Store σ) (station other : StationId)
    (change : StationLog → StationLog) :
    (store.updateLog station change).logOf other =
      if other = station then change (store.logOf station) else store.logOf other := by
  rw [logOf, updateLog, lookup_replace]
  split <;> rfl

/-- The subscriptions a watch has kept the keys of, `none` when it is not on. -/
def keysOf (store : Store σ) (watch : WatchId) : Option (List (Identifier × SubscriptionKey)) :=
  (store.logOf watch.station).watches.lookup watch.condition

theorem isWatching_eq (store : Store σ) (station : StationId) (condition : RuleId) :
    store.isWatching station condition = (store.keysOf ⟨station, condition⟩).isSome := rfl

theorem keysOf_updateLog (store : Store σ) (station : StationId)
    (change : StationLog → StationLog) (watch : WatchId) :
    (store.updateLog station change).keysOf watch =
      if watch.station = station then
        (change (store.logOf station)).watches.lookup watch.condition
      else store.keysOf watch := by
  rw [keysOf, logOf_updateLog]
  split <;> rfl

theorem keysOf_produce (store : Store σ) (station : StationId) (rule : RuleId)
    (targets : List Identifier) (watch : WatchId) :
    (store.produce station rule targets).keysOf watch = store.keysOf watch := by
  rw [produce, keysOf_updateLog]
  split
  · rename_i same
    rw [keysOf, same, StationLog.produce]
    split <;> rfl
  · rfl

theorem keysOf_subscribeEach (store : Store σ) (callback : Listener σ) (ids : List Identifier) :
    (store.subscribeEach callback ids).2.keysOf = store.keysOf := by
  rcases subscribeEach_eq store callback ids with ⟨bus, same⟩
  rw [same]
  rfl

theorem keysOf_unsubscribeEach (store : Store σ) (keys : List (Identifier × SubscriptionKey)) :
    (store.unsubscribeEach keys).keysOf = store.keysOf := by
  rcases unsubscribeEach_eq store keys with ⟨bus, same⟩
  rw [same]
  rfl

theorem keysOf_watch (store : Store σ) (station : StationId) (condition : RuleId)
    (ids : List Identifier) (callback : Listener σ) (other : WatchId) :
    (store.watch station condition ids callback).keysOf other =
      if other = ⟨station, condition⟩ then some (store.subscribeEach callback ids).1
      else store.keysOf other := by
  rcases other with ⟨otherStation, otherCondition⟩
  rw [watch, keysOf_updateLog, keysOf_subscribeEach]
  simp only [lookup_replace, WatchId.mk.injEq, ite_and]
  split
  · rename_i ofStation
    split
    · rfl
    · rw [ofStation, ← keysOf_subscribeEach store callback ids]
      rfl
  · rfl

theorem keysOf_unwatch (store : Store σ) (station : StationId) (condition : RuleId)
    (other : WatchId) :
    (store.unwatch station condition).2.keysOf other =
      if other = ⟨station, condition⟩ then none else store.keysOf other := by
  rcases other with ⟨otherStation, otherCondition⟩
  unfold unwatch
  split
  · rename_i absent
    split
    · rename_i same
      cases same
      exact absent
    · rfl
  · rename_i keys found
    rw [keysOf_unsubscribeEach, keysOf_updateLog]
    simp only [lookup_filter_ne, keysOf, WatchId.mk.injEq, ite_and]
    split
    · rename_i ofStation
      rw [ofStation]
    · rfl

theorem keysOf_touch (store : Store σ) (record : NameRecord σ) (watch : WatchId) :
    (store.touch record).keysOf watch = store.keysOf watch := by
  unfold touch
  split <;> rfl

/-! ## Subscriptions of one listener -/

/-- The subscriptions a listener has made, by their identifiers and keys. -/
def made (callback : Listener σ) (keys : List (Identifier × SubscriptionKey)) :
    List (LiveSubscription σ) :=
  keys.map fun entry => { key := entry.2, callback, id := entry.1 }

theorem subscribeEach_represents {store : Store σ} {live : List (LiveSubscription σ)}
    (represents : store.bus.Represents live) (callback : Listener σ) (ids : List Identifier) :
    (store.subscribeEach callback ids).2.bus.Represents
        (live ++ made callback (store.subscribeEach callback ids).1) ∧
      (store.subscribeEach callback ids).1.map Prod.fst = ids ∧
      (∀ entry ∈ (store.subscribeEach callback ids).1,
        store.bus.nextKey ≤ entry.2.number) ∧
      store.bus.nextKey ≤ (store.subscribeEach callback ids).2.bus.nextKey := by
  induction ids generalizing store live with
  | nil =>
      exact ⟨by simpa [made, subscribeEach] using represents, rfl, by simp [subscribeEach],
      Nat.le_refl _⟩
  | cons id rest induction =>
      have added : ({ store with bus := (store.bus.add id callback).2 } : Store σ).bus.Represents
          _ := represents.add id callback
      rcases induction added with ⟨further, ids, fresh, counted⟩
      have later : store.bus.nextKey < (store.bus.add id callback).2.nextKey :=
        Nat.lt_succ_self _
      refine ⟨?_, congrArg (id :: ·) ids, ?_, Nat.le_trans (Nat.le_of_lt later) counted⟩
      · rw [List.append_assoc] at further
        exact further
      · intro entry member
        rcases List.mem_cons.mp member with rfl | inRest
        · exact Nat.le_refl _
        · exact Nat.le_trans (Nat.le_of_lt later) (fresh entry inRest)

theorem unsubscribeEach_represents {store : Store σ} {live : List (LiveSubscription σ)}
    (represents : store.bus.Represents live) (keys : List (Identifier × SubscriptionKey)) :
    (store.unsubscribeEach keys).bus.Represents
      (live.filter fun item => (item.id, item.key) ∉ keys) ∧
    (store.unsubscribeEach keys).bus.nextKey = store.bus.nextKey := by
  induction keys generalizing store live with
  | nil => simpa [unsubscribeEach] using represents
  | cons entry rest induction =>
      rcases entry with ⟨id, key⟩
      have removed : ({ store with bus := (store.bus.remove id key).2 } : Store σ).bus.Represents
          _ := represents.remove id key
      rcases induction removed with ⟨further, counted⟩
      rw [List.filter_filter] at further
      refine ⟨?_, counted⟩
      have same : (live.filter fun item => (item.id, item.key) ∉ (id, key) :: rest) =
          live.filter fun item =>
            decide ((item.id, item.key) ∉ rest) && decide ¬(item.key = key ∧ item.id = id) := by
        refine List.filter_congr fun item _ => ?_
        simp [and_comm]
      rw [same]
      exact further

/-! ## Ending a watch -/

theorem unwatch_of_off {store : Store σ} {station : StationId} {condition : RuleId}
    (off : store.keysOf ⟨station, condition⟩ = none) :
    (store.unwatch station condition).2 = store := by
  rw [keysOf] at off
  simp only [unwatch, off]

theorem unwatch_of_on {store : Store σ} {station : StationId} {condition : RuleId}
    {keys : List (Identifier × SubscriptionKey)}
    (on : store.keysOf ⟨station, condition⟩ = some keys) {live : List (LiveSubscription σ)}
    (represents : store.bus.Represents live) :
    (store.unwatch station condition).2.bus.Represents
        (live.filter fun item => (item.id, item.key) ∉ keys) ∧
      (store.unwatch station condition).2.bus.nextKey = store.bus.nextKey := by
  have forgotten : (store.updateLog station fun log =>
      { log with watches := log.watches.filter (·.1 ≠ condition) }).bus.Represents live :=
    represents
  have ended := unsubscribeEach_represents forgotten keys
  rw [keysOf] at on
  simp only [unwatch, on]
  exact ended

end Store

/-! ## Histories of watches -/

/-- What is known of the watches of a store from its history: the watch each
subscription was made for, the condition of each watch that is on, and whether a
subscription of the watch was ended by other means. -/
structure Watches where
  owner : SubscriptionKey → Option WatchId
  condition : WatchId → Option ConditionRule
  disturbed : WatchId → Prop

/-- Whether a subscription with the key is live. -/
def Bus.Holds (bus : Bus σ) (key : SubscriptionKey) : Prop :=
  ∃ id, ∃ subscription ∈ bus.subscriptions id, subscription.key = key

theorem Bus.Represents.holds_iff {bus : Bus σ} {live : List (LiveSubscription σ)}
    (represents : bus.Represents live) {key : SubscriptionKey} :
    bus.Holds key ↔ ∃ item ∈ live, item.key = key := by
  simp only [Bus.Holds, represents.subscriptions, liveOf, List.mem_map, List.mem_filter,
    decide_eq_true_eq]
  constructor
  · rintro ⟨id, subscription, ⟨item, ⟨isLive, _⟩, rfl⟩, same⟩
    exact ⟨item, isLive, same⟩
  · rintro ⟨item, isLive, same⟩
    exact ⟨item.id, item.toSubscription, ⟨item, ⟨isLive, rfl⟩, rfl⟩, same⟩

namespace Watches

def none : Watches := ⟨fun _ => .none, fun _ => .none, fun _ => False⟩

/-- What is known after an edit. Keys that it hands out belong to the watch it begins,
if it begins one. -/
def next (watches : Watches) (before after : Store σ) : Store.Purpose → Watches
  | .watch station condition =>
      let watch : WatchId := ⟨station, condition.id⟩
      { owner := fun key =>
          if before.bus.nextKey ≤ key.number then some watch else watches.owner key
        condition := fun other =>
          if other = watch then some condition else watches.condition other
        disturbed := fun other => other ≠ watch ∧ watches.disturbed other }
  | .unwatch station condition =>
      let watch : WatchId := ⟨station, condition⟩
      { owner := watches.owner
        condition := fun other => if other = watch then .none else watches.condition other
        disturbed := fun other => other ≠ watch ∧ watches.disturbed other }
  | .other =>
      { owner := fun key =>
          if before.bus.nextKey ≤ key.number then .none else watches.owner key
        condition := watches.condition
        disturbed := fun watch => watches.disturbed watch ∨
          ∃ key, watches.owner key = some watch ∧ before.bus.Holds key ∧ ¬after.bus.Holds key }

end Watches

namespace Store

/-- A store that some chain of edits leaves behind, with what is known of its watches. -/
inductive WatchHistory (registry : Registry σ) : Store σ → Watches → Prop
  | new (owner : Option Owner) : WatchHistory registry (.new registry owner) .none
  | edit {before after : Store σ} {watches : Watches} {purpose : Purpose} :
      WatchHistory registry before watches → Edit registry purpose before after →
      WatchHistory registry after (watches.next before after purpose)

theorem Reached.watchHistory {engine : Engine σ} {store : Store σ}
    (reached : store.Reached engine) :
    ∃ watches, WatchHistory engine.registry store watches := by
  rcases reached with ⟨owner, leads⟩
  have edited := leads.edited
  clear leads
  induction edited with
  | refl => exact ⟨.none, .new owner⟩
  | tail _ edit induction =>
      rcases induction with ⟨watches, history⟩
      rcases edit with ⟨purpose, edit⟩
      exact ⟨_, .edit history edit⟩

/-- Logs and subscriptions fit each other and the history. The keys of a watch that is
on are kept under the identifiers of its condition; live subscriptions made for a watch
are among them; and the watch is disturbed if one of them is no longer live. -/
structure Reflects (store : Store σ) (watches : Watches) (live : List (LiveSubscription σ)) :
    Prop where
  represents : store.bus.Represents live
  watched : ∀ watch, (store.keysOf watch).map (·.map Prod.fst) =
    (watches.condition watch).map (·.identifiers)
  distinct : ∀ watch keys, store.keysOf watch = some keys → (keys.map Prod.snd).Nodup
  kept : ∀ watch keys, store.keysOf watch = some keys → ∀ entry ∈ keys,
    watches.owner entry.2 = some watch ∧ entry.2.number < store.bus.nextKey
  owned : ∀ item ∈ live, ∀ watch, watches.owner item.key = some watch →
    (∃ keys, store.keysOf watch = some keys ∧ (item.id, item.key) ∈ keys) ∧
    ∃ condition callback, watches.condition watch = some condition ∧
      item.callback = watcher condition.root callback
  disturbed : ∀ watch keys, store.keysOf watch = some keys →
    (watches.disturbed watch ↔ ∃ entry ∈ keys, ∀ item ∈ live, item.key ≠ entry.2)

namespace Reflects

variable {before after : Store σ} {watches : Watches} {live left : List (LiveSubscription σ)}

theorem new (registry : Registry σ) (owner : Option Owner) :
    (Store.new registry owner).Reflects .none [] where
  represents := .new
  watched _ := rfl
  distinct watch keys found := by cases found
  kept watch keys found := by cases found
  owned item member := by cases member
  disturbed watch keys found := by cases found

/-- Whatever is done to the bus, keys are not handed out again. -/
theorem other (reflects : before.Reflects watches live)
    (sameKeys : ∀ watch, after.keysOf watch = before.keysOf watch)
    (represents : after.bus.Represents left)
    (origin : ∀ item ∈ left, item ∈ live ∨ before.bus.nextKey ≤ item.key.number)
    (counted : before.bus.nextKey ≤ after.bus.nextKey) :
    after.Reflects (watches.next before after .other) left where
  represents := represents
  watched watch := by rw [sameKeys]; exact reflects.watched watch
  distinct watch keys found := reflects.distinct watch keys (sameKeys watch ▸ found)
  kept watch keys found entry member := by
    rw [sameKeys] at found
    have old := reflects.kept watch keys found entry member
    exact ⟨(if_neg (Nat.not_le.mpr old.2)).trans old.1, Nat.lt_of_lt_of_le old.2 counted⟩
  owned item member watch owner := by
    simp only [Watches.next, Option.ite_none_left_eq_some] at owner
    rcases origin item member with old | fresh
    · rw [sameKeys]
      exact reflects.owned item old watch owner.2
    · exact absurd fresh owner.1
  disturbed watch keys found := by
    rw [sameKeys] at found
    have kept := reflects.kept watch keys found
    simp only [Watches.next, reflects.represents.holds_iff, represents.holds_iff]
    constructor
    · rintro (already | ⟨key, owner, ⟨item, isLive, rfl⟩, ended⟩)
      · rcases (reflects.disturbed watch keys found).mp already with ⟨entry, member, ended⟩
        refine ⟨entry, member, fun item isLeft same => ?_⟩
        rcases origin item isLeft with old | fresh
        · exact ended item old same
        · exact Nat.not_le.mpr (kept entry member).2 (same ▸ fresh)
      · rcases (reflects.owned item isLive watch owner).1 with ⟨others, alsoFound, member⟩
        cases found.symm.trans alsoFound
        exact ⟨(item.id, item.key), member, fun other isLeft same => ended ⟨other, isLeft, same⟩⟩
    · rintro ⟨entry, member, ended⟩
      by_cases held : ∃ item ∈ live, item.key = entry.2
      · refine .inr ⟨entry.2, (kept entry member).1, held, ?_⟩
        rintro ⟨item, isLeft, same⟩
        exact ended item isLeft same
      · refine .inl ((reflects.disturbed watch keys found).mpr ⟨entry, member, ?_⟩)
        exact fun item isLive same => held ⟨item, isLive, same⟩

theorem watch (reflects : before.Reflects watches live) {station : StationId}
    {condition : ConditionRule} (callback : Script σ .writing)
    (new : before.isWatching station condition.id = false) :
    ∃ left, (before.watch station condition.id condition.identifiers
        (watcher condition.root callback)).Reflects
      (watches.next before (before.watch station condition.id condition.identifiers
        (watcher condition.root callback)) (.watch station condition)) left := by
  have off : before.keysOf ⟨station, condition.id⟩ = none := by
    simpa [isWatching_eq] using new
  rcases subscribeEach_represents reflects.represents (watcher condition.root callback)
    condition.identifiers with ⟨represents, ids, fresh, counted⟩
  have keysOf := keysOf_watch before station condition.id condition.identifiers
    (watcher condition.root callback)
  generalize (before.subscribeEach (watcher condition.root callback) condition.identifiers).1 =
    keys at represents ids fresh keysOf
  have old (other : WatchId) {others : List (Identifier × SubscriptionKey)}
      (found : before.keysOf other = some others) : other ≠ ⟨station, condition.id⟩ := by
    rintro rfl
    cases off.symm.trans found
  refine ⟨live ++ made (watcher condition.root callback) keys, represents, ?_, ?_, ?_, ?_, ?_⟩
  · intro other
    rw [keysOf]
    dsimp only [Watches.next]
    split
    · rw [Option.map_some, Option.map_some, ids]
    · exact reflects.watched other
  · intro other others found
    rw [keysOf] at found
    split at found
    · cases found
      have distinct := represents.keys
      rw [List.map_append, List.nodup_append] at distinct
      simpa [made, Function.comp_def] using distinct.2.1
    · exact reflects.distinct other others found
  · intro other others found entry member
    rw [keysOf] at found
    dsimp only [Watches.next]
    split at found
    · rename_i isNew
      cases found
      refine ⟨by rw [if_pos (fresh entry member), isNew], ?_⟩
      exact represents.counted { key := entry.2, callback := _, id := entry.1 }
        (List.mem_append_right _ (List.mem_map_of_mem member))
    · have kept := reflects.kept other others found entry member
      rw [if_neg (Nat.not_le.mpr kept.2)]
      exact ⟨kept.1, Nat.lt_of_lt_of_le kept.2 counted⟩
  · intro item member other owner
    rw [keysOf]
    dsimp only [Watches.next] at owner ⊢
    rcases List.mem_append.mp member with isLive | isMade
    · rw [if_neg (Nat.not_le.mpr (reflects.represents.counted item isLive))] at owner
      have owned := reflects.owned item isLive other owner
      rcases owned.1 with ⟨others, found, _⟩
      rw [if_neg (old other found), if_neg (old other found)]
      exact owned
    · rcases List.mem_map.mp isMade with ⟨entry, isKey, rfl⟩
      rw [if_pos (fresh entry isKey)] at owner
      cases owner
      rw [if_pos rfl, if_pos rfl]
      exact ⟨⟨keys, rfl, isKey⟩, condition, callback, rfl, rfl⟩
  · intro other others found
    rw [keysOf] at found
    dsimp only [Watches.next]
    split at found
    · rename_i isNew
      cases found
      refine iff_of_false (fun disturbed => disturbed.1 isNew) ?_
      rintro ⟨entry, member, ended⟩
      exact ended _ (List.mem_append_right _ (List.mem_map_of_mem member)) rfl
    · rename_i different
      rw [and_iff_right different, reflects.disturbed other others found]
      refine exists_congr fun entry => and_congr_right fun member => ?_
      rw [List.forall_mem_append]
      refine (and_iff_left fun item isMade same => ?_).symm
      rcases List.mem_map.mp isMade with ⟨newEntry, isKey, rfl⟩
      have kept := (reflects.kept other others found entry member).2
      exact Nat.not_le.mpr kept (same ▸ fresh newEntry isKey)

/-- Ending a watch ends the subscriptions that were made for it and no other one. -/
theorem unwatch_of (reflects : before.Reflects watches live) {station : StationId}
    {condition : RuleId}
    (keysOf : ∀ other, after.keysOf other =
      if other = ⟨station, condition⟩ then none else before.keysOf other)
    (represents : after.bus.Represents left)
    (stays : ∀ item, item ∈ left ↔
      item ∈ live ∧ watches.owner item.key ≠ some ⟨station, condition⟩)
    (counted : after.bus.nextKey = before.bus.nextKey) :
    after.Reflects (watches.next before after (.unwatch station condition)) left where
  represents := represents
  watched other := by
    rw [keysOf]
    dsimp only [Watches.next]
    split
    · rfl
    · exact reflects.watched other
  distinct other keys found := by
    rw [keysOf, Option.ite_none_left_eq_some] at found
    exact reflects.distinct other keys found.2
  kept other keys found := by
    rw [keysOf, Option.ite_none_left_eq_some] at found
    rw [counted]
    exact reflects.kept other keys found.2
  owned item member other owner := by
    have isLive := (stays item).mp member
    have different : other ≠ ⟨station, condition⟩ := by
      rintro rfl
      exact isLive.2 owner
    rw [keysOf, if_neg different]
    dsimp only [Watches.next]
    rw [if_neg different]
    exact reflects.owned item isLive.1 other owner
  disturbed other keys found := by
    rw [keysOf, Option.ite_none_left_eq_some] at found
    dsimp only [Watches.next]
    rw [and_iff_right found.1, reflects.disturbed other keys found.2]
    refine exists_congr fun entry => and_congr_right fun member => ?_
    have owner := (reflects.kept other keys found.2 entry member).1
    constructor
    · exact fun ended item isLeft => ended item ((stays item).mp isLeft).1
    · intro ended item isLive same
      refine ended item ((stays item).mpr ⟨isLive, fun itsOwner => ?_⟩) same
      rw [same, owner] at itsOwner
      exact found.1 (Option.some.inj itsOwner)

theorem unwatch (reflects : before.Reflects watches live) (station : StationId)
    (condition : RuleId) :
    ∃ left, (before.unwatch station condition).2.Reflects
      (watches.next before (before.unwatch station condition).2 (.unwatch station condition))
      left := by
  have keysOf := keysOf_unwatch before station condition
  have owned {item : LiveSubscription σ} (isLive : item ∈ live)
      (owner : watches.owner item.key = some ⟨station, condition⟩) :=
    (reflects.owned item isLive _ owner).1
  cases found : before.keysOf ⟨station, condition⟩ with
  | none =>
      have same := unwatch_of_off found
      refine ⟨live, reflects.unwatch_of keysOf (by rw [same]; exact reflects.represents)
        (fun item => ?_) (by rw [same])⟩
      refine (and_iff_left_of_imp fun isLive owner => ?_).symm
      rcases owned isLive owner with ⟨keys, alsoFound, _⟩
      cases found.symm.trans alsoFound
  | some keys =>
      have ended := unwatch_of_on found reflects.represents
      refine ⟨_, reflects.unwatch_of keysOf ended.1 (fun item => ?_) ended.2⟩
      rw [List.mem_filter, decide_eq_true_eq]
      refine and_congr_right fun isLive => not_congr ⟨fun member => ?_, fun owner => ?_⟩
      · exact (reflects.kept _ keys found _ member).1
      · rcases owned isLive owner with ⟨others, alsoFound, member⟩
        cases found.symm.trans alsoFound
        exact member

/-- Edits that leave the bus and the watches alone. -/
theorem unchanged (reflects : before.Reflects watches live)
    (sameKeys : ∀ watch, after.keysOf watch = before.keysOf watch)
    (bus : after.bus = before.bus) :
    ∃ left, after.Reflects (watches.next before after .other) left :=
  ⟨live, reflects.other sameKeys (by rw [bus]; exact reflects.represents)
    (fun _ member => .inl member) (Nat.le_of_eq (by rw [bus]))⟩

theorem edit {registry : Registry σ} {purpose : Purpose}
    (reflects : before.Reflects watches live) (edit : Edit registry purpose before after) :
    ∃ left, after.Reflects (watches.next before after purpose) left := by
  have represents := reflects.represents
  have bus (changed : Bus σ) : ∀ watch,
      ({ before with bus := changed } : Store σ).keysOf watch = before.keysOf watch :=
    fun _ => rfl
  have fewer {rest : List (LiveSubscription σ)} (sublist : rest.Sublist live) :
      ∀ item ∈ rest, item ∈ live ∨ before.bus.nextKey ≤ item.key.number :=
    fun _ member => .inl (sublist.subset member)
  cases edit with
  | watch _ station condition callback new => exact reflects.watch callback new
  | unwatch _ station condition => exact reflects.unwatch station condition
  | subscribe _ id callback =>
      refine ⟨_, reflects.other (bus _) (represents.add id callback) (fun item member => ?_)
        (Nat.le_succ _)⟩
      rcases List.mem_append.mp member with old | new
      · exact .inl old
      · rw [List.mem_singleton.mp new]
        exact .inr (Nat.le_refl _)
  | unsubscribe _ id key =>
      exact ⟨_, reflects.other (bus _) (represents.remove id key) (fewer List.filter_sublist)
        (Nat.le_refl _)⟩
  | unsubscribeAll _ id =>
      exact ⟨_, reflects.other (bus _) (represents.removeAll id) (fewer List.filter_sublist)
        (Nat.le_refl _)⟩
  | clear _ =>
      exact ⟨_, reflects.other (bus _) represents.clear (fewer (List.nil_sublist _))
        (Nat.le_refl _)⟩
  | produce _ station rule targets =>
      exact reflects.unchanged (keysOf_produce before station rule targets) rfl
  | touch _ record known typed special =>
      exact reflects.unchanged (keysOf_touch before record) (bus_touch before record)
  | assign _ record update operand known typed plain =>
      exact reflects.unchanged (keysOf_touch before record) (bus_touch before record)
  | place _ record update operand known ordered =>
      rw [updateDense_snd]
      exact reflects.unchanged (fun _ => rfl) rfl
  | retain _ record value known lasting hooked => exact reflects.unchanged (fun _ => rfl) rfl
  | reset _ id => exact reflects.unchanged (fun _ => rfl) rfl
  | resetAll _ => exact reflects.unchanged (fun _ => rfl) rfl

end Reflects

theorem WatchHistory.reflects {registry : Registry σ} {store : Store σ} {watches : Watches}
    (history : WatchHistory registry store watches) : ∃ live, store.Reflects watches live := by
  induction history with
  | new owner => exact ⟨[], .new registry owner⟩
  | edit _ edit induction =>
      rcases induction with ⟨live, reflects⟩
      exact reflects.edit edit

/-! ## Attention -/

/-- The live subscriptions of an identifier that were made for a watch. -/
def subscriptionsFor (store : Store σ) (watches : Watches) (watch : WatchId) (id : Identifier) :
    List (Subscription σ) :=
  (store.bus.subscriptions id).filter fun subscription =>
    watches.owner subscription.key = some watch

/-- Each identifier of the condition has exactly one live subscription that was made for
the watch, and no other identifier has one. -/
structure Attends (store : Store σ) (watches : Watches) (watch : WatchId)
    (condition : ConditionRule) : Prop where
  inside : ∀ id ∈ condition.identifiers, ∃ key callback,
    store.subscriptionsFor watches watch id = [⟨key, watcher condition.root callback⟩]
  outside : ∀ id ∉ condition.identifiers, store.subscriptionsFor watches watch id = []

namespace Reflects

variable {store : Store σ} {watches : Watches} {live : List (LiveSubscription σ)}

theorem mem_subscriptionsFor (reflects : store.Reflects watches live) {watch : WatchId}
    {id : Identifier} {subscription : Subscription σ} :
    subscription ∈ store.subscriptionsFor watches watch id ↔
      ∃ item ∈ live, item.id = id ∧ watches.owner item.key = some watch ∧
        item.toSubscription = subscription := by
  simp only [subscriptionsFor, reflects.represents.subscriptions, Bus.liveOf, List.mem_filter,
    List.mem_map, decide_eq_true_eq]
  constructor
  · rintro ⟨⟨item, ⟨isLive, ofId⟩, rfl⟩, owner⟩
    exact ⟨item, isLive, ofId, owner, rfl⟩
  · rintro ⟨item, isLive, ofId, owner, rfl⟩
    exact ⟨⟨item, ⟨isLive, ofId⟩, rfl⟩, owner⟩

theorem nodup_subscriptionsFor (reflects : store.Reflects watches live) (watch : WatchId)
    (id : Identifier) : (store.subscriptionsFor watches watch id).Nodup := by
  rw [subscriptionsFor, reflects.represents.subscriptions]
  refine List.Nodup.filter _ (List.Nodup.of_map (·.key) ?_)
  rw [List.map_map]
  exact reflects.represents.keys.sublist (List.filter_sublist.map _)

/-- There is no live subscription for a watch that is not on. -/
theorem subscriptionsFor_of_off (reflects : store.Reflects watches live) {watch : WatchId}
    (off : store.keysOf watch = none) (id : Identifier) :
    store.subscriptionsFor watches watch id = [] := by
  refine List.eq_nil_iff_forall_not_mem.mpr fun subscription member => ?_
  rcases reflects.mem_subscriptionsFor.mp member with ⟨item, isLive, _, owner, _⟩
  rcases (reflects.owned item isLive watch owner).1 with ⟨keys, found, _⟩
  cases off.symm.trans found

theorem attends_iff (reflects : store.Reflects watches live) {watch : WatchId}
    {condition : ConditionRule} (on : watches.condition watch = some condition) :
    store.Attends watches watch condition ↔ ¬watches.disturbed watch := by
  have ids := reflects.watched watch
  rw [on, Option.map_some, Option.map_eq_some_iff] at ids
  rcases ids with ⟨keys, found, ids⟩
  have distinct : (keys.map Prod.fst).Nodup := ids ▸ nodup_firstOccurrences _
  have key_eq {item : LiveSubscription σ} (isLive : item ∈ live)
      (owner : watches.owner item.key = some watch) : (item.id, item.key) ∈ keys := by
    rcases (reflects.owned item isLive watch owner).1 with ⟨others, alsoFound, member⟩
    cases found.symm.trans alsoFound
    exact member
  rw [reflects.disturbed watch keys found]
  constructor
  · rintro attends ⟨entry, member, ended⟩
    have inside : entry.1 ∈ condition.identifiers := ids ▸ List.mem_map_of_mem member
    rcases attends.inside entry.1 inside with ⟨key, callback, only⟩
    rcases reflects.mem_subscriptionsFor.mp (only ▸ List.mem_singleton_self _) with
      ⟨item, isLive, ofId, owner, _⟩
    have same := List.inj_on_of_nodup_map distinct (key_eq isLive owner) member ofId
    exact ended item isLive (congrArg Prod.snd same)
  · intro undisturbed
    refine ⟨fun id inside => ?_, fun id outside => ?_⟩
    · rw [← ids] at inside
      rcases List.mem_map.mp inside with ⟨entry, member, rfl⟩
      have held : ∃ item ∈ live, item.key = entry.2 := by
        by_contra ended
        exact undisturbed ⟨entry, member, fun item isLive same => ended ⟨item, isLive, same⟩⟩
      rcases held with ⟨item, isLive, ofKey⟩
      have owner : watches.owner item.key = some watch :=
        ofKey ▸ (reflects.kept watch keys found entry member).1
      have isEntry := List.inj_on_of_nodup_map (reflects.distinct watch keys found)
        (key_eq isLive owner) member ofKey
      rcases (reflects.owned item isLive watch owner).2 with ⟨other, callback, alsoOn, its⟩
      cases on.symm.trans alsoOn
      refine ⟨item.key, callback, List.perm_singleton.mp ?_⟩
      refine (List.perm_ext_iff_of_nodup (reflects.nodup_subscriptionsFor watch entry.1)
        (List.nodup_singleton _)).mpr fun subscription => ?_
      rw [reflects.mem_subscriptionsFor, List.mem_singleton]
      constructor
      · rintro ⟨second, secondLive, ofId, secondOwner, rfl⟩
        have sameEntry := List.inj_on_of_nodup_map distinct (key_eq secondLive secondOwner)
          member ofId
        have same := List.inj_on_of_nodup_map reflects.represents.keys secondLive isLive
          ((congrArg Prod.snd sameEntry).trans ofKey.symm)
        rw [same, ← its]
      · rintro rfl
        exact ⟨item, isLive, congrArg Prod.fst isEntry, owner, by rw [← its]⟩
    · refine List.eq_nil_iff_forall_not_mem.mpr fun subscription member => ?_
      rcases reflects.mem_subscriptionsFor.mp member with ⟨item, isLive, rfl, owner, _⟩
      exact outside (ids ▸ List.mem_map_of_mem (f := Prod.fst) (key_eq isLive owner))

theorem attends_of_isWatching (reflects : store.Reflects watches live) {station : StationId}
    {condition : ConditionRule} (on : store.isWatching station condition.id = true)
    (number : ∀ earlier, watches.condition (condition.watchAt station) = some earlier →
      earlier = condition) :
    store.Attends watches (condition.watchAt station) condition ↔
      ¬watches.disturbed (condition.watchAt station) := by
  have watched := congrArg Option.isSome (reflects.watched (condition.watchAt station))
  rw [Option.isSome_map, ← isWatching_eq, on, Option.isSome_map] at watched
  rcases Option.isSome_iff_exists.mp watched.symm with ⟨earlier, found⟩
  exact reflects.attends_iff (found.trans (congrArg some (number earlier found)))

end Reflects

end Store

/-- Listeners of watched conditions that are told of a change check their conditions,
and carry on with their callbacks where these hold. -/
theorem Engine.deliver_checks {engine : Engine σ} {responder : Responder σ} {change : Change}
    {listeners : List (Listener σ)} {condition : Condition Reference}
    {callback : Script σ .writing} (member : watcher condition callback ∈ listeners)
    {world after : World σ}
    (delivered : engine.deliver responder change listeners world = some ((), after)) :
    ∃ between holds next, responder.check engine condition between = some (holds, next) ∧
      (holds = true → ∃ outcome last,
        callback.play engine responder next = some (outcome, last)) := by
  induction listeners generalizing world with
  | nil => cases member
  | cons listener rest induction =>
      rcases Run.bind_eq_some delivered with ⟨outcome, told, played, remaining⟩
      rcases List.mem_cons.mp member with rfl | inRest
      · rcases Run.bind_eq_some played with ⟨holds, next, checked, carriedOn⟩
        refine ⟨world, holds, next, checked, ?_⟩
        rintro rfl
        exact ⟨outcome, told, carriedOn⟩
      · cases outcome with
        | ok value => exact induction inRest remaining
        | error message =>
            rcases Run.bind_eq_some remaining with ⟨_, reported, _, remaining⟩
            exact induction inRest remaining

namespace Run

variable {world : World σ} {station : StationId} {condition : ConditionRule}

theorem watch_again (callback : Script σ .writing)
    (on : world.store.isWatching station condition.id = true) :
    Run.watch station condition callback world = some ((), world) := by
  change (if world.store.isWatching station condition.id then pure () else _ : Run σ Unit) world = _
  rw [if_pos on]
  rfl

theorem watch_new (callback : Script σ .writing)
    (off : world.store.isWatching station condition.id = false) :
    ∃ after, Run.watch station condition callback world = some ((), after) ∧
      after.store = world.store.watch station condition.id condition.identifiers
        (watcher condition.root callback) ∧ after.bus = world.bus := by
  change ∃ after, (if world.store.isWatching station condition.id then pure () else do
    if condition.identifiers.isEmpty then Run.report (.watchWithoutNames condition.root.form)
    Run.changeStore fun store => ((), store.watch station condition.id condition.identifiers
      (watcher condition.root callback)) : Run σ Unit) world = some ((), after) ∧ _
  rw [if_neg (by simp [off])]
  split
  · exact ⟨_, rfl, rfl, rfl⟩
  · exact ⟨_, rfl, rfl, rfl⟩

end Run

/-! ## Watching -/

namespace Store

/-- Watching a condition. A watch that is on is attended to exactly if none of its
subscriptions was ended by other means, and a watch that is not on has none. Watching
succeeds, and then the condition is attended to unless the watch was on and disturbed
before, for then nothing is done. While it is attended to, the listeners of a change of
one of its identifiers check the condition. -/
theorem WatchHistory.watch_attends {engine : Engine σ} {store : Store σ} {watches : Watches}
    (history : WatchHistory engine.registry store watches) (station : StationId)
    (condition : ConditionRule) (callback : Script σ .writing)
    (number : ∀ earlier, watches.condition (condition.watchAt station) = some earlier →
      earlier = condition) :
    (store.isWatching station condition.id = true →
      (store.Attends watches (condition.watchAt station) condition ↔
        ¬watches.disturbed (condition.watchAt station))) ∧
    (store.isWatching station condition.id = false →
      ∀ id, store.subscriptionsFor watches (condition.watchAt station) id = []) ∧
    (∀ world, world.store = store →
      ∃ after later, Run.watch station condition callback world = some ((), after) ∧
        WatchHistory engine.registry after.store later ∧
        after.store.isWatching station condition.id = true ∧
        (after.store.Attends later (condition.watchAt station) condition ↔
          ¬(store.isWatching station condition.id = true ∧
            watches.disturbed (condition.watchAt station)))) ∧
    (store.Attends watches (condition.watchAt station) condition →
      ∀ id ∈ condition.identifiers, ∀ responder change world after, world.store = store →
        engine.deliver responder change (store.bus.listeners id) world = some ((), after) →
        ∃ between holds next,
          responder.check engine condition.root between = some (holds, next)) := by
  rcases history.reflects with ⟨live, reflects⟩
  have attention (on : store.isWatching station condition.id = true) :=
    reflects.attends_of_isWatching on number
  refine ⟨attention, fun off id => ?_, ?_, ?_⟩
  · exact reflects.subscriptionsFor_of_off (by simpa [isWatching_eq] using off) id
  · rintro world rfl
    cases watching : world.store.isWatching station condition.id with
    | true =>
        refine ⟨world, watches, Run.watch_again callback watching, history, watching, ?_⟩
        rw [and_iff_right rfl]
        exact attention watching
    | false =>
        rcases Run.watch_new callback watching with ⟨after, run, same, -⟩
        have edit : Edit engine.registry (.watch station condition) world.store _ :=
          .watch world.store station condition callback watching
        have further := history.edit edit
        rw [← same] at further
        rcases further.reflects with ⟨newLive, newReflects⟩
        have on : after.store.isWatching station condition.id = true := by
          rw [same, isWatching_eq, keysOf_watch, if_pos rfl, Option.isSome_some]
        refine ⟨after, _, run, further, on, ?_⟩
        rw [newReflects.attends_of_isWatching on]
        · simp [Watches.next]
        · intro earlier found
          simpa [Watches.next] using found.symm
  · rintro attends id inside responder change world after rfl delivered
    rcases attends.inside id inside with ⟨key, callback, only⟩
    have subscribed := only ▸ List.mem_singleton_self (Subscription.mk key _)
    have member := List.mem_map_of_mem (f := (·.callback)) (List.mem_filter.mp subscribed).1
    rcases Engine.deliver_checks member delivered with ⟨between, holds, next, checked, _⟩
    exact ⟨between, holds, next, checked⟩

/-! ### Subscriptions that are taken away -/

namespace Unattended

/-- An engine that knows one name and no functions. -/
def engine : Engine Nat where
  registry := ((RegistryRequest.addName "stat" "x" 0 .temporary {}).carryOut.run {}).2
  functions := ⟨[]⟩
  settings := {}

def name : Identifier := ⟨0x1000001, Nat.one_ne_zero⟩

/-- The condition `x > x`. -/
def condition : ConditionRule :=
  ⟨⟨0⟩, .compare (.name ⟨name, "x"⟩) .greater (.name ⟨name, "x"⟩)⟩

def station : StationId := ⟨0⟩

def start : World Nat := engine.start 0 ⟨fun _ => 0, 0⟩

/-- The condition is watched, all subscriptions at the store are ended, and it is
watched again. -/
def script : Script Nat .writing :=
  .watch station condition .done (.clear .store (.watch station condition .done .done))

end Unattended

open Unattended in
theorem WatchHistory.watch_attends_new :
    WatchHistory engine.registry start.store .none ∧
    (∀ earlier, Watches.none.condition (condition.watchAt station) = some earlier →
      earlier = condition) ∧
    ∃ after later, Run.watch station condition .done start = some ((), after) ∧
      WatchHistory engine.registry after.store later ∧
      after.store.Attends later (condition.watchAt station) condition := by
  have history : WatchHistory engine.registry start.store .none := .new none
  have number : ∀ earlier,
      Watches.none.condition (condition.watchAt station) = some earlier →
        earlier = condition := by
    intro earlier found
    cases found
  rcases (history.watch_attends station condition .done number).2.2.1 start rfl with
    ⟨after, later, run, further, _, attends⟩
  exact ⟨history, number, after, later, run, further, attends.mpr fun both => both.2⟩

open Unattended in
/-- A condition counts as watched, and watching it again does nothing, although no
subscription is left. -/
theorem watched_without_subscriptions :
    ∃ outcome after, script.play engine (engine.respond 1) start = some (outcome, after) ∧
      after.store.isWatching station condition.id = true ∧
      condition.identifiers = [name] ∧ after.store.bus.count name = 0 :=
  ⟨_, _, rfl, rfl, rfl, rfl⟩

end Store

end NumericRules
