import NumericRules.Proofs.Quiet
import Mathlib.Data.List.Pairwise

/-! # Installed watches

A history of watches leaves behind the list of those that are on, in the order they were
installed. While the code of the host program is quiet, the listeners of an identifier
are the watches in that list whose conditions refer to it.
-/

namespace NumericRules

open World (Keeps steady_keeps)

/-- A condition watched at a workstation, and what is called while it holds. -/
structure InstalledWatch (σ : Type) where
  station : StationId
  condition : ConditionRule
  callback : Script σ .writing

namespace InstalledWatch

variable (watch : InstalledWatch σ)

def id : WatchId := watch.condition.watchAt watch.station

/-- Whether the condition refers to an identifier, however often. -/
def refersTo (id : Identifier) : Bool := watch.condition.root.references.any (·.id = id)

def listener : Listener σ := watcher watch.condition.root watch.callback

theorem refersTo_iff (id : Identifier) :
    watch.refersTo id = true ↔ id ∈ watch.condition.identifiers := by
  simp [refersTo, ConditionRule.identifiers, mem_firstOccurrences]

theorem listener_quiet {watch : InstalledWatch σ} (passive : watch.callback.Quiet .reading)
    (change : Change) : (watch.listener change).Quiet .reading :=
  watcher_quiet passive change

end InstalledWatch

namespace Store

/-- The watches that are on after a history of watches on one store. Their callbacks only
read and leave subscriptions alone. Whatever else is done to the store leaves its
subscriptions and its watches alone. -/
inductive Watched : Store σ → List (InstalledWatch σ) → Prop
  | new (registry : Registry σ) (owner : Option Owner) : Watched (.new registry owner) []
  | watch {installed : List (InstalledWatch σ)} {world after : World σ} (station : StationId)
      (condition : ConditionRule) (callback : Script σ .writing)
      (passive : callback.Quiet .reading) : Watched world.store installed →
      Run.watch station condition callback world = some ((), after) →
      Watched after.store
        (if installed.any (·.id = condition.watchAt station) then installed
          else installed ++ [⟨station, condition, callback⟩])
  | unwatch {store : Store σ} {installed : List (InstalledWatch σ)} (station : StationId)
      (condition : RuleId) : Watched store installed →
      Watched (store.unwatch station condition).2 (installed.filter (·.id ≠ ⟨station, condition⟩))
  | other {before after : Store σ} {installed : List (InstalledWatch σ)} :
      Watched before installed → after.bus = before.bus → after.keysOf = before.keysOf →
      Watched after installed

/-! ## Logs and subscriptions of the installed watches -/

/-- The subscriptions of a list of watches with their keys. -/
def subscribed (entries : List (InstalledWatch σ × List (Identifier × SubscriptionKey))) :
    List (LiveSubscription σ) :=
  entries.flatMap fun entry => made entry.1.listener entry.2

/-- The bus holds the subscriptions of the watches, in order, and the logs hold their
keys. -/
structure Arranged (store : Store σ)
    (entries : List (InstalledWatch σ × List (Identifier × SubscriptionKey))) : Prop where
  represents : store.bus.Represents (subscribed entries)
  identifiers : ∀ entry ∈ entries, entry.2.map Prod.fst = entry.1.condition.identifiers
  nodup : (entries.map (·.1.id)).Nodup
  keysOf : ∀ watch, store.keysOf watch = (entries.find? (·.1.id = watch)).map (·.2)

namespace Arranged

variable {store : Store σ}
  {entries : List (InstalledWatch σ × List (Identifier × SubscriptionKey))}

theorem isWatching_eq (arranged : store.Arranged entries) (watch : WatchId) :
    (store.keysOf watch).isSome = (entries.map Prod.fst).any (·.id = watch) := by
  rw [arranged.keysOf, Option.isSome_map, List.any_map, Bool.eq_iff_iff]
  simp [List.find?_isSome]

/-- Of the subscriptions of one listener at most one is for an identifier. -/
theorem callbacks_made (listener : Listener σ) {keys : List (Identifier × SubscriptionKey)}
    (nodup : (keys.map Prod.fst).Nodup) (id : Identifier) :
    ((made listener keys).filter (·.id = id)).map (·.callback) =
      if id ∈ keys.map Prod.fst then [listener] else [] := by
  induction keys with
  | nil => rfl
  | cons entry rest induction =>
      rw [List.map_cons, List.nodup_cons] at nodup
      have ofRest := induction nodup.2
      simp only [made] at ofRest
      by_cases same : entry.1 = id
      · subst same
        rw [if_neg nodup.1] at ofRest
        simp [made, ofRest]
      · simp only [made, List.map_cons, List.mem_cons, Ne.symm same, false_or]
        rw [List.filter_cons_of_neg (by simpa using same)]
        exact ofRest

theorem callbacks_subscribed
    (identifiers : ∀ entry ∈ entries, entry.2.map Prod.fst = entry.1.condition.identifiers)
    (id : Identifier) :
    ((subscribed entries).filter (·.id = id)).map (·.callback) =
      ((entries.map Prod.fst).filter (·.refersTo id)).map (·.listener) := by
  induction entries with
  | nil => rfl
  | cons entry rest induction =>
      rw [List.forall_mem_cons] at identifiers
      have nodup : (entry.2.map Prod.fst).Nodup := identifiers.1 ▸ nodup_firstOccurrences _
      have ofRest := induction identifiers.2
      rw [subscribed, List.flatMap_cons, List.filter_append, List.map_append,
        callbacks_made _ nodup, identifiers.1]
      rw [subscribed] at ofRest
      rw [ofRest, List.map_cons, List.filter_cons]
      by_cases refers : entry.1.refersTo id = true
      · rw [if_pos ((entry.1.refersTo_iff id).mp refers), if_pos refers]
        rfl
      · rw [if_neg fun inside => refers ((entry.1.refersTo_iff id).mpr inside), if_neg refers]
        rfl

/-- The listeners of an identifier are the watches that refer to it. -/
theorem listeners_eq (arranged : store.Arranged entries) (id : Identifier) :
    store.bus.listeners id =
      ((entries.map Prod.fst).filter (·.refersTo id)).map (·.listener) := by
  rw [Bus.listeners, arranged.represents.subscriptions, List.map_map, Bus.liveOf]
  exact callbacks_subscribed arranged.identifiers id

theorem new (registry : Registry σ) (owner : Option Owner) :
    (Store.new registry owner).Arranged [] where
  represents := .new
  identifiers := by simp
  nodup := List.nodup_nil
  keysOf _ := rfl

theorem install (arranged : store.Arranged entries) (watch : InstalledWatch σ)
    (off : store.keysOf watch.id = none) :
    ∃ keys, (store.watch watch.station watch.condition.id watch.condition.identifiers
      watch.listener).Arranged (entries ++ [(watch, keys)]) := by
  rcases subscribeEach_represents arranged.represents watch.listener
    watch.condition.identifiers with ⟨represents, identifiers, _, _⟩
  have keysOf := keysOf_watch store watch.station watch.condition.id
    watch.condition.identifiers watch.listener
  generalize (store.subscribeEach watch.listener watch.condition.identifiers).1 = keys
    at represents identifiers keysOf
  have absent : entries.find? (·.1.id = watch.id) = none := by
    simpa [arranged.keysOf] using off
  refine ⟨keys, ?_, ?_, ?_, ?_⟩
  · rw [subscribed, List.flatMap_append, List.flatMap_singleton]
    exact represents
  · intro entry member
    rcases List.mem_append.mp member with old | new
    · exact arranged.identifiers entry old
    · rw [List.mem_singleton.mp new]
      exact identifiers
  · rw [List.map_append]
    refine List.concat_eq_append ▸ arranged.nodup.concat ?_
    simpa using absent
  · intro other
    rw [keysOf, List.find?_append]
    change (if other = watch.id then some keys else store.keysOf other) = _
    by_cases same : other = watch.id
    · rw [if_pos same, same, absent]
      simp
    · rw [if_neg same, arranged.keysOf]
      simp [Ne.symm same]

/-- The keys of one watch are not among those of another. -/
theorem keys_disjoint (arranged : store.Arranged entries)
    {left right : InstalledWatch σ × List (Identifier × SubscriptionKey)}
    (inLeft : left ∈ entries) (inRight : right ∈ entries) (different : left.1.id ≠ right.1.id)
    {entry : Identifier × SubscriptionKey} (ofLeft : entry ∈ left.2) : entry ∉ right.2 := by
  have keys : (subscribed entries).map (·.key) =
      entries.flatMap fun entry => entry.2.map Prod.snd := by
    simp [subscribed, made, List.map_flatMap, Function.comp_def]
  have nodup := arranged.represents.keys
  rw [keys, List.nodup_flatMap] at nodup
  have : Std.Symm (Function.onFun List.Disjoint
      fun entry : InstalledWatch σ × List (Identifier × SubscriptionKey) =>
        entry.2.map Prod.snd) := ⟨fun _ _ disjoint _ right left => disjoint left right⟩
  have apart := nodup.2.forall inLeft inRight fun same => different (same ▸ rfl)
  intro ofRight
  exact apart (List.mem_map_of_mem ofLeft) (List.mem_map_of_mem ofRight)

theorem subscribed_filter (kept : InstalledWatch σ × List (Identifier × SubscriptionKey) → Bool) :
    subscribed (entries.filter kept) =
      entries.flatMap fun entry => if kept entry then made entry.1.listener entry.2 else [] := by
  induction entries with
  | nil => rfl
  | cons entry rest induction =>
      rw [List.flatMap_cons, ← induction, List.filter_cons]
      cases kept entry <;> rfl

/-- Ending the subscriptions of one watch leaves those of the others. -/
theorem filter_subscribed (arranged : store.Arranged entries)
    {removed : InstalledWatch σ × List (Identifier × SubscriptionKey)}
    (member : removed ∈ entries) :
    (subscribed entries).filter (fun item => (item.id, item.key) ∉ removed.2) =
      subscribed (entries.filter (·.1.id ≠ removed.1.id)) := by
  rw [subscribed_filter, subscribed, List.filter_flatMap]
  refine List.flatMap_congr fun entry known => ?_
  by_cases same : entry.1.id = removed.1.id
  · have equal := List.inj_on_of_nodup_map arranged.nodup known member same
    subst equal
    rw [if_neg (by simp), List.filter_eq_nil_iff]
    intro item made
    rcases List.mem_map.mp made with ⟨key, ofEntry, rfl⟩
    simpa using ofEntry
  · rw [if_pos (by simpa using same), List.filter_eq_self]
    intro item made
    rcases List.mem_map.mp made with ⟨key, ofEntry, rfl⟩
    simpa using arranged.keys_disjoint known member same ofEntry

theorem remove (arranged : store.Arranged entries) (station : StationId) (condition : RuleId) :
    (store.unwatch station condition).2.Arranged
      (entries.filter (·.1.id ≠ ⟨station, condition⟩)) := by
  have identifiers : ∀ entry ∈ entries.filter (·.1.id ≠ ⟨station, condition⟩),
      entry.2.map Prod.fst = entry.1.condition.identifiers :=
    fun entry member => arranged.identifiers entry (List.mem_filter.mp member).1
  have nodup := arranged.nodup.sublist
    (List.Sublist.map (·.1.id) (entries.filter_sublist (p := (·.1.id ≠ ⟨station, condition⟩))))
  have keysOf (other : WatchId) : (store.unwatch station condition).2.keysOf other =
      ((entries.filter (·.1.id ≠ ⟨station, condition⟩)).find? (·.1.id = other)).map (·.2) := by
    rw [keysOf_unwatch, List.find?_filter]
    by_cases same : other = ⟨station, condition⟩
    · rw [if_pos same, same]
      refine (congrArg (Option.map _) (List.find?_eq_none.mpr fun entry _ => ?_)).symm
      simp
    · rw [if_neg same, arranged.keysOf]
      congr 2
      funext entry
      by_cases found : entry.1.id = other <;> simp [found, same]
  refine ⟨?_, identifiers, nodup, keysOf⟩
  cases found : entries.find? (·.1.id = ⟨station, condition⟩) with
  | none =>
      have off : store.keysOf ⟨station, condition⟩ = none := by rw [arranged.keysOf, found]; rfl
      have all : entries.filter (·.1.id ≠ ⟨station, condition⟩) = entries := by
        rw [List.filter_eq_self]
        simpa using found
      rw [unwatch_of_off off, all]
      exact arranged.represents
  | some removed =>
      have member := List.mem_of_find?_eq_some found
      have isRemoved : removed.1.id = ⟨station, condition⟩ := by simpa using List.find?_some found
      have on : store.keysOf ⟨station, condition⟩ = some removed.2 := by
        rw [arranged.keysOf, found]
        rfl
      have represents := (unwatch_of_on on arranged.represents).1
      rw [arranged.filter_subscribed member, isRemoved] at represents
      exact represents

end Arranged

/-- The installed watches are those of the logs, and the listeners are theirs. -/
theorem Watched.arranged {store : Store σ} {installed : List (InstalledWatch σ)}
    (watched : store.Watched installed) :
    ∃ entries, entries.map Prod.fst = installed ∧ store.Arranged entries ∧
      ∀ watch ∈ installed, watch.callback.Quiet .reading := by
  induction watched with
  | new registry owner => exact ⟨[], rfl, .new registry owner, by simp⟩
  | @watch _ world after station condition callback passive _ run induction =>
      rcases induction with ⟨entries, rfl, arranged, passives⟩
      have watching := arranged.isWatching_eq (condition.watchAt station)
      rw [← isWatching_eq] at watching
      rw [← watching]
      cases on : world.store.isWatching station condition.id with
      | true =>
          cases run.symm.trans (Run.watch_again callback on)
          exact ⟨entries, rfl, arranged, passives⟩
      | false =>
          rcases Run.watch_new callback on with ⟨_, installing, store, -⟩
          cases run.symm.trans installing
          have off : world.store.keysOf (condition.watchAt station) = none := by
            simpa [isWatching_eq] using on
          rcases arranged.install ⟨station, condition, callback⟩ off with ⟨keys, further⟩
          refine ⟨entries ++ [(⟨station, condition, callback⟩, keys)], by simp, store ▸ further, ?_⟩
          intro watch member
          rcases List.mem_append.mp member with old | new
          · exact passives watch old
          · rw [List.mem_singleton.mp new]
            exact passive
  | unwatch station condition _ induction =>
      rcases induction with ⟨entries, rfl, arranged, passives⟩
      refine ⟨_, ?_, arranged.remove station condition, fun watch member => ?_⟩
      · rw [List.filter_map]
        rfl
      · exact passives watch (List.mem_filter.mp member).1
  | other _ bus keysOf induction =>
      rcases induction with ⟨entries, rfl, arranged, passives⟩
      refine ⟨entries, rfl, ⟨bus ▸ arranged.represents, arranged.identifiers, arranged.nodup,
        fun watch => ?_⟩, passives⟩
      rw [keysOf, arranged.keysOf]

end Store

/-- The watches that are on in the store, while nobody listens at the engine. -/
structure World.Attended (world : World σ) (installed : List (InstalledWatch σ)) : Prop where
  watched : world.store.Watched installed
  silent : world.bus.Silent

namespace World.Attended

variable {world after : World σ} {installed : List (InstalledWatch σ)}

theorem listeners_eq (attended : world.Attended installed) (id : Identifier) :
    world.store.bus.listeners id = (installed.filter (·.refersTo id)).map (·.listener) := by
  rcases attended.watched.arranged with ⟨entries, rfl, arranged, _⟩
  exact arranged.listeners_eq id

theorem passive (attended : world.Attended installed) :
    ∀ watch ∈ installed, watch.callback.Quiet .reading := by
  rcases attended.watched.arranged with ⟨_, _, _, passives⟩
  exact passives

theorem nodup (attended : world.Attended installed) : (installed.map (·.id)).Nodup := by
  rcases attended.watched.arranged with ⟨entries, rfl, arranged, _⟩
  rw [List.map_map]
  exact arranged.nodup

theorem calm (attended : world.Attended installed) : world.Calm where
  engine := attended.silent
  store id listener member change := by
    rw [attended.listeners_eq] at member
    rcases List.mem_map.mp member with ⟨watch, inside, rfl⟩
    have passive := attended.passive watch (List.mem_filter.mp inside).1
    exact InstalledWatch.listener_quiet passive change

theorem further (attended : world.Attended installed) {run : Run σ α}
    (respects : run.Respects (Keeps .writing)) {value : α}
    (outcome : run world = some (value, after)) : after.Attended installed :=
  let kept := respects world value after outcome attended.calm
  ⟨attended.watched.other kept.storeBus kept.watches, kept.bus ▸ attended.silent⟩

end World.Attended

end NumericRules
