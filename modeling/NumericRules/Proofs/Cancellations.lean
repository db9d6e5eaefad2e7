import NumericRules.Proofs.Chronicle
import NumericRules.Proofs.Watches

/-! # Watches that are ended

Once a watch is ended its subscriptions are gone, and no delivery that takes its list
later calls any of them. A delivery that has taken its list before goes on with it: the
callback of the watch may still run then.
-/

namespace NumericRules

/-! ## What chronicles keep -/

theorem getElem?_concat_eq_some {items : List α} {last item : α} {place : Nat} :
    (items ++ [last])[place]? = some item ↔
      (place < items.length ∧ items[place]? = some item) ∨ (place = items.length ∧ last = item) := by
  by_cases inside : place < items.length
  · rw [List.getElem?_append_left inside, and_iff_right inside]
    refine (or_iff_left fun both => ?_).symm
    exact Nat.ne_of_lt inside both.1
  · rw [List.getElem?_append_right (Nat.le_of_not_lt inside), List.getElem?_singleton]
    by_cases same : place = items.length
    · simp [same]
    · have beyond : ¬place - items.length = 0 := by omega
      simp [same, inside, beyond]

theorem getElem?_append_cons (earlier : List α) (middle : α) (later : List α) (index : Nat) :
    (earlier ++ middle :: later)[earlier.length + (index + 1)]? = later[index]? := by
  rw [List.getElem?_append_right (Nat.le_add_right _ _), Nat.add_sub_cancel_left,
    List.getElem?_cons_succ]

namespace Event

/-- A watch that had made the subscription was ended. -/
def Gone (events : List Event) (key : SubscriptionKey) : Prop :=
  ∃ place watch keys, events[place]? = some (.ended watch) ∧
    .begun watch keys ∈ events.take place ∧ key ∈ keys

/-- What may be recorded after the events so far: deliveries take no subscription whose
watch was ended, and they call what they have taken. -/
def Fair (past : List Event) : Event → Prop
  | .listed keys => ∀ key ∈ keys, ¬Gone past key
  | .called delivery key => ∃ keys, past[delivery]? = some (.listed keys) ∧ key ∈ keys
  | _ => True

/-- At every place there is what may be there. -/
def Coherent (events : List Event) : Prop :=
  ∀ (place : Nat) (event : Event), events[place]? = some event → Fair (events.take place) event

variable {events : List Event} {event : Event}

theorem gone_concat {key : SubscriptionKey} :
    Gone (events ++ [event]) key ↔ Gone events key ∨
      ∃ watch keys, event = .ended watch ∧ .begun watch keys ∈ events ∧ key ∈ keys := by
  have before {place : Nat} (inside : place ≤ events.length) :
      (events ++ [event]).take place = events.take place :=
    List.take_append_of_le_length inside
  constructor
  · rintro ⟨place, watch, keys, found, begun, member⟩
    rcases getElem?_concat_eq_some.mp found with ⟨inside, old⟩ | ⟨rfl, new⟩
    · rw [before (Nat.le_of_lt inside)] at begun
      exact .inl ⟨place, watch, keys, old, begun, member⟩
    · rw [before (Nat.le_refl _), List.take_length] at begun
      exact .inr ⟨watch, keys, new, begun, member⟩
  · rintro (⟨place, watch, keys, found, begun, member⟩ | ⟨watch, keys, rfl, begun, member⟩)
    · have inside : place < events.length := (List.getElem?_eq_some_iff.mp found).1
      refine ⟨place, watch, keys, getElem?_concat_eq_some.mpr (.inl ⟨inside, found⟩), ?_, member⟩
      rwa [before (Nat.le_of_lt inside)]
    · refine ⟨events.length, watch, keys, getElem?_concat_eq_some.mpr (.inr ⟨rfl, rfl⟩), ?_, member⟩
      rwa [before (Nat.le_refl _), List.take_length]

theorem coherent_nil : Coherent [] := fun _ _ found => nomatch found

theorem Coherent.concat (coherent : Coherent events) (fair : Fair events event) :
    Coherent (events ++ [event]) := by
  intro place other found
  rcases getElem?_concat_eq_some.mp found with ⟨inside, old⟩ | ⟨rfl, rfl⟩
  · rw [List.take_append_of_le_length (Nat.le_of_lt inside)]
    exact coherent place other old
  · rwa [List.take_append_of_le_length (Nat.le_refl _), List.take_length]

section Ended

variable {earlier later : List Event} {watch : WatchId} {keys : List SubscriptionKey}
  (coherent : Coherent (earlier ++ .ended watch :: later)) (begun : .begun watch keys ∈ earlier)
  {key : SubscriptionKey} (member : key ∈ keys)

include coherent begun member

/-- Once a watch was ended, no list has one of its subscriptions. -/
theorem Coherent.not_listed_at {place : Nat} {taken : List SubscriptionKey}
    (after : earlier.length < place)
    (listed : (earlier ++ .ended watch :: later)[place]? = some (.listed taken)) :
    key ∉ taken := by
  intro inside
  refine coherent place _ listed key inside ⟨earlier.length, watch, keys, ?_, ?_, member⟩
  · rw [List.getElem?_take_of_lt after, List.getElem?_append_right (Nat.le_refl _), Nat.sub_self]
    rfl
  · rwa [List.take_take, Nat.min_eq_left (Nat.le_of_lt after), List.take_left]

theorem Coherent.not_listed {taken : List SubscriptionKey} (listed : .listed taken ∈ later) :
    key ∉ taken := by
  rcases List.getElem?_of_mem listed with ⟨index, found⟩
  exact coherent.not_listed_at begun member (by omega) ((getElem?_append_cons ..).trans found)

/-- A delivery that calls a subscription after its watch was ended has taken its list
before. -/
theorem Coherent.listed_before {delivery : Nat} (called : .called delivery key ∈ later) :
    ∃ taken, earlier[delivery]? = some (.listed taken) ∧ key ∈ taken := by
  rcases List.getElem?_of_mem called with ⟨index, found⟩
  rcases coherent _ _ ((getElem?_append_cons ..).trans found) with ⟨taken, listed, inside⟩
  have atList : (earlier ++ .ended watch :: later)[delivery]? = some (.listed taken) := by
    rw [List.getElem?_take] at listed
    split at listed
    · exact listed
    · cases listed
  refine ⟨taken, ?_, inside⟩
  rcases Nat.lt_trichotomy delivery earlier.length with before | same | after
  · rwa [List.getElem?_append_left before] at atList
  · rw [same, List.getElem?_append_right (Nat.le_refl _), Nat.sub_self] at atList
    cases atList
  · exact absurd inside (coherent.not_listed_at begun member after atList)

end Ended

end Event

open Event (Gone Fair Coherent gone_concat)

/-! ## Chronicles and the store -/

namespace World

/-- Nothing has happened to the watches. Subscriptions may have ended, and the new ones have
new keys. -/
structure Undisturbed (before after : World σ) : Prop where
  keysOf : ∀ watch, after.store.keysOf watch = before.store.keysOf watch
  counted : before.store.bus.nextKey ≤ after.store.bus.nextKey
  bus : ∀ live, before.store.bus.Represents live → ∃ left, after.store.bus.Represents left ∧
    ∀ item ∈ left, item ∈ live ∨ before.store.bus.nextKey ≤ item.key.number

theorem Undisturbed.of_eq {before after : World σ}
    (keysOf : ∀ watch, after.store.keysOf watch = before.store.keysOf watch)
    (bus : after.store.bus = before.store.bus) : before.Undisturbed after where
  keysOf := keysOf
  counted := by rw [bus]
  bus live represents := ⟨live, by rwa [bus], fun _ member => .inl member⟩

theorem Undisturbed.of_store {before after : World σ} (same : after.store = before.store) :
    before.Undisturbed after :=
  .of_eq (fun watch => by rw [same]) (by rw [same])

/-- A change of the bus of the store that may make a new subscription and end others. -/
theorem undisturbed_changeBus {change : Bus σ → α × Bus σ}
    (counted : ∀ bus, bus.nextKey ≤ (change bus).2.nextKey)
    (represents : ∀ {bus : Bus σ} {live}, bus.Represents live → ∃ left,
      (change bus).2.Represents left ∧ ∀ item ∈ left, item ∈ live ∨ bus.nextKey ≤ item.key.number)
    (tier : Tier) : (Run.changeBus tier change).Respects Undisturbed := by
  intro world value after outcome
  cases outcome
  cases tier with
  | engine => exact .of_store rfl
  | store => exact ⟨fun _ => rfl, counted _, fun _ => represents⟩

theorem tolerant_undisturbed : Run.Tolerant (Undisturbed (σ := σ)) where
  trans earlier later := by
    refine ⟨fun watch => (later.keysOf watch).trans (earlier.keysOf watch),
      Nat.le_trans earlier.counted later.counted, fun live represents => ?_⟩
    rcases earlier.bus live represents with ⟨middle, between, origin⟩
    rcases later.bus middle between with ⟨left, after, laterOrigin⟩
    refine ⟨left, after, fun item member => ?_⟩
    rcases laterOrigin item member with old | fresh
    · exact origin item old
    · exact .inr (Nat.le_trans earlier.counted fresh)
  beside same _ := .of_store same
  subscribe tier id callback := by
    refine undisturbed_changeBus (fun bus => Nat.le_succ bus.nextKey) (fun represents => ?_) tier
    refine ⟨_, represents.add id callback, fun item member => ?_⟩
    rcases List.mem_append.mp member with old | new
    · exact .inl old
    · rw [List.mem_singleton.mp new]
      exact .inr (Nat.le_refl _)
  unsubscribe tier id key :=
    undisturbed_changeBus (fun _ => Nat.le_refl _) (fun represents =>
      ⟨_, represents.remove id key, fun _ member => .inl (List.mem_filter.mp member).1⟩) tier
  unsubscribeAll tier id :=
    undisturbed_changeBus (fun _ => Nat.le_refl _) (fun represents =>
      ⟨_, represents.removeAll id, fun _ member => .inl (List.mem_filter.mp member).1⟩) tier
  clear tier :=
    undisturbed_changeBus (fun _ => Nat.le_refl _) (fun represents =>
      ⟨[], represents.clear, fun _ member => absurd member List.not_mem_nil⟩) tier

end World

open World (Undisturbed tolerant_undisturbed)

/-- Ending a watch tells whether it was on. -/
theorem Store.unwatch_fst (store : Store σ) (station : StationId) (condition : RuleId) :
    (store.unwatch station condition).1 = store.isWatching station condition := by
  rw [unwatch, isWatching]
  split
  · rename_i off
    rw [off, Option.isSome_none]
  · rename_i keys on
    rw [on, Option.isSome_some]

/-- Subscriptions that were recorded with a watch were made for it, and a watch that is on
has kept none that is gone. -/
structure Store.Fits (events : List Event) (store : Store σ) : Prop where
  reflected : ∃ watches live, store.Reflects watches live ∧
    ∀ watch keys, .begun watch keys ∈ events → ∀ key ∈ keys,
      watches.owner key = some watch ∧ key.number < store.bus.nextKey
  absent : ∀ key, Gone events key → ∀ watch kept, store.keysOf watch = some kept →
    key ∉ kept.map Prod.snd

namespace Store.Fits

variable {events : List Event} {store after : Store σ}

theorem new (registry : Registry σ) (owner : Option Owner) :
    (Store.new registry owner).Fits [] where
  reflected := ⟨.none, [], .new registry owner, fun _ _ begun => nomatch begun⟩
  absent _ gone := by
    rcases gone with ⟨_, _, _, found, _⟩
    cases found

/-- No live subscription is gone. -/
theorem not_gone (fits : store.Fits events) {id : Identifier} {subscription : Subscription σ}
    (member : subscription ∈ store.bus.subscriptions id) : ¬Gone events subscription.key := by
  intro gone
  rcases fits.reflected with ⟨watches, live, reflects, made⟩
  rcases gone with ⟨place, watch, keys, found, begun, inside⟩
  have owner := (made watch keys (List.mem_of_mem_take begun) _ inside).1
  rw [reflects.represents.subscriptions] at member
  rcases List.mem_map.mp member with ⟨item, isLive, rfl⟩
  rcases (reflects.owned item (List.mem_filter.mp isLive).1 watch owner).1 with
    ⟨kept, isKept, entry⟩
  exact fits.absent _ ⟨place, watch, keys, found, begun, inside⟩ watch kept isKept
    (List.mem_map_of_mem entry)

theorem undisturbed {world last : World σ} (fits : world.store.Fits events)
    (undisturbed : world.Undisturbed last) : last.store.Fits events where
  reflected := by
    rcases fits.reflected with ⟨watches, live, reflects, made⟩
    rcases undisturbed.bus live reflects.represents with ⟨left, represents, origin⟩
    refine ⟨_, left, reflects.other undisturbed.keysOf represents origin undisturbed.counted, ?_⟩
    intro watch keys begun key member
    have old := made watch keys begun key member
    exact ⟨(if_neg (Nat.not_le.mpr old.2)).trans old.1,
      Nat.lt_of_lt_of_le old.2 undisturbed.counted⟩
  absent key gone watch kept found := by
    rw [undisturbed.keysOf] at found
    exact fits.absent key gone watch kept found

/-- Lists and calls change nothing. -/
theorem concat (fits : store.Fits events) {event : Event}
    (noBegin : ∀ watch keys, event ≠ .begun watch keys) (noEnd : ∀ watch, event ≠ .ended watch) :
    store.Fits (events ++ [event]) where
  reflected := by
    rcases fits.reflected with ⟨watches, live, reflects, made⟩
    refine ⟨watches, live, reflects, fun watch keys begun => made watch keys ?_⟩
    rcases List.mem_append.mp begun with old | new
    · exact old
    · exact absurd (List.mem_singleton.mp new).symm (noBegin watch keys)
  absent key gone := by
    rcases gone_concat.mp gone with old | ⟨watch, _, same, _⟩
    · exact fits.absent key old
    · exact absurd same (noEnd watch)

/-- The subscriptions of a new watch are new. -/
theorem watch (fits : store.Fits events) {station : StationId} {condition : ConditionRule}
    (callback : Script σ .writing) (off : store.isWatching station condition.id = false)
    (same : after = store.watch station condition.id condition.identifiers
      (watcher condition.root callback)) :
    after.Fits (events ++ [.begun (condition.watchAt station)
      (((after.keysOf (condition.watchAt station)).getD []).map Prod.snd)]) := by
  rcases fits.reflected with ⟨watches, live, reflects, made⟩
  rcases reflects.watch callback off with ⟨left, further⟩
  rcases subscribeEach_represents reflects.represents (watcher condition.root callback)
    condition.identifiers with ⟨_, _, fresh, counted⟩
  have keysOf := keysOf_watch store station condition.id condition.identifiers
    (watcher condition.root callback)
  have counted : store.bus.nextKey ≤ after.bus.nextKey := by rw [same]; exact counted
  rw [← same] at further keysOf
  generalize (store.subscribeEach (watcher condition.root callback) condition.identifiers).1 =
    keys at fresh keysOf
  have begins : after.keysOf (condition.watchAt station) = some keys :=
    (keysOf _).trans (if_pos rfl)
  rw [begins, Option.getD_some]
  constructor
  · refine ⟨_, left, further, fun watch others begun key member => ?_⟩
    rcases List.mem_append.mp begun with old | new
    · have was := made watch others old key member
      exact ⟨(if_neg (Nat.not_le.mpr was.2)).trans was.1, Nat.lt_of_lt_of_le was.2 counted⟩
    · cases List.mem_singleton.mp new
      rcases List.mem_map.mp member with ⟨entry, isKey, rfl⟩
      exact further.kept _ keys begins entry isKey
  · intro key gone watch kept found member
    rcases gone_concat.mp gone with old | ⟨_, _, ended, _⟩
    · rw [keysOf] at found
      split at found
      · -- what is gone was counted before
        cases found
        rcases List.mem_map.mp member with ⟨entry, isKey, rfl⟩
        rcases old with ⟨_, earlier, others, _, begun, inside⟩
        have before := (made earlier others (List.mem_of_mem_take begun) _ inside).2
        exact Nat.not_le.mpr before (fresh entry isKey)
      · exact fits.absent key old watch kept found member
    · cases ended

/-- The subscriptions of a watch that ends are gone. -/
theorem unwatch (fits : store.Fits events) (station : StationId) (condition : RuleId) :
    (store.unwatch station condition).2.Fits (events ++ [.ended ⟨station, condition⟩]) := by
  rcases fits.reflected with ⟨watches, live, reflects, made⟩
  rcases reflects.unwatch station condition with ⟨left, further⟩
  have keysOf := keysOf_unwatch store station condition
  have counted : (store.unwatch station condition).2.bus.nextKey = store.bus.nextKey := by
    cases on : store.keysOf ⟨station, condition⟩ with
    | none => rw [unwatch_of_off on]
    | some keys => exact (unwatch_of_on on reflects.represents).2
  constructor
  · refine ⟨_, left, further, fun watch keys begun key member => ?_⟩
    rcases List.mem_append.mp begun with old | new
    · rw [counted]
      exact made watch keys old key member
    · cases List.mem_singleton.mp new
  · intro key gone watch kept found member
    rw [keysOf] at found
    split at found
    · cases found
    · rename_i different
      rcases gone_concat.mp gone with old | ⟨ended, keys, same, begun, inside⟩
      · exact fits.absent key old watch kept found member
      · cases same
        -- each subscription was made for one watch
        rcases List.mem_map.mp member with ⟨entry, isKept, rfl⟩
        have owner := (reflects.kept watch kept found entry isKept).1
        rw [(made _ keys begun _ inside).1] at owner
        exact different (Option.some.inj owner).symm

end Store.Fits

/-! ## Chronicles and runs -/

/-- Without its chronicle the run is the plain one. A chronicle that goes on from the events
`start` keeps what it has, stays coherent, and fits the store as long as there is one. -/
structure Chronicled.Faithful (start : List Event) (chronicled : Chronicled σ α)
    (plain : Run σ α) : Prop where
  erases : ∀ world events, (chronicled world events).1 = plain world
  grows : ∀ world events, events <+: (chronicled world events).2
  coherent : ∀ world events, start <+: events → Coherent events → world.store.Fits events →
    Coherent (chronicled world events).2
  fits : ∀ world events value after, start <+: events → world.store.Fits events →
    plain world = some (value, after) → after.store.Fits (chronicled world events).2

theorem Chronicled.bind_of_some {first : Chronicled σ α} {next : α → Chronicled σ β}
    {world after : World σ} {events more : List Event} {value : α}
    (ran : first world events = (some (value, after), more)) :
    (first >>= next) world events = next value after more := by
  simp only [Bind.bind, ran]

theorem Chronicled.bind_of_none {first : Chronicled σ α} {next : α → Chronicled σ β}
    {world : World σ} {events more : List Event} (ran : first world events = (none, more)) :
    (first >>= next) world events = (none, more) := by
  simp only [Bind.bind, ran]

theorem Chronicled.lift_bind {run : Run σ α} {next : α → Chronicled σ β} {world after : World σ}
    {value : α} (ran : run world = some (value, after)) (events : List Event) :
    ((liftM run : Chronicled σ α) >>= next) world events = next value after events :=
  bind_of_some (Prod.ext ran rfl)

namespace Chronicled.Faithful

variable {start : List Event}

theorem lift {plain : Run σ α} (undisturbed : plain.Respects Undisturbed) :
    Faithful start (liftM plain : Chronicled σ α) plain where
  erases _ _ := rfl
  grows _ events := List.prefix_refl events
  coherent _ _ _ coherent _ := coherent
  fits world _ value after _ fits ran := fits.undisturbed (undisturbed world value after ran)

theorem pure (value : α) :
    Faithful start (Pure.pure value : Chronicled σ α) (Pure.pure value) where
  erases _ _ := rfl
  grows _ events := List.prefix_refl events
  coherent _ _ _ coherent _ := coherent
  fits _ _ _ _ _ fits ran := by
    cases ran
    exact fits

theorem bind {chronicled : Chronicled σ α} {plain : Run σ α} {next : α → Chronicled σ β}
    {further : α → Run σ β} (faithful : Faithful start chronicled plain)
    (later : ∀ value, Faithful start (next value) (further value)) :
    Faithful start (chronicled >>= next) (plain >>= further) := by
  -- the run goes on exactly if its first part has a result
  have goesOn {world after : World σ} {value : α} (ran : plain world = some (value, after))
      (events : List Event) : (chronicled >>= next) world events =
        next value after (chronicled world events).2 :=
    bind_of_some (Prod.ext ((faithful.erases world events).trans ran) rfl)
  have stops {world : World σ} (ran : plain world = none) (events : List Event) :
      (chronicled >>= next) world events = (none, (chronicled world events).2) :=
    bind_of_none (Prod.ext ((faithful.erases world events).trans ran) rfl)
  refine ⟨fun world events => ?_, fun world events => ?_, fun world events starts coherent fits => ?_,
    fun world events value after starts fits ran => ?_⟩
  all_goals have grown := faithful.grows world events
  · rw [Run.bind_apply]
    cases ran : plain world with
    | none => rw [stops ran]
    | some middle =>
        rw [goesOn ran]
        exact (later middle.1).erases middle.2 _
  · cases ran : plain world with
    | none => rwa [stops ran]
    | some middle =>
        rw [goesOn ran]
        exact grown.trans ((later middle.1).grows middle.2 _)
  · have first := faithful.coherent world events starts coherent fits
    cases ran : plain world with
    | none => rwa [stops ran]
    | some middle =>
        rw [goesOn ran]
        exact (later middle.1).coherent middle.2 _ (starts.trans grown) first
          (faithful.fits world events middle.1 middle.2 starts fits ran)
  · rcases Run.bind_eq_some ran with ⟨middle, between, ranFirst, ranNext⟩
    rw [goesOn ranFirst]
    exact (later middle).fits between _ value after (starts.trans grown)
      (faithful.fits world events middle between starts fits ranFirst) ranNext

/-- A part that has no place in the plain run. -/
theorem noted {note : Chronicled σ Unit} {chronicled : Chronicled σ α} {plain : Run σ α}
    (faithful : Faithful start note (Pure.pure ())) (later : Faithful start chronicled plain) :
    Faithful start (note >>= fun _ => chronicled) plain := by
  have both := faithful.bind fun _ => later
  rwa [pure_bind] at both

/-- A call is recorded by a delivery that has the subscription in its list. -/
theorem called {delivery : Nat} {taken : List SubscriptionKey} {key : SubscriptionKey}
    (listed : start[delivery]? = some (.listed taken)) (member : key ∈ taken) :
    Faithful start (note (.called delivery key) : Chronicled σ Unit) (Pure.pure ()) where
  erases _ _ := rfl
  grows _ events := List.prefix_append events _
  coherent world events starts coherent _ := by
    refine coherent.concat ⟨taken, ?_, member⟩
    rcases starts with ⟨rest, rfl⟩
    rwa [List.getElem?_append_left (List.getElem?_eq_some_iff.mp listed).1]
  fits _ _ _ _ _ fits ran := by
    cases ran
    exact fits.concat (fun _ _ same => nomatch same) (fun _ same => nomatch same)

/-- A run that always has a result and may record that a watch begins or ends. -/
theorem ofStep {chronicled : Chronicled σ α} {plain : Run σ α}
    (step : ∀ world events, ∃ value after more, plain world = some (value, after) ∧
      chronicled world events = (some (value, after), more) ∧
      (more = events ∨ ∃ event, more = events ++ [event] ∧ Fair events event) ∧
      (world.store.Fits events → after.store.Fits more)) : Faithful start chronicled plain where
  erases world events := by
    rcases step world events with ⟨value, after, more, ran, recorded, _⟩
    rw [recorded, ran]
  grows world events := by
    rcases step world events with ⟨value, after, more, _, recorded, rfl | ⟨event, rfl, _⟩, _⟩
    · rw [recorded]
    · rw [recorded]
      exact List.prefix_append events _
  coherent world events _ coherent _ := by
    rcases step world events with ⟨value, after, more, _, recorded, rfl | ⟨event, rfl, fair⟩, _⟩
    · rwa [recorded]
    · rw [recorded]
      exact coherent.concat fair
  fits world events value after _ fits ran := by
    rcases step world events with ⟨_, _, more, alsoRan, recorded, _, further⟩
    cases ran.symm.trans alsoRan
    rw [recorded]
    exact further fits

theorem watch (station : StationId) (condition : ConditionRule) (callback : Script σ .writing) :
    Faithful start (Chronicled.watch station condition callback)
      (Run.watch station condition callback) := by
  refine .ofStep fun world events => ?_
  have looked (world : World σ) :
      (Run.store : Run σ (Store σ)) world = some (world.store, world) := rfl
  cases watching : world.store.isWatching station condition.id with
  | true =>
      have again := Run.watch_again callback watching
      refine ⟨(), world, events, again, ?_, .inl rfl, id⟩
      rw [Chronicled.watch, lift_bind (looked world), lift_bind again, lift_bind (looked world),
        if_neg]
      · rfl
      · rw [Store.isWatching_eq, Option.isSome_iff_ne_none] at watching
        rwa [Option.isNone_iff_eq_none]
  | false =>
      rcases Run.watch_new callback watching with ⟨after, new, same, -⟩
      refine ⟨(), after, _, new, ?_, .inr ⟨.begun _ _, rfl, True.intro⟩, fun fits =>
        fits.watch callback watching same⟩
      rw [Chronicled.watch, lift_bind (looked world), lift_bind new, lift_bind (looked after),
        if_pos]
      · rfl
      · rwa [Store.isWatching_eq, Option.isSome_eq_false_iff] at watching

theorem unwatch (station : StationId) (condition : RuleId) :
    Faithful start (Chronicled.unwatch station condition : Chronicled σ Bool)
      (Run.changeStore (·.unwatch station condition)) := by
  refine .ofStep fun world events => ?_
  have changed : (Run.changeStore (·.unwatch station condition) : Run σ Bool) world =
      some (world.store.isWatching station condition,
        { world with store := (world.store.unwatch station condition).2 }) := by
    rw [← Store.unwatch_fst]
    rfl
  cases watching : world.store.isWatching station condition with
  | false =>
      rw [watching] at changed
      refine ⟨_, _, events, changed, ?_, .inl rfl, ?_⟩
      · rw [Chronicled.unwatch, lift_bind changed]
        rfl
      · rw [Store.isWatching_eq, Option.isSome_eq_false_iff, Option.isNone_iff_eq_none] at watching
        rw [Store.unwatch_of_off watching]
        exact id
  | true =>
      rw [watching] at changed
      refine ⟨_, _, _, changed, ?_, .inr ⟨.ended ⟨station, condition⟩, rfl, True.intro⟩, ?_⟩
      · rw [Chronicled.unwatch, lift_bind changed]
        rfl
      · exact fun fits => fits.unwatch station condition

/-! ### Rules and scripts -/

section Rules

variable {engine : Engine σ} {responder : Responder σ}
  {write : Identifier → Update → Binary64 → Chronicled σ Binary64}
  (reads : ∀ id, (responder (.read id)).Respects Undisturbed)
  (writes : ∀ start id update operand,
    Faithful start (write id update operand) (responder.write id update operand))

include writes in
theorem writeAll (saved : List (Identifier × Binary64)) :
    Faithful start (Chronicled.writeAll write saved) (responder.writeAll saved) := by
  induction saved with
  | nil => exact .pure ()
  | cons entry rest induction => exact (writes start entry.1 .set entry.2).bind fun _ => induction

include reads writes

theorem assignAll (assignments : List (Assignment Reference)) :
    Faithful start (Chronicled.assignAll engine responder write assignments)
      (responder.assignAll engine assignments) := by
  induction assignments with
  | nil => exact .pure ()
  | cons assignment rest induction =>
      rw [Responder.assignAll, Responder.assign, bind_assoc]
      have evaluated : (responder.evaluate engine assignment.value).Respects Undisturbed :=
        assignment.value.evaluate_respects tolerant_undisturbed.toSteady
          (Responder.scope_reads reads)
      exact (Faithful.lift evaluated).bind fun operand =>
        (writes start assignment.target.id assignment.update operand).bind fun _ => induction

theorem runProcess (process : ProcessRule) (traced : Bool) :
    Faithful start (Chronicled.runProcess engine responder write process traced)
      (responder.runProcess engine process traced) := by
  have steady := tolerant_undisturbed.toSteady (σ := σ)
  simp only [Responder.runProcess, ProcessRule.run, ProcessRule.forIn_write]
  refine (Faithful.lift (ProcessRule.takePad_respects steady process)).bind fun pad => ?_
  refine (Faithful.lift (ProcessRule.load_respects steady reads _ _)).bind fun loaded => ?_
  refine (Faithful.lift
    (ProcessRule.executeSteps_respects steady _ _ _ _ _)).bind fun final => ?_
  have saved : Faithful start
      (do
        Chronicled.writeAll write (process.changes loaded final)
        Pure.pure (final.value ProcessRule.resultSlot.number))
      (do
        responder.writeAll (process.changes loaded final)
        Pure.pure (final.value ProcessRule.resultSlot.number)) :=
    (writeAll writes _).bind fun _ => .pure _
  have putBack : (modify (·.setPad process.id (.idle final)) : Run σ Unit).Respects Undisturbed :=
    steady.ofModify fun _ => ⟨rfl, rfl⟩
  cases pad.isSome with
  | true => exact (Faithful.lift putBack).bind fun _ => saved
  | false => exact saved

/-- The chronicle of a script is faithful to it. -/
theorem play (script : Script σ access) :
    Faithful start (Chronicled.play engine responder write script)
      (script.play engine responder) := by
  have tolerant := tolerant_undisturbed (σ := σ)
  have steady := tolerant.toSteady
  have scope := Responder.scope_reads reads
  have produces (station : StationId) (rule : RuleId) (targets : List Identifier)
      (tracked : Bool) : Faithful start
        (liftM (Chronicled.produce station rule targets tracked) : Chronicled σ Unit)
        (Chronicled.produce station rule targets tracked) :=
    .lift (steady.ofProduce (fun world =>
      .of_eq (Store.keysOf_produce world.store station rule targets) rfl) tracked)
  induction script with
  | finish outcome => exact .pure outcome
  | host update next induction =>
      exact (Faithful.lift (steady.ofChangeHost update)).bind induction
  | read id next induction => exact (Faithful.lift (reads id)).bind induction
  | stored id next induction => exact (Faithful.lift steady.ofStore).bind fun _ => induction _
  | evaluate formula next induction =>
      exact (Faithful.lift (formula.evaluate_respects steady scope)).bind induction
  | check condition next induction =>
      exact (Faithful.lift (condition.check_respects steady scope)).bind induction
  | parse text next induction => exact (Faithful.lift (steady.ofNumbered _ _)).bind induction
  | produced station next induction =>
      exact (Faithful.lift steady.ofStore).bind fun _ => induction _
  | isWatching station condition next induction =>
      exact (Faithful.lift steady.ofStore).bind fun _ => induction _
  | subscribe tier id callback next _ induction =>
      exact (Faithful.lift (tolerant.subscribe tier id callback)).bind induction
  | unsubscribe tier id key next induction =>
      exact (Faithful.lift (tolerant.unsubscribe tier id key)).bind induction
  | unsubscribeAll tier id next induction =>
      exact (Faithful.lift (tolerant.unsubscribeAll tier id)).bind induction
  | clear tier next induction =>
      exact (Faithful.lift (tolerant.clear tier)).bind fun _ => induction
  | elsewhere body next _ induction =>
      rw [Script.play_elsewhere]
      exact (Faithful.lift fun _ _ _ ran =>
        Undisturbed.of_store (Journaled.playElsewhere_store ran)).bind induction
  | write id update operand next induction => exact (writes start id update operand).bind induction
  | reset range next induction =>
      refine (Faithful.lift fun world value after ran => ?_).bind fun _ => induction
      rcases Run.reset_eq range world with ⟨_, entries, run⟩
      cases ran.symm.trans run
      exact .of_eq (fun _ => rfl) rfl
  | execute operations next induction =>
      exact (assignAll reads writes operations.assignments).bind fun _ => induction
  | run process traced next induction =>
      exact (runProcess reads writes process traced).bind induction
  | workOperations station operations tracked next induction =>
      rw [Script.play, Responder.workOperations_eq, bind_assoc]
      exact (produces station _ _ tracked).bind fun _ =>
        (assignAll reads writes operations.assignments).bind fun _ => induction
  | workProcess station process tracked next induction =>
      rw [Script.play, Responder.workProcess_eq, bind_assoc]
      exact (produces station _ _ tracked).bind fun _ =>
        (runProcess reads writes process engine.settings.traceSteps).bind induction
  | watch station condition callback next _ induction =>
      exact (Faithful.watch station condition callback).bind fun _ => induction
  | unwatch station condition next induction =>
      exact (Faithful.unwatch station condition).bind induction

/-- A delivery is faithful if its marks are. -/
theorem deliver (change : Change) {mark : SubscriptionKey → Chronicled σ Unit}
    {subscriptions : List (Subscription σ)}
    (marked : ∀ subscription ∈ subscriptions,
      Faithful start (mark subscription.key) (Pure.pure ())) :
    Faithful start (Chronicled.deliver engine responder write change mark subscriptions)
      (engine.deliver responder change (subscriptions.map (·.callback))) := by
  induction subscriptions with
  | nil => exact .pure ()
  | cons subscription rest induction =>
      rw [List.forall_mem_cons] at marked
      refine marked.1.noted ((play reads writes (subscription.callback change)).bind fun outcome => ?_)
      cases outcome with
      | ok value => exact induction marked.2
      | error message =>
          exact (Faithful.lift (tolerant_undisturbed.ofReport _)).bind fun _ => induction marked.2

/-- A delivery of the store calls what it has listed. -/
theorem tell (engine : Engine σ) (id : Identifier) (change : Change) :
    Faithful start
      (do
        let world ← (get : Run σ (World σ))
        let delivery ← Chronicled.list ((world.store.bus.subscriptions id).map (·.key))
        Chronicled.deliver engine responder write change
          (fun key => note (.called delivery key)) (world.store.bus.subscriptions id) :
        Chronicled σ Unit)
      (do
        let world ← get
        engine.deliver responder change (world.store.bus.listeners id)) := by
  -- once the list is recorded, the delivery goes on from there
  have told (world : World σ) (events : List Event) :
      Faithful (events ++ [.listed ((world.store.bus.subscriptions id).map (·.key))])
        (Chronicled.deliver engine responder write change
          (fun key => note (.called events.length key)) (world.store.bus.subscriptions id))
        (engine.deliver responder change (world.store.bus.listeners id)) := by
    refine deliver reads writes change fun subscription member =>
      called ?_ (List.mem_map_of_mem member)
    rw [List.getElem?_append_right (Nat.le_refl _), Nat.sub_self]
    rfl
  have fits {world : World σ} {events : List Event} (fits : world.store.Fits events) :
      world.store.Fits (events ++ [.listed ((world.store.bus.subscriptions id).map (·.key))]) :=
    fits.concat (fun _ _ same => nomatch same) (fun _ same => nomatch same)
  refine ⟨fun world events => (told world events).erases world _, fun world events => ?_,
    fun world events _ coherent fitsNow => ?_, fun world events value after _ fitsNow ran => ?_⟩
  · exact (List.prefix_append events _).trans ((told world events).grows world _)
  · refine (told world events).coherent world _ (List.prefix_refl _) (coherent.concat ?_)
      (fits fitsNow)
    intro key member
    rcases List.mem_map.mp member with ⟨subscription, isHeld, rfl⟩
    exact fitsNow.not_gone isHeld
  · exact (told world events).fits world _ value after (List.prefix_refl _) (fits fitsNow) ran

theorem writeEntry (record : NameRecord σ) (update : Update) (operand : Binary64) :
    Faithful start (Chronicled.writeEntry engine responder write record update operand)
      (engine.writeEntry responder record update operand) := by
  have steady := tolerant_undisturbed.toSteady (σ := σ)
  have values {change : Store σ → Binary64 × Store σ}
      (keysOf : ∀ store watch, (change store).2.keysOf watch = store.keysOf watch)
      (bus : ∀ store, (change store).2.bus = store.bus) :
      Faithful start (liftM (Run.changeStore change) : Chronicled σ Binary64)
        (Run.changeStore change) :=
    .lift (Run.respects_changeStore fun world => .of_eq (keysOf world.store) (bus world.store))
  have touched : (Run.changeStore fun store => ((), store.touch record) : Run σ Unit).Respects
      Undisturbed :=
    Run.respects_changeStore fun world =>
      .of_eq (world.store.keysOf_touch record) (world.store.bus_touch record)
  refine (Faithful.lift touched).bind fun _ => ?_
  split
  · exact .pure 0
  · cases record.setHook with
    | some hook =>
        refine (play reads writes (hook record.id update operand)).bind fun outcome => ?_
        cases outcome with
        | ok retained => exact values (fun _ _ => rfl) fun _ => rfl
        | error message =>
            exact (Faithful.lift (steady.ofReport _)).bind fun _ =>
              (Faithful.lift steady.ofStore).bind fun _ => .pure _
    | none =>
        refine values (fun store watch => ?_) fun store => ?_
        · split <;> rfl
        · split <;> rfl

theorem writeOnce (id : Identifier) (update : Update) (operand : Binary64) :
    Faithful start (Chronicled.writeOnce engine responder write id update operand)
      (engine.writeOnce responder id update operand) := by
  have steady := tolerant_undisturbed.toSteady (σ := σ)
  unfold Engine.writeOnce Chronicled.writeOnce
  cases known : engine.registry.record? id with
  | none => exact (Faithful.lift (steady.ofReport _)).bind fun _ => .pure 0
  | some record =>
      let change : Change := ⟨id, update, operand⟩
      have toldFirst (world : World σ) : Faithful start
          (Chronicled.deliver engine responder write change (fun _ => Pure.pure ())
            (world.bus.subscriptions id))
          (engine.deliver responder change (world.bus.listeners id)) :=
        deliver reads writes change fun _ _ => .pure ()
      have tells (retained : Binary64) := (Faithful.lift steady.ofGet).bind fun world =>
        (toldFirst world).bind fun _ => (tell reads writes engine id change).bind fun _ =>
          Faithful.pure retained
      cases ordered : id.isOrdered with
      | true =>
          refine (Faithful.lift (Run.respects_changeStore fun world => ?_)).bind fun retained => ?_
          · rw [Store.updateDense_snd]
            exact .of_eq (fun _ => rfl) rfl
          · exact tells retained
      | false => exact (writeEntry reads writes record update operand).bind tells

end Rules

/-- However deep its calls are nested, the chronicle of a write is faithful to it. -/
theorem ofWrite (engine : Engine σ) (depth : Nat) (id : Identifier) (update : Update)
    (operand : Binary64) :
    Faithful start (Chronicled.write engine depth id update operand)
      ((engine.respond depth).write id update operand) := by
  induction depth generalizing start id update operand with
  | zero => exact .lift fun _ _ _ outcome => nomatch outcome
  | succ depth induction =>
      exact writeOnce (engine.read_respects tolerant_undisturbed Undisturbed.of_store depth)
        (fun _ => induction) id update operand

end Chronicled.Faithful

/-- The chronicle of a script is faithful to what the script does. -/
theorem Script.chronicle_faithful (engine : Engine σ) (depth : Nat) (script : Script σ access) :
    Chronicled.Faithful [] (script.chronicle engine depth)
      (script.play engine (engine.respond depth)) :=
  .play (engine.read_respects tolerant_undisturbed Undisturbed.of_store depth)
    (fun _ => .ofWrite engine depth) script

/-! ## Histories -/

namespace Store

/-- Scripts are carried out on a store one after another, and what happens to its
subscriptions is recorded. Whatever there is beside the store may be anything at the start
of each script. -/
inductive Recorded (engine : Engine σ) : List Event → Store σ → Prop
  | new (owner : Option Owner) : Recorded engine [] (.new engine.registry owner)
  | play {events more : List Event} {world after : World σ} {outcome : Except String Binary64}
      (script : Script σ access) (depth : Nat) : Recorded engine events world.store →
      script.chronicle engine depth world events = (some (outcome, after), more) →
      Recorded engine more after.store

namespace Recorded

variable {engine : Engine σ} {events : List Event} {store : Store σ}

theorem sound (recorded : Recorded engine events store) :
    Coherent events ∧ store.Fits events := by
  induction recorded with
  | new owner => exact ⟨Event.coherent_nil, .new engine.registry owner⟩
  | @play _ events more world after outcome script depth _ ran induction =>
      have faithful := script.chronicle_faithful engine depth
      have played := faithful.erases world events
      rw [ran] at played
      have coherent := faithful.coherent world events (List.nil_prefix) induction.1 induction.2
      have fits := faithful.fits world events outcome after (List.nil_prefix) induction.2
        played.symm
      rw [ran] at coherent fits
      exact ⟨coherent, fits⟩

/-- A script is carried out on a store that has any history, and it may have a result or
not. Once a watch has been ended, no delivery takes a list with one of its subscriptions,
and one that calls such a subscription has taken its list before the watch was ended. This
holds of the subscriptions that the watch had made by then, also if it begins again. -/
theorem calls_after_end {world : World σ} (recorded : Recorded engine events world.store)
    (script : Script σ access) (depth : Nat) :
    (script.chronicle engine depth world events).1 =
      script.play engine (engine.respond depth) world ∧
    events <+: (script.chronicle engine depth world events).2 ∧
    ∀ earlier watch later, (script.chronicle engine depth world events).2 =
        earlier ++ .ended watch :: later →
      ∀ keys, .begun watch keys ∈ earlier → ∀ key ∈ keys,
        (∀ taken, .listed taken ∈ later → key ∉ taken) ∧
        ∀ delivery, .called delivery key ∈ later →
          ∃ taken, earlier[delivery]? = some (.listed taken) ∧ key ∈ taken := by
  have faithful := script.chronicle_faithful engine depth
  refine ⟨faithful.erases world events, faithful.grows world events, ?_⟩
  intro earlier watch later whole keys begun key member
  have coherent := faithful.coherent world events List.nil_prefix recorded.sound.1
    recorded.sound.2
  rw [whole] at coherent
  exact ⟨fun taken listed => coherent.not_listed begun member listed,
    fun delivery called => coherent.listed_before begun member called⟩

/-! ### A watch that is ended while it is told -/

end Recorded

namespace Overtaken

open Unattended (engine name station start)

/-- The condition `x > 0`. -/
def condition : ConditionRule :=
  ⟨⟨0⟩, .compare (.name ⟨name, "x"⟩) .greater (.constant 0)⟩

/-- Ends the watch of the condition and counts ten if it was on. -/
def cancel : Listener Nat := fun _ =>
  .unwatch station condition.id fun ended =>
    .host (fun count => if ended then count + 10 else count) fun _ => .done

/-- The listener that ends the watch is subscribed first. The watch counts one, and then the
condition comes to hold. -/
def script : Script Nat .writing :=
  .subscribe .store name cancel fun _ =>
    .watch station condition (.host (· + 1) fun _ => .done) (.write name .set 1 fun _ => .done)

def chronicle : List Event :=
  [.begun (condition.watchAt station) [⟨1⟩], .listed [⟨0⟩, ⟨1⟩], .called 1 ⟨0⟩,
    .ended (condition.watchAt station), .called 1 ⟨1⟩]

/-- The count of the host program and the chronicle in the end. -/
theorem run : (script.chronicle engine 2 start []).1.map (·.2.host) = some 11 ∧
    (script.chronicle engine 2 start []).2 = chronicle := by
  decide +kernel

end Overtaken

open Overtaken
open Unattended (engine station start)

theorem Recorded.calls_after_end_overtaken :
    Recorded engine [] start.store ∧
    ∃ earlier later, (script.chronicle engine 2 start []).2 =
        earlier ++ .ended (condition.watchAt station) :: later ∧
      .begun (condition.watchAt station) [⟨1⟩] ∈ earlier ∧ .called 1 ⟨1⟩ ∈ later ∧
      ∃ taken, earlier[1]? = some (.listed taken) ∧ ⟨1⟩ ∈ taken := by
  have recorded : Recorded engine [] start.store := .new none
  have whole : (script.chronicle engine 2 start []).2 =
      chronicle.take 3 ++ .ended (condition.watchAt station) :: [.called 1 ⟨1⟩] :=
    Overtaken.run.2
  have called : Event.called 1 ⟨1⟩ ∈ [Event.called 1 ⟨1⟩] := List.mem_singleton_self _
  have ended := (recorded.calls_after_end script 2).2.2 _ _ _ whole [⟨1⟩] List.mem_cons_self ⟨1⟩
    List.mem_cons_self
  exact ⟨recorded, _, _, whole, List.mem_cons_self, called, ended.2 1 called⟩

/-- The callback of the watch counts although the watch has been ended before and has not
begun again. -/
theorem Recorded.called_after_end :
    ∃ after : World Nat, Recorded engine chronicle after.store ∧ after.host = 11 ∧
      ∃ earlier later, chronicle = earlier ++ .ended (condition.watchAt station) :: later ∧
        .begun (condition.watchAt station) [⟨1⟩] ∈ earlier ∧ .called 1 ⟨1⟩ ∈ later ∧
        ∀ keys, .begun (condition.watchAt station) keys ∉ later := by
  rcases Option.map_eq_some_iff.mp Overtaken.run.1 with ⟨⟨outcome, after⟩, ran, counted⟩
  have recorded : Recorded engine chronicle after.store := by
    have played : script.chronicle engine 2 start [] = (some (outcome, after), chronicle) :=
      Prod.ext ran Overtaken.run.2
    exact .play script 2 (.new none) played
  refine ⟨after, recorded, counted, chronicle.take 3, [.called 1 ⟨1⟩], rfl, List.mem_cons_self,
    List.mem_singleton_self _, fun keys begun => ?_⟩
  cases List.mem_singleton.mp begun

end Store

end NumericRules
