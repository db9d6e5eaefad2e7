import NumericRules.Proofs.OrdinaryNames
import NumericRules.Proofs.Quiet

/-! # Deliveries

A write keeps its value first and then tells its listeners: those of the engine, and
after them those of the store. Each list is taken when its turn comes, so what the
listeners do to it does not matter any more. Whatever they do, they are called one after
another, and the answer of the write is the value it kept before any of them.
-/

namespace NumericRules

/-! ## The order of subscriptions -/

/-- The subscriptions of each identifier stand in the order in which they were made: keys
are counted up. -/
structure Bus.InOrder (bus : Bus σ) : Prop where
  ascending : ∀ bucket ∈ bus.buckets,
    bucket.subscriptions.Pairwise fun earlier later => earlier.key.number < later.key.number
  counted : ∀ bucket ∈ bus.buckets, ∀ subscription ∈ bucket.subscriptions,
    subscription.key.number < bus.nextKey

namespace Bus.InOrder

variable {bus : Bus σ}

theorem new : InOrder ({} : Bus σ) := ⟨by simp, by simp⟩

theorem subscriptions (inOrder : bus.InOrder) (id : Identifier) :
    (bus.subscriptions id).Pairwise fun earlier later =>
      earlier.key.number < later.key.number := by
  unfold Bus.subscriptions
  split
  · rename_i bucket found
    exact inOrder.ascending bucket (List.mem_of_find?_eq_some found)
  · exact .nil

/-- The buckets hold no more than others did. -/
theorem fewer (inOrder : bus.InOrder) {buckets : List (Bucket σ)}
    (parts : ∀ bucket ∈ buckets, ∃ whole ∈ bus.buckets,
      bucket.subscriptions.Sublist whole.subscriptions) :
    InOrder { bus with buckets } where
  ascending bucket member := by
    rcases parts bucket member with ⟨whole, known, sublist⟩
    exact (inOrder.ascending whole known).sublist sublist
  counted bucket member subscription inside := by
    rcases parts bucket member with ⟨whole, known, sublist⟩
    exact inOrder.counted whole known subscription (sublist.subset inside)

theorem mem_insert {id : Identifier} {subscription : Subscription σ} {buckets : List (Bucket σ)}
    {bucket : Bucket σ} (member : bucket ∈ insert id subscription buckets) :
    bucket ∈ buckets ∨ bucket = ⟨id, [subscription]⟩ ∨
      ∃ before ∈ buckets, bucket = ⟨id, before.subscriptions ++ [subscription]⟩ := by
  induction buckets with
  | nil => exact .inr (.inl (List.mem_singleton.mp member))
  | cons first rest induction =>
      unfold insert at member
      split at member
      · rcases List.mem_cons.mp member with rfl | inRest
        · exact .inr (.inr ⟨first, List.mem_cons_self, rfl⟩)
        · exact .inl (List.mem_cons_of_mem _ inRest)
      · rcases List.mem_cons.mp member with rfl | inRest
        · exact .inl List.mem_cons_self
        · rcases induction inRest with old | new | ⟨before, known, same⟩
          · exact .inl (List.mem_cons_of_mem _ old)
          · exact .inr (.inl new)
          · exact .inr (.inr ⟨before, List.mem_cons_of_mem _ known, same⟩)

theorem add (inOrder : bus.InOrder) (id : Identifier) (callback : Listener σ) :
    (bus.add id callback).2.InOrder where
  ascending bucket member := by
    rcases mem_insert member with old | rfl | ⟨before, known, rfl⟩
    · exact inOrder.ascending bucket old
    · exact List.pairwise_singleton _ _
    · refine List.pairwise_append.mpr
        ⟨inOrder.ascending before known, List.pairwise_singleton _ _, fun earlier inside later new => ?_⟩
      rw [List.mem_singleton.mp new]
      exact inOrder.counted before known earlier inside
  counted bucket member subscription inside := by
    have later {number : Nat} (less : number < bus.nextKey) :
        number < (bus.add id callback).2.nextKey := Nat.lt_succ_of_lt less
    have newest : bus.nextKey < (bus.add id callback).2.nextKey := Nat.lt_succ_self _
    rcases mem_insert member with old | rfl | ⟨before, known, rfl⟩
    · exact later (inOrder.counted bucket old subscription inside)
    · rw [List.mem_singleton.mp inside]
      exact newest
    · rcases List.mem_append.mp inside with old | new
      · exact later (inOrder.counted before known subscription old)
      · rw [List.mem_singleton.mp new]
        exact newest

theorem mem_discard {id : Identifier} {key : SubscriptionKey} {buckets : List (Bucket σ)}
    {bucket : Bucket σ} (member : bucket ∈ discard id key buckets) :
    ∃ whole ∈ buckets, bucket.subscriptions.Sublist whole.subscriptions := by
  induction buckets with
  | nil => cases member
  | cons first rest induction =>
      unfold discard at member
      have inTail (inRest : bucket ∈ rest) : ∃ whole ∈ first :: rest,
          bucket.subscriptions.Sublist whole.subscriptions :=
        ⟨bucket, List.mem_cons_of_mem _ inRest, List.Sublist.refl _⟩
      split at member
      · split at member
        · exact inTail member
        · rename_i kept _
          rcases List.mem_cons.mp member with rfl | inRest
          · exact ⟨first, List.mem_cons_self, List.filter_sublist⟩
          · exact inTail inRest
      · rcases List.mem_cons.mp member with rfl | inRest
        · exact ⟨bucket, List.mem_cons_self, List.Sublist.refl _⟩
        · rcases induction inRest with ⟨whole, known, sublist⟩
          exact ⟨whole, List.mem_cons_of_mem _ known, sublist⟩

theorem remove (inOrder : bus.InOrder) (id : Identifier) (key : SubscriptionKey) :
    (bus.remove id key).2.InOrder :=
  inOrder.fewer fun _ member => mem_discard member

theorem removeAll (inOrder : bus.InOrder) (id : Identifier) : (bus.removeAll id).2.InOrder :=
  inOrder.fewer fun bucket member =>
    ⟨bucket, (List.mem_filter.mp member).1, List.Sublist.refl _⟩

theorem clear (inOrder : bus.InOrder) : bus.clear.InOrder :=
  inOrder.fewer fun _ member => nomatch member

end Bus.InOrder

namespace Store

variable {store : Store σ}

theorem inOrder_subscribeEach (inOrder : store.bus.InOrder) (callback : Listener σ)
    (ids : List Identifier) : (store.subscribeEach callback ids).2.bus.InOrder := by
  induction ids generalizing store with
  | nil => exact inOrder
  | cons id rest induction =>
      have added : ({ store with bus := (store.bus.add id callback).2 } : Store σ).bus.InOrder :=
        inOrder.add id callback
      exact induction added

theorem inOrder_unsubscribeEach (inOrder : store.bus.InOrder)
    (keys : List (Identifier × SubscriptionKey)) : (store.unsubscribeEach keys).bus.InOrder := by
  induction keys generalizing store with
  | nil => exact inOrder
  | cons entry rest induction =>
      have removed : ({ store with bus := (store.bus.remove entry.1 entry.2).2 } :
          Store σ).bus.InOrder := inOrder.remove entry.1 entry.2
      exact induction removed

theorem inOrder_unwatch (inOrder : store.bus.InOrder) (station : StationId)
    (condition : RuleId) : (store.unwatch station condition).2.bus.InOrder := by
  unfold unwatch
  split
  · exact inOrder
  · rename_i keys _
    have forgotten : (store.updateLog station fun log =>
        { log with watches := log.watches.filter (·.1 ≠ condition) }).bus.InOrder := inOrder
    exact inOrder_unsubscribeEach forgotten keys

end Store

namespace World

/-- At either tier the subscriptions stand in the order in which they were made. -/
structure InOrder (world : World σ) : Prop where
  engine : world.bus.InOrder
  store : world.store.bus.InOrder

def KeepsOrder (before after : World σ) : Prop := before.InOrder → after.InOrder

theorem keepsOrder_changeBus {change : Bus σ → α × Bus σ}
    (kept : ∀ bus : Bus σ, bus.InOrder → (change bus).2.InOrder) (tier : Tier) :
    (Run.changeBus tier change).Respects KeepsOrder := by
  intro world value after outcome inOrder
  cases outcome
  cases tier with
  | engine => exact ⟨kept _ inOrder.engine, inOrder.store⟩
  | store => exact ⟨inOrder.engine, kept _ inOrder.store⟩

theorem keepsOrder_changeStore {change : Store σ → α × Store σ}
    (kept : ∀ store : Store σ, store.bus.InOrder → (change store).2.bus.InOrder) :
    (Run.changeStore change).Respects KeepsOrder :=
  Run.respects_changeStore fun world inOrder => ⟨inOrder.engine, kept world.store inOrder.store⟩

theorem keepsOrder_of_bus (world : World σ) {store : Store σ} (bus : store.bus = world.store.bus) :
    KeepsOrder world { world with store } :=
  fun inOrder => ⟨inOrder.engine, bus ▸ inOrder.store⟩

/-- Whatever scripts do, the order is kept. -/
theorem enduring_keepsOrder (engine : Engine σ) : Run.Enduring engine (KeepsOrder (σ := σ)) where
  trans earlier later inOrder := later (earlier inOrder)
  beside store bus inOrder := ⟨bus ▸ inOrder.engine, store ▸ inOrder.store⟩
  subscribe tier id callback := keepsOrder_changeBus (fun _ inOrder => inOrder.add id callback) tier
  unsubscribe tier id key := keepsOrder_changeBus (fun _ inOrder => inOrder.remove id key) tier
  unsubscribeAll tier id := keepsOrder_changeBus (fun _ inOrder => inOrder.removeAll id) tier
  clear tier := keepsOrder_changeBus (fun _ inOrder => inOrder.clear) tier
  produce _ world _ _ := keepsOrder_of_bus world rfl
  reset range world value after outcome := by
    rcases Run.reset_eq range world with ⟨_, _, run⟩
    cases outcome.symm.trans run
    exact keepsOrder_of_bus world rfl
  watch station condition callback world value after outcome inOrder := by
    cases watching : world.store.isWatching station condition.id with
    | true =>
        cases outcome.symm.trans (Run.watch_again callback watching)
        exact inOrder
    | false =>
        rcases Run.watch_new callback watching with ⟨_, run, store, bus⟩
        cases outcome.symm.trans run
        refine ⟨bus ▸ inOrder.engine, ?_⟩
        rw [store]
        exact Store.inOrder_subscribeEach inOrder.store _ _
  unwatch station condition :=
    keepsOrder_changeStore fun _ inOrder => Store.inOrder_unwatch inOrder station condition
  elsewhere kept inOrder :=
    ⟨(kept ⟨inOrder.engine, .new⟩).engine, inOrder.store⟩

end World

namespace Engine

variable {engine : Engine σ} {responder : Responder σ}

theorem keep_keepsOrder (answers : responder.Respects World.KeepsOrder) (record : NameRecord σ)
    (update : Update) (operand : Binary64) :
    (engine.keep responder record update operand).Respects World.KeepsOrder :=
  keep_respects (World.enduring_keepsOrder engine).toSteady
    (fun world _ bus _ => world.keepsOrder_of_bus bus)
    fun _ _ => Script.play_respects (World.enduring_keepsOrder engine) answers _

theorem deliver_keepsOrder (answers : responder.Respects World.KeepsOrder) (change : Change)
    (listeners : List (Listener σ)) :
    (engine.deliver responder change listeners).Respects World.KeepsOrder :=
  deliver_respects (World.enduring_keepsOrder engine).toSteady fun _ _ =>
    Script.play_respects (World.enduring_keepsOrder engine) answers _

/-- However deep its calls are nested, a request keeps the order of subscriptions. -/
theorem respond_keepsOrder (engine : Engine σ) (depth : Nat) :
    (engine.respond depth).Respects World.KeepsOrder := by
  have enduring := World.enduring_keepsOrder engine
  have steady := enduring.toSteady
  induction depth with
  | zero => exact fun _ _ _ _ outcome => nomatch outcome
  | succ depth induction =>
      intro request
      cases request with
      | read id =>
          exact readOnce_respects steady fun _ _ _ _ => Script.play_respects enduring induction _
      | write id update operand =>
          change (engine.writeOnce (engine.respond depth) id update operand).Respects _
          cases known : engine.registry.record? id with
          | none =>
              simp only [writeOnce, known]
              exact steady.ofBind (steady.ofReport _) fun _ => steady.ofPure 0
          | some record =>
              rw [writeOnce_eq known]
              refine steady.ofBind (keep_keepsOrder induction record update operand) fun _ => ?_
              refine steady.ofBind steady.ofGet fun _ => ?_
              refine steady.ofBind (deliver_keepsOrder induction _ _) fun _ => ?_
              refine steady.ofBind steady.ofGet fun _ => ?_
              exact steady.ofBind (deliver_keepsOrder induction _ _) fun _ => steady.ofPure _

end Engine

/-! ## Calls of listeners -/

/-- A listener that is called: the state in which it is called, how it ends and the state
it leaves. -/
structure Call (σ : Type) where
  callback : Listener σ
  change : Change
  found : World σ
  outcome : Except String Binary64
  left : World σ

namespace Call

/-- A call that failed is logged, and nothing else becomes of the failure. -/
def after (call : Call σ) : World σ :=
  match call.outcome with
  | .ok _ => call.left
  | .error message =>
      { call.left with
        log := call.left.log ++ [.listenerFailed call.change.id call.change.update message] }

/-- Listeners that are called one after another, each in the state that the one before has
left. -/
inductive Chain (engine : Engine σ) (responder : Responder σ) : World σ → List (Call σ) →
    World σ → Prop
  | none (world : World σ) : Chain engine responder world [] world
  | next (call : Call σ) {rest : List (Call σ)} {last : World σ} :
      (call.callback call.change).play engine responder call.found =
        some (call.outcome, call.left) →
      Chain engine responder call.after rest last →
      Chain engine responder call.found (call :: rest) last

end Call

namespace Engine

variable {engine : Engine σ} {responder : Responder σ}

/-- Delivering a change is calling its listeners in order. -/
theorem deliver_eq_some {change : Change} {listeners : List (Listener σ)}
    {world after : World σ} :
    engine.deliver responder change listeners world = some ((), after) ↔
      ∃ calls, Call.Chain engine responder world calls after ∧
        calls.map (·.callback) = listeners ∧ ∀ call ∈ calls, call.change = change := by
  constructor
  · intro delivered
    induction listeners generalizing world with
    | nil =>
        cases delivered
        exact ⟨[], .none _, rfl, List.forall_mem_nil _⟩
    | cons listener rest induction =>
        rcases Run.bind_eq_some delivered with ⟨outcome, left, played, remaining⟩
        let call : Call σ := ⟨listener, change, world, outcome, left⟩
        have further : engine.deliver responder change rest call.after = some ((), after) := by
          cases outcome with
          | ok value => exact remaining
          | error message => exact remaining
        rcases induction further with ⟨calls, chain, called, changes⟩
        refine ⟨call :: calls, .next call played chain, congrArg (listener :: ·) called, ?_⟩
        exact List.forall_mem_cons.mpr ⟨rfl, changes⟩
  · rintro ⟨calls, chain, rfl, changes⟩
    induction chain with
    | none => rfl
    | next call played _ induction =>
        rw [List.forall_mem_cons] at changes
        have further := induction changes.2
        rcases call with ⟨listener, change', found, outcome, left⟩
        cases changes.1
        rw [List.map_cons, deliver, Run.bind_apply, played]
        cases outcome with
        | ok value => exact further
        | error message => exact further

/-! ## What a write keeps -/

/-- The value that a write retains, and the state it leaves before anyone is told. -/
inductive Wrote (engine : Engine σ) (responder : Responder σ) (record : NameRecord σ)
    (update : Update) (operand : Binary64) (world : World σ) : Binary64 → World σ → Prop
  /-- An ordered name keeps the update at its place. -/
  | place : record.id.isOrdered = true →
      Wrote engine responder record update operand world
        (record.bounds.clamp (update.apply (world.store.denseValue record.id) operand))
        { world with store := (world.store.updateDense record update operand).2 }
  /-- An event keeps nothing. -/
  | event : record.id.isOrdered = false → record.cycle = .event →
      Wrote engine responder record update operand world 0
        { world with store := world.store.touch record }
  /-- A set hook decides what is kept. -/
  | hooked {hook : SetHook σ} {retained : Binary64} {left : World σ} :
      record.id.isOrdered = false → record.cycle ≠ .event → record.setHook = some hook →
      (hook record.id update operand).play engine responder
        { world with store := world.store.touch record } = some (.ok retained, left) →
      Wrote engine responder record update operand world retained
        { left with store := left.store.retain record.id retained }
  /-- After a set hook that fails, what is stored stays. -/
  | refused {hook : SetHook σ} {message : String} {left : World σ} :
      record.id.isOrdered = false → record.cycle ≠ .event → record.setHook = some hook →
      (hook record.id update operand).play engine responder
        { world with store := world.store.touch record } = some (.error message, left) →
      Wrote engine responder record update operand world (left.store.stored record.id)
        { left with log := left.log ++ [.setHookFailed record.id record.name message] }
  /-- A name that is only read through a hook keeps what is stored. -/
  | readOnly {hook : GetHook σ} : record.id.isOrdered = false → record.cycle ≠ .event →
      record.setHook = none → record.getHook = some hook →
      Wrote engine responder record update operand world (world.store.stored record.id)
        { world with store := world.store.touch record }
  /-- Any other name keeps the update. -/
  | plain : record.id.isOrdered = false → record.Plain →
      Wrote engine responder record update operand world
        (record.bounds.clamp (update.apply (world.store.stored record.id) operand))
        { world with store := world.store.assign record update operand }

section Wrote

variable {record : NameRecord σ} {update : Update} {operand retained : Binary64}
  {world written : World σ}

theorem updateDense_fst {store : Store σ} (inRange : record.id.raw - 1 < store.dense.size) :
    (store.updateDense record update operand).1 =
      record.bounds.clamp (update.apply (store.denseValue record.id) operand) := by
  have found : store.dense[record.id.raw - 1]? = some store.dense[record.id.raw - 1] :=
    Array.getElem?_eq_getElem inRange
  simp only [Store.updateDense, Store.denseValue, found, Option.getD_some]

theorem keep_place (ordered : record.id.isOrdered = true)
    (inRange : record.id.raw - 1 < world.store.dense.size) :
    engine.keep responder record update operand world =
      some (record.bounds.clamp (update.apply (world.store.denseValue record.id) operand),
        { world with store := (world.store.updateDense record update operand).2 }) := by
  rw [keep, if_pos ordered, ← updateDense_fst inRange]
  rfl

theorem keep_typed (typed : record.id.isOrdered = false) :
    engine.keep responder record update operand =
      engine.writeEntry responder record update operand := by
  rw [keep, typed, if_neg Bool.false_ne_true]

/-- An entry is touched before it is written. -/
theorem touch_run : (Run.changeStore fun store => ((), store.touch record) : Run σ Unit) world =
    some ((), { world with store := world.store.touch record }) := rfl

theorem Wrote.of_writeEntry (typed : record.id.isOrdered = false)
    (kept : engine.writeEntry responder record update operand world = some (retained, written)) :
    engine.Wrote responder record update operand world retained written := by
  rw [writeEntry, Run.bind_apply, touch_run] at kept
  by_cases event : record.cycle = .event
  · simp only [if_pos event] at kept
    cases kept
    exact .event typed event
  simp only [if_neg event] at kept
  cases set : record.setHook with
  | some hook =>
      simp only [set] at kept
      rcases Run.bind_eq_some kept with ⟨outcome, left, played, kept⟩
      cases outcome with
      | ok value =>
          cases kept
          exact .hooked typed event set played
      | error message =>
          cases kept
          exact .refused typed event set played
  | none =>
      simp only [set] at kept
      cases get : record.getHook with
      | some hook =>
          simp only [get, Option.isSome_some, if_true] at kept
          cases kept
          rw [Store.stored_touch]
          exact .readOnly typed event set get
      | none =>
          simp only [get, Option.isSome_none, Bool.false_eq_true, if_false] at kept
          cases kept
          have wrote : engine.Wrote responder record update operand world _ _ :=
            .plain typed ⟨event, get, set⟩
          simpa only [Store.assign, Store.stored_touch] using wrote

theorem Wrote.kept (wrote : engine.Wrote responder record update operand world retained written)
    (places : record.id.isOrdered = true → record.id.raw - 1 < world.store.dense.size) :
    engine.keep responder record update operand world = some (retained, written) := by
  have stays : (world.store.touch record).stored record.id = world.store.stored record.id :=
    Store.stored_touch record.id
  cases wrote with
  | place ordered => exact keep_place ordered (places ordered)
  | event typed event =>
      rw [keep_typed typed, writeEntry, Run.bind_apply, touch_run]
      simp only [if_pos event]
      rfl
  | hooked typed lasting set played | refused typed lasting set played =>
      rw [keep_typed typed, writeEntry, Run.bind_apply, touch_run]
      simp only [if_neg lasting, set]
      rw [Run.bind_apply, played]
      rfl
  | readOnly typed lasting set get =>
      rw [keep_typed typed, writeEntry, Run.bind_apply, touch_run]
      simp only [if_neg lasting, set, get]
      rw [← stays]
      rfl
  | plain typed plain =>
      rw [keep_typed typed, writeEntry, Run.bind_apply, touch_run]
      simp only [if_neg plain.retained, plain.setHook, plain.getHook]
      rw [← stays]
      rfl

/-- A write keeps one of these values, and no other. -/
theorem keep_eq_some (places : record.id.isOrdered = true →
      record.id.raw - 1 < world.store.dense.size) :
    engine.keep responder record update operand world = some (retained, written) ↔
      engine.Wrote responder record update operand world retained written := by
  refine ⟨fun kept => ?_, fun wrote => wrote.kept places⟩
  cases ordered : record.id.isOrdered with
  | true =>
      cases kept.symm.trans (keep_place ordered (places ordered))
      exact .place ordered
  | false =>
      rw [keep_typed ordered] at kept
      exact .of_writeEntry ordered kept

/-- What is retained is the value the store has when the write is complete. -/
theorem Wrote.retained_eq (wrote : engine.Wrote responder record update operand world retained
      written) (sound : world.store.Sound engine.registry) (placed : engine.registry.Placed)
    (known : engine.registry.record? record.id = some record)
    (answers : responder.Edits engine.registry) :
    retained = written.store.valueOf record.id := by
  cases wrote with
  | place ordered =>
      rw [Store.valueOf, if_pos ordered,
        Store.denseValue_updateDense (sound.place_lt placed known ordered)]
  | event typed event =>
      rw [Store.valueOf, typed, if_neg Bool.false_ne_true, Store.stored_touch]
      cases found : world.store.entry? record.id with
      | none => rw [Store.stored, found]
      | some entry =>
          rcases Store.entry?_eq_some found with ⟨member, same⟩
          have isRecord : entry.record = record :=
            Option.some.inj ((same ▸ sound.known entry member).symm.trans known)
          rw [Store.stored, found]
          exact ((sound.kept entry member).event (isRecord ▸ event)).symm
  | @hooked hook _ left typed lasting set played =>
      have edited := Script.play_edits answers _ _ _ _ played
      have touched : record.id ∈ (world.store.touch record).touched := by
        rw [← Store.entry?_isSome, Store.entry?_touch, if_pos rfl, Option.isSome_or,
          Option.isSome_some, Bool.or_true]
      have present : (left.store.entry? record.id).isSome = true :=
        Store.entry?_isSome.mpr ((Store.Extends.edited edited).touched.subset touched)
      rw [Store.valueOf, typed, if_neg Bool.false_ne_true, Store.stored_retain_self present]
  | refused typed => rw [Store.valueOf, typed, if_neg Bool.false_ne_true]
  | readOnly typed => rw [Store.valueOf, typed, if_neg Bool.false_ne_true, Store.stored_touch]
  | plain typed =>
      rw [Store.valueOf, typed, if_neg Bool.false_ne_true, Store.stored_assign, if_pos rfl]

end Wrote

end Engine

/-! ## Writes and their deliveries -/

/-- How a write goes on once its value is kept: the listeners of the engine are called, and
then those of the store. -/
structure Delivery (σ : Type) where
  written : World σ
  atEngine : List (Call σ)
  told : World σ
  atStore : List (Call σ)

/-- Each listener of an identifier is called once, in the order of the list that its tier has
when its turn comes, and is told of the same change. -/
structure Delivery.Tells (delivery : Delivery σ) (engine : Engine σ) (responder : Responder σ)
    (change : Change) (after : World σ) : Prop where
  engineCalls : Call.Chain engine responder delivery.written delivery.atEngine delivery.told
  storeCalls : Call.Chain engine responder delivery.told delivery.atStore after
  engineListeners : delivery.atEngine.map (·.callback) =
    delivery.written.bus.listeners change.id
  storeListeners : delivery.atStore.map (·.callback) =
    delivery.told.store.bus.listeners change.id
  changes : ∀ call ∈ delivery.atEngine ++ delivery.atStore, call.change = change

namespace Engine

variable {engine : Engine σ}

theorem writeOnce_eq_some {responder : Responder σ} {record : NameRecord σ} {update : Update}
    {operand retained : Binary64} {world after : World σ}
    (known : engine.registry.record? record.id = some record)
    (places : record.id.isOrdered = true → record.id.raw - 1 < world.store.dense.size) :
    engine.writeOnce responder record.id update operand world = some (retained, after) ↔
      ∃ delivery : Delivery σ,
        engine.Wrote responder record update operand world retained delivery.written ∧
        delivery.Tells engine responder ⟨record.id, update, operand⟩ after := by
  rw [writeOnce_eq known]
  constructor
  · intro outcome
    rcases Run.bind_eq_some outcome with ⟨kept, written, wrote, outcome⟩
    rcases Run.bind_eq_some outcome with ⟨_, _, looked, outcome⟩
    cases looked
    rcases Run.bind_eq_some outcome with ⟨_, told, atEngine, outcome⟩
    rcases Run.bind_eq_some outcome with ⟨_, _, looked, outcome⟩
    cases looked
    rcases Run.bind_eq_some outcome with ⟨_, _, atStore, outcome⟩
    cases outcome
    rcases deliver_eq_some.mp atEngine with ⟨first, engineCalls, engineListeners, engineChanges⟩
    rcases deliver_eq_some.mp atStore with ⟨second, storeCalls, storeListeners, storeChanges⟩
    refine ⟨⟨written, first, told, second⟩, (keep_eq_some places).mp wrote, ?_⟩
    exact ⟨engineCalls, storeCalls, engineListeners, storeListeners,
      List.forall_mem_append.mpr ⟨engineChanges, storeChanges⟩⟩
  · rintro ⟨⟨written, first, told, second⟩, wrote, tells⟩
    have changes := List.forall_mem_append.mp tells.changes
    have atEngine := deliver_eq_some.mpr
      ⟨first, tells.engineCalls, tells.engineListeners, changes.1⟩
    have atStore := deliver_eq_some.mpr
      ⟨second, tells.storeCalls, tells.storeListeners, changes.2⟩
    rw [Run.bind_apply, (keep_eq_some places).mpr wrote]
    dsimp only
    rw [Run.get_bind, Run.bind_apply, atEngine]
    dsimp only
    rw [Run.get_bind, Run.bind_apply, atStore]
    rfl

/-- What a write does, for every store at work and whatever its hooks and listeners do. A
name that is not registered makes no difference but in the log. A registered one keeps a
value, and then exactly the listeners of the engine that are subscribed by that time are
called, followed by the listeners of the store that are subscribed when these are done.
Each is called once with the change that was asked for, in the order of subscription, and
also if others failed. The answer is the value that the store has before the first of
them is called. -/
theorem write_delivers (reachable : engine.registry.Reachable) {world : World σ}
    (reached : world.store.Reached engine) (inOrder : world.InOrder) (depth : Nat)
    (id : Identifier) (update : Update) (operand : Binary64) :
    (engine.registry.record? id = none →
      engine.respond (depth + 1) (.write id update operand) world =
        some (0, { world with log := world.log ++ [.notRegistered id] })) ∧
    ∀ record, engine.registry.record? id = some record → ∀ retained after,
      (engine.respond (depth + 1) (.write id update operand) world = some (retained, after) ↔
        ∃ delivery : Delivery σ,
          engine.Wrote (engine.respond depth) record update operand world retained
            delivery.written ∧
          delivery.Tells engine (engine.respond depth) ⟨id, update, operand⟩ after) ∧
      ∀ delivery : Delivery σ,
        engine.Wrote (engine.respond depth) record update operand world retained
          delivery.written →
        delivery.Tells engine (engine.respond depth) ⟨id, update, operand⟩ after →
          retained = delivery.written.store.valueOf id ∧
          ((delivery.written.bus.subscriptions id).Pairwise fun earlier later =>
            earlier.key.number < later.key.number) ∧
          ((delivery.told.store.bus.subscriptions id).Pairwise fun earlier later =>
            earlier.key.number < later.key.number) := by
  have sound := reached.sound
  refine ⟨fun unknown => ?_, fun record known retained after => ⟨?_, fun delivery wrote tells => ?_⟩⟩
  · change engine.writeOnce (engine.respond depth) id update operand world = _
    simp only [writeOnce, unknown]
    rfl
  · cases record?_id known
    exact writeOnce_eq_some known (sound.place_lt reachable.placed known)
  · cases record?_id known
    have places := sound.place_lt reachable.placed known
    have order := engine.respond_keepsOrder depth
    have written := keep_keepsOrder order record update operand world _ _
      ((keep_eq_some places).mpr wrote) inOrder
    have atEngine := deliver_eq_some.mpr ⟨delivery.atEngine, tells.engineCalls,
      tells.engineListeners, fun call member => tells.changes call (List.mem_append_left _ member)⟩
    have told := deliver_keepsOrder order _ _ _ _ _ atEngine written
    exact ⟨wrote.retained_eq sound reachable.placed known (engine.respond_edits depth),
      written.engine.subscriptions record.id, told.store.subscriptions record.id⟩

end Engine

/-! ### Listeners that write and subscribe again -/

namespace Reentrant

open Store.Unattended (engine name start)

/-- Counts its calls in the state of the host program. -/
def ring : Listener Nat := fun _ => .host (· + 1) fun _ => .done

/-- Subscribes another listener at the store. -/
def recruit : Listener Nat := fun change => .subscribe .store change.id ring fun _ => .done

/-- Fails, the first time after a write of its own. -/
def echo : Listener Nat := fun change => .host (· + 10) fun before =>
  if before < 10 then .write change.id .set 2 fun _ => .fail "echo" else .fail "echo"

def world : World Nat :=
  { start with
    bus := (({} : Bus Nat).add name recruit).2
    store := { start.store with bus := (start.store.bus.add name echo).2 } }

def unknown : Identifier := ⟨0x2000001, Nat.one_ne_zero⟩

/-- The only name that is registered. -/
def record : NameRecord Nat := { id := name, name := "x" }

/-- The state when the value is kept. -/
def written : World Nat := { world with store := world.store.assign record .set 1 }

end Reentrant

open Store.Unattended (engine name) in
open Reentrant in
/-- The listener that the one of the engine subscribes is called, although the listener
before it fails. The answer is 1, and the store has 2 in the end. -/
theorem Engine.write_delivers_reentrant :
    engine.registry.Reachable ∧ world.store.Reached engine ∧ world.InOrder ∧
    engine.registry.record? name = some record ∧
    (∃ after, engine.respond 3 (.write name .set 1) world = some (1, after) ∧
      after.store.stored name = 2 ∧ after.host = 23 ∧
      ∃ delivery : Delivery Nat,
        delivery.Tells engine (engine.respond 2) ⟨name, .set, 1⟩ after ∧
        delivery.written.store.valueOf name = 1 ∧
        delivery.atEngine.map (·.callback) = [recruit] ∧
        delivery.atStore.map (·.callback) = [echo, ring]) ∧
    engine.registry.record? unknown = none ∧
    engine.respond 3 (.write unknown .set 1) world =
      some (0, { world with log := [.notRegistered unknown] }) := by
  have reachable : engine.registry.Reachable := .step _ .empty
  have reached : world.store.Reached engine :=
    ⟨none, .edit .start (.subscribe (.new engine.registry none) name echo)⟩
  have inOrder : world.InOrder := ⟨Bus.InOrder.new.add name recruit, Bus.InOrder.new.add name echo⟩
  have registered := (Engine.write_delivers reachable reached inOrder 2 name .set 1).2 record rfl
  have unregistered := (Engine.write_delivers reachable reached inOrder 2 unknown .set 1).1 rfl
  have run : (engine.respond 3 (.write name .set 1) world).map
      (fun result => (result.1, result.2.store.stored name, result.2.host)) = some (1, 2, 23) := by
    decide +kernel
  rcases Option.map_eq_some_iff.mp run with ⟨⟨retained, after⟩, ran, same⟩
  simp only [Prod.mk.injEq] at same
  rcases same with ⟨rfl, stored, host⟩
  rcases (registered 1 after).1.mp ran with ⟨delivery, wrote, tells⟩
  have kept := ((registered 1 after).2 delivery wrote tells).1
  have places : record.id.isOrdered = true → record.id.raw - 1 < world.store.dense.size :=
    fun ordered => nomatch ordered
  have plain : engine.Wrote (engine.respond 2) record .set 1 world _ written :=
    .plain rfl ⟨by decide, rfl, rfl⟩
  have known : delivery.written = written := by
    have same := ((Engine.keep_eq_some places).mpr wrote).symm.trans
      ((Engine.keep_eq_some places).mpr plain)
    exact congrArg (fun result : Binary64 × World Nat => result.2) (Option.some.inj same)
  refine ⟨reachable, reached, inOrder, rfl, ⟨after, ran, stored, host, delivery, tells, kept.symm,
    ?_, ?_⟩, rfl, unregistered⟩
  · rw [tells.engineListeners, known]
    rfl
  · have atEngine := Engine.deliver_eq_some.mpr ⟨delivery.atEngine, tells.engineCalls,
      tells.engineListeners, fun call member => tells.changes call (List.mem_append_left _ member)⟩
    have recruited : engine.deliver (engine.respond 2) ⟨name, .set, 1⟩ [recruit] written =
        some ((), { written with store := { written.store with
          bus := (written.store.bus.add name ring).2 } }) := rfl
    rw [known] at atEngine
    have told := congrArg (fun result : Unit × World Nat => result.2)
      (Option.some.inj (atEngine.symm.trans recruited))
    rw [tells.storeListeners, show delivery.told = _ from told]
    rfl

end NumericRules
