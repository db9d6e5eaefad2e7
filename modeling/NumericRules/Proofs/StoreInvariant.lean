import NumericRules.Proofs.RegistryHistory
import NumericRules.Proofs.StoreHistory

/-! # What holds of every store

The entries of a store, the lists of its cycles and its places fit each other and the
registry, and its values stay within their bounds. This holds whatever is done to the
store, and also in the middle of it.
-/

namespace NumericRules

/-! ## Ranges -/

namespace Binary64

theorem lt_irrefl (value : Binary64) : ¬value < value := fun less => Int.lt_irrefl _ less.2

theorem not_lt_of_le {left right : Binary64} (atMost : left ≤ right) : ¬right < left :=
  fun less => Int.not_lt.mpr atMost.2 less.2

end Binary64

namespace Bounds

/-- The value is not outside the range. What is not a number is in no order. -/
structure Admits (bounds : Bounds) (value : Binary64) : Prop where
  notAbove : (bounds.greatest != 0) = true → ¬bounds.greatest < value
  notBelow : ¬value < bounds.least

/-- There is no greatest value, or it is not below the least one. -/
def Consistent (bounds : Bounds) : Prop :=
  (bounds.greatest == 0) = true ∨ bounds.least ≤ bounds.greatest

theorem Consistent.admits_clamp {bounds : Bounds} (consistent : bounds.Consistent)
    (value : Binary64) : bounds.Admits (bounds.clamp value) := by
  have inOrder (bounded : (bounds.greatest != 0) = true) :
      ¬bounds.greatest < bounds.least := by
    rcases consistent with unbounded | atMost
    · simp [bne, unbounded] at bounded
    · exact Binary64.not_lt_of_le atMost
  unfold clamp
  split
  · rename_i above
    have bounded := (Bool.and_eq_true_iff.mp above).1
    exact ⟨fun _ => Binary64.lt_irrefl _, inOrder bounded⟩
  · rename_i notAbove
    split
    · exact ⟨inOrder, Binary64.lt_irrefl _⟩
    · rename_i notBelow
      refine ⟨fun bounded above => notAbove ?_, notBelow⟩
      simp [bounded, above]

end Bounds

/-! ## Entries and places -/

/-- An event keeps nothing, and a name without hooks keeps its initial value or one of
its range. -/
structure Entry.Kept (entry : Entry σ) : Prop where
  event : entry.record.cycle = .event → entry.value = 0
  plain : entry.record.Plain → entry.record.bounds.Consistent →
    entry.value = entry.record.bounds.initial ∨ entry.record.bounds.Admits entry.value

theorem Entry.kept_reset (entry : Entry σ) : entry.reset.Kept where
  event event := if_pos event
  plain plain _ := .inl (if_neg plain.retained)

namespace Store

/-- The identifiers with an entry, in the order of their first touch. -/
def touched (store : Store σ) : List Identifier := store.entries.map (·.record.id)

/-- The parts of a store fit each other and the registry. -/
structure Shaped (registry : Registry σ) (store : Store σ) : Prop where
  known : ∀ entry ∈ store.entries, registry.record? entry.record.id = some entry.record
  typed : ∀ entry ∈ store.entries, entry.record.id.isOrdered = false
  nodup : store.touched.Nodup
  listed : ∀ cycle, store.byCycle cycle =
    (store.entries.filter (·.record.cycle = cycle)).map (·.record.id)
  places : store.dense.size = registry.orderedCount

/-- Moreover the values are as they may be. -/
structure Sound (registry : Registry σ) (store : Store σ) : Prop extends
    Shaped registry store where
  kept : ∀ entry ∈ store.entries, entry.Kept

/-! ### What an edit does to the values -/

theorem watch_eq (store : Store σ) (station : StationId) (condition : RuleId)
    (ids : List Identifier) (callback : Listener σ) :
    ∃ bus logs, store.watch station condition ids callback = { store with bus, logs } := by
  rcases subscribeEach_eq store callback ids with ⟨bus, same⟩
  simp only [watch, updateLog, same]
  exact ⟨bus, _, rfl⟩

theorem unwatch_eq (store : Store σ) (station : StationId) (condition : RuleId) :
    ∃ bus logs, (store.unwatch station condition).2 = { store with bus, logs } := by
  unfold unwatch
  split
  · exact ⟨store.bus, store.logs, rfl⟩
  · exact ⟨_, _, (unsubscribeEach_eq _ _).choose_spec⟩

/-- An edit concerns subscriptions and logs only, or it makes an entry, or it changes
the value of a name without hooks or values that may be so changed, or a place. -/
theorem Edit.inversion {registry : Registry σ} {purpose : Purpose}
    {before after : Store σ} (edit : Edit registry purpose before after) :
    (∃ bus logs, after = { before with bus, logs }) ∨
    (∃ record, registry.record? record.id = some record ∧ record.id.isOrdered = false ∧
      ¬record.Plain ∧ after = before.touch record) ∨
    (∃ record update operand, registry.record? record.id = some record ∧
      record.id.isOrdered = false ∧ record.Plain ∧ after = before.assign record update operand) ∨
    (∃ change : Entry σ → Entry σ, (∀ entry, (change entry).record = entry.record) ∧
      (∀ entry, registry.record? entry.record.id = some entry.record → entry.Kept →
        (change entry).Kept) ∧
      after = { before with entries := before.entries.map change }) ∨
    ∃ record update operand, registry.record? record.id = some record ∧
      record.id.isOrdered = true ∧ after = (before.updateDense record update operand).2 := by
  cases edit with
  | touch _ record known typed special => exact .inr (.inl ⟨record, known, typed, special, rfl⟩)
  | assign _ record update operand known typed plain =>
      exact .inr (.inr (.inl ⟨record, update, operand, known, typed, plain, rfl⟩))
  | place _ record update operand known ordered =>
      exact .inr (.inr (.inr (.inr ⟨record, update, operand, known, ordered, rfl⟩)))
  | retain _ record value known lasting hooked =>
      refine .inr (.inr (.inr (.inl ⟨_, fun entry => ?_, fun entry ofEntry kept => ?_, rfl⟩)))
      · split <;> rfl
      · split
        · rename_i same
          rw [same] at ofEntry
          have isRecord : entry.record = record := Option.some.inj (ofEntry.symm.trans known)
          exact ⟨fun event => absurd (isRecord ▸ event) lasting,
            fun plain => absurd (isRecord ▸ plain).setHook hooked⟩
        · exact kept
  | reset _ id =>
      refine .inr (.inr (.inr (.inl ⟨_, fun entry => ?_, fun entry _ kept => ?_, rfl⟩)))
      · split <;> rfl
      · split
        · exact entry.kept_reset
        · exact kept
  | resetAll _ =>
      exact .inr (.inr (.inr (.inl
        ⟨Entry.reset, fun _ => rfl, fun entry _ _ => entry.kept_reset, rfl⟩)))
  | produce _ station rule targets => exact .inl ⟨_, _, rfl⟩
  | subscribe _ id callback => exact .inl ⟨_, _, rfl⟩
  | unsubscribe _ id key => exact .inl ⟨_, _, rfl⟩
  | unsubscribeAll _ id => exact .inl ⟨_, _, rfl⟩
  | clear _ => exact .inl ⟨_, _, rfl⟩
  | watch _ station condition callback new => exact .inl (watch_eq ..)
  | unwatch _ station condition => exact .inl (unwatch_eq ..)

/-! ### Entries -/

theorem entry?_isSome {store : Store σ} {id : Identifier} :
    (store.entry? id).isSome = true ↔ id ∈ store.touched := by
  simp [ entry?, touched]

theorem entry?_eq_some {store : Store σ} {id : Identifier} {entry : Entry σ}
    (found : store.entry? id = some entry) : entry ∈ store.entries ∧ entry.record.id = id :=
  ⟨List.mem_of_find?_eq_some found, by simpa using List.find?_some found⟩

theorem touch_of_mem {store : Store σ} {record : NameRecord σ}
    (present : record.id ∈ store.touched) : store.touch record = store :=
  if_pos (entry?_isSome.mpr present)

theorem touch_of_notMem {store : Store σ} {record : NameRecord σ}
    (absent : record.id ∉ store.touched) :
    store.touch record =
      { store with
        entries := store.entries ++ [⟨record, 0⟩]
        byCycle := fun cycle =>
          if cycle = record.cycle then store.byCycle cycle ++ [record.id]
          else store.byCycle cycle } :=
  if_neg fun present => absent (entry?_isSome.mp present)

theorem mem_entries_touch {store : Store σ} {record : NameRecord σ} {entry : Entry σ}
    (member : entry ∈ (store.touch record).entries) :
    entry ∈ store.entries ∨ entry = ⟨record, 0⟩ := by
  by_cases present : record.id ∈ store.touched
  · rw [touch_of_mem present] at member
    exact .inl member
  · rw [touch_of_notMem present] at member
    exact (List.mem_append.mp member).imp_right List.mem_singleton.mp

section Shape

variable {registry : Registry σ} {store : Store σ}

theorem Shaped.touch (shaped : Shaped registry store) {record : NameRecord σ}
    (known : registry.record? record.id = some record) (typed : record.id.isOrdered = false) :
    Shaped registry (store.touch record) := by
  by_cases present : record.id ∈ store.touched
  · rwa [touch_of_mem present]
  · rw [touch_of_notMem present]
    refine ⟨?_, ?_, ?_, ?_, shaped.places⟩
    · exact List.forall_mem_append.mpr ⟨shaped.known, by simpa using known⟩
    · exact List.forall_mem_append.mpr ⟨shaped.typed, by simpa using typed⟩
    · rw [touched, List.map_append, List.map_singleton, ← List.concat_eq_append]
      exact shaped.nodup.concat present
    · intro cycle
      by_cases same : cycle = record.cycle
      · simp [same, shaped.listed]
      · simp [same, Ne.symm same, shaped.listed]

theorem touched_map {change : Entry σ → Entry σ}
    (sameRecord : ∀ entry, (change entry).record = entry.record) :
    ({ store with entries := store.entries.map change } : Store σ).touched = store.touched := by
  simp [touched, Function.comp_def, sameRecord]

theorem Shaped.map (shaped : Shaped registry store) {change : Entry σ → Entry σ}
    (sameRecord : ∀ entry, (change entry).record = entry.record) :
    Shaped registry { store with entries := store.entries.map change } where
  known := List.forall_mem_map.mpr fun entry member => by
    simpa only [sameRecord] using shaped.known entry member
  typed := List.forall_mem_map.mpr fun entry member => by
    simpa only [sameRecord] using shaped.typed entry member
  nodup := by
    rw [touched_map sameRecord]
    exact shaped.nodup
  listed cycle := by
    simp only [List.filter_map, List.map_map, Function.comp_def, sameRecord, shaped.listed]
  places := shaped.places

theorem Sound.new (registry : Registry σ) (owner : Option Owner) :
    Sound registry (.new registry owner) where
  known := by simp [Store.new]
  typed := by simp [Store.new]
  nodup := .nil
  listed _ := rfl
  places := Array.size_replicate
  kept := by simp [Store.new]

theorem Sound.assign (sound : Sound registry store) {record : NameRecord σ} (update : Update)
    (operand : Binary64) (known : registry.record? record.id = some record)
    (typed : record.id.isOrdered = false) (plain : record.Plain) :
    Sound registry (store.assign record update operand) where
  toShaped := (sound.touch known typed).map fun entry => by split <;> rfl
  kept := by
    have shaped := sound.touch known typed
    refine List.forall_mem_map.mpr fun entry member => ?_
    split
    · rename_i same
      have ofEntry := shaped.known entry member
      rw [same] at ofEntry
      have isRecord : entry.record = record := Option.some.inj (ofEntry.symm.trans known)
      refine ⟨fun event => absurd (isRecord ▸ event) plain.retained, fun _ consistent => .inr ?_⟩
      rw [isRecord] at consistent ⊢
      exact consistent.admits_clamp _
    · rename_i other
      rcases mem_entries_touch member with old | new
      · exact sound.kept entry old
      · exact absurd (new ▸ rfl) other

theorem Sound.edit (sound : Sound registry store) {purpose : Purpose}
    {after : Store σ} (edit : Edit registry purpose store after) : Sound registry after := by
  rcases edit.inversion with ⟨bus, logs, rfl⟩ | ⟨record, known, typed, special, rfl⟩ |
    ⟨record, update, operand, known, typed, plain, rfl⟩ | ⟨change, sameRecord, kept, rfl⟩ |
    ⟨record, update, operand, known, ordered, rfl⟩
  · exact ⟨⟨sound.known, sound.typed, sound.nodup, sound.listed, sound.places⟩, sound.kept⟩
  · refine ⟨sound.touch known typed, fun entry member => ?_⟩
    rcases mem_entries_touch member with old | rfl
    · exact sound.kept entry old
    · exact ⟨fun _ => rfl, fun plain => absurd plain special⟩
  · exact sound.assign update operand known typed plain
  · refine ⟨sound.map sameRecord, List.forall_mem_map.mpr fun entry member => ?_⟩
    exact kept entry (sound.known entry member) (sound.kept entry member)
  · rw [updateDense_snd]
    exact ⟨⟨sound.known, sound.typed, sound.nodup, sound.listed,
      Array.size_setIfInBounds.trans sound.places⟩, sound.kept⟩

theorem Sound.edited (sound : Sound registry store) {after : Store σ}
    (edited : Edited registry store after) : Sound registry after := by
  induction edited with
  | refl => exact sound
  | tail _ edit induction => exact induction.edit edit.choose_spec

theorem Reached.sound {engine : Engine σ} (reached : store.Reached engine) :
    Sound engine.registry store :=
  (Sound.new engine.registry reached.choose).edited reached.choose_spec.edited

end Shape

/-! ### The lists of the cycles -/

theorem Shaped.mem_byCycle {registry : Registry σ} {store : Store σ}
    (shaped : Shaped registry store) {cycle : Cycle} {id : Identifier} :
    id ∈ store.byCycle cycle ↔
      ∃ entry ∈ store.entries, entry.record.id = id ∧ entry.record.cycle = cycle := by
  simp only [shaped.listed, List.mem_map, List.mem_filter, decide_eq_true_eq]
  constructor
  · rintro ⟨entry, ⟨member, ofCycle⟩, ofId⟩
    exact ⟨entry, member, ofId, ofCycle⟩
  · rintro ⟨entry, member, ofId, ofCycle⟩
    exact ⟨entry, ⟨member, ofCycle⟩, ofId⟩

theorem Shaped.nodup_byCycle {registry : Registry σ} {store : Store σ}
    (shaped : Shaped registry store) (cycle : Cycle) : (store.byCycle cycle).Nodup := by
  rw [shaped.listed]
  exact shaped.nodup.sublist (List.filter_sublist.map _)

/-- A name has an entry exactly when it is in the list of its cycle, once, and in no
other list. -/
theorem Shaped.entry?_isSome_iff {registry : Registry σ} {store : Store σ}
    (shaped : Shaped registry store) (id : Identifier) :
    (store.entry? id).isSome = true ↔
      ∃ record, registry.record? id = some record ∧
        (store.byCycle record.cycle).count id = 1 ∧
        ∀ cycle ≠ record.cycle, id ∉ store.byCycle cycle := by
  rw [entry?_isSome]
  constructor
  · intro touched
    rcases List.mem_map.mp touched with ⟨entry, member, rfl⟩
    refine ⟨entry.record, shaped.known entry member, ?_, fun cycle different listed => ?_⟩
    · exact List.count_eq_one_of_mem (shaped.nodup_byCycle _)
        (shaped.mem_byCycle.mpr ⟨entry, member, rfl, rfl⟩)
    · rcases shaped.mem_byCycle.mp listed with ⟨other, otherMember, same, ofCycle⟩
      have isEntry := List.inj_on_of_nodup_map shaped.nodup otherMember member same
      exact different (isEntry ▸ ofCycle.symm)
  · rintro ⟨record, _, once, _⟩
    have listed : id ∈ store.byCycle record.cycle := List.count_pos_iff.mp (by omega)
    rcases shaped.mem_byCycle.mp listed with ⟨entry, member, rfl, _⟩
    exact List.mem_map.mpr ⟨entry, member, rfl⟩

/-! ### What stays -/

/-- Entries and places in the lists stay, and new ones come after them. -/
structure Extends (before after : Store σ) : Prop where
  touched : before.touched <+: after.touched
  listed : ∀ cycle, before.byCycle cycle <+: after.byCycle cycle

namespace Extends

variable {registry : Registry σ} {before after : Store σ}

theorem of_eq (touched : after.touched = before.touched) (listed : after.byCycle = before.byCycle) :
    Extends before after :=
  ⟨touched ▸ List.prefix_rfl, fun _ => listed ▸ List.prefix_rfl⟩

theorem touch (store : Store σ) (record : NameRecord σ) : Extends store (store.touch record) := by
  by_cases present : record.id ∈ store.touched
  · exact of_eq (by rw [touch_of_mem present]) (by rw [touch_of_mem present])
  · rw [touch_of_notMem present]
    refine ⟨(List.prefix_append _ _).map _, fun cycle => ?_⟩
    dsimp only
    split
    · exact List.prefix_append _ _
    · exact List.prefix_rfl

theorem edit {purpose : Purpose} (edit : Edit registry purpose before after) :
    Extends before after := by
  rcases edit.inversion with ⟨bus, logs, rfl⟩ | ⟨record, _, _, _, rfl⟩ |
    ⟨record, update, operand, _, _, _, rfl⟩ | ⟨change, sameRecord, _, rfl⟩ |
    ⟨record, update, operand, _, _, rfl⟩
  · exact of_eq rfl rfl
  · exact touch before record
  · have touched := touch before record
    have same : (before.assign record update operand).touched =
        (before.touch record).touched := touched_map fun entry => by split <;> rfl
    exact ⟨same ▸ touched.touched, touched.listed⟩
  · exact of_eq (touched_map sameRecord) rfl
  · rw [updateDense_snd]
    exact of_eq rfl rfl

theorem edited (edited : Edited registry before after) : Extends before after := by
  induction edited with
  | refl => exact of_eq rfl rfl
  | tail _ last induction =>
      have further := edit last.choose_spec
      exact ⟨induction.touched.trans further.touched,
        fun cycle => (induction.listed cycle).trans (further.listed cycle)⟩

end Extends

/-! ### Places -/

section Places

variable {registry : Registry σ} {store : Store σ} {record : NameRecord σ}

/-- Every ordered name has a place. -/
theorem Shaped.place_lt (shaped : Shaped registry store) (placed : registry.Placed)
    (known : registry.record? record.id = some record) (ordered : record.id.isOrdered = true) :
    record.id.raw - 1 < store.dense.size := by
  have inUse : record.id ∈ registry.ids :=
    List.mem_map_of_mem (List.mem_of_find?_eq_some known)
  have counted := placed record.id inUse (by simpa [Identifier.isOrdered] using ordered)
  have positive : record.id.raw ≠ 0 := record.id.raw_ne_zero
  rw [shaped.places]
  omega

theorem denseValue_updateDense (inRange : record.id.raw - 1 < store.dense.size) (update : Update)
    (operand : Binary64) :
    (store.updateDense record update operand).2.denseValue record.id =
      record.bounds.clamp (update.apply (store.denseValue record.id) operand) := by
  rw [updateDense_snd, denseValue, Array.set!_eq_setIfInBounds, Array.getElem?_setIfInBounds_self,
    if_pos inRange, Option.getD_some]

/-- Ordered names have places of their own. -/
theorem place_ne {first second : Identifier} (ordered : first.isOrdered = true)
    (alsoOrdered : second.isOrdered = true) (different : first ≠ second) :
    first.raw - 1 ≠ second.raw - 1 := by
  intro same
  have positive : first.raw ≠ 0 := first.raw_ne_zero
  have alsoPositive : second.raw ≠ 0 := second.raw_ne_zero
  simp only [Identifier.isOrdered, beq_iff_eq] at ordered alsoOrdered
  exact different (Identifier.eq_of_tag_of_raw (ordered.trans alsoOrdered.symm) (by omega))

theorem denseValue_updateDense_ne {id : Identifier} (ordered : record.id.isOrdered = true)
    (alsoOrdered : id.isOrdered = true) (different : record.id ≠ id) (update : Update)
    (operand : Binary64) :
    (store.updateDense record update operand).2.denseValue id = store.denseValue id := by
  rw [updateDense_snd, denseValue, Array.set!_eq_setIfInBounds,
    Array.getElem?_setIfInBounds_ne (place_ne ordered alsoOrdered different)]
  rfl

theorem dense_touch (record : NameRecord σ) : (store.touch record).dense = store.dense := by
  unfold touch
  split <;> rfl

/-- What an ordered name keeps is within its bounds once it was written. -/
theorem Sound.admits_edit (sound : Sound registry store) (placed : registry.Placed)
    (known : registry.record? record.id = some record) (ordered : record.id.isOrdered = true)
    (consistent : record.bounds.Consistent) {purpose : Purpose}
    {after : Store σ} (edit : Edit registry purpose store after)
    (admits : record.bounds.Admits (store.denseValue record.id)) :
    record.bounds.Admits (after.denseValue record.id) := by
  have unchanged (same : after.dense = store.dense) :
      record.bounds.Admits (after.denseValue record.id) := by
    rwa [denseValue, same]
  rcases edit.inversion with ⟨bus, logs, rfl⟩ | ⟨other, _, _, _, rfl⟩ |
    ⟨other, update, operand, _, _, _, rfl⟩ | ⟨change, _, _, rfl⟩ |
    ⟨other, update, operand, otherKnown, otherOrdered, rfl⟩
  · exact admits
  · exact unchanged (dense_touch other)
  · exact unchanged (dense_touch other)
  · exact admits
  · by_cases same : other.id = record.id
    · rw [same] at otherKnown
      have isRecord : other = record := Option.some.inj (otherKnown.symm.trans known)
      subst isRecord
      rw [denseValue_updateDense (sound.place_lt placed known ordered)]
      exact consistent.admits_clamp _
    · rwa [denseValue_updateDense_ne otherOrdered ordered same]

theorem Sound.admits_edited (sound : Sound registry store) (placed : registry.Placed)
    (known : registry.record? record.id = some record) (ordered : record.id.isOrdered = true)
    (consistent : record.bounds.Consistent) {after : Store σ}
    (edited : Edited registry store after)
    (admits : record.bounds.Admits (store.denseValue record.id)) :
    record.bounds.Admits (after.denseValue record.id) := by
  induction edited with
  | refl => exact admits
  | tail chain edit induction =>
      exact (sound.edited chain).admits_edit placed known ordered consistent edit.choose_spec
        induction

/-- A write of an ordered name has put it within its bounds by the time its listeners
are told, and there it stays. -/
theorem Sound.admits_write {engine : Engine σ} (placed : engine.registry.Placed)
    (known : engine.registry.record? record.id = some record)
    (ordered : record.id.isOrdered = true) (consistent : record.bounds.Consistent)
    {world after : World σ} (sound : Sound engine.registry world.store) {depth : Nat}
    {update : Update} {operand retained : Binary64}
    (written : engine.respond depth (.write record.id update operand) world =
      some (retained, after)) :
    record.bounds.Admits (after.store.denseValue record.id) := by
  cases depth with
  | zero => cases written
  | succ depth =>
      simp only [Engine.respond, Engine.answer, Engine.writeOnce, known, ordered, if_true]
        at written
      rcases Run.bind_eq_some written with ⟨_, between, changed, told⟩
      cases changed
      have answers := engine.respond_edits depth
      have edited := Engine.tell_edits answers ⟨record.id, update, operand⟩ _ _ _ _ told
      have edit := Edit.place world.store record update operand known ordered
      refine (sound.edit edit).admits_edited placed known ordered consistent edited ?_
      rw [denseValue_updateDense (sound.place_lt placed known ordered)]
      exact consistent.admits_clamp _

end Places

/-! ### All together -/

/-- What holds of every store at work. A name has an entry exactly when it is once in
the list of its cycle and in no other list; entries belong to registered names that are
not ordered, and neither they nor their places in the lists are lost later. Events
keep 0, and other values are initial or within their bounds. An ordered name has a
place, and a write takes it within its bounds for good. -/
theorem Reached.invariant {engine : Engine σ} {store : Store σ}
    (reachable : engine.registry.Reachable) (reached : store.Reached engine) :
    (∀ id, (store.entry? id).isSome = true ↔
      ∃ record, engine.registry.record? id = some record ∧
        (store.byCycle record.cycle).count id = 1 ∧
        ∀ cycle ≠ record.cycle, id ∉ store.byCycle cycle) ∧
    (∀ id entry, store.entry? id = some entry →
      engine.registry.record? id = some entry.record ∧ id.isOrdered = false ∧ entry.Kept) ∧
    (∀ later, Leads engine store later →
      (∀ id, (store.entry? id).isSome = true → (later.entry? id).isSome = true) ∧
      ∀ cycle, store.byCycle cycle <+: later.byCycle cycle) ∧
    ∀ record, engine.registry.record? record.id = some record → record.id.isOrdered = true →
      record.id.raw - 1 < store.dense.size ∧
      (record.bounds.Consistent → ∀ depth update operand world retained after,
        world.store = store →
        engine.respond depth (.write record.id update operand) world = some (retained, after) →
        ∀ later, Leads engine after.store later →
          record.bounds.Admits (later.denseValue record.id)) := by
  have sound := reached.sound
  have placed := reachable.placed
  refine ⟨sound.entry?_isSome_iff, fun id entry found => ?_, fun later leads => ?_,
    fun record known ordered => ⟨sound.place_lt placed known ordered, ?_⟩⟩
  · rcases entry?_eq_some found with ⟨member, rfl⟩
    exact ⟨sound.known entry member, sound.typed entry member, sound.kept entry member⟩
  · have further := Extends.edited leads.edited
    refine ⟨fun id touched => ?_, further.listed⟩
    exact entry?_isSome.mpr (further.touched.subset (entry?_isSome.mp touched))
  · rintro consistent depth update operand world retained after rfl written later leads
    have edited := engine.respond_edits depth _ _ _ _ written
    exact (sound.edited edited).admits_edited placed known ordered consistent leads.edited
      (sound.admits_write placed known ordered consistent written)

/-! ### A store with one name of each kind -/

namespace Daily

/-- An engine that knows a name with a greatest value and an ordered one with a least
value. -/
def engine : Engine Nat where
  registry :=
    ((RegistryRequest.addOrdered "rank" 0 { least := 1 }).carryOut.run
      ((RegistryRequest.addName "stat" "x" 0 .day { greatest := 10 }).carryOut.run {}).2).2
  functions := ⟨[]⟩
  settings := {}

def name : Identifier := ⟨0x1000001, Nat.one_ne_zero⟩

def rank : NameRecord Nat := { id := ⟨1, by decide⟩, name := "rank", bounds := { least := 1 } }

/-- Both names are written with values out of their range. -/
def script : Script Nat .writing :=
  .write name .set 20 fun _ => .write rank.id .set 0 fun _ => .done

def start : World Nat := engine.start 0 ⟨fun _ => 0, 0⟩

end Daily

open Daily in
theorem Reached.invariant_daily :
    ∃ outcome after, script.play engine (engine.respond 1) start = some (outcome, after) ∧
      engine.registry.Reachable ∧ after.store.Reached engine ∧
      ((after.store.entry? name).isSome = true ↔
        ∃ record, engine.registry.record? name = some record ∧
          (after.store.byCycle record.cycle).count name = 1 ∧
          ∀ cycle ≠ record.cycle, name ∉ after.store.byCycle cycle) ∧
      (∃ entry, after.store.entry? name = some entry ∧ entry.Kept) ∧
      ∃ retained last, engine.respond 1 (.write rank.id .set 0) after = some (retained, last) ∧
        rank.bounds.Consistent ∧ rank.bounds.Admits (last.store.denseValue rank.id) := by
  have played : ∃ outcome after entry retained last,
      script.play engine (engine.respond 1) start = some (outcome, after) ∧
      after.store.entry? name = some entry ∧
      engine.respond 1 (.write rank.id .set 0) after = some (retained, last) :=
    ⟨_, _, _, _, _, rfl, rfl, rfl⟩
  rcases played with ⟨outcome, after, entry, retained, last, played, found, written⟩
  have reachable : engine.registry.Reachable := .step _ (.step _ .empty)
  have reached : after.store.Reached engine := ⟨none, .play script 1 .start played⟩
  have consistent : rank.bounds.Consistent := .inl (by decide)
  have invariant := Reached.invariant reachable reached
  refine ⟨outcome, after, played, reachable, reached, invariant.1 name,
    ⟨entry, found, (invariant.2.1 name entry found).2.2⟩, retained, last, written, consistent, ?_⟩
  exact (invariant.2.2.2 rank rfl rfl).2 consistent 1 .set 0 after retained last rfl written
    last.store .start

end Store

end NumericRules
