import NumericRules.Identifier
import Mathlib.Data.Set.Function

/-! # Packed identifiers

Identifiers are the same as pairs of a tag and a raw number: every pair within the
limits is packed into one identifier, which gives both numbers back, and the packed
forms are ordered as the pairs are.
-/

namespace NumericRules

theorem TypeTag.eq_of_number {left right : TypeTag} (number : left.number = right.number) :
    left = right := by
  cases left
  cases right
  cases number
  rfl

theorem TypeTag.number_lt (tag : TypeTag) : tag.number < 256 :=
  Nat.lt_succ_of_le tag.le

namespace Identifier

/-! ## Tags and raw numbers -/

theorem raw_pos (id : Identifier) : 1 ≤ id.raw := Nat.pos_of_ne_zero id.raw_ne_zero

theorem raw_le (id : Identifier) : id.raw ≤ maxRaw := by
  simp only [raw, maxRaw]
  omega

theorem tag_le (id : Identifier) : id.tag ≤ maxTypes := by
  have bound := id.bits.toNat_lt
  simp only [tag, maxTypes]
  omega

theorem toNat_bits (id : Identifier) : id.bits.toNat = id.tag * 0x1000000 + id.raw :=
  (Nat.div_add_mod' id.bits.toNat 0x1000000).symm

theorem eq_of_tag_of_raw {left right : Identifier} (tag : left.tag = right.tag)
    (raw : left.raw = right.raw) : left = right := by
  have bits : left.bits = right.bits := by
    apply UInt32.toNat_inj.mp
    rw [toNat_bits, toNat_bits, tag, raw]
  cases left
  cases right
  cases bits
  rfl

theorem isOrdered_iff {id : Identifier} : id.isOrdered = true ↔ id.tag = 0 := by
  simp [isOrdered]

theorem isOrdered_eq_false_iff {id : Identifier} : id.isOrdered = false ↔ 0 < id.tag := by
  simp [isOrdered, Nat.pos_iff_ne_zero]

theorem typeTag?_eq_some {id : Identifier} {tag : TypeTag} :
    id.typeTag? = some tag ↔ id.tag = tag.number := by
  unfold typeTag?
  constructor
  · intro found
    split at found
    · cases found
      rfl
    · cases found
  · intro number
    have pos : 0 < id.tag := number ▸ tag.pos
    rw [dif_pos pos]
    exact congrArg some (TypeTag.eq_of_number number)

/-- A name is ordered or has a type. -/
theorem tag_eq_zero_or_typed (id : Identifier) :
    id.tag = 0 ∨ ∃ tag, id.typeTag? = some tag ∧ id.tag = tag.number := by
  rcases Nat.eq_zero_or_pos id.tag with zero | pos
  · exact .inl zero
  · exact .inr ⟨⟨id.tag, pos, id.tag_le⟩, typeTag?_eq_some.mpr rfl, rfl⟩

/-! ## Bits -/

/-- The tag is in the upper 8 bits. -/
theorem tag_eq_shiftRight (id : Identifier) : id.tag = (id.bits >>> 24).toNat := by
  rw [UInt32.toNat_shiftRight, Nat.shiftRight_eq_div_pow]
  rfl

theorem toNat_and_mask (bits : UInt32) : (bits &&& 0xFFFFFF).toNat = bits.toNat % 0x1000000 := by
  rw [UInt32.toNat_and]
  exact Nat.and_two_pow_sub_one_eq_mod bits.toNat 24

/-- The raw number is in the lower 24 bits. -/
theorem raw_eq_and (id : Identifier) : id.raw = (id.bits &&& 0xFFFFFF).toNat :=
  (toNat_and_mask id.bits).symm

theorem ofBits?_eq_some {bits : UInt32} {id : Identifier} :
    ofBits? bits = some id ↔ id.bits = bits := by
  unfold ofBits?
  constructor
  · intro found
    split at found
    · cases found
      rfl
    · cases found
  · rintro rfl
    rw [dif_pos id.raw_ne_zero]

theorem ofBits?_eq_none {bits : UInt32} :
    ofBits? bits = none ↔ bits.toNat % 0x1000000 = 0 := by
  unfold ofBits?
  split
  · rename_i nonzero
    exact iff_of_false (Option.some_ne_none _) nonzero
  · rename_i zero
    exact iff_of_true rfl (Decidable.not_not.mp zero)

theorem isSome_ofBits? {bits : UInt32} :
    (ofBits? bits).isSome = true ↔ bits &&& 0xFFFFFF ≠ 0 := by
  rw [Option.isSome_iff_ne_none, Ne, ofBits?_eq_none, Ne, ← UInt32.toNat_inj, toNat_and_mask]
  rfl

/-! ## Packing -/

section Packing

variable {tag raw : Nat} {id : Identifier}

/-- A pair is packed into the identifier that has its numbers. -/
theorem pack?_eq_some_iff (small : tag < 256) :
    pack? tag raw = some id ↔ id.tag = tag ∧ id.raw = raw := by
  have pos := id.raw_pos
  have le := id.raw_le
  unfold pack?
  split
  · rename_i outside
    exact iff_of_false (fun packed => by cases packed) (by omega)
  · rename_i inside
    rw [ofBits?_eq_some, ← UInt32.toNat_inj, toNat_bits, UInt32.toNat_ofNat']
    simp only [maxRaw] at inside le
    omega

theorem pack?_eq_none_iff : pack? tag raw = none ↔ raw = 0 ∨ maxRaw < raw := by
  unfold pack?
  split
  · rename_i outside
    exact iff_of_true rfl outside
  · rename_i inside
    refine iff_of_false (fun none => ?_) inside
    rw [ofBits?_eq_none, UInt32.toNat_ofNat'] at none
    simp only [maxRaw] at inside
    omega

theorem pack?_tag_raw (small : tag < 256) (packed : pack? tag raw = some id) :
    id.tag = tag ∧ id.raw = raw :=
  (pack?_eq_some_iff small).mp packed

end Packing

theorem typed?_eq_some {tag : TypeTag} {raw : Nat} {id : Identifier}
    (packed : typed? tag raw = some id) : id.tag = tag.number ∧ id.raw = raw :=
  pack?_tag_raw tag.number_lt packed

theorem ordered?_eq_some {raw : Nat} {id : Identifier} (packed : ordered? raw = some id) :
    id.tag = 0 ∧ id.raw = raw :=
  pack?_tag_raw (by decide) packed

/-- What is within the limits is packed. -/
theorem exists_pack? {tag raw : Nat} (small : tag < 256) (pos : 1 ≤ raw) (le : raw ≤ maxRaw) :
    ∃ id : Identifier, pack? tag raw = some id ∧ id.tag = tag ∧ id.raw = raw := by
  cases packed : pack? tag raw with
  | none =>
      have outside := pack?_eq_none_iff.mp packed
      omega
  | some id => exact ⟨id, rfl, pack?_tag_raw small packed⟩

/-- Every identifier is the one of its own numbers. -/
theorem pack?_self (id : Identifier) : pack? id.tag id.raw = some id :=
  (pack?_eq_some_iff (Nat.lt_succ_of_le id.tag_le)).mpr ⟨rfl, rfl⟩

/-- Packed forms are ordered by their upper bits first. -/
theorem before_iff {left right : Identifier} :
    left.before right = true ↔
      left.tag < right.tag ∨ left.tag = right.tag ∧ left.raw < right.raw := by
  have leftLe := left.raw_le
  have rightLe := right.raw_le
  rw [before, decide_eq_true_eq, UInt32.lt_iff_toNat_lt, toNat_bits, toNat_bits]
  simp only [maxRaw] at leftLe rightLe
  omega

/-! ## All identifiers -/

/-- The pairs of a tag, 0 for ordered names, and a raw number. -/
def pairs : Set (Nat × Nat) := {pair | pair.1 ≤ maxTypes ∧ 1 ≤ pair.2 ∧ pair.2 ≤ maxRaw}

/-- The numbers of identifiers are all pairs within the limits, and no two identifiers
have the same. -/
theorem bijOn_pairs : Set.BijOn (fun id : Identifier => (id.tag, id.raw)) Set.univ pairs := by
  refine ⟨fun id _ => ⟨id.tag_le, id.raw_pos, id.raw_le⟩, fun left _ right _ same => ?_, ?_⟩
  · exact eq_of_tag_of_raw (congrArg Prod.fst same) (congrArg Prod.snd same)
  · rintro ⟨tag, raw⟩ ⟨tagLe, pos, le⟩
    rcases exists_pack? (Nat.lt_succ_of_le tagLe) pos le with ⟨id, _, rfl, rfl⟩
    exact ⟨id, Set.mem_univ id, rfl⟩

/-- Pairs within the limits are packed into identifiers that give them back, others into
none. A packed form stands for an identifier if its lower 24 bits are not 0, and the
identifier is the one that is packed from its own numbers. Identifiers are in the order
of their pairs, with ordered names first. -/
theorem packing_bijective :
    (∀ (tag : TypeTag) (raw : Nat), 1 ≤ raw → raw ≤ maxRaw →
        ∃ id, typed? tag raw = some id ∧ id.typeTag? = some tag ∧ id.tag = tag.number ∧
          id.raw = raw ∧ id.isOrdered = false) ∧
      (∀ raw, 1 ≤ raw → raw ≤ maxRaw →
        ∃ id, ordered? raw = some id ∧ id.isOrdered = true ∧ id.tag = 0 ∧ id.raw = raw) ∧
      (∀ raw, raw = 0 ∨ maxRaw < raw → ordered? raw = none ∧ ∀ tag, typed? tag raw = none) ∧
      (∀ bits, (ofBits? bits).isSome = true ↔ bits &&& 0xFFFFFF ≠ 0) ∧
      (∀ id : Identifier, ofBits? id.bits = some id ∧
        id.tag = (id.bits >>> 24).toNat ∧ id.raw = (id.bits &&& 0xFFFFFF).toNat) ∧
      (∀ bits id, ofBits? bits = some id → id.bits = bits ∧
        (id.isOrdered = true ∧ ordered? id.raw = some id ∨
          ∃ tag, id.typeTag? = some tag ∧ typed? tag id.raw = some id)) ∧
      Set.BijOn (fun id : Identifier => (id.tag, id.raw)) Set.univ pairs ∧
      (∀ left right : Identifier, left.before right = true ↔
        left.tag < right.tag ∨ left.tag = right.tag ∧ left.raw < right.raw) ∧
      ∀ left right : Identifier, left.isOrdered = true → right.isOrdered = false →
        left.before right = true := by
  refine ⟨fun tag raw pos le => ?_, fun raw pos le => ?_, fun raw outside => ?_,
    fun _ => isSome_ofBits?, fun id => ?_, fun bits id found => ?_, bijOn_pairs,
    fun _ _ => before_iff, fun left right ordered typed => ?_⟩
  · rcases exists_pack? tag.number_lt pos le with ⟨id, packed, number, same⟩
    refine ⟨id, packed, typeTag?_eq_some.mpr number, number, same, ?_⟩
    rw [isOrdered_eq_false_iff, number]
    exact tag.pos
  · rcases exists_pack? (show 0 < 256 by decide) pos le with ⟨id, packed, zero, same⟩
    exact ⟨id, packed, isOrdered_iff.mpr zero, zero, same⟩
  · exact ⟨pack?_eq_none_iff.mpr outside, fun _ => pack?_eq_none_iff.mpr outside⟩
  · exact ⟨ofBits?_eq_some.mpr rfl, id.tag_eq_shiftRight, id.raw_eq_and⟩
  · refine ⟨ofBits?_eq_some.mp found, ?_⟩
    have packed := id.pack?_self
    rcases id.tag_eq_zero_or_typed with zero | ⟨tag, known, number⟩
    · rw [zero] at packed
      exact .inl ⟨isOrdered_iff.mpr zero, packed⟩
    · rw [number] at packed
      exact .inr ⟨tag, known, packed⟩
  · rw [before_iff, isOrdered_iff.mp ordered]
    exact .inl (isOrdered_eq_false_iff.mp typed)

/-- The last type there can be. -/
def lastTag : TypeTag := ⟨maxTypes, Nat.succ_pos 0xFE, Nat.le_refl maxTypes⟩

/-- The greatest identifier has all bits set and comes behind the last ordered one. -/
theorem packing_bijective_greatest :
    1 ≤ maxRaw ∧ (maxRaw + 1 = 0 ∨ maxRaw < maxRaw + 1) ∧ ordered? (maxRaw + 1) = none ∧
      ∃ place last, ordered? maxRaw = some place ∧ typed? lastTag maxRaw = some last ∧
        ofBits? 0xFFFFFFFF = some last ∧ last.bits = 0xFFFFFFFF ∧
        last.tag = 0xFF ∧ last.raw = 0xFFFFFF ∧
        place.isOrdered = true ∧ last.isOrdered = false ∧ place.before last = true := by
  rcases packing_bijective with ⟨typed, ordered, outside, _, _, own, _, _, first⟩
  have pos : 1 ≤ maxRaw := by decide
  have beyond : maxRaw + 1 = 0 ∨ maxRaw < maxRaw + 1 := .inr (Nat.lt_succ_self maxRaw)
  rcases ordered maxRaw pos (Nat.le_refl maxRaw) with ⟨place, placed, isOrdered, _, _⟩
  rcases typed lastTag maxRaw pos (Nat.le_refl maxRaw) with
    ⟨last, packed, _, tag, raw, notOrdered⟩
  have found : ofBits? 0xFFFFFFFF = some last := packed
  exact ⟨pos, beyond, (outside _ beyond).1, place, last, placed, packed, found,
    (own _ last found).1, tag, raw, isOrdered, notOrdered, first place last isOrdered notOrdered⟩

end Identifier

end NumericRules
