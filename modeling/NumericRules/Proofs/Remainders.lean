import NumericRules.Operators
import NumericRules.Proofs.Binary64.ExactValues

/-! # Remainders of whole parts

The operator `%` drops the fractions of its operands and takes the remainder in
words of 64 bits. As long as the words hold the whole parts, it is their exact
remainder. A whole part that does not fit is moved to the end of the word first,
which only a divisor can mostly stand.
-/

namespace NumericRules

open Binary64

/-! ## Exact remainders -/

/-- The remainder of a division that drops the fraction of the quotient. -/
structure IsRemainder (dividend divisor rest : ℤ) : Prop where
  small : |rest| < |divisor|
  dvd_sub : divisor ∣ dividend - rest
  sign : 0 ≤ rest * dividend

theorem isRemainder_tmod (dividend : ℤ) {divisor : ℤ} (nonzero : divisor ≠ 0) :
    IsRemainder dividend divisor (dividend.tmod divisor) := by
  refine ⟨?_, Int.dvd_self_sub_tmod, ?_⟩
  · rw [Int.abs_eq_natAbs, Int.abs_eq_natAbs, Int.natAbs_tmod]
    exact_mod_cast Nat.mod_lt _ (Int.natAbs_pos.mpr nonzero)
  · rcases le_total 0 dividend with positive | negative
    · exact Int.mul_nonneg (Int.tmod_nonneg _ positive) positive
    · have opposite : 0 ≤ (-dividend).tmod divisor := Int.tmod_nonneg _ (by omega)
      rw [Int.neg_tmod] at opposite
      exact mul_nonneg_of_nonpos_of_nonpos (by omega) negative

/-- There is one remainder: two of them have one sign, so they are less than the
divisor apart. -/
theorem IsRemainder.unique {dividend divisor first second : ℤ}
    (isFirst : IsRemainder dividend divisor first)
    (isSecond : IsRemainder dividend divisor second) : first = second := by
  have multiple : divisor ∣ second - first := by
    have difference := Int.dvd_sub isFirst.dvd_sub isSecond.dvd_sub
    rwa [sub_sub_sub_cancel_left] at difference
  rcases eq_or_ne dividend 0 with zero | nonzero
  · have none {rest : ℤ} (isRest : IsRemainder dividend divisor rest) : rest = 0 := by
      apply Int.eq_zero_of_abs_lt_dvd _ isRest.small
      have whole := isRest.dvd_sub
      rw [zero, zero_sub, Int.dvd_neg] at whole
      exact (abs_dvd _ _).mpr whole
    rw [none isFirst, none isSecond]
  · have near : |second - first| < |divisor| := by
      have firstNear := isFirst.small
      have secondNear := isSecond.small
      rcases lt_or_gt_of_ne nonzero with negative | positive
      · have firstSign : first ≤ 0 := by nlinarith [isFirst.sign]
        have secondSign : second ≤ 0 := by nlinarith [isSecond.sign]
        rw [abs_of_nonpos firstSign] at firstNear
        rw [abs_of_nonpos secondSign] at secondNear
        exact abs_lt.mpr ⟨by omega, by omega⟩
      · have firstSign : 0 ≤ first := by nlinarith [isFirst.sign]
        have secondSign : 0 ≤ second := by nlinarith [isSecond.sign]
        rw [abs_of_nonneg firstSign] at firstNear
        rw [abs_of_nonneg secondSign] at secondNear
        exact abs_lt.mpr ⟨by omega, by omega⟩
    have same := Int.eq_zero_of_abs_lt_dvd ((abs_dvd _ _).mpr multiple) near
    omega

theorem isRemainder_iff {dividend divisor rest : ℤ} (nonzero : divisor ≠ 0) :
    IsRemainder dividend divisor rest ↔ rest = dividend.tmod divisor := by
  constructor
  · intro isRest
    exact isRest.unique (isRemainder_tmod dividend nonzero)
  · intro equal
    rw [equal]
    exact isRemainder_tmod dividend nonzero

/-- A divisor greater than the dividend leaves it whole. -/
theorem tmod_eq_self {dividend divisor : ℤ} (less : |dividend| < |divisor|) :
    dividend.tmod divisor = dividend := by
  have nonzero : divisor ≠ 0 := abs_pos.mp (lt_of_le_of_lt (abs_nonneg _) less)
  have whole : IsRemainder dividend divisor dividend := by
    refine ⟨less, ?_, mul_self_nonneg dividend⟩
    rw [sub_self]
    exact dvd_zero divisor
  exact (isRemainder_tmod dividend nonzero).unique whole

/-! ## Remainders in words -/

theorem clampedWord_eq_zero_iff {value : ℤ} : clampedWord value = 0 ↔ value = 0 := by
  simp only [clampedWord, leastWord, greatestWord]
  omega

theorem natAbs_clampedWord_le (value : ℤ) : (clampedWord value).natAbs ≤ 2 ^ 63 := by
  simp only [clampedWord, leastWord, greatestWord]
  omega

section Words

variable {whole unit : ℤ}

/-- The least word leaves another remainder for a divisor beyond the words than for the
end of the word the divisor is moved to: by the greatest word it leaves -1, by itself
nothing. -/
theorem leastWord_tmod_clampedWord_ne (beyond : ¬ (leastWord ≤ unit ∧ unit ≤ greatestWord)) :
    leastWord.tmod (clampedWord unit) ≠ leastWord.tmod unit := by
  intro equal
  have divides : unit ∣ leastWord - leastWord.tmod (clampedWord unit) := by
    rw [equal]
    exact Int.dvd_self_sub_tmod
  have smaller : |leastWord - leastWord.tmod (clampedWord unit)| < |unit| := by
    rcases not_and_or.mp beyond with below | above
    · rw [clampedWord_of_lt (not_le.mp below), Int.tmod_self, sub_zero]
      simp only [leastWord, Int.abs_eq_natAbs] at *
      omega
    · have rest : leastWord - leastWord.tmod greatestWord = -greatestWord := by decide
      rw [clampedWord_of_gt (not_le.mp above), rest]
      simp only [greatestWord, Int.abs_eq_natAbs] at *
      omega
  have none := Int.eq_zero_of_abs_lt_dvd ((abs_dvd _ _).mpr divides) smaller
  have size : (leastWord.tmod (clampedWord unit)).natAbs < (clampedWord unit).natAbs := by
    rw [Int.natAbs_tmod]
    apply Nat.mod_lt
    simp only [clampedWord, leastWord, greatestWord] at *
    omega
  have bound := natAbs_clampedWord_le unit
  simp only [leastWord] at none size
  omega

/-- A whole part of 64 bits is left by a divisor in its word what it is left by the
divisor, unless the divisor does not fit and the whole part is the least word. -/
theorem tmod_clampedWord_eq_iff (low : leastWord ≤ whole) (high : whole ≤ greatestWord)
    (notGreatest : whole.natAbs ≠ greatestWord.natAbs) :
    whole.tmod (clampedWord unit) = whole.tmod unit ↔
      (leastWord ≤ unit ∧ unit ≤ greatestWord) ∨ whole ≠ leastWord := by
  by_cases fits : leastWord ≤ unit ∧ unit ≤ greatestWord
  · simp only [clampedWord_of_mem fits.1 fits.2, fits, and_self, true_or]
  · simp only [fits, false_or]
    constructor
    · intro equal isLeast
      rw [isLeast] at equal
      exact leastWord_tmod_clampedWord_ne fits equal
    · intro notLeast
      have small : |whole| < greatestWord ∧ greatestWord ≤ |clampedWord unit| ∧
          greatestWord ≤ |unit| := by
        simp only [Int.abs_eq_natAbs, clampedWord, leastWord, greatestWord] at *
        omega
      rw [tmod_eq_self (lt_of_lt_of_le small.1 small.2.1),
        tmod_eq_self (lt_of_lt_of_le small.1 small.2.2)]

/-- What a divisor in its word leaves of a whole part of 64 bits has few digits. -/
theorem fewDigits_tmod_clampedWord (few : FewDigits whole.natAbs) (unitFew : FewDigits unit.natAbs)
    (low : leastWord ≤ whole) (high : whole ≤ greatestWord) :
    FewDigits (whole.tmod (clampedWord unit)).natAbs := by
  rw [Int.natAbs_tmod]
  by_cases fits : leastWord ≤ unit ∧ unit ≤ greatestWord
  · rw [clampedWord_of_mem fits.1 fits.2]
    exact few.mod unitFew
  · have sizes : whole.natAbs ≤ (clampedWord unit).natAbs + 1 ∧ 1 < (clampedWord unit).natAbs := by
      simp only [clampedWord, leastWord, greatestWord] at *
      omega
    rcases Nat.lt_or_ge whole.natAbs (clampedWord unit).natAbs with less | more
    · rw [Nat.mod_eq_of_lt less]
      exact few
    · apply fewDigits_of_lt
      rw [Nat.mod_eq_sub_mod more, Nat.mod_eq_of_lt (by omega)]
      omega

end Words

/-! ## The operator -/

namespace Operator

/-- The operator leaves a dividend as it is if the whole part of the divisor is 0. In all
other cases it gives the number nearest to the remainder in words, and for a whole part
of 64 bits that is the exact remainder of the whole parts, unless the divisor does not
fit and the whole part is the least word. -/
theorem modulo_remainder {dividend divisor : Binary64} (dividendFinite : dividend.isFinite = true)
    (divisorFinite : divisor.isFinite = true) :
    (truncated divisor.exact = 0 → Operator.modulo.apply dividend divisor = dividend) ∧
      (truncated divisor.exact ≠ 0 →
        (Operator.modulo.apply dividend divisor).isFinite = true ∧
        (Operator.modulo.apply dividend divisor).exact =
          nearestInteger ((clampedWord (truncated dividend.exact)).tmod
            (clampedWord (truncated divisor.exact))) ∧
        (leastWord ≤ truncated dividend.exact → truncated dividend.exact ≤ greatestWord →
          ((∃ rest : ℤ, (Operator.modulo.apply dividend divisor).exact = rest ∧
              IsRemainder (truncated dividend.exact) (truncated divisor.exact) rest) ↔
            (leastWord ≤ truncated divisor.exact ∧ truncated divisor.exact ≤ greatestWord) ∨
              truncated dividend.exact ≠ leastWord))) := by
  have dividendWord := toWord_eq dividendFinite
  have divisorWord := toWord_eq divisorFinite
  have dividendFew := fewDigits_truncated dividendFinite
  have divisorFew := fewDigits_truncated divisorFinite
  have notGreatest := natAbs_truncated_ne dividendFinite
  generalize truncated dividend.exact = whole at *
  generalize truncated divisor.exact = unit at *
  have unfolded : Operator.modulo.apply dividend divisor =
      if clampedWord unit = 0 then dividend
      else ofInteger ((clampedWord whole).tmod (clampedWord unit)) := by
    rw [← divisorWord, ← dividendWord]
    rfl
  rw [unfolded]
  refine ⟨fun isZero => if_pos (clampedWord_eq_zero_iff.mpr isZero), fun nonzero => ?_⟩
  rw [if_neg (mt clampedWord_eq_zero_iff.mp nonzero)]
  have fits : ((clampedWord whole).tmod (clampedWord unit)).natAbs < 2 ^ 64 := by
    rw [Int.natAbs_tmod]
    have bound := natAbs_clampedWord_le whole
    exact lt_of_le_of_lt (Nat.mod_le _ _) (lt_of_le_of_lt bound (by decide))
  rcases ofInteger_spec fits with ⟨finite, value⟩
  refine ⟨finite, value, fun low high => ?_⟩
  rw [clampedWord_of_mem low high] at value ⊢
  rw [nearestInteger_eq (fewDigits_tmod_clampedWord dividendFew divisorFew low high)] at value
  rw [value, ← tmod_clampedWord_eq_iff low high notGreatest]
  constructor
  · rintro ⟨rest, equal, isRest⟩
    rw [← (isRemainder_iff nonzero).mp isRest]
    exact_mod_cast equal
  · intro equal
    exact ⟨_, rfl, (isRemainder_iff nonzero).mpr equal⟩

/-- Minus seven is left minus one by three. -/
theorem modulo_remainder_of_seven :
    (ofInteger (-7)).isFinite = true ∧ (ofInteger 3).isFinite = true ∧
      ∃ rest : ℤ, (Operator.modulo.apply (ofInteger (-7)) (ofInteger 3)).exact = rest ∧
        IsRemainder (-7) 3 rest := by
  rcases ofInteger_of_lt (-7) (by decide) with ⟨sevenFinite, seven⟩
  rcases ofInteger_of_lt 3 (by decide) with ⟨threeFinite, three⟩
  have spec := (modulo_remainder sevenFinite threeFinite).2
  rw [seven, three, truncated_intCast, truncated_intCast] at spec
  exact ⟨sevenFinite, threeFinite,
    ((spec (by decide)).2.2 (by decide) (by decide)).mpr (.inl (by decide))⟩

/-- Of `2 ^ 63`, which is one more than the greatest word, ten leaves eight, and the
operator gives the seven that ten leaves of the greatest word. -/
theorem modulo_beyond_words :
    (ofInteger 0x8000000000000000).isFinite = true ∧
      truncated (ofInteger 0x8000000000000000).exact = 0x8000000000000000 ∧
      (ofInteger 10).isFinite = true ∧ truncated (ofInteger 10).exact = 10 ∧
      IsRemainder 0x8000000000000000 10 8 ∧
      Operator.modulo.apply (ofInteger 0x8000000000000000) (ofInteger 10) = ofInteger 7 ∧
      (ofInteger 7).exact = 7 := by
  have few : FewDigits (0x8000000000000000 : ℤ).natAbs := ⟨1, 63, by decide, by decide⟩
  rcases ofInteger_of_fewDigits few (by decide) with ⟨finite, value⟩
  rcases ofInteger_of_lt 10 (by decide) with ⟨tenFinite, ten⟩
  rcases ofInteger_of_lt 7 (by decide) with ⟨-, seven⟩
  have isRest : IsRemainder 0x8000000000000000 10 8 :=
    (isRemainder_iff (by decide)).mpr (by decide)
  refine ⟨finite, ?_, tenFinite, ?_, isRest, by decide, ?_⟩
  · rw [value, truncated_intCast]
  · rw [ten, truncated_intCast]
  · exact_mod_cast seven

end Operator

end NumericRules
