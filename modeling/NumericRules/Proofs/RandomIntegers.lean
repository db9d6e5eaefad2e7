import NumericRules.Proofs.Binary64.ExactValues
import NumericRules.Proofs.FixedValues

/-! # The range of random integers

The function `Random` drops the fractions of its bounds, holds them in words of 64 bits
and makes a number of the integer it draws between them. The number is in the range of
the bounds themselves if dropping the fraction does not lower the lower one, if both are
in reach of the words, and if the integer below the upper one is not rounded up to it.
-/

namespace NumericRules

open Binary64

/-! ## Rounding next to a number -/

namespace Binary64

section Neighbours

variable {number : Nat} (few : FewDigits number) (large : 2 ^ 53 ≤ number)

theorem two_le_spacing {number : Nat} (large : 2 ^ 53 ≤ number) : 2 ≤ spacing number := by
  have length : 53 ≤ number.log2 := (Nat.le_log2 (by omega)).mpr large
  calc 2 = 2 ^ 1 := rfl
    _ ≤ 2 ^ (number.log2 - 52) := Nat.pow_le_pow_right (by decide) (by omega)

theorem spacing_eq_two_iff {number : Nat} (large : 2 ^ 53 ≤ number) :
    spacing number = 2 ↔ number < 2 ^ 54 := by
  constructor
  · intro two
    by_contra more
    have length : 54 ≤ number.log2 := (Nat.le_log2 (by omega)).mpr (Nat.not_lt.mp more)
    have wide : 2 ^ 2 ≤ spacing number := Nat.pow_le_pow_right (by decide) (by omega)
    omega
  · intro less
    exact spacing_eq 1 large less

theorem roundQuotient_pred (quotient : Nat) {unit : Nat} (wide : 2 ≤ unit) :
    roundQuotient ((quotient + 1) * unit - 1) unit < quotient + 1 ↔ unit = 2 ∧ quotient % 2 = 0 := by
  have split : (quotient + 1) * unit - 1 = unit * quotient + (unit - 1) := by
    rw [Nat.add_mul, Nat.one_mul, Nat.mul_comm]
    omega
  have whole : ((quotient + 1) * unit - 1) / unit = quotient := by
    rw [split, Nat.mul_add_div (by omega), Nat.div_eq_of_lt (by omega), Nat.add_zero]
  have rest : ((quotient + 1) * unit - 1) % unit = unit - 1 := by
    rw [split, Nat.mul_add_mod, Nat.mod_eq_of_lt (by omega)]
  simp only [roundQuotient, whole, rest]
  split_ifs <;> omega

theorem roundQuotient_succ (quotient : Nat) {unit : Nat} (wide : 2 ≤ unit) :
    quotient < roundQuotient (quotient * unit + 1) unit ↔ unit = 2 ∧ quotient % 2 = 1 := by
  have whole : (quotient * unit + 1) / unit = quotient := by
    rw [Nat.mul_comm, Nat.mul_add_div (by omega), Nat.div_eq_of_lt (by omega), Nat.add_zero]
  have rest : (quotient * unit + 1) % unit = 1 := by
    rw [Nat.mul_comm, Nat.mul_add_mod, Nat.mod_eq_of_lt (by omega)]
  simp only [roundQuotient, whole, rest]
  split_ifs <;> omega

include few

/-- The integer below a number is rounded down where the numbers are two apart and the
number has odd digits. -/
theorem rounded_pred_lt_iff (larger : 2 ^ 53 < number) :
    rounded (number - 1) < number ↔ number ≤ 2 ^ 54 ∧ number % 4 = 2 := by
  have wide := two_le_spacing (show 2 ^ 53 ≤ number - 1 by omega)
  have two := spacing_eq_two_iff (show 2 ^ 53 ≤ number - 1 by omega)
  rcases few.spacing_dvd (Nat.sub_le number 1) with ⟨quotient, multiple⟩
  rw [Nat.mul_comm] at multiple
  rw [rounded]
  generalize spacing (number - 1) = unit at *
  cases quotient with
  | zero => omega
  | succ quotient =>
      subst multiple
      rw [Nat.mul_lt_mul_right (by omega), roundQuotient_pred quotient wide]
      constructor
      · rintro ⟨rfl, even⟩
        have less := two.mp rfl
        omega
      · rintro ⟨least, odd⟩
        have isTwo := two.mpr (by omega)
        subst isTwo
        omega

/-- The integer above a number is rounded up where the numbers are two apart and the
number has odd digits. -/
theorem lt_rounded_succ_iff (large : 2 ^ 53 ≤ number) :
    number < rounded (number + 1) ↔ number < 2 ^ 54 ∧ number % 4 = 2 := by
  have wide := two_le_spacing large
  have two := spacing_eq_two_iff large
  rcases few.spacing_dvd (le_refl number) with ⟨quotient, multiple⟩
  -- An even number and its successor have the same length.
  have even : number % 2 = 0 := by
    have length : 53 ≤ number.log2 := (Nat.le_log2 (by omega)).mpr large
    have divides : 2 ^ 1 ∣ spacing number := Nat.pow_dvd_pow 2 (by omega)
    exact Nat.mod_eq_zero_of_dvd (divides.trans ⟨quotient, multiple⟩)
  have same : spacing (number + 1) = spacing number := by
    have high : number < 2 ^ (number.log2 + 1) := Nat.lt_log2_self
    have notPower : number + 1 ≠ 2 ^ (number.log2 + 1) := by
      rw [Nat.pow_succ]
      omega
    have nonzero : number + 1 ≠ 0 := by omega
    have length : (number + 1).log2 = number.log2 := by
      apply le_antisymm
      · have less := (Nat.log2_lt nonzero).mpr (by omega : number + 1 < 2 ^ (number.log2 + 1))
        omega
      · apply (Nat.le_log2 nonzero).mpr
        exact (Nat.log2_self_le (by omega)).trans (Nat.le_succ number)
    rw [spacing, spacing, length]
  rw [Nat.mul_comm] at multiple
  rw [rounded, same]
  generalize spacing number = unit at *
  subst multiple
  rw [Nat.mul_lt_mul_right (by omega), roundQuotient_succ quotient wide]
  constructor
  · rintro ⟨rfl, odd⟩
    have less := two.mp rfl
    omega
  · rintro ⟨less, odd⟩
    have isTwo := two.mpr less
    subst isTwo
    omega

end Neighbours

/-- The integer below a number of few digits stays below it as a number if all integers
of its size are numbers, or if every other one is and it is nearer to a lower one. -/
theorem nearestInteger_pred_lt_iff {value : ℤ} (few : FewDigits value.natAbs) :
    nearestInteger (value - 1) < value ↔
      (-2 ^ 53 < value ∧ value ≤ 2 ^ 53) ∨ (|value| < 2 ^ 54 ∧ value % 4 = 2) := by
  rw [Int.abs_eq_natAbs]
  by_cases small : -2 ^ 53 < value ∧ value ≤ 2 ^ 53
  · have predFew : FewDigits (value - 1).natAbs := by
      rcases eq_or_ne (value - 1).natAbs (2 ^ 53) with limit | notLimit
      · exact ⟨1, 53, by decide, by rw [limit, Nat.one_mul]⟩
      · exact fewDigits_of_lt (by omega)
    rw [nearestInteger_eq predFew]
    simp only [small, and_self, true_or, iff_true]
    omega
  · simp only [small, false_or]
    rcases lt_or_ge 0 value with positive | negative
    · have larger : 2 ^ 53 < value.natAbs := by omega
      have below := rounded_pred_lt_iff few larger
      have size : (value - 1).natAbs = value.natAbs - 1 := by omega
      have sign : ¬ value - 1 < 0 := by omega
      simp only [nearestInteger, applySign, sign, decide_false, Bool.false_eq_true, if_false, size]
      omega
    · have large : 2 ^ 53 ≤ value.natAbs := by omega
      have above := lt_rounded_succ_iff few large
      have size : (value - 1).natAbs = value.natAbs + 1 := by omega
      have sign : value - 1 < 0 := by omega
      simp only [nearestInteger, applySign, sign, decide_true, if_true, size]
      omega

/-! ## Bounds of a range -/

/-- A lower bound of random integers that none of them falls below: dropping the
fraction does not lower it, and the words reach it. -/
def ReachedFromAbove (low : ℚ) : Prop := (low ≤ 0 ∨ ∃ whole : ℤ, low = whole) ∧ low ≤ 2 ^ 63

/-- An upper bound of random integers that none of them is rounded up to: all integers of
its size are numbers, or the bound is one of those that the odd integer below is not
rounded to, or it is beyond all words. -/
def MissedFromBelow (high : ℚ) : Prop :=
  (-2 ^ 53 < high ∧ high ≤ 2 ^ 53) ∨
    (|high| < 2 ^ 54 ∧ ∃ whole : ℤ, high = whole ∧ whole % 4 = 2) ∨ 2 ^ 63 < high

theorem nearestInteger_leastWord : nearestInteger leastWord = leastWord := by decide

theorem nearestInteger_greatestWord : nearestInteger greatestWord = greatestWord + 1 := by decide

theorem cast_leastWord : ((leastWord : ℤ) : ℚ) = -2 ^ 63 := by norm_num [leastWord]

theorem cast_greatestWord : ((greatestWord : ℤ) : ℚ) = 2 ^ 63 - 1 := by norm_num [greatestWord]

/-- The word of a lower bound becomes a number that is not below it. -/
theorem exact_le_nearestInteger_iff {low : Binary64} (finite : low.isFinite = true) :
    low.exact ≤ nearestInteger (toWord low) ↔ ReachedFromAbove low.exact := by
  have near := abs_lt.mp (abs_sub_truncated_lt low.exact)
  have few := fewDigits_truncated finite
  rw [toWord_eq finite, ReachedFromAbove, ← le_truncated_iff]
  rcases lt_or_ge (truncated low.exact) leastWord with below | notBelow
  · have cast : ((truncated low.exact : ℤ) : ℚ) ≤ leastWord - 1 := by
      exact_mod_cast Int.le_sub_one_of_lt below
    have negative : low.exact ≤ leastWord := by linarith
    rw [cast_leastWord] at negative
    have reached : low.exact ≤ truncated low.exact := by
      apply le_truncated_iff.mpr
      left
      linarith
    have bounded : low.exact ≤ 2 ^ 63 := by linarith
    rw [clampedWord_of_lt below, nearestInteger_leastWord, cast_leastWord]
    simp only [negative, reached, bounded, and_self]
  · rcases le_or_gt (truncated low.exact) greatestWord with inside | above
    · have cast : ((truncated low.exact : ℤ) : ℚ) ≤ greatestWord := by exact_mod_cast inside
      rw [cast_greatestWord] at cast
      have bounded : low.exact ≤ 2 ^ 63 := by linarith
      rw [clampedWord_of_mem notBelow inside, nearestInteger_eq few]
      simp only [bounded, and_true]
    · have cast : ((greatestWord : ℤ) : ℚ) + 1 ≤ truncated low.exact := by
        exact_mod_cast Int.add_one_le_of_lt above
      rw [cast_greatestWord] at cast
      have large : 2 ^ 53 ≤ |low.exact| := by
        apply le_trans _ (le_abs_self _)
        linarith
      have whole := (exact_eq_truncated finite large).le
      rw [clampedWord_of_gt above, nearestInteger_greatestWord, Int.cast_add, cast_greatestWord,
        Int.cast_one, sub_add_cancel]
      simp only [whole, true_and]

section Range

variable {low high : Binary64}

/-- The word of a lower bound becomes a number below the upper bound, unless no word is
below that. -/
theorem nearestInteger_toWord_lt_iff (finite : low.isFinite = true) {upper : ℚ}
    (inside : ∃ integer : ℤ, low.exact ≤ integer ∧ integer < upper) :
    (nearestInteger (toWord low) : ℚ) < upper ↔ -2 ^ 63 < upper := by
  rcases inside with ⟨integer, notBelow, below⟩
  have few := fewDigits_truncated finite
  have lowest : ((truncated low.exact : ℤ) : ℚ) < upper := by
    have cast : ((truncated low.exact : ℤ) : ℚ) ≤ integer := by
      exact_mod_cast truncated_le notBelow
    exact lt_of_le_of_lt cast below
  rw [toWord_eq finite]
  rcases lt_or_ge (truncated low.exact) leastWord with less | notLess
  · rw [clampedWord_of_lt less, nearestInteger_leastWord, cast_leastWord]
  · have reached : -2 ^ 63 < upper := by
      have cast : ((leastWord : ℤ) : ℚ) ≤ truncated low.exact := by exact_mod_cast notLess
      rw [cast_leastWord] at cast
      linarith
    simp only [reached, iff_true]
    rcases le_or_gt (truncated low.exact) greatestWord with inWord | above
    · rw [clampedWord_of_mem notLess inWord, nearestInteger_eq few]
      exact lowest
    · have cast : ((greatestWord + 1 : ℤ) : ℚ) ≤ truncated low.exact := by
        exact_mod_cast Int.add_one_le_of_lt above
      rw [clampedWord_of_gt above, nearestInteger_greatestWord]
      exact lt_of_le_of_lt cast lowest

/-- Beyond the words the bound is moved to the greatest one, and the word below that becomes a
number below the bound. -/
theorem nearestInteger_pred_toWord_of_gt (finite : high.isFinite = true)
    (beyond : 2 ^ 63 < high.exact) :
    (nearestInteger (toWord high - 1) : ℚ) < high.exact := by
  have near := abs_lt.mp (abs_sub_truncated_lt high.exact)
  have above : greatestWord < truncated high.exact := by
    have cast : ((greatestWord : ℤ) : ℚ) < truncated high.exact := by
      rw [cast_greatestWord]
      linarith
    exact_mod_cast cast
  have rounded : nearestInteger (greatestWord - 1) = 2 ^ 63 := by decide
  rw [toWord_eq finite, clampedWord_of_gt above, rounded]
  push_cast
  exact beyond

/-- One above the greatest word, the two integers below are rounded alike. -/
theorem nearestInteger_pred_clampedWord {value : ℤ} (low : leastWord ≤ value)
    (most : value ≤ greatestWord + 1) :
    nearestInteger (clampedWord value - 1) = nearestInteger (value - 1) := by
  rcases Int.lt_or_eq_of_le most with inWord | limit
  · rw [clampedWord_of_mem low (Int.le_of_lt_add_one inWord)]
  · rw [limit]
    decide

/-- Without its fraction a number is below it if it is small, and it is a number where all
integers are. -/
theorem nearestInteger_pred_truncated_of_lt (finite : high.isFinite = true)
    (small : |high.exact| < 2 ^ 53) :
    (nearestInteger (truncated high.exact - 1) : ℚ) < high.exact := by
  have near := abs_lt.mp (abs_sub_truncated_lt high.exact)
  rcases abs_lt.mp small with ⟨lower, upper⟩
  have lowest : -2 ^ 53 < truncated high.exact := by
    have cast : ((-2 ^ 53 : ℤ) : ℚ) < truncated high.exact := by
      push_cast
      rcases le_or_gt high.exact 0 with negative | positive
      · exact lt_of_lt_of_le lower (le_truncated_iff.mpr (.inl negative))
      · linarith
    exact_mod_cast cast
  have highest : truncated high.exact ≤ 2 ^ 53 := truncated_le (by exact_mod_cast upper.le)
  have below := (nearestInteger_pred_lt_iff (fewDigits_truncated finite)).mpr
    (.inl ⟨lowest, highest⟩)
  have cast : ((nearestInteger (truncated high.exact - 1) : ℤ) : ℚ) ≤
      (truncated high.exact : ℚ) - 1 := by
    exact_mod_cast Int.le_sub_one_of_lt below
  linarith

/-- Among integers the bounds that are missed can be told by their remainder. -/
theorem missedFromBelow_intCast {value : ℤ} (within : (value : ℚ) ≤ 2 ^ 63) :
    MissedFromBelow value ↔
      (-2 ^ 53 < value ∧ value ≤ 2 ^ 53) ∨ (|value| < 2 ^ 54 ∧ value % 4 = 2) := by
  have same : (∃ integer : ℤ, (value : ℚ) = integer ∧ integer % 4 = 2) ↔ value % 4 = 2 := by
    constructor
    · rintro ⟨integer, equal, odd⟩
      rw [Int.cast_inj.mp equal]
      exact odd
    · intro odd
      exact ⟨value, rfl, odd⟩
  rw [MissedFromBelow, same]
  simp only [not_lt.mpr within, or_false]
  norm_cast

/-- The greatest word below the one of an upper bound becomes a number below the upper
bound exactly where no integer is rounded up to that, words permitting. -/
theorem nearestInteger_pred_toWord_lt_iff (finite : high.isFinite = true)
    (reached : -2 ^ 63 < high.exact) :
    (nearestInteger (toWord high - 1) : ℚ) < high.exact ↔ MissedFromBelow high.exact := by
  have near := abs_lt.mp (abs_sub_truncated_lt high.exact)
  rcases lt_or_ge (2 ^ 63) high.exact with beyond | within
  · simp only [nearestInteger_pred_toWord_of_gt finite beyond, MissedFromBelow, beyond, or_true]
  · have low : leastWord ≤ truncated high.exact := by
      have cast : ((leastWord - 1 : ℤ) : ℚ) < truncated high.exact := by
        rw [Int.cast_sub, cast_leastWord, Int.cast_one]
        linarith
      exact Int.le_of_sub_one_lt (by exact_mod_cast cast)
    have most : truncated high.exact ≤ greatestWord + 1 := by
      apply truncated_le
      rw [Int.cast_add, cast_greatestWord, Int.cast_one, sub_add_cancel]
      exact within
    rw [toWord_eq finite, nearestInteger_pred_clampedWord low most]
    by_cases small : |high.exact| < 2 ^ 53
    · rcases abs_lt.mp small with ⟨lower, upper⟩
      simp only [nearestInteger_pred_truncated_of_lt finite small, MissedFromBelow, lower, upper.le,
        and_self, true_or]
    · have whole := exact_eq_truncated finite (not_lt.mp small)
      have few := fewDigits_truncated finite
      generalize truncated high.exact = value at *
      rw [whole, Int.cast_lt, nearestInteger_pred_lt_iff few,
        missedFromBelow_intCast (whole ▸ within)]

/-- The numbers made of drawn integers stay below the upper bound, if there is an integer
between the bounds at all. -/
theorem nearestInteger_max_lt_iff (lowFinite : low.isFinite = true) (highFinite : high.isFinite = true)
    (inside : ∃ integer : ℤ, low.exact ≤ integer ∧ integer < high.exact) :
    (nearestInteger (max (toWord low) (toWord high - 1)) : ℚ) < high.exact ↔
      MissedFromBelow high.exact := by
  have monotone : Monotone nearestInteger := fun _ _ => nearestInteger_mono
  rw [monotone.map_max, Int.cast_max, max_lt_iff, nearestInteger_toWord_lt_iff lowFinite inside]
  constructor
  · rintro ⟨reached, below⟩
    exact (nearestInteger_pred_toWord_lt_iff highFinite reached).mp below
  · intro missed
    have reached : -2 ^ 63 < high.exact := by
      rcases missed with ⟨lower, -⟩ | ⟨small, -⟩ | beyond
      · linarith
      · linarith [(abs_lt.mp small).1]
      · linarith
    exact ⟨reached, (nearestInteger_pred_toWord_lt_iff highFinite reached).mpr missed⟩

end Range

end Binary64

/-! ## Draws -/

/-- All draws of the plan are from ranges of words that are not empty, whatever it is given. -/
inductive Plan.DrawsFromRanges {σ : Type} : Plan σ → Prop where
  | answer (value : Binary64) : (Plan.answer value).DrawsFromRanges
  | argument (index : Nat) {next : Binary64 → Plan σ} :
      (∀ value, (next value).DrawsFromRanges) → (Plan.argument index next).DrawsFromRanges
  | read (id : Identifier) {next : Binary64 → Plan σ} :
      (∀ value, (next value).DrawsFromRanges) → (Plan.read id next).DrawsFromRanges
  | host (update : σ → σ) {next : σ → Plan σ} :
      (∀ before, (next before).DrawsFromRanges) → (Plan.host update next).DrawsFromRanges
  | draw {low high : ℤ} {next : ℤ → Plan σ} : leastWord ≤ low → low < high → high ≤ greatestWord →
      (∀ drawn, low ≤ drawn → drawn < high → (next drawn).DrawsFromRanges) →
      (Plan.draw low high next).DrawsFromRanges

namespace Dice

theorem draw_mem (dice : Dice) {low high : ℤ} (nonempty : low < high) :
    low ≤ (dice.draw low high).1 ∧ (dice.draw low high).1 < high := by
  have below := Nat.mod_lt (dice.sequence dice.spent) (show 0 < (high - low).toNat by omega)
  simp only [draw]
  omega

theorem exists_draw {low high value : ℤ} (notBelow : low ≤ value) (below : value < high) :
    ∃ dice : Dice, (dice.draw low high).1 = value := by
  refine ⟨⟨fun _ => (value - low).toNat, 0⟩, ?_⟩
  simp only [draw]
  rw [Nat.mod_eq_of_lt (by omega)]
  omega

end Dice

namespace Function

theorem leastWord_le_toWord (value : Binary64) : leastWord ≤ toWord value := by
  unfold toWord
  split
  · decide
  · split <;> decide
  · exact le_max_left _ _

theorem toWord_le_greatestWord (value : Binary64) : toWord value ≤ greatestWord := by
  unfold toWord
  split
  · decide
  · split <;> decide
  · exact max_le (by decide) (min_le_left _ _)

/-- An integer that is drawn between two numbers by some dice. -/
def CanDraw (low high : Binary64) (drawn : ℤ) : Prop :=
  toWord low ≤ drawn ∧ drawn ≤ max (toWord low) (toWord high - 1)

theorem CanDraw.natAbs_lt {low high : Binary64} {drawn : ℤ} (can : CanDraw low high drawn) :
    drawn.natAbs < 2 ^ 64 := by
  have least := leastWord_le_toWord low
  have lowMost := toWord_le_greatestWord low
  have highMost := toWord_le_greatestWord high
  simp only [CanDraw, leastWord, greatestWord] at *
  omega

theorem drawBetween_drawsFromRanges (low high : Binary64) :
    (drawBetween low high : Plan σ).DrawsFromRanges := by
  rw [drawBetween]
  split
  · exact .answer _
  · rename_i nonempty
    exact .draw (leastWord_le_toWord low) (not_le.mp nonempty) (toWord_le_greatestWord high)
      fun drawn _ _ => .answer _

section Runs

variable (low high : Binary64) (identifier : Identifier → Run σ Binary64)
  (arguments : List (Run σ Binary64)) (world : World σ)

theorem drawBetween_run : ∃ drawn after, CanDraw low high drawn ∧
    (drawBetween low high).run identifier arguments world = some (ofInteger drawn, after) := by
  rw [drawBetween]
  split
  · exact ⟨toWord low, world, ⟨le_refl _, le_max_left _ _⟩, rfl⟩
  · rename_i nonempty
    rcases world.dice.draw_mem (not_le.mp nonempty) with ⟨notBelow, below⟩
    refine ⟨_, _, ⟨notBelow, ?_⟩, rfl⟩
    exact le_max_of_le_right (Int.le_sub_one_of_lt below)

theorem drawBetween_draws {drawn : ℤ} (can : CanDraw low high drawn) : ∃ dice after,
    (drawBetween low high).run identifier arguments { world with dice } =
      some (ofInteger drawn, after) := by
  rcases can with ⟨notBelow, notAbove⟩
  rw [drawBetween]
  split
  · have only : drawn = toWord low := by omega
    exact ⟨world.dice, world, by rw [only]; rfl⟩
  · rcases Dice.exists_draw notBelow (show drawn < toWord high by omega) with ⟨dice, draws⟩
    refine ⟨dice, { world with dice := (dice.draw (toWord low) (toWord high)).2 }, ?_⟩
    rw [← draws]
    rfl

end Runs

/-- The outcome is an integer from the lower bound up to the upper one. -/
def StaysBetween (low high : ℚ) (outcome : Option (Binary64 × World σ)) : Prop :=
  ∃ value after, outcome = some (value, after) ∧ value.isFinite = true ∧
    ∃ integer : ℤ, value.exact = integer ∧ low ≤ integer ∧ integer < high

theorem staysBetween_ofInteger {low high : Binary64} {drawn : ℤ} (can : CanDraw low high drawn)
    (lower upper : ℚ) (after : World σ) :
    StaysBetween lower upper (some (ofInteger drawn, after)) ↔
      lower ≤ nearestInteger drawn ∧ nearestInteger drawn < upper := by
  rcases ofInteger_spec can.natAbs_lt with ⟨finite, exactEq⟩
  constructor
  · rintro ⟨value, _, outcome, -, integer, isInteger, between⟩
    cases outcome
    rw [exactEq, Int.cast_inj] at isInteger
    rw [isInteger]
    exact between
  · intro between
    exact ⟨_, _, rfl, finite, _, exactEq, between⟩

/-- Whatever the dice bring, the number drawn between two others is an integer from the
first up to the second, if the first is reached from above and the second is missed from
below. -/
theorem drawBetween_staysBetween_iff {low high : Binary64} (lowFinite : low.isFinite = true)
    (highFinite : high.isFinite = true)
    (inside : ∃ integer : ℤ, low.exact ≤ integer ∧ integer < high.exact)
    (identifier : Identifier → Run σ Binary64) (arguments : List (Run σ Binary64))
    (world : World σ) :
    (∀ dice, StaysBetween low.exact high.exact
      ((drawBetween low high).run identifier arguments { world with dice })) ↔
      ReachedFromAbove low.exact ∧ MissedFromBelow high.exact := by
  rw [← exact_le_nearestInteger_iff lowFinite,
    ← nearestInteger_max_lt_iff lowFinite highFinite inside]
  constructor
  · intro stays
    have between {drawn : ℤ} (can : CanDraw low high drawn) :
        low.exact ≤ nearestInteger drawn ∧ nearestInteger drawn < high.exact := by
      rcases drawBetween_draws low high identifier arguments world can with ⟨dice, after, ran⟩
      have outcome := stays dice
      rw [ran] at outcome
      exact (staysBetween_ofInteger can _ _ after).mp outcome
    exact ⟨(between ⟨le_refl _, le_max_left _ _⟩).1, (between ⟨le_max_left _ _, le_refl _⟩).2⟩
  · rintro ⟨reached, missed⟩ dice
    rcases drawBetween_run low high identifier arguments { world with dice } with
      ⟨drawn, after, can, ran⟩
    rw [ran, staysBetween_ofInteger can]
    have lower : nearestInteger (toWord low) ≤ nearestInteger drawn := nearestInteger_mono can.1
    have upper : nearestInteger drawn ≤ nearestInteger (max (toWord low) (toWord high - 1)) :=
      nearestInteger_mono can.2
    exact ⟨reached.trans (by exact_mod_cast lower),
      lt_of_le_of_lt (by exact_mod_cast upper) missed⟩

theorem builtins_drawFromRanges {count : Nat} {plan : Plan σ}
    (found : Function.builtins.plan? "Random" count = some plan) : plan.DrawsFromRanges := by
  have kind : (Function.builtins : FunctionTable σ).kind? "Random" =
      some (.native [(1, randomBelow), (2, randomBetween)]) := rfl
  rw [FunctionTable.plan?, kind] at found
  rcases List.lookup_eq_some_iff.mp found with ⟨before, after, entries, -⟩
  have member : (count, plan) ∈ [(1, randomBelow), (2, (randomBetween : Plan σ))] :=
    entries ▸ List.mem_append_right before (.head _)
  simp only [List.mem_cons, List.not_mem_nil, or_false, Prod.mk.injEq] at member
  rcases member with ⟨-, rfl⟩ | ⟨-, rfl⟩
  · exact .argument 0 fun high => drawBetween_drawsFromRanges 0 high
  · exact .argument 0 fun low => .argument 1 fun high => drawBetween_drawsFromRanges low high

theorem zero_isFinite_and_exact : (0 : Binary64).isFinite = true ∧ (0 : Binary64).exact = 0 := by
  rcases ofInteger_of_lt 0 (by decide) with ⟨finite, zero⟩
  exact ⟨finite, zero.trans Int.cast_zero⟩

/-! ## Calls -/

section Calls

variable {functions : FunctionTable σ} {scope : Scope σ ν} {world : World σ}
  {left right : Formula ν} {low high : Binary64}
  (known : functions.kind? "Random" = Function.builtins.kind? "Random")
  (leftFixed : Run.Fixed world.store (left.evaluate functions scope) low)
  (rightFixed : Run.Fixed world.store (right.evaluate functions scope) high)

include known

theorem plan?_random (count : Nat) :
    functions.plan? "Random" count = Function.builtins.plan? "Random" count := by
  rw [FunctionTable.plan?, known]
  rfl

include rightFixed

theorem evaluate_randomBelow (dice : Dice) :
    (Formula.call "Random" [right]).evaluate functions scope { world with dice } =
      (drawBetween 0 high).run scope.identifier (Formula.evaluations functions scope [right])
        { world with dice } := by
  have plan : functions.plan? "Random" 1 = some randomBelow := plan?_random known 1
  have evaluated := rightFixed { world with dice } rfl
  rw [Formula.evaluate]
  simp only [List.length_cons, List.length_nil, Nat.zero_add, plan]
  rw [randomBelow, Plan.run, Run.bind_apply]
  simp only [Formula.evaluations, List.getElem?_cons_zero, Option.getD_some, evaluated]

include leftFixed

theorem evaluate_randomBetween (dice : Dice) :
    (Formula.call "Random" [left, right]).evaluate functions scope { world with dice } =
      (drawBetween low high).run scope.identifier
        (Formula.evaluations functions scope [left, right]) { world with dice } := by
  have plan : functions.plan? "Random" 2 = some randomBetween := plan?_random known 2
  have first := leftFixed { world with dice } rfl
  have second := rightFixed { world with dice } rfl
  rw [Formula.evaluate]
  simp only [List.length_cons, List.length_nil, Nat.zero_add, Nat.reduceAdd, plan]
  rw [randomBetween, Plan.run, Run.bind_apply]
  simp only [Formula.evaluations, List.getElem?_cons_zero, Option.getD_some, first]
  rw [Plan.run, Run.bind_apply]
  simp only [List.getElem?_cons_succ, List.getElem?_cons_zero, Option.getD_some, second]

/-- A call of `Random` with bounds of any value draws from a range that is not empty, or not
at all, and has an outcome. With finite bounds and an integer between them the outcome is
an integer between them, whatever the dice bring, if none of the drawn integers falls
below the lower bound and none is rounded up to the upper one; otherwise some dice bring
it outside. -/
theorem random_stays_between :
    (∀ count plan, functions.plan? "Random" count = some plan → plan.DrawsFromRanges) ∧
      (∃ value after,
        (Formula.call "Random" [left, right]).evaluate functions scope world =
          some (value, after)) ∧
      (∃ value after,
        (Formula.call "Random" [right]).evaluate functions scope world = some (value, after)) ∧
      (low.isFinite = true → high.isFinite = true →
        (∃ integer : ℤ, low.exact ≤ integer ∧ integer < high.exact) →
        ((∀ dice, StaysBetween low.exact high.exact
            ((Formula.call "Random" [left, right]).evaluate functions scope
              { world with dice })) ↔
          ReachedFromAbove low.exact ∧ MissedFromBelow high.exact)) ∧
      (high.isFinite = true → 0 < high.exact →
        ((∀ dice, StaysBetween 0 high.exact
            ((Formula.call "Random" [right]).evaluate functions scope { world with dice })) ↔
          MissedFromBelow high.exact)) := by
  have between := evaluate_randomBetween known leftFixed rightFixed
  have below := evaluate_randomBelow known rightFixed
  refine ⟨fun count plan found => ?_, ?_, ?_, ?_, ?_⟩
  · rw [plan?_random known] at found
    exact builtins_drawFromRanges found
  · rcases drawBetween_run low high scope.identifier
      (Formula.evaluations functions scope [left, right]) world with ⟨drawn, after, -, ran⟩
    exact ⟨_, _, (between world.dice).trans ran⟩
  · rcases drawBetween_run 0 high scope.identifier
      (Formula.evaluations functions scope [right]) world with ⟨drawn, after, -, ran⟩
    exact ⟨_, _, (below world.dice).trans ran⟩
  · intro lowFinite highFinite inside
    simp only [between]
    exact drawBetween_staysBetween_iff lowFinite highFinite inside _ _ world
  · intro highFinite positive
    rcases zero_isFinite_and_exact with ⟨zeroFinite, zero⟩
    have inside : ∃ integer : ℤ, (0 : Binary64).exact ≤ integer ∧ integer < high.exact :=
      ⟨0, by rw [zero, Int.cast_zero], by rw [Int.cast_zero]; exact positive⟩
    have spec := drawBetween_staysBetween_iff zeroFinite highFinite inside scope.identifier
      (Formula.evaluations functions scope [right]) world
    have reached : ReachedFromAbove 0 := ⟨.inl (le_refl 0), by positivity⟩
    simp only [zero, reached, true_and] at spec
    simp only [below]
    exact spec

end Calls

/-! ### Dice -/

namespace Die

/-- An engine that knows the built-in functions and no names. -/
def engine : Engine Unit where
  registry := .ofRequests []
  functions := Function.builtins
  settings := {}

def world (dice : Dice) : World Unit := engine.start () dice

/-- The formula `Random(low, high)`. -/
def roll (low high : Binary64) : Formula Reference :=
  .call "Random" [.constant low, .constant high]

def evaluate (formula : Formula Reference) (dice : Dice) : Option (Binary64 × World Unit) :=
  formula.evaluate engine.functions (engine.respond 0).scope (world dice)

end Die

open Die in
/-- The sides of a die are the integers from 1 up to 7. -/
theorem random_stays_between_sides :
    engine.functions.kind? "Random" = Function.builtins.kind? "Random" ∧
      ∀ dice, StaysBetween 1 7 (evaluate (roll (ofInteger 1) (ofInteger 7)) dice) := by
  rcases ofInteger_of_lt 1 (by decide) with ⟨oneFinite, one⟩
  rcases ofInteger_of_lt 7 (by decide) with ⟨sevenFinite, seven⟩
  have known : engine.functions.kind? "Random" = Function.builtins.kind? "Random" := rfl
  have bound (value : Binary64) : Run.Fixed (world ⟨fun _ => 0, 0⟩).store
      ((Formula.constant value).evaluate engine.functions (engine.respond 0).scope) value :=
    .pure value
  have spec := (random_stays_between known (bound (ofInteger 1))
    (bound (ofInteger 7))).2.2.2.1 oneFinite sevenFinite
  rw [one, seven, Int.cast_one] at spec
  have reached : ReachedFromAbove 1 := ⟨.inr ⟨1, Int.cast_one.symm⟩, by norm_num⟩
  have missed : MissedFromBelow 7 := .inl ⟨by norm_num, by norm_num⟩
  exact ⟨known, (spec ⟨1, by norm_num, by norm_num⟩).mpr ⟨reached, missed⟩⟩

open Die in
/-- Between 0.5 and 1.5 there is the integer 1, and the outcome is 0. -/
theorem random_below_half :
    (0.5 : Binary64).isFinite = true ∧ (1.5 : Binary64).isFinite = true ∧
      (0.5 : Binary64).exact ≤ (1 : ℤ) ∧ (1 : ℤ) < (1.5 : Binary64).exact ∧
      (evaluate (roll 0.5 1.5) ⟨fun _ => 0, 0⟩).map Prod.fst = some 0 ∧
      (0 : Binary64).exact < (0.5 : Binary64).exact := by
  have half : parts 0.5 = .finite false (2 ^ 52) (-53) := by decide +kernel
  have more : parts 1.5 = .finite false (3 * 2 ^ 51) (-52) := by decide +kernel
  have halfExact : (0.5 : Binary64).exact = 1 / 2 := by
    rw [exact, half]
    norm_num [applySign]
  have moreExact : (1.5 : Binary64).exact = 3 / 2 := by
    rw [exact, more]
    norm_num [applySign]
  rw [halfExact, moreExact, zero_isFinite_and_exact.2]
  exact ⟨by decide +kernel, by decide +kernel, by norm_num, by norm_num, by decide +kernel,
    by norm_num⟩

end Function

end NumericRules
