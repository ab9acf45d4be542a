/-
When the signed weighted averages yield a usable difficulty. A window yields no
value exactly when the weighted sum vanishes, and zero exactly when the last
difficulty is one, the last three blocks were not quick, and the weighted average
rounds down to nothing.
-/

import Mathlib.Algebra.BigOperators.Intervals
import Mathlib.Algebra.Order.BigOperators.Group.Finset
import Mathlib.Algebra.Order.Ring.Abs
import Mathlib.Data.Int.Interval
import Mevacoin.Difficulty.Algorithms

namespace Mevacoin
open Parameters
open scoped BigOperators

variable {minPercent maxPercent : Int} {work prev : Nat} {limit : Int → Int}

theorem int64_of_range {value : Int} (lower : -2 ^ 63 ≤ value) (upper : value < 2 ^ 63) :
    int64 value = value := by
  unfold int64
  rw [Int.bmod_eq_of_le]
  · exact lower
  · exact upper

private theorem int64_add_left (x y : Int) : int64 (int64 x + y) = int64 (x + y) := by
  exact Int.bmod_add_bmod

private theorem int64_add_right (x y : Int) : int64 (x + int64 y) = int64 (x + y) := by
  exact Int.add_bmod_bmod

/-- The limited solve time of the block at position `i` of the window. -/
def limitedSolveTime (limit : Int → Int) (timestamps : List UInt64) (i : Nat) : Int :=
  limit (int64 (int64 (timestamps.getD i 0).toNat - int64 (timestamps.getD (i - 1) 0).toNat))

def weightedSolveTimes (limit : Int → Int) (timestamps : List UInt64) (count : Nat) : Int :=
  ∑ i ∈ Finset.Icc 1 count, limitedSolveTime limit timestamps i * i

def recentSolveTimes (limit : Int → Int) (timestamps : List UInt64) (count : Nat) : Int :=
  ∑ i ∈ Finset.Icc 1 count,
    if i > difficultyWindowV3 - 3 then limitedSolveTime limit timestamps i else 0

theorem lwma2Sums_closed (limit : Int → Int) (timestamps : List UInt64) (count : Nat) :
    lwma2Sums limit timestamps count
      = (int64 (weightedSolveTimes limit timestamps count),
          int64 (recentSolveTimes limit timestamps count)) := by
  induction count with
  | zero =>
    rfl
  | succ count ih =>
    have step : lwma2Sums limit timestamps (count + 1)
        = (int64 ((lwma2Sums limit timestamps count).1
              + int64 (limitedSolveTime limit timestamps (1 + count) * (1 + count : Nat))),
            if 1 + count > difficultyWindowV3 - 3 then
              int64 ((lwma2Sums limit timestamps count).2
                + limitedSolveTime limit timestamps (1 + count))
            else (lwma2Sums limit timestamps count).2) := by
      unfold lwma2Sums
      rw [List.range'_1_concat, List.foldl_append]
      rfl
    rw [step, ih]
    unfold weightedSolveTimes recentSolveTimes
    rw [Finset.sum_Icc_succ_top (by omega), Finset.sum_Icc_succ_top (by omega)]
    simp only [int64_add_left, int64_add_right, Nat.add_comm 1 count]
    split
    · rfl
    · rw [add_zero]

/-! ### The bounded average -/

private theorem one_le_tdiv_iff {numerator denominator : Int} (nonneg : 0 ≤ numerator)
    (nonzero : denominator ≠ 0) :
    1 ≤ numerator.tdiv denominator ↔ 0 < denominator ∧ denominator ≤ numerator := by
  rcases lt_or_gt_of_ne nonzero with negative | positive
  · have flipped : numerator.tdiv denominator = -(numerator.tdiv (-denominator)) := by
      rw [Int.tdiv_neg, neg_neg]
    have quotient : 0 ≤ numerator.tdiv (-denominator) :=
      Int.tdiv_nonneg nonneg (by omega)
    constructor
    · omega
    · omega
  · rw [Int.tdiv_eq_ediv_of_nonneg nonneg, Int.le_ediv_iff_mul_le positive, one_mul]
    exact ⟨fun below => ⟨positive, below⟩, fun both => both.2⟩

private theorem one_le_bounded_iff {prev average : Int} (one : 1 ≤ prev)
    (minRange : 50 ≤ minPercent ∧ minPercent < 100)
    (maxRange : 100 ≤ maxPercent ∧ maxPercent < 200) :
    1 ≤ max ((prev * minPercent).tdiv 100) (min average ((prev * maxPercent).tdiv 100))
      ↔ 2 ≤ prev ∨ 1 ≤ average := by
  have minNonneg : 0 ≤ prev * minPercent := mul_nonneg (by omega) (by omega)
  have maxNonneg : 0 ≤ prev * maxPercent := mul_nonneg (by omega) (by omega)
  have upper : 1 ≤ (prev * maxPercent).tdiv 100 := by
    rw [Int.tdiv_eq_ediv_of_nonneg maxNonneg, Int.le_ediv_iff_mul_le (by decide)]
    nlinarith
  rw [le_max_iff, le_min_iff]
  rcases eq_or_lt_of_le one with atOne | above
  · have lower : (prev * minPercent).tdiv 100 = 0 := by
      rw [← atOne, one_mul, Int.tdiv_eq_zero_of_lt (by omega) (by omega)]
    omega
  · have lower : 1 ≤ (prev * minPercent).tdiv 100 := by
      rw [Int.tdiv_eq_ediv_of_nonneg minNonneg, Int.le_ediv_iff_mul_le (by decide)]
      nlinarith
    constructor
    · intro _
      exact Or.inl above
    · intro _
      exact Or.inl lower

/-- A window of the signed averages: the two work differences it reads, and what
keeps every product inside the signed range. -/
structure Lwma2Window (limit : Int → Int) (timestamps cumulativeDifficulties : List UInt64)
    (work prev : Nat) : Prop where
  full : difficultyWindowV3 + 1 ≤ timestamps.length
  workExact : (cumulativeDifficulties.getD difficultyWindowV3 0
    - cumulativeDifficulties.getD 0 0).toNat = work
  prevExact : (cumulativeDifficulties.getD difficultyWindowV3 0
    - cumulativeDifficulties.getD (difficultyWindowV3 - 1) 0).toNat = prev
  prevPositive : 1 ≤ prev
  prevLeWork : prev ≤ work
  workProduct : work * 180 * 61 * 99 < 2 ^ 63
  weightedProduct : 200 * |weightedSolveTimes limit timestamps difficultyWindowV3| < 2 ^ 63
  recentRange : |recentSolveTimes limit timestamps difficultyWindowV3| < 2 ^ 63

/-- What such a window must satisfy for the difficulty to be at least one. -/
def Lwma2Usable (limit : Int → Int) (timestamps : List UInt64) (work prev : Nat) : Prop :=
  let weighted := weightedSolveTimes limit timestamps difficultyWindowV3
  weighted ≠ 0 ∧
    (2 ≤ prev ∨ recentSolveTimes limit timestamps difficultyWindowV3 < 144
      ∨ (0 < weighted ∧ 200 * weighted ≤ work * 180 * 61 * 99))

instance (limit : Int → Int) (timestamps : List UInt64) (work prev : Nat) :
    Decidable (Lwma2Usable limit timestamps work prev) :=
  inferInstanceAs (Decidable (_ ∧ (_ ∨ _ ∨ _)))

private theorem one_le_ofInt_iff {value : Int} (nonneg : 0 ≤ value) (range : value < 2 ^ 64) :
    1 ≤ UInt64.ofInt value ↔ 1 ≤ value := by
  have exact : (UInt64.ofInt value).toNat = value.toNat := by
    rw [UInt64.ofInt, UInt64.toNat_ofNat']
    omega
  rw [UInt64.le_iff_toNat_le, exact, UInt64.toNat_one]
  omega

private theorem int64_percent {percent : Int} (prevLe : prev ≤ work)
    (workBound : work * 180 * 61 * 99 < 2 ^ 63) (range : 0 ≤ percent ∧ percent < 200) :
    int64 (prev * percent) = prev * percent := by
  have nonneg : 0 ≤ (prev : Int) * percent := mul_nonneg (by omega) range.1
  have upper : (prev : Int) * percent ≤ prev * 200 :=
    mul_le_mul_of_nonneg_left (by omega) (by omega)
  exact int64_of_range (by omega) (by omega)

private theorem lwma2_value {timestamps cumulativeDifficulties : List UInt64}
    (window : Lwma2Window limit timestamps cumulativeDifficulties work prev)
    (afterQuick : Int → Int → Int) (minRange : 50 ≤ minPercent ∧ minPercent < 100)
    (maxRange : 100 ≤ maxPercent ∧ maxPercent < 200) :
    lwma2 limit minPercent maxPercent afterQuick timestamps cumulativeDifficulties
      = if weightedSolveTimes limit timestamps difficultyWindowV3 = 0 then none
        else
          let bounded := max ((prev * minPercent : Int).tdiv 100)
            (min ((work * 180 * 61 * 99 : Int).tdiv
                (200 * weightedSolveTimes limit timestamps difficultyWindowV3))
              ((prev * maxPercent : Int).tdiv 100))
          some (UInt64.ofInt
            (if recentSolveTimes limit timestamps difficultyWindowV3 < 144 then
              afterQuick bounded prev else bounded)) := by
  obtain ⟨full, workExact, prevExact, one, prevLe, workBound, weightedBound, recentBound⟩ := window
  have workInt : (work : Int) * 180 * 61 * 99 < 2 ^ 63 := by exact_mod_cast workBound
  have weightedSides := abs_lt.mp (show |weightedSolveTimes limit timestamps difficultyWindowV3|
    < 2 ^ 63 / 200 + 1 by omega)
  have recentSides := abs_lt.mp recentBound
  have weightedWord := int64_of_range (by omega) (by omega :
    weightedSolveTimes limit timestamps difficultyWindowV3 < 2 ^ 63)
  have recentWord := int64_of_range (by omega) (by omega :
    recentSolveTimes limit timestamps difficultyWindowV3 < 2 ^ 63)
  have scaledWord := int64_of_range (by omega) (by omega :
    100 * 2 * weightedSolveTimes limit timestamps difficultyWindowV3 < 2 ^ 63)
  have workWord := int64_of_range (by linarith) (by linarith : (work : Int) < 2 ^ 63)
  have workTarget := int64_of_range (by linarith) (by linarith : (work : Int) * 180 < 2 ^ 63)
  have workWindow := int64_of_range (by linarith) (by linarith : (work : Int) * 180 * 61 < 2 ^ 63)
  have workScaled := int64_of_range (by linarith) workInt
  have prevWord := int64_of_range (by linarith) (by linarith : (prev : Int) < 2 ^ 63)
  have minWord := int64_percent prevLe workBound (by omega : 0 ≤ minPercent ∧ minPercent < 200)
  have maxWord := int64_percent prevLe workBound (by omega : 0 ≤ maxPercent ∧ maxPercent < 200)
  have target : ((difficultyTarget : Nat) : Int) = 180 := rfl
  have width : ((difficultyWindowV3 : Nat) : Int) + 1 = 61 := rfl
  have quick : (8 * 180 : Int).tdiv 10 = 144 := by decide
  simp only [lwma2, if_neg (show ¬ timestamps.length < difficultyWindowV3 + 1 by omega),
    lwma2Sums_closed, workExact, prevExact, weightedWord, recentWord, scaledWord, workWord,
    target, width, workTarget, workWindow, workScaled, prevWord, minWord, maxWord, quick]
  by_cases vanishes : weightedSolveTimes limit timestamps difficultyWindowV3 = 0
  · rw [if_pos vanishes, if_pos (by rw [vanishes]; rfl)]
  · rw [if_neg vanishes, if_neg (by omega)]
    rfl

private theorem bounded_range (average : Int) (prevLe : prev ≤ work)
    (workBound : work * 180 * 61 * 99 < 2 ^ 63) (minRange : 50 ≤ minPercent ∧ minPercent < 100)
    (maxRange : 100 ≤ maxPercent ∧ maxPercent < 200) :
    0 ≤ max ((prev * minPercent : Int).tdiv 100) (min average ((prev * maxPercent : Int).tdiv 100))
      ∧ max ((prev * minPercent : Int).tdiv 100)
          (min average ((prev * maxPercent : Int).tdiv 100)) < 2 ^ 63 := by
  have prevNonneg : (0 : Int) ≤ prev := Int.natCast_nonneg prev
  have minNonneg : 0 ≤ (prev : Int) * minPercent := mul_nonneg prevNonneg (by omega)
  have maxNonneg : 0 ≤ (prev : Int) * maxPercent := mul_nonneg prevNonneg (by omega)
  have minUpper : (prev : Int) * minPercent ≤ prev * 200 :=
    mul_le_mul_of_nonneg_left (by omega) prevNonneg
  have maxUpper : (prev : Int) * maxPercent ≤ prev * 200 :=
    mul_le_mul_of_nonneg_left (by omega) prevNonneg
  have minQuotient := Int.tdiv_eq_ediv_of_nonneg minNonneg (b := 100)
  have maxQuotient := Int.tdiv_eq_ediv_of_nonneg maxNonneg (b := 100)
  rw [minQuotient, maxQuotient]
  constructor
  · exact le_trans (Int.ediv_nonneg minNonneg (by decide)) (le_max_left _ _)
  · rw [max_lt_iff]
    constructor
    · rw [Int.ediv_lt_iff_lt_mul (by decide)]
      linarith
    · refine lt_of_le_of_lt (min_le_right _ _) ?_
      rw [Int.ediv_lt_iff_lt_mul (by decide)]
      linarith

/-- A window yields a difficulty of at least one exactly when it is usable. The
last hypothesis is the quick-block rule of the particular average: it never
lowers the difficulty to zero. -/
theorem lwma2_usable_iff {timestamps cumulativeDifficulties : List UInt64}
    (window : Lwma2Window limit timestamps cumulativeDifficulties work prev)
    {afterQuick : Int → Int → Int} (minRange : 50 ≤ minPercent ∧ minPercent < 100)
    (maxRange : 100 ≤ maxPercent ∧ maxPercent < 200)
    (quickRange : ∀ bounded, 0 ≤ bounded → bounded < 2 ^ 63 →
      1 ≤ afterQuick bounded prev ∧ afterQuick bounded prev < 2 ^ 64) :
    (∃ difficulty, lwma2 limit minPercent maxPercent afterQuick timestamps cumulativeDifficulties
        = some difficulty ∧ 1 ≤ difficulty)
      ↔ Lwma2Usable limit timestamps work prev := by
  have one : (1 : Int) ≤ prev := by exact_mod_cast window.prevPositive
  obtain ⟨nonneg, small⟩ := bounded_range
    ((work * 180 * 61 * 99 : Int).tdiv
      (200 * weightedSolveTimes limit timestamps difficultyWindowV3))
    window.prevLeWork window.workProduct minRange maxRange
  rw [lwma2_value window afterQuick minRange maxRange]
  by_cases vanishes : weightedSolveTimes limit timestamps difficultyWindowV3 = 0
  · rw [if_pos vanishes]
    constructor
    · rintro ⟨difficulty, impossible, _⟩
      cases impossible
    · intro usable
      exact absurd vanishes usable.1
  · rw [if_neg vanishes]
    simp only [Option.some.injEq, exists_eq_left']
    by_cases quick : recentSolveTimes limit timestamps difficultyWindowV3 < 144
    · obtain ⟨atLeast, below⟩ := quickRange _ nonneg small
      rw [if_pos quick, one_le_ofInt_iff (by omega) below]
      exact ⟨fun _ => ⟨vanishes, Or.inr (Or.inl quick)⟩, fun _ => atLeast⟩
    · rw [if_neg quick, one_le_ofInt_iff nonneg (by omega), one_le_bounded_iff one minRange maxRange,
        one_le_tdiv_iff (by positivity) (by omega)]
      constructor
      · rintro (large | ⟨positive, below⟩)
        · exact ⟨vanishes, Or.inl (by exact_mod_cast large)⟩
        · exact ⟨vanishes, Or.inr (Or.inr ⟨by omega, below⟩)⟩
      · rintro ⟨_, large | recent | ⟨positive, below⟩⟩
        · exact Or.inl (by exact_mod_cast large)
        · exact absurd recent quick
        · exact Or.inr ⟨by omega, below⟩

theorem sums_of_limited (limited : ∀ value, |limit value| ≤ 1080) (timestamps : List UInt64) :
    200 * |weightedSolveTimes limit timestamps difficultyWindowV3| < 2 ^ 63 ∧
      |recentSolveTimes limit timestamps difficultyWindowV3| < 2 ^ 63 := by
  have weighted : |weightedSolveTimes limit timestamps difficultyWindowV3|
      ≤ ∑ i ∈ Finset.Icc 1 difficultyWindowV3, 1080 * (i : Int) := by
    refine le_trans (Finset.abs_sum_le_sum_abs _ _) (Finset.sum_le_sum ?_)
    intro i _
    rw [abs_mul, Nat.abs_cast]
    exact mul_le_mul_of_nonneg_right (limited _) (Int.natCast_nonneg i)
  have recent : |recentSolveTimes limit timestamps difficultyWindowV3|
      ≤ ∑ _i ∈ Finset.Icc 1 difficultyWindowV3, (1080 : Int) := by
    refine le_trans (Finset.abs_sum_le_sum_abs _ _) (Finset.sum_le_sum ?_)
    intro i _
    split
    · exact limited _
    · simp
  have weightedTotal : ∑ i ∈ Finset.Icc 1 difficultyWindowV3, 1080 * (i : Int) = 1976400 := by
    decide
  have recentTotal : ∑ _i ∈ Finset.Icc 1 difficultyWindowV3, (1080 : Int) = 64800 := by
    decide
  omega

end Mevacoin
