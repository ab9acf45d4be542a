/-
Which windows give a next difficulty of at least one. The answer is stated over the
timestamps and cumulative difficulties of the window only.
-/

import Mevacoin.Difficulty.Lwma2
import Mevacoin.Difficulty.Lwma3
import Mevacoin.Difficulty.SortedWindow

namespace Mevacoin
open Parameters

variable {cumulativeDifficulties : List UInt64}

def workBetween (cumulativeDifficulties : List UInt64) (low high : Nat) : Nat :=
  (cumulativeDifficulties.getD high 0).toNat - (cumulativeDifficulties.getD low 0).toNat

theorem workBetween_exact (increasing : cumulativeDifficulties.Pairwise (· < ·)) {low high : Nat}
    (before : low < high) (inside : high < cumulativeDifficulties.length) :
    (cumulativeDifficulties.getD high 0 - cumulativeDifficulties.getD low 0).toNat
        = workBetween cumulativeDifficulties low high ∧
      1 ≤ workBetween cumulativeDifficulties low high := by
  have ordered := getD_lt_of_increasing increasing before inside
  have words := UInt64.lt_iff_toNat_lt.mp ordered
  unfold workBetween
  exact ⟨UInt64.toNat_sub_of_le _ _ (UInt64.le_of_lt ordered), by omega⟩

theorem workBetween_mono (increasing : cumulativeDifficulties.Pairwise (· < ·)) {low middle : Nat}
    (high : Nat) (before : low ≤ middle) (inside : middle < cumulativeDifficulties.length) :
    workBetween cumulativeDifficulties middle high ≤ workBetween cumulativeDifficulties low high := by
  have ordered : cumulativeDifficulties.getD low 0 ≤ cumulativeDifficulties.getD middle 0 := by
    rcases Nat.eq_or_lt_of_le before with same | strictly
    · rw [same]
      exact UInt64.le_refl _
    · exact UInt64.le_of_lt (getD_lt_of_increasing increasing strictly inside)
  have words := UInt64.le_iff_toNat_le.mp ordered
  unfold workBetween
  omega

/-- No product that the algorithm in charge forms exceeds the signed 64-bit range.
The solve times of the fourth algorithm have no upper limit, so their weighted sum
is part of the condition there. -/
def ProductsInRange (version blockIndex : Nat) (timestamps cumulativeDifficulties : List UInt64) :
    Prop :=
  if lwma3DifficultyBlockIndex ≤ blockIndex then
    let count := lwma3Count timestamps.length
    workBetween cumulativeDifficulties 0 count * 180 * (count + 1) * 99 < 2 ^ 63
  else if lwma2DifficultyBlockIndex ≤ blockIndex then
    workBetween cumulativeDifficulties 0 difficultyWindowV3 * 180 * 61 * 99 < 2 ^ 63 ∧
      (lwma2DifficultyBlockIndexV2 ≤ blockIndex → blockIndex < lwma2DifficultyBlockIndexV3 →
        200 * |weightedSolveTimes solveTimeV4 timestamps difficultyWindowV3| < 2 ^ 63 ∧
          |recentSolveTimes solveTimeV4 timestamps difficultyWindowV3| < 2 ^ 63)
  else SortedProducts version timestamps cumulativeDifficulties

instance (version blockIndex : Nat) (timestamps cumulativeDifficulties : List UInt64) :
    Decidable (ProductsInRange version blockIndex timestamps cumulativeDifficulties) := by
  delta ProductsInRange
  infer_instance

/-- A window on which one of the signed averages yields at least one: it is still
filling up, or it is usable. -/
def SignedUsable (limit : Int → Int) (timestamps cumulativeDifficulties : List UInt64) : Prop :=
  timestamps.length < difficultyBlocksCountV3 ∨
    Lwma2Usable limit timestamps (workBetween cumulativeDifficulties 0 difficultyWindowV3)
      (workBetween cumulativeDifficulties (difficultyWindowV3 - 1) difficultyWindowV3)

instance (limit : Int → Int) (timestamps cumulativeDifficulties : List UInt64) :
    Decidable (SignedUsable limit timestamps cumulativeDifficulties) :=
  inferInstanceAs (Decidable (_ ∨ _))

/-- The windows on which the next difficulty exists and is at least one. -/
def UsableWindow (version blockIndex : Nat) (timestamps cumulativeDifficulties : List UInt64) :
    Prop :=
  if lwma3DifficultyBlockIndex ≤ blockIndex then
    let count := lwma3Count timestamps.length
    timestamps.length ≤ 10 ∨
      Lwma3Usable timestamps (workBetween cumulativeDifficulties 0 count)
        (workBetween cumulativeDifficulties (count - 1) count)
  else if lwma2DifficultyBlockIndexV3 ≤ blockIndex then
    SignedUsable solveTimeV5 timestamps cumulativeDifficulties
  else if lwma2DifficultyBlockIndexV2 ≤ blockIndex then
    SignedUsable solveTimeV4 timestamps cumulativeDifficulties
  else if lwma2DifficultyBlockIndex ≤ blockIndex then
    SignedUsable solveTimeV3 timestamps cumulativeDifficulties
  else SortedUsable version blockIndex timestamps cumulativeDifficulties

instance (version blockIndex : Nat) (timestamps cumulativeDifficulties : List UInt64) :
    Decidable (UsableWindow version blockIndex timestamps cumulativeDifficulties) := by
  delta UsableWindow
  infer_instance

/-! ### The signed averages -/

private theorem percent_at_least_one {prev percent : Int} (one : 1 ≤ prev)
    (range : 100 ≤ percent ∧ percent < 200) (small : prev * 200 < 2 ^ 63) :
    1 ≤ (int64 (prev * percent)).tdiv 100 ∧ (int64 (prev * percent)).tdiv 100 < 2 ^ 63 := by
  have nonneg : 0 ≤ prev * percent := mul_nonneg (by omega) (by omega)
  have upper : prev * percent ≤ prev * 200 := mul_le_mul_of_nonneg_left (by omega) (by omega)
  have lower : prev * 100 ≤ prev * percent := mul_le_mul_of_nonneg_left range.1 (by omega)
  rw [int64_of_range (by omega) (by omega), Int.tdiv_eq_ediv_of_nonneg nonneg]
  omega

/-- One lemma for the three signed averages: their quick-block rule ends in a
percentage of the last difficulty that is at least one hundred. -/
private theorem signed_usable_iff {limit : Int → Int} {timestamps : List UInt64}
    (sameLength : timestamps.length = cumulativeDifficulties.length)
    (increasing : cumulativeDifficulties.Pairwise (· < ·))
    (workProduct : workBetween cumulativeDifficulties 0 difficultyWindowV3 * 180 * 61 * 99 < 2 ^ 63)
    (weightedProduct : 200 * |weightedSolveTimes limit timestamps difficultyWindowV3| < 2 ^ 63)
    (recentRange : |recentSolveTimes limit timestamps difficultyWindowV3| < 2 ^ 63)
    {minPercent maxPercent quickPercent : Int} {afterQuick : Int → Int → Int}
    (minRange : 50 ≤ minPercent ∧ minPercent < 100) (maxRange : 100 ≤ maxPercent ∧ maxPercent < 200)
    (quickPercentRange : 100 ≤ quickPercent ∧ quickPercent < 200)
    (quick : ∀ bounded prev, afterQuick bounded prev = (int64 (prev * quickPercent)).tdiv 100 ∨
      afterQuick bounded prev = max bounded ((int64 (prev * quickPercent)).tdiv 100)) :
    (∃ difficulty, lwma2 limit minPercent maxPercent afterQuick timestamps cumulativeDifficulties
        = some difficulty ∧ 1 ≤ difficulty)
      ↔ SignedUsable limit timestamps cumulativeDifficulties := by
  have width : difficultyWindowV3 = 60 := rfl
  have blocks : difficultyBlocksCountV3 = 61 := rfl
  unfold SignedUsable
  by_cases filling : timestamps.length < difficultyBlocksCountV3
  · have startUp : lwma2 limit minPercent maxPercent afterQuick timestamps cumulativeDifficulties
        = some 10000 := if_pos filling
    rw [startUp]
    exact ⟨fun _ => Or.inl filling, fun _ => ⟨10000, rfl, by decide⟩⟩
  · obtain ⟨workExact, _⟩ := workBetween_exact increasing
      (show 0 < difficultyWindowV3 by omega) (by omega)
    obtain ⟨prevExact, one⟩ := workBetween_exact increasing
      (show difficultyWindowV3 - 1 < difficultyWindowV3 by omega) (by omega)
    have prevLe := workBetween_mono increasing difficultyWindowV3
      (show 0 ≤ difficultyWindowV3 - 1 by omega) (by omega)
    generalize workBetween cumulativeDifficulties (difficultyWindowV3 - 1) difficultyWindowV3 = prev
      at prevExact one prevLe ⊢
    have window : Lwma2Window limit timestamps cumulativeDifficulties _ prev :=
      { full := by omega
        workExact := workExact
        prevExact := prevExact
        prevPositive := one
        prevLeWork := prevLe
        workProduct := workProduct
        weightedProduct := weightedProduct
        recentRange := recentRange }
    have quickRange : ∀ bounded : Int, 0 ≤ bounded → bounded < 2 ^ 63 →
        1 ≤ afterQuick bounded prev ∧ afterQuick bounded prev < 2 ^ 64 := by
      intro bounded _ small
      obtain ⟨atLeast, below⟩ := percent_at_least_one
        (show (1 : Int) ≤ prev by exact_mod_cast one) quickPercentRange (by omega)
      rcases quick bounded prev with replaced | raised
      · omega
      · omega
    rw [lwma2_usable_iff window minRange maxRange quickRange]
    simp only [filling, false_or]

private theorem limitedV3 (value : Int) : |solveTimeV3 value| ≤ 1080 := by
  have target : (difficultyTarget : Int) = 180 := rfl
  have future : (blockFutureTimeLimitV3 : Int) = 540 := rfl
  unfold solveTimeV3
  rw [target, future, abs_le]
  omega

private theorem limitedV5 (value : Int) : |solveTimeV5 value| ≤ 1080 := by
  have target : (difficultyTarget : Int) = 180 := rfl
  unfold solveTimeV5
  rw [target, abs_le]
  omega

private theorem unsigned_usable_iff {timestamps : List UInt64}
    (sameLength : timestamps.length = cumulativeDifficulties.length)
    (increasing : cumulativeDifficulties.Pairwise (· < ·))
    (workProduct : workBetween cumulativeDifficulties 0 (lwma3Count timestamps.length) * 180
      * (lwma3Count timestamps.length + 1) * 99 < 2 ^ 63) :
    (∃ difficulty, nextDifficultyV6 timestamps cumulativeDifficulties = some difficulty
        ∧ 1 ≤ difficulty)
      ↔ timestamps.length ≤ 10 ∨
        Lwma3Usable timestamps
          (workBetween cumulativeDifficulties 0 (lwma3Count timestamps.length))
          (workBetween cumulativeDifficulties (lwma3Count timestamps.length - 1)
            (lwma3Count timestamps.length)) := by
  by_cases filling : timestamps.length ≤ 10
  · have startUp : nextDifficultyV6 timestamps cumulativeDifficulties = some 10000 :=
      if_pos filling
    rw [startUp]
    exact ⟨fun _ => Or.inl filling, fun _ => ⟨10000, rfl, by decide⟩⟩
  · obtain ⟨countLower, _⟩ := lwma3Count_range (show 10 < timestamps.length by omega)
    have countInside := lwma3Count_lt (show 10 < timestamps.length by omega)
    obtain ⟨workExact, _⟩ := workBetween_exact increasing
      (show 0 < lwma3Count timestamps.length by omega) (by omega)
    obtain ⟨prevExact, one⟩ := workBetween_exact increasing
      (show lwma3Count timestamps.length - 1 < lwma3Count timestamps.length by omega) (by omega)
    have window : Lwma3Window timestamps cumulativeDifficulties _ _ :=
      { long := by omega
        workExact := workExact
        prevExact := prevExact
        prevPositive := one
        prevLeWork := workBetween_mono increasing _ (by omega) (by omega)
        workProduct := workProduct }
    rw [nextDifficultyV6_usable_iff window]
    simp only [filling, false_or]

/-! ### The dispatch -/

/-- The next difficulty exists and is at least one exactly on usable windows. -/
theorem getNextDifficulty_usable_iff (version blockIndex : Nat)
    (timestamps cumulativeDifficulties : List UInt64)
    (sameLength : timestamps.length = cumulativeDifficulties.length)
    (increasing : cumulativeDifficulties.Pairwise (· < ·))
    (inRange : ProductsInRange version blockIndex timestamps cumulativeDifficulties) :
    (∃ difficulty,
        Currency.getNextDifficulty version blockIndex timestamps cumulativeDifficulties
          = some difficulty ∧ 1 ≤ difficulty)
      ↔ UsableWindow version blockIndex timestamps cumulativeDifficulties := by
  have v3 : lwma2DifficultyBlockIndex = 620000 := rfl
  have v4 : lwma2DifficultyBlockIndexV2 = 700000 := rfl
  have v5 : lwma2DifficultyBlockIndexV3 = 800000 := rfl
  unfold ProductsInRange at inRange
  unfold Currency.getNextDifficulty UsableWindow
  by_cases atV6 : lwma3DifficultyBlockIndex ≤ blockIndex
  · rw [if_pos atV6] at inRange
    rw [if_pos atV6, if_pos atV6]
    exact unsigned_usable_iff sameLength increasing inRange
  · rw [if_neg atV6] at inRange
    rw [if_neg atV6, if_neg atV6]
    by_cases atV5 : lwma2DifficultyBlockIndexV3 ≤ blockIndex
    · rw [if_pos (by omega)] at inRange
      rw [if_pos atV5, if_pos atV5]
      obtain ⟨weighted, recent⟩ := sums_of_limited limitedV5 timestamps
      exact signed_usable_iff sameLength increasing inRange.1 weighted recent (by decide)
        (by decide) (by decide : (100 : Int) ≤ 108 ∧ (108 : Int) < 200)
        (fun _ _ => Or.inr rfl)
    · rw [if_neg atV5, if_neg atV5]
      by_cases atV4 : lwma2DifficultyBlockIndexV2 ≤ blockIndex
      · rw [if_pos (by omega)] at inRange
        rw [if_pos atV4, if_pos atV4]
        obtain ⟨weighted, recent⟩ := inRange.2 atV4 (by omega)
        exact signed_usable_iff sameLength increasing inRange.1 weighted recent (by decide)
          (by decide) (by decide : (100 : Int) ≤ 110 ∧ (110 : Int) < 200)
          (fun _ _ => Or.inr rfl)
      · rw [if_neg atV4, if_neg atV4]
        by_cases atV3 : lwma2DifficultyBlockIndex ≤ blockIndex
        · rw [if_pos atV3] at inRange
          rw [if_pos atV3, if_pos atV3]
          obtain ⟨weighted, recent⟩ := sums_of_limited limitedV3 timestamps
          exact signed_usable_iff sameLength increasing inRange.1 weighted recent (by decide)
            (by decide) (by decide : (100 : Int) ≤ 110 ∧ (110 : Int) < 200)
            (fun _ _ => Or.inl rfl)
        · rw [if_neg atV3] at inRange
          rw [if_neg atV3, if_neg atV3]
          simp only [Option.some.injEq, exists_eq_left']
          exact nextDifficulty_usable_iff version blockIndex sameLength increasing inRange

theorem getNextDifficulty_usable_iff_two_blocks :
    ∃ difficulty, Currency.getNextDifficulty 3 2 [1000, 1100] [2, 3] = some difficulty
      ∧ 1 ≤ difficulty :=
  (getNextDifficulty_usable_iff 3 2 [1000, 1100] [2, 3] rfl (by decide) (by decide)).mpr
    (by decide)

def simultaneousTimestamps : List UInt64 := List.replicate 61 1000

def unitDifficulties : List UInt64 := (List.range 61).map fun i => UInt64.ofNat (i + 1)

/-- Two blocks two hundred seconds apart at difficulty one make the next difficulty
zero, and sixty-one simultaneous blocks make the signed average divide by zero. -/
theorem getNextDifficulty_zero_and_trap :
    (([2, 3] : List UInt64).Pairwise (· < ·) ∧ ProductsInRange 3 2 [1000, 1200] [2, 3] ∧
        Currency.getNextDifficulty 3 2 [1000, 1200] [2, 3] = some 0) ∧
      (simultaneousTimestamps.length = unitDifficulties.length ∧ unitDifficulties.Pairwise (· < ·) ∧
        ProductsInRange 5 800000 simultaneousTimestamps unitDifficulties ∧
        Currency.getNextDifficulty 5 800000 simultaneousTimestamps unitDifficulties = none) := by
  decide +kernel

end Mevacoin
