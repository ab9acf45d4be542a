/-
When the unsigned weighted average yields a usable difficulty. Its timestamps are
first made strictly increasing, so the weighted sum is never zero; the difficulty
can still be, by rounding, when the last one is one.
-/

import Mathlib.Algebra.BigOperators.Intervals
import Mathlib.Algebra.Order.BigOperators.Group.Finset
import Mathlib.Algebra.Group.Action.Defs
import Mathlib.Order.Interval.Finset.Nat
import Mathlib.Data.UInt
import Mevacoin.Difficulty.Algorithms

namespace Mevacoin
open Parameters
open scoped BigOperators
open UInt64 (ofNat toNat toNat_add toNat_div toNat_max toNat_min toNat_mul toNat_ofNat' toNat_one)

/-- Timestamps made strictly increasing, as the loop carries them along. -/
def adjustedTimestamp (timestamps : List UInt64) : Nat → UInt64
  | 0 => timestamps.getD 0 0
  | i + 1 =>
    if timestamps.getD (i + 1) 0 > adjustedTimestamp timestamps i then timestamps.getD (i + 1) 0
    else adjustedTimestamp timestamps i + 1

/-- The solve time of the block at position `i`, between one and six targets. -/
def monotoneSolveTime (timestamps : List UInt64) (i : Nat) : Nat :=
  min 1080 (adjustedTimestamp timestamps i - adjustedTimestamp timestamps (i - 1)).toNat

def weightedMonotone (timestamps : List UInt64) (count : Nat) : Nat :=
  ∑ i ∈ Finset.Icc 1 count, monotoneSolveTime timestamps i * i

def recentMonotone (N : Nat) (timestamps : List UInt64) (count : Nat) : Nat :=
  ∑ i ∈ Finset.Icc 1 count, if i > N - 3 then monotoneSolveTime timestamps i else 0

theorem one_le_monotoneSolveTime (timestamps : List UInt64) (i : Nat) :
    1 ≤ monotoneSolveTime timestamps (i + 1) := by
  unfold monotoneSolveTime
  rw [Nat.add_sub_cancel, adjustedTimestamp]
  split
  · rename_i later
    have strictly : (adjustedTimestamp timestamps i).toNat < (timestamps.getD (i + 1) 0).toNat :=
      UInt64.lt_iff_toNat_lt.mp later
    rw [UInt64.toNat_sub_of_le _ _ (UInt64.le_of_lt later)]
    omega
  · have successor : adjustedTimestamp timestamps i + 1 - adjustedTimestamp timestamps i = 1 := by
      rw [UInt64.add_comm, UInt64.add_sub_cancel]
    rw [successor]
    decide

theorem monotoneSolveTime_le (timestamps : List UInt64) (i : Nat) :
    monotoneSolveTime timestamps i ≤ 1080 :=
  Nat.min_le_left _ _

private theorem weightedMonotone_succ (timestamps : List UInt64) (count : Nat) :
    weightedMonotone timestamps (count + 1) = weightedMonotone timestamps count
      + monotoneSolveTime timestamps (count + 1) * (count + 1) := by
  unfold weightedMonotone
  rw [Finset.sum_Icc_succ_top (by omega)]

private theorem recentMonotone_succ (N : Nat) (timestamps : List UInt64) (count : Nat) :
    recentMonotone N timestamps (count + 1) = recentMonotone N timestamps count
      + if count + 1 > N - 3 then monotoneSolveTime timestamps (count + 1) else 0 := by
  unfold recentMonotone
  rw [Finset.sum_Icc_succ_top (by omega)]

theorem weightedMonotone_le (timestamps : List UInt64) (count : Nat) :
    weightedMonotone timestamps count ≤ count * (1080 * count) := by
  have each : ∀ i ∈ Finset.Icc 1 count, monotoneSolveTime timestamps i * i ≤ 1080 * count := by
    intro i member
    exact Nat.mul_le_mul (monotoneSolveTime_le _ _) (Finset.mem_Icc.mp member).2
  have total := Finset.sum_le_card_nsmul _ _ _ each
  rw [Nat.card_Icc, smul_eq_mul, Nat.add_sub_cancel] at total
  exact total

theorem recentMonotone_le (N : Nat) (timestamps : List UInt64) (count : Nat) :
    recentMonotone N timestamps count ≤ count * 1080 := by
  have each : ∀ i ∈ Finset.Icc 1 count,
      (if i > N - 3 then monotoneSolveTime timestamps i else 0) ≤ 1080 := by
    intro i _
    split
    · exact monotoneSolveTime_le _ _
    · exact Nat.zero_le _
  have total := Finset.sum_le_card_nsmul _ _ _ each
  rw [Nat.card_Icc, smul_eq_mul, Nat.add_sub_cancel] at total
  exact total

theorem weightedMonotone_pos (timestamps : List UInt64) {count : Nat} (nonempty : 0 < count) :
    0 < weightedMonotone timestamps count := by
  obtain ⟨previous, rfl⟩ : ∃ previous, count = previous + 1 := ⟨count - 1, by omega⟩
  rw [weightedMonotone_succ]
  have last := Nat.mul_le_mul (one_le_monotoneSolveTime timestamps previous)
    (Nat.le_add_left 1 previous)
  omega

/-! ### Closed form of the loop -/

private theorem lwma3Step_closed (N : Nat) (timestamps : List UInt64) (sums : Lwma3Sums)
    {count : Nat} (carried : sums.previousTimestamp = adjustedTimestamp timestamps count) :
    ∃ solveTime : UInt64, solveTime.toNat = monotoneSolveTime timestamps (count + 1) ∧
      lwma3Step N timestamps sums (count + 1)
        = { previousTimestamp := adjustedTimestamp timestamps (count + 1)
            L := sums.L + solveTime * ofNat (count + 1)
            sum3ST := if count + 1 > N - 3 then sums.sum3ST + solveTime else sums.sum3ST } := by
  refine ⟨min (6 * ofNat difficultyTarget)
    (adjustedTimestamp timestamps (count + 1) - adjustedTimestamp timestamps count), ?_, ?_⟩
  · rw [toNat_min]
    rfl
  · rw [adjustedTimestamp, ← carried]
    rfl

theorem lwma3Sums_closed (N : Nat) (timestamps : List UInt64) {count : Nat}
    (short : count ≤ difficultyWindowV3) :
    (lwma3Sums N timestamps count).previousTimestamp = adjustedTimestamp timestamps count ∧
      (lwma3Sums N timestamps count).L.toNat = weightedMonotone timestamps count ∧
      (lwma3Sums N timestamps count).sum3ST.toNat = recentMonotone N timestamps count := by
  have width : difficultyWindowV3 = 60 := rfl
  induction count with
  | zero =>
    exact ⟨rfl, rfl, rfl⟩
  | succ count ih =>
    obtain ⟨carried, weighted, recent⟩ := ih (by omega)
    have step : lwma3Sums N timestamps (count + 1)
        = lwma3Step N timestamps (lwma3Sums N timestamps count) (count + 1) := by
      unfold lwma3Sums
      rw [List.range'_1_concat, List.foldl_append, Nat.add_comm 1 count]
      rfl
    obtain ⟨solveTime, solveWord, stepped⟩ := lwma3Step_closed N timestamps _ carried
    have weightedBound := weightedMonotone_le timestamps (count + 1)
    have recentBound := recentMonotone_le N timestamps (count + 1)
    have squared : (count + 1) * (1080 * (count + 1)) ≤ 60 * (1080 * 60) :=
      Nat.mul_le_mul (by omega) (Nat.mul_le_mul_left _ (by omega))
    have positionWord : (ofNat (count + 1)).toNat = count + 1 := by
      rw [toNat_ofNat']
      omega
    rw [weightedMonotone_succ] at weightedBound
    rw [recentMonotone_succ] at recentBound
    rw [step, stepped, weightedMonotone_succ, recentMonotone_succ]
    refine ⟨rfl, ?_, ?_⟩
    · rw [toNat_add, toNat_mul, weighted, positionWord, solveWord]
      omega
    · split
      · rename_i late
        rw [if_pos late] at recentBound
        rw [toNat_add, recent, solveWord]
        omega
      · exact recent

/-! ### The bounded average -/

/-- Number of solve times used: all there are, up to a full window. -/
def lwma3Count (length : Nat) : Nat :=
  if length < difficultyBlocksCountV3 then length - 1 else difficultyWindowV3

/-- A window long enough for the average: the two work differences it reads, and
the bound on its largest product. -/
structure Lwma3Window (timestamps cumulativeDifficulties : List UInt64) (work prev : Nat) :
    Prop where
  long : 10 < timestamps.length
  workExact : (cumulativeDifficulties.getD (lwma3Count timestamps.length) 0
    - cumulativeDifficulties.getD 0 0).toNat = work
  prevExact : (cumulativeDifficulties.getD (lwma3Count timestamps.length) 0
    - cumulativeDifficulties.getD (lwma3Count timestamps.length - 1) 0).toNat = prev
  prevPositive : 1 ≤ prev
  prevLeWork : prev ≤ work
  workProduct : work * 180 * (lwma3Count timestamps.length + 1) * 99 < 2 ^ 63

def Lwma3Usable (timestamps : List UInt64) (work prev : Nat) : Prop :=
  let count := lwma3Count timestamps.length
  2 ≤ prev ∨ recentMonotone count timestamps count < 144
    ∨ 200 * weightedMonotone timestamps count ≤ work * 180 * (count + 1) * 99

instance (timestamps : List UInt64) (work prev : Nat) :
    Decidable (Lwma3Usable timestamps work prev) :=
  inferInstanceAs (Decidable (_ ∨ _ ∨ _))

theorem lwma3Count_lt {length : Nat} (long : 10 < length) : lwma3Count length < length := by
  have width : difficultyWindowV3 = 60 := rfl
  have blocks : difficultyBlocksCountV3 = 61 := rfl
  unfold lwma3Count
  split <;> omega

theorem lwma3Count_range {length : Nat} (long : 10 < length) :
    10 ≤ lwma3Count length ∧ lwma3Count length ≤ difficultyWindowV3 := by
  have width : difficultyWindowV3 = 60 := rfl
  have blocks : difficultyBlocksCountV3 = 61 := rfl
  unfold lwma3Count
  split <;> omega

private def lwma3Bounded (timestamps : List UInt64) (work prev : Nat) : Nat :=
  max (prev * 67 / 100)
    (min (work * 180 * (lwma3Count timestamps.length + 1) * 99
        / (200 * weightedMonotone timestamps (lwma3Count timestamps.length)))
      (prev * 150 / 100))

private theorem nextDifficultyV6_value {timestamps cumulativeDifficulties : List UInt64}
    {work prev : Nat} (window : Lwma3Window timestamps cumulativeDifficulties work prev) :
    ∃ difficulty, nextDifficultyV6 timestamps cumulativeDifficulties = some difficulty ∧
      difficulty.toNat
        = if recentMonotone (lwma3Count timestamps.length) timestamps
              (lwma3Count timestamps.length) < 144 then
            max (lwma3Bounded timestamps work prev) (prev * 108 / 100)
          else lwma3Bounded timestamps work prev := by
  obtain ⟨long, workExact, prevExact, one, prevLe, workBound⟩ := window
  obtain ⟨countLower, countUpper⟩ := lwma3Count_range long
  have width : difficultyWindowV3 = 60 := rfl
  obtain ⟨_, weightedWord, recentWord⟩ :=
    lwma3Sums_closed (lwma3Count timestamps.length) timestamps countUpper
  have weightedPos := weightedMonotone_pos timestamps (show 0 < lwma3Count timestamps.length by omega)
  have weightedLe := weightedMonotone_le timestamps (lwma3Count timestamps.length)
  have squared : lwma3Count timestamps.length * (1080 * lwma3Count timestamps.length)
      ≤ 60 * (1080 * 60) := Nat.mul_le_mul (by omega) (Nat.mul_le_mul_left _ (by omega))
  have divisorWord : (100 * 2 * (lwma3Sums (lwma3Count timestamps.length) timestamps
      (lwma3Count timestamps.length)).L).toNat
        = 200 * weightedMonotone timestamps (lwma3Count timestamps.length) := by
    rw [toNat_mul, weightedWord]
    have scale : (100 * 2 : UInt64).toNat = 200 := by decide
    rw [scale]
    omega
  have nonzero : 100 * 2 * (lwma3Sums (lwma3Count timestamps.length) timestamps
      (lwma3Count timestamps.length)).L ≠ 0 := by
    intro vanishes
    rw [vanishes, UInt64.toNat_zero] at divisorWord
    omega
  have workSmall : work * 180 ≤ work * 180 * (lwma3Count timestamps.length + 1) :=
    Nat.le_mul_of_pos_right _ (by omega)
  have prevWord : ∀ percent : UInt64, percent.toNat < 200 →
      ((cumulativeDifficulties.getD (lwma3Count timestamps.length) 0
        - cumulativeDifficulties.getD (lwma3Count timestamps.length - 1) 0) * percent / 100).toNat
        = prev * percent.toNat / 100 := by
    intro percent small
    have product : prev * percent.toNat ≤ prev * 200 := Nat.mul_le_mul_left _ (by omega)
    rw [toNat_div, toNat_mul, prevExact, Nat.mod_eq_of_lt (by omega)]
    rfl
  have countWord : (ofNat (lwma3Count timestamps.length) + 1).toNat
      = lwma3Count timestamps.length + 1 := by
    rw [toNat_add, toNat_ofNat', toNat_one]
    omega
  have targetWord : (ofNat difficultyTarget).toNat = 180 := by decide
  have scaleWord : (99 : UInt64).toNat = 99 := by decide
  have numeratorWord : ((cumulativeDifficulties.getD (lwma3Count timestamps.length) 0
        - cumulativeDifficulties.getD 0 0) * ofNat difficultyTarget
        * (ofNat (lwma3Count timestamps.length) + 1) * 99).toNat
      = work * 180 * (lwma3Count timestamps.length + 1) * 99 := by
    rw [toNat_mul, toNat_mul, toNat_mul, workExact, countWord, targetWord,
      scaleWord, Nat.mod_eq_of_lt (show work * 180 < 2 ^ 64 by omega),
      Nat.mod_eq_of_lt (show work * 180 * (lwma3Count timestamps.length + 1) < 2 ^ 64 by omega),
      Nat.mod_eq_of_lt (by omega)]
  have lowWord := prevWord 67 (by decide)
  have highWord := prevWord 150 (by decide)
  have quickWord := prevWord 108 (by decide)
  have quickLimit : (8 * ofNat difficultyTarget / 10).toNat = 144 := by decide
  have counted : (if timestamps.length < difficultyBlocksCountV3 then timestamps.length - 1
      else difficultyWindowV3) = lwma3Count timestamps.length := rfl
  rw [nextDifficultyV6, if_neg (by omega)]
  simp only [counted, if_neg nonzero]
  refine ⟨_, rfl, ?_⟩
  rw [apply_ite toNat, toNat_max, toNat_max, toNat_min, lowWord, highWord, quickWord,
    toNat_div, numeratorWord, divisorWord]
  simp only [UInt64.lt_iff_toNat_lt, recentWord, quickLimit]
  rfl

/-- The average always divides by a positive number, and yields at least one
exactly on usable windows. -/
theorem nextDifficultyV6_usable_iff {timestamps cumulativeDifficulties : List UInt64}
    {work prev : Nat} (window : Lwma3Window timestamps cumulativeDifficulties work prev) :
    (∃ difficulty, nextDifficultyV6 timestamps cumulativeDifficulties = some difficulty
        ∧ 1 ≤ difficulty)
      ↔ Lwma3Usable timestamps work prev := by
  obtain ⟨difficulty, computed, value⟩ := nextDifficultyV6_value window
  have weightedPos := weightedMonotone_pos timestamps
    (show 0 < lwma3Count timestamps.length by have := lwma3Count_range window.long; omega)
  have average : 1 ≤ work * 180 * (lwma3Count timestamps.length + 1) * 99
        / (200 * weightedMonotone timestamps (lwma3Count timestamps.length))
      ↔ 200 * weightedMonotone timestamps (lwma3Count timestamps.length)
        ≤ work * 180 * (lwma3Count timestamps.length + 1) * 99 := by
    rw [Nat.le_div_iff_mul_le (by omega), one_mul]
  have one := window.prevPositive
  rw [computed]
  simp only [Option.some.injEq, exists_eq_left', UInt64.le_iff_toNat_le, toNat_one, value]
  by_cases quick : recentMonotone (lwma3Count timestamps.length) timestamps
      (lwma3Count timestamps.length) < 144
  · rw [if_pos quick]
    exact ⟨fun _ => Or.inr (Or.inl quick), fun _ => le_max_of_le_right (by omega)⟩
  · rw [if_neg quick, lwma3Bounded, le_max_iff, le_min_iff, average]
    constructor
    · rintro (low | ⟨enough, _⟩)
      · exact Or.inl (by omega)
      · exact Or.inr (Or.inr enough)
    · rintro (large | recent | enough)
      · exact Or.inl (by omega)
      · exact absurd recent quick
      · exact Or.inr ⟨enough, by omega⟩

end Mevacoin
