/-
When the oldest algorithm, over a sorted and trimmed window, yields a usable
difficulty. Of its three endings the one that rounds up and the one with a floor
give zero only for absurd time spans, the one that rounds down as soon as the time
span exceeds the scaled work.
-/

import Mathlib.Data.List.Pairwise
import Mevacoin.Difficulty.Algorithms

namespace Mevacoin
open List Parameters UInt64 Currency

variable {timestamps cumulativeDifficulties : List UInt64} {span : Nat} {low : UInt64}

/-! ### Exact spans and work -/

theorem getD_lt_of_increasing {values : List UInt64} (increasing : values.Pairwise (· < ·))
    {i j : Nat} (before : i < j) (inside : j < values.length) :
    values.getD i 0 < values.getD j 0 := by
  rw [getD_eq_getElem _ _ (by omega), getD_eq_getElem _ _ inside]
  exact pairwise_iff_getElem.mp increasing i j (by omega) inside before

theorem getD_le_of_sorted {values : List UInt64} (sorted : values.Pairwise (· ≤ ·))
    {i j : Nat} (before : i ≤ j) (inside : j < values.length) :
    values.getD i 0 ≤ values.getD j 0 := by
  rcases Nat.eq_or_lt_of_le before with same | strictly
  · rw [same]
    exact UInt64.le_refl _
  · rw [getD_eq_getElem _ _ (by omega), getD_eq_getElem _ _ inside]
    exact pairwise_iff_getElem.mp sorted i j (by omega) inside strictly

/-- Time between the first and the last timestamp kept after sorting and trimming. -/
def keptTimeSpan (window cut : Nat) (timestamps : List UInt64) : Nat :=
  let sorted := timestamps.insertionSort (· ≤ ·)
  let range := cutRange window cut timestamps.length
  (sorted.getD (range.2 - 1) 0).toNat - (sorted.getD range.1 0).toNat

def keptWork (window cut : Nat) (cumulativeDifficulties : List UInt64) : Nat :=
  let range := cutRange window cut cumulativeDifficulties.length
  (cumulativeDifficulties.getD (range.2 - 1) 0).toNat
    - (cumulativeDifficulties.getD range.1 0).toNat

theorem cutRange_inside {window cut length : Nat} (roomy : 2 ≤ window - 2 * cut)
    (two : 2 ≤ length) :
    (cutRange window cut length).1 < (cutRange window cut length).2 - 1 ∧
      (cutRange window cut length).2 - 1 < length := by
  unfold cutRange
  split
  · exact ⟨by dsimp only; omega, by dsimp only; omega⟩
  · exact ⟨by dsimp only; omega, by dsimp only; omega⟩

theorem spanAndWork_exact {window cut : Nat} (roomy : 2 ≤ window - 2 * cut)
    (two : 2 ≤ timestamps.length) (sameLength : timestamps.length = cumulativeDifficulties.length)
    (increasing : cumulativeDifficulties.Pairwise (· < ·)) :
    (spanAndWork window cut timestamps cumulativeDifficulties).1.toNat
        = max 1 (keptTimeSpan window cut timestamps) ∧
      (spanAndWork window cut timestamps cumulativeDifficulties).2.toNat
        = keptWork window cut cumulativeDifficulties ∧
      1 ≤ keptWork window cut cumulativeDifficulties := by
  obtain ⟨ordered, inside⟩ := cutRange_inside roomy two
  have sortedLength : (timestamps.insertionSort (· ≤ ·)).length = timestamps.length :=
    length_insertionSort _ _
  have spanOrdered := getD_le_of_sorted (pairwise_insertionSort _ timestamps)
    (Nat.le_of_lt ordered) (by rw [sortedLength]; exact inside)
  have workOrdered := getD_lt_of_increasing increasing ordered (by omega)
  have workWords := lt_iff_toNat_lt.mp workOrdered
  unfold spanAndWork keptTimeSpan keptWork
  rw [← sameLength]
  refine ⟨?_, ?_, ?_⟩
  · rw [apply_ite UInt64.toNat, UInt64.toNat_one, UInt64.toNat_sub_of_le _ _ spanOrdered]
    simp only [← UInt64.toNat_inj, UInt64.toNat_sub_of_le _ _ spanOrdered, UInt64.toNat_zero]
    split <;> omega
  · exact UInt64.toNat_sub_of_le _ _ (UInt64.le_of_lt workOrdered)
  · dsimp only
    omega

/-! ### The three endings -/

/-- The product is exact, and the guard rejects exactly what would overflow the
rounding addition. -/
private theorem scaledWork_exact {totalWork timeSpan : UInt64} {work : Nat}
    (workExact : totalWork.toNat = work) (spanExact : timeSpan.toNat = max 1 span)
    (product : work * 180 < 2 ^ 63) :
    ∃ low, mul128 totalWork (UInt64.ofNat difficultyTarget) = (low, 0) ∧ low.toNat = work * 180 ∧
      (0xFFFFFFFFFFFFFFFF - low < timeSpan - 1 ↔ 2 ^ 64 < work * 180 + max 1 span) := by
  have exact := mul128_exact totalWork (UInt64.ofNat difficultyTarget)
  have target : (UInt64.ofNat difficultyTarget).toNat = 180 := by decide
  rw [workExact, target] at exact
  cases words : mul128 totalWork (UInt64.ofNat difficultyTarget) with
  | mk low high =>
  rw [words] at exact
  dsimp only at exact
  have highZero : high = 0 := by
    apply UInt64.toNat_inj.mp
    rw [UInt64.toNat_zero]
    omega
  subst highZero
  have lowExact : low.toNat = work * 180 := by
    omega
  have largest : (0xFFFFFFFFFFFFFFFF : UInt64).toNat = 2 ^ 64 - 1 := by decide
  have belowLargest : low ≤ 0xFFFFFFFFFFFFFFFF := by
    rw [le_iff_toNat_le, largest]
    omega
  have oneBelow : 1 ≤ timeSpan := by
    rw [le_iff_toNat_le, spanExact, toNat_one]
    omega
  refine ⟨low, rfl, lowExact, ?_⟩
  rw [UInt64.lt_iff_toNat_lt, UInt64.toNat_sub_of_le _ _ belowLargest,
    UInt64.toNat_sub_of_le _ _ oneBelow, largest, spanExact, lowExact, UInt64.toNat_one]
  omega

def lastEntries (count : Nat) (values : List UInt64) : List UInt64 :=
  values.drop (values.length - count)

structure KeptWindow where
  window : Nat
  cut : Nat
  timestamps : List UInt64
  cumulativeDifficulties : List UInt64

def keptWindow (version : Nat) (timestamps cumulativeDifficulties : List UInt64) : KeptWindow :=
  let window := difficultyWindowByBlockVersion version
  { window := window
    cut := difficultyCutByBlockVersion version
    timestamps := timestamps.take window
    cumulativeDifficulties := cumulativeDifficulties.take window }

/-- The window of the recalculation: the last seventeen entries, untrimmed. -/
def recentWindow (version : Nat) (timestamps cumulativeDifficulties : List UInt64) : KeptWindow :=
  let recent := min 17 (timestamps.take (difficultyWindowByBlockVersion version)).length
  { window := 17
    cut := 0
    timestamps := lastEntries recent timestamps
    cumulativeDifficulties := lastEntries recent cumulativeDifficulties }

namespace KeptWindow

def timeSpan (kept : KeptWindow) : Nat := keptTimeSpan kept.window kept.cut kept.timestamps

def work (kept : KeptWindow) : Nat := keptWork kept.window kept.cut kept.cumulativeDifficulties

/-- A window of matching lists with room for two entries after trimming. -/
structure Valid (kept : KeptWindow) : Prop where
  roomy : 2 ≤ kept.window - 2 * kept.cut
  two : 2 ≤ kept.timestamps.length
  sameLength : kept.timestamps.length = kept.cumulativeDifficulties.length
  increasing : kept.cumulativeDifficulties.Pairwise (· < ·)

/-- The word-level quantities of a valid window: its span, its scaled work, and
the overflow guard. -/
theorem Valid.words {kept : KeptWindow} (valid : kept.Valid) (product : kept.work * 180 < 2 ^ 63) :
    ∃ timeSpan totalWork low : UInt64,
      spanAndWork kept.window kept.cut kept.timestamps kept.cumulativeDifficulties
          = (timeSpan, totalWork) ∧
        mul128 totalWork (UInt64.ofNat difficultyTarget) = (low, 0) ∧
        timeSpan.toNat = max 1 kept.timeSpan ∧ low.toNat = kept.work * 180 ∧ 1 ≤ kept.work ∧
        (0xFFFFFFFFFFFFFFFF - low < timeSpan - 1 ↔ 2 ^ 64 < kept.work * 180 + max 1 kept.timeSpan) := by
  obtain ⟨spanExact, workExact, one⟩ :=
    spanAndWork_exact valid.roomy valid.two valid.sameLength valid.increasing
  obtain ⟨low, multiplied, lowExact, guard⟩ := scaledWork_exact workExact spanExact product
  exact ⟨_, _, low, rfl, multiplied, spanExact, lowExact, one, guard⟩

end KeptWindow

section
variable (version : Nat) (sameLength : timestamps.length = cumulativeDifficulties.length)
  (increasing : cumulativeDifficulties.Pairwise (· < ·))
  (two : 2 ≤ (keptWindow version timestamps cumulativeDifficulties).timestamps.length)
include version sameLength increasing two

private theorem keptWindow_valid :
    (keptWindow version timestamps cumulativeDifficulties).Valid := by
  refine ⟨?_, two, ?_, ?_⟩
  · unfold keptWindow difficultyWindowByBlockVersion difficultyCutByBlockVersion
    dsimp only
    split
    · decide
    · split <;> decide
  · unfold keptWindow
    rw [length_take, length_take, sameLength]
  · exact increasing.sublist (take_sublist _ _)

private theorem recentWindow_valid :
    (recentWindow version timestamps cumulativeDifficulties).Valid := by
  unfold keptWindow at two
  have keptLe := length_take_le (difficultyWindowByBlockVersion version) timestamps
  refine ⟨?_, ?_, ?_, ?_⟩
  · change 2 ≤ 17 - 2 * 0
    omega
  · unfold recentWindow lastEntries
    rw [length_drop]
    rw [length_take] at two keptLe ⊢
    omega
  · unfold recentWindow lastEntries
    rw [length_drop, length_drop, sameLength]
  · exact increasing.sublist (drop_sublist _ _)

end

/-- No product of the sorted algorithm leaves the signed range. -/
def SortedProducts (version : Nat) (timestamps cumulativeDifficulties : List UInt64) : Prop :=
  (keptWindow version timestamps cumulativeDifficulties).work * 180 < 2 ^ 63 ∧
    (recentWindow version timestamps cumulativeDifficulties).work * 180 < 2 ^ 63

instance (version : Nat) (timestamps cumulativeDifficulties : List UInt64) :
    Decidable (SortedProducts version timestamps cumulativeDifficulties) :=
  inferInstanceAs (Decidable (_ ∧ _))

/-- What a window must satisfy for the sorted algorithm to return at least one. -/
def SortedUsable (version blockIndex : Nat) (timestamps cumulativeDifficulties : List UInt64) :
    Prop :=
  let kept := keptWindow version timestamps cumulativeDifficulties
  let recent := recentWindow version timestamps cumulativeDifficulties
  kept.timestamps.length ≤ 1 ∨ if 3 ≤ version then kept.timeSpan ≤ kept.work * 180
    else kept.timeSpan + kept.work * 180 ≤ 2 ^ 64 ∧
      (zawyDifficultyBlockIndex ≤ blockIndex → recent.timeSpan + recent.work * 180 ≤ 2 ^ 64)

instance (version blockIndex : Nat) (timestamps cumulativeDifficulties : List UInt64) :
    Decidable (SortedUsable version blockIndex timestamps cumulativeDifficulties) := by
  delta SortedUsable
  infer_instance

private theorem one_le_quotient_iff {timeSpan : UInt64} {work : Nat}
    (lowExact : low.toNat = work * 180) (spanExact : timeSpan.toNat = max 1 span) (one : 1 ≤ work) :
    1 ≤ low / timeSpan ↔ span ≤ work * 180 := by
  rw [UInt64.le_iff_toNat_le, UInt64.toNat_div, UInt64.toNat_one, lowExact, spanExact,
    Nat.le_div_iff_mul_le (by omega)]
  omega

private theorem one_le_rounded_up {timeSpan : UInt64} {work : Nat}
    (lowExact : low.toNat = work * 180) (spanExact : timeSpan.toNat = max 1 span) (one : 1 ≤ work)
    (fits : work * 180 + max 1 span ≤ 2 ^ 64) (product : work * 180 < 2 ^ 63) :
    1 ≤ (low + timeSpan - 1) / timeSpan := by
  have sum : (low + timeSpan - 1).toNat = work * 180 + max 1 span - 1 := by
    rw [UInt64.toNat_sub, UInt64.toNat_add, lowExact, spanExact, UInt64.toNat_one]
    omega
  rw [UInt64.le_iff_toNat_le, UInt64.toNat_div, UInt64.toNat_one, sum, spanExact,
    Nat.le_div_iff_mul_le (by omega)]
  omega

private theorem nextDifficulty_value {version blockIndex : Nat}
    {timeSpan totalWork recentSpan recentWork recentLow : UInt64}
    (two : 2 ≤ (keptWindow version timestamps cumulativeDifficulties).timestamps.length)
    (recentTwo : 2 ≤ (recentWindow version timestamps cumulativeDifficulties).timestamps.length)
    (spanned : spanAndWork (keptWindow version timestamps cumulativeDifficulties).window
      (keptWindow version timestamps cumulativeDifficulties).cut
      (keptWindow version timestamps cumulativeDifficulties).timestamps
      (keptWindow version timestamps cumulativeDifficulties).cumulativeDifficulties
        = (timeSpan, totalWork))
    (multiplied : mul128 totalWork (UInt64.ofNat difficultyTarget) = (low, 0))
    (recentSpanned : spanAndWork 17 0
      (recentWindow version timestamps cumulativeDifficulties).timestamps
      (recentWindow version timestamps cumulativeDifficulties).cumulativeDifficulties
        = (recentSpan, recentWork))
    (recentMultiplied : mul128 recentWork (UInt64.ofNat difficultyTarget) = (recentLow, 0)) :
    nextDifficulty version blockIndex timestamps cumulativeDifficulties
      = if 0xFFFFFFFFFFFFFFFF - low < timeSpan - 1 then 0
        else if 3 ≤ version then low / timeSpan
        else if zawyDifficultyBlockIndex ≤ blockIndex then
          if 0xFFFFFFFFFFFFFFFF - recentLow < recentSpan - 1 then 0
          else if recentLow / recentSpan ≤ 100 then 100 else recentLow / recentSpan
        else (low + timeSpan - 1) / timeSpan := by
  unfold keptWindow recentWindow lastEntries at *
  dsimp only at *
  have long : ¬ (timestamps.take (difficultyWindowByBlockVersion version)).length ≤ 1 := by
    omega
  have recentLong : ¬ (timestamps.drop (timestamps.length - min 17
      (timestamps.take (difficultyWindowByBlockVersion version)).length)).length ≤ 1 := by
    omega
  have versions : (if zawyDifficultyV2 ≠ 0 then 2 else zawyDifficultyBlockVersion) = 3 := rfl
  have atLeast : (version ≥ 3 ∧ (3 : Nat) ≠ 0) = (3 ≤ version) := by simp
  have index : (zawyDifficultyBlockIndex ≠ 0 ∧ zawyDifficultyBlockIndex ≤ blockIndex)
      = (zawyDifficultyBlockIndex ≤ blockIndex) := by simp [zawyDifficultyBlockIndex]
  simp only [nextDifficulty, if_neg long, spanned, multiplied, versions, atLeast, index,
    if_neg recentLong, recentSpanned, recentMultiplied, ne_eq, not_true_eq_false, false_or]

theorem nextDifficulty_usable_iff (version blockIndex : Nat)
    (sameLength : timestamps.length = cumulativeDifficulties.length)
    (increasing : cumulativeDifficulties.Pairwise (· < ·))
    (products : SortedProducts version timestamps cumulativeDifficulties) :
    1 ≤ nextDifficulty version blockIndex timestamps cumulativeDifficulties
      ↔ SortedUsable version blockIndex timestamps cumulativeDifficulties := by
  unfold SortedUsable
  by_cases short : (keptWindow version timestamps cumulativeDifficulties).timestamps.length ≤ 1
  · have startUp : nextDifficulty version blockIndex timestamps cumulativeDifficulties = 1 :=
      if_pos short
    rw [startUp]
    exact ⟨fun _ => Or.inl short, fun _ => le_refl 1⟩
  · have two : 2 ≤ (keptWindow version timestamps cumulativeDifficulties).timestamps.length := by
      omega
    have recentValid := recentWindow_valid version sameLength increasing two
    obtain ⟨keptProduct, recentProduct⟩ := products
    obtain ⟨timeSpan, totalWork, low, spanned, multiplied, spanExact, lowExact, one, guard⟩ :=
      (keptWindow_valid version sameLength increasing two).words keptProduct
    obtain ⟨recentSpan, recentWork, recentLow, recentSpanned, recentMultiplied, recentSpanExact,
      recentLowExact, recentOne, recentGuard⟩ := recentValid.words recentProduct
    have zero : ¬ (1 : UInt64) ≤ 0 := by decide
    rw [nextDifficulty_value two recentValid.two spanned multiplied recentSpanned recentMultiplied]
    simp only [guard, recentGuard, short, false_or]
    by_cases overflow : 2 ^ 64
        < (keptWindow version timestamps cumulativeDifficulties).work * 180
          + max 1 (keptWindow version timestamps cumulativeDifficulties).timeSpan
    · rw [if_pos overflow]
      refine ⟨fun impossible => absurd impossible zero, ?_⟩
      split
      · omega
      · omega
    · rw [if_neg overflow]
      by_cases newer : 3 ≤ version
      · rw [if_pos newer, if_pos newer, one_le_quotient_iff lowExact spanExact one]
      · rw [if_neg newer, if_neg newer]
        by_cases recalculated : zawyDifficultyBlockIndex ≤ blockIndex
        · rw [if_pos recalculated]
          by_cases recentOverflow : 2 ^ 64
              < (recentWindow version timestamps cumulativeDifficulties).work * 180
                + max 1 (recentWindow version timestamps cumulativeDifficulties).timeSpan
          · rw [if_pos recentOverflow]
            refine ⟨fun impossible => absurd impossible zero, ?_⟩
            omega
          · rw [if_neg recentOverflow]
            constructor
            · intro _
              exact ⟨by omega, fun _ => by omega⟩
            · intro _
              split
              · decide
              · rename_i large
                exact UInt64.le_trans (by decide) (UInt64.le_of_lt (UInt64.not_le.mp large))
        · rw [if_neg recalculated]
          constructor
          · intro _
            exact ⟨by omega, fun impossible => absurd impossible recalculated⟩
          · intro _
            exact one_le_rounded_up lowExact spanExact one (by omega) keptProduct

end Mevacoin
