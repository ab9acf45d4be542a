/-
The five difficulty algorithms and their dispatch on the block index. Unsigned code
is over 64-bit words, the signed code of the older weighted averages over integers
that are reduced to the 64-bit range after every operation. A division by zero stops
the process: `none`.
-/

import Mathlib.Data.List.Sort
import Mevacoin.Config
import Mevacoin.IntUtil

namespace Mevacoin
open Parameters

/-- Reduction to the range of a signed 64-bit integer. -/
def int64 (value : Int) : Int := Int.bmod value (2 ^ 64)

/-- The loop shared by the three signed averages: the weighted sum of the solve
times and the sum of the last three of them. -/
def lwma2Sums (solveTime : Int → Int) (timestamps : List UInt64) (count : Nat) : Int × Int :=
  (List.range' 1 count).foldl
    (fun sums i =>
      let ST := solveTime (int64
        (int64 (timestamps.getD i 0).toNat - int64 (timestamps.getD (i - 1) 0).toNat))
      (int64 (sums.1 + int64 (ST * i)),
        if i > difficultyWindowV3 - 3 then int64 (sums.2 + ST) else sums.2))
    (0, 0)

/-- The common body of the three signed averages. The arguments are what they do
not share: how a solve time is limited, the two percentages that bound the next
difficulty, and what happens after three quick blocks. -/
def lwma2 (solveTime : Int → Int) (minPercent maxPercent : Int) (afterQuick : Int → Int → Int)
    (timestamps cumulativeDifficulties : List UInt64) : Option UInt64 :=
  let T : Int := difficultyTarget
  let N := difficultyWindowV3
  if timestamps.length < N + 1 then some 10000
  else
    let (L, sum3ST) := lwma2Sums solveTime timestamps N
    let top := cumulativeDifficulties.getD N 0
    let work := int64 (top - cumulativeDifficulties.getD 0 0).toNat
    let prevD := int64 (top - cumulativeDifficulties.getD (N - 1) 0).toNat
    if int64 (100 * 2 * L) = 0 then none
    else
      let nextD := (int64 (int64 (int64 (work * T) * (N + 1)) * 99)).tdiv (int64 (100 * 2 * L))
      let nextD := max ((int64 (prevD * minPercent)).tdiv 100)
        (min nextD ((int64 (prevD * maxPercent)).tdiv 100))
      let nextD := if sum3ST < (8 * T).tdiv 10 then afterQuick nextD prevD else nextD
      some (UInt64.ofInt nextD)

def solveTimeV3 (ST : Int) : Int :=
  max (-(blockFutureTimeLimitV3 : Int)) (min ST (6 * difficultyTarget))

def nextDifficultyV3 (timestamps cumulativeDifficulties : List UInt64) : Option UInt64 :=
  lwma2 solveTimeV3 70 107 (fun _ prevD => (int64 (prevD * 110)).tdiv 100)
    timestamps cumulativeDifficulties

def clamp (n lower upper : Int) : Int := max lower (min n upper)

/-- The call passes the lower limit where `clamp` expects the value, and the value
where it expects the lower limit. -/
def solveTimeV4 (ST : Int) : Int := clamp (-6 * difficultyTarget) ST (6 * difficultyTarget)

def nextDifficultyV4 (timestamps cumulativeDifficulties : List UInt64) : Option UInt64 :=
  lwma2 solveTimeV4 67 150 (fun nextD prevD => max nextD ((int64 (prevD * 110)).tdiv 100))
    timestamps cumulativeDifficulties

def solveTimeV5 (ST : Int) : Int := max (-4 * difficultyTarget) (min ST (6 * difficultyTarget))

def nextDifficultyV5 (timestamps cumulativeDifficulties : List UInt64) : Option UInt64 :=
  lwma2 solveTimeV5 67 150 (fun nextD prevD => max nextD ((int64 (prevD * 108)).tdiv 100))
    timestamps cumulativeDifficulties

structure Lwma3Sums where
  previousTimestamp : UInt64
  L : UInt64
  sum3ST : UInt64

def lwma3Step (N : Nat) (timestamps : List UInt64) (sums : Lwma3Sums) (i : Nat) : Lwma3Sums :=
  let timestamp := timestamps.getD i 0
  let thisTimestamp :=
    if timestamp > sums.previousTimestamp then timestamp else sums.previousTimestamp + 1
  let ST := min (6 * UInt64.ofNat difficultyTarget) (thisTimestamp - sums.previousTimestamp)
  { previousTimestamp := thisTimestamp
    L := sums.L + ST * UInt64.ofNat i
    sum3ST := if i > N - 3 then sums.sum3ST + ST else sums.sum3ST }

def lwma3Sums (N : Nat) (timestamps : List UInt64) (count : Nat) : Lwma3Sums :=
  (List.range' 1 count).foldl (lwma3Step N timestamps)
    { previousTimestamp := timestamps.getD 0 0, L := 0, sum3ST := 0 }

def nextDifficultyV6 (timestamps cumulativeDifficulties : List UInt64) : Option UInt64 :=
  let T := UInt64.ofNat difficultyTarget
  if timestamps.length ≤ 10 then some 10000
  else
    let N := if timestamps.length < difficultyBlocksCountV3 then timestamps.length - 1
      else difficultyWindowV3
    let sums := lwma3Sums N timestamps N
    let top := cumulativeDifficulties.getD N 0
    if 100 * 2 * sums.L = 0 then none
    else
      let nextD := ((top - cumulativeDifficulties.getD 0 0) * T * (UInt64.ofNat N + 1) * 99)
        / (100 * 2 * sums.L)
      let prevD := top - cumulativeDifficulties.getD (N - 1) 0
      let nextD := max ((prevD * 67) / 100) (min nextD ((prevD * 150) / 100))
      some (if sums.sum3ST < (8 * T) / 10 then max nextD ((prevD * 108) / 100) else nextD)

/-! ### The sorted window -/

def cutRange (window cut length : Nat) : Nat × Nat :=
  if length ≤ window - 2 * cut then (0, length)
  else
    let cutBegin := (length - (window - 2 * cut) + 1) / 2
    (cutBegin, cutBegin + (window - 2 * cut))

/-- Time span and total work of a window, as `nextDifficulty` computes them twice. -/
def spanAndWork (window cut : Nat) (timestamps cumulativeDifficulties : List UInt64) :
    UInt64 × UInt64 :=
  let sorted := timestamps.insertionSort (· ≤ ·)
  let (cutBegin, cutEnd) := cutRange window cut timestamps.length
  let timeSpan := sorted.getD (cutEnd - 1) 0 - sorted.getD cutBegin 0
  (if timeSpan = 0 then 1 else timeSpan,
    cumulativeDifficulties.getD (cutEnd - 1) 0 - cumulativeDifficulties.getD cutBegin 0)

namespace Currency

def nextDifficulty (version blockIndex : Nat) (timestamps cumulativeDifficulties : List UInt64) :
    UInt64 :=
  let window := difficultyWindowByBlockVersion version
  let kept := timestamps.take window
  if kept.length ≤ 1 then 1
  else
    let (timeSpan, totalWork) := spanAndWork window (difficultyCutByBlockVersion version)
      kept (cumulativeDifficulties.take window)
    let (low, high) := mul128 totalWork (UInt64.ofNat difficultyTarget)
    if high ≠ 0 ∨ 0xFFFFFFFFFFFFFFFF - low < timeSpan - 1 then 0
    else
      let zawyVersion := if zawyDifficultyV2 ≠ 0 then 2 else zawyDifficultyBlockVersion
      if version ≥ zawyVersion ∧ zawyVersion ≠ 0 then low / timeSpan
      else if zawyDifficultyBlockIndex ≠ 0 ∧ zawyDifficultyBlockIndex ≤ blockIndex then
        let recent := min 17 kept.length
        let recentTimestamps := timestamps.drop (timestamps.length - recent)
        let recentDifficulties :=
          cumulativeDifficulties.drop (cumulativeDifficulties.length - recent)
        if recentTimestamps.length ≤ 1 then 1
        else
          let (timeSpan, totalWork) := spanAndWork 17 0 recentTimestamps recentDifficulties
          let (low, high) := mul128 totalWork (UInt64.ofNat difficultyTarget)
          if high ≠ 0 ∨ 0xFFFFFFFFFFFFFFFF - low < timeSpan - 1 then 0
          else
            let nextDiffZ := low / timeSpan
            if nextDiffZ ≤ 100 then 100 else nextDiffZ
      else (low + timeSpan - 1) / timeSpan

/-- `none` is a division by zero. -/
def getNextDifficulty (version blockIndex : Nat)
    (timestamps cumulativeDifficulties : List UInt64) : Option UInt64 :=
  if blockIndex ≥ lwma3DifficultyBlockIndex then
    nextDifficultyV6 timestamps cumulativeDifficulties
  else if blockIndex ≥ lwma2DifficultyBlockIndexV3 then
    nextDifficultyV5 timestamps cumulativeDifficulties
  else if blockIndex ≥ lwma2DifficultyBlockIndexV2 then
    nextDifficultyV4 timestamps cumulativeDifficulties
  else if blockIndex ≥ lwma2DifficultyBlockIndex then
    nextDifficultyV3 timestamps cumulativeDifficulties
  else
    some (nextDifficulty version blockIndex timestamps cumulativeDifficulties)

end Currency
end Mevacoin
