/-
The reward of a block: the base reward that is left of the money supply, the penalty
on blocks above the median size, and the change of the emission. The penalty is
computed with 128-bit products and two divisions by a 32-bit number.
-/

import Mathlib.Data.List.Sort
import Mevacoin.Config
import Mevacoin.IntUtil

namespace Mevacoin
open Parameters

def medianValue {α : Type} [Zero α] [OfNat α 2] [Add α] [Div α] [LE α]
    [DecidableRel (α := α) (· ≤ ·)] (values : List α) : α :=
  match values with
  | [] => 0
  | [value] => value
  | values =>
    let n := values.length / 2
    let sorted := values.insertionSort (· ≤ ·)
    if values.length % 2 = 1 then sorted.getD n 0
    else (sorted.getD (n - 1) 0 + sorted.getD n 0) / 2

/-- The second division receives the words of the first quotient. -/
def getPenalizedAmount (amount : UInt64) (medianSize currentBlockSize : Nat) : UInt64 :=
  if amount = 0 then 0
  else if currentBlockSize ≤ medianSize then amount
  else
    let (productLo, productHi) :=
      mul128 amount (UInt64.ofNat (currentBlockSize * (2 * medianSize - currentBlockSize)))
    let divisor := UInt32.ofNat medianSize
    let (quotientHi, quotientLo, _) := div128By32 productHi productLo divisor
    (div128By32 quotientHi quotientLo divisor).2.1

/-- What `getBlockReward` hands back. The emission change is a signed number kept in
an unsigned word. -/
structure BlockReward where
  reward : UInt64
  emissionChange : UInt64
  deriving DecidableEq, Repr

namespace Currency

def baseReward (alreadyGeneratedCoins : UInt64) : UInt64 :=
  if alreadyGeneratedCoins = 0 ∧ genesisBlockReward ≠ 0 then UInt64.ofNat genesisBlockReward
  else (UInt64.ofNat moneySupply - alreadyGeneratedCoins) >>> UInt64.ofNat emissionSpeedFactor

/-- `none` is the answer for a block that is too big. -/
def getBlockReward (blockMajorVersion medianSize currentBlockSize : Nat)
    (alreadyGeneratedCoins fee : UInt64) : Option BlockReward :=
  let medianSize := max medianSize (blockGrantedFullRewardZoneByBlockVersion blockMajorVersion)
  if currentBlockSize > 2 * medianSize then none
  else
    let penalizedBaseReward :=
      getPenalizedAmount (baseReward alreadyGeneratedCoins) medianSize currentBlockSize
    let penalizedFee :=
      if blockMajorVersion ≥ 2 then getPenalizedAmount fee medianSize currentBlockSize else fee
    some {
      reward := penalizedBaseReward + penalizedFee
      emissionChange := penalizedBaseReward - (fee - penalizedFee) }

end Currency
end Mevacoin
