/-
Network parameters and the height or version dependent limits that the currency
object derives from them. Values are those of the main network; the builder's
test network overrides and the wallet-side parameters are not used by the core.
-/

import Mathlib.Data.Nat.Basic

namespace Mevacoin
namespace Parameters

def difficultyTarget : Nat := 180
def maxTxSize : Nat := 1000000000
def maxBlockNumber : Nat := 500000000
def minedMoneyUnlockWindow : Nat := 20
def blockFutureTimeLimit : Nat := 60 * 60 * 2
def blockFutureTimeLimitV3 : Nat := 3 * difficultyTarget
def blockFutureTimeLimitV4 : Nat := 6 * difficultyTarget
def timestampCheckWindow : Nat := 60
def timestampCheckWindowV3 : Nat := 11
def moneySupply : Nat := 10000000000000000
def zawyDifficultyBlockIndex : Nat := 187000
def zawyDifficultyV2 : Nat := 0
def zawyDifficultyBlockVersion : Nat := 3
def lwma2DifficultyBlockIndex : Nat := 620000
def lwma2DifficultyBlockIndexV2 : Nat := 700000
def lwma2DifficultyBlockIndexV3 : Nat := 800000
def lwma3DifficultyBlockIndex : Nat := 2200000
def emissionSpeedFactor : Nat := 28
def genesisBlockReward : Nat := 0
def rewardBlocksWindow : Nat := 100
def blockGrantedFullRewardZone : Nat := 100000
def blockGrantedFullRewardZoneV2 : Nat := 20000
def blockGrantedFullRewardZoneV1 : Nat := 10000
def difficultyWindow : Nat := 17
def difficultyWindowV1 : Nat := 2880
def difficultyWindowV2 : Nat := 2880
def difficultyWindowV3 : Nat := 60
def difficultyBlocksCountV3 : Nat := difficultyWindowV3 + 1
def difficultyCut : Nat := 0
def difficultyCutV1 : Nat := 60
def difficultyCutV2 : Nat := 60
def difficultyLag : Nat := 0
def difficultyLagV1 : Nat := 15
def difficultyLagV2 : Nat := 15
def maxBlockSizeInitial : Nat := 100000
def maxBlockSizeGrowthSpeedNumerator : Nat := 100 * 1024
def maxBlockSizeGrowthSpeedDenominator : Nat := 365 * 24 * 60 * 60 / difficultyTarget
def blockBlobShuffleCheckHeight : Nat := 1750000
def transactionSignatureCountValidationHeight : Nat := 1750000
def mixinLimitsV1Height : Nat := 440000
def mixinLimitsV2Height : Nat := 620000
def mixinLimitsV3Height : Nat := 800000
def mixinLimitsV4Height : Nat := 1250000
def lockedTxAllowedDeltaBlocks : Nat := 1
def lockedTxAllowedDeltaSeconds : Nat := difficultyTarget * lockedTxAllowedDeltaBlocks
def upgradeHeightV2 : Nat := 1
def upgradeHeightV3 : Nat := 2
def upgradeHeightV4 : Nat := 3
def upgradeHeightV5 : Nat := 4

end Parameters

open Parameters

namespace Currency

def difficultyWindowByBlockVersion (blockMajorVersion : Nat) : Nat :=
  if blockMajorVersion ≥ 3 then difficultyWindow
  else if blockMajorVersion = 2 then difficultyWindowV2
  else difficultyWindowV1

def difficultyLagByBlockVersion (blockMajorVersion : Nat) : Nat :=
  if blockMajorVersion ≥ 3 then difficultyLag
  else if blockMajorVersion = 2 then difficultyLagV2
  else difficultyLagV1

def difficultyCutByBlockVersion (blockMajorVersion : Nat) : Nat :=
  if blockMajorVersion ≥ 3 then difficultyCut
  else if blockMajorVersion = 2 then difficultyCutV2
  else difficultyCutV1

def difficultyBlocksCountByBlockVersion (blockMajorVersion height : Nat) : Nat :=
  if height ≥ lwma2DifficultyBlockIndex then difficultyBlocksCountV3
  else difficultyWindowByBlockVersion blockMajorVersion
    + difficultyLagByBlockVersion blockMajorVersion

def blockGrantedFullRewardZoneByBlockVersion (blockMajorVersion : Nat) : Nat :=
  if blockMajorVersion ≥ 3 then blockGrantedFullRewardZone
  else if blockMajorVersion = 2 then blockGrantedFullRewardZoneV2
  else blockGrantedFullRewardZoneV1

def maxBlockCumulativeSize (height : Nat) : Nat :=
  maxBlockSizeInitial
    + (height * maxBlockSizeGrowthSpeedNumerator) / maxBlockSizeGrowthSpeedDenominator

def timestampCheckWindow (blockHeight : Nat) : Nat :=
  if blockHeight ≥ lwma2DifficultyBlockIndexV3 then timestampCheckWindowV3
  else Parameters.timestampCheckWindow

def blockFutureTimeLimit (blockHeight : Nat) : Nat :=
  if blockHeight ≥ lwma2DifficultyBlockIndexV2 then blockFutureTimeLimitV4
  else if blockHeight ≥ lwma2DifficultyBlockIndex then blockFutureTimeLimitV3
  else Parameters.blockFutureTimeLimit

end Currency

namespace UpgradeManager

/-- The detectors are scanned from the newest upgrade down; the first one whose
upgrade index lies below the block index decides. -/
def getBlockMajorVersion (blockIndex : Nat) : Nat :=
  if upgradeHeightV5 < blockIndex then 5
  else if upgradeHeightV4 < blockIndex then 4
  else if upgradeHeightV3 < blockIndex then 3
  else if upgradeHeightV2 < blockIndex then 2
  else 1

end UpgradeManager
end Mevacoin
