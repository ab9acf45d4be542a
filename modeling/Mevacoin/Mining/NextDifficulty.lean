/-
The difficulty that a block template is made for, compared with the difficulty that the
block is checked against. The template takes the block version of the top block, the check
that of the next.
-/

import Mevacoin.Core.Heaviest

namespace Mevacoin
open List Parameters Nat Segment BlockEntry Currency UpgradeManager CachedBlockInfo

/-- Whether the overloads without a block index count the genesis block. -/
def Segment.usesGenesis : Segment → Bool
  | database _ => true
  | memory _ => false

namespace Core

def getDifficultyForNextBlock (core : Core) : Option UInt64 := do
  let main ← core.chainsLeaves.head?
  let mainChain ← core.chainsStorage[main]?
  let topBlockIndex := mainChain.getTopBlockIndex
  let nextBlockMajorVersion := getBlockMajorVersion topBlockIndex
  let blocksCount := min topBlockIndex
    (Currency.difficultyBlocksCountByBlockVersion nextBlockMajorVersion topBlockIndex)
  Currency.getNextDifficulty nextBlockMajorVersion topBlockIndex
    (Lineage.getLastTimestamps (core.lineage main) blocksCount topBlockIndex mainChain.usesGenesis)
    (Lineage.getLastCumulativeDifficulties (core.lineage main) blocksCount topBlockIndex
      mainChain.usesGenesis)

end Core

/-- A window of at most as many blocks as there are above the genesis block leaves the
genesis block out. -/
theorem lastInfos_min {count top : Nat} {useGenesis : Bool} {infos : List CachedBlockInfo} :
    lastInfos (min top count) top useGenesis infos = lastInfos count top false infos := by
  unfold lastInfos
  congr 1
  cases useGenesis with
  | true =>
    simp only [if_true, Bool.false_eq_true, if_false]
    omega
  | false =>
    simp only [Bool.false_eq_true, if_false]
    omega

def templateDifficulty (chain : List BlockEntry) : Option UInt64 :=
  let top := chain.length - 1
  let version := getBlockMajorVersion top
  let infos := lastInfos (Currency.difficultyBlocksCountByBlockVersion version top) top false
    (chain.map info)
  Currency.getNextDifficulty version top
    (infos.map timestamp) (infos.map cumulativeDifficulty)

theorem Core.getDifficultyForNextBlock_eq {primitives : Primitives} {core : Core}
    {main : SegmentPtr} (sound : core.Sound primitives)
    (isMain : core.chainsLeaves.head? = some main) :
    core.getDifficultyForNextBlock = templateDifficulty (core.chain main) := by
  obtain ⟨mainChain, found, -⟩ := leaf_found sound.toTreeSound (mem_of_mem_head? isMain)
  obtain ⟨above, items, line, -, stacked, length⟩ := sound.toTreeSound.stacked found
  have isChain := chain_eq sound.toTreeSound line
  have positive : 0 < mainChain.entries.length :=
    sound.tree.items_length_pos (tree_found found)
  have top : mainChain.getTopBlockIndex = items.length - 1 := by
    unfold getTopBlockIndex getBlockCount
    omega
  unfold Core.getDifficultyForNextBlock templateDifficulty Lineage.getLastTimestamps
    Lineage.getLastCumulativeDifficulties
  simp only [isMain, found, Option.bind_eq_bind, Option.bind_some, top, isChain]
  rw [stacked.getLastUnits (sound.unitsCached main) _ _ _
    (lt_of_le_of_lt (min_le_right _ _) (difficultyBlocksCount_narrow _ _))
    (by omega), lastInfos_min]

theorem version_agree {top : Nat} (notSecond : top ≠ 2) (blockIndex : Nat)
    (timestamps cumulativeDifficulties : List UInt64) :
    Currency.difficultyBlocksCountByBlockVersion (getBlockMajorVersion top) blockIndex
        = Currency.difficultyBlocksCountByBlockVersion
          (getBlockMajorVersion (top + 1)) blockIndex ∧
      Currency.getNextDifficulty (getBlockMajorVersion top) blockIndex timestamps
          cumulativeDifficulties
        = Currency.getNextDifficulty (getBlockMajorVersion (top + 1)) blockIndex
          timestamps cumulativeDifficulties := by
  -- versions below three share their parameters, and so do versions from three upwards
  have old : ∀ version, version = 1 ∨ version = 2 →
      difficultyWindowByBlockVersion version = difficultyWindowV1 ∧
      difficultyLagByBlockVersion version = difficultyLagV1 ∧
      difficultyCutByBlockVersion version = difficultyCutV1 ∧
      ¬version ≥ zawyDifficultyBlockVersion := by
    rintro version (rfl | rfl) <;> decide
  have new : ∀ version, 3 ≤ version → difficultyWindowByBlockVersion version = difficultyWindow ∧
      difficultyLagByBlockVersion version = difficultyLag ∧
      difficultyCutByBlockVersion version = difficultyCut ∧
      version ≥ zawyDifficultyBlockVersion := by
    intro version high
    simp only [difficultyWindowByBlockVersion, difficultyLagByBlockVersion,
      difficultyCutByBlockVersion, ge_iff_le, if_pos high]
    exact ⟨trivial, trivial, trivial, high⟩
  have versions :
      ((getBlockMajorVersion top = 1 ∨
          getBlockMajorVersion top = 2) ∧
        (getBlockMajorVersion (top + 1) = 1 ∨ getBlockMajorVersion (top + 1) = 2)) ∨
      (3 ≤ getBlockMajorVersion top ∧ 3 ≤ getBlockMajorVersion (top + 1)) := by
    by_cases low : top < 2
    · have cases : top = 0 ∨ top = 1 := by omega
      rcases cases with rfl | rfl <;> decide
    · right
      unfold getBlockMajorVersion upgradeHeightV2 upgradeHeightV3 upgradeHeightV4
      constructor <;> split_ifs <;> omega
  unfold difficultyBlocksCountByBlockVersion getNextDifficulty
    Currency.nextDifficulty
  rcases versions with ⟨first, second⟩ | ⟨first, second⟩
  · obtain ⟨window, lag, cut, zawy⟩ := old _ first
    obtain ⟨window', lag', cut', zawy'⟩ := old _ second
    have notZero : ¬zawyDifficultyV2 ≠ 0 := by decide
    simp only [window, lag, cut, window', lag', cut', if_neg notZero, zawy, zawy', false_and,
      if_false, and_self]
  · obtain ⟨window, lag, cut, zawy⟩ := new _ first
    obtain ⟨window', lag', cut', zawy'⟩ := new _ second
    have notZero : ¬zawyDifficultyV2 ≠ 0 := by decide
    simp only [window, lag, cut, window', lag', cut', if_neg notZero, zawy, zawy', true_and,
      and_self]

/-! ### The third block -/

theorem round_agree_iff {value divisor : UInt64} (positive : divisor ≠ 0)
    (fits : ¬0xFFFFFFFFFFFFFFFF - value < divisor - 1) :
    (value + divisor - 1) / divisor = value / divisor ↔ value % divisor = 0 := by
  have valueBound := value.toNat_lt
  have positiveNat : 0 < divisor.toNat := by
    rcases Nat.eq_zero_or_pos divisor.toNat with zero | positiveNat
    · exact absurd (UInt64.toNat_inj.mp zero) positive
    · exact positiveNat
  have sum : (value + divisor - 1).toNat = value.toNat + (divisor.toNat - 1) := by
    have one : (1 : UInt64) ≤ divisor := by
      exact positiveNat
    have top : value ≤ 0xFFFFFFFFFFFFFFFF := by
      exact le_of_lt_succ valueBound
    have assoc : value + divisor - 1 = value + (divisor - 1) := by
      rw [UInt64.sub_eq_add_neg, UInt64.sub_eq_add_neg, UInt64.add_assoc]
    rw [UInt64.lt_iff_toNat_lt, UInt64.toNat_sub_of_le _ _ one, UInt64.toNat_sub_of_le _ _ top]
      at fits
    rw [assoc, UInt64.toNat_add, UInt64.toNat_sub_of_le _ _ one, UInt64.toNat_one]
    change ¬2 ^ 64 - 1 - value.toNat < divisor.toNat - 1 at fits
    omega
  rw [← UInt64.toNat_inj, ← UInt64.toNat_inj, UInt64.toNat_div, UInt64.toNat_div,
    UInt64.toNat_mod, sum]
  have quotient := div_add_mod value.toNat divisor.toNat
  have remainder := mod_lt value.toNat positiveNat
  generalize value.toNat / divisor.toNat = q at quotient ⊢
  generalize value.toNat % divisor.toNat = r at quotient remainder ⊢
  have shifted : value.toNat + (divisor.toNat - 1) = divisor.toNat * q + (r + (divisor.toNat - 1)) := by
    omega
  change _ ↔ r = 0
  rw [shifted, mul_add_div positiveNat]
  constructor
  · intro same
    have small : (r + (divisor.toNat - 1)) / divisor.toNat = 0 := by omega
    have bound := (Nat.div_eq_zero_iff.mp small).resolve_left (by omega)
    omega
  · intro zero
    rw [zero, zero_add, div_eq_of_lt (by omega)]
    rfl

/-- The time span of the two blocks above the genesis block divides their work times the
target time, or the product is too large for either rounding. -/
def RoundsEvenly (chain : List BlockEntry) : Prop :=
  let infos := (chain.map info).drop 1
  let (timeSpan, totalWork) := spanAndWork difficultyWindow difficultyCut
    (infos.map timestamp) (infos.map cumulativeDifficulty)
  let (low, high) := mul128 totalWork (UInt64.ofNat difficultyTarget)
  (high ≠ 0 ∨ 0xFFFFFFFFFFFFFFFF - low < timeSpan - 1) ∨ low % timeSpan = 0

instance (chain : List BlockEntry) : Decidable (RoundsEvenly chain) := by
  unfold RoundsEvenly
  infer_instance

theorem spanAndWork_ne_zero (window cut : Nat) (timestamps cumulativeDifficulties : List UInt64) :
    (spanAndWork window cut timestamps cumulativeDifficulties).1 ≠ 0 := by
  unfold spanAndWork
  simp only
  split
  · decide
  · rename_i notZero
    exact notZero

theorem spanAndWork_two {window cut : Nat} (fits : 2 ≤ window - 2 * cut)
    {timestamps cumulativeDifficulties : List UInt64} (two : timestamps.length = 2) :
    spanAndWork window cut timestamps cumulativeDifficulties
      = spanAndWork difficultyWindow difficultyCut timestamps cumulativeDifficulties := by
  have all : cutRange window cut timestamps.length = (0, 2) := by
    unfold cutRange
    rw [two, if_pos fits]
  have all' : cutRange difficultyWindow difficultyCut timestamps.length = (0, 2) := by
    unfold cutRange
    rw [two, if_pos (by decide)]
  unfold spanAndWork
  rw [all, all']

theorem nextDifficulty_third_iff {timestamps cumulativeDifficulties : List UInt64}
    (two : timestamps.length = 2) (two' : cumulativeDifficulties.length = 2) :
    Currency.nextDifficulty 2 2 timestamps cumulativeDifficulties
        = Currency.nextDifficulty 3 2 timestamps cumulativeDifficulties ↔
      (let (timeSpan, totalWork) := spanAndWork difficultyWindow difficultyCut timestamps
        cumulativeDifficulties
      let (low, high) := mul128 totalWork (UInt64.ofNat difficultyTarget)
      (high ≠ 0 ∨ 0xFFFFFFFFFFFFFFFF - low < timeSpan - 1) ∨ low % timeSpan = 0) := by
  have second : difficultyWindowByBlockVersion 2 = 2880 ∧
      difficultyCutByBlockVersion 2 = 60 := by decide
  have third : difficultyWindowByBlockVersion 3 = 17 ∧
      difficultyCutByBlockVersion 3 = 0 := by decide
  have whole : ∀ {items : List UInt64}, items.length = 2 → ∀ {window : Nat}, 2 ≤ window →
      items.take window = items := by
    intro items length window fits
    exact take_of_length_le (by omega)
  have span := spanAndWork_ne_zero difficultyWindow difficultyCut timestamps cumulativeDifficulties
  unfold Currency.nextDifficulty
  simp only [second.1, second.2, third.1, third.2, whole two (by omega : 2 ≤ 2880),
    whole two (by omega : 2 ≤ 17), whole two' (by omega : 2 ≤ 2880), whole two' (by omega : 2 ≤ 17),
    spanAndWork_two (by omega : 2 ≤ 2880 - 2 * 60) two, spanAndWork_two (by omega : 2 ≤ 17 - 2 * 0) two]
  have notShort : ¬timestamps.length ≤ 1 := by omega
  rw [if_neg notShort, if_neg notShort]
  generalize spanAndWork difficultyWindow difficultyCut timestamps cumulativeDifficulties = pair
    at span ⊢
  obtain ⟨timeSpan, totalWork⟩ := pair
  generalize mul128 totalWork (UInt64.ofNat difficultyTarget) = product
  obtain ⟨low, high⟩ := product
  by_cases tooLarge : high ≠ 0 ∨ 0xFFFFFFFFFFFFFFFF - low < timeSpan - 1
  · rw [if_pos tooLarge, if_pos tooLarge]
    exact ⟨fun _ => .inl tooLarge, fun _ => rfl⟩
  · simp only [tooLarge, false_or]
    exact round_agree_iff span (fun overflow => tooLarge (.inr overflow))

/-- Miner and validator use the same difficulty, except for the third block above the
genesis block when the division leaves a remainder. -/
theorem templateDifficulty_eq_iff {chain : List BlockEntry} (nonempty : chain ≠ []) :
    templateDifficulty chain = nextDifficulty chain ↔ (chain.length = 3 → RoundsEvenly chain) := by
  unfold templateDifficulty nextDifficulty
  simp only
  by_cases third : chain.length = 3
  · have infos : ∀ count, 2 ≤ count → lastInfos count 2 false (chain.map info)
        = (chain.map info).drop 1 := by
      intro count fits
      unfold lastInfos slice
      have start : max (if false = true then 0 else 1) (2 + 1 - count) = 1 := by
        simp only [Bool.false_eq_true, if_false]
        omega
      rw [start, take_of_length_le (by rw [length_drop, length_map]; omega)]
    have second : getBlockMajorVersion 2 = 2 := by decide
    have next : getBlockMajorVersion (2 + 1) = 3 := by decide
    have counts : 2 ≤ difficultyBlocksCountByBlockVersion 2 2 ∧
        2 ≤ difficultyBlocksCountByBlockVersion 3 2 := by decide
    have length : ((chain.map info).drop 1).length = 2 := by
      rw [length_drop, length_map]
      omega
    rw [third]
    simp only [Nat.add_one_sub_one, second, next, infos _ counts.1, infos _ counts.2]
    unfold getNextDifficulty
    rw [if_neg (by decide), if_neg (by decide), if_neg (by decide), if_neg (by decide),
      if_neg (by decide), if_neg (by decide), if_neg (by decide), if_neg (by decide),
      Option.some.injEq, nextDifficulty_third_iff (by rw [length_map, length])
        (by rw [length_map, length])]
    exact ⟨fun even _ => even, fun even => even trivial⟩
  · have agree := version_agree (by omega : chain.length - 1 ≠ 2) (chain.length - 1)
    rw [(agree [] []).1]
    exact ⟨fun _ isThird => absurd isThird third, fun _ => (agree _ _).2⟩

namespace Core

/-- The difficulty of the block template is the one a block on top of the main chain is
checked against, unless that block is the third one and the rounding matters. -/
theorem getDifficultyForNextBlock_agrees_iff {primitives : Primitives} {core : Core}
    {main : SegmentPtr} {mainChain : Segment} (sound : core.Sound primitives)
    (isMain : core.chainsLeaves.head? = some main)
    (found : core.chainsStorage[main]? = some mainChain) :
    core.getDifficultyForNextBlock
        = Lineage.getDifficultyForNextBlock (core.lineage main) mainChain.getTopBlockIndex ↔
      ((core.chain main).length = 3 → RoundsEvenly (core.chain main)) := by
  obtain ⟨above, items, line, -, stacked, length⟩ := sound.toTreeSound.stacked found
  have isChain := chain_eq sound.toTreeSound line
  have positive : 0 < mainChain.entries.length :=
    sound.tree.items_length_pos (tree_found found)
  have inside : mainChain.getTopBlockIndex < items.length := by
    unfold getTopBlockIndex getBlockCount
    omega
  have whole : items.take (mainChain.getTopBlockIndex + 1) = items := by
    apply take_of_length_le
    unfold getTopBlockIndex getBlockCount
    omega
  have nonempty : items ≠ [] := by
    apply ne_nil_of_length_pos
    omega
  rw [getDifficultyForNextBlock_eq sound isMain,
    stacked.getDifficultyForNextBlock (sound.unitsCached main) inside, whole, isChain]
  exact templateDifficulty_eq_iff nonempty

def unevenEnvironment : Environment :=
  { primitives := tablePrimitives
      [coinbaseBlock 0 255 0 1, coinbaseBlock 1 0 1 37252902,
        { coinbaseBlock 2 1 2 37252902 with timestamp := 7 }] []
    checkpoints := { points := [] } }

def unevenGenesis : GenesisBlock unevenEnvironment.primitives :=
  { block := coinbaseBlock 0 255 0 1
    binaryArray := [0]
    parsed := rfl
    coinbase := inputs_firstBlock }

/-- The template is made for difficulty 26, the next block is checked against 25. -/
theorem getDifficultyForNextBlock_uneven :
    Reaches unevenEnvironment (ParentSplitsCleanly unevenEnvironment.primitives)
        (initRootSegment unevenGenesis)
        (afterAll unevenEnvironment (initRootSegment unevenGenesis) [1, 2]) ∧
      (afterAll unevenEnvironment (initRootSegment unevenGenesis) [1, 2]).chainsLeaves.head?
        = some 0 ∧
      (afterAll unevenEnvironment (initRootSegment unevenGenesis) [1, 2]).getDifficultyForNextBlock
        = some 26 ∧
      Lineage.getDifficultyForNextBlock
          ((afterAll unevenEnvironment (initRootSegment unevenGenesis) [1, 2]).lineage 0) 2
        = some 25 :=
  ⟨reaches_afterAll (by decide +kernel), by decide +kernel, by decide +kernel, by decide +kernel⟩

theorem getDifficultyForNextBlock_agrees_iff_fork :
    let core := afterAll forkEnvironment (initRootSegment forkGenesis) [1, 2, 3]
    ∃ mainChain, core.chainsStorage[1]? = some mainChain ∧
      (core.getDifficultyForNextBlock
          = Lineage.getDifficultyForNextBlock (core.lineage 1) mainChain.getTopBlockIndex ↔
        ((core.chain 1).length = 3 → RoundsEvenly (core.chain 1))) := by
  have run : Reaches forkEnvironment (ParentSplitsCleanly forkEnvironment.primitives)
      (initRootSegment forkGenesis)
      (afterAll forkEnvironment (initRootSegment forkGenesis) [1, 2, 3]) :=
    reaches_afterAll (by decide +kernel)
  have present : ((afterAll forkEnvironment (initRootSegment forkGenesis)
      [1, 2, 3]).chainsStorage[1]?).isSome = true := by decide +kernel
  obtain ⟨mainChain, found⟩ := Option.isSome_iff_exists.mp present
  exact ⟨mainChain, found, getDifficultyForNextBlock_agrees_iff
    ((initRootSegment_sound forkGenesis).reaches (fun _ _ clean => clean) run)
    (by decide +kernel) found⟩

end Core
end Mevacoin
