/-
No key image is spent twice on a chain. A block may spend only images that no block
below it spends, which the tables of spent images answer as long as no chain has
spent an image twice.
-/

import Mevacoin.Core.Merge
import Mevacoin.Core.SpentImages
import Mevacoin.Core.ValidTransactions

namespace Mevacoin
open List DatabaseBlockchainCache BlockEntry

/-- The key images of all inputs of all transactions on a chain are different. -/
def SpentOnce (primitives : Primitives) (chain : List BlockEntry) : Prop :=
  (chain.flatMap (BlockEntry.keyImages primitives)).Nodup

section SpentOnce
variable {primitives : Primitives} {chain : List BlockEntry}

theorem SpentOnce.of_shorter {shorter : List BlockEntry} (once : SpentOnce primitives chain)
    (isPrefix : shorter <+: chain) : SpentOnce primitives shorter := by
  obtain ⟨rest, rfl⟩ := isPrefix
  unfold SpentOnce at once
  rw [flatMap_append] at once
  exact once.of_append_left

theorem SpentOnce.apart (once : SpentOnce primitives chain) (index : Nat) :
    SpentApart primitives chain index := by
  intro image lower upper isLower isUpper ⟨first, isFirst, spentFirst⟩
    ⟨second, isSecond, spentSecond⟩
  unfold SpentOnce at once
  rw [← take_append_drop index chain, flatMap_append] at once
  refine (nodup_append'.mp once).2.2 (mem_flatMap.mpr ⟨first, ?_, spentFirst⟩)
    (mem_flatMap.mpr ⟨second, ?_, spentSecond⟩)
  · refine mem_of_getElem? (i := lower) ?_
    rw [getElem?_take_of_lt isLower, isFirst]
  · refine mem_of_getElem? (i := upper - index) ?_
    rw [getElem?_drop, Nat.add_sub_cancel' isUpper, isSecond]

theorem SpentOnce.concat {entry : BlockEntry} (once : SpentOnce primitives chain)
    (distinct : (entry.keyImages primitives).Nodup)
    (unspent : ∀ image ∈ entry.keyImages primitives, ∀ index,
      ¬SpentAt primitives chain image index) :
    SpentOnce primitives (chain ++ [entry]) := by
  unfold SpentOnce
  rw [flatMap_append, flatMap_singleton]
  apply List.Nodup.append once distinct
  intro image below above
  obtain ⟨other, member, spent⟩ := mem_flatMap.mp below
  obtain ⟨index, found⟩ := mem_iff_getElem?.mp member
  exact unspent image above index ⟨other, found, spent⟩

end SpentOnce

namespace Core
variable {environment : Environment} {now : UInt64} {core result : Core} {rawBlock : RawBlock}
  {ptr : SegmentPtr} {segment : Segment} {accepted : AcceptedBlock} {data : AcceptanceData}
  {below : BlockEntry} {code : ErrorCode}

section
variable (sound : core.Sound environment.primitives)
include sound

theorem Extension.index_eq
    (extension : Extension environment now core rawBlock ptr segment accepted data below) :
    accepted.pushed.block.getBlockIndex = (core.ancestors ptr accepted).length := by
  have length := chain_length sound.toTreeSound extension.found
  have inside := index_lt extension.parent.entry
  rw [extension.parent.index, ancestors, length_take]
  omega

theorem chain_of_database
    {cache : DatabaseBlockchainCache} (found : core.chainsStorage[ptr]? = some (.database cache)) :
    core.chain ptr = cache.entries := by
  have whole := chain_eq_append sound.toTreeSound found
  change core.chain ptr = (core.chain ptr).take 0 ++ cache.entries at whole
  rwa [take_zero, nil_append] at whole

end

section
variable (extension : Extension environment now core rawBlock ptr segment accepted data below)
  (totals : BlockchainCache.Totals)
include extension totals

theorem Extension.transactions_eq :
    (accepted.pushed.entry environment.primitives totals).transactions environment.primitives
      = accepted.pushed.block.baseTransaction
        :: accepted.pushed.transactions.map CachedTransaction.transaction := by
  obtain ⟨extracted, -⟩ := extractTransactions_eq_some extension.acceptance.extracted
  apply BlockEntry.transactions_eq
  · change environment.primitives.blockFromBinaryArray accepted.pushed.rawBlock.block = _
    rw [extension.acceptance.sameRawBlock]
    exact extension.parsed
  · change accepted.pushed.rawBlock.transactions.mapM _ = _
    rw [extension.acceptance.sameRawBlock]
    exact parsed_of_extracted extracted

theorem Extension.keyImages_eq :
    (accepted.pushed.entry environment.primitives totals).keyImages environment.primitives
      = accepted.pushed.validatorState.spentKeyImages := by
  obtain ⟨fees, -, -, images, -⟩ :=
    validateTransactions_eq_ok extension.acceptance.validTransactions
  obtain ⟨input, inputs, -⟩ := (validateBlock_eq_ok extension.acceptance.validBlock).input
  have coinbase : accepted.pushed.block.baseTransaction.keyImages = [] := by
    simp [Transaction.keyImages, Transaction.keyInputs, inputs, TransactionInput.keyInput?]
  unfold BlockEntry.keyImages
  rw [extension.transactions_eq, flatMap_cons, coinbase, nil_append, flatMap_map, images]

end

section
variable (noCheckpoints : environment.checkpoints.points = [])
include noCheckpoints

theorem Extension.notSpent
    (extension : Extension environment now core rawBlock ptr segment accepted data below)
    {image : KeyImage} (member : image ∈ accepted.pushed.validatorState.spentKeyImages) :
    Lineage.checkIfSpent image accepted.previousBlockIndex (core.lineage ptr) = false := by
  have ran := extension.acceptance.validTransactions
  obtain ⟨fees, -, -, images, -⟩ := validateTransactions_eq_ok ran
  rw [images] at member
  obtain ⟨cached, isCached, inTransaction⟩ := mem_flatMap.mp member
  obtain ⟨keyInput, isKeyInput, rfl⟩ := mem_map.mp inTransaction
  obtain ⟨input, isInput, isKey⟩ := mem_filterMap.mp isKeyInput
  obtain ⟨position, found⟩ := mem_iff_getElem?.mp isInput
  obtain ⟨fee, valid⟩ := validTransaction_of_mem ran isCached
  cases input with
  | base blockIndex => cases isKey
  | key input =>
    cases isKey
    have outside : environment.checkpoints.isInCheckpointZone (accepted.previousBlockIndex + 1)
        = false := by
      simp [Checkpoints.isInCheckpointZone, noCheckpoints]
    obtain ⟨outputKeys, checked⟩ :=
      checkKeyInput_eq_ok.mp (valid.inputs position keyInput found outside)
    exact checked.unspent

/-! ### Steps and runs -/

/-- The tables record the spent images, and no chain spends an image twice. -/
structure SpendsOnce (primitives : Primitives) (core : Core) : Prop where
  tabled : core.Tabled (spentTables primitives)
  once : ∀ chain ∈ core.chains, SpentOnce primitives chain

theorem Extension.spentOnce (sound : core.Sound environment.primitives)
    (tabled : core.Tabled (spentTables environment.primitives))
    (extension : Extension environment now core rawBlock ptr segment accepted data below)
    (once : SpentOnce environment.primitives (core.chain ptr)) (totals : BlockchainCache.Totals) :
    SpentOnce environment.primitives (core.ancestors ptr accepted
      ++ [accepted.pushed.entry environment.primitives totals]) := by
  have stack := tabled.stack sound.toTreeSound extension.found
  apply (once.of_shorter (List.take_prefix _ _)).concat
  · rw [extension.keyImages_eq]
    obtain ⟨fees, -, -, -, distinct⟩ :=
      validateTransactions_eq_ok extension.acceptance.validTransactions
    exact distinct
  · intro image member index spent
    rw [extension.keyImages_eq] at member
    have unspent := extension.notSpent noCheckpoints member
    obtain ⟨inside, spentBelow⟩ := spentAt_take.mp spent
    have found := (checkIfSpent_iff stack (once.apart _) image).mpr
      ⟨index, Nat.le_of_lt_succ inside, spentBelow⟩
    rw [unspent] at found
    cases found

theorem SpendsOnce.placed
    (sound : core.Sound environment.primitives) (spends : core.SpendsOnce environment.primitives)
    (extension : Extension environment now core rawBlock ptr segment accepted data below)
    (clean : segment.getTopBlockIndex ≠ accepted.previousBlockIndex → segment.SplitsCleanly)
    (placement : Placement environment.primitives core ptr segment accepted code result) :
    result.SpendsOnce environment.primitives := by
  have found := extension.found
  obtain ⟨leaf, isLeaf, isPrefix, -⟩ :=
    chain_prefix_of_located sound.toTreeSound extension.located
  have once : SpentOnce environment.primitives (core.chain ptr) :=
    (spends.once _ (mem_map_of_mem isLeaf)).of_shorter isPrefix
  have step := placement.chainStep sound extension clean
  constructor
  · refine placement.tabled spends.tabled (spentTables_closed _) sound extension clean ?_ ?_
    · apply spentTables_push
      · exact extension.index_eq sound
      · intro totals image
        rw [extension.keyImages_eq]
    · intro cache lower upper self fresh isCache inside replayed deleted
      subst isCache
      have holds : cache.SpentRecorded environment.primitives := spends.tabled ptr _ found
      have apart : SpentApart environment.primitives cache.entries
          (accepted.previousBlockIndex + 1) := by
        rw [← chain_of_database sound found]
        exact once.apart _
      exact ⟨holds.lower apart deleted,
        holds.upper (sound.tree.linked (tree_found found)) (sound.rooted_of_found found).genesis
          (Nat.succ_pos _) inside replayed⟩
  · intro chain member
    rcases step.mem_chains member with old | ⟨isNew, -⟩
    · exact spends.once chain old
    · rw [isNew]
      exact extension.spentOnce noCheckpoints sound spends.tabled once _

/-- Calls of `addBlock` that return and leave the segment tree well formed. -/
def WellFormedRun (environment : Environment) : Core → Core → Prop :=
  Relation.ReflTransGen fun core result =>
    (∃ now rawBlock code, core.addBlock environment now rawBlock = .ok (code, result)) ∧
      result.WellFormed environment.primitives

theorem SpendsOnce.addBlock
    (sound : core.Sound environment.primitives) (spends : core.SpendsOnce environment.primitives)
    (ran : core.addBlock environment now rawBlock = .ok (code, result))
    (wellFormed : result.WellFormed environment.primitives) :
    result.Sound environment.primitives ∧ result.SpendsOnce environment.primitives := by
  rcases addBlock_eq_ok sound ran with ⟨-, unchanged⟩ | placed
  · rw [unchanged]
    exact ⟨sound, spends⟩
  · obtain ⟨ptr, segment, accepted, data, below, extension, placement⟩ := placed
    have clean := extension.splitsCleanly_iff.mp
      (sound.splitsCleanly_of_wellFormed ran placement.accepted wellFormed)
    exact ⟨placement.sound sound extension.found extension.parent clean,
      spends.placed noCheckpoints sound extension clean placement⟩

end

theorem initRootSegment_spendsOnce {primitives : Primitives} (genesis : GenesisBlock primitives) :
    (initRootSegment genesis).SpendsOnce primitives := by
  have spendsNone : ∀ entry ∈ (addGenesisBlock genesis).entries,
      entry.keyImages primitives = [] := by
    intro entry member
    rw [mem_singleton.mp member]
    have transactions : ({ info := genesis.info, rawBlock := genesis.rawBlock } :
        BlockEntry).transactions primitives = [genesis.block.baseTransaction] :=
      transactions_eq genesis.parsed rfl
    simp [keyImages, transactions, Transaction.keyImages, Transaction.keyInputs,
      genesis.coinbase, TransactionInput.keyInput?]
  have unspent : ∀ image index, ¬SpentAt primitives
      (addGenesisBlock genesis).entries image index := by
    rintro image index ⟨entry, found, spent⟩
    rw [spendsNone entry (mem_of_getElem? found)] at spent
    cases spent
  constructor
  · intro ptr segment found
    obtain ⟨rfl, rfl⟩ : ptr = 0 ∧ segment = .database (.addGenesisBlock genesis) := by
      cases ptr with
      | zero => exact ⟨rfl, (Option.some.inj found).symm⟩
      | succ ptr => simp [initRootSegment] at found
    refine ⟨?_, ?_, ?_, ?_⟩
    · intro block member image
      have isEntry : block.entry ∈ (addGenesisBlock genesis).entries :=
        mem_map_of_mem member
      rw [spendsNone _ isEntry]
      rw [mem_singleton.mp member]
    · intro image index recorded
      cases recorded
    · intro image index recorded
      cases recorded
    · intro image index spent
      exact absurd spent (unspent image index)
  · intro chain member
    have isChain : chain = (addGenesisBlock genesis).entries := by
      exact mem_singleton.mp member
    unfold SpentOnce
    rw [isChain, flatMap_eq_nil_iff.mpr spendsNone]
    exact nodup_nil

/-- Along every run that keeps the segment tree well formed, every input on a chain spends
an image of its own, also after the main chain is merged into the root. -/
theorem wellFormedRun_spentOnce (noCheckpoints : environment.checkpoints.points = [])
    (genesis : GenesisBlock environment.primitives)
    (run : WellFormedRun environment (initRootSegment genesis) core) :
    (∀ chain ∈ core.chains, SpentOnce environment.primitives chain) ∧
      ∀ merged, core.mergeMainChainSegments environment.primitives = some merged →
        ∀ chain ∈ merged.chains, SpentOnce environment.primitives chain := by
  have invariant : core.Sound environment.primitives ∧
      core.SpendsOnce environment.primitives := by
    induction run with
    | refl => exact ⟨initRootSegment_sound genesis, initRootSegment_spendsOnce genesis⟩
    | tail _ step ih =>
      obtain ⟨⟨now, rawBlock, code, ran⟩, wellFormed⟩ := step
      exact ih.2.addBlock noCheckpoints ih.1 ran wellFormed
  refine ⟨invariant.2.once, ?_⟩
  intro merged ran chain member
  obtain ⟨main, result, isMain, isMerged, entries, -⟩ := mergeMainChainSegments_eq_some
    (fun _ => True) invariant.1 invariant.2.tabled (fun _ _ => trivial)
    (fun _ _ _ _ _ _ _ _ _ _ _ _ _ _ => trivial) ran
  rw [chains_of_root isMerged, mem_singleton, entries] at member
  rw [member]
  exact invariant.2.once _ (mem_map_of_mem (mem_of_mem_head? isMain))

/-! ### The same spend on two chains -/

theorem wellFormedRun_of_reaches {start : Core} (sound : start.Sound environment.primitives)
    (run : Reaches environment (ParentSplitsCleanly environment.primitives) start core) :
    WellFormedRun environment start core := by
  induction run with
  | refl => exact .refl
  | tail before step ih =>
    obtain ⟨now, rawBlock, code, clean, ran⟩ := step
    have soundBefore := sound.reaches (fun _ _ clean => clean) before
    exact ih.tail ⟨⟨now, rawBlock, code, ran⟩, (soundBefore.addBlock clean ran).wellFormed⟩

/-- A transaction that spends the output of the genesis block, and two competing blocks that
carry it. -/
def spendEnvironment : Environment :=
  { primitives := tablePrimitives
      [{ coinbaseBlock 0 255 0 5 with
          baseTransaction := { (coinbaseBlock 0 255 0 5).baseTransaction with unlockTime := 0 } },
        coinbaseBlock 1 0 1 37252903, coinbaseBlock 2 0 1 37252903]
      [{ version := 1
         unlockTime := 0
         inputs := [.key { amount := 5, outputIndexes := [0], keyImage := { value := 9 } }]
         outputs := [{ amount := 4, target := { key := { value := 0 } } }]
         extra := [0]
         signatures := [[{ value := 0 }]] }]
    checkpoints := { points := [] } }

def spendGenesis : GenesisBlock spendEnvironment.primitives :=
  { block := { coinbaseBlock 0 255 0 5 with
      baseTransaction := { (coinbaseBlock 0 255 0 5).baseTransaction with unlockTime := 0 } }
    binaryArray := [0]
    parsed := rfl
    coinbase := rfl }

def spendOnce : Core :=
  (initRootSegment spendGenesis).after spendEnvironment 0 { block := [1], transactions := [[0]] }

def spendTwice : Core :=
  spendOnce.after spendEnvironment 0 { block := [2], transactions := [[0]] }

theorem wellFormedRun_spentOnce_twice :
    (spendTwice.chains.map fun chain =>
        (chain.flatMap (BlockEntry.keyImages spendEnvironment.primitives)).length) = [1, 1] ∧
      (∀ chain ∈ spendTwice.chains, SpentOnce spendEnvironment.primitives chain) ∧
      ∀ merged, spendTwice.mergeMainChainSegments spendEnvironment.primitives = some merged →
        ∀ chain ∈ merged.chains, SpentOnce spendEnvironment.primitives chain := by
  have first : (initRootSegment spendGenesis).codeOf spendEnvironment 0
      { block := [1], transactions := [[0]] } = some (.addBlock .addedToMain) := by
    decide +kernel
  have second : spendOnce.codeOf spendEnvironment 0 { block := [2], transactions := [[0]] }
      = some (.addBlock .addedToAlternative) := by
    decide +kernel
  have run : Reaches spendEnvironment (ParentSplitsCleanly spendEnvironment.primitives)
      (initRootSegment spendGenesis) spendTwice :=
    .tail (.single ⟨0, _, _, by decide +kernel, addBlock_eq_after first⟩)
      ⟨0, _, _, by decide +kernel, addBlock_eq_after second⟩
  exact ⟨by decide +kernel, wellFormedRun_spentOnce rfl spendGenesis
    (wellFormedRun_of_reaches (initRootSegment_sound spendGenesis) run)⟩

end Core
end Mevacoin
