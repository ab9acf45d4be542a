/-
Global output indexes along runs of the core, also after the main chain was merged into
the root and the tree grew again from there.
-/

import Mevacoin.Core.NumberedOutputs
import Mevacoin.Core.DoubleSpend

namespace Mevacoin
open List Nat BlockEntry DatabaseBlockchainCache StoredKeyOutput
open UInt32 (ofNat)
open Occurrences (numbered)

/-! ### Lookups along a path -/

namespace Lineage

/-- The stored transaction with a hash, searched from the segment down to the root. -/
def findTransaction (hash : Hash) : List Segment → Option CachedTransactionInfo
  | [] => none
  | .database cache :: _ =>
    (cache.cachedTransactions hash).map ExtendedTransactionInfo.toCachedTransactionInfo
  | .memory cache :: parents =>
    (cache.transactions.find? fun info => info.transactionHash = hash).or
      (findTransaction hash parents)

def getTransactionGlobalIndexes (hash : Hash) (segments : List Segment) : Option (List UInt32) :=
  (findTransaction hash segments).map CachedTransactionInfo.globalIndexes

/-- The outputs of an amount with their global indexes: the database numbers them from zero,
a memory segment from the start index of its entry. -/
def numberedKeyOutputs (amount : UInt64) : List Segment → List (PackedOutIndex × UInt32)
  | [] => []
  | .database cache :: _ =>
    (cache.keyOutputs amount).zipIdx.map fun output =>
      (output.1.packed, ofNat output.2)
  | .memory cache :: parents =>
    numberedKeyOutputs amount parents ++
      match cache.keyOutputsGlobalIndexes amount with
      | none => []
      | some entry => entry.outputs.zipIdx.map fun output =>
        (output.1, entry.startIndex + ofNat output.2)

end Lineage

section Paths
variable {primitives : Primitives} {segments : List Segment} {chain : List BlockEntry}

private theorem zipIdx_shift {α : Type} (items : List α) (start : Nat) :
    items.zipIdx.map (fun item => (item.1, ofNat start + ofNat item.2))
      = (items.zipIdx start).map fun item => (item.1, ofNat item.2) := by
  rw [zipIdx_eq_map_add (i := start), map_map]
  apply map_congr_left
  intro item _
  rw [Function.comp_apply, UInt32.ofNat_add, UInt32.add_comm]

section
variable (stack : TabledStack (numberedTables primitives) segments chain)
include stack

theorem TabledStack.numberedKeyOutputs (amount : UInt64) :
    Lineage.numberedKeyOutputs amount segments
      = ((outputsOf primitives amount (placedFrom primitives 0 chain)).map
          packed).zipIdx.map fun output => (output.1, ofNat output.2) := by
  induction stack with
  | @database cache holds =>
    rw [Lineage.numberedKeyOutputs, holds.outputs, zipIdx_map, map_map]
    rfl
  | @memory parents below cache stack start holds ih =>
    rw [Lineage.numberedKeyOutputs, ih, holds.outputs, placedFrom_append, outputsOf_append,
      map_append, zipIdx_append, map_append, Nat.zero_add, Nat.zero_add,
      length_map]
    congr 1
    simp only
    unfold ownOutputs
    by_cases empty : (outputsOf primitives amount
        (placedFrom primitives below.length cache.blocks)).map packed = []
    · rw [if_pos empty, empty]
      rfl
    · rw [if_neg empty]
      exact zipIdx_shift _ _

theorem TabledStack.findTransaction
    (distinct : (chain.flatMap (hashes primitives)).Nodup) (hash : Hash) :
    Lineage.findTransaction hash segments
      = ((infosAfter primitives [] (placedFrom primitives 0 chain)).find?
          fun info => info.transactionHash = hash).map
        ExtendedTransactionInfo.toCachedTransactionInfo := by
  induction stack with
  | @database cache holds =>
    rw [Lineage.findTransaction, holds.transactions]
  | @memory parents below cache stack start holds ih =>
    have apart := distinct
    rw [flatMap_append] at apart
    rw [Lineage.findTransaction, holds.transactions, ih apart.of_append_left,
      placedFrom_append, zero_add, infosAfter_append, nil_append, find?_append,
      find?_map]
    rw [← placedFrom_hashes 0 below, ← placedFrom_hashes below.length cache.blocks] at apart
    change ((List.find? (fun info : ExtendedTransactionInfo => info.transactionHash = hash)
      _).map _).or _ = _
    cases inBelow : (infosAfter primitives [] (placedFrom primitives 0 below)).find?
        (fun info => info.transactionHash = hash) with
    | none => rw [Option.map_none, Option.or_none, Option.none_or]
    | some info =>
      have isHash : info.transactionHash = hash := by simpa using find?_some inBelow
      obtain ⟨before, lower, isLower, rfl⟩ := mem_infosAfter (mem_of_find?_eq_some inBelow)
      have missing : (infosAfter primitives (amountsOf (placedFrom primitives 0 below))
          (placedFrom primitives below.length cache.blocks)).find?
          (fun info => info.transactionHash = hash) = none := by
        rw [find?_eq_none]
        intro other member same
        obtain ⟨before, upper, isUpper, rfl⟩ := mem_infosAfter member
        have sameHash : upper.hash primitives = lower.hash primitives :=
          (of_decide_eq_true same).trans isHash.symm
        exact (nodup_append'.mp apart).2.2 (mem_map_of_mem isLower)
          (sameHash ▸ mem_map_of_mem isUpper)
      rw [missing, Option.or_none]
      rfl

/-- A transaction is stored with the numbers of its outputs among all outputs before. -/
theorem TabledStack.getTransactionGlobalIndexes
    (distinct : (chain.flatMap (hashes primitives)).Nodup)
    {before after : List PlacedTransaction} {placed : PlacedTransaction}
    (isPlaced : placedFrom primitives 0 chain = before ++ placed :: after) :
    Lineage.getTransactionGlobalIndexes (placed.hash primitives) segments
      = some ((numbered (amountsOf before) placed.amounts).map fun number => ofNat number.2) := by
  have infos : infosAfter primitives [] (placedFrom primitives 0 chain)
      = infosAfter primitives [] before ++ placed.info primitives (amountsOf before)
        :: infosAfter primitives (amountsOf before ++ placed.amounts) after := by
    rw [isPlaced, infosAfter_append, nil_append]
    rfl
  have hashes := distinct
  rw [← placedFrom_hashes 0, ← infosAfter_hashes []] at hashes
  have member : placed.info primitives (amountsOf before)
      ∈ infosAfter primitives [] (placedFrom primitives 0 chain) := by
    rw [infos]
    exact mem_append_right _ mem_cons_self
  have found : (infosAfter primitives [] (placedFrom primitives 0 chain)).find?
      (fun info => info.transactionHash = placed.hash primitives)
      = some (placed.info primitives (amountsOf before)) :=
    find?_of_distinct hashes member
  rw [Lineage.getTransactionGlobalIndexes, stack.findTransaction distinct, found]
  rfl

end

theorem outputCount_take {amount : UInt64} (chain : List BlockEntry) (bound : Nat) :
    outputCount primitives amount (chain.take bound)
      = (outputsOf primitives amount (placedFrom primitives 0 chain)).countP
        fun output => output.packed.blockIndex < bound := by
  have divided := placedFrom_divided primitives 0 bound chain
  rw [placedFrom_take_drop 0 (bound - 0) chain, outputsOf_append, countP_append,
    countP_eq_length.mpr, countP_eq_zero.mpr]
  · rfl
  · intro output member
    obtain ⟨placed, isUpper, index⟩ := outputsOf_blockIndex member
    have above := divided.upper placed isUpper
    rw [decide_eq_true_iff]
    omega
  · intro output member
    obtain ⟨placed, isLower, index⟩ := outputsOf_blockIndex member
    have below := divided.lower placed isLower
    rw [decide_eq_true_iff]
    omega

private theorem countP_max (outputs : List StoredKeyOutput) (lower upper : Nat) :
    outputs.countP (fun output => output.packed.blockIndex < max lower upper)
      = outputs.countP (fun output => output.packed.blockIndex < lower)
        + outputs.countP (fun output => lower ≤ output.packed.blockIndex ∧
          output.packed.blockIndex < upper) := by
  induction outputs with
  | nil => rfl
  | cons output outputs ih =>
    rw [countP_cons, countP_cons, countP_cons, ih]
    by_cases below : output.packed.blockIndex < lower
    · have notAbove : ¬lower ≤ output.packed.blockIndex := by omega
      simp [below, notAbove]
      omega
    · have above : lower ≤ output.packed.blockIndex := by omega
      by_cases inside : output.packed.blockIndex < upper
      · simp [below, above, inside]
        omega
      · simp [below, inside]

theorem outputCount_max_eq_iff {amount : UInt64} (chain : List BlockEntry) (lower upper : Nat) :
    outputCount primitives amount (chain.take (max lower upper))
        = outputCount primitives amount (chain.take lower) ↔
      ∀ output ∈ outputsOf primitives amount (placedFrom primitives 0 chain),
        lower ≤ output.packed.blockIndex → upper ≤ output.packed.blockIndex := by
  rw [outputCount_take, outputCount_take, countP_max, add_eq_left, countP_eq_zero]
  constructor
  · intro none output member above
    have notInside := none output member
    rw [decide_eq_true_iff, not_and] at notInside
    exact Nat.le_of_not_lt (notInside above)
  · intro above output member
    rw [decide_eq_true_iff, not_and]
    intro isAbove
    exact not_lt.mpr (above output member isAbove)

end Paths

/-! ### Steps -/

def RawBlock.unrecorded (rawBlock : RawBlock) : BlockEntry :=
  { info :=
      { blockHash := { value := 0 }
        timestamp := 0
        cumulativeDifficulty := 0
        alreadyGeneratedCoins := 0
        alreadyGeneratedTransactions := 0
        blockSize := 0 }
    rawBlock := rawBlock }

section RawBlocks
variable {primitives : Primitives} {first second : List BlockEntry}

theorem placedFrom_congr
    (same : first.map rawBlock = second.map rawBlock) (blockIndex : Nat) :
    placedFrom primitives blockIndex first = placedFrom primitives blockIndex second := by
  induction first generalizing second blockIndex with
  | nil =>
    cases second with
    | nil => rfl
    | cons entry second => cases same
  | cons entry first ih =>
    cases second with
    | nil => cases same
    | cons other second =>
      rw [map_cons, map_cons, List.cons.injEq] at same
      rw [placedFrom, placedFrom, ih same.2]
      unfold transactions
      rw [same.1]

theorem Numberable.congr (numberable : Numberable primitives first)
    (same : first.map rawBlock = second.map rawBlock) :
    Numberable primitives second := by
  constructor
  · intro entry member
    have inMap := mem_map_of_mem (f := rawBlock) member
    rw [← same] at inMap
    obtain ⟨other, isOther, sameRaw⟩ := mem_map.mp inMap
    have faithful := numberable.blocks other isOther
    have transactions : other.transactions primitives = entry.transactions primitives := by
      unfold transactions
      rw [sameRaw]
    constructor
    · have header := faithful.header
      unfold hashes at header ⊢
      rwa [sameRaw, transactions] at header
    · have canonical := faithful.canonical
      rwa [sameRaw] at canonical
    · have positions := faithful.positions
      rwa [transactions] at positions
  · have distinct := numberable.distinct
    rwa [← placedFrom_hashes 0, placedFrom_congr same, placedFrom_hashes] at distinct
  · intro amount
    have fits := numberable.fits amount
    unfold outputCount at fits ⊢
    rwa [placedFrom_congr same] at fits

end RawBlocks

variable {primitives : Primitives}

theorem MergeStep.outputsNumbered {chain : List BlockEntry}
    {cache : BlockchainCache} {accepting grown : DatabaseBlockchainCache} {pushed : PushedBlock}
    {entry : BlockEntry} {blockIndex : Nat} (numberable : Numberable primitives chain)
    (step : MergeStep primitives chain cache accepting grown pushed entry blockIndex)
    (holds : accepting.OutputsNumbered primitives) : grown.OutputsNumbered primitives := by
  obtain ⟨transactions, areTransactions, written⟩ := step.transactions
  obtain ⟨last, -, entries, -⟩ := pushBlock_eq_some step.ran
  have isEntry : entry = pushed.entry primitives (BlockchainCache.Totals.ofInfo last.info) := by
    rw [step.after] at entries
    exact singleton_inj.mp (append_cancel_left entries)
  have sameRaw : pushed.rawBlock = entry.rawBlock := by rw [isEntry]; rfl
  have parsed := step.block
  rw [← sameRaw] at parsed areTransactions
  have readBack : ReadBack primitives pushed transactions :=
    ⟨written, fun totals => transactions_eq parsed areTransactions⟩
  apply holds.push readBack _ parsed step.ran
  intro totals
  have whole : accepting.entries ++ [entry] = chain.take (blockIndex + 1) := by
    rw [take_add_one, step.found, step.before]
    rfl
  have shorter := numberable.of_shorter (List.take_prefix (blockIndex + 1) chain)
  rw [← whole] at shorter
  apply shorter.congr
  rw [map_append, map_append]
  change _ ++ [entry.rawBlock] = _ ++ [pushed.rawBlock]
  rw [sameRaw]

namespace Core

/-- The block makes a chain of numberable outputs on top of its ancestors. -/
def ExtendsNumberably (primitives : Primitives) (core : Core) (rawBlock : RawBlock) : Prop :=
  ∀ block ptr segment index, primitives.blockFromBinaryArray rawBlock.block = some block →
    core.findSegmentContainingBlock block.previousBlockHash = some ptr →
    core.chainsStorage[ptr]? = some segment →
    segment.getBlockIndex block.previousBlockHash = some index →
    Numberable primitives ((core.chain ptr).take (index + 1) ++ [rawBlock.unrecorded])

/-- The tables are exact and every chain is numberable. -/
structure Numbered (primitives : Primitives) (core : Core) : Prop where
  tabled : core.Tabled (numberedTables primitives)
  numberable : ∀ chain ∈ core.chains, Numberable primitives chain

section Step
variable {environment : Environment} {now : UInt64} {core result : Core} {rawBlock : RawBlock}
  {ptr : SegmentPtr} {segment : Segment} {accepted : AcceptedBlock} {data : AcceptanceData}
  {below : BlockEntry} {code : ErrorCode}

theorem Extension.numberable
    (extension : Extension environment now core rawBlock ptr segment accepted data below)
    (numberably : core.ExtendsNumberably environment.primitives rawBlock)
    (totals : BlockchainCache.Totals) :
    Numberable environment.primitives (core.ancestors ptr accepted
      ++ [accepted.pushed.entry environment.primitives totals]) := by
  have here := extension.at_parent_iff.mp numberably
  apply here.congr
  rw [map_append, map_append]
  change _ ++ [rawBlock] = _ ++ [accepted.pushed.rawBlock]
  rw [extension.acceptance.sameRawBlock]
  rfl

private theorem written_of_extracted {binaries : List BinaryArray}
    {transactions : List CachedTransaction} (extracted : Extracted primitives binaries transactions)
    (canonical : ∀ binary ∈ binaries, ∀ transaction,
      primitives.transactionFromBinaryArray binary = some transaction →
      primitives.transactionToBinaryArray transaction = binary) :
    transactions = (transactions.map CachedTransaction.transaction).map
      (CachedTransaction.ofTransaction primitives) := by
  induction extracted with
  | nil => rfl
  | @cons binary cached binaries transactions first _ ih =>
    have written := canonical binary mem_cons_self cached.transaction first.2
    rw [map_cons, map_cons, ← ih (fun other member => canonical other (mem_cons_of_mem _ member))]
    congr 1
    change _ = CachedTransaction.mk _ _
    rw [written, ← first.1]

/-- An accepted block whose transactions are written canonically is read back from its raw
form. -/
theorem Extension.readBack
    (extension : Extension environment now core rawBlock ptr segment accepted data below)
    (numberably : core.ExtendsNumberably environment.primitives rawBlock) :
    ReadBack environment.primitives accepted.pushed
      (accepted.pushed.transactions.map CachedTransaction.transaction) := by
  refine ⟨?_, extension.transactions_eq⟩
  obtain ⟨extracted, -⟩ := extractTransactions_eq_some extension.acceptance.extracted
  apply written_of_extracted extracted
  have chain := extension.numberable numberably (BlockchainCache.Totals.ofInfo below.info)
  have canonical := (chain.blocks _ (mem_append_right _ (mem_singleton_self _))).canonical
  change ∀ binary ∈ accepted.pushed.rawBlock.transactions, _ at canonical
  rwa [extension.acceptance.sameRawBlock] at canonical

theorem Extension.parsedPushed
    (extension : Extension environment now core rawBlock ptr segment accepted data below) :
    environment.primitives.blockFromBinaryArray accepted.pushed.rawBlock.block
      = some accepted.pushed.block := by
  rw [extension.acceptance.sameRawBlock]
  exact extension.parsed

section
variable (sound : core.Sound environment.primitives)
include sound

theorem Numbered.placed (numbered : core.Numbered environment.primitives)
    (extension : Extension environment now core rawBlock ptr segment accepted data below)
    (clean : segment.getTopBlockIndex ≠ accepted.previousBlockIndex → segment.SplitsCleanly)
    (numberably : core.ExtendsNumberably environment.primitives rawBlock)
    (placement : Placement environment.primitives core ptr segment accepted code result) :
    result.Numbered environment.primitives := by
  have found := extension.found
  have step := placement.chainStep sound extension clean
  constructor
  · apply placement.tabled numbered.tabled (numberedTables_closed _) sound extension clean
    · exact numberedTables_push (extension.index_eq sound) (extension.readBack numberably)
        (extension.numberable numberably) extension.parsedPushed
    · cases segment with
      | memory cache =>
        intro root lower upper self fresh isRoot
        cases isRoot
      | database cache =>
        obtain ⟨leaf, isLeaf, isPrefix, -⟩ :=
          chain_prefix_of_located sound.toTreeSound extension.located
        have numberable :=
          (numbered.numberable _ (mem_map_of_mem isLeaf)).of_shorter isPrefix
        rw [chain_of_database sound found] at numberable
        exact numberedTables_rootSplit (numbered.tabled ptr _ found) numberable
          (sound.tree.linked (tree_found found)) (sound.rooted_of_found found).genesis
          (succ_pos _)
  · intro chain member
    rcases step.mem_chains member with old | ⟨isNew, -⟩
    · exact numbered.numberable chain old
    · rw [isNew]
      exact extension.numberable numberably _

theorem Numbered.addBlock (numbered : core.Numbered environment.primitives)
    (clean : core.ParentSplitsCleanly environment.primitives rawBlock)
    (numberably : core.ExtendsNumberably environment.primitives rawBlock)
    (ran : core.addBlock environment now rawBlock = .ok (code, result)) :
    result.Sound environment.primitives ∧ result.Numbered environment.primitives := by
  refine ⟨sound.addBlock clean ran, ?_⟩
  rcases addBlock_eq_ok sound ran with unchanged | placed
  · rw [unchanged.2]
    exact numbered
  · obtain ⟨ptr, segment, accepted, data, below, extension, placement⟩ := placed
    exact numbered.placed sound extension (extension.splitsCleanly_iff.mp clean) numberably
      placement

end
end Step

/-! ### Merging and growing again -/

/-- The core over the root that a merge leaves, without the segments that were dropped. -/
def Remerged (primitives : Primitives) (core result : Core) : Prop :=
  ∃ merged root, core.mergeMainChainSegments primitives = some merged ∧
    merged.chainsStorage = [.database root] ∧
    result = ofRoot { root with children := [] } merged.mainChainStorage

theorem chains_ofRoot (root : DatabaseBlockchainCache) (storage : List RawBlock) :
    (ofRoot root storage).chains = [root.entries] := by
  change [root.entries ++ []] = _
  rw [append_nil]

theorem Numbered.ofRoot {root : DatabaseBlockchainCache} {storage : List RawBlock}
    (holds : root.OutputsNumbered primitives) (numberable : Numberable primitives root.entries) :
    (ofRoot root storage).Numbered primitives := by
  constructor
  · intro ptr segment found
    cases ptr with
    | zero =>
      cases found
      exact holds
    | succ ptr => simp [Core.ofRoot] at found
  · intro chain member
    rw [chains_ofRoot, mem_singleton] at member
    rw [member]
    exact numberable

variable {core : Core}

theorem Numbered.remerged {result : Core} (sound : core.Sound primitives)
    (numbered : core.Numbered primitives) (remerged : Remerged primitives core result) :
    result.Sound primitives ∧ result.Numbered primitives := by
  obtain ⟨merged, root, ran, isRoot, rfl⟩ := remerged
  obtain ⟨main, result, isMain, isMerged, entries, rooted, holds⟩ :=
    mergeMainChainSegments_eq_some (DatabaseBlockchainCache.OutputsNumbered primitives) sound
      numbered.tabled (fun root found => numbered.tabled 0 _ found)
      (fun main _ _ _ _ _ _ _ isMain isPrefix _ _ step holds =>
        step.outputsNumbered ((numbered.numberable _
          (mem_map_of_mem (mem_of_mem_head? isMain))).of_shorter isPrefix) holds) ran
  have sameRoot : result = root := by
    rw [isMerged] at isRoot
    exact Segment.database.inj (singleton_inj.mp isRoot)
  subst sameRoot
  obtain ⟨segment, found, -⟩ := leaf_found sound.toTreeSound (mem_of_mem_head? isMain)
  have nonempty : result.entries ≠ [] := by
    have positive : 0 < segment.entries.length :=
      sound.tree.items_length_pos (tree_found found)
    have length := chain_length sound.toTreeSound found
    rw [← entries] at length
    intro empty
    rw [empty, length_nil] at length
    omega
  have recorded := sound.chain_recorded found
  rw [← entries] at recorded
  have numberable := numbered.numberable _ (mem_map_of_mem (mem_of_mem_head? isMain))
  rw [← entries] at numberable
  exact ⟨ofRoot_sound nonempty recorded rfl ⟨rooted.genesis, rooted.units⟩,
    Numbered.ofRoot ⟨⟨holds.transactions, holds.outputs⟩, holds.hashes⟩ numberable⟩

/-- The block splits its parent's segment cleanly and can be numbered. -/
def ExtendsCleanly (primitives : Primitives) (core : Core) (rawBlock : RawBlock) : Prop :=
  core.ParentSplitsCleanly primitives rawBlock ∧ core.ExtendsNumberably primitives rawBlock

/-- One change of the tree: a call of `addBlock` on such a block, or a merge of the main
chain. -/
def TreeStep (environment : Environment) (core result : Core) : Prop :=
  Step environment (ExtendsCleanly environment.primitives) core result ∨
    Remerged environment.primitives core result

theorem treeRun_of_reaches {environment : Environment} {start : Core}
    (run : Reaches environment (ExtendsCleanly environment.primitives) start core) :
    Relation.ReflTransGen (TreeStep environment) start core := by
  induction run with
  | refl => exact .refl
  | tail _ step ih => exact ih.tail (.inl step)

def GenesisBlock.placed {primitives : Primitives} (genesis : GenesisBlock primitives) :
    PlacedTransaction :=
  { blockIndex := 0
    transactionIndex := 0
    transaction := genesis.block.baseTransaction }

theorem addGenesisBlock_outputsNumbered (genesis : GenesisBlock primitives) :
    (addGenesisBlock genesis).OutputsNumbered primitives := by
  have pushed : (DatabaseBlockchainCache.empty.pushTransaction primitives
      (GenesisBlock.placed genesis).blockIndex
      (CachedTransaction.ofTransaction primitives (GenesisBlock.placed genesis).transaction,
        (GenesisBlock.placed genesis).transactionIndex)).Numbers primitives ([] ++ [GenesisBlock.placed genesis]) :=
    DatabaseBlockchainCache.Numbers.pushTransaction ⟨rfl, rfl⟩ (fun _ member => nomatch member)
  have read : ({ info := genesis.info, rawBlock := genesis.rawBlock } : BlockEntry).transactions
      primitives = [genesis.block.baseTransaction] :=
    transactions_eq genesis.parsed rfl
  constructor
  · rw [addGenesisBlock_entries, placedFrom_singleton, read]
    exact ⟨pushed.transactions, pushed.outputs⟩
  · intro block member
    rw [mem_singleton.mp member]
    change _ = hashes primitives { info := genesis.info, rawBlock := genesis.rawBlock }
    unfold hashes
    rw [read]
    rfl

theorem initRootSegment_numbered (genesis : GenesisBlock primitives)
    (numberable : Numberable primitives (addGenesisBlock genesis).entries) :
    (initRootSegment genesis).Numbered primitives :=
  Numbered.ofRoot (addGenesisBlock_outputsNumbered genesis) numberable

theorem Numbered.run {environment : Environment} (genesis : GenesisBlock environment.primitives)
    (numberable : Numberable environment.primitives (addGenesisBlock genesis).entries)
    (run : Relation.ReflTransGen (TreeStep environment) (initRootSegment genesis) core) :
    core.Sound environment.primitives ∧ core.Numbered environment.primitives := by
  induction run with
  | refl => exact ⟨initRootSegment_sound genesis, initRootSegment_numbered genesis numberable⟩
  | tail _ step ih =>
    rcases step with ⟨now, rawBlock, code, permitted, ran⟩ | remerged
    · exact ih.2.addBlock ih.1 permitted.1 permitted.2 ran
    · exact ih.2.remerged ih.1 remerged

/-- On the path to a leaf the outputs of every amount have the numbers from zero upwards in
the order of the chain, and every transaction is stored with the numbers of its outputs. A
count query is right if no block between the queried index and the segment that answers has
an output of the amount. -/
theorem global_output_numbering {environment : Environment} {core : Core}
    (genesis : GenesisBlock environment.primitives)
    (numberable : Numberable environment.primitives (addGenesisBlock genesis).entries)
    (run : Relation.ReflTransGen (TreeStep environment) (initRootSegment genesis) core) :
    ∀ leaf ∈ core.chainsLeaves,
      (∀ amount, outputCount environment.primitives amount (core.chain leaf) < 2 ^ 32 ∧
        Lineage.numberedKeyOutputs amount (core.lineage leaf)
          = ((outputsOf environment.primitives amount
              (placedFrom environment.primitives 0 (core.chain leaf))).map
            packed).zipIdx.map fun output => (output.1, ofNat output.2)) ∧
      (∀ before placed after, placedFrom environment.primitives 0 (core.chain leaf)
          = before ++ placed :: after →
        Lineage.getTransactionGlobalIndexes (placed.hash environment.primitives)
            (core.lineage leaf)
          = some ((numbered (amountsOf before) placed.amounts).map fun number => ofNat number.2)) ∧
      ∀ amount blockIndex,
        Lineage.getKeyOutputsCountForAmount amount blockIndex (core.lineage leaf)
            = outputCount environment.primitives amount ((core.chain leaf).take blockIndex) ↔
          ∀ output ∈ outputsOf environment.primitives amount
              (placedFrom environment.primitives 0 (core.chain leaf)),
            blockIndex ≤ output.packed.blockIndex →
            Lineage.holderStart amount (core.lineage leaf) ≤ output.packed.blockIndex := by
  obtain ⟨sound, holds⟩ := Numbered.run genesis numberable run
  intro leaf isLeaf
  obtain ⟨segment, found, -⟩ := leaf_found sound.toTreeSound isLeaf
  have stack := holds.tabled.stack sound.toTreeSound found
  have chain := holds.numberable _ (mem_map_of_mem isLeaf)
  refine ⟨?_, ?_, ?_⟩
  · intro amount
    exact ⟨chain.fits amount, stack.numberedKeyOutputs amount⟩
  · intro before placed after isPlaced
    exact stack.getTransactionGlobalIndexes chain.distinct isPlaced
  · intro amount blockIndex
    rw [(stack.keyOutputsCount (chain.fits amount) blockIndex).2]
    exact outputCount_max_eq_iff _ _ _

/-! ### A fork inside the root -/

instance (primitives : Primitives) (entry : BlockEntry) :
    Decidable (entry.Faithful primitives) :=
  decidable_of_iff
    ((∀ block ∈ primitives.blockFromBinaryArray entry.rawBlock.block,
        block.transactionHashes = (entry.hashes primitives).tail) ∧
      (∀ binary ∈ entry.rawBlock.transactions,
        ∀ transaction ∈ primitives.transactionFromBinaryArray binary,
        primitives.transactionToBinaryArray transaction = binary) ∧
      (entry.transactions primitives).length ≤ 2 ^ 16)
    ⟨fun facts => ⟨facts.1, facts.2.1, facts.2.2⟩,
      fun faithful => ⟨faithful.header, faithful.canonical, faithful.positions⟩⟩

instance (primitives : Primitives) (chain : List BlockEntry) :
    Decidable (Numberable primitives chain) :=
  decidable_of_iff
    ((∀ entry ∈ chain, entry.Faithful primitives) ∧ (chain.flatMap (hashes primitives)).Nodup ∧
      (amountsOf (placedFrom primitives 0 chain)).all
        fun amount => outputCount primitives amount chain < 2 ^ 32)
    ⟨fun facts => ⟨facts.1, facts.2.1, fun amount => by
        by_cases present : amount ∈ amountsOf (placedFrom primitives 0 chain)
        · exact of_decide_eq_true (List.all_eq_true.mp facts.2.2 amount present)
        · unfold outputCount
          rw [outputsOf_length, List.count_eq_zero_of_not_mem present]
          exact Nat.two_pow_pos 32⟩,
      fun numberable => ⟨numberable.blocks, numberable.distinct,
        List.all_eq_true.mpr fun amount _ => decide_eq_true (numberable.fits amount)⟩⟩

instance (primitives : Primitives) (core : Core) (rawBlock : RawBlock) :
    Decidable (core.ExtendsNumberably primitives rawBlock) :=
  decidableAtParent primitives core rawBlock fun ptr _ index =>
    Numberable primitives ((core.chain ptr).take (index + 1) ++ [rawBlock.unrecorded])

instance (primitives : Primitives) (core : Core) (rawBlock : RawBlock) :
    Decidable (core.ExtendsCleanly primitives rawBlock) :=
  inferInstanceAs (Decidable (_ ∧ _))

theorem global_output_numbering_fork :
    1 ∈ (afterAll forkEnvironment (initRootSegment forkGenesis) [1, 2, 3]).chainsLeaves ∧
      ∀ amount,
        Lineage.numberedKeyOutputs amount
            ((afterAll forkEnvironment (initRootSegment forkGenesis) [1, 2, 3]).lineage 1)
          = ((outputsOf forkEnvironment.primitives amount
              (placedFrom forkEnvironment.primitives 0
                ((afterAll forkEnvironment (initRootSegment forkGenesis) [1, 2, 3]).chain
                  1))).map packed).zipIdx.map
            fun output => (output.1, ofNat output.2) := by
  have isLeaf : 1 ∈ (afterAll forkEnvironment (initRootSegment forkGenesis)
      [1, 2, 3]).chainsLeaves := by decide +kernel
  have run : Reaches forkEnvironment (ExtendsCleanly forkEnvironment.primitives)
      (initRootSegment forkGenesis)
      (afterAll forkEnvironment (initRootSegment forkGenesis) [1, 2, 3]) :=
    reaches_afterAll (by decide +kernel)
  have numbering := global_output_numbering forkGenesis (by decide +kernel)
    (treeRun_of_reaches run) 1 isLeaf
  exact ⟨isLeaf, fun amount => (numbering.1 amount).2⟩

/-- After a fork the leaf counts the outputs below its own segment, whatever index is asked
for; after a second fork below the first one it keeps a number whose predecessor is gone. -/
theorem output_numbers_after_forks :
    Reaches forkEnvironment (fun _ _ => True) (initRootSegment forkGenesis)
        (afterAll forkEnvironment (initRootSegment forkGenesis) [1, 2, 3, 4]) ∧
      (1 ∈ (afterAll forkEnvironment (initRootSegment forkGenesis) [1, 2, 3]).chainsLeaves ∧
        Lineage.getKeyOutputsCountForAmount 37252902 1
          ((afterAll forkEnvironment (initRootSegment forkGenesis) [1, 2, 3]).lineage 1) = 1 ∧
        outputCount forkEnvironment.primitives 37252902
          (((afterAll forkEnvironment (initRootSegment forkGenesis) [1, 2, 3]).chain 1).take 1)
          = 0) ∧
      1 ∈ (afterAll forkEnvironment (initRootSegment forkGenesis) [1, 2, 3, 4]).chainsLeaves ∧
      Lineage.numberedKeyOutputs 37252902
          ((afterAll forkEnvironment (initRootSegment forkGenesis) [1, 2, 3, 4]).lineage 1)
        = [({ blockIndex := 2, transactionIndex := 0, outputIndex := 0 }, 1)] :=
  ⟨reaches_afterAll (by decide +kernel), by decide +kernel, by decide +kernel,
    by decide +kernel⟩

end Core
end Mevacoin
