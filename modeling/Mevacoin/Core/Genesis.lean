/-
The core that start-up creates over an empty database: one database segment that
holds the genesis block, and a main chain storage with the same block.
-/

import Mevacoin.Core.WellFormed

namespace Mevacoin
open List

/-- The genesis block of the currency together with its serialised form. -/
structure GenesisBlock (primitives : Primitives) where
  block : BlockTemplate
  binaryArray : BinaryArray
  parsed : primitives.blockFromBinaryArray binaryArray = some block
  coinbase : block.baseTransaction.inputs = [.base 0]

namespace GenesisBlock
variable {primitives : Primitives}

theorem index (genesis : GenesisBlock primitives) : genesis.block.getBlockIndex = 0 := by
  simp [BlockTemplate.getBlockIndex, genesis.coinbase]

def rawBlock (genesis : GenesisBlock primitives) : RawBlock :=
  { block := genesis.binaryArray, transactions := [] }

def info (genesis : GenesisBlock primitives) : CachedBlockInfo :=
  { blockHash := primitives.getBlockHash genesis.block
    timestamp := genesis.block.timestamp
    cumulativeDifficulty := 1
    alreadyGeneratedCoins := (genesis.block.baseTransaction.outputs.map TransactionOutput.amount).sum
    alreadyGeneratedTransactions := 1
    blockSize := UInt32.ofNat
      (primitives.transactionToBinaryArray genesis.block.baseTransaction).length }

end GenesisBlock

namespace DatabaseBlockchainCache

def empty : DatabaseBlockchainCache :=
  { blocks := []
    blockIndexBySpentKeyImage := fun _ => none
    cachedTransactions := fun _ => none
    keyOutputs := fun _ => []
    unitsCache := []
    children := [] }

def addGenesisBlock {primitives : Primitives} (genesis : GenesisBlock primitives) :
    DatabaseBlockchainCache :=
  let baseTransaction :=
    CachedTransaction.ofTransaction primitives genesis.block.baseTransaction
  { empty.pushTransaction primitives 0 (baseTransaction, 0) with
    blocks := [{
      info := genesis.info
      rawBlock := genesis.rawBlock
      transactionHashes := [baseTransaction.getTransactionHash primitives]
      spentKeyImages := [] }]
    unitsCache := [genesis.info] }

theorem addGenesisBlock_entries {primitives : Primitives} (genesis : GenesisBlock primitives) :
    (addGenesisBlock genesis).entries
      = [{ info := genesis.info, rawBlock := genesis.rawBlock }] := rfl

theorem addGenesisBlock_rooted {primitives : Primitives} (genesis : GenesisBlock primitives) :
    (addGenesisBlock genesis).Rooted primitives where
  genesis := by
    intro first isFirst
    cases isFirst
    simp [BlockEntry.blockIndex, GenesisBlock.rawBlock, genesis.parsed, genesis.index]
  units := suffix_refl _

end DatabaseBlockchainCache

namespace Core

def initRootSegment {primitives : Primitives} (genesis : GenesisBlock primitives) : Core :=
  { chainsStorage := [.database (.addGenesisBlock genesis)]
    chainsLeaves := [0]
    mainChainSet := [0]
    mainChainStorage := [genesis.rawBlock] }

def ofRoot (root : DatabaseBlockchainCache) (mainChainStorage : List RawBlock) : Core :=
  { chainsStorage := [.database root]
    chainsLeaves := [0]
    mainChainSet := [0]
    mainChainStorage := mainChainStorage }

section OfRoot
variable {primitives : Primitives} {root : DatabaseBlockchainCache} {storage : List RawBlock}

private theorem ofRoot_lookup {ptr : SegmentPtr} {node : SegmentTree.Node BlockEntry}
    (found : (ofRoot root storage).tree[ptr]? = some node) :
    ptr = 0 ∧ node = (Segment.database root).toNode := by
  cases ptr with
  | zero =>
    cases found
    exact ⟨rfl, rfl⟩
  | succ ptr => simp [tree, ofRoot] at found

private theorem ofRoot_parent (ptr : SegmentPtr) :
    SegmentTree.parentOf (ofRoot root storage).tree ptr = none := by
  cases found : (ofRoot root storage).tree[ptr]? with
  | none => simp [SegmentTree.parentOf, found]
  | some node =>
    rw [SegmentTree.parentOf_eq found, (ofRoot_lookup found).2]
    rfl

private theorem ofRoot_tree (nonempty : root.entries ≠ [])
    (recorded : root.entries.IsChain (Recorded primitives)) (childless : root.children = []) :
    SegmentTree.Sound (Recorded primitives) (ofRoot root storage).tree where
  root := ⟨_, rfl, rfl, rfl⟩
  nonempty := by
    intro ptr node found
    rw [(ofRoot_lookup found).2]
    exact nonempty
  linked := by
    intro ptr node found
    rw [(ofRoot_lookup found).2]
    exact recorded
  attached := by
    intro ptr node found notRoot
    exact absurd (ofRoot_lookup found).1 notRoot
  children_nodup := by
    intro ptr node found
    rw [(ofRoot_lookup found).2]
    change root.children.Nodup
    rw [childless]
    exact nodup_nil
  mem_children := by
    intro ptr node found child
    rw [(ofRoot_lookup found).2, ofRoot_parent child]
    change child ∈ root.children ↔ _
    rw [childless]
    constructor
    · intro member
      cases member
    · intro parent
      cases parent

private theorem ofRoot_leaves (childless : root.children = []) :
    SegmentTree.Leaves (ofRoot root storage).tree [0] where
  nodup := nodup_singleton 0
  mem_iff ptr := by
    rw [mem_singleton]
    constructor
    · intro same
      subst same
      exact ⟨_, rfl, childless⟩
    · intro ⟨node, found, _⟩
      exact (ofRoot_lookup found).1

private theorem ofRoot_mainChain (ptr : SegmentPtr) :
    ptr ∈ [0] ↔ Relation.ReflTransGen
      (fun child parent => (ofRoot root storage).getParent child = some parent) 0 ptr := by
  rw [mem_singleton, getParent_eq]
  constructor
  · intro same
    subst same
    exact .refl
  · intro reached
    cases reached with
    | refl => rfl
    | tail _ parent =>
      rw [ofRoot_parent] at parent
      cases parent

theorem ofRoot_sound (nonempty : root.entries ≠ [])
    (recorded : root.entries.IsChain (Recorded primitives)) (childless : root.children = [])
    (rooted : root.Rooted primitives) : (ofRoot root storage).Sound primitives where
  tree := ofRoot_tree nonempty recorded childless
  root := ⟨_, rfl⟩
  leaves := ofRoot_leaves childless
  mainChain := ⟨0, rfl, ofRoot_mainChain⟩
  rooted := by
    intro cache found
    cases found
    exact rooted

end OfRoot

theorem initRootSegment_sound {primitives : Primitives} (genesis : GenesisBlock primitives) :
    (initRootSegment genesis).Sound primitives :=
  ofRoot_sound (cons_ne_nil _ _) (List.IsChain.singleton _) rfl
    (DatabaseBlockchainCache.addGenesisBlock_rooted genesis)

end Core

instance (transaction : Transaction) : Decidable transaction.SignaturesMatch := by
  unfold Transaction.SignaturesMatch
  split <;> infer_instance

/-- Blocks and transactions are written as their position in a table. The nonce of a
block is its hash, the extra field of a transaction its serialised form, and every
curve check and proof of work succeeds. -/
def tablePrimitives (blocks : List BlockTemplate) (transactions : List Transaction) :
    Primitives where
  blockFromBinaryArray binary := binary.head?.bind fun code => blocks[code.toNat]?
  transactionFromBinaryArray binary :=
    (binary.head?.bind fun code => transactions[code.toNat]?).filter
      fun transaction => transaction.SignaturesMatch
  transactionToBinaryArray transaction := transaction.extra
  parentBlockBinarySize _ := 0
  getBinaryArrayHash binary :=
    { value := BitVec.ofNat 256 (binary.foldl (fun sum byte => 256 * sum + byte.toNat + 1) 0) }
  getBlockHash block := { value := BitVec.ofNat 256 block.nonce.toNat }
  getTransactionPrefixHash _ := { value := 0 }
  checkKey _ := true
  keyImageInDomain _ := true
  checkRingSignature _ _ _ _ := true
  checkProofOfWork _ _ := true
  signaturesMatch _ _ parsed := by
    have kept := (Option.filter_eq_some_iff.mp parsed).2
    simpa using kept

/-- A block that holds nothing but its coinbase, named by a code. -/
def coinbaseBlock (code previous blockIndex : Nat) (reward : UInt64) : BlockTemplate :=
  { majorVersion := UInt8.ofNat (UpgradeManager.getBlockMajorVersion blockIndex)
    minorVersion := 0
    nonce := UInt32.ofNat code
    timestamp := 0
    previousBlockHash := { value := BitVec.ofNat 256 previous }
    parentBlock := { majorVersion := 0 }
    baseTransaction :=
      { version := 1
        unlockTime := UInt64.ofNat (blockIndex + Parameters.minedMoneyUnlockWindow)
        inputs := [.base (UInt32.ofNat blockIndex)]
        outputs := [{ amount := reward, target := { key := { value := 0 } } }]
        extra := [UInt8.ofNat code]
        signatures := [] }
    transactionHashes := [] }

theorem inputs_firstBlock : (coinbaseBlock 0 255 0 1).baseTransaction.inputs = [.base 0] := rfl

def codedBlock (code : UInt8) : RawBlock :=
  { block := [code], transactions := [] }

end Mevacoin
