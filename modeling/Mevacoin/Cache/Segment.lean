/-
The two kinds of chain segment. A memory segment keeps its blocks together with
multi-index tables of transactions, spent key images and output numbers; the
database segment keeps the same data in key-value tables and a short cache of its
newest blocks. Segments refer to each other by address.

Payment identifiers and the timestamp indexes are not used when blocks are
validated or placed, and are left out of both kinds.
-/

import Mathlib.Logic.Function.Basic
import Mevacoin.Types

namespace Mevacoin

abbrev SegmentPtr := Nat

/-- Outputs of one amount in creation order; the first of them has the global index
`startIndex`. -/
structure OutputGlobalIndexesForAmount where
  startIndex : UInt32
  outputs : List PackedOutIndex
  deriving DecidableEq, Repr

structure BlockchainCache where
  parent : Option SegmentPtr
  startIndex : Nat
  blocks : List BlockEntry
  transactions : List CachedTransactionInfo
  spentKeyImages : List SpentKeyImage
  keyOutputsGlobalIndexes : UInt64 → Option OutputGlobalIndexesForAmount
  children : List SegmentPtr

namespace BlockchainCache

def create (parent : SegmentPtr) (startIndex : Nat) : BlockchainCache :=
  { parent := some parent
    startIndex := startIndex
    blocks := []
    transactions := []
    spentKeyImages := []
    keyOutputsGlobalIndexes := fun _ => none
    children := [] }

def findTransaction (cache : BlockchainCache) (blockIndex transactionIndex : Nat) :
    Option CachedTransactionInfo :=
  cache.transactions.find? fun info =>
    info.blockIndex = blockIndex ∧ info.transactionIndex = transactionIndex

def findSpentKeyImage (cache : BlockchainCache) (keyImage : KeyImage) : Option SpentKeyImage :=
  cache.spentKeyImages.find? fun spent => spent.keyImage = keyImage

end BlockchainCache

structure DatabaseBlock where
  info : CachedBlockInfo
  rawBlock : RawBlock
  transactionHashes : List Hash
  spentKeyImages : List KeyImage
  deriving DecidableEq, Repr

structure KeyOutputInfo where
  publicKey : PublicKey
  transactionHash : Hash
  unlockTime : UInt64
  outputIndex : Nat
  deriving DecidableEq, Repr

structure StoredKeyOutput where
  packed : PackedOutIndex
  info : KeyOutputInfo
  deriving DecidableEq, Repr

/-- A stored transaction; the numbers of its outputs are kept by amount as well. -/
structure ExtendedTransactionInfo extends CachedTransactionInfo where
  amountToKeyIndexes : List (UInt64 × Nat)
  deriving DecidableEq, Repr

/-- The tables keyed by amount and global index are one list per amount; its length
is the stored output count. -/
structure DatabaseBlockchainCache where
  blocks : List DatabaseBlock
  blockIndexBySpentKeyImage : KeyImage → Option Nat
  cachedTransactions : Hash → Option ExtendedTransactionInfo
  keyOutputs : UInt64 → List StoredKeyOutput
  unitsCache : List CachedBlockInfo
  children : List SegmentPtr

namespace DatabaseBlockchainCache

def unitsCacheSize : Nat := 1000

def entries (cache : DatabaseBlockchainCache) : List BlockEntry :=
  cache.blocks.map fun block => { info := block.info, rawBlock := block.rawBlock }

end DatabaseBlockchainCache

inductive Segment where
  | database (cache : DatabaseBlockchainCache)
  | memory (cache : BlockchainCache)

namespace Segment

def getParent : Segment → Option SegmentPtr
  | database _ => none
  | memory cache => cache.parent

def getStartBlockIndex : Segment → Nat
  | database _ => 0
  | memory cache => cache.startIndex

def entries : Segment → List BlockEntry
  | database cache => cache.entries
  | memory cache => cache.blocks

def children : Segment → List SegmentPtr
  | database cache => cache.children
  | memory cache => cache.children

def getBlockCount (segment : Segment) : Nat := segment.entries.length

def getTopBlockIndex (segment : Segment) : Nat :=
  segment.getStartBlockIndex + segment.getBlockCount - 1

def getChildCount (segment : Segment) : Nat := segment.children.length

def hasBlock (segment : Segment) (blockHash : Hash) : Bool :=
  segment.entries.any fun entry => entry.info.blockHash = blockHash

/-- `none` is the exception for an unknown block. -/
def getBlockIndex (segment : Segment) (blockHash : Hash) : Option Nat :=
  (segment.entries.findIdx? fun entry => entry.info.blockHash = blockHash).map
    fun position => position + segment.getStartBlockIndex

/-- Adding a known child again has no effect on the database segment. -/
def addChild (child : SegmentPtr) : Segment → Segment
  | database cache =>
    database { cache with
      children := if child ∈ cache.children then cache.children else cache.children ++ [child] }
  | memory cache => memory { cache with children := cache.children ++ [child] }

/-- The database segment ignores the call. -/
def setParent (parent : SegmentPtr) : Segment → Segment
  | database cache => database cache
  | memory cache => memory { cache with parent := some parent }

end Segment
end Mevacoin
