/-
Transactions, blocks and the records the caches keep about them. Hashing,
serialisation and curve arithmetic are parameters: the core only compares hashes
and branches on the outcome of a check. What the deserialiser guarantees about
signature lists is carried with the parser.
-/

import Mathlib.Data.List.Basic
import Mathlib.Data.UInt
import Mevacoin.Config

namespace Mevacoin

structure Hash where
  value : BitVec 256
  deriving DecidableEq, Repr

structure PublicKey where
  value : BitVec 256
  deriving DecidableEq, Repr

structure KeyImage where
  value : BitVec 256
  deriving DecidableEq, Repr

structure Signature where
  value : BitVec 512
  deriving DecidableEq, Repr

abbrev BinaryArray := List UInt8

/-! ### Transactions and blocks -/

structure KeyInput where
  amount : UInt64
  outputIndexes : List UInt32
  keyImage : KeyImage
  deriving DecidableEq, Repr

inductive TransactionInput where
  | base (blockIndex : UInt32)
  | key (input : KeyInput)
  deriving DecidableEq, Repr

/-- The output target variant has the key output as its only member. -/
structure KeyOutput where
  key : PublicKey
  deriving DecidableEq, Repr

structure TransactionOutput where
  amount : UInt64
  target : KeyOutput
  deriving DecidableEq, Repr

structure Transaction where
  version : UInt8
  unlockTime : UInt64
  inputs : List TransactionInput
  outputs : List TransactionOutput
  extra : BinaryArray
  signatures : List (List Signature)
  deriving DecidableEq, Repr

structure TransactionPrefix where
  version : UInt8
  unlockTime : UInt64
  inputs : List TransactionInput
  outputs : List TransactionOutput
  extra : BinaryArray
  deriving DecidableEq, Repr

/-- The merge-mining parent, of which the core inspects the version only. -/
structure ParentBlock where
  majorVersion : UInt8
  minorVersion : UInt8 := 0
  previousBlockHash : Hash := { value := 0 }
  transactionCount : UInt16 := 0
  baseTransactionBranch : List Hash := []
  baseTransaction : TransactionPrefix :=
    { version := 0, unlockTime := 0, inputs := [], outputs := [], extra := [] }
  blockchainBranch : List Hash := []
  deriving DecidableEq, Repr

structure BlockTemplate where
  majorVersion : UInt8
  minorVersion : UInt8
  nonce : UInt32
  timestamp : UInt64
  previousBlockHash : Hash
  parentBlock : ParentBlock
  baseTransaction : Transaction
  transactionHashes : List Hash
  deriving DecidableEq, Repr

structure RawBlock where
  block : BinaryArray
  transactions : List BinaryArray
  deriving DecidableEq, Repr

namespace TransactionInput

def keyInput? : TransactionInput → Option KeyInput
  | base _ => none
  | key input => some input

end TransactionInput

namespace Transaction

def keyInputs (transaction : Transaction) : List KeyInput :=
  transaction.inputs.filterMap TransactionInput.keyInput?

def keyImages (transaction : Transaction) : List KeyImage :=
  transaction.keyInputs.map KeyInput.keyImage

/-- What reading a transaction guarantees about its signatures: none at all when the
only input is a base input, otherwise one list per input with one signature per
ring member. -/
def SignaturesMatch (transaction : Transaction) : Prop :=
  match transaction.inputs with
  | [.base _] => transaction.signatures = []
  | inputs => transaction.signatures.map List.length
      = inputs.map fun input =>
        match input with
        | .base _ => 0
        | .key input => input.outputIndexes.length

end Transaction

namespace BlockTemplate

def getBlockIndex (block : BlockTemplate) : Nat :=
  match block.baseTransaction.inputs with
  | [.base blockIndex] => blockIndex.toNat
  | _ => 0

end BlockTemplate

structure Primitives where
  blockFromBinaryArray : BinaryArray → Option BlockTemplate
  transactionFromBinaryArray : BinaryArray → Option Transaction
  transactionToBinaryArray : Transaction → BinaryArray
  parentBlockBinarySize : BlockTemplate → Nat
  getBinaryArrayHash : BinaryArray → Hash
  getBlockHash : BlockTemplate → Hash
  getTransactionPrefixHash : Transaction → Hash
  checkKey : PublicKey → Bool
  keyImageInDomain : KeyImage → Bool
  checkRingSignature : Hash → KeyImage → List PublicKey → List Signature → Bool
  checkProofOfWork : BlockTemplate → UInt64 → Bool
  signaturesMatch : ∀ binary transaction,
    transactionFromBinaryArray binary = some transaction → transaction.SignaturesMatch

/-- A transaction together with the bytes it was read from or written to. -/
structure CachedTransaction where
  transaction : Transaction
  binaryArray : BinaryArray

namespace CachedTransaction

def ofTransaction (primitives : Primitives) (transaction : Transaction) : CachedTransaction :=
  { transaction := transaction
    binaryArray := primitives.transactionToBinaryArray transaction }

def getTransactionHash (primitives : Primitives) (cached : CachedTransaction) : Hash :=
  primitives.getBinaryArrayHash cached.binaryArray

end CachedTransaction

structure CachedBlockInfo where
  blockHash : Hash
  timestamp : UInt64
  cumulativeDifficulty : UInt64
  alreadyGeneratedCoins : UInt64
  alreadyGeneratedTransactions : UInt64
  blockSize : UInt32
  deriving DecidableEq, Repr

/-- One block of a segment: what is cached about it and its raw form. -/
structure BlockEntry where
  info : CachedBlockInfo
  rawBlock : RawBlock
  deriving DecidableEq, Repr

structure PackedOutIndex where
  blockIndex : Nat
  transactionIndex : Nat
  outputIndex : Nat
  deriving DecidableEq, Repr

structure CachedTransactionInfo where
  blockIndex : Nat
  transactionIndex : Nat
  transactionHash : Hash
  unlockTime : UInt64
  outputs : List KeyOutput
  globalIndexes : List UInt32
  deriving DecidableEq, Repr

structure SpentKeyImage where
  blockIndex : Nat
  keyImage : KeyImage
  deriving DecidableEq, Repr

/-- The set of key images a run of transaction validations has collected. -/
structure TransactionValidatorState where
  spentKeyImages : List KeyImage
  deriving DecidableEq, Repr

structure PushedBlock where
  block : BlockTemplate
  transactions : List CachedTransaction
  validatorState : TransactionValidatorState
  blockSize : Nat
  generatedCoins : UInt64
  blockDifficulty : UInt64
  rawBlock : RawBlock

inductive ExtractOutputKeysResult where
  | success
  | invalidGlobalIndex
  | outputLocked
  deriving DecidableEq, Repr

end Mevacoin
