/-
Validation of transactions and blocks against the segment that holds the parent
block. Each check ends the validation with the error code of the source; the
checks are made in the source's order.
-/

import Mevacoin.Cache.Update
import Mevacoin.Lib.Checked
import Mevacoin.Reward

namespace Mevacoin
open Checked
open Parameters

/-! ### Error codes -/

inductive AddBlockErrorCode where
  | addedToMain
  | addedToAlternative
  | addedToAlternativeAndSwitched
  | alreadyExists
  | rejectedAsOrphaned
  | deserializationFailed
  deriving DecidableEq, Repr

inductive BlockValidationError where
  | wrongVersion
  | parentBlockSizeTooBig
  | parentBlockWrongVersion
  | timestampTooFarInFuture
  | timestampTooFarInPast
  | cumulativeBlockSizeTooBig
  | difficultyOverhead
  | blockRewardMismatch
  | checkpointBlockHashMismatch
  | proofOfWorkTooWeak
  | transactionDuplicates
  | transactionInconsistency
  deriving DecidableEq, Repr

inductive TransactionValidationError where
  | emptyInputs
  | inputUnknownType
  | inputEmptyOutputUsage
  | inputInvalidDomainKeyimages
  | inputIdenticalKeyimages
  | inputIdenticalOutputIndexes
  | inputKeyimageAlreadySpent
  | inputInvalidGlobalIndex
  | inputSpendLockedOut
  | inputInvalidSignatures
  | inputsAmountOverflow
  | inputWrongCount
  | inputUnexpectedType
  | baseInputWrongBlockIndex
  | outputZeroAmount
  | outputInvalidKey
  | outputsAmountOverflow
  | wrongAmount
  | wrongTransactionUnlockTime
  | invalidMixin
  | baseInvalidSignaturesCount
  | inputInvalidSignaturesCount
  deriving DecidableEq, Repr

inductive ErrorCode where
  | addBlock (code : AddBlockErrorCode)
  | block (error : BlockValidationError)
  | transaction (error : TransactionValidationError)
  deriving DecidableEq, Repr

def ErrorCode.accepted : ErrorCode → Bool
  | .addBlock .addedToMain => true
  | .addBlock .addedToAlternative => true
  | .addBlock .addedToAlternativeAndSwitched => true
  | _ => false

/-- A map from block indexes to the hashes expected there. -/
structure Checkpoints where
  points : List (Nat × Hash)
  deriving DecidableEq, Repr

namespace Checkpoints

/-- Some checkpoint, hence the highest, is not below the index. -/
def isInCheckpointZone (checkpoints : Checkpoints) (index : Nat) : Bool :=
  checkpoints.points.any fun point => index ≤ point.1

def checkBlock (checkpoints : Checkpoints) (index : Nat) (hash : Hash) : Bool :=
  match checkpoints.points.find? fun point => point.1 = index with
  | none => true
  | some point => point.2 = hash

end Checkpoints

namespace Mixins

/-- The smallest and the largest mixin allowed at a height. -/
def getMixinAllowableRange (height : Nat) : Nat × Nat :=
  if height ≥ mixinLimitsV4Height then (1, 5)
  else if height ≥ mixinLimitsV3Height then (3, 3)
  else if height ≥ mixinLimitsV2Height then (7, 7)
  else if height ≥ mixinLimitsV1Height then (0, 100)
  else (0, 2 ^ 64 - 1)

def ringSize (transaction : Transaction) : Nat :=
  (transaction.keyInputs.map fun input => input.outputIndexes.length).foldl max 1

def validateOne (minMixin maxMixin : Nat) (cached : CachedTransaction) : Bool :=
  let mixin := ringSize cached.transaction - 1
  mixin ≤ maxMixin ∧ minMixin ≤ mixin

def validate (transactions : List CachedTransaction) (height : Nat) : Bool :=
  let (minMixin, maxMixin) := getMixinAllowableRange height
  transactions.all (validateOne minMixin maxMixin)

end Mixins

structure Environment where
  primitives : Primitives
  checkpoints : Checkpoints

/-! ### Transactions -/

def maxAmount : UInt64 := 0xFFFFFFFFFFFFFFFF

/-- One round of the loops over outputs in `validateSemantic` and `validateBlock`. -/
def addOutputAmount (primitives : Primitives) (sum : UInt64) (output : TransactionOutput) :
    Except TransactionValidationError UInt64 := do
  rejectIf (output.amount = 0) .outputZeroAmount
  rejectIf (primitives.checkKey output.target.key = false) .outputInvalidKey
  rejectIf (maxAmount - output.amount < sum) .outputsAmountOverflow
  return sum + output.amount

/-- One round of the loop over inputs, on the key images met and the sum so far. -/
def addInputAmount (primitives : Primitives) (met : List KeyImage × UInt64)
    (input : TransactionInput) :
    Except TransactionValidationError (List KeyImage × UInt64) :=
  match input with
  | .base _ => .error .inputUnknownType
  | .key input => do
      rejectIf (input.keyImage ∈ met.1) .inputIdenticalKeyimages
      rejectIf (input.outputIndexes = []) .inputEmptyOutputUsage
      rejectIf (primitives.keyImageInDomain input.keyImage = false) .inputInvalidDomainKeyimages
      rejectIf (0 ∈ input.outputIndexes.tail) .inputIdenticalOutputIndexes
      rejectIf (maxAmount - input.amount < met.2) .inputsAmountOverflow
      return (met.1 ++ [input.keyImage], met.2 + input.amount)

def validateSemantic (primitives : Primitives) (transaction : Transaction) :
    Except TransactionValidationError UInt64 := do
  rejectIf (transaction.inputs = []) .emptyInputs
  let summaryOutputAmount ← transaction.outputs.foldlM (addOutputAmount primitives) 0
  let (_, summaryInputAmount) ← transaction.inputs.foldlM (addInputAmount primitives) ([], 0)
  rejectIf (summaryOutputAmount > summaryInputAmount) .wrongAmount
  return summaryInputAmount - summaryOutputAmount

/-- Running sums of the packed indexes, in 32-bit arithmetic. -/
def globalIndexes (sum : UInt32) : List UInt32 → List UInt32
  | [] => []
  | outputIndex :: rest => (sum + outputIndex) :: globalIndexes (sum + outputIndex) rest

def ExtractOutputKeysResult.toError : ExtractOutputKeysResult → TransactionValidationError
  | .outputLocked => .inputSpendLockedOut
  | _ => .inputInvalidGlobalIndex

def checkKeyInput (primitives : Primitives) (now : UInt64) (segments : List Segment)
    (blockIndex : Nat) (transaction : Transaction) (input : KeyInput) (inputIndex : Nat) :
    Except TransactionValidationError Unit := do
  rejectIf (Lineage.checkIfSpent input.keyImage blockIndex segments = true)
    .inputKeyimageAlreadySpent
  let outputKeys ← mapError ExtractOutputKeysResult.toError
    (Lineage.extractKeyOutputKeys now input.amount blockIndex
      (globalIndexes 0 input.outputIndexes) [] segments)
  let signatures := transaction.signatures.getD inputIndex []
  rejectIf (blockIndex ≥ transactionSignatureCountValidationHeight ∧
    outputKeys.length ≠ signatures.length) .inputInvalidSignaturesCount
  rejectIf (primitives.checkRingSignature (primitives.getTransactionPrefixHash transaction)
    input.keyImage outputKeys signatures = false) .inputInvalidSignatures

/-- One round of the loop over inputs of `validateTransaction`. -/
def validateInput (environment : Environment) (now : UInt64) (segments : List Segment)
    (blockIndex : Nat) (transaction : Transaction) (state : TransactionValidatorState)
    (input : TransactionInput × Nat) :
    Except TransactionValidationError TransactionValidatorState :=
  match input.1 with
  | .base _ => .error .inputUnknownType
  | .key keyInput => do
      rejectIf (keyInput.keyImage ∈ state.spentKeyImages) .inputKeyimageAlreadySpent
      checkWhen (environment.checkpoints.isInCheckpointZone (blockIndex + 1) = false)
        (checkKeyInput environment.primitives now segments blockIndex transaction keyInput input.2)
      return { spentKeyImages := state.spentKeyImages ++ [keyInput.keyImage] }

/-- The fee and the state with the key images of the transaction; the block index is
that of the parent block. -/
def validateTransaction (environment : Environment) (now : UInt64) (segments : List Segment)
    (blockIndex : Nat) (state : TransactionValidatorState) (cached : CachedTransaction) :
    Except TransactionValidationError (UInt64 × TransactionValidatorState) := do
  let fee ← validateSemantic environment.primitives cached.transaction
  let state ← cached.transaction.inputs.zipIdx.foldlM
    (validateInput environment now segments blockIndex cached.transaction) state
  return (fee, state)

/-- The loop over the transactions of a block, on the cumulative fee and the state. -/
def validateTransactions (environment : Environment) (now : UInt64) (segments : List Segment)
    (blockIndex : Nat) (transactions : List CachedTransaction) :
    Except TransactionValidationError (UInt64 × TransactionValidatorState) :=
  transactions.foldlM
    (fun progress cached => do
      let (fee, state) ← validateTransaction environment now segments blockIndex progress.2 cached
      return (progress.1 + fee, state))
    (0, { spentKeyImages := [] })

def checkBaseInput (baseTransaction : Transaction) :
    Except TransactionValidationError Nat :=
  match baseTransaction.inputs with
  | [.base blockIndex] => .ok blockIndex.toNat
  | [.key _] => .error .inputUnexpectedType
  | _ => .error .inputWrongCount

def validateBlock (environment : Environment) (now : UInt64) (segments : List Segment)
    (previousBlockIndex : Nat) (block : BlockTemplate) : Except ErrorCode UInt64 := do
  rejectIf (UpgradeManager.getBlockMajorVersion block.getBlockIndex ≠ block.majorVersion.toNat)
    (.block .wrongVersion)
  rejectIf (block.majorVersion = 2 ∧ block.parentBlock.majorVersion > 1)
    (.block .parentBlockWrongVersion)
  rejectIf (block.majorVersion ≥ 2 ∧
    environment.primitives.parentBlockBinarySize block > 2048) (.block .parentBlockSizeTooBig)
  rejectIf (block.timestamp
      > now + UInt64.ofNat (Currency.blockFutureTimeLimit (previousBlockIndex + 1)))
    (.block .timestampTooFarInFuture)
  let window := Currency.timestampCheckWindow (previousBlockIndex + 1)
  let timestamps := Lineage.getLastTimestamps segments window previousBlockIndex true
  rejectIf (timestamps.length ≥ window ∧ block.timestamp < medianValue timestamps)
    (.block .timestampTooFarInPast)
  let blockIndex ← mapError .transaction (checkBaseInput block.baseTransaction)
  rejectIf (blockIndex ≠ previousBlockIndex + 1) (.transaction .baseInputWrongBlockIndex)
  rejectIf (block.baseTransaction.unlockTime.toNat
      ≠ previousBlockIndex + 1 + minedMoneyUnlockWindow)
    (.transaction .wrongTransactionUnlockTime)
  rejectIf (block.getBlockIndex ≥ transactionSignatureCountValidationHeight ∧
    block.baseTransaction.signatures ≠ []) (.transaction .baseInvalidSignaturesCount)
  mapError .transaction
    (block.baseTransaction.outputs.foldlM (addOutputAmount environment.primitives) 0)

end Mevacoin
