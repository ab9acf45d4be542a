/-
The transaction pool: a container with three indexes over the same transactions, and
the set of key images that they spend together. The images are merged before an
insertion and excluded before a removal.
-/

import Mevacoin.Core.Commitment
import Mevacoin.Core.ValidTransactions

namespace Mevacoin
open List TransactionValidatorState
open List.Perm (refl swap)

variable {state : TransactionValidatorState} {cached : CachedTransaction}

namespace TransactionValidatorState

def insertKeyImage (keyImages : List KeyImage) (keyImage : KeyImage) : List KeyImage :=
  if keyImage ∈ keyImages then keyImages else keyImages ++ [keyImage]

def mergeStates (destination source : TransactionValidatorState) : TransactionValidatorState :=
  { spentKeyImages := source.spentKeyImages.foldl insertKeyImage destination.spentKeyImages }

def hasIntersections (destination source : TransactionValidatorState) : Bool :=
  source.spentKeyImages.any fun keyImage => keyImage ∈ destination.spentKeyImages

def excludeFromState (state : TransactionValidatorState) (cached : CachedTransaction) :
    TransactionValidatorState :=
  { spentKeyImages := cached.transaction.inputs.foldl
      (fun keyImages input =>
        match input with
        | .key input => keyImages.erase input.keyImage
        | .base _ => keyImages)
      state.spentKeyImages }

end TransactionValidatorState

namespace CachedTransaction

/-- Sums of 64-bit words; a base input makes the fee zero. -/
def getTransactionFee (cached : CachedTransaction) : UInt64 :=
  if cached.transaction.inputs.any fun input => input.keyInput? = none then 0
  else (cached.transaction.keyInputs.map KeyInput.amount).sum
    - (cached.transaction.outputs.map TransactionOutput.amount).sum

end CachedTransaction

/-! ### The container -/

structure PendingTransactionInfo where
  receiveTime : UInt64
  cachedTransaction : CachedTransaction
  paymentId : Option Hash

namespace PendingTransactionInfo

def getTransactionHash (primitives : Primitives) (pending : PendingTransactionInfo) : Hash :=
  pending.cachedTransaction.getTransactionHash primitives

def keyImages (pending : PendingTransactionInfo) : List KeyImage :=
  pending.cachedTransaction.transaction.keyImages

/-- `TransactionPriorityComparator`: the higher fee per byte first, then the smaller, then
the older transaction. -/
def hasPriority (left right : PendingTransactionInfo) : Bool :=
  let leftSize := UInt64.ofNat left.cachedTransaction.binaryArray.length
  let rightSize := UInt64.ofNat right.cachedTransaction.binaryArray.length
  let (leftLo, leftHi) := mul128 left.cachedTransaction.getTransactionFee rightSize
  let (rightLo, rightHi) := mul128 right.cachedTransaction.getTransactionFee leftSize
  leftHi > rightHi ||
    (leftHi = rightHi && leftLo > rightLo) ||
    (leftHi = rightHi && leftLo = rightLo && leftSize < rightSize) ||
    (leftHi = rightHi && leftLo = rightLo && leftSize = rightSize
      && left.receiveTime < right.receiveTime)

end PendingTransactionInfo

/-- The same transactions three times: in no particular order, by cost, and in groups of one
payment identifier. -/
structure TransactionPool where
  poolState : TransactionValidatorState
  transactionHashIndex : List PendingTransactionInfo
  transactionCostIndex : List PendingTransactionInfo
  paymentIdIndex : List PendingTransactionInfo

namespace TransactionPool

def empty : TransactionPool :=
  { poolState := { spentKeyImages := [] }
    transactionHashIndex := []
    transactionCostIndex := []
    paymentIdIndex := [] }

/-- A new entry goes before the first one over which it has priority. -/
def insertByCost (pending : PendingTransactionInfo) :
    List PendingTransactionInfo → List PendingTransactionInfo
  | [] => [pending]
  | head :: tail =>
    if pending.hasPriority head then pending :: head :: tail
    else head :: insertByCost pending tail

section Operations
variable (primitives : Primitives)

def checkIfTransactionPresent (pool : TransactionPool) (hash : Hash) : Bool :=
  pool.transactionHashIndex.any fun pending => pending.getTransactionHash primitives = hash

/-- Insertion through the hash index, which refuses a hash it already has. -/
def insert (pool : TransactionPool) (pending : PendingTransactionInfo) : Bool × TransactionPool :=
  if pool.checkIfTransactionPresent primitives (pending.getTransactionHash primitives) then
    (false, pool)
  else
    (true, { pool with
      transactionHashIndex := pending :: pool.transactionHashIndex
      transactionCostIndex := insertByCost pending pool.transactionCostIndex
      paymentIdIndex := pool.paymentIdIndex ++ [pending] })

def eraseHash (pool : TransactionPool) (hash : Hash) : TransactionPool :=
  let sameHash := fun (pending : PendingTransactionInfo) =>
    decide (pending.getTransactionHash primitives = hash)
  { pool with
    transactionHashIndex := pool.transactionHashIndex.eraseP sameHash
    transactionCostIndex := pool.transactionCostIndex.eraseP sameHash
    paymentIdIndex := pool.paymentIdIndex.eraseP sameHash }

/-- The answer and the pool afterwards. The payment identifier is read from the extra
field. -/
def pushTransaction (getPaymentIdFromTxExtra : BinaryArray → Option Hash) (now : UInt64)
    (pool : TransactionPool) (transaction : CachedTransaction)
    (transactionState : TransactionValidatorState) : Bool × TransactionPool :=
  let pendingTx : PendingTransactionInfo :=
    { receiveTime := now
      cachedTransaction := transaction
      paymentId := getPaymentIdFromTxExtra transaction.transaction.extra }
  if pool.checkIfTransactionPresent primitives (pendingTx.getTransactionHash primitives) then
    (false, pool)
  else if pool.poolState.hasIntersections transactionState then (false, pool)
  else
    insert primitives
      { pool with poolState := pool.poolState.mergeStates transactionState } pendingTx

def removeTransaction (pool : TransactionPool) (hash : Hash) : Bool × TransactionPool :=
  match pool.transactionHashIndex.find? fun pending =>
      pending.getTransactionHash primitives = hash with
  | none => (false, pool)
  | some found =>
    (true, eraseHash primitives
      { pool with poolState := pool.poolState.excludeFromState found.cachedTransaction } hash)

def getTransactionHashes (pool : TransactionPool) : List Hash :=
  pool.transactionCostIndex.map (PendingTransactionInfo.getTransactionHash primitives)

def getTransactionHashesByPaymentId (pool : TransactionPool) (paymentId : Hash) : List Hash :=
  (pool.paymentIdIndex.filter fun pending => pending.paymentId = some paymentId).map
    (PendingTransactionInfo.getTransactionHash primitives)

def flush (pool : TransactionPool) : TransactionPool :=
  (pool.getTransactionHashes primitives).foldl
    (fun pool hash => (pool.removeTransaction primitives hash).2) pool

end Operations
end TransactionPool

/-! ### Sets of key images -/

namespace TransactionValidatorState

theorem insertKeyImages_eq {keyImages images : List KeyImage} (distinct : images.Nodup)
    (apart : ∀ image ∈ images, image ∉ keyImages) :
    images.foldl insertKeyImage keyImages = keyImages ++ images := by
  induction images generalizing keyImages with
  | nil => simp
  | cons image images ih =>
    obtain ⟨fresh, distinct⟩ := nodup_cons.mp distinct
    have missing := apart image mem_cons_self
    rw [foldl_cons, insertKeyImage, if_neg missing, ih distinct, append_assoc]
    · rfl
    · intro other member inside
      rcases mem_append.mp inside with old | isImage
      · exact apart other (mem_cons_of_mem _ member) old
      · exact fresh (mem_singleton.mp isImage ▸ member)

theorem hasIntersections_eq_false {destination source : TransactionValidatorState}
    (apart : destination.hasIntersections source = false) :
    ∀ image ∈ source.spentKeyImages, image ∉ destination.spentKeyImages := by
  intro image member inside
  have found : destination.hasIntersections source = true :=
    any_eq_true.mpr ⟨image, member, decide_eq_true inside⟩
  rw [apart] at found
  cases found

theorem excludeFromState_perm {rest : List KeyImage}
    (union : state.spentKeyImages.Perm (cached.transaction.keyImages ++ rest)) :
    (state.excludeFromState cached).spentKeyImages.Perm rest := by
  unfold excludeFromState Transaction.keyImages Transaction.keyInputs at *
  generalize cached.transaction.inputs = inputs at union ⊢
  generalize state.spentKeyImages = images at union ⊢
  induction inputs generalizing images with
  | nil => exact union
  | cons input inputs ih =>
    cases input with
    | base blockIndex => exact ih images union
    | key keyInput =>
      apply ih (images.erase keyInput.keyImage)
      have erased := union.erase keyInput.keyImage
      simpa [TransactionInput.keyInput?] using erased

end TransactionValidatorState

namespace TransactionPool
variable {primitives : Primitives} {getPaymentIdFromTxExtra : BinaryArray → Option Hash}
  {pool : TransactionPool}

theorem insertByCost_perm (pending : PendingTransactionInfo)
    (index : List PendingTransactionInfo) : (insertByCost pending index).Perm (pending :: index) := by
  induction index with
  | nil => exact refl _
  | cons head tail ih =>
    unfold insertByCost
    split
    · exact refl _
    · exact (ih.cons head).trans (swap pending head tail)

/-! ### The invariant -/

/-- The indexes hold the same transactions, with different hashes and different images, and
the pool state is the union of the images. -/
structure Consistent (primitives : Primitives)
    (getPaymentIdFromTxExtra : BinaryArray → Option Hash) (pool : TransactionPool) : Prop where
  cost : pool.transactionCostIndex.Perm pool.transactionHashIndex
  payment : pool.paymentIdIndex.Perm pool.transactionHashIndex
  paymentIds : ∀ pending ∈ pool.transactionHashIndex, pending.paymentId
    = getPaymentIdFromTxExtra pending.cachedTransaction.transaction.extra
  hashes : (pool.transactionHashIndex.map
    (PendingTransactionInfo.getTransactionHash primitives)).Nodup
  images : (pool.transactionHashIndex.flatMap PendingTransactionInfo.keyImages).Nodup
  spent : pool.poolState.spentKeyImages.Perm
    (pool.transactionHashIndex.flatMap PendingTransactionInfo.keyImages)

theorem Consistent.empty : TransactionPool.empty.Consistent primitives getPaymentIdFromTxExtra where
  cost := refl _
  payment := refl _
  paymentIds := fun _ member => nomatch member
  hashes := nodup_nil
  images := nodup_nil
  spent := refl _

/-- What `validateTransaction` collects for a transaction on its own. -/
def ValidatedState (primitives : Primitives) (cached : CachedTransaction)
    (state : TransactionValidatorState) : Prop :=
  ∃ environment now segments blockIndex fee, environment.primitives = primitives ∧
    validateTransaction environment now segments blockIndex { spentKeyImages := [] } cached
      = .ok (fee, state)

theorem ValidatedState.images (validated : ValidatedState primitives cached state) :
    state.spentKeyImages = cached.transaction.keyImages ∧ state.spentKeyImages.Nodup := by
  obtain ⟨environment, now, segments, blockIndex, fee, -, ran⟩ := validated
  obtain ⟨-, images, distinct⟩ := validateTransaction_eq_ok ran
  exact ⟨images, distinct nodup_nil⟩

theorem not_present {hash : Hash}
    (absent : ¬pool.checkIfTransactionPresent primitives hash = true) :
    hash ∉ pool.transactionHashIndex.map (PendingTransactionInfo.getTransactionHash primitives) := by
  intro member
  obtain ⟨pending, inPool, same⟩ := mem_map.mp member
  exact absent (any_eq_true.mpr ⟨pending, inPool, decide_eq_true same⟩)

theorem insert_of_absent {pending : PendingTransactionInfo}
    (absent : ¬pool.checkIfTransactionPresent primitives (pending.getTransactionHash primitives)
      = true) (state : TransactionValidatorState) :
    insert primitives { pool with poolState := state } pending
      = (true, {
        poolState := state
        transactionHashIndex := pending :: pool.transactionHashIndex
        transactionCostIndex := insertByCost pending pool.transactionCostIndex
        paymentIdIndex := pool.paymentIdIndex ++ [pending] }) :=
  if_neg absent

theorem Consistent.push (consistent : pool.Consistent primitives getPaymentIdFromTxExtra)
    (validated : ValidatedState primitives cached state) (now : UInt64) :
    (pool.pushTransaction primitives getPaymentIdFromTxExtra now cached state).2.Consistent
      primitives getPaymentIdFromTxExtra := by
  obtain ⟨isImages, distinct⟩ := validated.images
  unfold pushTransaction
  simp only
  split
  · exact consistent
  · rename_i absent
    split
    · exact consistent
    · rename_i apart
      have apart := hasIntersections_eq_false (Bool.not_eq_true _ ▸ apart)
      have merged : (pool.poolState.mergeStates state).spentKeyImages
          = pool.poolState.spentKeyImages ++ state.spentKeyImages :=
        insertKeyImages_eq distinct apart
      rw [insert_of_absent absent]
      refine ⟨?_, ?_, ?_, ?_, ?_, ?_⟩
      · exact (insertByCost_perm _ _).trans (consistent.cost.cons _)
      · exact (perm_append_singleton _ _).trans (consistent.payment.cons _)
      · intro pending member
        rcases mem_cons.mp member with isNew | old
        · rw [isNew]
        · exact consistent.paymentIds pending old
      · exact nodup_cons.mpr ⟨not_present absent, consistent.hashes⟩
      · rw [isImages] at distinct apart
        refine List.Nodup.append distinct consistent.images ?_
        intro image isNew old
        exact apart image isNew (consistent.spent.mem_iff.mpr old)
      · rw [merged, isImages]
        exact perm_append_comm.trans (consistent.spent.append_left _)

theorem eraseP_perm {index : List PendingTransactionInfo} {found : PendingTransactionInfo}
    (distinct : (index.map (PendingTransactionInfo.getTransactionHash primitives)).Nodup)
    (member : found ∈ index) :
    index.Perm (found :: index.eraseP fun pending =>
      decide (pending.getTransactionHash primitives = found.getTransactionHash primitives)) := by
  induction index with
  | nil => cases member
  | cons head tail ih =>
    obtain ⟨fresh, distinct⟩ := nodup_cons.mp distinct
    rcases mem_cons.mp member with isHead | inTail
    · subst isHead
      rw [eraseP_cons_of_pos (by simp)]
    · have differs : head.getTransactionHash primitives ≠ found.getTransactionHash primitives := by
        intro same
        exact fresh (same ▸ mem_map_of_mem inTail)
      rw [eraseP_cons_of_neg (by simpa using differs)]
      exact ((ih distinct inTail).cons head).trans (swap found head _)

theorem Consistent.remove (consistent : pool.Consistent primitives getPaymentIdFromTxExtra)
    (hash : Hash) :
    (pool.removeTransaction primitives hash).2.Consistent primitives getPaymentIdFromTxExtra := by
  unfold removeTransaction
  split
  · exact consistent
  · rename_i found isFound
    have member := mem_of_find?_eq_some isFound
    have holds := find?_some isFound
    have same : found.getTransactionHash primitives = hash := of_decide_eq_true holds
    subst same
    -- every index loses exactly the entry that was found
    have erased := eraseP_perm consistent.hashes member
    have erasedCost := eraseP_perm
      ((consistent.cost.map _).nodup_iff.mpr consistent.hashes) (consistent.cost.mem_iff.mpr member)
    have erasedPayment := eraseP_perm
      ((consistent.payment.map _).nodup_iff.mpr consistent.hashes)
      (consistent.payment.mem_iff.mpr member)
    have hashes := (erased.map (PendingTransactionInfo.getTransactionHash primitives)).nodup_iff.mp
      consistent.hashes
    have images := (erased.flatMap_right PendingTransactionInfo.keyImages).nodup_iff.mp
      consistent.images
    refine ⟨?_, ?_, ?_, ?_, ?_, ?_⟩
    · exact ((erasedCost.symm.trans consistent.cost).trans erased).cons_inv
    · exact ((erasedPayment.symm.trans consistent.payment).trans erased).cons_inv
    · intro pending kept
      exact consistent.paymentIds pending (mem_of_mem_eraseP kept)
    · exact (nodup_cons.mp hashes).2
    · exact images.of_append_right
    · apply excludeFromState_perm
      refine consistent.spent.trans ((erased.flatMap_right _).trans ?_)
      exact refl _

theorem Consistent.flush (consistent : pool.Consistent primitives getPaymentIdFromTxExtra) :
    (pool.flush primitives).Consistent primitives getPaymentIdFromTxExtra := by
  unfold TransactionPool.flush
  generalize pool.getTransactionHashes primitives = hashes
  induction hashes generalizing pool with
  | nil => exact consistent
  | cons hash hashes ih => exact ih (consistent.remove hash)

/-! ### Runs -/

inductive PoolStep (primitives : Primitives) (getPaymentIdFromTxExtra : BinaryArray → Option Hash)
    (pool : TransactionPool) : TransactionPool → Prop where
  | push (now : UInt64) {cached : CachedTransaction} {state : TransactionValidatorState}
      (validated : ValidatedState primitives cached state) :
      PoolStep primitives getPaymentIdFromTxExtra pool
        (pool.pushTransaction primitives getPaymentIdFromTxExtra now cached state).2
  | remove (hash : Hash) :
      PoolStep primitives getPaymentIdFromTxExtra pool (pool.removeTransaction primitives hash).2
  | flush : PoolStep primitives getPaymentIdFromTxExtra pool (pool.flush primitives)

def PoolRun (primitives : Primitives) (getPaymentIdFromTxExtra : BinaryArray → Option Hash) :
    TransactionPool → TransactionPool → Prop :=
  Relation.ReflTransGen (PoolStep primitives getPaymentIdFromTxExtra)

theorem Consistent.run {start : TransactionPool}
    (consistent : start.Consistent primitives getPaymentIdFromTxExtra)
    (run : PoolRun primitives getPaymentIdFromTxExtra start pool) :
    pool.Consistent primitives getPaymentIdFromTxExtra := by
  induction run with
  | refl => exact consistent
  | tail _ step ih =>
    cases step with
    | push now validated => exact ih.push validated now
    | remove hash => exact ih.remove hash
    | flush => exact ih.flush

theorem pushTransaction_refused {now : UInt64}
    (refused : (pool.pushTransaction primitives getPaymentIdFromTxExtra now cached state).1
      = false) :
    (pool.pushTransaction primitives getPaymentIdFromTxExtra now cached state).2 = pool := by
  unfold pushTransaction at refused ⊢
  simp only at refused ⊢
  split
  · rfl
  · rename_i absent
    split
    · rfl
    · rename_i apart
      rw [if_neg absent, if_neg apart, insert_of_absent absent] at refused
      cases refused

theorem removeTransaction_refused {hash : Hash}
    (refused : (pool.removeTransaction primitives hash).1 = false) :
    (pool.removeTransaction primitives hash).2 = pool := by
  unfold removeTransaction at refused ⊢
  split
  · rfl
  · rename_i found isFound
    simp only [isFound] at refused
    cases refused

/-- Whatever is pushed, removed and flushed, the pool stays consistent, its three indexes
name the same transactions, and a refused call changes nothing. -/
theorem poolRun_consistent
    (run : PoolRun primitives getPaymentIdFromTxExtra TransactionPool.empty pool) :
    pool.Consistent primitives getPaymentIdFromTxExtra ∧
      (∀ hash, pool.checkIfTransactionPresent primitives hash = true ↔
        hash ∈ pool.getTransactionHashes primitives) ∧
      (∀ paymentId hash, hash ∈ pool.getTransactionHashesByPaymentId primitives paymentId ↔
        ∃ pending ∈ pool.transactionHashIndex,
          getPaymentIdFromTxExtra pending.cachedTransaction.transaction.extra = some paymentId ∧
          pending.getTransactionHash primitives = hash) ∧
      (∀ now cached state,
        (pool.pushTransaction primitives getPaymentIdFromTxExtra now cached state).1 = false →
        (pool.pushTransaction primitives getPaymentIdFromTxExtra now cached state).2 = pool) ∧
      ∀ hash, (pool.removeTransaction primitives hash).1 = false →
        (pool.removeTransaction primitives hash).2 = pool := by
  have consistent : pool.Consistent primitives getPaymentIdFromTxExtra := Consistent.empty.run run
  refine ⟨consistent, ?_, ?_, fun _ _ _ => pushTransaction_refused,
    fun _ => removeTransaction_refused⟩
  · intro hash
    unfold checkIfTransactionPresent getTransactionHashes
    rw [any_eq_true, (consistent.cost.map _).mem_iff, mem_map]
    simp only [decide_eq_true_eq]
  · intro paymentId hash
    unfold getTransactionHashesByPaymentId
    rw [mem_map]
    constructor
    · rintro ⟨pending, member, same⟩
      obtain ⟨inIndex, hasId⟩ := mem_filter.mp member
      have inPool := consistent.payment.mem_iff.mp inIndex
      rw [consistent.paymentIds pending inPool] at hasId
      exact ⟨pending, inPool, of_decide_eq_true hasId, same⟩
    · rintro ⟨pending, inPool, hasId, same⟩
      rw [← consistent.paymentIds pending inPool] at hasId
      exact ⟨pending, mem_filter.mpr ⟨consistent.payment.mem_iff.mpr inPool,
        decide_eq_true hasId⟩, same⟩

def pooledSpend : CachedTransaction :=
  CachedTransaction.ofTransaction Core.lateEnvironment.primitives Core.singleSpend

theorem poolRun_consistent_single :
    let pool := (TransactionPool.empty.pushTransaction Core.lateEnvironment.primitives
      (fun _ => none) 0 pooledSpend { spentKeyImages := pooledSpend.transaction.keyImages }).2
    pool.poolState.spentKeyImages = [{ value := 9 }] ∧
      pool.Consistent Core.lateEnvironment.primitives (fun _ => none) := by
  have validated : ValidatedState Core.lateEnvironment.primitives pooledSpend
      { spentKeyImages := pooledSpend.transaction.keyImages } :=
    ⟨Core.lateEnvironment, 0, [], 0, 1, rfl, by decide +kernel⟩
  exact ⟨by decide +kernel, (poolRun_consistent (.single (.push 0 validated))).1⟩

end TransactionPool
end Mevacoin
