/-
The tables of transactions and outputs, and what a push adds to them. Exact tables
continue the numbers of the blocks below.
-/

import Mevacoin.Cache.OutputNumbers

namespace Mevacoin
open List Function CachedTransaction PlacedTransaction ExtendedTransactionInfo Lineage
open StoredKeyOutput (packed)
open UInt32 (ofNat ofNat_add)
open Occurrences (numbered)

variable {own : List PlacedTransaction} {table : UInt64 → Option OutputGlobalIndexesForAmount}

/-- The entry of an amount: nothing as long as the segment has no output of it. -/
def ownOutputs (start : Nat) (outputs : List PackedOutIndex) :
    Option OutputGlobalIndexesForAmount :=
  if outputs = [] then none
  else some { startIndex := ofNat start, outputs := outputs }

/-- The tables of a memory segment with the given transactions on top of others. -/
structure BlockchainCache.Numbers (primitives : Primitives)
    (below own : List PlacedTransaction) (cache : BlockchainCache) : Prop where
  transactions : cache.transactions
    = (infosAfter primitives (amountsOf below) own).map toCachedTransactionInfo
  outputs : cache.keyOutputsGlobalIndexes = fun amount =>
    ownOutputs (outputsOf primitives amount below).length
      ((outputsOf primitives amount own).map packed)

/-- The tables of the database segment with the given transactions. -/
structure DatabaseBlockchainCache.Numbers (primitives : Primitives)
    (own : List PlacedTransaction) (cache : DatabaseBlockchainCache) : Prop where
  transactions : cache.cachedTransactions = fun hash =>
    (infosAfter primitives [] own).find? fun info => info.transactionHash = hash
  outputs : cache.keyOutputs = fun amount => outputsOf primitives amount own

theorem update_append {α : Type} (table : UInt64 → List α) (key amount : UInt64) (item : α) :
    Function.update table key (table key ++ [item]) amount
      = table amount ++ if key = amount then [item] else [] := by
  by_cases same : key = amount
  · subst same
    simp
  · simp [update_of_ne (Ne.symm same), same]

/-! ### Pushing onto the database segment -/

variable {cache : DatabaseBlockchainCache}

namespace DatabaseBlockchainCache
variable {primitives : Primitives} {placed : PlacedTransaction}

theorem numberOutput_foldl {outputs : List (TransactionOutput × Nat)}
    {table : UInt64 → List StoredKeyOutput} {numbers : List (UInt64 × Nat)} {before : List UInt64}
    (counts : ∀ amount, (table amount).length = before.count amount) :
    outputs.foldl (numberOutput placed.blockIndex placed.transactionIndex
        (placed.hash primitives) placed.transaction.unlockTime) (table, numbers)
      = (fun amount => table amount
          ++ ofAmount amount (outputs.map (placed.storedOutput primitives)),
        numbers ++ numbered before (outputs.map fun output => output.1.amount)) := by
  induction outputs generalizing table numbers before with
  | nil => simp [ofAmount, numbered]
  | cons output outputs ih =>
    have grown : ∀ amount, (Function.update table output.1.amount (table output.1.amount
        ++ [(placed.storedOutput primitives output).2]) amount).length
        = (before ++ [output.1.amount]).count amount := by
      intro amount
      rw [update_append, length_append, counts, count_append, count_singleton]
      by_cases same : output.1.amount = amount <;> simp [same]
    have first : numberOutput placed.blockIndex placed.transactionIndex
        (placed.hash primitives) placed.transaction.unlockTime (table, numbers) output
        = (Function.update table output.1.amount (table output.1.amount
            ++ [(placed.storedOutput primitives output).2]),
          numbers ++ [(output.1.amount, before.count output.1.amount)]) := by
      rw [← counts]
      rfl
    rw [foldl_cons, first, ih grown]
    refine Prod.ext (funext fun amount => ?_) (by simp [numbered])
    simp only [update_append]
    by_cases same : output.1.amount = amount
      <;> simp [ofAmount, storedOutput, same]

private theorem pushTransaction_eq
    {table : UInt64 → List StoredKeyOutput} {numbers : List (UInt64 × Nat)}
    (folded : placed.transaction.outputs.zipIdx.foldl (numberOutput placed.blockIndex
      placed.transactionIndex (placed.hash primitives) placed.transaction.unlockTime)
      (cache.keyOutputs, []) = (table, numbers)) :
    cache.pushTransaction primitives placed.blockIndex
        (ofTransaction primitives placed.transaction, placed.transactionIndex)
      = { cache with
          keyOutputs := table
          cachedTransactions := Function.update cache.cachedTransactions (placed.hash primitives)
            (some
              { blockIndex := placed.blockIndex
                transactionIndex := placed.transactionIndex
                transactionHash := placed.hash primitives
                unlockTime := placed.transaction.unlockTime
                outputs := placed.transaction.outputs.map TransactionOutput.target
                globalIndexes := numbers.map fun number => ofNat number.2
                amountToKeyIndexes := numbers }) } := by
  have first := congrArg Prod.fst folded
  have second := congrArg Prod.snd folded
  subst first second
  rfl

/-- The outputs are appended under their amounts, the transaction is stored by its hash. -/
theorem pushTransaction_placed
    (outputs : cache.keyOutputs = fun amount => outputsOf primitives amount own) :
    cache.pushTransaction primitives placed.blockIndex
        (ofTransaction primitives placed.transaction, placed.transactionIndex)
      = { cache with
          keyOutputs := fun amount => outputsOf primitives amount (own ++ [placed])
          cachedTransactions := Function.update cache.cachedTransactions
            (placed.hash primitives) (some (placed.info primitives (amountsOf own))) } := by
  have counts : ∀ amount, (cache.keyOutputs amount).length = (amountsOf own).count amount := by
    intro amount
    rw [outputs, outputsOf_length]
  have table : (fun amount => cache.keyOutputs amount
      ++ ofAmount amount (placed.outputs primitives))
      = fun amount => outputsOf primitives amount (own ++ [placed]) := by
    funext amount
    rw [outputs, outputsOf_append]
    simp [outputsOf]
  apply pushTransaction_eq
  rw [numberOutput_foldl counts, placed.zipped_amounts, nil_append]
  exact congrArg (·, _) table

theorem Numbers.pushTransaction (numbers : cache.Numbers primitives own)
    (fresh : ∀ earlier ∈ own, earlier.hash primitives ≠ placed.hash primitives) :
    (cache.pushTransaction primitives placed.blockIndex
      (ofTransaction primitives placed.transaction,
        placed.transactionIndex)).Numbers primitives (own ++ [placed]) := by
  rw [pushTransaction_placed numbers.outputs]
  refine ⟨?_, rfl⟩
  funext hash
  change Function.update cache.cachedTransactions _ _ hash = _
  rw [infosAfter_append, nil_append, find?_append, numbers.transactions]
  by_cases same : hash = placed.hash primitives
  · subst same
    have missing : (infosAfter primitives [] own).find?
        (fun info => info.transactionHash = placed.hash primitives) = none := by
      rw [find?_eq_none]
      intro info member isHash
      obtain ⟨before, earlier, isEarlier, rfl⟩ := mem_infosAfter member
      exact fresh earlier isEarlier (of_decide_eq_true isHash)
    rw [update_self, missing, Option.none_or]
    simp [infosAfter, info]
  · rw [update_of_ne same]
    simp [infosAfter, info, Ne.symm same]

theorem Numbers.pushTransactions
    {added : List PlacedTransaction} {blockIndex : Nat} (numbers : cache.Numbers primitives own)
    (distinct : ((own ++ added).map (hash primitives)).Nodup)
    (places : ∀ placed ∈ added, placed.blockIndex = blockIndex) :
    (added.foldl (fun cache placed => cache.pushTransaction primitives blockIndex
      (ofTransaction primitives placed.transaction,
        placed.transactionIndex)) cache).Numbers primitives (own ++ added) := by
  induction added generalizing cache own with
  | nil => rwa [append_nil]
  | cons placed added ih =>
    rw [append_cons] at distinct ⊢
    have place := places placed mem_cons_self
    apply ih _ distinct (fun other member => places other (mem_cons_of_mem _ member))
    rw [← place]
    apply numbers.pushTransaction
    intro earlier member same
    rw [map_append, map_append] at distinct
    have apart := (nodup_append'.mp distinct.of_append_left).2.2
    exact apart (mem_map_of_mem member) (by simp [same])

end DatabaseBlockchainCache

/-! ### Pushing onto a memory segment -/

variable {below : List PlacedTransaction}

namespace BlockchainCache
variable {primitives : Primitives} {parents : List Segment} {placed : PlacedTransaction}

theorem insertKeyOutputToGlobalIndex_eq {amount : UInt64} {output : PackedOutIndex} {start : Nat}
    {own : List PackedOutIndex} (entry : table amount = ownOutputs start own)
    (count : own = [] → getKeyOutputsCountForAmount amount output.blockIndex parents = start) :
    insertKeyOutputToGlobalIndex parents amount output table
      = (Function.update table amount (ownOutputs start (own ++ [output])),
        ofNat (start + own.length)) := by
  have added : ownOutputs start (own ++ [output])
      = some { startIndex := ofNat start, outputs := own ++ [output] } :=
    if_neg (by simp)
  have number : ofNat start + ofNat (own ++ [output]).length - 1
      = ofNat (start + own.length) := by
    rw [length_append, length_singleton, ofNat_add, ofNat_add, ← UInt32.add_assoc]
    exact UInt32.add_sub_cancel _ _
  unfold insertKeyOutputToGlobalIndex
  rw [added, ← number, entry]
  unfold ownOutputs
  split
  · rename_i isEntry
    split at isEntry
    · cases isEntry
    · cases isEntry
      rfl
  · rename_i isEntry
    split at isEntry
    · rename_i empty
      subst empty
      rw [count rfl]
      rfl
    · cases isEntry

def numberOutput (parents : List Segment) (placed : PlacedTransaction)
    (state : (UInt64 → Option OutputGlobalIndexesForAmount) × List UInt32)
    (output : TransactionOutput × Nat) :
    (UInt64 → Option OutputGlobalIndexesForAmount) × List UInt32 :=
  let added := insertKeyOutputToGlobalIndex parents output.1.amount
    { blockIndex := placed.blockIndex
      transactionIndex := placed.transactionIndex
      outputIndex := output.2 % 2 ^ 16 }
    state.1
  (added.1, state.2 ++ [added.2])

theorem numberOutput_foldl {outputs : List (TransactionOutput × Nat)} {numbers : List UInt32}
    {before : List UInt64} {start : UInt64 → Nat} {own : UInt64 → List PackedOutIndex}
    (entries : table = fun amount => ownOutputs (start amount) (own amount))
    (count : ∀ amount, own amount = [] →
      getKeyOutputsCountForAmount amount placed.blockIndex parents = start amount)
    (counts : ∀ amount, start amount + (own amount).length = before.count amount) :
    outputs.foldl (numberOutput parents placed) (table, numbers)
      = (fun amount => ownOutputs (start amount) (own amount
          ++ (ofAmount amount (outputs.map (placed.storedOutput primitives))).map
            packed),
        numbers ++ (numbered before (outputs.map fun output => output.1.amount)).map
          fun number => ofNat number.2) := by
  induction outputs generalizing table numbers before own with
  | nil => simp [ofAmount, numbered, entries]
  | cons output outputs ih =>
    obtain ⟨next, isNext⟩ : ∃ next, next = Function.update own output.1.amount
        (own output.1.amount ++ [(placed.storedOutput primitives output).2.packed]) := ⟨_, rfl⟩
    have grown := update_append own output.1.amount
    have first : numberOutput parents placed (table, numbers) output
        = (fun amount => ownOutputs (start amount) (next amount),
          numbers ++ [ofNat (before.count output.1.amount)]) := by
      unfold numberOutput
      rw [← counts, insertKeyOutputToGlobalIndex_eq (congrFun entries output.1.amount)
        (count output.1.amount)]
      refine congrArg (·, _) (funext fun amount => ?_)
      by_cases same : amount = output.1.amount
      · subst same
        simp [isNext, storedOutput]
      · simp [isNext, entries, update_of_ne same]
    have countsNext : ∀ amount, start amount + (next amount).length
        = (before ++ [output.1.amount]).count amount := by
      intro amount
      rw [isNext, grown, count_append, count_singleton, ← counts, length_append, Nat.add_assoc]
      by_cases same : output.1.amount = amount <;> simp [same]
    rw [foldl_cons, first, ih rfl ?_ countsNext]
    · refine Prod.ext (funext fun amount => ?_) (by simp [numbered])
      simp only [isNext, grown]
      by_cases same : output.1.amount = amount
        <;> simp [ofAmount, storedOutput, same]
    · intro amount empty
      rw [isNext, grown, append_eq_nil_iff] at empty
      exact count amount empty.1

theorem numberOutputs_placed
    (entries : table = fun amount => ownOutputs (outputsOf primitives amount below).length
      ((outputsOf primitives amount own).map packed))
    (count : ∀ amount, outputsOf primitives amount own = [] →
      getKeyOutputsCountForAmount amount placed.blockIndex parents
        = (outputsOf primitives amount below).length) :
    numberOutputs parents placed.blockIndex placed.transactionIndex placed.transaction.outputs
        table
      = (fun amount => ownOutputs (outputsOf primitives amount below).length
          ((outputsOf primitives amount (own ++ [placed])).map packed),
        (placed.info primitives (amountsOf (below ++ own))).globalIndexes) := by
  have counts : ∀ amount, (outputsOf primitives amount below).length
      + ((outputsOf primitives amount own).map packed).length
      = (amountsOf (below ++ own)).count amount := by
    intro amount
    rw [length_map, outputsOf_length, outputsOf_length, amountsOf_append, count_append]
  have table' : (fun amount => ownOutputs (outputsOf primitives amount below).length
      ((outputsOf primitives amount own).map packed
        ++ (ofAmount amount (placed.outputs primitives)).map packed))
      = fun amount => ownOutputs (outputsOf primitives amount below).length
        ((outputsOf primitives amount (own ++ [placed])).map packed) := by
    funext amount
    rw [outputsOf_append, map_append]
    simp [outputsOf]
  change placed.transaction.outputs.zipIdx.foldl (numberOutput parents placed) (table, []) = _
  rw [numberOutput_foldl entries (fun amount empty => count amount (map_eq_nil_iff.mp empty))
    counts, placed.zipped_amounts, nil_append]
  exact congrArg (·, _) table'

theorem insertTransaction_of_fresh {transactions : List CachedTransactionInfo}
    {info : CachedTransactionInfo}
    (fresh : ∀ other ∈ transactions, other.transactionHash ≠ info.transactionHash ∧
      ¬(other.blockIndex = info.blockIndex ∧ other.transactionIndex = info.transactionIndex)) :
    insertTransaction transactions info = transactions ++ [info] := by
  apply if_neg
  intro present
  obtain ⟨other, member, same⟩ := any_eq_true.mp present
  rcases of_decide_eq_true same with hash | place
  · exact (fresh other member).1 hash
  · exact (fresh other member).2 place

def Apart (primitives : Primitives) (first second : PlacedTransaction) : Prop :=
  first.hash primitives ≠ second.hash primitives ∧
    ¬(first.blockIndex = second.blockIndex ∧ first.transactionIndex = second.transactionIndex)

theorem Numbers.pushTransaction {cache : BlockchainCache}
    (numbers : cache.Numbers primitives below own)
    (fresh : ∀ earlier ∈ own, Apart primitives earlier placed)
    (count : ∀ amount, outputsOf primitives amount own = [] →
      getKeyOutputsCountForAmount amount placed.blockIndex parents
        = (outputsOf primitives amount below).length) :
    (cache.pushTransaction primitives parents placed.blockIndex
      (ofTransaction primitives placed.transaction,
        placed.transactionIndex)).Numbers primitives below (own ++ [placed]) := by
  have numbered := numberOutputs_placed numbers.outputs count
  have table := congrArg Prod.fst numbered
  have globalIndexes := congrArg Prod.snd numbered
  constructor
  · change insertTransaction cache.transactions
      { blockIndex := placed.blockIndex
        transactionIndex := placed.transactionIndex
        transactionHash := placed.hash primitives
        unlockTime := placed.transaction.unlockTime
        outputs := placed.transaction.outputs.map TransactionOutput.target
        globalIndexes := (numberOutputs parents placed.blockIndex placed.transactionIndex
          placed.transaction.outputs cache.keyOutputsGlobalIndexes).2 } = _
    rw [insertTransaction_of_fresh, numbers.transactions, infosAfter_append, map_append,
      ← amountsOf_append, globalIndexes]
    · rfl
    · intro other member
      rw [numbers.transactions] at member
      obtain ⟨info, isInfo, rfl⟩ := mem_map.mp member
      obtain ⟨before, earlier, isEarlier, rfl⟩ := mem_infosAfter isInfo
      exact fresh earlier isEarlier
  · exact table

theorem Numbers.pushTransactions {cache : BlockchainCache} {added : List PlacedTransaction}
    {blockIndex : Nat} (numbers : cache.Numbers primitives below own)
    (apart : (own ++ added).Pairwise (Apart primitives))
    (places : ∀ placed ∈ added, placed.blockIndex = blockIndex)
    (count : ∀ amount, outputsOf primitives amount own = [] →
      getKeyOutputsCountForAmount amount blockIndex parents
        = (outputsOf primitives amount below).length) :
    (added.foldl (fun cache placed => cache.pushTransaction primitives parents blockIndex
      (ofTransaction primitives placed.transaction,
        placed.transactionIndex)) cache).Numbers primitives below (own ++ added) := by
  induction added generalizing cache own with
  | nil => rwa [append_nil]
  | cons placed added ih =>
    rw [append_cons] at apart ⊢
    have place := places placed mem_cons_self
    apply ih _ apart (fun other member => places other (mem_cons_of_mem _ member))
    · intro amount empty
      rw [outputsOf_append, append_eq_nil_iff] at empty
      exact count amount empty.1
    · rw [← place] at count ⊢
      apply numbers.pushTransaction _ count
      intro earlier member
      exact (pairwise_append.mp (pairwise_append.mp apart).1).2.2 earlier member
        placed (mem_singleton_self _)

end BlockchainCache

/-! ### Pushing a block -/

section Push
variable {primitives : Primitives} {pushed : PushedBlock} {transactions : List Transaction}

theorem PushedBlock.indexedTransactions_eq
    (areTransactions : pushed.transactions
      = transactions.map (ofTransaction primitives)) (blockIndex : Nat) :
    pushed.indexedTransactions primitives
      = (placeTransactions blockIndex (pushed.block.baseTransaction :: transactions)).map
        fun placed => (ofTransaction primitives placed.transaction, placed.transactionIndex) := by
  unfold indexedTransactions placeTransactions
  rw [areTransactions, ← map_cons, zipIdx_map, map_map, map_map]
  rfl

theorem BlockchainCache.Numbers.pushBlock {parents : List Segment} {cache result : BlockchainCache} (numbers : cache.Numbers primitives below own)
    (areTransactions : pushed.transactions = transactions.map (ofTransaction primitives))
    (apart : (own ++ placeTransactions pushed.block.getBlockIndex
      (pushed.block.baseTransaction :: transactions)).Pairwise (Apart primitives))
    (count : ∀ amount, outputsOf primitives amount own = [] →
      getKeyOutputsCountForAmount amount pushed.block.getBlockIndex parents
        = (outputsOf primitives amount below).length)
    (ran : cache.pushBlock primitives parents pushed = some result) :
    result.Numbers primitives below (own ++ placeTransactions pushed.block.getBlockIndex
      (pushed.block.baseTransaction :: transactions)) := by
  obtain ⟨totals, -, finished⟩ := Option.bind_eq_some_iff.mp ran
  cases finished
  rw [PushedBlock.indexedTransactions_eq areTransactions pushed.block.getBlockIndex, foldl_map]
  exact Numbers.pushTransactions ⟨numbers.transactions, numbers.outputs⟩ apart
    (fun placed member => placeTransactions_blockIndex member) count

theorem DatabaseBlockchainCache.Numbers.pushBlock {result : DatabaseBlockchainCache}
    (numbers : cache.Numbers primitives own)
    (areTransactions : pushed.transactions = transactions.map (ofTransaction primitives))
    (distinct : ((own ++ placeTransactions cache.blocks.length
      (pushed.block.baseTransaction :: transactions)).map
        (hash primitives)).Nodup)
    (ran : cache.pushBlock primitives pushed = some result) :
    result.Numbers primitives (own ++ placeTransactions cache.blocks.length
      (pushed.block.baseTransaction :: transactions)) := by
  obtain ⟨info, isInfo, finished⟩ := Option.bind_eq_some_iff.mp ran
  have inside := index_lt isInfo
  have top : cache.getTopBlockIndex + 1 = cache.blocks.length := by
    rw [infos, length_map] at inside
    unfold getTopBlockIndex
    omega
  cases finished
  have grown : ((pushed.indexedTransactions primitives).foldl
      (DatabaseBlockchainCache.pushTransaction primitives (cache.getTopBlockIndex + 1))
      cache).Numbers primitives (own ++ placeTransactions cache.blocks.length
        (pushed.block.baseTransaction :: transactions)) := by
    rw [PushedBlock.indexedTransactions_eq areTransactions cache.blocks.length, foldl_map, top]
    exact Numbers.pushTransactions numbers distinct
      (fun placed member => placeTransactions_blockIndex member)
  exact ⟨grown.transactions, grown.outputs⟩

theorem DatabaseBlockchainCache.pushBlock_hashes {result : DatabaseBlockchainCache}
    (ran : cache.pushBlock primitives pushed = some result) :
    ∃ block, result.blocks = cache.blocks ++ [block] ∧ block.transactionHashes
      = (ofTransaction primitives
          pushed.block.baseTransaction).getTransactionHash primitives
        :: pushed.block.transactionHashes := by
  obtain ⟨info, -, finished⟩ := Option.bind_eq_some_iff.mp ran
  cases finished
  have blocks := (pushTransactions_frame primitives (cache.getTopBlockIndex + 1)
    (pushed.indexedTransactions primitives) cache).1
  exact ⟨_, congrArg (· ++ _) blocks, rfl⟩

end Push

/-! ### Splitting -/

section Split
variable {primitives : Primitives} {lower upper : List PlacedTransaction} {splitBlockIndex : Nat}

theorem takeWhile_append_of_divided {α : Type} {test : α → Bool} {first second : List α}
    (holds : ∀ item ∈ first, test item = true) (fails : ∀ item ∈ second, test item = false) :
    (first ++ second).takeWhile test = first := by
  rw [takeWhile_append_of_pos holds]
  cases second with
  | nil => exact append_nil _
  | cons item second =>
    have failed := fails item mem_cons_self
    rw [takeWhile_cons, failed]
    exact append_nil _

theorem filter_append_of_divided {α : Type} {test : α → Bool} {first second : List α}
    (holds : ∀ item ∈ first, test item = true) (fails : ∀ item ∈ second, test item = false) :
    (first ++ second).filter test = first := by
  rw [filter_append, filter_eq_self.mpr holds,
    filter_eq_nil_iff.mpr (fun item member => by simp [fails item member]), append_nil]

/-- The transactions of blocks below the index, followed by those of the other blocks. -/
structure DividedAt (splitBlockIndex : Nat) (lower upper : List PlacedTransaction) : Prop where
  lower : ∀ placed ∈ lower, placed.blockIndex < splitBlockIndex
  upper : ∀ placed ∈ upper, splitBlockIndex ≤ placed.blockIndex

theorem infosAfter_blockIndex {before : List UInt64} {info : CachedTransactionInfo}
    {transactions : List PlacedTransaction}
    (member : info ∈ (infosAfter primitives before transactions).map toCachedTransactionInfo) :
    ∃ placed ∈ transactions, placed.blockIndex = info.blockIndex := by
  obtain ⟨extended, isExtended, rfl⟩ := mem_map.mp member
  obtain ⟨earlier, placed, isPlaced, rfl⟩ := mem_infosAfter isExtended
  exact ⟨placed, isPlaced, rfl⟩

section
variable (divided : DividedAt splitBlockIndex lower upper)
include divided

theorem DividedAt.outputs (amount : UInt64) :
    (outputsOf primitives amount (lower ++ upper)).takeWhile
        (fun output => output.packed.blockIndex < splitBlockIndex)
      = outputsOf primitives amount lower := by
  rw [outputsOf_append]
  apply takeWhile_append_of_divided
  · intro output member
    obtain ⟨placed, isLower, index⟩ := outputsOf_blockIndex member
    have below := divided.lower placed isLower
    exact decide_eq_true (by omega)
  · intro output member
    obtain ⟨placed, isUpper, index⟩ := outputsOf_blockIndex member
    have above := divided.upper placed isUpper
    exact decide_eq_false (by omega)

theorem DividedAt.packed (amount : UInt64) :
    ((outputsOf primitives amount (lower ++ upper)).map packed).takeWhile
        (fun output => output.blockIndex < splitBlockIndex)
      = (outputsOf primitives amount lower).map packed := by
  rw [takeWhile_map]
  exact congrArg _ (divided.outputs amount)

theorem DividedAt.lowerInfos (before : List UInt64) :
    ((infosAfter primitives before (lower ++ upper)).map
        toCachedTransactionInfo).filter
          (fun info => info.blockIndex < splitBlockIndex)
      = (infosAfter primitives before lower).map
        toCachedTransactionInfo := by
  rw [infosAfter_append, map_append]
  apply filter_append_of_divided
  · intro info member
    obtain ⟨placed, isLower, index⟩ := infosAfter_blockIndex member
    exact decide_eq_true (index ▸ divided.lower placed isLower)
  · intro info member
    obtain ⟨placed, isUpper, index⟩ := infosAfter_blockIndex member
    exact decide_eq_false (Nat.not_lt.mpr (index ▸ divided.upper placed isUpper))

theorem DividedAt.upperInfos (before : List UInt64) :
    ((infosAfter primitives before (lower ++ upper)).map
        toCachedTransactionInfo).filter
          (fun info => splitBlockIndex ≤ info.blockIndex)
      = (infosAfter primitives (before ++ amountsOf lower) upper).map
        toCachedTransactionInfo := by
  rw [infosAfter_append, map_append, filter_append, filter_eq_nil_iff.mpr, filter_eq_self.mpr,
    nil_append]
  · intro info member
    obtain ⟨placed, isUpper, index⟩ := infosAfter_blockIndex member
    exact decide_eq_true (index ▸ divided.upper placed isUpper)
  · intro info member isAbove
    obtain ⟨placed, isLower, index⟩ := infosAfter_blockIndex member
    exact Nat.not_le.mpr (index ▸ divided.lower placed isLower) (of_decide_eq_true isAbove)

end

namespace BlockchainCache

theorem splitGlobalIndexesLower_own (start : Nat) (outputs : List PackedOutIndex) :
    (ownOutputs start outputs).bind (splitGlobalIndexesLower splitBlockIndex)
      = ownOutputs start
        (outputs.takeWhile fun output => output.blockIndex < splitBlockIndex) := by
  unfold ownOutputs
  by_cases empty : outputs = []
  · simp [empty]
  · simp [empty, splitGlobalIndexesLower, List.isEmpty_iff]

theorem splitGlobalIndexesUpper_own (start : Nat) (outputs : List PackedOutIndex) :
    (ownOutputs start outputs).bind (splitGlobalIndexesUpper splitBlockIndex)
      = ownOutputs (start
          + (outputs.takeWhile fun output => output.blockIndex < splitBlockIndex).length)
        (outputs.drop
          (outputs.takeWhile fun output => output.blockIndex < splitBlockIndex).length) := by
  unfold ownOutputs
  by_cases empty : outputs = []
  · simp [empty]
  · simp [empty, splitGlobalIndexesUpper, List.isEmpty_iff, ofNat_add]

variable {below : List PlacedTransaction} {cache : BlockchainCache}

section
variable (numbers : cache.Numbers primitives below (lower ++ upper))
  (divided : DividedAt splitBlockIndex lower upper)
include numbers divided

theorem Numbers.splitLower (fresh : SegmentPtr) :
    (cache.splitLower splitBlockIndex fresh).Numbers primitives below lower := by
  constructor
  · change cache.transactions.filter _ = _
    rw [numbers.transactions]
    exact divided.lowerInfos _
  · funext amount
    change (cache.keyOutputsGlobalIndexes amount).bind _ = _
    rw [numbers.outputs, splitGlobalIndexesLower_own, divided.packed]

theorem Numbers.splitUpper (self : SegmentPtr) :
    (cache.splitUpper splitBlockIndex self).Numbers primitives (below ++ lower) upper := by
  constructor
  · change cache.transactions.filter _ = _
    rw [numbers.transactions, amountsOf_append]
    exact divided.upperInfos _
  · funext amount
    change (cache.keyOutputsGlobalIndexes amount).bind _ = _
    rw [numbers.outputs, splitGlobalIndexesUpper_own, divided.packed, outputsOf_append,
      outputsOf_append, map_append, drop_left, length_append, length_map]

end
end BlockchainCache

theorem find?_of_distinct {α β : Type} [DecidableEq β] {key : α → β} {items : List α} {item : α}
    (distinct : (items.map key).Nodup) (member : item ∈ items) :
    items.find? (fun other => key other = key item) = some item := by
  induction items with
  | nil => cases member
  | cons head items ih =>
    rw [map_cons, nodup_cons] at distinct
    rcases mem_cons.mp member with isHead | inTail
    · subst isHead
      simp
    · have different : key head ≠ key item := by
        intro same
        exact distinct.1 (same ▸ mem_map_of_mem inTail)
      rw [find?_cons_of_neg (by simpa using different)]
      exact ih distinct.2 inTail

theorem mapM_map_eq_some {α β : Type} {key : α → β} {lookup : β → Option α} {items : List α}
    (found : ∀ item ∈ items, lookup (key item) = some item) :
    (items.map key).mapM lookup = some items := by
  induction items with
  | nil => rfl
  | cons head items ih =>
    rw [map_cons, mapM_cons, found head mem_cons_self,
      ih (fun item member => found item (mem_cons_of_mem _ member))]
    rfl

namespace DatabaseBlockchainCache
variable {cache result : DatabaseBlockchainCache}

theorem keyIndexSplitBoundary_eq (amount : UInt64) :
    keyIndexSplitBoundary (infosAfter primitives (amountsOf lower) upper) amount
      = if (amountsOf upper).count amount = 0 then none
        else some (outputsOf primitives amount lower).length := by
  unfold keyIndexSplitBoundary
  rw [infosAfter_numbers, outputsOf_length]
  exact Occurrences.min?_numbersOf amount (amountsOf lower) (amountsOf upper)

theorem deleteUpper_tables {fresh : SegmentPtr}
    (ran : cache.deleteUpper splitBlockIndex fresh = some result) :
    ∃ transactions,
      ((cache.blocks.drop splitBlockIndex).flatMap DatabaseBlock.transactionHashes).mapM
        cache.cachedTransactions = some transactions ∧
      result.cachedTransactions = (fun hash =>
        if hash ∈ (cache.blocks.drop splitBlockIndex).flatMap DatabaseBlock.transactionHashes
        then none else cache.cachedTransactions hash) ∧
      result.keyOutputs = fun amount =>
        match keyIndexSplitBoundary transactions amount with
        | some boundary => (cache.keyOutputs amount).take boundary
        | none => cache.keyOutputs amount := by
  obtain ⟨transactions, areTransactions, finished⟩ := Option.bind_eq_some_iff.mp ran
  cases finished
  exact ⟨transactions, areTransactions, rfl, rfl⟩

theorem Numbers.deleteUpper (numbers : cache.Numbers primitives (lower ++ upper))
    (distinct : ((lower ++ upper).map (hash primitives)).Nodup)
    (hashes : (cache.blocks.drop splitBlockIndex).flatMap DatabaseBlock.transactionHashes
      = upper.map (hash primitives)) {fresh : SegmentPtr}
    (ran : cache.deleteUpper splitBlockIndex fresh = some result) :
    result.Numbers primitives lower := by
  have infos : infosAfter primitives [] (lower ++ upper)
      = infosAfter primitives [] lower ++ infosAfter primitives (amountsOf lower) upper := by
    rw [infosAfter_append, nil_append]
  have distinctInfos := distinct
  rw [← infosAfter_hashes [], infos] at distinctInfos
  have deleted : (upper.map (hash primitives)).mapM cache.cachedTransactions
      = some (infosAfter primitives (amountsOf lower) upper) := by
    rw [numbers.transactions, ← infosAfter_hashes (amountsOf lower)]
    apply mapM_map_eq_some
    intro info member
    rw [infos]
    exact find?_of_distinct distinctInfos (mem_append_right _ member)
  obtain ⟨transactions, areDeleted, transactionTable, outputTable⟩ := deleteUpper_tables ran
  rw [hashes, deleted] at areDeleted
  cases areDeleted
  rw [hashes, numbers.transactions] at transactionTable
  rw [numbers.outputs] at outputTable
  constructor
  · rw [transactionTable]
    funext hash
    simp only
    rw [infos, find?_append]
    split
    · rename_i isUpper
      symm
      rw [find?_eq_none]
      intro info member same
      rw [map_append] at distinct
      obtain ⟨earlier, placed, isLower, rfl⟩ := mem_infosAfter member
      have isHash : placed.hash primitives = hash := of_decide_eq_true same
      subst isHash
      exact (nodup_append'.mp distinct).2.2 (mem_map_of_mem isLower) isUpper
    · rename_i notUpper
      have missing : (infosAfter primitives (amountsOf lower) upper).find?
          (fun info => info.transactionHash = hash) = none := by
        rw [find?_eq_none]
        intro info member same
        obtain ⟨earlier, placed, isUpper, rfl⟩ := mem_infosAfter member
        have isHash : placed.hash primitives = hash := of_decide_eq_true same
        subst isHash
        exact notUpper (mem_map_of_mem isUpper)
      rw [missing, Option.or_none]
  · rw [outputTable]
    funext amount
    simp only
    rw [keyIndexSplitBoundary_eq, outputsOf_append]
    by_cases absent : (amountsOf upper).count amount = 0
    · have empty : outputsOf primitives amount upper = [] := by
        rw [← length_eq_zero_iff, outputsOf_length]
        exact absent
      rw [if_pos absent, empty]
      exact append_nil _
    · rw [if_neg absent]
      exact take_left

end DatabaseBlockchainCache
end Split
end Mevacoin
