/-
Looking up outputs by amount and global index. Both kinds of segment hand the outputs
they find to a callback that may stop the lookup. A memory segment answers in the order
of the request and stops at an index without output; the database goes through the
requested indexes in ascending order and passes over those without output.
-/

import Mathlib.Data.List.Dedup
import Mevacoin.Cache.OutputTables

namespace Mevacoin
open List Option

structure FoundOutput where
  globalIndex : UInt32
  transactionHash : Hash
  unlockTime : UInt64
  outputIndex : Nat
  key : PublicKey
  deriving DecidableEq, Repr

/-- A callback answers with a result and changes a state of its own. -/
abbrev OutputCallback (σ : Type) := FoundOutput → σ → ExtractOutputKeysResult × σ

section Callbacks
variable {σ : Type}

/-- Goes through the indexes as long as the steps succeed. -/
def forEachIndex (step : UInt32 → σ → ExtractOutputKeysResult × σ) :
    List UInt32 → σ → ExtractOutputKeysResult × σ
  | [], state => (.success, state)
  | index :: rest, state =>
    match step index state with
    | (.success, next) => forEachIndex step rest next
    | stopped => stopped

/-- One step of a lookup: the answer for an index without output is given. -/
def visitOutput (missing : ExtractOutputKeysResult) (lookup : UInt32 → Option FoundOutput)
    (callback : OutputCallback σ) (index : UInt32) (state : σ) : ExtractOutputKeysResult × σ :=
  match lookup index with
  | none => (missing, state)
  | some found => callback found state

def collectKeys (now : UInt64) (blockIndex : Nat) : OutputCallback (List PublicKey) :=
  fun found keys =>
    if isTransactionSpendTimeUnlocked now found.unlockTime blockIndex then
      (.success, keys ++ [found.key])
    else (.outputLocked, keys)

def noteIndexes : OutputCallback (List UInt32) :=
  fun found visited => (.success, visited ++ [found.globalIndex])

def onSuccess : ExtractOutputKeysResult × σ → Except ExtractOutputKeysResult σ
  | (.success, state) => .ok state
  | (result, _) => .error result

end Callbacks

/-! ### The lookups of the segments -/

def StoredKeyOutput.found (index : UInt32) (output : StoredKeyOutput) : FoundOutput :=
  { globalIndex := index
    transactionHash := output.info.transactionHash
    unlockTime := output.info.unlockTime
    outputIndex := output.info.outputIndex
    key := output.info.publicKey }

/-- The output with a global index among all outputs of its amount. -/
def outputAt (outputs : List StoredKeyOutput) (index : UInt32) : Option FoundOutput :=
  (outputs[index.toNat]?).map (StoredKeyOutput.found index)

def DatabaseBlockchainCache.visitKeyOutputs {σ : Type} (cache : DatabaseBlockchainCache)
    (callback : OutputCallback σ) (amount : UInt64) (globalIndexes : List UInt32) (state : σ) :
    ExtractOutputKeysResult × σ :=
  forEachIndex (visitOutput .success (outputAt (cache.keyOutputs amount)) callback)
    (orderedIndexes globalIndexes) state

/-- An output of a memory segment: its place under the amount, then the transaction at that
place. -/
def BlockchainCache.findOutput (cache : BlockchainCache) (entry : OutputGlobalIndexesForAmount)
    (index : UInt32) : Option FoundOutput := do
  let packed ← entry.outputs[(index - entry.startIndex).toNat]?
  let info ← cache.findTransaction packed.blockIndex packed.transactionIndex
  let output ← info.outputs[packed.outputIndex]?
  some
    { globalIndex := index
      transactionHash := info.transactionHash
      unlockTime := info.unlockTime
      outputIndex := packed.outputIndex
      key := output.key }

/-- The part of `extractKeyOutputs` that a memory segment answers from its own outputs. -/
def BlockchainCache.visitOwnKeyOutputs {σ : Type} (cache : BlockchainCache)
    (callback : OutputCallback σ) (entry : OutputGlobalIndexesForAmount)
    (globalIndexes : List UInt32) (state : σ) : ExtractOutputKeysResult × σ :=
  forEachIndex (visitOutput .invalidGlobalIndex (cache.findOutput entry) callback)
    globalIndexes state

namespace Lineage

def extractKeyOutputs {σ : Type} (callback : OutputCallback σ) (amount : UInt64)
    (blockIndex : Nat) (globalIndexes : List UInt32) (state : σ) :
    List Segment → ExtractOutputKeysResult × σ
  | [] => (.invalidGlobalIndex, state)
  | .database cache :: _ => cache.visitKeyOutputs callback amount globalIndexes state
  | .memory cache :: parents =>
    match cache.keyOutputsGlobalIndexes amount with
    | none => extractKeyOutputs callback amount blockIndex globalIndexes state parents
    | some entry =>
      if blockIndex < cache.startIndex then
        extractKeyOutputs callback amount blockIndex globalIndexes state parents
      else
        let offset := BinarySearch.lowerBound (fun index => index < entry.startIndex)
          globalIndexes
        let parentIndexes := globalIndexes.take offset
        let ownIndexes := globalIndexes.drop offset
        if offset = 0 then cache.visitOwnKeyOutputs callback entry ownIndexes state
        else
          match extractKeyOutputs callback amount blockIndex parentIndexes state parents with
          | (.success, next) => cache.visitOwnKeyOutputs callback entry ownIndexes next
          | stopped => stopped

theorem extractKeyOutputs_of_database {σ : Type} (callback : OutputCallback σ) (amount : UInt64)
    (blockIndex : Nat) (globalIndexes : List UInt32) (state : σ) (cache : DatabaseBlockchainCache)
    (parents : List Segment) :
    extractKeyOutputs callback amount blockIndex globalIndexes state (.database cache :: parents)
      = forEachIndex (visitOutput .success (outputAt (cache.keyOutputs amount)) callback)
        (DatabaseBlockchainCache.orderedIndexes globalIndexes) state := rfl

end Lineage

/-! ### Running through indexes -/

section Visits
variable {σ : Type} {step : UInt32 → σ → ExtractOutputKeysResult × σ} {state : σ}

theorem forEachIndex_append (first second : List UInt32) :
    forEachIndex step (first ++ second) state
      = match forEachIndex step first state with
        | (.success, next) => forEachIndex step second next
        | stopped => stopped := by
  induction first generalizing state with
  | nil => rfl
  | cons index first ih =>
    rw [cons_append, forEachIndex, forEachIndex]
    rcases step index state with ⟨result, next⟩
    cases result with
    | success => exact ih
    | invalidGlobalIndex => rfl
    | outputLocked => rfl

theorem forEachIndex_congr {other : UInt32 → σ → ExtractOutputKeysResult × σ}
    {indexes : List UInt32} (same : ∀ index ∈ indexes, step index = other index) :
    forEachIndex step indexes state = forEachIndex other indexes state := by
  induction indexes generalizing state with
  | nil => rfl
  | cons index rest ih =>
    rw [forEachIndex, forEachIndex, same index mem_cons_self]
    rcases other index state with ⟨result, next⟩
    cases result with
    | success => exact ih fun later member => same later (mem_cons_of_mem _ member)
    | invalidGlobalIndex => rfl
    | outputLocked => rfl

theorem foldlM_eq_onSuccess {fallible : σ → UInt32 → Except ExtractOutputKeysResult σ}
    (same : ∀ index state, fallible state index = onSuccess (step index state))
    (indexes : List UInt32) :
    indexes.foldlM fallible state = onSuccess (forEachIndex step indexes state) := by
  induction indexes generalizing state with
  | nil => rfl
  | cons index rest ih =>
    rw [foldlM_cons, forEachIndex, same]
    rcases step index state with ⟨result, next⟩
    cases result with
    | success => exact ih
    | invalidGlobalIndex => rfl
    | outputLocked => rfl

theorem forEachIndex_noteIndexes {outputs : List StoredKeyOutput} {indexes visited : List UInt32}
    (missing : ExtractOutputKeysResult) (inside : ∀ index ∈ indexes, index.toNat < outputs.length) :
    forEachIndex (visitOutput missing (outputAt outputs) noteIndexes) indexes visited
      = (.success, visited ++ indexes) := by
  induction indexes generalizing visited with
  | nil => rw [append_nil]; rfl
  | cons index rest ih =>
    have found := inside index mem_cons_self
    have visit : visitOutput missing (outputAt outputs) noteIndexes index visited
        = (.success, visited ++ [index]) := by
      unfold visitOutput outputAt
      rw [getElem?_eq_getElem found]
      rfl
    rw [forEachIndex, visit]
    change forEachIndex _ rest _ = _
    rw [ih fun later member => inside later (mem_cons_of_mem _ member), append_assoc]
    rfl

end Visits

theorem Lineage.extractKeyOutputKeys_eq (now amount : UInt64) (blockIndex : Nat)
    (globalIndexes : List UInt32) (keys : List PublicKey) (segments : List Segment) :
    extractKeyOutputKeys now amount blockIndex globalIndexes keys segments
      = onSuccess (extractKeyOutputs (collectKeys now blockIndex) amount blockIndex globalIndexes
        keys segments) := by
  have collected : ∀ (found : FoundOutput) (keys : List PublicKey),
      collectKey now blockIndex found.unlockTime found.key keys
        = onSuccess (collectKeys now blockIndex found keys) := by
    intro found keys
    unfold collectKey collectKeys
    split <;> rfl
  have own : ∀ (cache : BlockchainCache) (entry : OutputGlobalIndexesForAmount)
      (indexes : List UInt32) (keys : List PublicKey),
      cache.extractOwnKeyOutputs now blockIndex entry indexes keys
        = onSuccess (cache.visitOwnKeyOutputs (collectKeys now blockIndex) entry indexes keys) := by
    intro cache entry indexes keys
    apply foldlM_eq_onSuccess
    intro index keys
    unfold visitOutput BlockchainCache.findOutput
    simp only [bind_eq_bind]
    cases entry.outputs[(index - entry.startIndex).toNat]? with
    | none => rfl
    | some packed =>
      simp only [bind_some]
      cases cache.findTransaction packed.blockIndex packed.transactionIndex with
      | none => rfl
      | some info =>
        simp only [bind_some]
        cases info.outputs[packed.outputIndex]? with
        | none => rfl
        | some output => exact collected ⟨index, _, info.unlockTime, packed.outputIndex, output.key⟩ keys
  induction segments generalizing globalIndexes keys with
  | nil => rfl
  | cons segment parents ih =>
    cases segment with
    | database cache =>
      apply foldlM_eq_onSuccess
      intro index keys
      unfold visitOutput outputAt
      cases (cache.keyOutputs amount)[index.toNat]? with
      | none => rfl
      | some output => exact collected (output.found index) keys
    | memory cache =>
      rw [extractKeyOutputKeys, extractKeyOutputs]
      cases cache.keyOutputsGlobalIndexes amount with
      | none => exact ih _ _
      | some entry =>
        simp only
        by_cases below : blockIndex < cache.startIndex
        · rw [if_pos below, if_pos below]
          exact ih _ _
        · rw [if_neg below, if_neg below]
          by_cases first : BinarySearch.lowerBound (fun index => index < entry.startIndex)
              globalIndexes = 0
          · rw [if_pos first, if_pos first]
            exact own _ _ _ _
          · rw [if_neg first, if_neg first, ih]
            rcases extractKeyOutputs (collectKeys now blockIndex) amount blockIndex
              _ keys parents with ⟨result, next⟩
            cases result with
            | success => exact own _ _ _ _
            | invalidGlobalIndex => rfl
            | outputLocked => rfl

/-! ### Exact tables answer exactly -/

namespace DatabaseBlockchainCache

theorem orderedIndexes_increasing (globalIndexes : List UInt32) :
    (orderedIndexes globalIndexes).Pairwise (· < ·) := by
  have sorted : (orderedIndexes globalIndexes).Pairwise (· ≤ ·) :=
    (pairwise_insertionSort (· ≤ ·) globalIndexes).sublist (dedup_sublist _)
  have distinct : (orderedIndexes globalIndexes).Pairwise (· ≠ ·) := nodup_dedup _
  apply (sorted.and distinct).imp
  intro first second both
  exact UInt32.lt_of_le_of_ne both.1 both.2

theorem mem_orderedIndexes {globalIndexes : List UInt32} {index : UInt32} :
    index ∈ orderedIndexes globalIndexes ↔ index ∈ globalIndexes := by
  unfold orderedIndexes
  rw [mem_dedup, mem_insertionSort]

theorem orderedIndexes_eq_self_iff {globalIndexes : List UInt32} :
    orderedIndexes globalIndexes = globalIndexes ↔ globalIndexes.Pairwise (· < ·) := by
  constructor
  · intro same
    rw [← same]
    exact orderedIndexes_increasing globalIndexes
  · intro increasing
    have sorted : globalIndexes.Pairwise (· ≤ ·) := increasing.imp UInt32.le_of_lt
    have distinct : globalIndexes.Nodup := increasing.imp UInt32.ne_of_lt
    unfold orderedIndexes
    rw [sorted.insertionSort_eq, distinct.dedup]

end DatabaseBlockchainCache

section Exact
variable {primitives : Primitives} {amount : UInt64} {below own : List PlacedTransaction}

theorem info_mem_infosAfter {placed : PlacedTransaction} (member : placed ∈ own)
    (before : List UInt64) :
    ∃ earlier, placed.info primitives earlier ∈ infosAfter primitives before own := by
  induction own generalizing before with
  | nil => cases member
  | cons head rest ih =>
    rcases mem_cons.mp member with isHead | inRest
    · subst isHead
      exact ⟨before, mem_cons_self⟩
    · obtain ⟨earlier, later⟩ := ih inRest (before ++ head.amounts)
      exact ⟨earlier, mem_cons_of_mem _ later⟩

private theorem infosAfter_places (before : List UInt64) :
    (infosAfter primitives before own).map (fun info => (info.blockIndex, info.transactionIndex))
      = own.map fun placed => (placed.blockIndex, placed.transactionIndex) := by
  induction own generalizing before with
  | nil => rfl
  | cons head rest ih =>
    rw [infosAfter, map_cons, map_cons, ih]
    rfl

namespace BlockchainCache
variable {cache : BlockchainCache}

theorem Numbers.findTransaction (numbers : cache.Numbers primitives below own)
    (apart : own.Pairwise (Apart primitives)) {placed : PlacedTransaction} (member : placed ∈ own) :
    ∃ before, cache.findTransaction placed.blockIndex placed.transactionIndex
      = some (placed.info primitives before).toCachedTransactionInfo := by
  obtain ⟨before, isInfo⟩ := info_mem_infosAfter member (amountsOf below)
  refine ⟨before, ?_⟩
  have distinct : ((infosAfter primitives (amountsOf below) own).map
      fun info => (info.blockIndex, info.transactionIndex)).Nodup := by
    rw [infosAfter_places]
    apply pairwise_map.mpr
    apply apart.imp
    intro first second isApart same
    exact isApart.2 (Prod.mk.injEq _ _ _ _ ▸ same)
  have found := find?_of_distinct distinct isInfo
  unfold BlockchainCache.findTransaction
  rw [numbers.transactions, find?_map, ← map_some, ← found]
  simp only [Function.comp_apply, Prod.mk.injEq]
  rfl

/-- An output of the segment is found by its global index, as it stands among all outputs of
the amount. -/
theorem Numbers.findOutput (numbers : cache.Numbers primitives below own)
    (apart : own.Pairwise (Apart primitives))
    (few : ∀ placed ∈ own, placed.transaction.outputs.length ≤ 2 ^ 16)
    (fits : (outputsOf primitives amount below).length < 2 ^ 32)
    {entry : OutputGlobalIndexesForAmount}
    (isEntry : cache.keyOutputsGlobalIndexes amount = some entry) {index : UInt32}
    (above : entry.startIndex ≤ index) :
    cache.findOutput entry index = outputAt (outputsOf primitives amount (below ++ own)) index := by
  rw [numbers.outputs] at isEntry
  simp only [ownOutputs] at isEntry
  split at isEntry
  · cases isEntry
  · cases isEntry
    have start : (UInt32.ofNat (outputsOf primitives amount below).length).toNat
        = (outputsOf primitives amount below).length := by
      exact Nat.mod_eq_of_lt fits
    have position : (index - UInt32.ofNat (outputsOf primitives amount below).length).toNat
        = index.toNat - (outputsOf primitives amount below).length := by
      rw [UInt32.toNat_sub_of_le _ _ above, start]
    have reached : (outputsOf primitives amount below).length ≤ index.toNat := by
      rw [← start]
      exact UInt32.le_iff_toNat_le.mp above
    unfold BlockchainCache.findOutput outputAt
    rw [position, outputsOf_append, getElem?_append_right reached, getElem?_map]
    cases found : (outputsOf primitives amount own)[index.toNat
        - (outputsOf primitives amount below).length]? with
    | none => rfl
    | some stored =>
      obtain ⟨placed, inOwn, ⟨output, outputIndex⟩, inTransaction, isStored⟩ :=
        mem_outputsOf (mem_of_getElem? found)
      obtain ⟨before, isInfo⟩ := numbers.findTransaction apart inOwn
      obtain ⟨-, inside, isOutput⟩ := mem_zipIdx inTransaction
      have small : outputIndex % 2 ^ 16 = outputIndex := by
        have bound := few placed inOwn
        exact Nat.mod_eq_of_lt (by omega)
      have inInfo : (placed.info primitives before).outputs[outputIndex % 2 ^ 16]?
          = some output.target := by
        change (placed.transaction.outputs.map TransactionOutput.target)[_]? = _
        rw [small, getElem?_map, getElem?_eq_getElem (by omega), isOutput]
        rfl
      subst isStored
      change ((cache.findTransaction placed.blockIndex placed.transactionIndex).bind _) = _
      rw [isInfo, bind_some]
      change Option.bind ((placed.info primitives before).outputs[outputIndex % 2 ^ 16]?) _ = _
      rw [inInfo]
      rfl

end BlockchainCache
end Exact
end Mevacoin
