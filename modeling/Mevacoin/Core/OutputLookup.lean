/-
Lookups by amount and global index along a path of the segment tree. For increasing
indexes a path answers like one list of all outputs of the amount on its chain.
-/

import Mevacoin.Cache.OutputLookup
import Mevacoin.Core.NumberedOutputs

namespace Mevacoin
open List

/-- The transactions have different hashes, and 16-bit numbers tell apart the transactions of
a block and the outputs of a transaction. -/
structure ToldApart (primitives : Primitives) (chain : List BlockEntry) : Prop where
  distinct : (chain.flatMap (BlockEntry.hashes primitives)).Nodup
  positions : ∀ entry ∈ chain, (entry.transactions primitives).length ≤ 2 ^ 16
  outputs : ∀ entry ∈ chain, ∀ transaction ∈ entry.transactions primitives,
    transaction.outputs.length ≤ 2 ^ 16

section ToldApart
variable {primitives : Primitives} {chain : List BlockEntry}

theorem ToldApart.apart (told : ToldApart primitives chain) :
    (placedFrom primitives 0 chain).Pairwise (BlockchainCache.Apart primitives) :=
  placedFrom_apart told.distinct told.positions

theorem ToldApart.of_shorter {shorter : List BlockEntry} (told : ToldApart primitives chain)
    (isPrefix : shorter <+: chain) : ToldApart primitives shorter := by
  obtain ⟨rest, isChain⟩ := isPrefix
  subst isChain
  have distinct := told.distinct
  rw [flatMap_append] at distinct
  exact ⟨distinct.of_append_left,
    fun entry member => told.positions entry (mem_append_left _ member),
    fun entry member => told.outputs entry (mem_append_left _ member)⟩

theorem mem_placedFrom {blockIndex : Nat} {placed : PlacedTransaction}
    (member : placed ∈ placedFrom primitives blockIndex chain) :
    ∃ entry ∈ chain, placed.transaction ∈ entry.transactions primitives := by
  induction chain generalizing blockIndex with
  | nil => cases member
  | cons entry chain ih =>
    rcases mem_append.mp member with here | later
    · obtain ⟨transaction, inBlock, isPlaced⟩ := mem_map.mp here
      subst isPlaced
      exact ⟨entry, mem_cons_self, fst_mem_of_mem_zipIdx inBlock⟩
    · obtain ⟨other, inChain, inBlock⟩ := ih later
      exact ⟨other, mem_cons_of_mem _ inChain, inBlock⟩

theorem ToldApart.fewOutputs (told : ToldApart primitives chain) {blockIndex : Nat} :
    ∀ placed ∈ placedFrom primitives blockIndex chain,
      placed.transaction.outputs.length ≤ 2 ^ 16 := by
  intro placed member
  obtain ⟨entry, inChain, inBlock⟩ := mem_placedFrom member
  exact told.outputs entry inChain _ inBlock

end ToldApart

/-! ### Lookups on a path -/

/-- The answer for an index without output: the database passes over it, a memory segment
that has outputs of the amount reports it. -/
def Lineage.missingAnswer (amount : UInt64) : List Segment → ExtractOutputKeysResult
  | [] => .invalidGlobalIndex
  | .database _ :: _ => .success
  | .memory cache :: parents =>
    match cache.keyOutputsGlobalIndexes amount with
    | none => missingAnswer amount parents
    | some _ => .invalidGlobalIndex

section Paths
variable {σ : Type} {primitives : Primitives} {callback : OutputCallback σ} {amount : UInt64}
  {blockIndex : Nat} {segments : List Segment} {chain : List BlockEntry}

theorem visitOutput_of_found {outputs : List StoredKeyOutput} {index : UInt32}
    (inside : index.toNat < outputs.length) (missing other : ExtractOutputKeysResult)
    (rest : List StoredKeyOutput) :
    visitOutput missing (outputAt outputs) callback index
      = visitOutput other (outputAt (outputs ++ rest)) callback index := by
  unfold visitOutput outputAt
  rw [getElem?_append_left inside, getElem?_eq_getElem inside]
  rfl

/-- A memory segment that has outputs of the amount asks its parents for the indexes below
its own and answers the others itself. -/
private theorem extractKeyOutputs_of_entry {cache : BlockchainCache} {parents : List Segment}
    {entry : OutputGlobalIndexesForAmount}
    (isEntry : cache.keyOutputsGlobalIndexes amount = some entry)
    (reached : cache.startIndex ≤ blockIndex) {lower upper : List UInt32}
    (areLower : ∀ index ∈ lower, index < entry.startIndex)
    (areUpper : ∀ index ∈ upper, entry.startIndex ≤ index) (state : σ) :
    Lineage.extractKeyOutputs callback amount blockIndex (lower ++ upper) state
        (.memory cache :: parents)
      = if lower = [] then cache.visitOwnKeyOutputs callback entry upper state
        else
          match Lineage.extractKeyOutputs callback amount blockIndex lower state parents with
          | (.success, next) => cache.visitOwnKeyOutputs callback entry upper next
          | stopped => stopped := by
  have passed : ∀ index ∈ lower, decide (index < entry.startIndex) = true :=
    fun index member => decide_eq_true (areLower index member)
  have failed : ∀ index ∈ upper, decide (index < entry.startIndex) = false :=
    fun index member => decide_eq_false (UInt32.not_lt.mpr (areUpper index member))
  have offset : BinarySearch.lowerBound (fun index => decide (index < entry.startIndex))
      (lower ++ upper) = lower.length := by
    rw [BinarySearch.lowerBound_eq, takeWhile_append_of_divided passed failed]
    apply pairwise_append.mpr
    refine ⟨?_, ?_, ?_⟩
    · apply List.Pairwise.imp_of_mem _ (pairwise_of_forall (fun _ _ => trivial))
      intro first second isFirst _ _ _
      exact passed first isFirst
    · apply List.Pairwise.imp_of_mem _ (pairwise_of_forall (fun _ _ => trivial))
      intro first second _ isSecond _ passes
      cases (failed second isSecond).symm.trans passes
    · intro first isFirst second _ _
      exact passed first isFirst
  rw [Lineage.extractKeyOutputs, isEntry]
  simp only
  rw [if_neg (Nat.not_lt.mpr reached), offset, take_left, drop_left]
  by_cases none : lower = []
  · rw [if_pos none, if_pos (by rw [none]; rfl)]
  · have nonempty : ¬lower.length = 0 := by rwa [length_eq_zero_iff]
    exact (if_neg nonempty).trans (if_neg none).symm

theorem TabledStack.extractKeyOutputs
    (stack : TabledStack (numberedTables primitives) segments chain)
    (told : ToldApart primitives chain) (fits : outputCount primitives amount chain < 2 ^ 32)
    (reached : ∀ segment ∈ segments, segment.getStartBlockIndex ≤ blockIndex)
    {indexes : List UInt32} (increasing : indexes.Pairwise (· < ·)) (state : σ) :
    Lineage.extractKeyOutputs callback amount blockIndex indexes state segments
      = forEachIndex (visitOutput (Lineage.missingAnswer amount segments)
          (outputAt (outputsOf primitives amount (placedFrom primitives 0 chain))) callback)
        indexes state := by
  induction stack generalizing indexes state with
  | @database cache holds =>
    rw [Lineage.extractKeyOutputs_of_database,
      DatabaseBlockchainCache.orderedIndexes_eq_self_iff.mpr increasing, holds.outputs]
    rfl
  | @memory parents below cache stack start holds ih =>
    have few : ∀ placed ∈ placedFrom primitives 0 (below ++ cache.blocks),
        placed.transaction.outputs.length ≤ 2 ^ 16 := told.fewOutputs
    have apart := told.apart
    rw [outputCount_append] at fits
    rw [placedFrom_append, Nat.zero_add] at apart few ⊢
    have answer := fun {lower : List UInt32} =>
      @ih (told.of_shorter (prefix_append below cache.blocks)) (by omega)
        (fun segment member => reached segment (mem_cons_of_mem _ member)) lower
    have entry := congrFun holds.outputs amount
    rw [Lineage.missingAnswer]
    by_cases empty : outputsOf primitives amount
        (placedFrom primitives below.length cache.blocks) = []
    · -- no output of the amount here: the parents answer, and for the same outputs
      rw [Lineage.extractKeyOutputs, entry, outputsOf_append, empty, append_nil]
      exact answer increasing state
    · rw [ownOutputs, if_neg (by simpa using empty)] at entry
      have start : (UInt32.ofNat (outputsOf primitives amount
          (placedFrom primitives 0 below)).length).toNat
          = (outputsOf primitives amount (placedFrom primitives 0 below)).length := by
        exact Nat.mod_eq_of_lt (Nat.lt_of_le_of_lt (Nat.le_add_right _ _) fits)
      generalize isFirst : UInt32.ofNat (outputsOf primitives amount
        (placedFrom primitives 0 below)).length = first at entry start
      obtain ⟨lower, upper, whole, areLower, areUpper⟩ :
          ∃ lower upper, indexes = lower ++ upper ∧ (∀ index ∈ lower, index < first) ∧
            ∀ index ∈ upper, first ≤ index := by
        refine ⟨indexes.takeWhile (fun index => index < first),
          indexes.dropWhile (fun index => index < first),
          takeWhile_append_dropWhile.symm, ?_, ?_⟩
        · intro index member
          have passes := mem_takeWhile_imp member
          exact of_decide_eq_true passes
        · intro index member
          have partitioned : BinarySearch.Partitioned
              (fun index => decide (index < first)) indexes := by
            apply increasing.imp
            intro left right smaller passes
            exact decide_eq_true (UInt32.lt_trans smaller (of_decide_eq_true passes))
          exact UInt32.not_lt.mp
            (of_decide_eq_false (partitioned.of_mem_dropWhile member))
      subst whole
      have lowerIncreasing := (pairwise_append.mp increasing).1
      have fromParents : ∀ state, Lineage.extractKeyOutputs callback amount blockIndex lower
          state parents = forEachIndex (visitOutput .invalidGlobalIndex
            (outputAt (outputsOf primitives amount (placedFrom primitives 0 below
              ++ placedFrom primitives below.length cache.blocks))) callback) lower state := by
        intro state
        rw [answer lowerIncreasing, outputsOf_append]
        apply forEachIndex_congr
        intro index member
        apply visitOutput_of_found
        rw [← start]
        exact UInt32.lt_iff_toNat_lt.mp (areLower index member)
      have own : ∀ state, cache.visitOwnKeyOutputs callback
          { startIndex := first, outputs := (outputsOf primitives amount
            (placedFrom primitives below.length cache.blocks)).map StoredKeyOutput.packed }
          upper state = forEachIndex (visitOutput .invalidGlobalIndex
            (outputAt (outputsOf primitives amount (placedFrom primitives 0 below
              ++ placedFrom primitives below.length cache.blocks))) callback) upper state := by
        intro state
        apply forEachIndex_congr
        intro index member
        unfold visitOutput
        rw [BlockchainCache.Numbers.findOutput holds (pairwise_append.mp apart).2.1
          (fun placed isOwn => few placed (mem_append_right _ isOwn))
          (Nat.lt_of_le_of_lt (Nat.le_add_right _ _) fits) entry (areUpper index member)]
      rw [extractKeyOutputs_of_entry entry (reached _ mem_cons_self) areLower areUpper, entry]
      simp only [fromParents, own]
      rw [forEachIndex_append]
      by_cases none : lower = []
      · rw [if_pos none, none]
        rfl
      · exact if_neg none

private theorem TabledStack.start_le {spec : TableSpec} (stack : TabledStack spec segments chain) :
    ∀ segment ∈ segments, segment.getStartBlockIndex ≤ chain.length := by
  induction stack with
  | database holds =>
    intro segment member
    rw [mem_singleton.mp member]
    exact Nat.zero_le _
  | memory stack start holds ih =>
    intro segment member
    rw [length_append]
    rcases mem_cons.mp member with isFirst | inParents
    · rw [isFirst]
      change BlockchainCache.startIndex _ ≤ _
      omega
    · have below := ih segment inParents
      omega

theorem TabledStack.start_le_head {spec : TableSpec} {segment : Segment}
    (stack : TabledStack spec segments chain) (isHead : segments.head? = some segment) :
    ∀ other ∈ segments, other.getStartBlockIndex ≤ segment.getStartBlockIndex := by
  cases stack with
  | database holds =>
    cases isHead
    intro other member
    rw [mem_singleton.mp member]
  | memory stack start holds =>
    cases isHead
    intro other member
    rcases mem_cons.mp member with isFirst | inParents
    · rw [isFirst]
    · change _ ≤ BlockchainCache.startIndex _
      rw [start]
      exact stack.start_le other inParents

end Paths

/-! ### Collected keys -/

def keyAt (outputs : List StoredKeyOutput) (index : UInt32) : Option PublicKey :=
  (outputs[index.toNat]?).map fun output => output.info.publicKey

section Keys
variable {outputs : List StoredKeyOutput} {missing : ExtractOutputKeysResult} {now : UInt64}
  {blockIndex : Nat} {indexes : List UInt32}

theorem forEachIndex_collectKeys {collected keys : List PublicKey}
    (ran : forEachIndex (visitOutput missing (outputAt outputs) (collectKeys now blockIndex))
      indexes collected = (.success, keys)) :
    keys = collected ++ indexes.filterMap (keyAt outputs) ∧
      (missing ≠ .success → ∀ index ∈ indexes, index.toNat < outputs.length) := by
  induction indexes generalizing collected with
  | nil =>
    cases ran
    refine ⟨(append_nil _).symm, ?_⟩
    intro _ index member
    cases member
  | cons index rest ih =>
    rw [forEachIndex] at ran
    cases found : outputs[index.toNat]? with
    | none =>
      have visit : visitOutput missing (outputAt outputs) (collectKeys now blockIndex) index
          collected = (missing, collected) := by
        unfold visitOutput outputAt
        rw [found]
        rfl
      rw [visit] at ran
      have skipped : (index :: rest).filterMap (keyAt outputs)
          = rest.filterMap (keyAt outputs) := by
        apply filterMap_cons_none
        unfold keyAt
        rw [found]
        rfl
      rw [skipped]
      cases missing with
      | success => exact ⟨(ih ran).1, fun strict => absurd rfl strict⟩
      | invalidGlobalIndex => cases ran
      | outputLocked => cases ran
    | some output =>
      have visit : visitOutput missing (outputAt outputs) (collectKeys now blockIndex) index
          collected = collectKeys now blockIndex (output.found index) collected := by
        unfold visitOutput outputAt
        rw [found]
        rfl
      have kept : (index :: rest).filterMap (keyAt outputs)
          = output.info.publicKey :: rest.filterMap (keyAt outputs) := by
        apply filterMap_cons_some
        unfold keyAt
        rw [found]
        rfl
      rw [visit, collectKeys] at ran
      by_cases unlocked : isTransactionSpendTimeUnlocked now (output.found index).unlockTime
          blockIndex = true
      · rw [if_pos unlocked] at ran
        obtain ⟨isKeys, inside⟩ := ih ran
        refine ⟨?_, ?_⟩
        · rw [isKeys, kept, append_assoc]
          rfl
        · intro strict other member
          rcases mem_cons.mp member with isFirst | later
          · rw [isFirst]
            exact index_lt found
          · exact inside strict other later
      · rw [if_neg unlocked] at ran
        cases ran

theorem inside_of_length (complete : (indexes.filterMap (keyAt outputs)).length = indexes.length) :
    ∀ index ∈ indexes, index.toNat < outputs.length := by
  intro index member
  have hasKey := filterMap_length_eq_length.mp complete index member
  unfold keyAt at hasKey
  rwa [Option.isSome_map, isSome_getElem?] at hasKey

end Keys
end Mevacoin
