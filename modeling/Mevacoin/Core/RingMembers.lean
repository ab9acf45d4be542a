/-
The rings of accepted transactions. The packed output indexes and the keys that a lookup
returns agree when the indexes do not wrap around and all name outputs below the block.
-/

import Mevacoin.Core.GlobalIndexes
import Mevacoin.Core.OutputLookup
import Mevacoin.Core.TransactionSums

namespace Mevacoin
open List Parameters

/-! ### Resolved rings -/

/-- The indexes of the input increase, and the keys are those of the outputs of the amount on
the chain that they name, one by one. -/
structure RingResolved (primitives : Primitives) (chain : List BlockEntry) (input : KeyInput)
    (keys : List PublicKey) : Prop where
  increasing : (globalIndexes 0 input.outputIndexes).Pairwise (· < ·)
  size : keys.length = input.outputIndexes.length
  members : ∀ (position : Nat) (index : UInt32),
    (globalIndexes 0 input.outputIndexes)[position]? = some index →
    ∃ output, (outputsOf primitives input.amount (placedFrom primitives 0 chain))[index.toNat]?
        = some output ∧
      keys[position]? = some output.info.publicKey

section Resolved
variable {primitives : Primitives} {chain : List BlockEntry} {input : KeyInput}
  {keys : List PublicKey}

theorem RingResolved.inside (resolved : RingResolved primitives chain input keys) :
    ∀ index ∈ globalIndexes 0 input.outputIndexes,
      index.toNat < outputCount primitives input.amount chain := by
  intro index member
  obtain ⟨position, found⟩ := mem_iff_getElem?.mp member
  obtain ⟨output, isOutput, -⟩ := resolved.members position index found
  exact index_lt isOutput

private theorem filterMap_getElem? {α β : Type} {f : α → Option β} {items : List α}
    (all : ∀ item ∈ items, (f item).isSome) (position : Nat) :
    (items.filterMap f)[position]? = (items[position]?).bind f := by
  induction items generalizing position with
  | nil => rfl
  | cons head items ih =>
    obtain ⟨first, isFirst⟩ := Option.isSome_iff_exists.mp (all head mem_cons_self)
    rw [filterMap_cons_some isFirst]
    cases position with
    | zero => exact isFirst.symm
    | succ position =>
      exact ih (fun item member => all item (mem_cons_of_mem _ member)) position

theorem ringResolved_of_collected {count : Nat}
    (increasing : (globalIndexes 0 input.outputIndexes).Pairwise (· < ·))
    (collected : keys = (globalIndexes 0 input.outputIndexes).filterMap
      (keyAt (outputsOf primitives input.amount (placedFrom primitives 0 chain))))
    (inside : ∀ index ∈ globalIndexes 0 input.outputIndexes,
      index.toNat < outputCount primitives input.amount (chain.take count)) :
    RingResolved primitives (chain.take count) input keys := by
  have keyOf : ∀ index ∈ globalIndexes 0 input.outputIndexes, ∃ output,
      (outputsOf primitives input.amount (placedFrom primitives 0 (chain.take count)))[index.toNat]?
          = some output ∧
        keyAt (outputsOf primitives input.amount (placedFrom primitives 0 chain)) index
          = some output.info.publicKey := by
    intro index member
    have bound := inside index member
    refine ⟨_, getElem?_eq_getElem bound, ?_⟩
    unfold keyAt
    rw [placedFrom_take_drop 0 count chain, outputsOf_append, getElem?_append_left bound,
      getElem?_eq_getElem bound]
    rfl
  have allKeys : ∀ index ∈ globalIndexes 0 input.outputIndexes,
      (keyAt (outputsOf primitives input.amount (placedFrom primitives 0 chain)) index).isSome := by
    intro index member
    obtain ⟨output, -, isKey⟩ := keyOf index member
    rw [isKey]
    rfl
  refine ⟨increasing, ?_, ?_⟩
  · rw [collected, filterMap_length_eq_length.mpr allKeys, globalIndexes_length]
  · intro position index found
    obtain ⟨output, isOutput, isKey⟩ := keyOf index (mem_of_getElem? found)
    refine ⟨output, isOutput, ?_⟩
    rw [collected, filterMap_getElem? allKeys, found]
    exact isKey

end Resolved

/-! ### Accepted rings -/

namespace Core

theorem signatures_length {transaction : Transaction} {position : Nat} {input : KeyInput}
    (matching : transaction.SignaturesMatch)
    (isInput : transaction.inputs[position]? = some (.key input)) :
    (transaction.signatures.getD position []).length = input.outputIndexes.length := by
  unfold Transaction.SignaturesMatch at matching
  split at matching
  · rename_i blockIndex inputs
    rw [inputs] at isInput
    rcases position with _ | position
    · cases isInput
    · cases isInput
  · have atPosition := congrArg (fun lengths => lengths[position]?) matching
    simp only [getElem?_map, isInput, Option.map_some] at atPosition
    rw [getD_eq_getElem?_getD]
    obtain ⟨signatures, isSignatures, length⟩ := Option.map_eq_some_iff.mp atPosition
    rw [isSignatures]
    exact length

section Rings
variable {environment : Environment} {now : UInt64} {core : Core} {ptr : SegmentPtr}
  {segment : Segment} {blockIndex : Nat}

theorem collected_of_increasing (sound : core.Sound environment.primitives)
    (numbered : core.Numbered environment.primitives)
    (found : core.chainsStorage[ptr]? = some segment)
    (told : ToldApart environment.primitives (core.chain ptr))
    (above : segment.getStartBlockIndex ≤ blockIndex) {amount : UInt64} {indexes : List UInt32}
    (increasing : indexes.Pairwise (· < ·)) {keys : List PublicKey}
    (ran : Lineage.extractKeyOutputKeys now amount blockIndex indexes [] (core.lineage ptr)
      = .ok keys) :
    keys = indexes.filterMap (keyAt (outputsOf environment.primitives amount
        (placedFrom environment.primitives 0 (core.chain ptr)))) := by
  obtain ⟨leaf, isLeaf, isPrefix⟩ := chain_prefix_of_found sound.toTreeSound found
  have numberable := (numbered.numberable _ (mem_map_of_mem isLeaf)).of_shorter isPrefix
  have stack := numbered.tabled.stack sound.toTreeSound found
  have reached : ∀ other ∈ core.lineage ptr, other.getStartBlockIndex ≤ blockIndex := by
    intro other member
    exact Nat.le_trans (stack.start_le_head (lineage_head found) other member) above
  rw [Lineage.extractKeyOutputKeys_eq,
    stack.extractKeyOutputs told (numberable.fits amount) reached increasing] at ran
  generalize outcome : forEachIndex _ indexes [] = result at ran
  rcases result with ⟨code, collected⟩
  cases code with
  | success =>
    cases ran
    exact (forEachIndex_collectKeys outcome).1
  | invalidGlobalIndex => cases ran
  | outputLocked => cases ran

/-- An accepted input outside the checkpoint zone has a resolved ring, and the signature was
checked against its keys, exactly if the indexes do not wrap around and either the last of
them names an output below the block, or the block index is the top of the segment and high
enough for the number of signatures to be checked. -/
theorem validateTransaction_ring_iff (genesis : GenesisBlock environment.primitives)
    (numberable : Numberable environment.primitives
      (DatabaseBlockchainCache.addGenesisBlock genesis).entries)
    (run : Relation.ReflTransGen (TreeStep environment) (initRootSegment genesis) core)
    (found : core.chainsStorage[ptr]? = some segment)
    (told : ToldApart environment.primitives (core.chain ptr))
    (above : segment.getStartBlockIndex ≤ blockIndex)
    (outside : environment.checkpoints.isInCheckpointZone (blockIndex + 1) = false)
    {cached : CachedTransaction} (matching : cached.transaction.SignaturesMatch)
    {state result : TransactionValidatorState} {fee : UInt64}
    (accepted : validateTransaction environment now (core.lineage ptr) blockIndex state cached
      = .ok (fee, result)) {position : Nat} {input : KeyInput}
    (isInput : cached.transaction.inputs[position]? = some (.key input)) :
    (∃ keys, ValidKeyInput environment.primitives now (core.lineage ptr) blockIndex
          cached.transaction input position keys ∧
        RingResolved environment.primitives ((core.chain ptr).take (blockIndex + 1)) input keys) ↔
      totalOffset input.outputIndexes < 2 ^ 32 ∧
        (totalOffset input.outputIndexes < outputCount environment.primitives input.amount
            ((core.chain ptr).take (blockIndex + 1)) ∨
          transactionSignatureCountValidationHeight ≤ blockIndex ∧
            segment.getTopBlockIndex = blockIndex) := by
  obtain ⟨sound, numbered⟩ := Numbered.run genesis numberable run
  obtain ⟨valid, -, -⟩ := validateTransaction_eq_ok accepted
  obtain ⟨keyInput, isKey, packed⟩ :=
    (validateSemantic_eq_ok valid.semantic).inputs _ (mem_of_getElem? isInput)
  cases isKey
  constructor
  · intro ⟨keys, _, resolved⟩
    have fits := packed.increasing_iff.mp resolved.increasing
    exact ⟨fits, .inl ((packed.below_iff fits).mp resolved.inside)⟩
  · intro ⟨fits, below⟩
    have increasing := packed.increasing_iff.mpr fits
    obtain ⟨keys, checked⟩ := checkKeyInput_eq_ok.mp (valid.inputs position input isInput outside)
    have collected := collected_of_increasing sound numbered found told above increasing
      checked.outputs
    refine ⟨keys, checked, ringResolved_of_collected increasing collected ?_⟩
    rcases below with onAncestors | ⟨high, onTop⟩
    · exact (packed.below_iff fits).mpr onAncestors
    · -- as many keys as signatures, hence as many as indexes
      have length := chain_length sound.toTreeSound found
      have everything : (core.chain ptr).take (blockIndex + 1) = core.chain ptr := by
        apply take_of_length_le
        unfold Segment.getTopBlockIndex Segment.getBlockCount at onTop
        omega
      rw [everything]
      apply inside_of_length
      rw [← collected, checked.count high, signatures_length matching isInput, globalIndexes_length]

end Rings

/-! ### Wrapped and incomplete rings -/

def ringSpend (code : UInt8) (outputIndexes : List UInt32) : Transaction :=
  { version := 1
    unlockTime := 0
    inputs := [.key
      { amount := 5, outputIndexes := outputIndexes, keyImage := { value := 9 } }]
    outputs := [{ amount := 4, target := { key := { value := 0 } } }]
    extra := [code]
    signatures := [outputIndexes.map fun _ => { value := 0 }] }

def ringGenesisBlock : BlockTemplate :=
  { coinbaseBlock 0 255 0 5 with
    baseTransaction := { (coinbaseBlock 0 255 0 5).baseTransaction with
      unlockTime := 0
      outputs := [{ amount := 5, target := { key := { value := 1 } } },
        { amount := 5, target := { key := { value := 2 } } }] } }

theorem inputs_ringGenesisBlock : ringGenesisBlock.baseTransaction.inputs = [.base 0] := rfl

/-- Spends of a ring of both outputs, of a ring whose second index wraps around, and of a ring
with an output that does not exist. -/
def ringEnvironment : Environment :=
  { primitives := tablePrimitives [ringGenesisBlock, coinbaseBlock 1 0 1 37252903]
      [ringSpend 0 [0, 1], ringSpend 1 [1, 0xFFFFFFFF], ringSpend 2 [0, 7]]
    checkpoints := { points := [] } }

def ringGenesis : GenesisBlock ringEnvironment.primitives :=
  { block := ringGenesisBlock
    binaryArray := [0]
    parsed := rfl
    coinbase := rfl }

def ringKeys (outputIndexes : List UInt32) : Except ExtractOutputKeysResult (List PublicKey) :=
  Lineage.extractKeyOutputKeys 0 5 0 (globalIndexes 0 outputIndexes) []
    ((initRootSegment ringGenesis).lineage 0)

theorem validateTransaction_ring_iff_both :
    totalOffset [0, 1] < 2 ^ 32 ∧
      ∃ keys, ValidKeyInput ringEnvironment.primitives 0
          ((initRootSegment ringGenesis).lineage 0) 0 (ringSpend 0 [0, 1])
          { amount := 5, outputIndexes := [0, 1], keyImage := { value := 9 } } 0 keys ∧
        RingResolved ringEnvironment.primitives
          (((initRootSegment ringGenesis).chain 0).take 1)
          { amount := 5, outputIndexes := [0, 1], keyImage := { value := 9 } } keys := by
  have told : ToldApart ringEnvironment.primitives ((initRootSegment ringGenesis).chain 0) :=
    ⟨by decide +kernel, by decide +kernel, by decide +kernel⟩
  have accepted : validateTransaction ringEnvironment 0
      ((initRootSegment ringGenesis).lineage 0) 0 { spentKeyImages := [] }
      { transaction := ringSpend 0 [0, 1], binaryArray := [0] }
      = .ok (1, { spentKeyImages := [{ value := 9 }] }) := by
    rfl
  exact ⟨by decide, (validateTransaction_ring_iff ringGenesis (by decide +kernel) .refl rfl told
    (Nat.le_refl 0) rfl (by decide) accepted rfl).mpr (by decide +kernel)⟩

/-- A ring with the indexes one and zero is accepted and checked against the keys in the
opposite order; a ring with an index that names no output is accepted and checked against
one key instead of two. -/
theorem unresolved_rings_accepted :
    (initRootSegment ringGenesis).codeOf ringEnvironment 0
        { block := [1], transactions := [[1]] } = some (.addBlock .addedToMain) ∧
      globalIndexes 0 [1, 0xFFFFFFFF] = [1, 0] ∧
      (ringKeys [1, 0xFFFFFFFF]).toOption = some [{ value := 1 }, { value := 2 }] ∧
      (initRootSegment ringGenesis).codeOf ringEnvironment 0
        { block := [1], transactions := [[2]] } = some (.addBlock .addedToMain) ∧
      globalIndexes 0 [0, 7] = [0, 7] ∧
      (ringKeys [0, 7]).toOption = some [{ value := 1 }] := by
  decide +kernel

end Core
end Mevacoin
