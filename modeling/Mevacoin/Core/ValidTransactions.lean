/-
What the transactions of an accepted block passed. The loops over transactions and
inputs are inverted once into facts about every transaction and every input.
-/

import Mevacoin.Core.Accept

namespace Mevacoin
open List Checked

/-- A transaction that passed the checks on the segment of the parent block. -/
structure ValidTransaction (environment : Environment) (now : UInt64) (segments : List Segment)
    (blockIndex : Nat) (transaction : Transaction) (fee : UInt64) : Prop where
  semantic : validateSemantic environment.primitives transaction = .ok fee
  inputs : ∀ position keyInput, transaction.inputs[position]? = some (.key keyInput) →
    environment.checkpoints.isInCheckpointZone (blockIndex + 1) = false →
    checkKeyInput environment.primitives now segments blockIndex transaction keyInput position
      = .ok ()

variable {state : TransactionValidatorState}

section Inputs
variable {environment : Environment} {now : UInt64} {segments : List Segment} {blockIndex : Nat}
  {transaction : Transaction}

theorem validateInput_eq_ok {next : TransactionValidatorState} {input : TransactionInput × Nat}
    (ran : validateInput environment now segments blockIndex transaction state input = .ok next) :
    ∃ keyInput, input.1 = .key keyInput ∧ keyInput.keyImage ∉ state.spentKeyImages ∧
      next = { spentKeyImages := state.spentKeyImages ++ [keyInput.keyImage] } ∧
      (environment.checkpoints.isInCheckpointZone (blockIndex + 1) = false →
        checkKeyInput environment.primitives now segments blockIndex transaction keyInput input.2
          = .ok ()) := by
  unfold validateInput at ran
  split at ran
  · cases ran
  · rename_i keyInput isKey
    obtain ⟨fresh, ran⟩ := rejectIf_bind_eq_ok.mp ran
    obtain ⟨checked, ran⟩ := checkWhen_bind_eq_ok.mp ran
    cases ran
    exact ⟨keyInput, isKey, fresh, rfl, checked⟩

theorem validateInputs_eq_ok {inputs : List (TransactionInput × Nat)}
    {result : TransactionValidatorState}
    (ran : inputs.foldlM (validateInput environment now segments blockIndex transaction) state
      = .ok result) :
    result.spentKeyImages = state.spentKeyImages
        ++ ((inputs.map Prod.fst).filterMap TransactionInput.keyInput?).map KeyInput.keyImage ∧
      (state.spentKeyImages.Nodup → result.spentKeyImages.Nodup) ∧
      ∀ input ∈ inputs, ∀ keyInput, input.1 = .key keyInput →
        environment.checkpoints.isInCheckpointZone (blockIndex + 1) = false →
        checkKeyInput environment.primitives now segments blockIndex transaction keyInput input.2
          = .ok () := by
  refine foldlM_invariant
    (fun done reached => reached.spentKeyImages = state.spentKeyImages
        ++ ((done.map Prod.fst).filterMap TransactionInput.keyInput?).map KeyInput.keyImage ∧
      (state.spentKeyImages.Nodup → reached.spentKeyImages.Nodup) ∧
      ∀ input ∈ done, ∀ keyInput, input.1 = .key keyInput →
        environment.checkpoints.isInCheckpointZone (blockIndex + 1) = false →
        checkKeyInput environment.primitives now segments blockIndex transaction keyInput input.2
          = .ok ())
    ran (by simp) ?_
  intro done input reached next _ ⟨images, distinct, checked⟩ step
  obtain ⟨keyInput, isKey, fresh, rfl, inputChecked⟩ := validateInput_eq_ok step
  refine ⟨?_, ?_, ?_⟩
  · simp [images, isKey, TransactionInput.keyInput?]
  · intro initially
    have apart : List.Disjoint reached.spentKeyImages [keyInput.keyImage] := by
      intro image inState isNew
      rw [mem_singleton.mp isNew] at inState
      exact fresh inState
    exact (distinct initially).append (nodup_singleton _) apart
  · intro other member otherInput isOther outside
    rcases mem_append.mp member with inDone | isLast
    · exact checked other inDone otherInput isOther outside
    · rw [mem_singleton.mp isLast] at isOther ⊢
      rw [isKey] at isOther
      cases isOther
      exact inputChecked outside

theorem validateTransaction_eq_ok {result : TransactionValidatorState} {fee : UInt64}
    {cached : CachedTransaction}
    (ran : validateTransaction environment now segments blockIndex state cached
      = .ok (fee, result)) :
    ValidTransaction environment now segments blockIndex cached.transaction fee ∧
      result.spentKeyImages = state.spentKeyImages ++ cached.transaction.keyImages ∧
      (state.spentKeyImages.Nodup → result.spentKeyImages.Nodup) := by
  obtain ⟨fee', semantic, ran⟩ := bind_eq_ok.mp ran
  obtain ⟨state', loop, ran⟩ := bind_eq_ok.mp ran
  cases ran
  obtain ⟨images, distinct, checked⟩ := validateInputs_eq_ok loop
  rw [zipIdx_map_fst] at images
  refine ⟨⟨semantic, ?_⟩, images, distinct⟩
  intro position keyInput found outside
  exact checked (.key keyInput, position) (mk_mem_zipIdx_iff_getElem?.mpr found) keyInput rfl
    outside

end Inputs

/-- What a key input outside the checkpoint zone passed. -/
structure ValidKeyInput (primitives : Primitives) (now : UInt64) (segments : List Segment)
    (blockIndex : Nat) (transaction : Transaction) (input : KeyInput) (inputIndex : Nat)
    (outputKeys : List PublicKey) : Prop where
  unspent : Lineage.checkIfSpent input.keyImage blockIndex segments = false
  outputs : Lineage.extractKeyOutputKeys now input.amount blockIndex
    (globalIndexes 0 input.outputIndexes) [] segments = .ok outputKeys
  count : blockIndex ≥ Parameters.transactionSignatureCountValidationHeight →
    outputKeys.length = (transaction.signatures.getD inputIndex []).length
  signed : primitives.checkRingSignature (primitives.getTransactionPrefixHash transaction)
    input.keyImage outputKeys (transaction.signatures.getD inputIndex []) = true

variable {now : UInt64} {segments : List Segment} {blockIndex : Nat}

theorem checkKeyInput_eq_ok {primitives : Primitives} {transaction : Transaction} {input : KeyInput} {inputIndex : Nat} :
    checkKeyInput primitives now segments blockIndex transaction input inputIndex = .ok () ↔
      ∃ outputKeys, ValidKeyInput primitives now segments blockIndex transaction input inputIndex
        outputKeys := by
  unfold checkKeyInput
  rw [rejectIf_bind_eq_ok, bind_eq_ok]
  constructor
  · rintro ⟨unspent, outputKeys, outputs, rest⟩
    obtain ⟨count, signed⟩ := rejectIf_bind_eq_ok.mp rest
    refine ⟨outputKeys, by simpa using unspent, mapError_eq_ok.mp outputs, ?_, ?_⟩
    · intro high
      by_contra differs
      exact count ⟨high, differs⟩
    · simpa using rejectIf_eq_ok.mp signed
  · rintro ⟨outputKeys, valid⟩
    refine ⟨by simp [valid.unspent], outputKeys, mapError_eq_ok.mpr valid.outputs, ?_⟩
    refine rejectIf_bind_eq_ok.mpr ⟨?_, rejectIf_eq_ok.mpr (by simpa using valid.signed)⟩
    rintro ⟨high, differs⟩
    exact differs (valid.count high)

section
variable {environment : Environment} {transactions : List CachedTransaction}
  {cumulativeFee : UInt64} (ran : validateTransactions environment now segments blockIndex
    transactions = .ok (cumulativeFee, state))
include ran

theorem validateTransactions_eq_ok :
    ∃ fees, List.Forall₂
        (fun cached fee =>
          ValidTransaction environment now segments blockIndex cached.transaction fee)
        transactions fees ∧
      cumulativeFee = fees.sum ∧
      state.spentKeyImages = transactions.flatMap (fun cached => cached.transaction.keyImages) ∧
      state.spentKeyImages.Nodup := by
  refine foldlM_invariant
    (fun done progress => ∃ fees, List.Forall₂
        (fun cached fee =>
          ValidTransaction environment now segments blockIndex cached.transaction fee)
        done fees ∧
      progress.1 = fees.sum ∧
      progress.2.spentKeyImages = done.flatMap (fun cached => cached.transaction.keyImages) ∧
      progress.2.spentKeyImages.Nodup)
    ran ⟨[], .nil, rfl, rfl, nodup_nil⟩ ?_
  rintro done cached ⟨sum, reached⟩ ⟨nextSum, next⟩ _ ⟨fees, valid, isSum, images, distinct⟩ step
  obtain ⟨⟨fee, state'⟩, checked, finished⟩ := bind_eq_ok.mp step
  cases finished
  obtain ⟨validHere, imagesHere, distinctHere⟩ := validateTransaction_eq_ok checked
  refine ⟨fees ++ [fee], rel_append valid (.cons validHere .nil), ?_, ?_,
    distinctHere distinct⟩
  · rw [isSum, sum_append, sum_singleton]
  · rw [imagesHere, images, flatMap_append, flatMap_singleton]

theorem validTransaction_of_mem {cached : CachedTransaction} (member : cached ∈ transactions) :
    ∃ fee, ValidTransaction environment now segments blockIndex cached.transaction fee := by
  obtain ⟨fees, valid, -⟩ := validateTransactions_eq_ok ran
  exact exists_of_forall₂ valid member

end

end Mevacoin
