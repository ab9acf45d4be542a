/-
A transaction that was sent and then cancelled. Sending locks the inputs that it takes,
cancelling gives back the locked inputs that were received in the cancelled transaction:
two different transactions, so the inputs stay locked.
-/

import Mathlib.Algebra.BigOperators.Group.List.Basic
import Mathlib.Data.UInt
import Mevacoin.Wallet.Entries
import Mevacoin.Wallet.Transfer

namespace Mevacoin
open List WalletTypes Wallet SubWallets

variable {wallets : SubWallets}

theorem SubWallet.getBalance_eq_of_perm {before after : SubWallet}
    (unspent : after.unspentInputs.Perm before.unspentInputs)
    (unconfirmed : after.unconfirmedIncomingAmounts.Perm before.unconfirmedIncomingAmounts)
    (now height : UInt64) : after.getBalance now height = before.getBalance now height := by
  unfold SubWallet.getBalance
  simp only [partition_eq_filter_filter]
  rw [Perm.sum_eq ((unspent.filter _).map _), Perm.sum_eq ((unspent.filter _).map _),
    Perm.sum_eq (unconfirmed.map _)]

namespace SubWallet

/-- The same inputs and unconfirmed amounts, in any order, and the same balances. -/
structure SameContents (before after : SubWallet) : Prop where
  unspent : after.unspentInputs.Perm before.unspentInputs
  locked : after.lockedInputs.Perm before.lockedInputs
  spent : after.spentInputs.Perm before.spentInputs
  unconfirmed : after.unconfirmedIncomingAmounts.Perm before.unconfirmedIncomingAmounts
  balance : ∀ now height, after.getBalance now height = before.getBalance now height

/-! ### What sending takes -/

/-- The unspent inputs that are locked for the chosen inputs: for each of them the first
one with its key image. -/
def takenInputs :
    List TxInputAndOwner → List WalletTypes.TransactionInput → List WalletTypes.TransactionInput
  | [], _ => []
  | chosen :: others, unspentInputs =>
    match takeInput chosen.input.keyImage unspentInputs with
    | some (input, rest) => input :: takenInputs others rest
    | none => []

theorem lockInputs_taken {chosen : List TxInputAndOwner} {before after : SubWallet}
    (ran : chosen.foldlM (fun subWallet input =>
      subWallet.markInputAsLocked input.input.keyImage) before = .ok after) :
    ∃ rest, before.unspentInputs.Perm (takenInputs chosen before.unspentInputs ++ rest) ∧
      after = { before with
        unspentInputs := rest
        lockedInputs := before.lockedInputs ++ takenInputs chosen before.unspentInputs } := by
  induction chosen generalizing before with
  | nil =>
    cases ran
    refine ⟨after.unspentInputs, .refl _, ?_⟩
    rw [takenInputs, append_nil]
  | cons chosen others ih =>
    obtain ⟨middle, first, rest⟩ := Checked.foldlM_cons_eq_ok.mp ran
    unfold markInputAsLocked at first
    rw [takenInputs]
    cases taken : takeInput chosen.input.keyImage before.unspentInputs with
    | none =>
      rw [taken] at first
      cases first
    | some found =>
      obtain ⟨input, unspent⟩ := found
      rw [taken] at first
      cases first
      obtain ⟨left, perm, isAfter⟩ := ih rest
      refine ⟨left, (FirstMatch.perm_of_take taken).trans (perm.cons input), ?_⟩
      rw [isAfter]
      simp

/-- A subwallet before and after a transaction was sent from the chosen inputs. -/
def Sent (txHash : Hash) (ourInputs : List TxInputAndOwner) (before after : SubWallet) : Prop :=
  let taken := takenInputs (stepsFor TxInputAndOwner.publicSpendKey ourInputs before)
    before.unspentInputs
  ∃ rest change, before.unspentInputs.Perm (taken ++ rest) ∧
    (∀ amount ∈ change, UnconfirmedInput.parentTransactionHash amount = txHash) ∧
    after = { before with
      unspentInputs := rest
      lockedInputs := before.lockedInputs ++ taken
      unconfirmedIncomingAmounts := before.unconfirmedIncomingAmounts ++ change }

/-- The condition under which cancelling undoes the transaction: each input that it takes
was received in the transaction itself, and nothing that was there before was. -/
structure Cancellable (txHash : Hash) (ourInputs : List TxInputAndOwner) (subWallet : SubWallet) :
    Prop where
  taken : ∀ input ∈ takenInputs
      (stepsFor TxInputAndOwner.publicSpendKey ourInputs subWallet)
      subWallet.unspentInputs,
    input.parentTransactionHash = txHash ∧ input.spendHeight = 0
  locked : ∀ input ∈ subWallet.lockedInputs, input.parentTransactionHash ≠ txHash
  unconfirmed : ∀ input ∈ subWallet.unconfirmedIncomingAmounts, input.parentTransactionHash ≠ txHash

/-! ### Cancelling one subwallet -/

theorem map_resetSpendHeight_of_zero {inputs : List WalletTypes.TransactionInput}
    (unspent : ∀ input ∈ inputs, input.spendHeight = 0) : inputs.map resetSpendHeight = inputs := by
  calc inputs.map resetSpendHeight = inputs.map id := by
        refine map_congr_left fun input member => ?_
        unfold resetSpendHeight
        rw [← unspent input member]
        rfl
    _ = inputs := map_id inputs

theorem spendHeight_of_perm_map {inputs : List WalletTypes.TransactionInput}
    (perm : (inputs.map resetSpendHeight).Perm inputs) :
    ∀ input ∈ inputs, input.spendHeight = 0 := by
  intro input member
  obtain ⟨other, _, isInput⟩ := mem_map.mp (perm.mem_iff.mpr member)
  rw [← isInput]
  rfl

variable {txHash : Hash} {ourInputs : List TxInputAndOwner} {before after : SubWallet}

theorem filter_notMem_of_ne {α : Type} {hashOf : α → Hash} {items : List α}
    (differ : ∀ item ∈ items, hashOf item ≠ txHash) :
    items.filter (fun item => hashOf item ∉ [txHash]) = items := by
  rw [filter_eq_self]
  intro item member
  simpa using differ item member

theorem filter_mem_of_ne {α : Type} {hashOf : α → Hash} {items : List α}
    (differ : ∀ item ∈ items, hashOf item ≠ txHash) :
    items.filter (fun item => hashOf item ∈ [txHash]) = [] := by
  rw [filter_eq_nil_iff]
  intro item member
  simpa using differ item member

theorem filter_mem_of_eq {α : Type} {hashOf : α → Hash} {items : List α}
    (same : ∀ item ∈ items, hashOf item = txHash) :
    items.filter (fun item => hashOf item ∈ [txHash]) = items := by
  rw [filter_eq_self]
  intro item member
  simpa using same item member

theorem filter_notMem_of_eq {α : Type} {hashOf : α → Hash} {items : List α}
    (same : ∀ item ∈ items, hashOf item = txHash) :
    items.filter (fun item => hashOf item ∉ [txHash]) = [] := by
  rw [filter_eq_nil_iff]
  intro item member
  simpa using same item member

theorem ne_of_perm_filter {α : Type} {hashOf : α → Hash} {items more : List α}
    (perm : (more.filter fun item => hashOf item ∉ [txHash]).Perm items) :
    ∀ item ∈ items, hashOf item ≠ txHash := by
  intro item member
  simpa using (mem_filter.mp (perm.mem_iff.mpr member)).2

theorem Sent.sameContents_of_cancellable (sent : Sent txHash ourInputs before after)
    (cancellable : Cancellable txHash ourInputs before) :
    SameContents before (after.removeCancelledTransactions [txHash]) := by
  obtain ⟨rest, change, perm, isChange, isAfter⟩ := sent
  have received := fun input member => (cancellable.taken input member).1
  have unspent : (after.removeCancelledTransactions [txHash]).unspentInputs.Perm
      before.unspentInputs := by
    rw [isAfter, removeCancelledTransactions]
    rw [filter_append, filter_mem_of_ne cancellable.locked, filter_mem_of_eq received, nil_append,
      map_resetSpendHeight_of_zero fun input member => (cancellable.taken input member).2]
    exact perm_append_comm.trans perm.symm
  have unconfirmed : (after.removeCancelledTransactions [txHash]).unconfirmedIncomingAmounts.Perm
      before.unconfirmedIncomingAmounts := by
    rw [isAfter, removeCancelledTransactions]
    dsimp only
    rw [filter_append, filter_notMem_of_ne cancellable.unconfirmed,
      filter_notMem_of_eq isChange, append_nil]
  refine ⟨unspent, ?_, ?_, unconfirmed, getBalance_eq_of_perm unspent unconfirmed⟩
  · rw [isAfter, removeCancelledTransactions]
    dsimp only
    rw [filter_append, filter_notMem_of_ne cancellable.locked, filter_notMem_of_eq received,
      append_nil]
  · rw [isAfter]
    exact .refl _

theorem Sent.cancellable_of_sameContents (sent : Sent txHash ourInputs before after)
    (same : SameContents before (after.removeCancelledTransactions [txHash])) :
    Cancellable txHash ourInputs before := by
  obtain ⟨rest, change, perm, isChange, isAfter⟩ := sent
  rw [isAfter, removeCancelledTransactions] at same
  -- The locked inputs that remain were not received in the transaction, and they are the
  -- ones from before: so every input that was taken has been given back.
  have lockedDiffer := ne_of_perm_filter same.locked
  have locked := same.locked
  dsimp only at locked
  rw [filter_append, filter_notMem_of_ne lockedDiffer] at locked
  have received : ∀ input ∈ takenInputs
      (stepsFor TxInputAndOwner.publicSpendKey ourInputs before) before.unspentInputs,
      input.parentTransactionHash = txHash := by
    simpa using locked.length_eq
  have unspent := same.unspent
  rw [filter_append, filter_mem_of_ne lockedDiffer, filter_mem_of_eq received,
    nil_append] at unspent
  have resetSame := (perm_append_left_iff rest).mp
    (unspent.trans (perm.trans perm_append_comm))
  exact ⟨fun input member => ⟨received input member, spendHeight_of_perm_map resetSame input member⟩,
    lockedDiffer, ne_of_perm_filter same.unconfirmed⟩

end SubWallet

/-! ### What is recorded about a sent transaction -/

namespace SendTransaction

def Credited (txHash : Hash) (before after : SubWallet) : Prop :=
  ∃ change, (∀ amount ∈ change, UnconfirmedInput.parentTransactionHash amount = txHash) ∧
    after = { before with
      unconfirmedIncomingAmounts := before.unconfirmedIncomingAmounts ++ change }

theorem Credited.refl (txHash : Hash) (subWallet : SubWallet) :
    Credited txHash subWallet subWallet :=
  ⟨[], nofun, by rw [append_nil]⟩

variable {txHash : Hash}

theorem Credited.trans {before middle after : SubWallet}
    (first : Credited txHash before middle) (second : Credited txHash middle after) :
    Credited txHash before after := by
  obtain ⟨change, isChange, isMiddle⟩ := first
  obtain ⟨more, isMore, isAfter⟩ := second
  refine ⟨change ++ more, ?_, ?_⟩
  · intro amount member
    exact (mem_append.mp member).elim (isChange amount) (isMore amount)
  · rw [isAfter, isMiddle, append_assoc]

theorem storeUnconfirmedIncomingInput_credits (input : UnconfirmedInput) {spendKey : PublicKey}
    (distinct : wallets.KeysDistinct) (isParent : input.parentTransactionHash = txHash) :
    ∃ entries, wallets.storeUnconfirmedIncomingInput input spendKey
        = { wallets with subWallets := entries } ∧
      List.Forall₂ (Credited txHash) wallets.subWallets entries := by
  unfold storeUnconfirmedIncomingInput
  split
  · rename_i changed updated
    obtain ⟨entries, isChanged, each⟩ := update_eq_ok distinct updated
    refine ⟨entries, isChanged, each.imp ?_⟩
    intro before after stepped
    split at stepped
    · cases stepped
      refine ⟨[input], ?_, rfl⟩
      intro amount member
      rw [mem_singleton.mp member]
      exact isParent
    · cases stepped
      exact Credited.refl txHash before
  · exact ⟨wallets.subWallets, rfl, List.forall₂_same.mpr fun _ _ => Credited.refl txHash _⟩

theorem keysDistinct_of_credits {entries : List SubWallet} (distinct : wallets.KeysDistinct)
    (credited : List.Forall₂ (Credited txHash) wallets.subWallets entries) :
    SubWallets.KeysDistinct { wallets with subWallets := entries } := by
  unfold SubWallets.KeysDistinct
  rw [map_key_of_forall₂ _ credited]
  · exact distinct
  · intro before after ⟨_, _, isAfter⟩
    rw [isAfter]

theorem storeUnconfirmedIncomingInputs_credits (crypto : WalletCrypto)
    (keyOutputs : List WalletTypes.KeyOutput) (txPublicKey : PublicKey) (txHash : Hash)
    (distinct : wallets.KeysDistinct) :
    ∃ entries, storeUnconfirmedIncomingInputs crypto keyOutputs txPublicKey txHash wallets
        = { wallets with subWallets := entries } ∧
      List.Forall₂ (Credited txHash) wallets.subWallets entries := by
  unfold storeUnconfirmedIncomingInputs
  induction keyOutputs.zipIdx generalizing wallets with
  | nil => exact ⟨_, rfl, List.forall₂_same.mpr fun _ _ => Credited.refl txHash _⟩
  | cons entry outputs ih =>
    obtain ⟨output, outputIndex⟩ := entry
    rw [foldl_cons]
    dsimp only
    split
    · obtain ⟨middle, isMiddle, first⟩ := storeUnconfirmedIncomingInput_credits
        ⟨output.amount, output.key, txHash⟩ distinct rfl
      rw [isMiddle]
      obtain ⟨entries, isAfter, rest⟩ := ih (keysDistinct_of_credits distinct first)
      exact ⟨entries, isAfter,
        forall₂_trans (fun _ _ _ one more => one.trans more) first rest⟩
    · exact ih distinct

theorem storeSentTransaction_subWallets {codec : AddressCodec} {fee : UInt64}
    {paymentID : Text} {ourInputs : List TxInputAndOwner} {changeAddress : Text}
    {changeRequired : UInt64} {after : SubWallets}
    (stored : storeSentTransaction codec txHash fee paymentID ourInputs changeAddress
      changeRequired wallets = .ok after) :
    ∃ locked, after = { wallets with lockedTransactions := locked } := by
  obtain ⟨_, _, added⟩ := Checked.bind_eq_ok.mp stored
  obtain ⟨_, finished⟩ := Checked.rejectIf_bind_eq_ok.mp added
  cases finished
  exact ⟨_, rfl⟩

theorem recordSent_eq_ok {context : TransferContext} {fee : UInt64}
    {paymentID : Text} {ourInputs : List TxInputAndOwner} {changeAddress : Text}
    {changeRequired : UInt64} {outputs : List WalletTypes.KeyOutput} {txKeyPair : KeyPair}
    {sent : SubWallets} {value : Unit} (distinct : wallets.KeysDistinct)
    (recorded : recordSent context txHash fee paymentID ourInputs changeAddress changeRequired
      outputs txKeyPair wallets = .ok value sent) :
    List.Forall₂ (SubWallet.Sent txHash ourInputs) wallets.subWallets sent.subWallets := by
  obtain ⟨_, stored, first, more⟩ := Sending.bind_eq_ok.mp recorded
  obtain ⟨lockedTransactions, isStored⟩ := storeSentTransaction_subWallets (Sending.step_eq_ok.mp first)
  obtain ⟨_, credited, second, more⟩ := Sending.bind_eq_ok.mp more
  obtain ⟨_, keyed, third, locks⟩ := Sending.bind_eq_ok.mp more
  cases second
  cases third
  have storedDistinct : stored.KeysDistinct := by
    rw [isStored]
    exact distinct
  obtain ⟨entries, isCredited, credits⟩ := storeUnconfirmedIncomingInputs_credits context.crypto
    outputs txKeyPair.publicKey txHash storedDistinct
  have locked := Sending.forM_step_eq_ok.mp locks
  rw [isCredited] at locked
  have keyedDistinct : (storeTxPrivateKey txKeyPair.secretKey txHash
      { stored with subWallets := entries }).KeysDistinct :=
    keysDistinct_of_credits storedDistinct credits
  obtain ⟨final, isSent, steps⟩ := lockInputs_eq_ok keyedDistinct locked
  rw [isSent]
  rw [isStored] at credits
  refine forall₂_trans ?_ credits steps
  intro before middle after ⟨change, isChange, isMiddle⟩ stepped
  obtain ⟨rest, perm, isAfter⟩ := SubWallet.lockInputs_taken stepped
  rw [isMiddle] at perm isAfter
  exact ⟨rest, change, perm, isChange, isAfter⟩

/-- Sending and cancelling restores every subwallet exactly when each of them is
cancellable. -/
theorem cancel_restores_iff {context : TransferContext} {txHash : Hash} {fee : UInt64}
    {paymentID : Text} {ourInputs : List TxInputAndOwner} {changeAddress : Text}
    {changeRequired : UInt64} {outputs : List WalletTypes.KeyOutput} {txKeyPair : KeyPair}
    {wallets sent cancelled : SubWallets} (distinct : wallets.KeysDistinct)
    (recorded : recordSent context txHash fee paymentID ourInputs changeAddress changeRequired
      outputs txKeyPair wallets = .ok () sent)
    (removed : sent.removeCancelledTransactions [txHash] = .ok cancelled) :
    List.Forall₂ SubWallet.SameContents wallets.subWallets cancelled.subWallets ↔
      ∀ subWallet ∈ wallets.subWallets, SubWallet.Cancellable txHash ourInputs subWallet := by
  obtain ⟨_, finished⟩ := SubWallets.throwIfViewWallet_bind_eq_ok.mp removed
  cases finished
  rw [List.forall₂_map_right_iff]
  refine forall₂_iff_forall ?_ (recordSent_eq_ok distinct recorded)
  intro before after isSent
  exact ⟨isSent.cancellable_of_sameContents, isSent.sameContents_of_cancellable⟩

/-! ### One input -/

/-- Reads every address as the one of the first spend key. -/
def flatCodec : AddressCodec :=
  { decodeAddr := fun text => some (publicAddressBase58Prefix, text)
    accountFromBinaryArray := fun _ => some ⟨⟨1⟩, ⟨1⟩⟩
    getAccountAddressAsStr := fun _ => []
    parseAccountAddressString := fun _ => some (publicAddressBase58Prefix, ⟨⟨1⟩, ⟨1⟩⟩) }

def fifthOutputWallet : SubWallets :=
  { subWallets :=
      [{ unspentInputs := [fifthOutput.input], publicSpendKey := ⟨1⟩, privateSpendKey := ⟨1⟩
         syncStartTimestamp := 0, syncStartHeight := 0, address := []
         isPrimaryAddress := true }]
    transactions := [], lockedTransactions := [], privateViewKey := ⟨5⟩, isViewWallet := false
    publicSpendKeys := [⟨1⟩], transactionPrivateKeys := [] }

/-- The wallet after it has sent the fifth output away with 40 as change. -/
def sentFifthOutput (txHash : Hash) : SubWallets :=
  { fifthOutputWallet with
    subWallets :=
      [{ lockedInputs := [fifthOutput.input]
         unconfirmedIncomingAmounts := [⟨40, ⟨1⟩, txHash⟩]
         publicSpendKey := ⟨1⟩, privateSpendKey := ⟨1⟩
         syncStartTimestamp := 0, syncStartHeight := 0, address := []
         isPrimaryAddress := true }]
    lockedTransactions :=
      [{ transfers := [(⟨1⟩, -60)], hash := txHash, fee := 10, timestamp := 0, blockHeight := 0
         paymentID := [], unlockTime := 0, isCoinbaseTransaction := false }]
    transactionPrivateKeys := [(txHash, ⟨6⟩)] }

theorem recordSent_fifthOutput (primitives : Primitives) (txHash : Hash) :
    recordSent ⟨flatCrypto, primitives, flatCodec⟩ txHash 10 [] [fifthOutput] [] 40
      [{ key := ⟨1⟩, amount := 40 }] ⟨⟨6⟩, ⟨6⟩⟩ fifthOutputWallet = .ok () (sentFifthOutput txHash) := by
  rfl

/-- Had the input been received in the sent transaction itself, it would come back. -/
theorem cancel_restores_own_output :
    (sentFifthOutput ⟨3⟩).removeCancelledTransactions [⟨3⟩]
        = .ok { fifthOutputWallet with transactionPrivateKeys := [(⟨3⟩, ⟨6⟩)] } ∧
      ∀ primitives, recordSent ⟨flatCrypto, primitives, flatCodec⟩ ⟨3⟩ 10 [] [fifthOutput] [] 40
          [{ key := ⟨1⟩, amount := 40 }] ⟨⟨6⟩, ⟨6⟩⟩ fifthOutputWallet
          = .ok () (sentFifthOutput ⟨3⟩) ∧
        List.Forall₂ SubWallet.SameContents fifthOutputWallet.subWallets
          fifthOutputWallet.subWallets := by
  have removed : (sentFifthOutput ⟨3⟩).removeCancelledTransactions [⟨3⟩]
      = .ok { fifthOutputWallet with transactionPrivateKeys := [(⟨3⟩, ⟨6⟩)] } := by
    decide +kernel
  refine ⟨removed, fun primitives => ⟨recordSent_fifthOutput primitives ⟨3⟩, ?_⟩⟩
  refine (cancel_restores_iff (by decide) (recordSent_fifthOutput primitives ⟨3⟩) removed).mpr ?_
  intro subWallet member
  rw [mem_singleton.mp member]
  exact ⟨by decide +kernel, nofun, nofun⟩

/-- As it was received elsewhere, it stays locked and the balance is gone. -/
theorem input_locked_after_cancelling :
    (fifthOutputWallet.subWallets.map fun subWallet => subWallet.getBalance 0 10) = [(100, 0)] ∧
      (∀ primitives, recordSent ⟨flatCrypto, primitives, flatCodec⟩ ⟨9⟩ 10 [] [fifthOutput] [] 40
        [{ key := ⟨1⟩, amount := 40 }] ⟨⟨6⟩, ⟨6⟩⟩ fifthOutputWallet
        = .ok () (sentFifthOutput ⟨9⟩)) ∧
      ∃ cancelled, (sentFifthOutput ⟨9⟩).removeCancelledTransactions [⟨9⟩] = .ok cancelled ∧
        (cancelled.subWallets.map fun subWallet => subWallet.getBalance 0 10) = [(0, 0)] ∧
        ¬List.Forall₂ SubWallet.SameContents fifthOutputWallet.subWallets
          cancelled.subWallets := by
  refine ⟨by decide +kernel, fun primitives => recordSent_fifthOutput primitives ⟨9⟩, _, rfl,
    by decide +kernel, ?_⟩
  intro restored
  cases restored with
  | cons same _ => exact absurd same.unspent.length_eq (by decide +kernel)

end SendTransaction
end Mevacoin
