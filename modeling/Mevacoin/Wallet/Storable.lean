/-
When a block is stored without an exception: the transactions that it adds are not
recorded yet, and no subwallet is asked to spend a key image more often than it has
inputs with it.
-/

import Mevacoin.Wallet.BlockEffects

namespace Mevacoin
open List WalletTypes Wallet Checked SubWallets SubWallet FirstMatch

variable {keyImage : KeyImage} {wallets : SubWallets} {inputs : List OwnedInput}
  {block : WalletBlockInfo}

/-! ### Spending -/

namespace SubWallet

def spendableImages (subWallet : SubWallet) : List KeyImage :=
  (subWallet.unspentInputs ++ subWallet.lockedInputs).map WalletTypes.TransactionInput.keyImage

theorem takeInput_eq_none_iff {inputs : List WalletTypes.TransactionInput} :
    takeInput keyImage inputs = none ↔
      keyImage ∉ inputs.map WalletTypes.TransactionInput.keyImage := by
  unfold takeInput
  rw [take_eq_none_iff]
  simp only [decide_eq_false_iff_not, mem_map, not_exists, not_and]

theorem exists_markInputAsSpent_iff {height : UInt64} {subWallet : SubWallet} :
    (∃ after, subWallet.markInputAsSpent keyImage height = .ok after) ↔
      keyImage ∈ subWallet.spendableImages := by
  unfold markInputAsSpent spendableImages
  rw [map_append, mem_append]
  cases unspent : takeInput keyImage subWallet.unspentInputs with
  | some taken =>
    have present : keyImage ∈ subWallet.unspentInputs.map
        WalletTypes.TransactionInput.keyImage := by
      by_contra absent
      rw [takeInput_eq_none_iff.mpr absent] at unspent
      cases unspent
    exact ⟨fun _ => .inl present, fun _ => ⟨_, rfl⟩⟩
  | none =>
    have absent := takeInput_eq_none_iff.mp unspent
    cases locked : takeInput keyImage subWallet.lockedInputs with
    | some taken =>
      have present : keyImage ∈ subWallet.lockedInputs.map
          WalletTypes.TransactionInput.keyImage := by
        by_contra absentLocked
        rw [takeInput_eq_none_iff.mpr absentLocked] at locked
        cases locked
      exact ⟨fun _ => .inr present, fun _ => ⟨_, rfl⟩⟩
    | none =>
      have absentLocked := takeInput_eq_none_iff.mp locked
      refine ⟨nofun, fun present => ?_⟩
      exact absurd present (not_or.mpr ⟨absent, absentLocked⟩)

theorem spendableImages_of_mark {height : UInt64}
    {before after : SubWallet} (marked : before.markInputAsSpent keyImage height = .ok after) :
    before.spendableImages.Perm (keyImage :: after.spendableImages) := by
  rcases markInputAsSpent_eq_ok marked with
    ⟨input, rest, taken, isAfter⟩ | ⟨input, rest, _, taken, isAfter⟩
  · have isImage : input.keyImage = keyImage := key_of_take taken
    rw [isAfter, ← isImage]
    exact ((perm_of_take taken).append_right _).map _
  · have isImage : input.keyImage = keyImage := key_of_take taken
    rw [isAfter, ← isImage]
    have moved := ((perm_of_take taken).append_left before.unspentInputs).trans
      perm_middle
    exact moved.map _

theorem exists_spend_iff {height : UInt64} {keyImages : List KeyImage} {subWallet : SubWallet} :
    (∃ after, subWallet.spend height keyImages = .ok after) ↔
      ∀ keyImage, keyImages.count keyImage ≤ subWallet.spendableImages.count keyImage := by
  induction keyImages generalizing subWallet with
  | nil => exact ⟨fun _ _ => Nat.zero_le _, fun _ => ⟨subWallet, rfl⟩⟩
  | cons keyImage keyImages ih =>
    constructor
    · intro ⟨after, ran⟩ wanted
      obtain ⟨middle, marked, rest⟩ := foldlM_cons_eq_ok.mp ran
      have later := ih.mp ⟨after, rest⟩ wanted
      rw [(spendableImages_of_mark marked).count_eq, count_cons, count_cons]
      omega
    · intro enough
      have present : keyImage ∈ subWallet.spendableImages := by
        have atLeast := enough keyImage
        rw [count_cons_self] at atLeast
        exact count_pos_iff.mp (by omega)
      obtain ⟨middle, marked⟩ := exists_markInputAsSpent_iff.mpr present
      have later : ∀ wanted, keyImages.count wanted ≤ middle.spendableImages.count wanted := by
        intro wanted
        have atLeast := enough wanted
        rw [(spendableImages_of_mark marked).count_eq, count_cons, count_cons] at atLeast
        omega
      obtain ⟨after, rest⟩ := ih.mpr later
      exact ⟨after, foldlM_cons_eq_ok.mpr ⟨middle, marked, rest⟩⟩

end SubWallet

theorem exists_addTransactions_iff {transactions : List WalletTypes.Transaction} :
    (∃ after, transactions.foldlM (fun wallets tx => wallets.addTransaction tx) wallets
        = .ok after) ↔
      (transactions.map WalletTypes.Transaction.hash).Nodup ∧
        ∀ tx ∈ transactions, ∀ other ∈ wallets.transactions, other.hash ≠ tx.hash := by
  induction transactions generalizing wallets with
  | nil => exact ⟨fun _ => ⟨.nil, nofun⟩, fun _ => ⟨wallets, rfl⟩⟩
  | cons tx transactions ih =>
    have stepped : (∃ after, (tx :: transactions).foldlM
          (fun wallets tx => wallets.addTransaction tx) wallets = .ok after) ↔
        (∀ other ∈ wallets.transactions, other.hash ≠ tx.hash) ∧
          ∃ after, transactions.foldlM (fun wallets tx => wallets.addTransaction tx)
            { wallets with
              lockedTransactions := wallets.lockedTransactions.filter fun other =>
                other.hash ≠ tx.hash
              transactions := wallets.transactions ++ [tx] } = .ok after := by
      constructor
      · intro ⟨after, ran⟩
        obtain ⟨middle, added, rest⟩ := foldlM_cons_eq_ok.mp ran
        obtain ⟨isNew, finished⟩ := rejectIf_bind_eq_ok.mp added
        cases finished
        exact ⟨fun other member same => isNew ⟨other, member, same⟩, after, rest⟩
      · intro ⟨isNew, after, rest⟩
        refine ⟨after, foldlM_cons_eq_ok.mpr ⟨_, rejectIf_bind_eq_ok.mpr
          ⟨fun ⟨other, member, same⟩ => isNew other member same, rfl⟩, rest⟩⟩
    rw [stepped, ih, map_cons, nodup_cons, forall_mem_cons]
    simp only [forall_mem_append, forall_mem_singleton, mem_map, not_exists, not_and]
    constructor
    · intro ⟨isNew, distinct, others⟩
      exact ⟨⟨fun other member same => (others other member).2 same.symm, distinct⟩, isNew,
        fun other member => (others other member).1⟩
    · intro ⟨⟨apart, distinct⟩, isNew, others⟩
      exact ⟨isNew, distinct, fun other member =>
        ⟨others other member, fun same => apart other member same.symm⟩⟩

/-! ### Storing a block -/

/-- The transactions are new, and no key image is spent more often than there are inputs
with it. -/
structure Storable (info : BlockScanTmpInfo) (wallets : SubWallets) : Prop where
  distinct : (info.transactionsToAdd.map WalletTypes.Transaction.hash).Nodup
  unknown : ∀ tx ∈ info.transactionsToAdd, ∀ other ∈ wallets.transactions, other.hash ≠ tx.hash
  spends : ∀ subWallet ∈ wallets.subWallets, ∀ keyImage,
    (keyImagesFor info.keyImagesToMarkSpent subWallet).count keyImage
      ≤ (((inputsFor info.inputsToAdd subWallet).map WalletTypes.TransactionInput.keyImage)
        ++ subWallet.spendableImages).count keyImage

theorem spendableImages_receive (isViewWallet : Bool) (inputs : List WalletTypes.TransactionInput)
    (subWallet : SubWallet) :
    (subWallet.receive isViewWallet inputs).spendableImages.Perm
      (inputs.map WalletTypes.TransactionInput.keyImage ++ subWallet.spendableImages) := by
  unfold spendableImages receive
  rw [← map_append]
  refine List.Perm.map _ ?_
  rw [← append_assoc]
  exact perm_append_comm.append_right _

/-- What the scan of a block gives is always about subwallets that exist. -/
structure Addressed (info : BlockScanTmpInfo) (wallets : SubWallets) : Prop where
  inputs : ∀ input ∈ info.inputsToAdd, input.1 ∈ wallets.subWallets.map publicSpendKey
  spends : ∀ spend ∈ info.keyImagesToMarkSpent,
    spend.1 ∈ wallets.subWallets.map publicSpendKey ∧ wallets.isViewWallet = false

theorem exists_storeInputs (distinct : wallets.KeysDistinct)
    (present : ∀ input ∈ inputs, input.1 ∈ wallets.subWallets.map publicSpendKey) :
    ∃ after, inputs.foldlM (fun wallets input =>
      wallets.storeTransactionInput input.1 input.2) wallets = .ok after := by
  refine exists_foldlM_update subwalletNotFound
    (fun (input : OwnedInput) subWallet =>
      .ok (subWallet.storeTransactionInput input.2 wallets.isViewWallet))
    ?_ ?_ rfl distinct present
    fun subWallet _ => ⟨_, foldlM_store wallets.isViewWallet _ subWallet⟩
  · intro input before after stored
    cases stored
    rfl
  · intro other input after isKind updated
    rw [← isKind] at updated
    exact updated

theorem exists_markSpent {spends : List (PublicKey × KeyImage)} {height : UInt64}
    {wallets : SubWallets} (distinct : wallets.KeysDistinct)
    (present : ∀ spend ∈ spends, spend.1 ∈ wallets.subWallets.map publicSpendKey ∧
      wallets.isViewWallet = false)
    (enough : ∀ subWallet ∈ wallets.subWallets, ∀ keyImage,
      (keyImagesFor spends subWallet).count keyImage ≤ subWallet.spendableImages.count keyImage) :
    ∃ after, spends.foldlM (fun wallets spend =>
      wallets.markInputAsSpent spend.2 spend.1 height) wallets = .ok after := by
  by_cases noSpends : spends = []
  · rw [noSpends]
    exact ⟨wallets, rfl⟩
  · obtain ⟨first, inside⟩ := exists_mem_of_ne_nil spends noSpends
    refine exists_foldlM_update mapOutOfRange
      (fun (spend : PublicKey × KeyImage) subWallet => subWallet.markInputAsSpent spend.2 height)
      (fun _ => keepsKey_markInputAsSpent _ _) ?_
      (present first inside).2 distinct (fun spend member => (present spend member).1) ?_
    · intro other spend after isKind updated
      exact throwIfViewWallet_bind_eq_ok.mpr ⟨isKind, updated⟩
    · intro subWallet member
      obtain ⟨after, ran⟩ := (@exists_spend_iff height _ subWallet).mpr
        (enough subWallet member)
      unfold spend keyImagesFor at ran
      rw [foldlM_map] at ran
      exact ⟨after, ran⟩

theorem exists_storeScanned_iff {info : BlockScanTmpInfo} {height : UInt64}
    {wallets : SubWallets} (distinct : wallets.KeysDistinct) (addressed : Addressed info wallets) :
    (∃ after, storeScanned info height wallets = .ok after) ↔ Storable info wallets := by
  constructor
  · rintro ⟨after, ran⟩
    obtain ⟨entries, _, each⟩ := storeScanned_eq_ok distinct ran
    obtain ⟨recorded, added, _⟩ := bind_eq_ok.mp ran
    obtain ⟨newHashes, unknown⟩ := exists_addTransactions_iff.mp ⟨recorded, added⟩
    refine ⟨newHashes, unknown, ?_⟩
    intro subWallet member keyImage
    obtain ⟨final, scanned⟩ := exists_of_forall₂ each member
    rw [← (spendableImages_receive wallets.isViewWallet _ subWallet).count_eq]
    exact exists_spend_iff.mp ⟨final, scanned⟩ keyImage
  · intro storable
    obtain ⟨recorded, added⟩ := exists_addTransactions_iff.mpr
      ⟨storable.distinct, storable.unknown⟩
    have isRecorded := addTransactions_eq_ok added
    have sameEntries : recorded.subWallets = wallets.subWallets := by rw [isRecorded]
    have sameKind : recorded.isViewWallet = wallets.isViewWallet := by rw [isRecorded]
    have recordedDistinct : recorded.KeysDistinct := by
      rw [SubWallets.KeysDistinct, sameEntries]
      exact distinct
    obtain ⟨stored, storedAll⟩ := exists_storeInputs recordedDistinct
      (by rw [sameEntries]; exact addressed.inputs)
    obtain ⟨middle, isStored, stores⟩ := storeInputs_eq_ok recordedDistinct storedAll
    rw [sameEntries] at stores
    have receives : List.Forall₂ (fun before after => after = before.receive recorded.isViewWallet
        (inputsFor info.inputsToAdd before)) wallets.subWallets middle := by
      refine stores.imp fun before after stepped => ?_
      rw [SubWallets.Stepped, foldlM_store] at stepped
      cases stepped
      rfl
    have sameKeys : middle.map publicSpendKey
        = wallets.subWallets.map publicSpendKey :=
      map_key_of_forall₂ (fun before after isAfter => by rw [isAfter]; rfl) receives
    have storedEntries : stored.subWallets = middle := by rw [isStored]
    have storedKind : stored.isViewWallet = wallets.isViewWallet := by
      rw [isStored]
      exact sameKind
    obtain ⟨after, marked⟩ := @exists_markSpent info.keyImagesToMarkSpent height stored
      (by rw [SubWallets.KeysDistinct, storedEntries, sameKeys]; exact distinct)
      (by rw [storedEntries, sameKeys, storedKind]; exact addressed.spends) (by
        rw [storedEntries]
        refine forall_mem_of_forall₂ (forall₂_imp_mem receives fun before inside after _ isAfter =>
          And.intro inside isAfter) (fun _ _ => trivial) ?_
        rintro before after ⟨inside, isAfter⟩ _ keyImage
        rw [isAfter, (spendableImages_receive _ _ before).count_eq]
        exact storable.spends before inside keyImage)
    exact ⟨after, bind_eq_ok.mpr ⟨recorded, added,
      bind_eq_ok.mpr ⟨stored, storedAll, marked⟩⟩⟩

/-! ### Scanning a block -/

/-- Every spend key that outputs are searched for has a subwallet. -/
def SubWallets.KeysKnown (wallets : SubWallets) : Prop :=
  ∀ key ∈ wallets.publicSpendKeys, key ∈ wallets.subWallets.map publicSpendKey

instance (wallets : SubWallets) : Decidable wallets.KeysKnown :=
  inferInstanceAs (Decidable (∀ _ ∈ _, _))

theorem exists_processBlockOutputs (crypto : WalletCrypto)
    (privateViewKey : SecretKey) (block : WalletBlockInfo) (known : wallets.KeysKnown) :
    ∃ ourInputs, processBlockOutputs crypto wallets privateViewKey block = .ok ourInputs := by
  have eachOutput : ∀ derivation rawTX output outputIndex, ∃ result,
      processOutput crypto wallets derivation rawTX block.blockHeight output outputIndex
        = .ok result := by
    intro derivation rawTX output outputIndex
    unfold processOutput
    dsimp only
    split
    · rename_i isOurs
      obtain ⟨subWallet, member, isKey⟩ := mem_map.mp (known _ isOurs)
      have found : (wallets.find (crypto.underivePublicKey derivation outputIndex output.key)).isSome := by
        rw [find, find?_isSome]
        exact ⟨subWallet, member, decide_eq_true isKey⟩
      obtain ⟨owner, isOwner⟩ := Option.isSome_iff_exists.mp found
      unfold SubWallets.getTxInputKeyImage
      rw [isOwner]
      exact ⟨_, rfl⟩
    · exact ⟨none, rfl⟩
  have eachTransaction : ∀ rawTX ∈ scannedTransactions block, ∃ inputs,
      processTransactionOutputs crypto wallets privateViewKey block.blockHeight rawTX
        = .ok inputs := by
    intro rawTX _
    have eachEntry : ∀ entry ∈ rawTX.keyOutputs.zipIdx, ∃ result,
        processOutput crypto wallets
          (crypto.generateKeyDerivation rawTX.transactionPublicKey privateViewKey) rawTX
          block.blockHeight entry.1 (UInt64.ofNat entry.2) = .ok result :=
      fun entry _ => eachOutput _ rawTX entry.1 _
    obtain ⟨results, ran⟩ := exists_mapM_ok eachEntry
    exact ⟨_, bind_eq_ok.mpr ⟨results, ran, rfl⟩⟩
  obtain ⟨perTransaction, ran⟩ := exists_mapM_ok eachTransaction
  exact ⟨_, bind_eq_ok.mpr ⟨perTransaction, ran, rfl⟩⟩

theorem getKeyImageOwner_eq_some {owner : PublicKey}
    (found : wallets.getKeyImageOwner keyImage = some owner) :
    owner ∈ wallets.subWallets.map publicSpendKey ∧ wallets.isViewWallet = false := by
  unfold getKeyImageOwner at found
  split at found
  · cases found
  · rename_i isFull
    obtain ⟨subWallet, isFound, isOwner⟩ := Option.map_eq_some_iff.mp found
    rw [← isOwner]
    exact ⟨mem_map_of_mem (mem_of_find?_eq_some isFound), Bool.eq_false_iff.mpr isFull⟩

theorem addressed_processBlockTransactions
    (owned : ∀ input ∈ inputs, input.1 ∈ wallets.subWallets.map publicSpendKey) :
    Addressed (processBlockTransactions wallets block inputs) wallets where
  inputs := owned
  spends := by
    intro spend member
    obtain ⟨processed, inProcessed, inSpends⟩ := mem_flatMap.mp member
    obtain ⟨rawTX, _, isProcessed⟩ := mem_map.mp inProcessed
    rw [← isProcessed] at inSpends
    unfold processTransaction at inSpends
    dsimp only at inSpends
    split at inSpends
    · cases inSpends
    · obtain ⟨own, isOwn, isSpend⟩ := mem_map.mp inSpends
      obtain ⟨input, _, isFound⟩ := mem_filterMap.mp isOwn
      obtain ⟨owner, found, isEntry⟩ := Option.map_eq_some_iff.mp isFound
      rw [← isSpend, ← isEntry]
      exact getKeyImageOwner_eq_some found

section
variable {crypto : WalletCrypto} {privateViewKey : SecretKey} {ourInputs : List OwnedInput}
  (known : wallets.KeysKnown)
  (found : processBlockOutputs crypto wallets privateViewKey block = .ok ourInputs)
include known found

theorem owned_of_found :
    ∀ input ∈ ourInputs, input.1 ∈ wallets.subWallets.map publicSpendKey := by
  refine processBlockOutputs_all ?_ found
  intro derivation rawTX output outputIndex input found
  unfold processOutput at found
  dsimp only at found
  split at found
  · rename_i isOurs
    obtain ⟨keyImage, _, finished⟩ := bind_eq_ok.mp found
    cases finished
    exact known _ isOurs
  · cases found

theorem exists_scanBlock_iff {daemon : GetGlobalIndexes} (distinct : wallets.KeysDistinct)
    (filled : ourInputs.mapM (fillGlobalIndex wallets.isViewWallet
      (getGlobalIndexes daemon block.blockHeight)) = some inputs) :
    (∃ after, scanBlock crypto privateViewKey daemon block wallets = .ok (some after)) ↔
      Storable (processBlockTransactions wallets block inputs) wallets := by
  have owned : ∀ input ∈ inputs, input.1 ∈ wallets.subWallets.map publicSpendKey := by
    refine forall_mem_of_forall₂ (mapM_eq_some_iff.mp filled) (owned_of_found known found) ?_
    intro input filled isFilled isOwned
    rw [(fillGlobalIndex_keeps isFilled).1]
    exact isOwned
  rw [← @exists_storeScanned_iff _ block.blockHeight _ distinct
    (addressed_processBlockTransactions owned)]
  constructor
  · intro ⟨after, scanned⟩
    obtain ⟨others, otherInputs, foundOthers, filledOthers, stored⟩ := scanBlock_eq_some scanned
    rw [found] at foundOthers
    cases foundOthers
    rw [filled] at filledOthers
    cases filledOthers
    exact ⟨after, stored⟩
  · intro ⟨after, stored⟩
    exact ⟨after, scanBlock_of_stored found filled stored⟩

end

end Mevacoin
