/-
Key images of stored inputs. Marking an input as spent, locking it and rolling back keep
the key images that a subwallet has; only new outputs add some.
-/

import Mathlib.Algebra.Order.BigOperators.Group.List
import Mevacoin.Wallet.Backend
import Mevacoin.Wallet.BlockEffects
import Mevacoin.Wallet.Rings

namespace Mevacoin
open WalletTypes Wallet Nat SubWallets SubWallet SendTransaction
open List (append_assoc map_append map_cons map_map map_nil sum_cons)

namespace SubWallet
variable {height : UInt64} {before after : SubWallet} {crypto : WalletCrypto}

def storedInputs (subWallet : SubWallet) : List WalletTypes.TransactionInput :=
  subWallet.unspentInputs ++ (subWallet.lockedInputs ++ subWallet.spentInputs)

def keyImages (subWallet : SubWallet) : List KeyImage :=
  subWallet.storedInputs.map WalletTypes.TransactionInput.keyImage

theorem keyImages_eq (subWallet : SubWallet) :
    subWallet.keyImages = subWallet.unspentInputs.map WalletTypes.TransactionInput.keyImage
      ++ (subWallet.lockedInputs.map WalletTypes.TransactionInput.keyImage
        ++ subWallet.spentInputs.map WalletTypes.TransactionInput.keyImage) := by
  simp [keyImages, storedInputs]

theorem keyImages_receive (isViewWallet : Bool) (inputs : List WalletTypes.TransactionInput)
    (subWallet : SubWallet) :
    (subWallet.receive isViewWallet inputs).keyImages.Perm
      (subWallet.keyImages ++ inputs.map WalletTypes.TransactionInput.keyImage) := by
  rw [keyImages_eq, keyImages_eq, receive]
  rw [map_append, append_assoc, append_assoc]
  exact List.perm_append_comm.append_left _

theorem keyImages_markInputAsSpent {keyImage : KeyImage}
    (marked : before.markInputAsSpent keyImage height = .ok after) :
    after.keyImages.Perm before.keyImages := by
  rw [List.perm_iff_count]
  intro image
  rw [keyImages_eq, keyImages_eq]
  rcases markInputAsSpent_eq_ok marked with
    ⟨input, rest, taken, isAfter⟩ | ⟨input, rest, _, taken, isAfter⟩
  all_goals
    have moved := ((FirstMatch.perm_of_take taken).map
      WalletTypes.TransactionInput.keyImage).count_eq image
    rw [isAfter]
    simp only [map_append, map_cons, map_nil, List.count_append, List.count_cons,
      List.count_nil] at moved ⊢
    omega

theorem keyImages_spend {keyImages : List KeyImage}
    (spent : before.spend height keyImages = .ok after) :
    after.keyImages.Perm before.keyImages := by
  induction keyImages generalizing before with
  | nil =>
    cases spent
    exact .refl _
  | cons keyImage keyImages ih =>
    obtain ⟨middle, marked, rest⟩ := Checked.foldlM_cons_eq_ok.mp spent
    exact (ih rest).trans (keyImages_markInputAsSpent marked)

theorem nodup_keyImages_removeForkedInputs {forkHeight : UInt64} {subWallet : SubWallet}
    (distinct : subWallet.keyImages.Nodup) :
    (subWallet.removeForkedInputs forkHeight).keyImages.Nodup := by
  have spentKept : ((subWallet.spentInputs.filter fun input => input.spendHeight ≥ forkHeight)
      ++ subWallet.spentInputs.filter fun input => ¬input.spendHeight ≥ forkHeight).Perm
      subWallet.spentInputs := by
    simpa only [decide_not] using List.filter_append_perm
      (fun input => decide (input.spendHeight ≥ forkHeight)) subWallet.spentInputs
  have sub : List.Sublist
      ((subWallet.unspentInputs.filter fun input => ¬input.blockHeight ≥ forkHeight)
        ++ ([] ++ subWallet.spentInputs)) subWallet.storedInputs :=
    List.filter_sublist.append ((List.nil_sublist _).append (.refl _))
  have keptDistinct := (sub.map WalletTypes.TransactionInput.keyImage).nodup distinct
  refine (List.Perm.nodup_iff ?_).mpr keptDistinct
  rw [keyImages_eq, removeForkedInputs]
  have resetImages : WalletTypes.TransactionInput.keyImage ∘ resetSpendHeight
      = WalletTypes.TransactionInput.keyImage := rfl
  rw [map_append, map_map, resetImages, append_assoc, map_append,
    map_nil, List.nil_append, List.nil_append, ← map_append]
  exact (spentKept.map _).append_left _

end SubWallet

/-! ### Blocks -/

/-- The key images of the stored inputs of each subwallet are distinct. -/
def SubWallets.ImagesDistinct (wallets : SubWallets) : Prop :=
  ∀ subWallet ∈ wallets.subWallets, subWallet.keyImages.Nodup

instance (wallets : SubWallets) : Decidable wallets.ImagesDistinct :=
  inferInstanceAs (Decidable (∀ _ ∈ _, _))

variable {block : WalletBlockInfo} {backend : WalletBackend}

theorem imagesDistinct_rollBackFor (distinct : backend.subWallets.ImagesDistinct) :
    (rollBackFor block backend).ImagesDistinct := by
  unfold rollBackFor
  split
  · intro subWallet member
    obtain ⟨before, inside, isSubWallet⟩ := List.mem_map.mp member
    rw [← isSubWallet]
    exact nodup_keyImages_removeForkedInputs (distinct before inside)
  · exact distinct

theorem keys_rollBackFor :
    (rollBackFor block backend).publicSpendKeys = backend.subWallets.publicSpendKeys ∧
    (rollBackFor block backend).subWallets.map SubWallet.publicSpendKey =
      backend.subWallets.subWallets.map SubWallet.publicSpendKey := by
  unfold rollBackFor
  split
  · exact ⟨rfl, map_map⟩
  · exact ⟨rfl, rfl⟩

theorem keysDistinct_rollBackFor
    (distinct : backend.subWallets.KeysDistinct) : (rollBackFor block backend).KeysDistinct := by
  rwa [SubWallets.KeysDistinct, keys_rollBackFor.2]

theorem keyImages_scanned {isViewWallet : Bool} {info : BlockScanTmpInfo}
    (scanned : Scanned isViewWallet info height before after) :
    after.keyImages.Perm (before.keyImages
      ++ (inputsFor info.inputsToAdd before).map WalletTypes.TransactionInput.keyImage) :=
  (keyImages_spend scanned).trans (keyImages_receive _ _ _)

theorem inputsFor_filled {isViewWallet : Bool} {globalIndexes : List (Hash × List UInt64)}
    {ourInputs inputs : List OwnedInput}
    (filled : ourInputs.mapM (fillGlobalIndex isViewWallet globalIndexes) = some inputs)
    (subWallet : SubWallet) :
    (inputsFor inputs subWallet).map WalletTypes.TransactionInput.keyImage
      = (inputsFor ourInputs subWallet).map WalletTypes.TransactionInput.keyImage := by
  have pairs := Checked.mapM_eq_some_iff.mp filled
  clear filled
  induction pairs with
  | nil => rfl
  | @cons input filled ourInputs inputs isFilled _ ih =>
    obtain ⟨sameOwner, sameImage⟩ := fillGlobalIndex_keeps isFilled
    unfold inputsFor stepsFor at ih ⊢
    rw [List.filter_cons, List.filter_cons, sameOwner]
    split
    · simp only [map_cons, sameImage, ih]
    · exact ih

/-- What a block has to bring so that the key images stay distinct: for each subwallet
the key images of the outputs that it stores are new and distinct. A block that is not
stored for want of a global index brings nothing. -/
def BringsNewImages (crypto : WalletCrypto) (daemon : GetGlobalIndexes) (block : WalletBlockInfo)
    (backend : WalletBackend) : Prop :=
  let wallets := rollBackFor block backend
  ∀ ourInputs, processBlockOutputs crypto wallets backend.walletSynchronizer.privateViewKey block
      = .ok ourInputs →
    (ourInputs.mapM (fillGlobalIndex wallets.isViewWallet
      (getGlobalIndexes daemon block.blockHeight))).isSome →
    ∀ subWallet ∈ wallets.subWallets,
      let images := (inputsFor ourInputs subWallet).map WalletTypes.TransactionInput.keyImage
      images.Nodup ∧ ∀ image ∈ images, image ∉ subWallet.keyImages

theorem nodup_append_iff_of_nodup {images more : List KeyImage} (distinct : images.Nodup) :
    (images ++ more).Nodup ↔ more.Nodup ∧ ∀ image ∈ more, image ∉ images := by
  rw [List.nodup_append]
  constructor
  · intro ⟨_, moreDistinct, apart⟩
    exact ⟨moreDistinct, fun image inMore inImages => apart image inImages image inMore rfl⟩
  · intro ⟨moreDistinct, apart⟩
    refine ⟨distinct, moreDistinct, ?_⟩
    intro image inImages other inMore same
    rw [same] at inImages
    exact apart other inMore inImages

/-- A block changes neither the keys nor which subwallets there are. -/
theorem keys_processBlock {daemon : GetGlobalIndexes} {after : WalletBackend}
    (distinct : backend.subWallets.KeysDistinct)
    (ran : processBlock crypto daemon block backend = .ok after) :
    after.subWallets.publicSpendKeys = backend.subWallets.publicSpendKeys ∧
    after.subWallets.subWallets.map SubWallet.publicSpendKey =
      backend.subWallets.subWallets.map SubWallet.publicSpendKey := by
  rw [← (@keys_rollBackFor block backend).1, ← (@keys_rollBackFor block backend).2]
  rcases processBlock_eq_ok.mp ran with ⟨_, isAfter⟩ | ⟨scanned, status, scan, _, isAfter⟩
  · rw [isAfter]
    exact ⟨rfl, rfl⟩
  · obtain ⟨_, _, _, _, stored⟩ := scanBlock_eq_some scan
    obtain ⟨entries, isScanned, each⟩ := storeScanned_eq_ok (keysDistinct_rollBackFor distinct) stored
    rw [isAfter, isScanned]
    exact ⟨rfl, map_key_of_forall₂ (fun _ _ => Scanned.publicSpendKey_eq) each⟩

theorem imagesDistinct_processBlock {daemon : GetGlobalIndexes} {after : WalletBackend}
    (keys : backend.subWallets.KeysDistinct) (images : backend.subWallets.ImagesDistinct)
    (ran : processBlock crypto daemon block backend = .ok after) :
    after.subWallets.ImagesDistinct ↔ BringsNewImages crypto daemon block backend := by
  have keptKeys := @keysDistinct_rollBackFor block _ keys
  have keptImages := @imagesDistinct_rollBackFor block _ images
  unfold BringsNewImages
  dsimp only
  rcases processBlock_eq_ok.mp ran with ⟨scan, isAfter⟩ | ⟨scanned, status, scan, _, isAfter⟩
  · obtain ⟨ourInputs, found, missing⟩ := scanBlock_eq_none scan
    rw [isAfter]
    refine ⟨?_, fun _ => keptImages⟩
    intro _ others same isSome
    rw [found] at same
    cases same
    rw [missing] at isSome
    cases isSome
  · obtain ⟨ourInputs, inputs, found, filled, stored⟩ := scanBlock_eq_some scan
    obtain ⟨entries, isScanned, each⟩ := storeScanned_eq_ok keptKeys stored
    have perSubWallet : after.subWallets.ImagesDistinct ↔
        ∀ subWallet ∈ (rollBackFor block backend).subWallets,
          (subWallet.keyImages ++ (inputsFor ourInputs subWallet).map
            WalletTypes.TransactionInput.keyImage).Nodup := by
      rw [isAfter, isScanned]
      refine forall_mem_iff_of_forall₂ ?_ each
      intro before after isScanned
      rw [(keyImages_scanned isScanned).nodup_iff, ← inputsFor_filled filled before]
      rfl
    rw [perSubWallet]
    constructor
    · intro distinct others same _ subWallet member
      rw [found] at same
      cases same
      exact (nodup_append_iff_of_nodup (keptImages subWallet member)).mp (distinct subWallet member)
    · intro bringsNew subWallet member
      exact (nodup_append_iff_of_nodup (keptImages subWallet member)).mpr
        (bringsNew ourInputs found (by rw [filled]; rfl) subWallet member)

/-! ### Balances -/

theorem toNat_sum_le (amounts : List UInt64) :
    amounts.sum.toNat ≤ (amounts.map UInt64.toNat).sum := by
  induction amounts with
  | nil => exact le_refl 0
  | cons amount amounts ih =>
    exact (Nat.mod_le _ _).trans (Nat.add_le_add_left ih _)

def spendableOnChain (inputs : List WalletTypes.TransactionInput) : Nat :=
  ((inputs.map WalletTypes.TransactionInput.keyImage).dedup.map fun keyImage =>
    ((inputs.filter fun input => input.keyImage = keyImage).map fun input =>
      input.amount.toNat).foldr max 0).sum

theorem le_foldr_max {amount : Nat} {amounts : List Nat} (member : amount ∈ amounts) :
    amount ≤ amounts.foldr max 0 := by
  induction amounts with
  | nil => cases member
  | cons head amounts ih =>
    rcases List.mem_cons.mp member with isHead | inTail
    · rw [isHead]
      exact le_max_left _ _
    · exact (ih inTail).trans (le_max_right _ _)

theorem sum_le_spendableOnChain {inputs : List WalletTypes.TransactionInput}
    (distinct : (inputs.map WalletTypes.TransactionInput.keyImage).Nodup) :
    (inputs.map fun input => input.amount.toNat).sum ≤ spendableOnChain inputs := by
  unfold spendableOnChain
  rw [distinct.dedup, map_map]
  refine List.sum_le_sum fun input member => le_foldr_max ?_
  refine List.mem_map.mpr ⟨input, List.mem_filter.mpr ⟨member, ?_⟩, rfl⟩
  exact decide_eq_true rfl

/-- With distinct key images the balance is covered by what can be spent, apart from
change that is not in a block yet. -/
theorem SubWallet.getBalance_le {subWallet : SubWallet} (distinct : subWallet.keyImages.Nodup)
    (now height : UInt64) :
    (subWallet.getBalance now height).1.toNat + (subWallet.getBalance now height).2.toNat
      ≤ spendableOnChain subWallet.unspentInputs
        + (subWallet.unconfirmedIncomingAmounts.map fun input => input.amount.toNat).sum := by
  have unspentDistinct : (subWallet.unspentInputs.map
      WalletTypes.TransactionInput.keyImage).Nodup := by
    rw [keyImages_eq] at distinct
    exact (List.nodup_append.mp distinct).1
  have covered := sum_le_spendableOnChain unspentDistinct
  have split := ((List.filter_append_perm (fun input => isInputUnlocked now input.unlockTime height)
    subWallet.unspentInputs).map fun input => input.amount.toNat).sum_eq
  rw [map_append, List.sum_append] at split
  have unlocked := toNat_sum_le ((subWallet.unspentInputs.filter fun input =>
    isInputUnlocked now input.unlockTime height).map WalletTypes.TransactionInput.amount)
  have locked := toNat_sum_le ((subWallet.unspentInputs.filter fun input =>
    !isInputUnlocked now input.unlockTime height).map WalletTypes.TransactionInput.amount)
  have unconfirmed := toNat_sum_le
    (subWallet.unconfirmedIncomingAmounts.map UnconfirmedInput.amount)
  rw [map_map] at unlocked locked unconfirmed
  unfold getBalance
  rw [List.partition_eq_filter_filter]
  rw [UInt64.toNat_add]
  simp only [Function.comp_def] at unlocked locked unconfirmed ⊢
  omega

namespace WalletBackend

theorem keysDistinct_scan
    {blocks : List (WalletBlockInfo × GetGlobalIndexes)} {start state : WalletBackend}
    (keys : start.subWallets.KeysDistinct) (ran : start.scan crypto blocks = .ok state) :
    state.subWallets.KeysDistinct := by
  refine Checked.foldlM_invariant (fun _ state => state.subWallets.KeysDistinct) ran keys ?_
  intro _ block before after _ distinct stepped
  rwa [SubWallets.KeysDistinct, (keys_processBlock distinct stepped).2]

end WalletBackend

/-! ### Two payments to one output key -/

def newWallet : WalletBackend :=
  { walletSynchronizer :=
      { syncStatus := {}, startTimestamp := 0, startHeight := 0, privateViewKey := ⟨5⟩ }
    subWallets :=
      { subWallets :=
          [{ publicSpendKey := ⟨1⟩, privateSpendKey := ⟨1⟩, syncStartTimestamp := 0
             syncStartHeight := 0, address := [], isPrimaryAddress := true }]
        transactions := [], lockedTransactions := [], privateViewKey := ⟨5⟩, isViewWallet := false
        publicSpendKeys := [⟨1⟩], transactionPrivateKeys := [] } }

def payment (hash : Hash) (globalOutputIndex : Option UInt64) : RawTransaction :=
  { keyOutputs := [{ key := ⟨1⟩, amount := 100, globalOutputIndex := globalOutputIndex }]
    hash := hash, transactionPublicKey := ⟨2⟩, unlockTime := 0, paymentID := [], keyInputs := [] }

def blockWith (height : UInt64) (blockHash : Hash) (transactions : List RawTransaction) :
    WalletBlockInfo :=
  { coinbaseTransaction :=
      { keyOutputs := [], hash := ⟨0⟩, transactionPublicKey := ⟨0⟩, unlockTime := 0 }
    transactions := transactions
    blockHeight := height, blockHash := blockHash, blockTimestamp := 0 }

end Mevacoin
