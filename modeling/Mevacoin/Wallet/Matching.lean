/-
Wallets that hold the same inputs, where only the order of unspent inputs with different
key images may differ.
-/

import Mevacoin.Wallet.BlockEffects

namespace Mevacoin
open WalletTypes Wallet Checked

variable {height : UInt64} {left' : SubWallets} {publicSpendKey : PublicKey}

/-! ### One subwallet -/

namespace SubWallet

def Matches (left right : SubWallet) : Prop :=
  ∃ inputs, right = { left with unspentInputs := inputs } ∧
    FirstMatch.SameQueues WalletTypes.TransactionInput.keyImage left.unspentInputs inputs

theorem Matches.refl (subWallet : SubWallet) : Matches subWallet subWallet :=
  ⟨subWallet.unspentInputs, rfl, .refl _⟩

theorem Matches.trans {left middle right : SubWallet} (first : Matches left middle)
    (second : Matches middle right) : Matches left right := by
  obtain ⟨_, isMiddle, firstSame⟩ := first
  obtain ⟨inputs, isRight, secondSame⟩ := second
  rw [isMiddle] at isRight secondSame
  exact ⟨inputs, isRight, firstSame.trans secondSame⟩

variable {left right : SubWallet}

section
variable (isMatch : Matches left right)
include isMatch

theorem Matches.hasKeyImage (keyImage : KeyImage) :
    right.hasKeyImage keyImage = left.hasKeyImage keyImage := by
  obtain ⟨inputs, isRight, same⟩ := isMatch
  rw [isRight]
  unfold SubWallet.hasKeyImage
  rw [same.perm.any_eq]

theorem Matches.storeTransactionInput (input : WalletTypes.TransactionInput) (isViewWallet : Bool) :
    Matches (left.storeTransactionInput input isViewWallet)
      (right.storeTransactionInput input isViewWallet) := by
  obtain ⟨inputs, isRight, same⟩ := isMatch
  rw [isRight]
  exact ⟨inputs ++ [input], rfl, same.append⟩

theorem Matches.markInputAsSpent {left' : SubWallet} {keyImage : KeyImage} (marked : left.markInputAsSpent keyImage height = .ok left') :
    ∃ right', right.markInputAsSpent keyImage height = .ok right' ∧ Matches left' right' := by
  obtain ⟨inputs, isRight, same⟩ := isMatch
  rw [isRight]
  rcases markInputAsSpent_eq_ok marked with
    ⟨input, rest, taken, isAfter⟩ | ⟨input, rest, absent, taken, isAfter⟩
  · obtain ⟨rightRest, rightTaken, restSame⟩ := same.take taken
    have takenRight : takeInput keyImage inputs = some (input, rightRest) := rightTaken
    refine ⟨_, by rw [SubWallet.markInputAsSpent, takenRight], ?_⟩
    rw [isAfter]
    exact ⟨rightRest, rfl, restSame⟩
  · have absentRight : takeInput keyImage inputs = none := same.take_eq_none absent
    refine ⟨_, by rw [SubWallet.markInputAsSpent, absentRight]; dsimp only; rw [taken], ?_⟩
    rw [isAfter]
    exact ⟨inputs, rfl, same⟩

theorem Matches.removeForkedInputs (forkHeight : UInt64) :
    Matches (left.removeForkedInputs forkHeight) (right.removeForkedInputs forkHeight) := by
  obtain ⟨inputs, isRight, same⟩ := isMatch
  rw [isRight]
  exact ⟨_, rfl, (same.filter _).append⟩

end
end SubWallet

/-! ### All subwallets -/

theorem find?_rel_of_forall₂ {α β : Type} {related : α → β → Prop} {leftTest : α → Bool}
    {rightTest : β → Bool} (same : ∀ left right, related left right →
      rightTest right = leftTest left) {left : List α} {right : List β}
    (pairs : List.Forall₂ related left right) :
    Option.Rel related (left.find? leftTest) (right.find? rightTest) := by
  induction pairs with
  | nil => exact .none
  | cons head _ ih =>
    rw [List.find?_cons, List.find?_cons, same _ _ head]
    split
    · exact .some head
    · exact ih

namespace SubWallets

def Matches (left right : SubWallets) : Prop :=
  ∃ entries, right = { left with subWallets := entries } ∧
    List.Forall₂ SubWallet.Matches left.subWallets entries

variable {left right : SubWallets}

theorem Matches.refl (wallets : SubWallets) : Matches wallets wallets :=
  ⟨wallets.subWallets, rfl, List.forall₂_same.mpr fun _ _ => .refl _⟩

theorem Matches.trans {middle : SubWallets} (first : Matches left middle)
    (second : Matches middle right) : Matches left right := by
  obtain ⟨_, isMiddle, firstEach⟩ := first
  obtain ⟨entries, isRight, secondEach⟩ := second
  rw [isMiddle] at isRight secondEach
  exact ⟨entries, isRight, forall₂_trans (fun _ _ _ one more => one.trans more) firstEach secondEach⟩

theorem Matches.find (matching : Matches left right) (publicSpendKey : PublicKey) :
    Option.Rel SubWallet.Matches (left.find publicSpendKey) (right.find publicSpendKey) := by
  obtain ⟨entries, isRight, each⟩ := matching
  rw [isRight]
  refine find?_rel_of_forall₂ ?_ each
  intro left right ⟨_, isRight, _⟩
  rw [isRight]

theorem Matches.getTxInputKeyImage (matching : Matches left right) (crypto : WalletCrypto)
    (publicSpendKey : PublicKey) (derivation : KeyDerivation) (outputIndex : UInt64) :
    right.getTxInputKeyImage crypto publicSpendKey derivation outputIndex
      = left.getTxInputKeyImage crypto publicSpendKey derivation outputIndex := by
  have found := matching.find publicSpendKey
  obtain ⟨entries, isRight, _⟩ := matching
  unfold SubWallets.getTxInputKeyImage
  revert found
  cases left.find publicSpendKey with
  | none =>
    intro found
    cases rightFound : right.find publicSpendKey with
    | none => rfl
    | some subWallet =>
      rw [rightFound] at found
      cases found
  | some subWallet =>
    intro found
    cases rightFound : right.find publicSpendKey with
    | none =>
      rw [rightFound] at found
      cases found
    | some other =>
      rw [rightFound] at found
      cases found with
      | some isMatch =>
        obtain ⟨_, isOther, _⟩ := isMatch
        rw [isOther, isRight]
        rfl

theorem Matches.getKeyImageOwner (matching : Matches left right) (keyImage : KeyImage) :
    right.getKeyImageOwner keyImage = left.getKeyImageOwner keyImage := by
  obtain ⟨entries, isRight, each⟩ := matching
  rw [isRight]
  unfold SubWallets.getKeyImageOwner
  split
  · rfl
  · have found := find?_rel_of_forall₂
      (fun (left right : SubWallet) (isMatch : SubWallet.Matches left right) =>
        isMatch.hasKeyImage keyImage) each
    revert found
    generalize left.subWallets.find? _ = leftFound
    generalize entries.find? _ = rightFound
    intro found
    cases found with
    | none => rfl
    | some isMatch =>
      obtain ⟨_, isOther, _⟩ := isMatch
      rw [isOther]
      rfl

theorem Matches.update {missing : Failure} {change : SubWallet → Except Failure SubWallet}
    (follows : ∀ left right left', SubWallet.Matches left right → change left = .ok left' →
      ∃ right', change right = .ok right' ∧ SubWallet.Matches left' right')
    (matching : Matches left right)
    (updated : left.update missing publicSpendKey change = .ok left') :
    ∃ right', right.update missing publicSpendKey change = .ok right' ∧ Matches left' right' := by
  obtain ⟨entries, isRight, each⟩ := matching
  obtain ⟨changed, ran, finished⟩ := bind_eq_ok.mp updated
  cases finished
  suffices entriesFollow : ∃ followed,
      updateEntry missing publicSpendKey change entries = .ok followed ∧
        List.Forall₂ SubWallet.Matches changed followed by
    obtain ⟨followed, ranRight, eachFollowed⟩ := entriesFollow
    refine ⟨{ right with subWallets := followed }, ?_, followed, ?_, eachFollowed⟩
    · rw [isRight]
      exact bind_eq_ok.mpr ⟨followed, ranRight, rfl⟩
    · rw [isRight]
  clear updated isRight
  generalize left.subWallets = originals at each ran
  induction each generalizing changed with
  | nil => cases ran
  | @cons entry other entries others isMatch rest ih =>
    obtain ⟨_, isOther, _⟩ := id isMatch
    have sameKey : other.publicSpendKey = entry.publicSpendKey := by rw [isOther]
    rw [updateEntry] at ran ⊢
    rw [sameKey]
    by_cases isKey : entry.publicSpendKey = publicSpendKey
    · rw [if_pos isKey] at ran ⊢
      obtain ⟨after, changedHead, finished⟩ := bind_eq_ok.mp ran
      cases finished
      obtain ⟨followed, ranRight, stillMatch⟩ := follows _ _ _ isMatch changedHead
      exact ⟨followed :: others, bind_eq_ok.mpr ⟨followed, ranRight, rfl⟩,
        .cons stillMatch rest⟩
    · rw [if_neg isKey] at ran ⊢
      obtain ⟨after, changedTail, finished⟩ := bind_eq_ok.mp ran
      cases finished
      obtain ⟨followed, ranRight, stillMatch⟩ := ih _ changedTail
      exact ⟨other :: followed, bind_eq_ok.mpr ⟨followed, ranRight, rfl⟩,
        .cons isMatch stillMatch⟩

section
variable (matching : Matches left right)
include matching

theorem Matches.addTransaction {tx : WalletTypes.Transaction} (added : left.addTransaction tx = .ok left') :
    ∃ right', right.addTransaction tx = .ok right' ∧ Matches left' right' := by
  obtain ⟨entries, isRight, each⟩ := matching
  obtain ⟨isNew, finished⟩ := rejectIf_bind_eq_ok.mp added
  cases finished
  rw [isRight]
  exact ⟨_, rejectIf_bind_eq_ok.mpr ⟨isNew, rfl⟩, entries, rfl, each⟩

theorem Matches.storeTransactionInput {input : WalletTypes.TransactionInput}
    (stored : left.storeTransactionInput publicSpendKey input = .ok left') :
    ∃ right', right.storeTransactionInput publicSpendKey input = .ok right' ∧
      Matches left' right' := by
  have sameKind : right.isViewWallet = left.isViewWallet := by
    obtain ⟨_, isRight, _⟩ := matching
    rw [isRight]
  unfold SubWallets.storeTransactionInput
  rw [sameKind]
  refine matching.update ?_ stored
  intro before other after isMatch ran
  cases ran
  exact ⟨_, rfl, isMatch.storeTransactionInput _ _⟩

theorem Matches.markInputAsSpent {keyImage : KeyImage}
    (marked : left.markInputAsSpent keyImage publicSpendKey height = .ok left') :
    ∃ right', right.markInputAsSpent keyImage publicSpendKey height = .ok right' ∧
      Matches left' right' := by
  obtain ⟨isFull, updated⟩ := throwIfViewWallet_bind_eq_ok.mp marked
  have rightFull : right.isViewWallet = false := by
    obtain ⟨_, isRight, _⟩ := matching
    rw [isRight]
    exact isFull
  obtain ⟨right', followed, stillMatch⟩ := matching.update
    (fun _ _ _ isMatch ran => SubWallet.Matches.markInputAsSpent isMatch ran) updated
  exact ⟨right', throwIfViewWallet_bind_eq_ok.mpr ⟨rightFull, followed⟩, stillMatch⟩

theorem Matches.removeForkedTransactions (forkHeight : UInt64) :
    Matches (left.removeForkedTransactions forkHeight)
      (right.removeForkedTransactions forkHeight) := by
  obtain ⟨entries, isRight, each⟩ := matching
  rw [isRight]
  refine ⟨_, rfl, ?_⟩
  rw [SubWallets.removeForkedTransactions, List.forall₂_map_left_iff, List.forall₂_map_right_iff]
  exact each.imp fun _ _ isMatch => isMatch.removeForkedInputs forkHeight

/-! ### Blocks -/

theorem Matches.processBlockOutputs (crypto : WalletCrypto)
    (privateViewKey : SecretKey) (block : WalletBlockInfo) :
    Mevacoin.processBlockOutputs crypto right privateViewKey block
      = Mevacoin.processBlockOutputs crypto left privateViewKey block := by
  have sameKeys : right.publicSpendKeys = left.publicSpendKeys := by
    obtain ⟨_, isRight, _⟩ := matching
    rw [isRight]
  have sameOutput : processOutput crypto right = processOutput crypto left := by
    unfold processOutput
    simp only [sameKeys, matching.getTxInputKeyImage]
  unfold Mevacoin.processBlockOutputs processTransactionOutputs
  rw [sameOutput]

theorem Matches.processBlockTransactions (block : WalletBlockInfo) (inputs : List OwnedInput) :
    Mevacoin.processBlockTransactions right block inputs
      = Mevacoin.processBlockTransactions left block inputs := by
  have sameSpends : ownSpends right = ownSpends left := by
    unfold ownSpends
    simp only [matching.getKeyImageOwner]
  have sameTransaction : processTransaction right = processTransaction left := by
    unfold processTransaction
    rw [sameSpends]
  unfold Mevacoin.processBlockTransactions
  rw [sameTransaction]

theorem Matches.storeScanned {info : BlockScanTmpInfo} (stored : storeScanned info height left = .ok left') :
    ∃ right', Mevacoin.storeScanned info height right = .ok right' ∧ Matches left' right' := by
  obtain ⟨recorded, added, stored⟩ := bind_eq_ok.mp stored
  obtain ⟨received, storedAll, marked⟩ := bind_eq_ok.mp stored
  obtain ⟨recorded', added', matching⟩ := foldlM_simulates
    (fun (left right : SubWallets) (tx : WalletTypes.Transaction) (left' : SubWallets)
        (matching : Matches left right) (ran : left.addTransaction tx = .ok left') =>
      matching.addTransaction ran) matching added
  obtain ⟨received', storedAll', matching⟩ := foldlM_simulates
    (fun (left right : SubWallets) (input : OwnedInput) (left' : SubWallets)
        (matching : Matches left right)
        (ran : left.storeTransactionInput input.1 input.2 = .ok left') =>
      matching.storeTransactionInput ran) matching storedAll
  obtain ⟨right', marked', matching⟩ := foldlM_simulates
    (fun (left right : SubWallets) (spend : PublicKey × KeyImage) (left' : SubWallets)
        (matching : Matches left right)
        (ran : left.markInputAsSpent spend.2 spend.1 height = .ok left') =>
      matching.markInputAsSpent ran) matching marked
  exact ⟨right', bind_eq_ok.mpr ⟨recorded', added',
    bind_eq_ok.mpr ⟨received', storedAll', marked'⟩⟩, matching⟩

theorem Matches.scanBlock {crypto : WalletCrypto} {privateViewKey : SecretKey}
    {daemon : GetGlobalIndexes} {block : WalletBlockInfo}
    (scanned : scanBlock crypto privateViewKey daemon block left = .ok (some left')) :
    ∃ right', Mevacoin.scanBlock crypto privateViewKey daemon block right = .ok (some right') ∧
      Matches left' right' := by
  obtain ⟨ourInputs, inputs, found, filled, stored⟩ := scanBlock_eq_some scanned
  obtain ⟨right', followed, stillMatch⟩ := matching.storeScanned stored
  have sameKind : right.isViewWallet = left.isViewWallet := by
    obtain ⟨_, isRight, _⟩ := matching
    rw [isRight]
  rw [← sameKind] at filled
  rw [← matching.processBlockTransactions] at followed
  exact ⟨right', scanBlock_of_stored ((matching.processBlockOutputs _ _ _).trans found) filled
    followed, stillMatch⟩

end
end SubWallets
end Mevacoin
