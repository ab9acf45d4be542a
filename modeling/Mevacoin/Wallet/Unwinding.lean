/-
What a rollback undoes. Rolling back to a height gives the state before the blocks from
there on, except for the inputs that both came in and were spent in between.
-/

import Mevacoin.Wallet.Matching

namespace Mevacoin
open List WalletTypes Wallet UInt64 Nat SubWallet FirstMatch WalletTypes.TransactionInput

variable {floor ceiling : Nat} {height forkHeight : UInt64} {left right : SubWallet}
  {wallets : SubWallets} {block : WalletBlockInfo}

/-! ### Blocks at or above a height -/

namespace SubWallet

structure Below (height : Nat) (subWallet : SubWallet) : Prop where
  unspent : ∀ input ∈ subWallet.unspentInputs,
    input.blockHeight.toNat < height ∧ input.spendHeight = 0
  spent : ∀ input ∈ subWallet.spentInputs,
    input.blockHeight.toNat < height ∧ input.spendHeight.toNat < height
  locked : subWallet.lockedInputs = []
  unconfirmed : subWallet.unconfirmedIncomingAmounts = []

def Grown (floor ceiling : Nat) (before after : SubWallet) : Prop :=
  ∃ received spent rest,
    after = { before with unspentInputs := rest, spentInputs := before.spentInputs ++ spent } ∧
    (∀ input ∈ received, (floor ≤ input.blockHeight.toNat ∧ input.blockHeight.toNat < ceiling) ∧
      input.spendHeight = 0) ∧
    (∀ input ∈ spent, floor ≤ input.spendHeight.toNat ∧ input.spendHeight.toNat < ceiling) ∧
    FirstMatch.SameQueues keyImage
      (before.unspentInputs ++ received) (spent.map resetSpendHeight ++ rest)

theorem Grown.refl (floor ceiling : Nat) (subWallet : SubWallet) :
    Grown floor ceiling subWallet subWallet := by
  refine ⟨[], [], subWallet.unspentInputs, by rw [append_nil], nofun, nofun, ?_⟩
  rw [append_nil]
  exact .refl _

variable {before after : SubWallet}

theorem Grown.trans {middleHeight : Nat} {middle : SubWallet}
    (below : middleHeight ≤ ceiling) (first : Grown floor middleHeight before middle)
    (second : Grown floor ceiling middle after) : Grown floor ceiling before after := by
  obtain ⟨received, spent, rest, isMiddle, receivedIn, spentIn, same⟩ := first
  obtain ⟨more, moreSpent, left, isAfter, moreIn, moreSpentIn, moreSame⟩ := second
  rw [isMiddle] at isAfter moreSame
  refine ⟨received ++ more, spent ++ moreSpent, left, ?_, ?_, ?_, ?_⟩
  · rw [isAfter, append_assoc]
  · intro input member
    rcases mem_append.mp member with inFirst | inSecond
    · obtain ⟨⟨high, low⟩, isUnspent⟩ := receivedIn input inFirst
      exact ⟨⟨high, low.trans_le below⟩, isUnspent⟩
    · exact moreIn input inSecond
  · intro input member
    rcases mem_append.mp member with inFirst | inSecond
    · obtain ⟨high, low⟩ := spentIn input inFirst
      exact ⟨high, low.trans_le below⟩
    · exact moreSpentIn input inSecond
  · rw [map_append, ← append_assoc, append_assoc (spent.map resetSpendHeight)]
    refine (same.append : FirstMatch.SameQueues _ _ _).trans ?_
    rw [append_assoc]
    exact moreSame.append_left _

theorem Grown.below (ordered : floor ≤ ceiling)
    (isBelow : Below floor before) (grown : Grown floor ceiling before after) :
    Below ceiling after := by
  obtain ⟨received, spent, rest, isAfter, receivedIn, spentIn, same⟩ := grown
  have origin : ∀ input ∈ spent.map resetSpendHeight ++ rest,
      input.blockHeight.toNat < ceiling ∧ input.spendHeight = 0 := by
    intro input member
    rcases mem_append.mp (same.perm.mem_iff.mpr member) with old | new
    · exact ⟨(isBelow.unspent input old).1.trans_le ordered, (isBelow.unspent input old).2⟩
    · exact ⟨(receivedIn input new).1.2, (receivedIn input new).2⟩
  rw [isAfter]
  refine ⟨fun input member => origin input (mem_append_right _ member), ?_,
    isBelow.locked, isBelow.unconfirmed⟩
  intro input member
  rcases mem_append.mp member with old | new
  · obtain ⟨receivedBelow, spentBelow⟩ := isBelow.spent input old
    exact ⟨receivedBelow.trans_le ordered, spentBelow.trans_le ordered⟩
  · exact ⟨(origin (resetSpendHeight input)
      (mem_append_left _ (mem_map_of_mem new))).1, (spentIn input new).2⟩

/-! ### One block -/

theorem resetSpendHeight_of_spent {input : WalletTypes.TransactionInput}
    (isUnspent : input.spendHeight = 0) :
    resetSpendHeight { input with spendHeight := height } = input := by
  unfold resetSpendHeight
  rw [← isUnspent]

theorem spend_eq_ok {keyImages : List KeyImage} (noLocked : before.lockedInputs = [])
    (unspent : ∀ input ∈ before.unspentInputs, input.spendHeight = 0)
    (ran : before.spend height keyImages = .ok after) :
    ∃ spent rest,
      after = { before with unspentInputs := rest, spentInputs := before.spentInputs ++ spent } ∧
      (∀ input ∈ spent, input.spendHeight = height) ∧
      FirstMatch.SameQueues keyImage before.unspentInputs
        (spent.map resetSpendHeight ++ rest) := by
  induction keyImages generalizing before with
  | nil =>
    cases ran
    exact ⟨[], after.unspentInputs, by rw [append_nil], nofun, .refl _⟩
  | cons keyImage keyImages ih =>
    obtain ⟨middle, marked, rest⟩ := Checked.foldlM_cons_eq_ok.mp ran
    rcases markInputAsSpent_eq_ok marked with
      ⟨input, left, taken, isMiddle⟩ | ⟨_, _, _, taken, _⟩
    · have moved := perm_of_take taken
      have sameFirst := sameQueues_of_take taken
      have inputUnspent := unspent input (moved.mem_iff.mpr mem_cons_self)
      have middleLocked : middle.lockedInputs = [] := by
        rw [isMiddle]
        exact noLocked
      have middleUnspent : ∀ other ∈ middle.unspentInputs, other.spendHeight = 0 := by
        intro other member
        rw [isMiddle] at member
        exact unspent other (moved.mem_iff.mpr (mem_cons_of_mem _ member))
      obtain ⟨spent, left', isAfter, spentAt, same⟩ := ih middleLocked middleUnspent rest
      rw [isMiddle] at isAfter same
      refine ⟨{ input with spendHeight := height } :: spent, left', ?_, ?_, ?_⟩
      · rw [isAfter]
        simp
      · intro other member
        rcases mem_cons.mp member with isFirst | later
        · rw [isFirst]
        · exact spentAt other later
      · rw [map_cons, resetSpendHeight_of_spent inputUnspent]
        exact sameFirst.trans (same.append_left [input])
    · rw [noLocked] at taken
      cases taken

theorem grown_of_scanned {isViewWallet : Bool} {info : BlockScanTmpInfo} {bound : Nat} (isBelow : Below bound before)
    (fromBlock : ∀ input ∈ info.inputsToAdd, input.2.blockHeight = height ∧ input.2.spendHeight = 0)
    (scanned : Scanned isViewWallet info height before after) :
    Grown height.toNat (height.toNat + 1) before after := by
  have receivedHere : ∀ input ∈ inputsFor info.inputsToAdd before,
      input.blockHeight = height ∧ input.spendHeight = 0 := by
    intro input member
    obtain ⟨owned, inside, isInput⟩ := mem_map.mp member
    rw [← isInput]
    exact fromBlock owned (mem_of_mem_filter inside)
  have unspentAll : ∀ input ∈ (before.receive isViewWallet
      (inputsFor info.inputsToAdd before)).unspentInputs, input.spendHeight = 0 := by
    intro input member
    rcases mem_append.mp member with old | new
    · exact (isBelow.unspent input old).2
    · exact (receivedHere input new).2
  have noLocked : (before.receive isViewWallet
      (inputsFor info.inputsToAdd before)).lockedInputs = [] := isBelow.locked
  obtain ⟨spent, rest, isAfter, spentAt, same⟩ := spend_eq_ok noLocked unspentAll scanned
  refine ⟨inputsFor info.inputsToAdd before, spent, rest, ?_, ?_, ?_, same⟩
  · rw [isAfter, receive, isBelow.unconfirmed]
    simp
  · intro input member
    obtain ⟨isHeight, isUnspent⟩ := receivedHere input member
    rw [isHeight]
    exact ⟨⟨le_refl _, lt_succ_self _⟩, isUnspent⟩
  · intro input member
    rw [spentAt input member]
    exact ⟨le_refl _, lt_succ_self _⟩

/-! ### Rolling one subwallet back -/

def SameUpToOrder (left right : SubWallet) : Prop :=
  ∃ inputs, right = { left with unspentInputs := inputs } ∧ left.unspentInputs.Perm inputs

theorem Matches.sameUpToOrder (isMatch : Matches left right) :
    SameUpToOrder left right := by
  obtain ⟨inputs, isRight, same⟩ := isMatch
  exact ⟨inputs, isRight, same.perm⟩

theorem SameUpToOrder.symm (same : SameUpToOrder left right) :
    SameUpToOrder right left := by
  obtain ⟨inputs, isRight, perm⟩ := same
  rw [isRight]
  exact ⟨left.unspentInputs, rfl, perm.symm⟩

theorem SameUpToOrder.trans {middle : SubWallet} (first : SameUpToOrder left middle)
    (second : SameUpToOrder middle right) : SameUpToOrder left right := by
  obtain ⟨_, isMiddle, firstPerm⟩ := first
  obtain ⟨inputs, isRight, secondPerm⟩ := second
  rw [isMiddle] at isRight secondPerm
  exact ⟨inputs, isRight, firstPerm.trans secondPerm⟩

def receivedBelow (forkHeight : UInt64) (inputs : List WalletTypes.TransactionInput) :
    List WalletTypes.TransactionInput :=
  inputs.filter fun input => ¬input.blockHeight ≥ forkHeight

theorem not_ge_iff :
    ¬height ≥ forkHeight ↔ height.toNat < forkHeight.toNat := by
  rw [ge_iff_le, le_iff_toNat_le, not_le]

theorem Grown.removeForkedInputs_eq (isBelow : Below forkHeight.toNat before)
    (grown : Grown forkHeight.toNat ceiling before after) :
    ∃ spent, after.spentInputs = before.spentInputs ++ spent ∧
      (∀ input ∈ spent, input.spendHeight ≥ forkHeight) ∧
      after.removeForkedInputs forkHeight = { before with
        unspentInputs := receivedBelow forkHeight after.unspentInputs
          ++ spent.map resetSpendHeight } ∧
      FirstMatch.SameQueues keyImage before.unspentInputs
        (receivedBelow forkHeight (spent.map resetSpendHeight)
          ++ receivedBelow forkHeight after.unspentInputs) := by
  obtain ⟨received, spent, rest, isAfter, receivedIn, spentIn, same⟩ := grown
  have spentHigh : ∀ input ∈ spent, input.spendHeight ≥ forkHeight :=
    fun input member => le_iff_toNat_le.mpr (spentIn input member).1
  have spentLow : ∀ input ∈ before.spentInputs, ¬input.spendHeight ≥ forkHeight :=
    fun input member => not_ge_iff.mpr (isBelow.spent input member).2
  refine ⟨spent, by rw [isAfter], spentHigh, ?_, ?_⟩
  · have newOnly : (before.spentInputs ++ spent).filter
        (fun input => input.spendHeight ≥ forkHeight) = spent := by
      rw [filter_append, filter_eq_nil_iff.mpr, filter_eq_self.mpr, nil_append]
      · exact fun input member => decide_eq_true (spentHigh input member)
      · intro input member isHigh
        exact spentLow input member (of_decide_eq_true isHigh)
    have oldOnly : (before.spentInputs ++ spent).filter
        (fun input => ¬input.spendHeight ≥ forkHeight) = before.spentInputs := by
      rw [filter_append, filter_eq_self.mpr, filter_eq_nil_iff.mpr, append_nil]
      · intro input member isLow
        exact of_decide_eq_true isLow (spentHigh input member)
      · exact fun input member => decide_eq_true (spentLow input member)
    rw [isAfter, removeForkedInputs]
    rw [newOnly, oldOnly, isBelow.locked.symm, isBelow.unconfirmed.symm]
    rfl
  · have filtered := same.filter fun input => ¬input.blockHeight ≥ forkHeight
    have oldKept : before.unspentInputs.filter (fun input => ¬input.blockHeight ≥ forkHeight)
        = before.unspentInputs := by
      rw [filter_eq_self]
      exact fun input member => decide_eq_true (not_ge_iff.mpr (isBelow.unspent input member).1)
    have newDropped : received.filter (fun input => ¬input.blockHeight ≥ forkHeight) = [] := by
      rw [filter_eq_nil_iff]
      intro input member isLow
      exact of_decide_eq_true isLow (le_iff_toNat_le.mpr (receivedIn input member).1.1)
    rw [filter_append, filter_append, oldKept, newDropped, append_nil] at filtered
    rw [isAfter]
    exact filtered

/-- No input was both received and spent at or above the height, and none that comes back
shares its key image with an unspent one. -/
def CleanRollback (forkHeight : UInt64) (subWallet : SubWallet) : Prop :=
  ∀ input ∈ subWallet.spentInputs, input.spendHeight ≥ forkHeight →
    ¬input.blockHeight ≥ forkHeight ∧
    ∀ other ∈ subWallet.unspentInputs, ¬other.blockHeight ≥ forkHeight →
      other.keyImage ≠ input.keyImage

theorem receivedBelow_map_reset {spent : List WalletTypes.TransactionInput}
    (received : ∀ input ∈ spent, ¬input.blockHeight ≥ forkHeight) :
    receivedBelow forkHeight (spent.map resetSpendHeight) = spent.map resetSpendHeight := by
  refine filter_eq_self.mpr fun input member => ?_
  obtain ⟨original, inside, isInput⟩ := mem_map.mp member
  rw [← isInput]
  exact decide_eq_true (received original inside)

section
variable (isBelow : Below forkHeight.toNat before) (grown : Grown forkHeight.toNat ceiling before after)
include isBelow grown

/-- A clean rollback leads back, up to the order of inputs with different key images. -/
theorem Grown.matches_of_clean (clean : CleanRollback forkHeight after) :
    Matches (after.removeForkedInputs forkHeight) before := by
  obtain ⟨spent, isSpent, spentHigh, isRolledBack, same⟩ := grown.removeForkedInputs_eq isBelow
  have spentClean := fun input (member : input ∈ spent) =>
    clean input (by rw [isSpent]; exact mem_append_right _ member) (spentHigh input member)
  rw [receivedBelow_map_reset fun input member => (spentClean input member).1] at same
  rw [isRolledBack]
  refine ⟨before.unspentInputs, rfl, (same.trans (sameQueues_append_comm ?_)).symm⟩
  intro first inSpent second inRest sameImage
  obtain ⟨original, inside, isFirst⟩ := mem_map.mp inSpent
  obtain ⟨inUnspent, isLow⟩ := mem_filter.mp inRest
  refine (spentClean original inside).2 second inUnspent (of_decide_eq_true isLow) ?_
  rw [← sameImage, ← isFirst]
  rfl

/-- Any rollback leads back up to order exactly when every spent input was received below
the height. -/
theorem Grown.sameUpToOrder_iff :
    SameUpToOrder (after.removeForkedInputs forkHeight) before ↔
      ∀ input ∈ after.spentInputs, ¬input.blockHeight ≥ forkHeight := by
  obtain ⟨spent, isSpent, spentHigh, isRolledBack, same⟩ := grown.removeForkedInputs_eq isBelow
  rw [isRolledBack, isSpent]
  constructor
  · intro ⟨inputs, isBefore, perm⟩
    have isInputs : inputs = before.unspentInputs :=
      (congrArg unspentInputs isBefore).symm
    rw [isInputs] at perm
    have lengths := (perm.trans same.perm).length_eq
    rw [length_append, length_append, add_comm, add_right_cancel_iff] at lengths
    have allLow := length_filter_eq_length_iff.mp lengths.symm
    intro input member
    rcases mem_append.mp member with old | new
    · exact not_ge_iff.mpr (isBelow.spent input old).1
    · exact of_decide_eq_true (allLow (resetSpendHeight input) (mem_map_of_mem new))
  · intro received
    rw [receivedBelow_map_reset fun input member =>
      received input (mem_append_right _ member)] at same
    exact ⟨before.unspentInputs, rfl, perm_append_comm.trans same.perm.symm⟩

end

theorem Below.mono {low high : Nat} {subWallet : SubWallet} (ordered : low ≤ high)
    (isBelow : Below low subWallet) : Below high subWallet where
  unspent := fun input member =>
    ⟨(isBelow.unspent input member).1.trans_le ordered, (isBelow.unspent input member).2⟩
  spent := fun input member =>
    ⟨(isBelow.spent input member).1.trans_le ordered, (isBelow.spent input member).2.trans_le ordered⟩
  locked := isBelow.locked
  unconfirmed := isBelow.unconfirmed

theorem Grown.mono {lower higher : Nat}
    (down : lower ≤ floor) (up : ceiling ≤ higher) (grown : Grown floor ceiling before after) :
    Grown lower higher before after := by
  obtain ⟨received, spent, rest, isAfter, receivedIn, spentIn, same⟩ := grown
  refine ⟨received, spent, rest, isAfter, ?_, ?_, same⟩
  · intro input member
    obtain ⟨⟨high, low⟩, isUnspent⟩ := receivedIn input member
    exact ⟨⟨down.trans high, low.trans_le up⟩, isUnspent⟩
  · intro input member
    obtain ⟨high, low⟩ := spentIn input member
    exact ⟨down.trans high, low.trans_le up⟩

theorem Below.removeForkedInputs_eq {subWallet : SubWallet}
    (isBelow : Below forkHeight.toNat subWallet) :
    subWallet.removeForkedInputs forkHeight = subWallet := by
  obtain ⟨spent, isSpent, _, isRolledBack, _⟩ :=
    (Grown.refl forkHeight.toNat forkHeight.toNat subWallet).removeForkedInputs_eq isBelow
  have noneSpent : spent = [] := by
    have lengths := congrArg List.length isSpent
    rw [length_append] at lengths
    exact length_eq_zero_iff.mp (by omega)
  have allKept : receivedBelow forkHeight subWallet.unspentInputs = subWallet.unspentInputs :=
    filter_eq_self.mpr fun input member =>
      decide_eq_true (not_ge_iff.mpr (isBelow.unspent input member).1)
  rw [isRolledBack, noneSpent, allKept, map_nil, append_nil]

end SubWallet

/-! ### All subwallets -/

variable {after : SubWallets}

namespace SubWallets

structure Below (height : Nat) (wallets : SubWallets) : Prop where
  subWallets : ∀ subWallet ∈ wallets.subWallets, subWallet.Below height
  transactions : ∀ tx ∈ wallets.transactions, tx.blockHeight.toNat < height
  lockedTransactions : wallets.lockedTransactions = []

def Grown (floor ceiling : Nat) (before after : SubWallets) : Prop :=
  ∃ entries, ∃ added : List WalletTypes.Transaction,
    after = { before with
      subWallets := entries, transactions := before.transactions ++ added } ∧
    (∀ tx ∈ added, floor ≤ tx.blockHeight.toNat ∧ tx.blockHeight.toNat < ceiling) ∧
    List.Forall₂ (SubWallet.Grown floor ceiling) before.subWallets entries

theorem Below.mono {low high : Nat} (ordered : low ≤ high)
    (isBelow : Below low wallets) : Below high wallets where
  subWallets := fun subWallet member => (isBelow.subWallets subWallet member).mono ordered
  transactions := fun tx member => (isBelow.transactions tx member).trans_le ordered
  lockedTransactions := isBelow.lockedTransactions

theorem Below.removeForkedTransactions_eq (isBelow : Below forkHeight.toNat wallets) :
    wallets.removeForkedTransactions forkHeight = wallets := by
  have sameEntries : wallets.subWallets.map (removeForkedInputs forkHeight)
      = wallets.subWallets := by
    calc wallets.subWallets.map (removeForkedInputs forkHeight)
        = wallets.subWallets.map id := map_congr_left fun subWallet member =>
          (isBelow.subWallets subWallet member).removeForkedInputs_eq
      _ = wallets.subWallets := map_id _
  have sameTransactions : wallets.transactions.filter (fun tx => ¬tx.blockHeight ≥ forkHeight)
      = wallets.transactions :=
    filter_eq_self.mpr fun tx member =>
      decide_eq_true (not_ge_iff.mpr (isBelow.transactions tx member))
  rw [removeForkedTransactions, sameEntries, sameTransactions]

theorem Grown.refl (floor ceiling : Nat) (wallets : SubWallets) :
    Grown floor ceiling wallets wallets :=
  ⟨wallets.subWallets, [], by rw [append_nil], nofun,
    List.forall₂_same.mpr fun _ _ => .refl _ _ _⟩

variable {before : SubWallets}

theorem Grown.mono {lower higher : Nat}
    (down : lower ≤ floor) (up : ceiling ≤ higher) (grown : Grown floor ceiling before after) :
    Grown lower higher before after := by
  obtain ⟨entries, added, isAfter, addedIn, each⟩ := grown
  refine ⟨entries, added, isAfter, ?_, each.imp fun _ _ one => one.mono down up⟩
  intro tx member
  obtain ⟨high, low⟩ := addedIn tx member
  exact ⟨down.trans high, low.trans_le up⟩

theorem Grown.trans {middleHeight : Nat} {middle : SubWallets}
    (below : middleHeight ≤ ceiling) (first : Grown floor middleHeight before middle)
    (second : Grown floor ceiling middle after) : Grown floor ceiling before after := by
  obtain ⟨_, added, isMiddle, addedIn, firstEach⟩ := first
  obtain ⟨entries, more, isAfter, moreIn, secondEach⟩ := second
  rw [isMiddle] at isAfter secondEach
  refine ⟨entries, added ++ more, by rw [isAfter, append_assoc], ?_,
    forall₂_trans (fun _ _ _ one more => one.trans below more) firstEach secondEach⟩
  intro tx member
  rcases mem_append.mp member with inFirst | inSecond
  · exact ⟨(addedIn tx inFirst).1, (addedIn tx inFirst).2.trans_le below⟩
  · exact moreIn tx inSecond

theorem Grown.below (ordered : floor ≤ ceiling)
    (isBelow : Below floor before) (grown : Grown floor ceiling before after) :
    Below ceiling after := by
  obtain ⟨entries, added, isAfter, addedIn, each⟩ := grown
  rw [isAfter]
  refine ⟨forall_mem_of_forall₂ each isBelow.subWallets fun _ _ one below =>
    one.below ordered below, ?_, isBelow.lockedTransactions⟩
  · intro tx member
    rcases mem_append.mp member with old | new
    · exact (isBelow.transactions tx old).trans_le ordered
    · exact (addedIn tx new).2

theorem Grown.transactions_below {low top : SubWallets}
    (isBelow : Below forkHeight.toNat low) (grown : Grown forkHeight.toNat ceiling low top) :
    (top.removeForkedTransactions forkHeight).transactions = low.transactions := by
  obtain ⟨entries, added, isTop, addedIn, _⟩ := grown
  rw [isTop, removeForkedTransactions]
  rw [filter_append, filter_eq_self.mpr, filter_eq_nil_iff.mpr, append_nil]
  · intro tx member isLow
    exact of_decide_eq_true isLow (le_iff_toNat_le.mpr (addedIn tx member).1)
  · intro tx member
    exact decide_eq_true (not_ge_iff.mpr (isBelow.transactions tx member))

theorem Grown.matches_of_clean {low top : SubWallets}
    (isBelow : Below forkHeight.toNat low) (grown : Grown forkHeight.toNat ceiling low top)
    (clean : ∀ subWallet ∈ top.subWallets, subWallet.CleanRollback forkHeight) :
    (top.removeForkedTransactions forkHeight).Matches low := by
  have sameTransactions := grown.transactions_below isBelow
  obtain ⟨entries, added, isTop, _, each⟩ := grown
  refine ⟨low.subWallets, ?_, ?_⟩
  · rw [sameTransactions, isTop]
    rfl
  · rw [isTop] at clean ⊢
    rw [removeForkedTransactions, List.forall₂_map_left_iff]
    refine (forall₂_imp_mem each fun before inLow after inTop one => ?_).flip
    exact one.matches_of_clean (isBelow.subWallets before inLow) (clean after inTop)

end SubWallets

/-! ### One block -/

def FromBlock (block : WalletBlockInfo) (input : OwnedInput) : Prop :=
  input.2.blockHeight = block.blockHeight ∧ input.2.spendHeight = 0

theorem processBlockOutputs_fromBlock {crypto : WalletCrypto}
    {privateViewKey : SecretKey} {ourInputs : List OwnedInput}
    (found : processBlockOutputs crypto wallets privateViewKey block = .ok ourInputs) :
    ∀ input ∈ ourInputs, FromBlock block input := by
  refine processBlockOutputs_all ?_ found
  intro derivation rawTX output outputIndex input found
  unfold processOutput at found
  dsimp only at found
  split at found
  · obtain ⟨keyImage, _, finished⟩ := Checked.bind_eq_ok.mp found
    cases finished
    exact ⟨rfl, rfl⟩
  · cases found

theorem fillGlobalIndex_fromBlock {isViewWallet : Bool}
    {globalIndexes : List (Hash × List UInt64)} {input filled : OwnedInput}
    (isFilled : fillGlobalIndex isViewWallet globalIndexes input = some filled)
    (fromBlock : FromBlock block input) : FromBlock block filled := by
  unfold fillGlobalIndex at isFilled
  split at isFilled
  · cases isFilled
    exact fromBlock
  · obtain ⟨entry, _, isFilled⟩ := Option.bind_eq_some_iff.mp isFilled
    obtain ⟨index, _, isFilled⟩ := Option.bind_eq_some_iff.mp isFilled
    cases isFilled
    exact fromBlock

theorem transactionsToAdd_blockHeight {inputs : List OwnedInput} :
    ∀ tx ∈ (processBlockTransactions wallets block inputs).transactionsToAdd,
      tx.blockHeight = block.blockHeight := by
  intro tx member
  rcases mem_append.mp member with coinbase | other
  · have isCoinbase := Option.mem_toList.mp coinbase
    unfold processCoinbaseTransaction at isCoinbase
    dsimp only at isCoinbase
    split at isCoinbase
    · cases isCoinbase
    · cases isCoinbase
      rfl
  · obtain ⟨processed, inProcessed, isTx⟩ := mem_filterMap.mp other
    obtain ⟨rawTX, _, isProcessed⟩ := mem_map.mp inProcessed
    rw [← isProcessed] at isTx
    unfold processTransaction at isTx
    dsimp only at isTx
    split at isTx
    · cases isTx
    · cases isTx
      rfl

theorem grown_of_scanBlock {crypto : WalletCrypto} {privateViewKey : SecretKey}
    {daemon : GetGlobalIndexes}
    {bound : Nat} (distinct : wallets.KeysDistinct) (isBelow : wallets.Below bound)
    (scanned : scanBlock crypto privateViewKey daemon block wallets = .ok (some after)) :
    SubWallets.Grown block.blockHeight.toNat (block.blockHeight.toNat + 1) wallets after := by
  obtain ⟨ourInputs, inputs, found, filled, stored⟩ := scanBlock_eq_some scanned
  obtain ⟨entries, isAfter, each⟩ := storeScanned_eq_ok distinct stored
  have fromBlock : ∀ input ∈ inputs, FromBlock block input :=
    forall_mem_of_forall₂ (Checked.mapM_eq_some_iff.mp filled) (processBlockOutputs_fromBlock found)
      fun _ _ => fillGlobalIndex_fromBlock
  refine ⟨entries, (processBlockTransactions wallets block inputs).transactionsToAdd, ?_, ?_, ?_⟩
  · rw [isAfter, isBelow.lockedTransactions, filter_nil]
  · intro tx member
    rw [transactionsToAdd_blockHeight tx member]
    exact ⟨le_refl _, lt_succ_self _⟩
  · refine forall₂_imp_mem each fun before member after _ scanned => ?_
    exact grown_of_scanned (isBelow.subWallets before member) fromBlock scanned

end Mevacoin
