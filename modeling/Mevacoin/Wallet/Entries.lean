/-
Loops that change the subwallets one key at a time. Since the keys of the map are
distinct, such a loop does to each subwallet what the steps for its own key do, and
nothing else.
-/

import Mevacoin.Wallet.SubWallets

namespace Mevacoin
open List WalletTypes Wallet Checked

variable {wallets after : SubWallets}

theorem forall₂_trans {α β γ : Type} {first : α → β → Prop} {second : β → γ → Prop}
    {both : α → γ → Prop} (compose : ∀ left middle right, first left middle →
      second middle right → both left right) {left : List α} {middle : List β} {right : List γ}
    (leftMiddle : List.Forall₂ first left middle)
    (middleRight : List.Forall₂ second middle right) : List.Forall₂ both left right := by
  induction leftMiddle generalizing right with
  | nil =>
    cases middleRight
    exact .nil
  | cons head _ ih =>
    cases middleRight with
    | cons secondHead secondTail =>
      exact .cons (compose _ _ _ head secondHead) (ih secondTail)

theorem forall₂_iff_forall {α β : Type} {related wanted : α → β → Prop} {holds : α → Prop}
    (each : ∀ left right, related left right → (wanted left right ↔ holds left))
    {left : List α} {right : List β} (pairs : List.Forall₂ related left right) :
    List.Forall₂ wanted left right ↔ ∀ item ∈ left, holds item := by
  induction pairs with
  | nil => exact ⟨nofun, fun _ => .nil⟩
  | cons head _ ih => rw [List.forall₂_cons, forall_mem_cons, each _ _ head, ih]

theorem forall_mem_iff_of_forall₂ {α β : Type} {related : α → β → Prop} {holdsLeft : α → Prop}
    {holdsRight : β → Prop} (each : ∀ left right, related left right →
      (holdsRight right ↔ holdsLeft left))
    {left : List α} {right : List β} (pairs : List.Forall₂ related left right) :
    (∀ item ∈ right, holdsRight item) ↔ ∀ item ∈ left, holdsLeft item := by
  induction pairs with
  | nil => exact ⟨nofun, nofun⟩
  | cons head _ ih => rw [forall_mem_cons, forall_mem_cons, each _ _ head, ih]

theorem forall₂_imp_mem {α β : Type} {related wanted : α → β → Prop} {left : List α}
    {right : List β} (pairs : List.Forall₂ related left right)
    (each : ∀ first ∈ left, ∀ second ∈ right, related first second → wanted first second) :
    List.Forall₂ wanted left right := by
  obtain ⟨sameLength, zipped⟩ := List.forall₂_iff_zip.mp pairs
  refine List.forall₂_iff_zip.mpr ⟨sameLength, fun {first second} member => ?_⟩
  exact each first (of_mem_zip member).1 second (of_mem_zip member).2 (zipped member)

theorem forall_mem_of_forall₂ {α β : Type} {related : α → β → Prop} {holdsLeft : α → Prop}
    {holdsRight : β → Prop} {left : List α} {right : List β}
    (pairs : List.Forall₂ related left right) (all : ∀ item ∈ left, holdsLeft item)
    (each : ∀ left right, related left right → holdsLeft left → holdsRight right) :
    ∀ item ∈ right, holdsRight item := by
  induction pairs with
  | nil => exact nofun
  | cons head _ ih =>
    rw [forall_mem_cons] at all ⊢
    exact ⟨each _ _ head all.1, ih all.2⟩

namespace SubWallets
variable {α : Type} {missing : Failure}

def KeysDistinct (wallets : SubWallets) : Prop :=
  (wallets.subWallets.map SubWallet.publicSpendKey).Nodup

instance (wallets : SubWallets) : Decidable wallets.KeysDistinct :=
  inferInstanceAs (Decidable (List.Nodup _))

/-- The change does not touch the key of the subwallet. -/
def KeepsKey (change : SubWallet → Except Failure SubWallet) : Prop :=
  ∀ subWallet changed, change subWallet = .ok changed →
    changed.publicSpendKey = subWallet.publicSpendKey

variable {publicSpendKey : PublicKey}

theorem updateEntry_forall₂ {change : SubWallet → Except Failure SubWallet}
    {entries changed : List SubWallet} (distinct : (entries.map SubWallet.publicSpendKey).Nodup)
    (ran : updateEntry missing publicSpendKey change entries = .ok changed) :
    List.Forall₂ (fun before after =>
      (if before.publicSpendKey = publicSpendKey then change before else .ok before)
        = .ok after) entries changed := by
  induction entries generalizing changed with
  | nil => cases ran
  | cons entry entries ih =>
    obtain ⟨fresh, rest⟩ := nodup_cons.mp distinct
    rw [updateEntry] at ran
    by_cases isKey : entry.publicSpendKey = publicSpendKey
    · rw [if_pos isKey] at ran
      obtain ⟨after, changedHead, finished⟩ := bind_eq_ok.mp ran
      cases finished
      refine .cons (by rw [if_pos isKey]; exact changedHead) ?_
      rw [List.forall₂_same]
      intro other member
      refine if_neg fun isOther => fresh ?_
      rw [isKey, ← isOther]
      exact mem_map_of_mem member
    · rw [if_neg isKey] at ran
      obtain ⟨after, changedTail, finished⟩ := bind_eq_ok.mp ran
      cases finished
      exact .cons (by rw [if_neg isKey]) (ih rest changedTail)

theorem update_eq_ok {change : SubWallet → Except Failure SubWallet}
    (distinct : wallets.KeysDistinct)
    (ran : wallets.update missing publicSpendKey change = .ok after) :
    ∃ entries, after = { wallets with subWallets := entries } ∧
      List.Forall₂ (fun before after =>
        (if before.publicSpendKey = publicSpendKey then change before else .ok before)
          = .ok after) wallets.subWallets entries := by
  obtain ⟨entries, updated, finished⟩ := bind_eq_ok.mp ran
  cases finished
  exact ⟨entries, rfl, updateEntry_forall₂ distinct updated⟩

def stepsFor (keyOf : α → PublicKey) (items : List α) (subWallet : SubWallet) : List α :=
  items.filter fun item => keyOf item = subWallet.publicSpendKey

/-- A subwallet before and after the steps that are meant for it. -/
def Stepped (keyOf : α → PublicKey) (change : α → SubWallet → Except Failure SubWallet)
    (items : List α) (before after : SubWallet) : Prop :=
  (stepsFor keyOf items before).foldlM (fun subWallet item => change item subWallet) before
    = .ok after

theorem map_key_of_forall₂ {relation : SubWallet → SubWallet → Prop}
    (keeps : ∀ before after, relation before after → after.publicSpendKey = before.publicSpendKey)
    {entries changed : List SubWallet} (related : List.Forall₂ relation entries changed) :
    changed.map SubWallet.publicSpendKey = entries.map SubWallet.publicSpendKey := by
  induction related with
  | nil => rfl
  | cons head _ ih => rw [map_cons, map_cons, keeps _ _ head, ih]

theorem foldlM_update_eq_ok {keyOf : α → PublicKey} {kind : Bool}
    {step : SubWallets → α → Except Failure SubWallets}
    {change : α → SubWallet → Except Failure SubWallet} (keeps : ∀ item, KeepsKey (change item))
    (updates : ∀ wallets item after, wallets.isViewWallet = kind → step wallets item = .ok after →
      ∃ missing, wallets.update missing (keyOf item) (change item) = .ok after)
    {items : List α} (isKind : wallets.isViewWallet = kind)
    (distinct : wallets.KeysDistinct) (ran : items.foldlM step wallets = .ok after) :
    ∃ entries, after = { wallets with subWallets := entries } ∧
      List.Forall₂ (Stepped keyOf change items) wallets.subWallets entries := by
  induction items generalizing wallets with
  | nil =>
    cases ran
    exact ⟨_, rfl, List.forall₂_same.mpr fun _ _ => rfl⟩
  | cons item items ih =>
    obtain ⟨middle, first, rest⟩ := foldlM_cons_eq_ok.mp ran
    obtain ⟨missing, updated⟩ := updates _ _ _ isKind first
    obtain ⟨changed, isMiddle, one⟩ := update_eq_ok distinct updated
    have keepsOne : ∀ before after : SubWallet,
        (if before.publicSpendKey = keyOf item then change item before else .ok before)
          = .ok after → after.publicSpendKey = before.publicSpendKey := by
      intro before after stepped
      split at stepped
      · exact keeps item before after stepped
      · cases stepped
        rfl
    have sameKeys := map_key_of_forall₂ keepsOne one
    have stillDistinct : middle.KeysDistinct := by
      rw [isMiddle, KeysDistinct, sameKeys]
      exact distinct
    have stillKind : middle.isViewWallet = kind := by
      rw [isMiddle]
      exact isKind
    obtain ⟨entries, isAfter, others⟩ := ih stillKind stillDistinct rest
    refine ⟨entries, ?_, ?_⟩
    · rw [isAfter, isMiddle]
    · rw [isMiddle] at others
      refine forall₂_trans ?_ one others
      intro before between last stepped laterSteps
      have sameKey := keepsOne before between stepped
      unfold Stepped stepsFor at laterSteps ⊢
      rw [sameKey] at laterSteps
      by_cases isKey : keyOf item = before.publicSpendKey
      · rw [if_pos isKey.symm] at stepped
        rw [filter_cons_of_pos (by simpa using isKey)]
        exact foldlM_cons_eq_ok.mpr ⟨between, stepped, laterSteps⟩
      · rw [if_neg (Ne.symm isKey)] at stepped
        cases stepped
        rw [filter_cons_of_neg (by simpa using isKey)]
        exact laterSteps

theorem exists_updateEntry {change : SubWallet → Except Failure SubWallet}
    {entries : List SubWallet} (present : publicSpendKey ∈ entries.map SubWallet.publicSpendKey)
    (works : ∀ subWallet ∈ entries, subWallet.publicSpendKey = publicSpendKey →
      ∃ changed, change subWallet = .ok changed) :
    ∃ changed, updateEntry missing publicSpendKey change entries = .ok changed := by
  induction entries with
  | nil => cases present
  | cons entry entries ih =>
    rw [updateEntry]
    rw [forall_mem_cons] at works
    by_cases isKey : entry.publicSpendKey = publicSpendKey
    · obtain ⟨changed, ran⟩ := works.1 isKey
      rw [if_pos isKey]
      exact ⟨changed :: entries, bind_eq_ok.mpr ⟨changed, ran, rfl⟩⟩
    · have later : publicSpendKey ∈ entries.map SubWallet.publicSpendKey :=
        (mem_cons.mp present).resolve_left (Ne.symm isKey)
      obtain ⟨changed, ran⟩ := ih later works.2
      rw [if_neg isKey]
      exact ⟨entry :: changed, bind_eq_ok.mpr ⟨changed, ran, rfl⟩⟩

theorem exists_foldlM_update (missing : Failure) {keyOf : α → PublicKey} {kind : Bool}
    {step : SubWallets → α → Except Failure SubWallets}
    (change : α → SubWallet → Except Failure SubWallet) (keeps : ∀ item, KeepsKey (change item))
    (steps : ∀ wallets item after, wallets.isViewWallet = kind →
      wallets.update missing (keyOf item) (change item) = .ok after → step wallets item = .ok after)
    {items : List α} (isKind : wallets.isViewWallet = kind) (distinct : wallets.KeysDistinct)
    (present : ∀ item ∈ items, keyOf item ∈ wallets.subWallets.map SubWallet.publicSpendKey)
    (works : ∀ subWallet ∈ wallets.subWallets, ∃ after, Stepped keyOf change items subWallet after) :
    ∃ after, items.foldlM step wallets = .ok after := by
  induction items generalizing wallets with
  | nil => exact ⟨wallets, rfl⟩
  | cons item items ih =>
    rw [forall_mem_cons] at present
    have split : ∀ subWallet ∈ wallets.subWallets, subWallet.publicSpendKey = keyOf item →
        ∃ middle after, change item subWallet = .ok middle ∧
          Stepped keyOf change items middle after := by
      intro subWallet member isKey
      obtain ⟨after, ran⟩ := works subWallet member
      unfold Stepped stepsFor at ran
      rw [filter_cons_of_pos (by simpa using isKey.symm)] at ran
      obtain ⟨middle, first, rest⟩ := foldlM_cons_eq_ok.mp ran
      refine ⟨middle, after, first, ?_⟩
      unfold Stepped stepsFor
      rw [keeps item _ _ first]
      exact rest
    obtain ⟨changed, updated⟩ := @exists_updateEntry missing (keyOf item) (change item)
      wallets.subWallets present.1 fun subWallet member isKey => by
        obtain ⟨middle, _, first, _⟩ := split subWallet member isKey
        exact ⟨middle, first⟩
    have isUpdated : wallets.update missing (keyOf item) (change item)
        = .ok { wallets with subWallets := changed } :=
      bind_eq_ok.mpr ⟨changed, updated, rfl⟩
    have one := updateEntry_forall₂ distinct updated
    have sameKeys := map_key_of_forall₂ (fun before after stepped => by
      split at stepped
      · exact keeps item before after stepped
      · cases stepped
        rfl) one
    obtain ⟨after, rest⟩ := @ih { wallets with subWallets := changed } isKind
      (by rw [KeysDistinct, sameKeys]; exact distinct)
      (by rw [sameKeys]; exact present.2) (by
        refine forall_mem_of_forall₂ (forall₂_imp_mem one fun before inside after _ stepped =>
          And.intro inside stepped) (fun _ _ => trivial) ?_
        intro before after ⟨inside, stepped⟩ _
        by_cases isKey : before.publicSpendKey = keyOf item
        · rw [if_pos isKey] at stepped
          obtain ⟨middle, last, first, rest⟩ := split before inside isKey
          rw [stepped] at first
          cases first
          exact ⟨last, rest⟩
        · rw [if_neg isKey] at stepped
          cases stepped
          obtain ⟨last, ran⟩ := works before inside
          unfold Stepped stepsFor at ran
          rw [filter_cons_of_neg (by simpa using Ne.symm isKey)] at ran
          exact ⟨last, ran⟩)
    exact ⟨after, foldlM_cons_eq_ok.mpr
      ⟨_, steps wallets item _ isKind isUpdated, rest⟩⟩

theorem throwIfViewWallet_bind_eq_ok {β : Type} {next : Unit → Except Failure β} {value : β} :
    wallets.throwIfViewWallet >>= next = .ok value ↔
      wallets.isViewWallet = false ∧ next () = .ok value := by
  unfold throwIfViewWallet
  rw [rejectIf_bind_eq_ok, Bool.not_eq_true]

/-! ### The loops of the wallet -/

theorem keepsKey_markInputAsLocked (keyImage : KeyImage) :
    KeepsKey (SubWallet.markInputAsLocked keyImage) := by
  intro before after marked
  unfold SubWallet.markInputAsLocked at marked
  split at marked
  · cases marked
    rfl
  · cases marked

theorem keepsKey_markInputAsSpent (keyImage : KeyImage) (spendHeight : UInt64) :
    KeepsKey (SubWallet.markInputAsSpent keyImage spendHeight) := by
  intro before after marked
  unfold SubWallet.markInputAsSpent at marked
  split at marked
  · cases marked
    rfl
  · split at marked
    · cases marked
      rfl
    · cases marked

theorem lockInputs_eq_ok {ourInputs : List TxInputAndOwner} (distinct : wallets.KeysDistinct)
    (ran : ourInputs.foldlM (fun wallets input =>
      wallets.markInputAsLocked input.input.keyImage input.publicSpendKey) wallets = .ok after) :
    ∃ entries, after = { wallets with subWallets := entries } ∧
      List.Forall₂ (Stepped TxInputAndOwner.publicSpendKey
          (fun input => SubWallet.markInputAsLocked input.input.keyImage) ourInputs)
        wallets.subWallets entries := by
  refine foldlM_update_eq_ok (fun _ => keepsKey_markInputAsLocked _) ?_ rfl distinct ran
  intro wallets input after _ stepped
  exact ⟨_, (throwIfViewWallet_bind_eq_ok.mp stepped).2⟩

theorem storeInputs_eq_ok {inputs : List (PublicKey × WalletTypes.TransactionInput)}
    (distinct : wallets.KeysDistinct)
    (ran : inputs.foldlM (fun wallets input =>
      wallets.storeTransactionInput input.1 input.2) wallets = .ok after) :
    ∃ entries, after = { wallets with subWallets := entries } ∧
      List.Forall₂ (Stepped Prod.fst (fun input subWallet =>
          .ok (subWallet.storeTransactionInput input.2 wallets.isViewWallet)) inputs)
        wallets.subWallets entries := by
  refine foldlM_update_eq_ok ?_ ?_ rfl distinct ran
  · intro input before after stored
    cases stored
    rfl
  · intro other input after isKind stepped
    rw [← isKind]
    exact ⟨_, stepped⟩

theorem markSpent_eq_ok {spends : List (PublicKey × KeyImage)} {spendHeight : UInt64}
    (distinct : wallets.KeysDistinct)
    (ran : spends.foldlM (fun wallets spend =>
      wallets.markInputAsSpent spend.2 spend.1 spendHeight) wallets = .ok after) :
    ∃ entries, after = { wallets with subWallets := entries } ∧
      List.Forall₂ (Stepped Prod.fst
          (fun spend => SubWallet.markInputAsSpent spend.2 spendHeight) spends)
        wallets.subWallets entries := by
  refine foldlM_update_eq_ok (fun _ => keepsKey_markInputAsSpent _ _) ?_ rfl distinct ran
  intro wallets input after _ stepped
  exact ⟨_, (throwIfViewWallet_bind_eq_ok.mp stepped).2⟩

end SubWallets
end Mevacoin
