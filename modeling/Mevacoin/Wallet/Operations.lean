/-
The life of a wallet: blocks are scanned, subwallets imported and the wallet is reset, in
any order. The list of spend keys stays in step with the map of subwallets, so the balance
over all of them is always defined and counts each subwallet once.
-/

import Mevacoin.Wallet.KeyImages

namespace Mevacoin
open List Checked Wallet WalletTypes SendTransaction

namespace SubWallets
variable {wallets : SubWallets} {subWallet : SubWallet}

/-- The keys name the subwallets one by one. -/
def InStep (wallets : SubWallets) : Prop :=
  wallets.publicSpendKeys = wallets.subWallets.map SubWallet.publicSpendKey ∧ wallets.KeysDistinct

def totalBalance (now height : UInt64) (wallets : SubWallets) : UInt64 × UInt64 :=
  let balances := wallets.subWallets.map (SubWallet.getBalance now height)
  ((balances.map Prod.fst).sum, (balances.map Prod.snd).sum)

theorem find_of_mem (distinct : wallets.KeysDistinct) (member : subWallet ∈ wallets.subWallets) :
    wallets.find subWallet.publicSpendKey = some subWallet := by
  cases found : wallets.find subWallet.publicSpendKey with
  | none => simpa using List.find?_eq_none.mp found subWallet member
  | some other =>
    have sameKey := List.find?_some found
    rw [List.inj_on_of_nodup_map distinct (List.mem_of_find?_eq_some found) member
      (of_decide_eq_true sameKey)]

theorem InStep.getBalance (inStep : wallets.InStep) (now height : UInt64) :
    wallets.getBalance now [] true height = .ok (wallets.totalBalance now height) := by
  unfold SubWallets.getBalance
  dsimp only
  rw [if_pos rfl, mapM_eq_ok_iff.mpr]
  · rfl
  · rw [inStep.1, List.forall₂_map_left_iff, List.forall₂_map_right_iff, List.forall₂_same]
    intro subWallet member
    rw [find_of_mem inStep.2 member]
    rfl

theorem InStep.addEntry (inStep : wallets.InStep)
    (isNew : ¬(wallets.find subWallet.publicSpendKey).isSome = true) :
    (wallets.addEntry subWallet).InStep := by
  refine ⟨by simp [SubWallets.addEntry, inStep.1], ?_⟩
  have distinct := inStep.2
  unfold KeysDistinct at distinct ⊢
  rw [SubWallets.addEntry, map_append, nodup_append]
  simpa [distinct, SubWallets.find] using isNew

end SubWallets

inductive WalletOperation where
  | processBlock (daemon : GetGlobalIndexes) (block : WalletBlockInfo)
  | importSubWallet (privateSpendKey : SecretKey) (scanHeight : UInt64)
  | importViewSubWallet (publicSpendKey : PublicKey) (scanHeight : UInt64)
  | reset (scanHeight timestamp : UInt64)

namespace WalletBackend
variable {crypto : WalletCrypto} {encoding : SubWallets.AddressEncoding}

def perform (crypto : WalletCrypto) (encoding : SubWallets.AddressEncoding)
    (backend : WalletBackend) : WalletOperation → Except Failure WalletBackend
  | .processBlock daemon block => processBlock crypto daemon block backend
  | .importSubWallet key height =>
    return (← backend.importSubWallet crypto encoding key height).1
  | .importViewSubWallet key height =>
    return (← backend.importViewSubWallet crypto encoding key height).1
  | .reset scanHeight timestamp => .ok (backend.reset scanHeight timestamp)

theorem inStep_afterImport {backend : WalletBackend} {subWallet : SubWallet}
    (inStep : backend.subWallets.InStep) (scanHeight : UInt64)
    (isNew : ¬(backend.subWallets.find subWallet.publicSpendKey).isSome = true) :
    (backend.afterImport scanHeight
      (backend.subWallets.addEntry subWallet)).subWallets.InStep := by
  have added := inStep.addEntry isNew
  unfold afterImport
  dsimp only
  split
  · exact added
  · exact added

theorem inStep_perform {operation : WalletOperation} {before after : WalletBackend}
    (inStep : before.subWallets.InStep)
    (performed : before.perform crypto encoding operation = .ok after) :
    after.subWallets.InStep := by
  cases operation with
  | processBlock daemon block =>
    obtain ⟨keys, names⟩ := keys_processBlock inStep.2 performed
    unfold SubWallets.InStep SubWallets.KeysDistinct
    rw [keys, names]
    exact inStep
  | importSubWallet key height | importViewSubWallet key height =>
    obtain ⟨_, imported, isAfter⟩ := bind_eq_ok.mp performed
    obtain ⟨_, checked, isImported⟩ := bind_eq_ok.mp imported
    obtain ⟨_, rest⟩ := rejectIf_bind_eq_ok.mp checked
    obtain ⟨isNew, isAdded⟩ := rejectIf_bind_eq_ok.mp rest
    cases isAdded
    cases isImported
    cases isAfter
    exact inStep_afterImport inStep height isNew
  | reset scanHeight timestamp =>
    cases performed
    exact inStep

def paidAndImported : List WalletOperation :=
  [.processBlock (fun _ _ => none) (blockWith 1 ⟨8⟩ [payment ⟨3⟩ (some 0)]), .importSubWallet ⟨2⟩ 1]

end WalletBackend
end Mevacoin
