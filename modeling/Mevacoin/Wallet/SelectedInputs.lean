/-
Which inputs a transfer takes. The inputs of every named address are collected and drawn
until they cover the amount; an address that is named twice has its inputs drawn twice.
-/

import Mathlib.Data.List.Flatten
import Mevacoin.Core.TransactionSums
import Mevacoin.Wallet.PaymentIds

namespace Mevacoin
open List WalletTypes Wallet UInt64 Nat Checked SendTransaction

def usedAmounts (inputs : List TxInputAndOwner) : List UInt64 :=
  inputs.map fun used => used.input.amount

namespace SubWallets

/-! ### Drawing inputs -/

variable {order : List TxInputAndOwner}

section Drawing
variable {amount found total : UInt64} {taken order before after chosen : List TxInputAndOwner}

theorem takeUntilCovered_eq_some
    (ran : takeUntilCovered amount found taken order = some (chosen, total)) :
    ∃ before last after, order = before ++ last :: after ∧ chosen = taken ++ (before ++ [last]) ∧
      total = found + (usedAmounts (before ++ [last])).sum ∧ amount ≤ total := by
  induction order generalizing found taken with
  | nil => cases ran
  | cons head order ih =>
    rw [takeUntilCovered] at ran
    split at ran
    · rename_i covered
      cases ran
      refine ⟨[], head, order, rfl, rfl, ?_, covered⟩
      exact congrArg (found + ·) (add_zero _).symm
    · obtain ⟨before, last, after, isOrder, isChosen, isTotal, covered⟩ := ih ran
      refine ⟨head :: before, last, after, by rw [isOrder, cons_append], ?_, ?_, covered⟩
      · rw [isChosen, append_assoc, singleton_append, cons_append]
      · rw [isTotal, add_assoc]
        rfl

theorem takeUntilCovered_of_cover {last : TxInputAndOwner}
    (short : found.toNat + totalAmount (usedAmounts before) < amount.toNat)
    (covered : amount.toNat
      ≤ found.toNat + totalAmount (usedAmounts before) + last.input.amount.toNat)
    (fits : found.toNat + totalAmount (usedAmounts before) + last.input.amount.toNat < 2 ^ 64) :
    takeUntilCovered amount found taken (before ++ last :: after)
      = some (taken ++ (before ++ [last]), found + (usedAmounts (before ++ [last])).sum) := by
  induction before generalizing found taken with
  | nil =>
    have sum : (found + last.input.amount).toNat = found.toNat + last.input.amount.toNat := by
      exact mod_eq_of_lt fits
    rw [nil_append, takeUntilCovered, if_pos (le_iff_toNat_le.mpr (sum ▸ covered))]
    exact congrArg (fun sum => some (taken ++ [last], found + sum)) (add_zero _).symm
  | cons head before ih =>
    have split : totalAmount (usedAmounts (head :: before))
        = head.input.amount.toNat + totalAmount (usedAmounts before) := rfl
    have sum : (found + head.input.amount).toNat = found.toNat + head.input.amount.toNat := by
      rw [UInt64.toNat_add]
      exact mod_eq_of_lt (by omega)
    have notYet : ¬found + head.input.amount ≥ amount := by
      rw [ge_iff_le, le_iff_toNat_le, sum]
      omega
    rw [cons_append, takeUntilCovered, if_neg notYet,
      ih (by omega) (by omega) (by omega), append_assoc, add_assoc]
    rfl

theorem exists_takeUntilCovered (nonempty : before ≠ [])
    (covered : amount ≤ found + (usedAmounts before).sum) :
    ∃ result, takeUntilCovered amount found taken (before ++ after) = some result := by
  induction before generalizing found taken with
  | nil => exact absurd rfl nonempty
  | cons head before ih =>
    rw [cons_append, takeUntilCovered]
    split
    · exact ⟨_, rfl⟩
    · rename_i notYet
      have rest : amount ≤ found + head.input.amount + (usedAmounts before).sum := by
        rw [add_assoc]
        exact covered
      refine ih ?_ rest
      intro empty
      rw [empty] at rest
      exact notYet (by rw [← add_zero (found + head.input.amount)]; exact rest)

theorem exists_cover {amount found : Nat} (short : found < amount)
    (covered : amount ≤ found + totalAmount (usedAmounts order)) :
    ∃ before last after, order = before ++ last :: after ∧
      found + totalAmount (usedAmounts before) < amount ∧
        amount ≤ found + totalAmount (usedAmounts before) + last.input.amount.toNat := by
  induction order generalizing found with
  | nil => exact absurd short (not_lt.mpr covered)
  | cons head order ih =>
    have split : ∀ rest, totalAmount (usedAmounts (head :: rest))
        = head.input.amount.toNat + totalAmount (usedAmounts rest) := fun _ => rfl
    rw [split] at covered
    by_cases first : amount ≤ found + head.input.amount.toNat
    · exact ⟨[], head, order, rfl, short, first⟩
    · obtain ⟨before, last, after, isOrder, below, reached⟩ :=
        @ih (found + head.input.amount.toNat) (by omega) (by omega)
      refine ⟨head :: before, last, after, by rw [isOrder, cons_append], ?_, ?_⟩
      · rw [split]
        omega
      · rw [split]
        omega

end Drawing

/-! ### The named subwallets -/

section Named
variable (now height : UInt64) (wallets : SubWallets)

def namedKeys (takeFromAll : Bool) (subWalletsToTakeFrom : List PublicKey) : List PublicKey :=
  if takeFromAll then wallets.publicSpendKeys else subWalletsToTakeFrom

def spendableOf (key : PublicKey) : List TxInputAndOwner :=
  match wallets.find key with
  | none => []
  | some subWallet => subWallet.getSpendableInputs now height

def unlockedBalance (keys : List PublicKey) : Nat :=
  totalAmount (usedAmounts (keys.dedup.flatMap (wallets.spendableOf now height)))

def CanSpendFrom (keys : List PublicKey) : Prop :=
  wallets.isViewWallet = false ∧ ∀ key ∈ keys, (wallets.find key).isSome = true

instance (keys : List PublicKey) : Decidable (wallets.CanSpendFrom keys) :=
  inferInstanceAs (Decidable (_ ∧ ∀ _ ∈ _, _))

end Named

section Available
variable {now height : UInt64} {wallets : SubWallets}

theorem key_of_find {key : PublicKey} {subWallet : SubWallet}
    (found : wallets.find key = some subWallet) : subWallet.publicSpendKey = key := by
  have satisfied := find?_some found
  exact of_decide_eq_true satisfied

theorem mem_spendableOf {key : PublicKey} {used : TxInputAndOwner}
    (member : used ∈ wallets.spendableOf now height key) :
    used.publicSpendKey = key ∧ ∃ subWallet, wallets.find key = some subWallet ∧
      used.input ∈ subWallet.unspentInputs ∧
        isInputUnlocked now used.input.unlockTime height = true := by
  unfold spendableOf at member
  split at member
  · cases member
  · rename_i subWallet found
    obtain ⟨input, unlocked, isUsed⟩ := mem_map.mp member
    obtain ⟨unspent, unlocked⟩ := mem_filter.mp unlocked
    rw [← isUsed]
    exact ⟨key_of_find found, subWallet, found, unspent, unlocked⟩

variable {takeFromAll : Bool} {keys : List PublicKey}

theorem availableInputs_eq
    (known : ∀ key ∈ wallets.namedKeys takeFromAll keys, (wallets.find key).isSome = true) :
    wallets.availableInputs now takeFromAll keys height
      = .ok ((wallets.namedKeys takeFromAll keys).flatMap (wallets.spendableOf now height)) := by
  have each : ∀ key ∈ wallets.namedKeys takeFromAll keys, ∃ subWallet,
      orError mapOutOfRange (wallets.find key) = .ok subWallet := by
    intro key member
    obtain ⟨subWallet, found⟩ := Option.isSome_iff_exists.mp (known key member)
    exact ⟨subWallet, orError_eq_ok.mpr found⟩
  obtain ⟨found, collected⟩ := exists_mapM_ok each
  refine bind_eq_ok.mpr ⟨found, collected, congrArg Except.ok ?_⟩
  have pairs := mapM_eq_ok_iff.mp collected
  clear known each collected
  generalize wallets.namedKeys takeFromAll keys = named at pairs
  induction pairs with
  | nil => rfl
  | cons isFound _ ih =>
    rw [flatMap_cons, flatMap_cons, spendableOf, orError_eq_ok.mp isFound, ih]

theorem getTransactionInputsForAmount_eq (runtime : WalletRuntime) (amount : UInt64)
    (spendable : wallets.CanSpendFrom (wallets.namedKeys takeFromAll keys)) :
    wallets.getTransactionInputsForAmount runtime amount takeFromAll keys height
      = orError (.thrown (ascii "Not enough funds found!"))
        (takeUntilCovered amount 0 [] (runtime.shuffleInputs
          ((wallets.namedKeys takeFromAll keys).flatMap
            (wallets.spendableOf runtime.now height)))) := by
  unfold getTransactionInputsForAmount
  rw [availableInputs_eq spendable.2]
  unfold throwIfViewWallet
  rw [spendable.1]
  rfl

theorem getTransactionInputsForAmount_throws (runtime : WalletRuntime) (amount : UInt64)
    (spendable : ¬wallets.CanSpendFrom (wallets.namedKeys takeFromAll keys)) :
    ∃ failure, wallets.getTransactionInputsForAmount runtime amount takeFromAll keys height
      = .error failure := by
  cases ran : wallets.getTransactionInputsForAmount runtime amount takeFromAll keys height with
  | error failure => exact ⟨failure, rfl⟩
  | ok result =>
    obtain ⟨notView, ran⟩ := throwIfViewWallet_bind_eq_ok.mp ran
    obtain ⟨_, available, _⟩ := bind_eq_ok.mp ran
    obtain ⟨_, collected, _⟩ := bind_eq_ok.mp available
    refine absurd ⟨notView, ?_⟩ spendable
    refine forall_mem_of_forall₂ (mapM_eq_ok_iff.mp collected).flip
      (fun _ _ => trivial) ?_
    intro subWallet key isFound _
    exact Option.isSome_of_eq_some (orError_eq_ok.mp isFound)

end Available

/-! ### Sound selections -/

section Sound
variable (now height : UInt64) (wallets : SubWallets) (keys : List PublicKey) (amount : UInt64)

structure SoundSelection (chosen : List TxInputAndOwner) (total : UInt64) : Prop where
  distinct : (chosen.map fun used => used.input.keyImage).Nodup
  owned : ∀ used ∈ chosen, used.publicSpendKey ∈ keys ∧
    ∃ subWallet, wallets.find used.publicSpendKey = some subWallet ∧
      used.input ∈ subWallet.unspentInputs ∧ isInputUnlocked now used.input.unlockTime height = true
  total_eq : total.toNat = totalAmount (usedAmounts chosen)
  enough : amount ≤ total
  needed : totalAmount (usedAmounts chosen.dropLast) < amount.toNat

/-- What is chosen is sound, and nothing is chosen only if the balance is too low. -/
def SelectionSound : Except Failure (List TxInputAndOwner × UInt64) → Prop
  | .ok (chosen, total) => wallets.SoundSelection now height keys amount chosen total
  | .error _ => wallets.unlockedBalance now height keys < amount.toNat

/-- When every order of the available inputs leads to a sound selection. -/
structure Selectable : Prop where
  positive : 0 < amount.toNat
  /-- If the balance is too low, no inputs seem to cover the amount. -/
  refused : wallets.unlockedBalance now height keys < amount.toNat →
    ∀ taken, taken.Subperm (keys.flatMap (wallets.spendableOf now height)) →
      (usedAmounts taken).sum < amount
  /-- An input that is available twice covers the amount alone. -/
  alone : amount.toNat ≤ wallets.unlockedBalance now height keys →
    ∀ first second, [first, second].Subperm (keys.flatMap (wallets.spendableOf now height)) →
      first.input.keyImage = second.input.keyImage → amount ≤ first.input.amount
  /-- No sum of inputs wraps before it covers the amount. -/
  fits : amount.toNat ≤ wallets.unlockedBalance now height keys →
    ∀ last taken, (last :: taken).Subperm (keys.flatMap (wallets.spendableOf now height)) →
      totalAmount (usedAmounts taken) < amount.toNat →
        totalAmount (usedAmounts taken) + last.input.amount.toNat < 2 ^ 64

/-- A wallet that has to refuse because it cannot spend may do so only below the amount. -/
def MaySelect : Prop :=
  if wallets.CanSpendFrom keys then wallets.Selectable now height keys amount
  else wallets.unlockedBalance now height keys < amount.toNat

end Sound

section Orders
variable {now height : UInt64} {wallets : SubWallets} {keys : List PublicKey} {amount : UInt64}
  {failure : Failure}

theorem unlockedBalance_le : wallets.unlockedBalance now height keys
    ≤ totalAmount (usedAmounts (keys.flatMap (wallets.spendableOf now height))) :=
  totalAmount_sublist (((dedup_sublist keys).flatMap _).map _)

variable {chosen : List TxInputAndOwner}

theorem totalAmount_le_unlockedBalance
    (distinct : (chosen.map fun used => used.input.keyImage).Nodup)
    (available : chosen ⊆ keys.flatMap (wallets.spendableOf now height)) :
    totalAmount (usedAmounts chosen) ≤ wallets.unlockedBalance now height keys := by
  have inside : chosen ⊆ keys.dedup.flatMap (wallets.spendableOf now height) := by
    intro used member
    obtain ⟨key, named, spendable⟩ := mem_flatMap.mp (available member)
    exact mem_flatMap.mpr ⟨key, mem_dedup.mpr named, spendable⟩
  obtain ⟨same, perm, sublist⟩ := subperm_of_subset distinct.of_map inside
  calc
    totalAmount (usedAmounts chosen) = totalAmount (usedAmounts same) :=
      totalAmount_perm (perm.symm.map _)
    _ ≤ _ := totalAmount_sublist (sublist.map _)

theorem owned_of_available {used : TxInputAndOwner}
    (available : used ∈ keys.flatMap (wallets.spendableOf now height)) :
    used.publicSpendKey ∈ keys ∧ ∃ subWallet, wallets.find used.publicSpendKey = some subWallet ∧
      used.input ∈ subWallet.unspentInputs ∧
        isInputUnlocked now used.input.unlockTime height = true := by
  obtain ⟨key, named, spendable⟩ := mem_flatMap.mp available
  obtain ⟨isKey, owner⟩ := mem_spendableOf spendable
  rw [isKey]
  exact ⟨named, owner⟩

theorem nodup_of_alone {before : List TxInputAndOwner} {last : TxInputAndOwner}
    (short : totalAmount (usedAmounts before) < amount.toNat)
    (alone : ∀ first second, [first, second].Sublist (before ++ [last]) →
      first.input.keyImage = second.input.keyImage → amount ≤ first.input.amount) :
    ((before ++ [last]).map fun used => used.input.keyImage).Nodup := by
  rw [List.Nodup, pairwise_map, pairwise_iff_forall_sublist]
  intro first second sublist same
  have covers := le_iff_toNat_le.mp (alone first second sublist same)
  have early : first ∈ before := by
    obtain ⟨early, late, isPair, earlyPart, latePart⟩ := sublist_append_iff.mp sublist
    cases early with
    | nil =>
      rw [nil_append] at isPair
      rw [← isPair] at latePart
      exact absurd latePart.length_le (not_succ_le_self 1)
    | cons head early =>
      rw [(List.cons.inj isPair).1]
      exact earlyPart.subset mem_cons_self
  have bound := le_totalAmount (mem_map_of_mem (f := fun used => used.input.amount) early)
  exact absurd covers (not_le.mpr (lt_of_le_of_lt bound short))

theorem Selectable.sound (selectable : wallets.Selectable now height keys amount)
    (perm : order.Perm (keys.flatMap (wallets.spendableOf now height))) :
    wallets.SelectionSound now height keys amount
      (orError failure (takeUntilCovered amount 0 [] order)) := by
  by_cases low : wallets.unlockedBalance now height keys < amount.toNat
  · cases ran : takeUntilCovered amount 0 [] order with
    | none => exact low
    | some result =>
      obtain ⟨before, last, after, isOrder, -, isTotal, covered⟩ := takeUntilCovered_eq_some ran
      have begin : (before ++ [last]).Sublist order := by
        rw [isOrder]
        exact (singleton_sublist.mpr mem_cons_self).append_left before
      have refused := selectable.refused low _ (begin.subperm.trans perm.subperm)
      rw [isTotal, zero_add] at covered
      exact absurd covered (UInt64.not_le.mpr refused)
  · have balance := not_lt.mp low
    have enough : amount.toNat ≤ 0 + totalAmount (usedAmounts order) := by
      rw [zero_add, show totalAmount (usedAmounts order) = _ from totalAmount_perm (perm.map _)]
      exact balance.trans unlockedBalance_le
    obtain ⟨before, last, after, isOrder, short, reached⟩ :=
      exists_cover selectable.positive enough
    rw [zero_add] at short reached
    have begin : (before ++ [last]).Sublist order := by
      rw [isOrder]
      exact (singleton_sublist.mpr mem_cons_self).append_left before
    have fits := selectable.fits balance last before
      (((perm_append_singleton last before).symm.subperm.trans begin.subperm).trans
        perm.subperm) short
    have sum : totalAmount (usedAmounts (before ++ [last]))
        = totalAmount (usedAmounts before) + last.input.amount.toNat := by
      rw [usedAmounts, map_append, totalAmount_append]
      rfl
    rw [isOrder, takeUntilCovered_of_cover (by simpa using short) (by simpa using reached)
      (by simpa using fits), nil_append, zero_add]
    have total : (usedAmounts (before ++ [last])).sum.toNat
        = totalAmount (usedAmounts (before ++ [last])) := toNat_sum_of_lt (by rw [sum]; exact fits)
    refine ⟨?_, ?_, total, ?_, ?_⟩
    · exact nodup_of_alone short fun first second sublist =>
        selectable.alone balance first second
          ((sublist.trans begin).subperm.trans perm.subperm)
    · intro used member
      exact owned_of_available (perm.subset (begin.subset member))
    · rw [le_iff_toNat_le, total, sum]
      exact reached
    · rw [dropLast_concat]
      exact short

theorem takeUntilCovered_isPrefix {total : UInt64}
    (ran : takeUntilCovered amount 0 [] order = some (chosen, total)) : chosen <+: order := by
  obtain ⟨before, last, rest, isOrder, isChosen, -, -⟩ := takeUntilCovered_eq_some ran
  rw [isChosen, isOrder]
  exact ⟨rest, by rw [nil_append, append_assoc, singleton_append]⟩

/-- A sound draw from an order takes all inputs at its beginning that do not cover the
amount before the last of them. -/
theorem draws_all {taken after : List TxInputAndOwner} {total : UInt64}
    (short : ∀ before, before <+: taken → before ≠ taken →
      totalAmount (usedAmounts before) < amount.toNat)
    (ran : takeUntilCovered amount 0 [] (taken ++ after) = some (chosen, total))
    (sound : wallets.SoundSelection now height keys amount chosen total) : taken <+: chosen := by
  rcases prefix_or_prefix_of_prefix (takeUntilCovered_isPrefix ran)
    (prefix_append taken after) with early | late
  · by_cases same : chosen = taken
    · rw [same]
    · have below := short chosen early same
      rw [← sound.total_eq] at below
      exact absurd (le_iff_toNat_le.mp sound.enough) (not_le.mpr below)
  · exact late

theorem exists_order {taken available : List TxInputAndOwner} (inside : taken.Subperm available) :
    ∃ after, (taken ++ after).Perm available := by
  obtain ⟨same, perm, sublist⟩ := inside
  obtain ⟨after, whole⟩ := sublist.exists_perm_append
  exact ⟨after, (perm.symm.append_right after).trans whole.symm⟩

theorem SelectionSound.cases (sound : wallets.SelectionSound now height keys amount
      (orError failure (takeUntilCovered amount 0 [] order))) :
    (∃ chosen total, takeUntilCovered amount 0 [] order = some (chosen, total) ∧
        wallets.SoundSelection now height keys amount chosen total) ∨
      takeUntilCovered amount 0 [] order = none ∧
        wallets.unlockedBalance now height keys < amount.toNat := by
  cases ran : takeUntilCovered amount 0 [] order with
  | none =>
    rw [ran] at sound
    exact .inr ⟨rfl, sound⟩
  | some result =>
    rw [ran] at sound
    exact .inl ⟨result.1, result.2, rfl, sound⟩

theorem selectable_of_sound (failure : Failure)
    (sound : ∀ order, order.Perm (keys.flatMap (wallets.spendableOf now height)) →
      wallets.SelectionSound now height keys amount
        (orError failure (takeUntilCovered amount 0 [] order))) :
    wallets.Selectable now height keys amount := by
  have positive : 0 < amount.toNat := by
    rcases (sound _ (List.Perm.refl _)).cases with ⟨_, _, _, selected⟩ | ⟨_, low⟩
    · exact zero_lt_of_lt selected.needed
    · exact zero_lt_of_lt low
  refine ⟨positive, ?_, ?_, ?_⟩
  · intro low taken inside
    refine UInt64.not_le.mp fun covered => ?_
    obtain ⟨after, perm⟩ := exists_order inside
    have nonempty : taken ≠ [] := by
      intro empty
      rw [empty] at covered
      exact absurd (le_iff_toNat_le.mp covered) (not_le.mpr positive)
    rw [← zero_add (usedAmounts taken).sum] at covered
    obtain ⟨result, drawn⟩ := @exists_takeUntilCovered _ _ [] _ after nonempty covered
    rcases (sound _ perm).cases with ⟨chosen, total, ran, selected⟩ | ⟨ran, _⟩
    · have worth := totalAmount_le_unlockedBalance selected.distinct
        fun used member => perm.subset ((takeUntilCovered_isPrefix ran).subset member)
      have enough := le_iff_toNat_le.mp selected.enough
      rw [selected.total_eq] at enough
      omega
    · rw [drawn] at ran
      cases ran
  · intro balance first second inside same
    refine UInt64.not_lt.mp fun small => ?_
    obtain ⟨after, perm⟩ := exists_order inside
    rcases (sound _ perm).cases with ⟨chosen, total, ran, selected⟩ | ⟨_, low⟩
    · have drawn : [first, second] <+: chosen := by
        refine draws_all ?_ ran selected
        intro before begin different
        change before <+: [first] ++ [second] at begin
        rcases prefix_concat_iff.mp begin with same | early
        · exact absurd same different
        · exact lt_of_le_of_lt (totalAmount_sublist (early.sublist.map _))
            (lt_iff_toNat_lt.mp small)
      have both := selected.distinct.sublist (drawn.sublist.map _)
      exact absurd (pairwise_cons.mp both).1 fun apart => apart _ mem_cons_self same
    · exact absurd balance (not_le.mpr low)
  · intro balance last taken inside short
    obtain ⟨after, perm⟩ := exists_order
      ((perm_append_singleton last taken).subperm.trans inside)
    rcases (sound _ perm).cases with ⟨chosen, total, ran, selected⟩ | ⟨_, low⟩
    · have drawn : taken ++ [last] <+: chosen := by
        refine draws_all ?_ ran selected
        intro before begin different
        rcases prefix_concat_iff.mp begin with same | early
        · exact absurd same different
        · exact lt_of_le_of_lt (totalAmount_sublist (early.sublist.map _)) short
      have worth : totalAmount (usedAmounts (taken ++ [last])) ≤ totalAmount (usedAmounts chosen) :=
        totalAmount_sublist (drawn.sublist.map _)
      rw [← selected.total_eq, usedAmounts, map_append, totalAmount_append] at worth
      have bound := total.toNat_lt
      change totalAmount (usedAmounts taken) + (last.input.amount.toNat + 0) ≤ _ at worth
      omega
    · exact absurd balance (not_le.mpr low)

end Orders

/-- A runtime whose shuffle brings the given inputs into the given order. -/
def runtimeWithOrder (now : UInt64) {order available : List TxInputAndOwner}
    (perm : order.Perm available) : WalletRuntime :=
  { now := now
    log10 := fun _ => 0
    shuffleInputs := fun inputs => if inputs = available then order else inputs
    shuffleBuckets := fun buckets => buckets
    generateKeyPair := fun _ => ⟨⟨0⟩, ⟨0⟩⟩
    shuffleInputs_perm := by
      intro inputs
      split
      · rename_i same
        rw [same]
        exact perm
      · exact .refl inputs
    shuffleBuckets_perm := fun buckets => .refl buckets }

/-- Input selection is sound for every shuffle exactly if the wallet is selectable. -/
theorem getTransactionInputsForAmount_sound_iff (wallets : SubWallets) (now height amount : UInt64)
    (takeFromAll : Bool) (subWalletsToTakeFrom : List PublicKey) :
    (∀ runtime : WalletRuntime, runtime.now = now →
      wallets.SelectionSound now height (wallets.namedKeys takeFromAll subWalletsToTakeFrom) amount
        (wallets.getTransactionInputsForAmount runtime amount takeFromAll subWalletsToTakeFrom
          height)) ↔
      wallets.MaySelect now height (wallets.namedKeys takeFromAll subWalletsToTakeFrom) amount := by
  unfold MaySelect
  split
  · rename_i spendable
    constructor
    · intro sound
      refine selectable_of_sound (.thrown (ascii "Not enough funds found!")) fun order perm => ?_
      have drawn := sound (runtimeWithOrder now perm) rfl
      rw [getTransactionInputsForAmount_eq _ _ spendable] at drawn
      have shuffled : (runtimeWithOrder now perm).shuffleInputs
          ((wallets.namedKeys takeFromAll subWalletsToTakeFrom).flatMap
            (wallets.spendableOf (runtimeWithOrder now perm).now height)) = order := if_pos rfl
      rw [shuffled] at drawn
      exact drawn
    · intro selectable runtime isNow
      rw [getTransactionInputsForAmount_eq _ _ spendable, isNow]
      exact selectable.sound (runtime.shuffleInputs_perm _)
  · rename_i unable
    constructor
    · intro sound
      have refused := sound (runtimeWithOrder now (.refl [])) rfl
      obtain ⟨_, thrown⟩ := getTransactionInputsForAmount_throws (runtimeWithOrder now (.refl []))
        amount unable
      rw [thrown] at refused
      exact refused
    · intro low runtime _
      obtain ⟨_, thrown⟩ := getTransactionInputsForAmount_throws runtime amount unable
      rw [thrown]
      exact low

theorem input_chosen_twice :
    SendTransaction.flatCodec.validateOurAddresses
        [standardAddress, standardAddress]
        fifthOutputWallet = .ok () ∧
      SendTransaction.flatCodec.addressesToSpendKeys
        [standardAddress, standardAddress] = .ok [⟨1⟩, ⟨1⟩] ∧
      SendTransaction.fifthOutputWallet.getTransactionInputsForAmount
        (runtimeWithOrder 0 (.refl [])) 150 false [⟨1⟩, ⟨1⟩] 20
        = .ok ([fifthOutput, fifthOutput], 200) ∧
      ¬SendTransaction.fifthOutputWallet.SelectionSound 0 20 [⟨1⟩, ⟨1⟩] 150
        (.ok ([fifthOutput, fifthOutput], 200)) := by
  refine ⟨by decide +kernel, by decide +kernel, by decide +kernel, ?_⟩
  intro sound
  exact absurd sound.distinct (by decide)

end SubWallets
end Mevacoin
