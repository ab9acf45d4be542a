/-
What a transfer sends. Its outputs are the denominations of the requested amounts and of
the change; they add up to the inputs less the fee as long as the sum of the inputs fits
into 64 bits.
-/

import Mevacoin.Wallet.Denominations
import Mevacoin.Wallet.SelectedInputs

namespace Mevacoin
open List WalletTypes Wallet TransactionDestination SubWallets Checked.ErrorsIn
open ValidateParameters (getTransactionSum)

variable {mixin : UInt64} {codec : AddressCodec} {payments : List (Text × UInt64)}

theorem ValidateParameters.fits_of_sumWillOverflow {sum : UInt64} {items : List UInt64}
    (checked : sumWillOverflow sum items = false) :
    sum.toNat + totalAmount items < 2 ^ 64 := by
  induction items generalizing sum with
  | nil => exact sum.toNat_lt
  | cons item items ih =>
    rw [sumWillOverflow] at checked
    split at checked
    · cases checked
    · rename_i noWrap
      have added : (sum + item).toNat = sum.toNat + item.toNat := by
        rw [UInt64.toNat_add]
        refine Nat.mod_eq_of_lt (Nat.not_le.mp fun wraps => noWrap ?_)
        have sumBound := sum.toNat_lt
        have small : (item + sum).toNat < item.toNat := by
          rw [UInt64.toNat_add]
          omega
        change item + sum < if item ≤ sum then sum else item
        split
        · rename_i larger
          exact UInt64.lt_of_lt_of_le (UInt64.lt_iff_toNat_lt.mpr small) larger
        · exact UInt64.lt_iff_toNat_lt.mpr small
      have rest := ih checked
      rw [totalAmount_cons]
      omega

namespace SendTransaction

/-! ### Amounts of the inputs -/

theorem map_eq_of_forall₂ {α β γ : Type} {related : α → β → Prop} {left : List α} {right : List β}
    {ofLeft : α → γ} {ofRight : β → γ} (pairs : List.Forall₂ related left right)
    (each : ∀ first second, related first second → ofRight second = ofLeft first) :
    right.map ofRight = left.map ofLeft := by
  induction pairs with
  | nil => rfl
  | cons head _ ih => rw [map_cons, map_cons, each _ _ head, ih]

theorem amounts_prepareRingParticipants {sources : List TxInputAndOwner} {daemon : GetRandomOuts}
    {rings : List ObscuredInput} (ran : prepareRingParticipants sources mixin daemon = .ok rings) :
    rings.map ObscuredInput.amount = usedAmounts (sortByAmount sources) := by
  obtain ⟨fakeOuts, _, built⟩ := Checked.bind_eq_ok.mp ran
  have unindexed := congrArg usedAmounts (zipIdx_map_fst 0 (sortByAmount sources))
  rw [usedAmounts, map_map] at unindexed
  rw [← unindexed]
  refine map_eq_of_forall₂ (Checked.mapM_eq_ok_iff.mp built) ?_
  intro indexed ring isRing
  obtain ⟨_, _, isRing⟩ := Checked.bind_eq_ok.mp isRing
  obtain ⟨_, same⟩ := Checked.rejectIf_bind_eq_ok.mp isRing
  cases same
  rfl

theorem amounts_setupInputs {crypto : WalletCrypto} {rings : List ObscuredInput}
    {privateViewKey : SecretKey} {inputs : List KeyInput} {tmpSecretKeys : List SecretKey}
    (ran : setupInputs crypto rings privateViewKey = .ok (inputs, tmpSecretKeys)) :
    inputs.map KeyInput.amount = rings.map ObscuredInput.amount := by
  obtain ⟨results, setUp, finished⟩ := Checked.bind_eq_ok.mp ran
  cases finished
  rw [map_map]
  refine map_eq_of_forall₂ (Checked.mapM_eq_ok_iff.mp setUp) ?_
  intro ring result isInput
  obtain ⟨_, same⟩ := Checked.rejectIf_bind_eq_ok.mp isInput
  cases same
  rfl

theorem makeTransaction_eq_ok {context : TransferContext} {node : WalletNode}
    {randomTxKey : KeyPair} {ourInputs : List TxInputAndOwner} {paymentID : Text}
    {destinations : List TransactionDestination} {privateViewKey : SecretKey}
    {unlockTime : UInt64} {result : TransactionResult}
    (made : makeTransaction context node randomTxKey mixin ourInputs paymentID destinations
      privateViewKey unlockTime = .ok result) :
    result.transaction.inputAmounts = usedAmounts (sortByAmount ourInputs) ∧
      result.transaction.outputs
        = (setupOutputs context.crypto randomTxKey destinations).map (fun output =>
          { amount := output.amount, target := { key := output.key } }) ∧
      result.outputs = setupOutputs context.crypto randomTxKey destinations := by
  obtain ⟨rings, prepared, made⟩ := Checked.bind_eq_ok.mp made
  obtain ⟨⟨inputs, keys⟩, setUp, made⟩ := Checked.bind_eq_ok.mp made
  obtain ⟨transaction, signed, same⟩ := Checked.bind_eq_ok.mp made
  cases same
  obtain ⟨_, _, signed⟩ := Checked.bind_eq_ok.mp signed
  obtain ⟨_, same⟩ := Checked.rejectIf_bind_eq_ok.mp signed
  cases same
  refine ⟨?_, rfl, rfl⟩
  have keyInputs : (inputs.map Mevacoin.TransactionInput.key).filterMap TransactionInput.keyInput?
      = inputs := by
    rw [filterMap_map]
    exact filterMap_some
  change ((inputs.map Mevacoin.TransactionInput.key).filterMap TransactionInput.keyInput?).map
    KeyInput.amount = _
  rw [keyInputs, amounts_setupInputs setUp, amounts_prepareRingParticipants prepared]

/-! ### Destinations -/

structure Delivers (codec : AddressCodec) (payment : Text × UInt64)
    (group : List TransactionDestination) : Prop where
  addressed : ∃ account, codec.addressToKeys payment.1 = .ok account ∧
    ∀ destination ∈ group, destination.receiverPublicSpendKey = account.spendPublicKey ∧
      destination.receiverPublicViewKey = account.viewPublicKey
  amount : totalAmount (group.map amount) = payment.2.toNat
  denominations : ∀ destination ∈ group, Decimal.IsPart destination.amount.toNat

theorem delivers_splitTransfer {payment : Text × UInt64}
    {account : AccountPublicAddress} (read : codec.addressToKeys payment.1 = .ok account) :
    Delivers codec payment (splitTransfer account payment.2) := by
  refine ⟨⟨account, read, ?_⟩, ?_, ?_⟩
  · intro destination member
    obtain ⟨_, _, same⟩ := mem_map.mp member
    rw [← same]
    exact ⟨rfl, rfl⟩
  · rw [splitTransfer, map_map]
    exact (congrArg totalAmount (map_id _)).trans (totalAmount_splitAmount payment.2)
  · intro destination member
    obtain ⟨denomination, isDenomination, same⟩ := mem_map.mp member
    rw [← same]
    exact isPart_of_mem_splitAmount isDenomination

def withChange (payments : List (Text × UInt64)) (changeRequired : UInt64) (changeAddress : Text) :
    List (Text × UInt64) :=
  if changeRequired ≠ 0 then payments ++ [(changeAddress, changeRequired)] else payments

theorem setupDestinations_eq_ok {changeRequired : UInt64} {changeAddress : Text}
    {destinations : List TransactionDestination}
    (ran : setupDestinations codec payments changeRequired changeAddress = .ok destinations) :
    ∃ groups, List.Forall₂ (Delivers codec) (withChange payments changeRequired changeAddress) groups ∧
      destinations = groups.flatten := by
  obtain ⟨groups, split, same⟩ := Checked.bind_eq_ok.mp ran
  cases same
  refine ⟨groups, (Checked.mapM_eq_ok_iff.mp split).imp ?_, rfl⟩
  intro payment group isGroup
  obtain ⟨account, read, same⟩ := Checked.bind_eq_ok.mp isGroup
  cases same
  exact delivers_splitTransfer read

theorem totalAmount_of_delivers {groups : List (List TransactionDestination)}
    (delivered : List.Forall₂ (Delivers codec) payments groups) :
    totalAmount (groups.flatten.map amount) = totalAmount (payments.map Prod.snd) := by
  induction delivered with
  | nil => rfl
  | cons delivers _ ih =>
    rw [flatten_cons, map_append, totalAmount_append, delivers.amount, ih]
    rfl

theorem totalAmount_withChange (payments : List (Text × UInt64)) (changeRequired : UInt64)
    (changeAddress : Text) :
    totalAmount ((withChange payments changeRequired changeAddress).map Prod.snd)
      = totalAmount (payments.map Prod.snd) + changeRequired.toNat := by
  unfold withChange
  split
  · rw [map_append, totalAmount_append]
    rfl
  · rename_i noChange
    rw [Decidable.not_not.mp noChange]
    rfl

theorem sortDestinations_perm (destinations : List TransactionDestination) :
    (sortDestinations destinations).Perm destinations :=
  perm_insertionSort _ _

theorem amounts_setupOutputs (crypto : WalletCrypto) (randomTxKey : KeyPair)
    (destinations : List TransactionDestination) :
    (setupOutputs crypto randomTxKey destinations).map WalletTypes.KeyOutput.amount
      = (sortDestinations destinations).map amount := by
  have unindexed := congrArg (List.map amount)
    (zipIdx_map_fst 0 (sortDestinations destinations))
  rw [map_map] at unindexed
  rw [← unindexed, setupOutputs, map_map]
  rfl

def requestedPayments (node : WalletNode) (request : TransferRequest) : List (Text × UInt64) :=
  if node.nodeFee.1 ≠ 0 then request.addressesAndAmounts ++ [(node.nodeFee.2, node.nodeFee.1)]
  else request.addressesAndAmounts

def SamePayment (codec : AddressCodec) (requested payment : Text × UInt64) : Prop :=
  payment.2 = requested.2 ∧
    if requested.1.length = integratedAddressLength then
      ∃ paymentID, codec.extractIntegratedAddressData requested.1 = some (payment.1, paymentID)
    else payment.1 = requested.1

theorem samePayment_of_convertIntegrated {requested : List (Text × UInt64)} {given paymentID : Text}
    (ran : convertIntegrated codec requested given = .ok (payments, paymentID)) :
    List.Forall₂ (SamePayment codec) requested payments := by
  induction requested generalizing given payments with
  | nil =>
    cases ran
    exact .nil
  | cons first requested ih =>
    rw [convertIntegrated] at ran
    split at ran
    · rename_i standard
      obtain ⟨⟨_, _⟩, rest, same⟩ := Checked.bind_eq_ok.mp ran
      cases same
      exact .cons ⟨rfl, by rw [if_neg standard]⟩ (ih rest)
    · rename_i integrated
      obtain ⟨⟨inside, extracted⟩, found, ran⟩ := Checked.bind_eq_ok.mp ran
      obtain ⟨⟨_, _⟩, rest, same⟩ := Checked.bind_eq_ok.mp ran
      cases same
      refine .cons ⟨rfl, ?_⟩ (ih rest)
      rw [if_pos (Decidable.not_not.mp integrated)]
      exact ⟨extracted, Checked.orError_eq_ok.mp found⟩

theorem fits_of_validateTransaction {now fee height : UInt64} {given : Text} {takeFrom : List Text}
    {changeAddress : Text} {wallets : SubWallets}
    (accepted : ValidateParameters.validateTransaction codec now payments mixin fee given takeFrom
      changeAddress wallets height = .ok ()) :
    fee.toNat + totalAmount (payments.map Prod.snd) < 2 ^ 64 := by
  obtain ⟨_, _, accepted⟩ := Checked.bind_eq_ok.mp accepted
  obtain ⟨_, _, accepted⟩ := Checked.bind_eq_ok.mp accepted
  obtain ⟨_, _, accepted⟩ := Checked.bind_eq_ok.mp accepted
  obtain ⟨_, amounts, -⟩ := Checked.bind_eq_ok.mp accepted
  obtain ⟨_, amounts⟩ := Checked.rejectIf_bind_eq_ok.mp amounts
  obtain ⟨_, _, amounts⟩ := Checked.bind_eq_ok.mp amounts
  obtain ⟨⟨_, _⟩, _, amounts⟩ := Checked.bind_eq_ok.mp amounts
  obtain ⟨noOverflow, -⟩ := Checked.rejectIf_bind_eq_ok.mp amounts
  rw [Bool.not_eq_true] at noOverflow
  have fits := ValidateParameters.fits_of_sumWillOverflow noOverflow
  rw [totalAmount_cons, UInt64.toNat_zero, Nat.zero_add] at fits
  exact fits

/-! ### Prepared transfers -/

section Prepared
variable {context : TransferContext} {runtime : WalletRuntime} {node : WalletNode}
  {request : TransferRequest} {wallets : SubWallets} {transfer : PreparedTransfer}

structure Prepared (context : TransferContext) (node : WalletNode) (request : TransferRequest)
    (transfer : PreparedTransfer) (randomTxKey : KeyPair)
    (destinations : List TransactionDestination) : Prop where
  payments : List.Forall₂ (SamePayment context.codec) (requestedPayments node request)
    transfer.destinations
  fits : request.fee.toNat + totalAmount ((requestedPayments node request).map Prod.snd) < 2 ^ 64
  covered : getTransactionSum transfer.destinations + request.fee
    ≤ (usedAmounts transfer.ourInputs).sum
  change : transfer.changeRequired = (usedAmounts transfer.ourInputs).sum
    - (getTransactionSum transfer.destinations + request.fee)
  split : setupDestinations context.codec transfer.destinations transfer.changeRequired
    transfer.changeAddress = .ok destinations
  inputs : transfer.result.transaction.inputAmounts = usedAmounts (sortByAmount transfer.ourInputs)
  outputs : transfer.result.transaction.outputs
    = (setupOutputs context.crypto randomTxKey destinations).map (fun output =>
      { amount := output.amount, target := { key := output.key } })

theorem prepareTransfer_eq_ok
    (ran : prepareTransfer context runtime node request wallets = .ok transfer) :
    ∃ destinations, Prepared context node request transfer (runtime.generateKeyPair 0) destinations := by
  obtain ⟨changeAddress, _, ran⟩ := Checked.bind_eq_ok.mp
    ((apply_ite (fun first : Except Failure Text => first >>= _) _ _ _).trans ran)
  obtain ⟨_, accepted, ran⟩ := Checked.bind_eq_ok.mp ran
  obtain ⟨⟨payments, paymentID⟩, converted, ran⟩ := Checked.bind_eq_ok.mp ran
  obtain ⟨keys, _, ran⟩ := Checked.bind_eq_ok.mp ran
  obtain ⟨⟨ourInputs, sumOfInputs⟩, selected, ran⟩ := Checked.bind_eq_ok.mp ran
  obtain ⟨destinations, split, ran⟩ := Checked.bind_eq_ok.mp ran
  obtain ⟨result, made, ran⟩ := Checked.bind_eq_ok.mp ran
  obtain ⟨_, _, ran⟩ := Checked.bind_eq_ok.mp ran
  obtain ⟨_, ran⟩ := Checked.rejectIf_bind_eq_ok.mp ran
  obtain ⟨_, same⟩ := Checked.rejectIf_bind_eq_ok.mp ran
  cases same
  obtain ⟨_, selected⟩ := SubWallets.throwIfViewWallet_bind_eq_ok.mp selected
  obtain ⟨available, _, selected⟩ := Checked.bind_eq_ok.mp selected
  obtain ⟨before, last, after, _, isChosen, isSum, covered⟩ :=
    takeUntilCovered_eq_some (Checked.orError_eq_ok.mp selected)
  rw [UInt64.zero_add, ← nil_append (before ++ [last]), ← isChosen] at isSum
  rw [isSum] at covered split
  obtain ⟨inputs, outputs, _⟩ := makeTransaction_eq_ok made
  exact ⟨destinations,
    { payments := samePayment_of_convertIntegrated converted
      fits := fits_of_validateTransaction accepted
      covered := covered
      change := by rw [isSum]
      split := by rw [isSum]; exact split
      inputs := inputs
      outputs := outputs }⟩

def outputTo (crypto : WalletCrypto) (randomTxKey : KeyPair) (destination : TransactionDestination)
    (outputIndex : Nat) : TransactionOutput :=
  let derivation := crypto.generateKeyDerivation destination.receiverPublicViewKey
    randomTxKey.secretKey
  let key := crypto.derivePublicKey derivation (UInt64.ofNat outputIndex)
    destination.receiverPublicSpendKey
  { amount := destination.amount, target := { key := key } }

/-- The outputs of a relayed transaction pay what was requested, and nothing is lost. -/
structure Conserves (context : TransferContext) (node : WalletNode) (request : TransferRequest)
    (transfer : PreparedTransfer) : Prop where
  balanced : totalAmount transfer.result.transaction.inputAmounts
    = totalAmount transfer.result.transaction.outputAmounts + request.fee.toNat
  remainder : totalAmount transfer.result.transaction.inputAmounts
    = totalAmount ((requestedPayments node request).map Prod.snd) + request.fee.toNat
      + transfer.changeRequired.toNat
  payments : List.Forall₂ (SamePayment context.codec) (requestedPayments node request)
    transfer.destinations
  delivered : ∃ groups, ∃ ordered : List TransactionDestination, ∃ randomTxKey : KeyPair,
    List.Forall₂ (Delivers context.codec)
      (withChange transfer.destinations transfer.changeRequired transfer.changeAddress) groups ∧
    ordered.Perm groups.flatten ∧
    transfer.result.transaction.outputs
      = ordered.zipIdx.map fun entry => outputTo context.crypto randomTxKey entry.1 entry.2
  denominations : ∀ output ∈ transfer.result.transaction.outputs, Decimal.IsPart output.amount.toNat

variable {randomTxKey : KeyPair} {destinations : List TransactionDestination}

section
variable (prepared : Prepared context node request transfer randomTxKey destinations)
include prepared

theorem Prepared.outputAmounts :
    transfer.result.transaction.outputAmounts = (sortDestinations destinations).map amount := by
  rw [Transaction.outputAmounts, prepared.outputs, map_map, ← amounts_setupOutputs]
  rfl

theorem Prepared.totals :
    totalAmount transfer.result.transaction.inputAmounts
        = totalAmount (usedAmounts transfer.ourInputs) ∧
      totalAmount transfer.result.transaction.outputAmounts
        = totalAmount ((requestedPayments node request).map Prod.snd)
          + transfer.changeRequired.toNat ∧
      totalAmount ((requestedPayments node request).map Prod.snd) + request.fee.toNat
          + transfer.changeRequired.toNat
        = totalAmount (usedAmounts transfer.ourInputs) % 2 ^ 64 := by
  have amounts : transfer.destinations.map Prod.snd
      = (requestedPayments node request).map Prod.snd :=
    map_eq_of_forall₂ prepared.payments fun _ _ same => same.1
  have fits := prepared.fits
  refine ⟨?_, ?_, ?_⟩
  · rw [prepared.inputs]
    exact totalAmount_perm ((perm_insertionSort _ _).map _)
  · obtain ⟨groups, delivered, isFlat⟩ := setupDestinations_eq_ok prepared.split
    rw [prepared.outputAmounts, totalAmount_perm ((sortDestinations_perm _).map _), isFlat,
      totalAmount_of_delivers delivered, totalAmount_withChange, amounts]
  · have requested : (getTransactionSum transfer.destinations + request.fee).toNat
        = totalAmount ((requestedPayments node request).map Prod.snd) + request.fee.toNat := by
      rw [getTransactionSum, amounts, UInt64.toNat_add, toNat_sum_of_lt (by omega)]
      exact Nat.mod_eq_of_lt (by omega)
    have covered := UInt64.le_iff_toNat_le.mp prepared.covered
    rw [prepared.change, UInt64.toNat_sub_of_le _ _ prepared.covered]
    rw [requested, toNat_sum_eq] at covered ⊢
    omega

theorem Prepared.conserves_iff :
    Conserves context node request transfer ↔
      totalAmount (usedAmounts transfer.ourInputs) < 2 ^ 64 := by
  obtain ⟨inputs, outputs, total⟩ := prepared.totals
  constructor
  · intro conserves
    have balanced := conserves.remainder
    rw [inputs, total] at balanced
    rw [balanced]
    exact Nat.mod_lt _ (by decide)
  · intro small
    rw [Nat.mod_eq_of_lt small] at total
    obtain ⟨groups, delivered, isFlat⟩ := setupDestinations_eq_ok prepared.split
    refine ⟨?_, ?_, prepared.payments, ?_, ?_⟩
    · omega
    · rw [inputs, total]
    · refine ⟨groups, sortDestinations destinations, randomTxKey, delivered, ?_, ?_⟩
      · rw [← isFlat]
        exact sortDestinations_perm _
      · rw [prepared.outputs, setupOutputs, map_map]
        rfl
    · intro output member
      have isAmount : output.amount ∈ transfer.result.transaction.outputAmounts :=
        mem_map_of_mem member
      rw [prepared.outputAmounts] at isAmount
      obtain ⟨destination, sorted, same⟩ := mem_map.mp isAmount
      have unsorted := (sortDestinations_perm destinations).subset sorted
      rw [isFlat] at unsorted
      obtain ⟨group, isGroup, inside⟩ := mem_flatten.mp unsorted
      rw [← same]
      have all : ∀ group ∈ groups, ∀ destination ∈ group,
          Decimal.IsPart destination.amount.toNat :=
        forall_mem_of_forall₂ delivered (fun _ _ => trivial)
          fun _ _ delivers _ => delivers.denominations
      exact all group isGroup destination inside

end
end Prepared

/-! ### Errors -/

namespace Sending
variable {α β : Type}

/-- Every failure is an exception, not an error that is returned. -/
def ThrowsOnly (action : Sending α) : Prop :=
  ∀ wallets error after, action wallets ≠ .error (.returned error) after

theorem bind_eq_error {first : Sending α} {next : α → Sending β} {wallets after : SubWallets}
    {failure : Failure} :
    (first >>= next) wallets = .error failure after ↔ first wallets = .error failure after ∨
      ∃ result middle, first wallets = .ok result middle ∧
        next result middle = .error failure after := by
  change EStateM.bind first next wallets = _ ↔ _
  unfold EStateM.bind
  cases first wallets with
  | ok result middle =>
    constructor
    · intro failed
      exact .inr ⟨result, middle, rfl, failed⟩
    · intro failed
      rcases failed with never | ⟨_, _, same, failed⟩
      · cases never
      · cases same
        exact failed
  | error failure middle =>
    constructor
    · intro failed
      cases failed
      exact .inl rfl
    · intro failed
      rcases failed with same | ⟨_, _, never, _⟩
      · cases same
        rfl
      · cases never

theorem ThrowsOnly.bind {first : Sending α} {next : α → Sending β} (start : ThrowsOnly first)
    (rest : ∀ result, ThrowsOnly (next result)) : ThrowsOnly (first >>= next) := by
  intro wallets error after failed
  rcases bind_eq_error.mp failed with early | ⟨result, middle, _, late⟩
  · exact start wallets error after early
  · exact rest result middle error after late

theorem throwsOnly_step {change : SubWallets → Except Failure SubWallets}
    (thrown : ∀ wallets, Checked.ErrorsIn (fun failure => ∃ what, failure = .thrown what)
      (change wallets)) : ThrowsOnly (step change) := by
  intro wallets error after failed
  unfold step at failed
  split at failed
  · cases failed
  · rename_i failure isFailure
    cases failed
    obtain ⟨what, isThrown⟩ := thrown wallets _ isFailure
    cases isThrown

theorem throwsOnly_modify (change : SubWallets → SubWallets) :
    ThrowsOnly (modify change : Sending Unit) := by
  intro wallets error after failed
  cases failed

theorem throwsOnly_forM {action : α → Sending Unit} (each : ∀ item, ThrowsOnly (action item))
    (items : List α) : ThrowsOnly (items.forM action) := by
  induction items with
  | nil =>
    intro wallets error after failed
    cases failed
  | cons item items ih => exact (each item).bind fun _ => ih

end Sending

theorem addressToKeys_throws (codec : AddressCodec) (address : Text) :
    Checked.ErrorsIn (fun failure => ∃ what, failure = .thrown what)
      (codec.addressToKeys address) :=
  (orError ⟨_, rfl⟩ _).bind fun _ =>
    (rejectIf ⟨_, rfl⟩).bind fun _ => .ok _

theorem updateEntry_throws {missing : Failure} {change : SubWallet → Except Failure SubWallet}
    (isThrown : ∃ what, missing = .thrown what)
    (thrown : ∀ subWallet, Checked.ErrorsIn (fun failure => ∃ what, failure = .thrown what)
      (change subWallet)) (publicSpendKey : PublicKey) (subWallets : List SubWallet) :
    Checked.ErrorsIn (fun failure => ∃ what, failure = .thrown what)
      (updateEntry missing publicSpendKey change subWallets) := by
  induction subWallets with
  | nil =>
    intro failure failed
    cases failed
    exact isThrown
  | cons subWallet subWallets ih =>
    rw [updateEntry]
    split
    · exact (thrown subWallet).bind fun _ => .ok _
    · exact ih.bind fun _ => .ok _

theorem markInputAsLocked_throws (keyImage : KeyImage) (publicKey : PublicKey)
    (wallets : SubWallets) : Checked.ErrorsIn (fun failure => ∃ what, failure = .thrown what)
      (wallets.markInputAsLocked keyImage publicKey) := by
  refine (rejectIf ⟨_, rfl⟩).bind fun _ => ?_
  refine (updateEntry_throws ⟨_, rfl⟩ ?_ publicKey _).bind fun _ => .ok _
  intro subWallet failure failed
  unfold SubWallet.markInputAsLocked at failed
  split at failed
  · cases failed
  · cases failed
    exact ⟨_, rfl⟩

theorem throwsOnly_recordSent (context : TransferContext) (txHash : Hash) (fee : UInt64)
    (paymentID : Text) (ourInputs : List TxInputAndOwner) (changeAddress : Text)
    (changeRequired : UInt64) (outputs : List WalletTypes.KeyOutput) (txKeyPair : KeyPair) :
    Sending.ThrowsOnly (recordSent context txHash fee paymentID ourInputs changeAddress
      changeRequired outputs txKeyPair) := by
  refine (Sending.throwsOnly_step fun wallets => ?_).bind fun _ =>
    (Sending.throwsOnly_modify _).bind fun _ => (Sending.throwsOnly_modify _).bind fun _ =>
      Sending.throwsOnly_forM (fun input =>
        Sending.throwsOnly_step (markInputAsLocked_throws _ _)) ourInputs
  refine (addressToKeys_throws context.codec changeAddress).bind fun account => ?_
  exact (rejectIf ⟨_, rfl⟩).bind fun _ => .ok _

theorem Sending.read_eq_error {α : Type} {compute : SubWallets → Except Failure α}
    {wallets after : SubWallets} {failure : Failure}
    (failed : Sending.read compute wallets = .error failure after) : after = wallets := by
  unfold Sending.read at failed
  split at failed
  · cases failed
  · cases failed
    rfl

def flatPrimitives : Primitives :=
  { blockFromBinaryArray := fun _ => none
    transactionFromBinaryArray := fun _ => none
    transactionToBinaryArray := fun _ => []
    parentBlockBinarySize := fun _ => 0
    getBinaryArrayHash := fun _ => ⟨0⟩
    getBlockHash := fun _ => ⟨0⟩
    getTransactionPrefixHash := fun _ => ⟨0⟩
    checkKey := fun _ => true
    keyImageInDomain := fun _ => true
    checkRingSignature := fun _ _ _ _ => true
    checkProofOfWork := fun _ _ => true
    signaturesMatch := nofun }

def outputOf (index : UInt64) (amount : UInt64) : WalletTypes.TransactionInput :=
  { keyImage := ⟨BitVec.ofNat 256 index.toNat⟩, amount := amount, blockHeight := 1
    transactionPublicKey := ⟨2⟩, transactionIndex := 0, globalOutputIndex := some index, key := ⟨1⟩
    spendHeight := 0, unlockTime := 0, parentTransactionHash := ⟨3⟩ }

def hugeWallet : SubWallets :=
  { fifthOutputWallet with
    subWallets :=
      [{ unspentInputs := [outputOf 1 (2 ^ 63), outputOf 2 (2 ^ 63), outputOf 3 (2 ^ 63 + 10)]
         publicSpendKey := ⟨1⟩, privateSpendKey := ⟨1⟩, syncStartTimestamp := 0
         syncStartHeight := 0, address := [], isPrimaryAddress := true }] }

def hugeRequest : TransferRequest :=
  { addressesAndAmounts := [(standardAddress, 2 ^ 63 - 5)]
    mixin := 0
    fee := 10
    paymentID := []
    addressesToTakeFrom := []
    changeAddress := standardAddress
    unlockTime := 0 }

end SendTransaction
end Mevacoin
