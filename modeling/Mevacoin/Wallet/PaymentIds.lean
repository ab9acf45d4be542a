/-
The payment ID of a transfer. A payment ID that is given directly may be any sixty-four
letters and digits, but only hexadecimal digits can be written into the extra field.
-/

import Mevacoin.Wallet.Cancelling

namespace Mevacoin
open List WalletTypes Wallet ByteReader Option Checked

variable {text : Text} {codec : AddressCodec}

/-! ### Payment IDs in the extra field -/

def IsHexadecimal (text : Text) : Prop :=
  ∀ character ∈ text, (Hex.digitValue character).isSome = true

instance (text : Text) : Decidable (IsHexadecimal text) :=
  inferInstanceAs (Decidable (∀ character ∈ text, _))

theorem exists_parsePaymentId_iff :
    (∃ paymentId, parsePaymentId text = some paymentId) ↔ text.length = 64 ∧ IsHexadecimal text := by
  constructor
  · intro ⟨paymentId, parsed⟩
    obtain ⟨value, fromHex, -⟩ := map_eq_some_iff.mp parsed
    obtain ⟨bytes, decoded, sized⟩ := bind_eq_some_iff.mp fromHex
    have length := Hex.length_of_decode decoded
    have digits := (Hex.isSome_decode_iff.mp (isSome_of_eq_some decoded)).2
    split at sized
    · exact ⟨by omega, digits⟩
    · cases sized
  · intro ⟨length, digits⟩
    obtain ⟨bytes, decoded⟩ := isSome_iff_exists.mp
      (Hex.isSome_decode_iff.mpr ⟨by rw [length], digits⟩)
    have sized := Hex.length_of_decode decoded
    refine ⟨{ value := BitVec.ofNat 256 (ofLittleEndian bytes) }, ?_⟩
    rw [parsePaymentId, podFromHex, decoded, bind_eq_bind, bind_some, if_pos (by omega), map_some]

theorem createTxExtraWithPaymentId_eq {paymentId : Hash}
    (parsed : parsePaymentId text = some paymentId) (extra : BinaryArray) :
    createTxExtraWithPaymentId text extra
      = (extra ++ (0x02 :: 33 :: 0x00 :: writeHash paymentId), true) := by
  rw [createTxExtraWithPaymentId, parsed]
  rfl

theorem createTxExtraWithPaymentId_eq_none (parsed : parsePaymentId text = none)
    (extra : BinaryArray) : createTxExtraWithPaymentId text extra = (extra, false) := by
  rw [createTxExtraWithPaymentId, parsed]

theorem parseTransactionExtraFrom_publicKey (rounds : Nat) {seen : SeenExtraTags}
    (unseen : seen.publicKey = false) (key : PublicKey) :
    parseTransactionExtraFrom (rounds + 1) seen (0x01 :: writePublicKey key)
      = ([.publicKey key], true) := by
  have read : readPublicKey.run (writePublicKey key) = some (key, []) := by
    apply (canonical_publicKey _ _ _).mpr
    exact ⟨trivial, rfl⟩
  have last : parseTransactionExtraFrom rounds { seen with publicKey := true } [] = ([], true) := by
    cases rounds <;> rfl
  unfold parseTransactionExtraFrom
  simp only [read, unseen, last]
  rfl

theorem getPaymentIdFromTransactionExtraNonce_set (paymentId : Hash) :
    getPaymentIdFromTransactionExtraNonce (setPaymentIdToTransactionExtraNonce paymentId)
      = some paymentId := by
  have fits : paymentId.value.toNat < 256 ^ 32 := paymentId.value.isLt
  rw [setPaymentIdToTransactionExtraNonce, getPaymentIdFromTransactionExtraNonce,
    if_neg (by rw [writeHash, littleEndian_length]; exact fun different => different rfl),
    if_neg (fun different => different rfl), writeHash, ofLittleEndian_littleEndian fits,
    BitVec.ofNat_toNat, BitVec.setWidth_eq]

namespace SendTransaction

theorem getPaymentIdFromTxExtra_transactionExtra {paymentId : Hash}
    (parsed : parsePaymentId text = some paymentId) (given : text ≠ []) (key : PublicKey) :
    getPaymentIdFromTxExtra (transactionExtra text key) = some paymentId := by
  have extra : transactionExtra text key
      = 0x02 :: 33 :: (setPaymentIdToTransactionExtraNonce paymentId
        ++ (0x01 :: writePublicKey key)) := by
    rw [transactionExtra, if_pos given, createTxExtraWithPaymentId_eq parsed]
    rfl
  have read : (times byte 33).run (setPaymentIdToTransactionExtraNonce paymentId
      ++ (0x01 :: writePublicKey key))
      = some (setPaymentIdToTransactionExtraNonce paymentId, 0x01 :: writePublicKey key) := by
    refine (canonical_bytes 33 _ _ _).mpr ⟨?_, rfl⟩
    exact congrArg (· + 1) (littleEndian_length 32 paymentId.value.toNat)
  have fields : parseTransactionExtra (transactionExtra text key)
      = ([.nonce (setPaymentIdToTransactionExtraNonce paymentId), .publicKey key], true) := by
    rw [extra, parseTransactionExtra, length_cons, length_cons]
    unfold parseTransactionExtraFrom
    have size : (33 : UInt8).toNat = 33 := rfl
    simp only [size, read, parseTransactionExtraFrom_publicKey]
    rfl
  rw [getPaymentIdFromTxExtra, fields]
  exact getPaymentIdFromTransactionExtraNonce_set paymentId

theorem generateRingSignatures_extra {context : TransferContext} {tx signed : Transaction}
    {inputs : List ObscuredInput} {keys : List SecretKey}
    (ran : generateRingSignatures context tx inputs keys = .ok signed) :
    signed.extra = tx.extra := by
  obtain ⟨_, _, rest⟩ := bind_eq_ok.mp ran
  obtain ⟨_, same⟩ := rejectIf_bind_eq_ok.mp rest
  cases same
  rfl

theorem makeTransaction_extra {context : TransferContext} {node : WalletNode}
    {randomTxKey : KeyPair} {mixin : UInt64} {ourInputs : List TxInputAndOwner} {paymentID : Text}
    {destinations : List TransactionDestination} {privateViewKey : SecretKey}
    {unlockTime : UInt64} {result : TransactionResult}
    (made : makeTransaction context node randomTxKey mixin ourInputs paymentID destinations
      privateViewKey unlockTime = .ok result) :
    result.transaction.extra = transactionExtra paymentID randomTxKey.publicKey := by
  obtain ⟨_, _, made⟩ := bind_eq_ok.mp made
  obtain ⟨_, _, made⟩ := bind_eq_ok.mp made
  obtain ⟨transaction, signed, same⟩ := bind_eq_ok.mp made
  cases same
  exact generateRingSignatures_extra signed

/-! ### The payment ID of a transfer -/

theorem convertIntegrated_paymentID {destinations converted} {given paymentID : Text}
    (ran : convertIntegrated codec destinations given = .ok (converted, paymentID)) :
    paymentID = given ∨ ∃ destination ∈ destinations,
      destination.1.length = integratedAddressLength ∧
        ∃ address, codec.extractIntegratedAddressData destination.1 = some (address, paymentID) := by
  induction destinations generalizing given converted with
  | nil =>
    cases ran
    exact .inl rfl
  | cons destination destinations ih =>
    obtain ⟨address, amount⟩ := destination
    rw [convertIntegrated] at ran
    split at ran
    · obtain ⟨⟨_, _⟩, rest, same⟩ := bind_eq_ok.mp ran
      cases same
      rcases ih rest with same | ⟨other, member, integrated⟩
      · exact .inl same
      · exact .inr ⟨other, mem_cons_of_mem _ member, integrated⟩
    · rename_i integrated
      obtain ⟨⟨inside, extracted⟩, found, ran⟩ := bind_eq_ok.mp ran
      obtain ⟨⟨_, _⟩, rest, same⟩ := bind_eq_ok.mp ran
      cases same
      rcases ih rest with same | ⟨other, member, integrated⟩
      · refine .inr ⟨(address, amount), mem_cons_self, Decidable.not_not.mp integrated,
          inside, ?_⟩
        rw [same]
        exact orError_eq_ok.mp found
      · exact .inr ⟨other, mem_cons_of_mem _ member, integrated⟩

end SendTransaction

namespace AddressCodec

theorem eq_of_joinPaymentID {destinations : List (Text × UInt64)} {given joined : Text}
    (ran : destinations.foldlM codec.joinPaymentID given = .ok joined) (nonempty : given ≠ []) :
    ∀ destination ∈ destinations, destination.1.length = integratedAddressLength →
      ∀ address paymentID,
        codec.extractIntegratedAddressData destination.1 = some (address, paymentID) →
          paymentID = given := by
  induction destinations with
  | nil => exact nofun
  | cons destination destinations ih =>
    obtain ⟨middle, first, rest⟩ := foldlM_cons_eq_ok.mp ran
    unfold joinPaymentID at first
    split at first
    · rename_i standard
      cases first
      refine forall_mem_cons.mpr ⟨fun integrated => absurd integrated standard, ih rest⟩
    · obtain ⟨⟨inside, extracted⟩, found, first⟩ := bind_eq_ok.mp first
      obtain ⟨agree, same⟩ := rejectIf_bind_eq_ok.mp first
      cases same
      refine forall_mem_cons.mpr ⟨fun _ address paymentID inside => ?_, ih rest⟩
      rw [orError_eq_ok.mp found] at inside
      cases inside
      exact (Decidable.not_not.mp agree).symm

theorem parsePaymentId_of_validateAddress {allowed : Bool}
    {address inside paymentID : Text} (valid : codec.validateAddress allowed address = .ok ())
    (integrated : address.length = integratedAddressLength)
    (extracted : codec.extractIntegratedAddressData address = some (inside, paymentID)) :
    ∃ paymentId, parsePaymentId paymentID = some paymentId := by
  obtain ⟨_, valid⟩ := rejectIf_bind_eq_ok.mp valid
  obtain ⟨_, valid⟩ := rejectIf_bind_eq_ok.mp valid
  rw [if_pos integrated] at valid
  obtain ⟨_, checked, -⟩ := bind_eq_ok.mp valid
  obtain ⟨_, checked⟩ := rejectIf_bind_eq_ok.mp checked
  obtain ⟨⟨tag, decoded⟩, found, checked⟩ := bind_eq_ok.mp checked
  obtain ⟨written, -⟩ := rejectIf_bind_eq_ok.mp checked
  obtain ⟨_, sameDecoded, extracted⟩ := bind_eq_some_iff.mp extracted
  rw [orError_eq_ok.mp found] at sameDecoded
  cases sameDecoded
  obtain ⟨_, _, same⟩ := bind_eq_some_iff.mp extracted
  cases same
  cases parsed : parsePaymentId (decoded.take paymentIDLen) with
  | some paymentId => exact ⟨paymentId, rfl⟩
  | none => exact absurd (by rw [createTxExtraWithPaymentId_eq_none parsed]) written

end AddressCodec

namespace SendTransaction
section Accepted
variable {context : TransferContext} {now mixin fee : UInt64} {destinations converted}
  {given paymentID : Text} {takeFrom : List Text} {changeAddress : Text} {wallets : SubWallets}
  {height : UInt64}

/-- What an accepted payment ID is: the given one, of sixty-four letters and digits, or
that of an integrated address, which can be written. -/
theorem accepted_paymentID
    (accepted : ValidateParameters.validateTransaction context.codec now destinations mixin fee
      given takeFrom changeAddress wallets height = .ok ())
    (ran : convertIntegrated context.codec destinations given = .ok (converted, paymentID))
    (nonempty : paymentID ≠ []) :
    paymentID = given ∧ given.length = 64 ∨
      given = [] ∧ ∃ paymentId, parsePaymentId paymentID = some paymentId := by
  obtain ⟨_, valid, accepted⟩ := bind_eq_ok.mp accepted
  obtain ⟨_, joined, accepted⟩ := bind_eq_ok.mp accepted
  obtain ⟨_, _, accepted⟩ := bind_eq_ok.mp accepted
  obtain ⟨_, _, accepted⟩ := bind_eq_ok.mp accepted
  obtain ⟨_, _, accepted⟩ := bind_eq_ok.mp accepted
  obtain ⟨_, validID, -⟩ := bind_eq_ok.mp accepted
  by_cases empty : given = []
  · rcases convertIntegrated_paymentID ran with same | ⟨destination, member, integrated, found⟩
    · exact absurd (same.trans empty) nonempty
    · obtain ⟨inside, extracted⟩ := found
      obtain ⟨_, valid⟩ := rejectIf_bind_eq_ok.mp valid
      obtain ⟨_, valid⟩ := rejectIf_bind_eq_ok.mp valid
      have each := forM_eq_ok_iff.mp valid destination.1 (mem_map_of_mem member)
      exact .inr ⟨empty,
        AddressCodec.parsePaymentId_of_validateAddress each integrated extracted⟩
  · obtain ⟨_, joined, -⟩ := bind_eq_ok.mp joined
    have same : paymentID = given := by
      rcases convertIntegrated_paymentID ran with same | ⟨destination, member, integrated, found⟩
      · exact same
      · obtain ⟨inside, extracted⟩ := found
        exact AddressCodec.eq_of_joinPaymentID joined empty destination member integrated inside
          paymentID extracted
    rw [ValidateParameters.validatePaymentID, if_neg empty] at validID
    obtain ⟨length, -⟩ := rejectIf_bind_eq_ok.mp validID
    exact .inl ⟨same, Decidable.not_not.mp length⟩

/-- A transaction carries an accepted payment ID exactly if the one that was given
directly, if any, is hexadecimal. -/
theorem makeTransaction_carries_paymentID_iff {node : WalletNode} {randomTxKey : KeyPair}
    {ringMixin : UInt64} {ourInputs : List TxInputAndOwner}
    {transfers : List TransactionDestination} {privateViewKey : SecretKey} {unlockTime : UInt64}
    {result : TransactionResult}
    (accepted : ValidateParameters.validateTransaction context.codec now destinations mixin fee
      given takeFrom changeAddress wallets height = .ok ())
    (ran : convertIntegrated context.codec destinations given = .ok (converted, paymentID))
    (nonempty : paymentID ≠ [])
    (made : makeTransaction context node randomTxKey ringMixin ourInputs paymentID transfers
      privateViewKey unlockTime = .ok result) :
    (∃ paymentId, parsePaymentId paymentID = some paymentId ∧
        getPaymentIdFromTxExtra result.transaction.extra = some paymentId) ↔
      IsHexadecimal given := by
  have carried : (∃ paymentId, parsePaymentId paymentID = some paymentId ∧
      getPaymentIdFromTxExtra result.transaction.extra = some paymentId) ↔
        ∃ paymentId, parsePaymentId paymentID = some paymentId := by
    rw [makeTransaction_extra made]
    exact exists_congr fun paymentId => and_iff_left_of_imp fun parsed =>
      getPaymentIdFromTxExtra_transactionExtra parsed nonempty randomTxKey.publicKey
  rw [carried]
  rcases accepted_paymentID accepted ran nonempty with ⟨same, length⟩ | ⟨empty, parsed⟩
  · rw [exists_parsePaymentId_iff, same]
    exact and_iff_right length
  · rw [empty]
    exact iff_of_true parsed nofun

end Accepted

def standardAddress : Text := addressPrefix ++ replicate 94 48

def acceptingNode (indexes : List UInt32) : WalletNode :=
  { getRandomOuts := answering indexes
    nodeFee := (0, [])
    networkBlockCount := 20
    sendTransaction := fun _ => some true }

theorem makeTransaction_carries_zeros :
    ValidateParameters.validateTransaction flatCodec 0 [(standardAddress, 50)] 2 10
        (replicate 64 48) [] standardAddress fifthOutputWallet 20 = .ok () ∧
      ∀ primitives, ∃ result,
        makeTransaction ⟨flatCrypto, primitives, flatCodec⟩ (acceptingNode [7, 9]) ⟨⟨6⟩, ⟨6⟩⟩ 2
          [fifthOutput] (replicate 64 48) [] ⟨5⟩ 0 = .ok result ∧
        ∃ paymentId, parsePaymentId (replicate 64 48) = some paymentId ∧
          getPaymentIdFromTxExtra result.transaction.extra = some paymentId := by
  have accepted : ValidateParameters.validateTransaction flatCodec 0 [(standardAddress, 50)] 2 10
      (replicate 64 48) [] standardAddress fifthOutputWallet 20 = .ok () := by decide +kernel
  have converted : convertIntegrated flatCodec [(standardAddress, 50)] (replicate 64 48)
      = .ok ([(standardAddress, 50)], replicate 64 48) := by decide +kernel
  refine ⟨accepted, fun primitives => ?_⟩
  obtain ⟨result, made⟩ : ∃ result,
      makeTransaction ⟨flatCrypto, primitives, flatCodec⟩ (acceptingNode [7, 9]) ⟨⟨6⟩, ⟨6⟩⟩ 2
        [fifthOutput] (replicate 64 48) [] ⟨5⟩ 0 = .ok result := ⟨_, rfl⟩
  exact ⟨result, made, (makeTransaction_carries_paymentID_iff accepted converted (by decide)
    made).mpr (by decide +kernel)⟩

/-- Sixty-four times the letter z is accepted, and the transaction has no payment ID. -/
theorem paymentID_dropped :
    ValidateParameters.validateTransaction flatCodec 0 [(standardAddress, 50)] 2 10
        (replicate 64 122) [] standardAddress fifthOutputWallet 20 = .ok () ∧
      ∀ primitives, ∃ result,
        makeTransaction ⟨flatCrypto, primitives, flatCodec⟩ (acceptingNode [7, 9]) ⟨⟨6⟩, ⟨6⟩⟩ 2
          [fifthOutput] (replicate 64 122) [] ⟨5⟩ 0 = .ok result ∧
        getPaymentIdFromTxExtra result.transaction.extra = none := by
  refine ⟨by decide +kernel, fun primitives => ?_⟩
  obtain ⟨result, made⟩ : ∃ result,
      makeTransaction ⟨flatCrypto, primitives, flatCodec⟩ (acceptingNode [7, 9]) ⟨⟨6⟩, ⟨6⟩⟩ 2
        [fifthOutput] (replicate 64 122) [] ⟨5⟩ 0 = .ok result := ⟨_, rfl⟩
  refine ⟨result, made, ?_⟩
  rw [makeTransaction_extra made]
  decide +kernel

end SendTransaction
end Mevacoin
