/-
The checks on the parameters of a transfer. Addresses are strings; how they are written in
base 58 is a parameter, while lengths, prefixes and the payment ID inside an integrated
address are looked at here.
-/

import Mevacoin.Mining.BlockTemplate
import Mevacoin.Wallet.SubWallets

namespace Mevacoin
open WalletTypes Wallet Checked

/-- Reading and writing addresses: the payload of a base 58 string with its tag, and the
keys of an address. -/
structure AddressCodec where
  decodeAddr : Text → Option (UInt64 × Text)
  accountFromBinaryArray : Text → Option AccountPublicAddress
  getAccountAddressAsStr : AccountPublicAddress → Text
  parseAccountAddressString : Text → Option (UInt64 × AccountPublicAddress)

def publicAddressBase58Prefix : UInt64 := 18511

def addressPrefix : Text := ascii "bick"

def standardAddressLength : Nat := 98

def integratedAddressLength : Nat := standardAddressLength + 64 * 11 / 8

def paymentIDLen : Nat := 64

def minimumFee : UInt64 := 10

def setPaymentIdToTransactionExtraNonce (paymentId : Hash) : BinaryArray :=
  0x00 :: writeHash paymentId

def parsePaymentId (paymentIdString : Text) : Option Hash :=
  (podFromHex paymentIdString).map Hash.mk

/-- The extra field after the call and whether it succeeded. -/
def createTxExtraWithPaymentId (paymentIdString : Text) (extra : BinaryArray) :
    BinaryArray × Bool :=
  match parsePaymentId paymentIdString with
  | none => (extra, false)
  | some paymentId =>
    match addExtraNonceToTransactionExtra extra (setPaymentIdToTransactionExtraNonce paymentId) with
    | none => (extra, false)
    | some extended => (extended, true)

def TransactionExtraField.nonce? : TransactionExtraField → Option BinaryArray
  | nonce data => some data
  | _ => none

def getPaymentIdFromTransactionExtraNonce (extraNonce : BinaryArray) : Option Hash :=
  match extraNonce with
  | [] => none
  | tag :: data =>
    if data.length ≠ 32 then none
    else if tag ≠ 0x00 then none
    else some { value := BitVec.ofNat 256 (ByteReader.ofLittleEndian data) }

def getPaymentIdFromTxExtra (extra : BinaryArray) : Option Hash :=
  match parseTransactionExtra extra with
  | (_, false) => none
  | (fields, true) => do
    let extraNonce ← fields.findSome? TransactionExtraField.nonce?
    getPaymentIdFromTransactionExtraNonce extraNonce

/-! ### Addresses -/

namespace AddressCodec
variable (codec : AddressCodec)

/-- The address and the payment ID inside an integrated address that is valid. -/
def extractIntegratedAddressData (address : Text) : Option (Text × Text) := do
  let (_, decoded) ← codec.decodeAddr address
  let account ← codec.accountFromBinaryArray (decoded.drop paymentIDLen)
  return (codec.getAccountAddressAsStr account, decoded.take paymentIDLen)

def addressToKeys (address : Text) : Except Failure AccountPublicAddress := do
  let (tag, account) ← orError (.thrown (ascii "Address is not valid!"))
    (codec.parseAccountAddressString address)
  rejectIf (tag ≠ publicAddressBase58Prefix) (.thrown (ascii "Address is not valid!"))
  return account

def addressesToSpendKeys (addresses : List Text) : Except Failure (List PublicKey) :=
  addresses.mapM fun address => do
    let account ← codec.addressToKeys address
    return account.spendPublicKey

def wrongLength (address : Text) : Failure :=
  .returned
    { code := .addressWrongLength
      customMessage := ascii "The address given is the wrong length. It should be "
        ++ toText standardAddressLength ++ ascii " chars or " ++ toText integratedAddressLength
        ++ ascii " chars, but it is " ++ toText address.length ++ ascii " chars." }

def isIntegrated (address : Text) : Failure :=
  .returned
    { code := .addressIsIntegrated
      customMessage := ascii "The address given (" ++ address
        ++ ascii ") is an integrated address, but integrated addresses aren't valid for this parameter." }

def checkIntegrated (integratedAddressesAllowed : Bool) (address : Text) :
    Except Failure Text := do
  rejectIf (integratedAddressesAllowed = false) (isIntegrated address)
  let (_, decoded) ← orError (.ofCode .addressNotBase58) (codec.decodeAddr address)
  rejectIf ((createTxExtraWithPaymentId (decoded.take paymentIDLen) []).2 = false)
    (.ofCode .integratedAddressPaymentIdInvalid)
  let account ← orError (.ofCode .addressNotValid)
    (codec.accountFromBinaryArray (decoded.drop paymentIDLen))
  return codec.getAccountAddressAsStr account

def validateAddress (integratedAddressesAllowed : Bool) (address : Text) :
    Except Failure Unit := do
  rejectIf (address.length ≠ standardAddressLength ∧
    address.length ≠ integratedAddressLength) (wrongLength address)
  rejectIf (address.take addressPrefix.length ≠ addressPrefix)
    (.ofCode .addressWrongPrefix)
  let standard ← if address.length = integratedAddressLength then
      codec.checkIntegrated integratedAddressesAllowed address
    else .ok address
  rejectIf (codec.parseAccountAddressString standard = none) (.ofCode .addressNotValid)

def validateAddresses (addresses : List Text) (integratedAddressesAllowed : Bool) :
    Except Failure Unit :=
  addresses.forM (codec.validateAddress integratedAddressesAllowed)

def notInWallet (address : Text) : Failure :=
  .returned
    { code := .addressNotInWallet
      customMessage := ascii "The address given (" ++ address
        ++ ascii ") does not exist in the wallet container, but it is required to exist for this operation." }

def validateOurAddresses (addresses : List Text) (wallets : SubWallets) :
    Except Failure Unit := do
  codec.validateAddresses addresses false
  addresses.forM fun address => do
    let account ← codec.addressToKeys address
    rejectIf (account.spendPublicKey ∉ wallets.publicSpendKeys) (notInWallet address)

/-! ### Transfers -/

/-- A round of the loop over the destinations: the payment ID known so far. -/
def joinPaymentID (paymentID : Text) (destination : Text × UInt64) : Except Failure Text :=
  if destination.1.length ≠ integratedAddressLength then .ok paymentID
  else do
    let (_, extractedPaymentID) ← orError (.thrown (ascii "basic_string::substr"))
      (codec.extractIntegratedAddressData destination.1)
    if paymentID = [] then return extractedPaymentID
    else
      rejectIf (paymentID ≠ extractedPaymentID) (.ofCode .conflictingPaymentIds)
      return paymentID

def validateIntegratedAddresses (destinations : List (Text × UInt64)) (paymentID : Text) :
    Except Failure Unit := do
  let _ ← destinations.foldlM codec.joinPaymentID paymentID
  return ()

def validateDestinations (destinations : List (Text × UInt64)) : Except Failure Unit := do
  rejectIf (destinations = []) (.ofCode .noDestinationsGiven)
  rejectIf (∃ destination ∈ destinations, destination.2 = 0) (.ofCode .amountIsZero)
  codec.validateAddresses (destinations.map Prod.fst) true

end AddressCodec

namespace ValidateParameters

def isAlphanumeric (character : UInt8) : Bool :=
  (97 ≤ character && character ≤ 122) || (65 ≤ character && character ≤ 90)
    || (48 ≤ character && character ≤ 57)

def validatePaymentID (paymentID : Text) : Except Failure Unit :=
  if paymentID = [] then .ok ()
  else do
    rejectIf (paymentID.length ≠ 64) (.ofCode .paymentIdWrongLength)
    rejectIf (paymentID.all isAlphanumeric = false) (.ofCode .paymentIdInvalid)

def validateMixin (mixin height : UInt64) : Except Failure Unit := do
  let (minMixin, maxMixin) := Mixins.getMixinAllowableRange height.toNat
  rejectIf (mixin.toNat < minMixin)
    (.returned
      { code := .mixinTooSmall
        customMessage := ascii "The mixin value given (" ++ toText mixin.toNat
          ++ ascii ") is lower than the minimum mixin allowed (" ++ toText minMixin
          ++ ascii ")" })
  rejectIf (mixin.toNat > maxMixin)
    (.returned
      { code := .mixinTooBig
        customMessage := ascii "The mixin value given (" ++ toText mixin.toNat
          ++ ascii ") is greater than the maximum mixin allowed (" ++ toText maxMixin
          ++ ascii ")" })

def getTransactionSum (destinations : List (Text × UInt64)) : UInt64 :=
  (destinations.map Prod.snd).sum

/-- A sum of unsigned words overflows when it comes out smaller than one of them. -/
def sumWillOverflow : UInt64 → List UInt64 → Bool
  | _, [] => false
  | sum, item :: items =>
    if item + sum < max item sum then true else sumWillOverflow (sum + item) items

def validateAmount (codec : AddressCodec) (now : UInt64) (destinations : List (Text × UInt64))
    (fee : UInt64) (subWalletsToTakeFrom : List Text) (wallets : SubWallets)
    (currentHeight : UInt64) : Except Failure Unit := do
  rejectIf (fee < minimumFee) (.ofCode .feeTooSmall)
  let keys ← codec.addressesToSpendKeys subWalletsToTakeFrom
  let (availableBalance, _) ← wallets.getBalance now keys subWalletsToTakeFrom.isEmpty
    currentHeight
  let totalAmount := getTransactionSum destinations + fee
  rejectIf (sumWillOverflow 0 (fee :: destinations.map Prod.snd) = true)
    (.ofCode .willOverflow)
  rejectIf (totalAmount > availableBalance) (.ofCode .notEnoughBalance)

def validateTransaction (codec : AddressCodec) (now : UInt64)
    (destinations : List (Text × UInt64)) (mixin fee : UInt64) (paymentID : Text)
    (subWalletsToTakeFrom : List Text) (changeAddress : Text) (wallets : SubWallets)
    (currentHeight : UInt64) : Except Failure Unit := do
  codec.validateDestinations destinations
  codec.validateIntegratedAddresses destinations paymentID
  codec.validateOurAddresses subWalletsToTakeFrom wallets
  validateAmount codec now destinations fee subWalletsToTakeFrom wallets currentHeight
  validateMixin mixin currentHeight
  validatePaymentID paymentID
  codec.validateOurAddresses [changeAddress] wallets

def validateFusionTransaction (codec : AddressCodec) (mixin : UInt64)
    (subWalletsToTakeFrom : List Text) (destinationAddress : Text) (wallets : SubWallets)
    (currentHeight : UInt64) : Except Failure Unit := do
  validateMixin mixin currentHeight
  codec.validateOurAddresses subWalletsToTakeFrom wallets
  codec.validateOurAddresses [destinationAddress] wallets

end ValidateParameters
end Mevacoin
