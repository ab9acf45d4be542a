/-
The records of the wallet backend, and the errors its functions return. Curve
arithmetic is a parameter; keys are only compared.

A C++ string is a list of bytes here.
-/

import Mevacoin.Lib.ByteReader
import Mevacoin.Lib.Hex
import Mevacoin.Types

namespace Mevacoin

structure SecretKey where
  value : BitVec 256
  deriving DecidableEq, Repr

structure KeyDerivation where
  value : BitVec 256
  deriving DecidableEq, Repr

structure KeyPair where
  publicKey : PublicKey
  secretKey : SecretKey
  deriving DecidableEq, Repr

structure AccountPublicAddress where
  spendPublicKey : PublicKey
  viewPublicKey : PublicKey
  deriving DecidableEq, Repr

structure OutputEntry where
  globalAmountIndex : UInt32
  outKey : PublicKey
  deriving DecidableEq, Repr

structure RandomOuts where
  amount : UInt64
  outs : List OutputEntry
  deriving DecidableEq, Repr

/-- The curve operations of the wallet. The code ignores their success flags where
only a result is given here. -/
structure WalletCrypto where
  generateKeyDerivation : PublicKey → SecretKey → KeyDerivation
  derivePublicKey : KeyDerivation → UInt64 → PublicKey → PublicKey
  deriveSecretKey : KeyDerivation → UInt64 → SecretKey → SecretKey
  underivePublicKey : KeyDerivation → UInt64 → PublicKey → PublicKey
  generateKeyImage : PublicKey → SecretKey → KeyImage
  secretKeyToPublicKey : SecretKey → PublicKey
  generateRingSignatures :
    Hash → KeyImage → List PublicKey → SecretKey → UInt64 → Option (List Signature)
  checkRingSignature : Hash → KeyImage → List PublicKey → List Signature → Bool

namespace Wallet

abbrev Text := List UInt8

def ascii (literal : String) : Text := literal.toList.map fun letter => UInt8.ofNat letter.toNat

def podToHex (value : BitVec 256) : Text := Hex.encode (ByteReader.littleEndian 32 value.toNat)

def podFromHex (text : Text) : Option (BitVec 256) := do
  let bytes ← Hex.decode text
  if bytes.length = 32 then some (BitVec.ofNat 256 (ByteReader.ofLittleEndian bytes)) else none

inductive ErrorCode where
  | willOverflow
  | addressNotInWallet
  | notEnoughBalance
  | addressWrongLength
  | addressWrongPrefix
  | addressNotBase58
  | addressNotValid
  | integratedAddressPaymentIdInvalid
  | feeTooSmall
  | noDestinationsGiven
  | amountIsZero
  | failedToCreateRingSignature
  | mixinTooSmall
  | mixinTooBig
  | paymentIdWrongLength
  | paymentIdInvalid
  | addressIsIntegrated
  | conflictingPaymentIds
  | notEnoughFakeOutputs
  | invalidGeneratedKeyimage
  | daemonOffline
  | daemonError
  | tooManyInputsToFitInBlock
  | fullyOptimized
  | fusionMixinTooLarge
  | subwalletAlreadyExists
  | illegalViewWalletOperation
  | illegalNonViewWalletOperation
  | amountsNotPretty
  | unexpectedFee
  | mnemonicWrongLength
  | mnemonicInvalidWord
  | mnemonicInvalidChecksum
  | invalidMnemonic
  deriving DecidableEq, Repr

/-- An error with its own message, or with the standard one when that is empty. -/
structure Error where
  code : ErrorCode
  customMessage : Text := []
  deriving DecidableEq, Repr

/-- How a call of the wallet can end without a result. -/
inductive Failure where
  | returned (error : Error)
  | thrown (what : Text)
  deriving DecidableEq, Repr

def Failure.ofCode (code : ErrorCode) : Failure := .returned { code := code }

def numDecimalPlaces : Nat := 5

def ticker : Text := ascii "XKR"

def getDivisor : UInt64 := UInt64.ofNat (10 ^ numDecimalPlaces)

def toText (number : Nat) : Text := ascii (toString number)

/-- Groups of three digits, counted from the right. -/
def formatDollars (amount : UInt64) : Text :=
  let rec group : Nat → Text → Text
    | 0, digits => digits
    | fuel + 1, digits =>
      if digits.length ≤ 3 then digits
      else group fuel (digits.take (digits.length - 3)) ++ ascii ","
        ++ digits.drop (digits.length - 3)
  group 20 (toText amount.toNat)

def formatCents (amount : UInt64) : Text :=
  let digits := toText amount.toNat
  List.replicate (numDecimalPlaces - digits.length) 48 ++ digits

def formatAmount (amount : UInt64) : Text :=
  formatDollars (amount / getDivisor) ++ ascii "." ++ formatCents (amount % getDivisor)
    ++ ascii " " ++ ticker

end Wallet

namespace WalletTypes
open Wallet (Text)

/-- The global index is missing unless a blockchain cache sent the block. -/
structure KeyOutput where
  key : PublicKey
  amount : UInt64
  globalOutputIndex : Option UInt64 := none
  deriving DecidableEq, Repr

structure RawCoinbaseTransaction where
  keyOutputs : List KeyOutput
  hash : Hash
  transactionPublicKey : PublicKey
  unlockTime : UInt64
  deriving DecidableEq, Repr

structure RawTransaction extends RawCoinbaseTransaction where
  paymentID : Text
  keyInputs : List KeyInput
  deriving DecidableEq, Repr

structure WalletBlockInfo where
  coinbaseTransaction : RawCoinbaseTransaction
  transactions : List RawTransaction
  blockHeight : UInt64
  blockHash : Hash
  blockTimestamp : UInt64
  deriving DecidableEq, Repr

/-! ### What a wallet keeps -/

structure TransactionInput where
  keyImage : KeyImage
  amount : UInt64
  blockHeight : UInt64
  transactionPublicKey : PublicKey
  transactionIndex : UInt64
  globalOutputIndex : Option UInt64
  key : PublicKey
  spendHeight : UInt64
  unlockTime : UInt64
  parentTransactionHash : Hash
  deriving DecidableEq, Repr

structure TxInputAndOwner where
  input : TransactionInput
  publicSpendKey : PublicKey
  privateSpendKey : SecretKey
  deriving DecidableEq, Repr

structure TransactionDestination where
  receiverPublicSpendKey : PublicKey
  receiverPublicViewKey : PublicKey
  amount : UInt64
  deriving DecidableEq, Repr

structure GlobalIndexKey where
  index : UInt64
  key : PublicKey
  deriving DecidableEq, Repr

structure ObscuredInput where
  outputs : List GlobalIndexKey
  realOutput : UInt64
  realTransactionPublicKey : PublicKey
  realOutputTransactionIndex : UInt64
  amount : UInt64
  ownerPublicSpendKey : PublicKey
  ownerPrivateSpendKey : SecretKey
  deriving DecidableEq, Repr

/-- The transfers are a hash map from public spend keys to signed amounts, listed in
the order in which it is iterated. -/
structure Transaction where
  transfers : List (PublicKey × Int64)
  hash : Hash
  fee : UInt64
  blockHeight : UInt64
  timestamp : UInt64
  paymentID : Text
  unlockTime : UInt64
  isCoinbaseTransaction : Bool
  deriving DecidableEq, Repr

/-- Change of a transaction that was sent but is not in a block yet. -/
structure UnconfirmedInput where
  amount : UInt64
  key : PublicKey
  parentTransactionHash : Hash
  deriving DecidableEq, Repr

end WalletTypes
end Mevacoin
