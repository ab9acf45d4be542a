/-
The binary format of transactions. The signature section carries no sizes of its
own: how many signatures are read follows from the inputs, and nothing is read for
a single base input.
-/

import Mevacoin.Serialization.BinaryStream

namespace Mevacoin
open List ByteReader TransactionInput

namespace Parameters

def transactionVersion1 : UInt8 := 1
def transactionVersion2 : UInt8 := 2
def currentTransactionVersion : UInt8 := transactionVersion1

end Parameters

open Parameters

/-! ### Inputs and outputs -/

def readKeyInput : ByteReader KeyInput := do
  let amount ← readVarint64
  let outputIndexes ← readContainer readVarint32
  let keyImage ← readKeyImage
  pure { amount, outputIndexes, keyImage }

def writeKeyInput (input : KeyInput) : List UInt8 :=
  writeVarint input.amount.toNat
    ++ (writeContainer (fun index => writeVarint index.toNat) input.outputIndexes
    ++ writeKeyImage input.keyImage)

def readInput : ByteReader TransactionInput := do
  let tag ← byte
  if tag = 0xff then
    let blockIndex ← readVarint32
    pure (.base blockIndex)
  else if tag = 0x2 then
    let input ← readKeyInput
    pure (.key input)
  else failure

def writeInput : TransactionInput → List UInt8
  | .base blockIndex => 0xff :: writeVarint blockIndex.toNat
  | .key input => 0x2 :: writeKeyInput input

def readOutput : ByteReader TransactionOutput := do
  let amount ← readVarint64
  let tag ← byte
  check (tag = 0x2)
  let key ← readPublicKey
  pure { amount, target := { key } }

def writeOutput (output : TransactionOutput) : List UInt8 :=
  writeVarint output.amount.toNat ++ ([0x2] ++ writePublicKey output.target.key)

namespace TransactionInput

def getSignaturesCount : TransactionInput → Nat
  | base _ => 0
  | key input => input.outputIndexes.length

def Sized : TransactionInput → Prop
  | base _ => True
  | key input => input.outputIndexes.length < 2 ^ 64

instance : DecidablePred Sized
  | base _ => inferInstanceAs (Decidable True)
  | key input => inferInstanceAs (Decidable (input.outputIndexes.length < 2 ^ 64))

end TransactionInput

theorem canonical_keyInput :
    Canonical readKeyInput writeKeyInput (fun input => input.outputIndexes.length < 2 ^ 64) := by
  intro bytes input rest
  simp only [readKeyInput, run_bind_iff, canonical_varint64 _ _ _,
    canonical_container canonical_varint32 _ _ _, canonical_keyImage _ _ _, run_pure_iff,
    writeKeyInput, append_assoc, implies_true, and_true, true_and]
  constructor
  · rintro ⟨amount, _, rfl, indexes, _, ⟨fits, rfl⟩, keyImage, _, rfl, rfl, rfl⟩
    exact ⟨fits, rfl⟩
  · rintro ⟨fits, rfl⟩
    exact ⟨_, _, rfl, _, _, ⟨fits, rfl⟩, _, _, rfl, rfl, rfl⟩

theorem canonical_input :
    Canonical readInput writeInput TransactionInput.Sized := by
  intro bytes input rest
  simp only [readInput, run_bind_iff, canonical_byte _ _ _, true_and]
  constructor
  · rintro ⟨tag, _, rfl, ran⟩
    split at ran
    · rename_i isBase
      simp only [run_bind_iff, canonical_varint32 _ _ _, run_pure_iff, true_and] at ran
      obtain ⟨blockIndex, _, rfl, rfl, rfl⟩ := ran
      rw [isBase]
      exact ⟨trivial, rfl⟩
    · split at ran
      · rename_i isKey
        simp only [run_bind_iff, canonical_keyInput _ _ _, run_pure_iff] at ran
        obtain ⟨keyInput, _, ⟨fits, rfl⟩, rfl, rfl⟩ := ran
        rw [isKey]
        exact ⟨fits, rfl⟩
      · cases ran
  · rintro ⟨sized, rfl⟩
    cases input with
    | base blockIndex =>
      refine ⟨0xff, _, rfl, ?_⟩
      simp only [if_true, run_bind_iff, canonical_varint32 _ _ _, run_pure_iff, true_and]
      exact ⟨blockIndex, rest, rfl, rfl, rfl⟩
    | key keyInput =>
      have notBase : ¬(0x2 : UInt8) = 0xff := by decide
      refine ⟨0x2, _, rfl, ?_⟩
      simp only [if_neg notBase, if_true, run_bind_iff, canonical_keyInput _ _ _, run_pure_iff]
      exact ⟨keyInput, rest, ⟨sized, rfl⟩, rfl, rfl⟩

theorem canonical_output : Canonical readOutput writeOutput (fun _ => True) := by
  intro bytes output rest
  simp only [readOutput, run_bind_iff, canonical_varint64 _ _ _, canonical_byte _ _ _,
    run_check_iff, canonical_publicKey _ _ _, run_pure_iff, writeOutput, append_assoc, true_and]
  constructor
  · rintro ⟨amount, _, rfl, tag, _, rfl, _, _, ⟨rfl, rfl⟩, key, _, rfl, rfl, rfl⟩
    rfl
  · rintro rfl
    exact ⟨_, _, rfl, _, _, rfl, (), _, ⟨rfl, rfl⟩, _, _, rfl, rfl, rfl⟩

/-! ### The transaction -/

namespace Transaction

def toPrefix (transaction : Transaction) : TransactionPrefix :=
  { version := transaction.version
    unlockTime := transaction.unlockTime
    inputs := transaction.inputs
    outputs := transaction.outputs
    extra := transaction.extra }

end Transaction

structure TransactionPrefix.Sized (transaction : TransactionPrefix) : Prop where
  inputs : transaction.inputs.length < 2 ^ 64
  indexes : ∀ input ∈ transaction.inputs, input.Sized
  outputs : transaction.outputs.length < 2 ^ 64
  extra : transaction.extra.length < 2 ^ 64

def Transaction.Sized (transaction : Transaction) : Prop := transaction.toPrefix.Sized

def readFields (version : UInt8) : ByteReader TransactionPrefix := do
  let unlockTime ← readVarint64
  let inputs ← readContainer readInput
  let outputs ← readContainer readOutput
  let extra ← readContainer byte
  pure { version, unlockTime, inputs, outputs, extra }

def readTransactionPrefix : ByteReader TransactionPrefix := do
  let version ← readVarint8
  check (¬currentTransactionVersion < version)
  readFields version

def writeFields (transaction : TransactionPrefix) : List UInt8 :=
  writeVarint transaction.unlockTime.toNat ++ (writeContainer writeInput transaction.inputs
    ++ (writeContainer writeOutput transaction.outputs
    ++ writeContainer (fun value => [value]) transaction.extra))

def writeTransactionPrefix (transaction : TransactionPrefix) : List UInt8 :=
  writeVarint transaction.version.toNat ++ writeFields transaction

theorem canonical_fields (version : UInt8) :
    Canonical (readFields version) writeFields
      (fun transaction => transaction.version = version ∧ transaction.Sized) := by
  intro bytes transaction rest
  simp only [readFields, run_bind_iff, canonical_varint64 _ _ _,
    canonical_container canonical_input _ _ _, canonical_container canonical_output _ _ _,
    canonical_string _ _ _, run_pure_iff, writeFields, append_assoc, implies_true,
    and_true, true_and]
  constructor
  · rintro ⟨unlockTime, _, rfl, inputs, _, ⟨⟨inputsFit, indexesFit⟩, rfl⟩, outputs, _,
      ⟨outputsFit, rfl⟩, extra, _, ⟨extraFits, rfl⟩, rfl, rfl⟩
    exact ⟨⟨rfl, inputsFit, indexesFit, outputsFit, extraFits⟩, rfl⟩
  · rintro ⟨⟨rfl, inputsFit, indexesFit, outputsFit, extraFits⟩, rfl⟩
    exact ⟨_, _, rfl, _, _, ⟨⟨inputsFit, indexesFit⟩, rfl⟩, _, _, ⟨outputsFit, rfl⟩, _, _,
      ⟨extraFits, rfl⟩, rfl, rfl⟩

theorem canonical_transactionPrefix :
    Canonical readTransactionPrefix writeTransactionPrefix
      (fun transaction => transaction.version ≤ currentTransactionVersion ∧ transaction.Sized) := by
  intro bytes transaction rest
  simp only [readTransactionPrefix, run_bind_iff, canonical_varint8 _ _ _, run_check_iff,
    canonical_fields _ _ _ _, writeTransactionPrefix, append_assoc, true_and, UInt8.not_lt]
  constructor
  · rintro ⟨version, _, rfl, _, _, ⟨known, rfl⟩, ⟨rfl, sized⟩, rfl⟩
    exact ⟨⟨known, sized⟩, rfl⟩
  · rintro ⟨⟨known, sized⟩, rfl⟩
    exact ⟨_, _, rfl, (), _, ⟨known, rfl⟩, ⟨rfl, sized⟩, rfl⟩

/-! ### Signatures -/

def readSignatureLists : List TransactionInput → ByteReader (List (List Signature))
  | [] => pure []
  | input :: inputs => do
      let signatures ← times readSignature input.getSignaturesCount
      let others ← readSignatureLists inputs
      pure (signatures :: others)

/-- Nothing is read for a single base input. -/
def readSignatures : List TransactionInput → ByteReader (List (List Signature))
  | [.base _] => pure []
  | inputs => readSignatureLists inputs

def readTransaction : ByteReader Transaction := do
  let tx ← readTransactionPrefix
  let signatures ← readSignatures tx.inputs
  pure
    { version := tx.version
      unlockTime := tx.unlockTime
      inputs := tx.inputs
      outputs := tx.outputs
      extra := tx.extra
      signatures := signatures }

/-- Each list must have the size that its input asks for. -/
def writeSignatureLists : List TransactionInput → List (List Signature) → Option (List UInt8)
  | input :: inputs, signatures :: others => do
      if input.getSignaturesCount ≠ signatures.length then none
      else
        let written ← writeSignatureLists inputs others
        some (signatures.flatMap writeSignature ++ written)
  | _, _ => some []

/-- Without signatures, no input may ask for one. -/
def writeSignatures (inputs : List TransactionInput) (signatures : List (List Signature)) :
    Option (List UInt8) :=
  if signatures.isEmpty then
    if inputs.all (fun input => input.getSignaturesCount = 0) then some [] else none
  else if inputs.length ≠ signatures.length then none
  else writeSignatureLists inputs signatures

namespace Transaction

/-- `none` is the exception about the number of signatures. -/
def toBinaryArray (transaction : Transaction) : Option BinaryArray := do
  let signatures ← writeSignatures transaction.inputs transaction.signatures
  some (writeTransactionPrefix transaction.toPrefix ++ signatures)

def fromBinaryArray (binaryArray : BinaryArray) : Option Transaction :=
  readTransaction.all binaryArray

end Transaction

def signatureBytes (signatures : List (List Signature)) : List UInt8 :=
  signatures.flatMap fun list => list.flatMap writeSignature

theorem canonical_signatureLists (inputs : List TransactionInput) :
    Canonical (readSignatureLists inputs) signatureBytes (fun signatures =>
      signatures.map length = inputs.map getSignaturesCount) := by
  induction inputs with
  | nil =>
    intro bytes signatures rest
    simp only [readSignatureLists, run_pure_iff, map_nil, map_eq_nil_iff]
    constructor
    · rintro ⟨rfl, rfl⟩
      exact ⟨rfl, rfl⟩
    · rintro ⟨rfl, rfl⟩
      exact ⟨rfl, rfl⟩
  | cons input inputs ih =>
    intro bytes signatures rest
    simp only [readSignatureLists, run_bind_iff, canonical_signature.times _ _ _ _, ih _ _ _,
      run_pure_iff, implies_true, and_true]
    constructor
    · rintro ⟨first, _, ⟨length, rfl⟩, others, _, ⟨lengths, rfl⟩, rfl, rfl⟩
      refine ⟨?_, ?_⟩
      · rw [map_cons, map_cons, length, lengths]
      · rw [← append_assoc]
        rfl
    · rintro ⟨lengths, rfl⟩
      cases signatures with
      | nil => cases lengths
      | cons first others =>
        rw [map_cons, map_cons, List.cons.injEq] at lengths
        rw [signatureBytes, flatMap_cons, append_assoc]
        exact ⟨first, _, ⟨lengths.1, rfl⟩, others, _, ⟨lengths.2, rfl⟩, rfl, rfl⟩

/-- What a transaction's signatures must be, as a condition on the inputs and the lists. -/
def SignatureShape (inputs : List TransactionInput) (signatures : List (List Signature)) : Prop :=
  match inputs with
  | [.base _] => signatures = []
  | inputs => signatures.map length = inputs.map getSignaturesCount

theorem canonical_signatures (inputs : List TransactionInput) :
    Canonical (readSignatures inputs) signatureBytes (SignatureShape inputs) := by
  unfold readSignatures SignatureShape
  split
  · intro bytes signatures rest
    rw [run_pure_iff]
    constructor
    · rintro ⟨rfl, rfl⟩
      exact ⟨rfl, rfl⟩
    · rintro ⟨rfl, rfl⟩
      exact ⟨rfl, rfl⟩
  · exact canonical_signatureLists inputs

theorem Transaction.signaturesMatch_iff {transaction : Transaction} :
    transaction.SignaturesMatch ↔ SignatureShape transaction.inputs transaction.signatures := by
  rfl

theorem writeSignatureLists_of_lengths {inputs : List TransactionInput}
    {signatures : List (List Signature)}
    (lengths : signatures.map length = inputs.map getSignaturesCount) :
    writeSignatureLists inputs signatures = some (signatureBytes signatures) := by
  induction inputs generalizing signatures with
  | nil =>
    rw [map_nil, map_eq_nil_iff] at lengths
    rw [lengths]
    rfl
  | cons input inputs ih =>
    cases signatures with
    | nil => cases lengths
    | cons first others =>
      rw [map_cons, map_cons, List.cons.injEq] at lengths
      have size : ¬input.getSignaturesCount ≠ first.length := not_not_intro lengths.1.symm
      unfold writeSignatureLists
      rw [if_neg size, ih lengths.2]
      rfl

theorem writeSignatures_of_shape {inputs : List TransactionInput}
    {signatures : List (List Signature)} (shape : SignatureShape inputs signatures) :
    writeSignatures inputs signatures = some (signatureBytes signatures) := by
  have fromLengths : signatures.map length = inputs.map getSignaturesCount →
      writeSignatures inputs signatures = some (signatureBytes signatures) := by
    intro lengths
    have sameLength : inputs.length = signatures.length := by
      have both := congrArg length lengths
      rw [length_map, length_map] at both
      exact both.symm
    unfold writeSignatures
    cases signatures with
    | nil =>
      rw [length_eq_zero_iff.mp sameLength]
      rfl
    | cons first others =>
      rw [if_neg (by simp), if_neg (not_not_intro sameLength)]
      exact writeSignatureLists_of_lengths lengths
  unfold SignatureShape at shape
  split at shape
  · rw [shape]
    rfl
  · exact fromLengths shape

structure Transaction.Serializable (transaction : Transaction) : Prop where
  version : transaction.version ≤ currentTransactionVersion
  signatures : transaction.SignaturesMatch
  sized : transaction.Sized

/-- The written form of a transaction whose signatures have the right shape. -/
def transactionBytes (transaction : Transaction) : List UInt8 :=
  writeTransactionPrefix transaction.toPrefix ++ signatureBytes transaction.signatures

theorem canonical_transaction :
    Canonical readTransaction transactionBytes Transaction.Serializable := by
  intro bytes transaction rest
  simp only [readTransaction, run_bind_iff, canonical_transactionPrefix _ _ _,
    canonical_signatures _ _ _ _, run_pure_iff, transactionBytes, append_assoc]
  constructor
  · rintro ⟨fields, _, ⟨⟨known, sized⟩, rfl⟩, signatures, _, ⟨shape, rfl⟩, rfl, rfl⟩
    exact ⟨⟨known, Transaction.signaturesMatch_iff.mpr shape, sized⟩, rfl⟩
  · rintro ⟨⟨known, isMatch, sized⟩, rfl⟩
    exact ⟨transaction.toPrefix, _, ⟨⟨known, sized⟩, rfl⟩, transaction.signatures, _,
      ⟨Transaction.signaturesMatch_iff.mp isMatch, rfl⟩, rfl, rfl⟩

theorem Transaction.toBinaryArray_of_signaturesMatch {transaction : Transaction}
    (isMatch : transaction.SignaturesMatch) :
    transaction.toBinaryArray = some (transactionBytes transaction) := by
  unfold Transaction.toBinaryArray
  rw [writeSignatures_of_shape (Transaction.signaturesMatch_iff.mp isMatch)]
  rfl

/-- Every serializable transaction is read back from its bytes, and no other byte string
is read as that transaction. -/
theorem Transaction.binaryArray_bijection :
    (∀ transaction : Transaction, transaction.version ≤ currentTransactionVersion →
      transaction.SignaturesMatch → transaction.Sized →
      ∃ binaryArray, transaction.toBinaryArray = some binaryArray ∧
        fromBinaryArray binaryArray = some transaction) ∧
    ∀ binaryArray transaction, fromBinaryArray binaryArray = some transaction →
      transaction.toBinaryArray = some binaryArray := by
  constructor
  · intro transaction known isMatch sized
    refine ⟨transactionBytes transaction, toBinaryArray_of_signaturesMatch isMatch, ?_⟩
    exact canonical_transaction.all_eq_some.mpr ⟨⟨known, isMatch, sized⟩, rfl⟩
  · intro binaryArray transaction isRead
    obtain ⟨serializable, rfl⟩ := canonical_transaction.all_eq_some.mp isRead
    exact toBinaryArray_of_signaturesMatch serializable.signatures

def ringTransaction : Transaction :=
  { version := 1
    unlockTime := 0
    inputs := [.key { amount := 300, outputIndexes := [7, 1], keyImage := { value := 5 } }]
    outputs := [{ amount := 200, target := { key := { value := 9 } } }]
    extra := [1, 2]
    signatures := [[{ value := 3 }, { value := 4 }]] }

theorem Transaction.binaryArray_bijection_ring :
    ∃ binaryArray, ringTransaction.toBinaryArray = some binaryArray ∧
      Transaction.fromBinaryArray binaryArray = some ringTransaction :=
  Transaction.binaryArray_bijection.1 ringTransaction (by decide) rfl
    ⟨by decide, by decide, by decide, by decide⟩

end Mevacoin
