/-
The binary format of blocks. Two numbers of the parent block section do not reach
the block template: the transaction count is cut to sixteen bits, and a number that
follows a parent coinbase of version two is dropped.
-/

import Mevacoin.Serialization.Transactions

namespace Mevacoin
open List ByteReader Parameters

/-! ### Extra fields -/

structure TransactionExtraMergeMiningTag where
  depth : UInt64
  merkleRoot : Hash
  deriving DecidableEq, Repr

inductive TransactionExtraField where
  | padding (size : Nat)
  | publicKey (key : PublicKey)
  | nonce (nonce : BinaryArray)
  | mergeMiningTag (tag : TransactionExtraMergeMiningTag)
  deriving DecidableEq, Repr

namespace Parameters

def maxExtraSize : Nat := 2200
def txExtraPaddingMaxCount : Nat := 255

end Parameters

structure SeenExtraTags where
  padding : Bool := false
  publicKey : Bool := false
  nonce : Bool := false
  mergeMiningTag : Bool := false

def readMergeMiningTagFields : ByteReader TransactionExtraMergeMiningTag := do
  let depth ← readVarint64
  let merkleRoot ← readHash
  pure { depth, merkleRoot }

/-- The tag is stored as a string; one that is longer than an extra field may be is read
over, and the empty string in its place is no tag. -/
def readMergeMiningTag : ByteReader TransactionExtraMergeMiningTag := do
  let field ← readContainer byte
  let field := if field.length > maxExtraSize then [] else field
  match readMergeMiningTagFields.run field with
  | some (tag, _) => pure tag
  | none => failure

def writeMergeMiningTagFields (tag : TransactionExtraMergeMiningTag) : List UInt8 :=
  writeVarint tag.depth.toNat ++ writeHash tag.merkleRoot

def writeMergeMiningTag (tag : TransactionExtraMergeMiningTag) : List UInt8 :=
  writeContainer (fun value => [value]) (writeMergeMiningTagFields tag)

/-- The loop of `parseTransactionExtra`: the fields found, and whether the end was reached
without an error. Every round takes at least the tag, so the length bounds the rounds. -/
def parseTransactionExtraFrom : Nat → SeenExtraTags → List UInt8 →
    List TransactionExtraField × Bool
  | 0, _, _ => ([], true)
  | _ + 1, _, [] => ([], true)
  | rounds + 1, seen, tag :: rest =>
    if tag = 0x00 then
      if seen.padding then ([], true)
      else if (rest.take txExtraPaddingMaxCount).any (fun value => value ≠ 0) then ([], false)
      else if rest.length ≥ txExtraPaddingMaxCount then ([], false)
      else ([.padding (rest.length + 1)], true)
    else if tag = 0x01 then
      if seen.publicKey then ([], true)
      else
        match readPublicKey.run rest with
        | none => ([], false)
        | some (key, rest) =>
          let (fields, success) :=
            parseTransactionExtraFrom rounds { seen with publicKey := true } rest
          (.publicKey key :: fields, success)
    else if tag = 0x02 then
      if seen.nonce then ([], true)
      else
        match rest with
        | [] => ([], false)
        | size :: rest =>
          match (times byte size.toNat).run rest with
          | none => ([], false)
          | some (nonce, rest) =>
            let (fields, success) :=
              parseTransactionExtraFrom rounds { seen with nonce := true } rest
            (.nonce nonce :: fields, success)
    else if tag = 0x03 then
      if seen.mergeMiningTag then parseTransactionExtraFrom rounds seen rest
      else
        match readMergeMiningTag.run rest with
        | none => ([], false)
        | some (tag, rest) =>
          let (fields, success) :=
            parseTransactionExtraFrom rounds { seen with mergeMiningTag := true } rest
          (.mergeMiningTag tag :: fields, success)
    else parseTransactionExtraFrom rounds seen rest

def parseTransactionExtra (transactionExtra : BinaryArray) : List TransactionExtraField × Bool :=
  parseTransactionExtraFrom transactionExtra.length {} transactionExtra

def TransactionExtraField.mergeMiningTag? :
    TransactionExtraField → Option TransactionExtraMergeMiningTag
  | mergeMiningTag tag => some tag
  | _ => none

/-- A field found before an error counts. -/
def getMergeMiningTagFromExtra (transactionExtra : BinaryArray) :
    Option TransactionExtraMergeMiningTag :=
  (parseTransactionExtra transactionExtra).1.findSome? TransactionExtraField.mergeMiningTag?

def appendMergeMiningTagToExtra (transactionExtra : BinaryArray)
    (tag : TransactionExtraMergeMiningTag) : BinaryArray :=
  transactionExtra ++ (0x03 :: writeMergeMiningTag tag)

theorem canonical_mergeMiningTagFields :
    Canonical readMergeMiningTagFields writeMergeMiningTagFields (fun _ => True) := by
  intro bytes tag rest
  simp only [readMergeMiningTagFields, run_bind_iff, canonical_varint64 _ _ _,
    canonical_hash _ _ _, run_pure_iff, writeMergeMiningTagFields, append_assoc, true_and]
  constructor
  · rintro ⟨depth, _, rfl, merkleRoot, _, rfl, rfl, rfl⟩
    rfl
  · rintro rfl
    exact ⟨_, _, rfl, _, _, rfl, rfl, rfl⟩

theorem readMergeMiningTag_write (tag : TransactionExtraMergeMiningTag) (rest : List UInt8) :
    readMergeMiningTag.run (writeMergeMiningTag tag ++ rest) = some (tag, rest) := by
  have short : (writeMergeMiningTagFields tag).length ≤ 42 := by
    have depth : (writeVarint tag.depth.toNat).length ≤ 9 + 1 :=
      length_writeVarint_le (tag.depth.toNat_lt.trans (by decide))
    rw [writeMergeMiningTagFields, length_append, writeHash, littleEndian_length]
    omega
  have inner : readMergeMiningTagFields.run (writeMergeMiningTagFields tag) = some (tag, []) := by
    apply (canonical_mergeMiningTagFields _ _ _).mpr
    rw [append_nil]
    exact ⟨trivial, rfl⟩
  refine run_bind_iff.mpr ⟨writeMergeMiningTagFields tag, rest, ?_, ?_⟩
  · exact (canonical_string _ _ _).mpr ⟨by omega, rfl⟩
  · have within : ¬(writeMergeMiningTagFields tag).length > maxExtraSize := by
      unfold maxExtraSize
      omega
    simp only [if_neg within, inner]
    rfl

theorem getMergeMiningTagFromExtra_append (tag : TransactionExtraMergeMiningTag) :
    getMergeMiningTagFromExtra (appendMergeMiningTagToExtra [] tag) = some tag := by
  have read := readMergeMiningTag_write tag []
  rw [append_nil] at read
  unfold getMergeMiningTagFromExtra parseTransactionExtra appendMergeMiningTagToExtra
  rw [nil_append, length_cons]
  unfold parseTransactionExtraFrom
  simp only [read]
  rfl

/-! ### The parent block -/

def treeDepth (count : Nat) : Nat :=
  ([32, 16, 8, 4, 2, 1].foldl (fun (count, depth) i =>
    if count >>> i > 0 then (count >>> i, depth + i) else (count, depth)) (count, 0)).2

/-- The content of the bytes of the parent block section, without timestamp and nonce. -/
structure ParentContent where
  majorVersion : UInt8 := 0
  minorVersion : UInt8 := 0
  previousBlockHash : Hash := { value := 0 }
  numberOfTransactions : UInt64 := 0
  baseTransactionBranch : List Hash := []
  baseTransaction : TransactionPrefix :=
    { version := 0, unlockTime := 0, inputs := [], outputs := [], extra := [] }
  ignored : UInt64 := 0
  blockchainBranch : List Hash := []
  deriving DecidableEq, Repr

namespace ParentContent

def transactionCount (content : ParentContent) : UInt16 := content.numberOfTransactions.toUInt16

def toParentBlock (content : ParentContent) : ParentBlock :=
  { majorVersion := content.majorVersion
    minorVersion := content.minorVersion
    previousBlockHash := content.previousBlockHash
    transactionCount := content.transactionCount
    baseTransactionBranch := content.baseTransactionBranch
    baseTransaction := content.baseTransaction
    blockchainBranch := content.blockchainBranch }

def plain (content : ParentContent) : ParentContent :=
  { content with
    numberOfTransactions := content.transactionCount.toUInt64
    ignored := 0 }

theorem plain_transactionCount (content : ParentContent) :
    content.plain.transactionCount = content.transactionCount :=
  UInt16.toUInt16_toUInt64 content.transactionCount

end ParentContent

/-- The base transaction of a parent block, and the number that follows version two. -/
def readBaseTransaction : ByteReader (TransactionPrefix × UInt64) := do
  let version ← readVarint8
  let tx ← readFields version
  if version ≥ transactionVersion2 then
    let ignored ← readVarint64
    pure (tx, ignored)
  else pure (tx, 0)

def writeBaseTransaction (tx : TransactionPrefix) (ignored : UInt64) : List UInt8 :=
  writeVarint tx.version.toNat ++ (writeFields tx
    ++ if tx.version ≥ transactionVersion2 then writeVarint ignored.toNat else [])

def readNonce : ByteReader UInt32 := do
  let value ← word 4
  pure (UInt32.ofBitVec value)

def writeNonce (nonce : UInt32) : List UInt8 := littleEndian 4 nonce.toBitVec.toNat

/-- The branches carry no sizes: one has the depth of the transaction tree, the other the
depth that the merge mining tag states. -/
def readParentBlock : ByteReader (UInt64 × UInt32 × ParentContent) := do
  let majorVersion ← readVarint8
  let minorVersion ← readVarint8
  let timestamp ← readVarint64
  let previousBlockHash ← readHash
  let nonce ← readNonce
  let numberOfTransactions ← readVarint64
  check (¬numberOfTransactions.toUInt16 < 1)
  let baseTransactionBranch ← times readHash (treeDepth numberOfTransactions.toUInt16.toNat)
  let base ← readBaseTransaction
  match getMergeMiningTagFromExtra base.1.extra with
  | none => failure
  | some mmTag =>
    check (¬mmTag.depth.toNat > 8 * 32)
    let blockchainBranch ← times readHash mmTag.depth.toNat
    pure (timestamp, nonce,
      { majorVersion, minorVersion, previousBlockHash, numberOfTransactions,
        baseTransactionBranch, baseTransaction := base.1, ignored := base.2, blockchainBranch })

def ParentContent.bytes (timestamp : UInt64) (nonce : UInt32) (content : ParentContent) :
    List UInt8 :=
  writeVarint content.majorVersion.toNat ++ (writeVarint content.minorVersion.toNat
    ++ (writeVarint timestamp.toNat
    ++ (writeHash content.previousBlockHash
    ++ (writeNonce nonce
    ++ (writeVarint content.numberOfTransactions.toNat
    ++ (content.baseTransactionBranch.flatMap writeHash
    ++ (writeBaseTransaction content.baseTransaction content.ignored
    ++ content.blockchainBranch.flatMap writeHash)))))))

/-- `serialize` of the parent block on output; `none` is an exception. -/
def writeParentBlock (timestamp : UInt64) (nonce : UInt32) (parentBlock : ParentBlock) :
    Option (List UInt8) :=
  if parentBlock.transactionCount < 1 then none
  else if parentBlock.baseTransactionBranch.length
      ≠ treeDepth parentBlock.transactionCount.toNat then none
  else
    match getMergeMiningTagFromExtra parentBlock.baseTransaction.extra with
    | none => none
    | some mmTag =>
      if mmTag.depth.toNat > 8 * 32 then none
      else if mmTag.depth.toNat ≠ parentBlock.blockchainBranch.length then none
      else some (ParentContent.bytes timestamp nonce
        { majorVersion := parentBlock.majorVersion
          minorVersion := parentBlock.minorVersion
          previousBlockHash := parentBlock.previousBlockHash
          numberOfTransactions := parentBlock.transactionCount.toUInt64
          baseTransactionBranch := parentBlock.baseTransactionBranch
          baseTransaction := parentBlock.baseTransaction
          ignored := 0
          blockchainBranch := parentBlock.blockchainBranch })

structure ParentContent.Readable (content : ParentContent) : Prop where
  counted : ¬content.transactionCount < 1
  branch : content.baseTransactionBranch.length = treeDepth content.transactionCount.toNat
  sized : content.baseTransaction.Sized
  ignored : ¬content.baseTransaction.version ≥ transactionVersion2 → content.ignored = 0
  tagged : ∃ mmTag, getMergeMiningTagFromExtra content.baseTransaction.extra = some mmTag ∧
    ¬mmTag.depth.toNat > 8 * 32 ∧ content.blockchainBranch.length = mmTag.depth.toNat

theorem canonical_nonce : Canonical readNonce writeNonce (fun _ => True) :=
  (canonical_word 4).map (fun _ _ => rfl) (fun _ => rfl)

theorem canonical_baseTransaction :
    Canonical readBaseTransaction (fun base => writeBaseTransaction base.1 base.2)
      (fun base => base.1.Sized ∧ (¬base.1.version ≥ transactionVersion2 → base.2 = 0)) := by
  rintro bytes ⟨tx, ignored⟩ rest
  simp only [readBaseTransaction, run_bind_iff, canonical_varint8 _ _ _, canonical_fields _ _ _ _,
    writeBaseTransaction, append_assoc, true_and]
  constructor
  · rintro ⟨version, _, rfl, tx', _, ⟨⟨rfl, sized⟩, rfl⟩, ran⟩
    split at ran
    · rename_i second
      simp only [run_bind_iff, canonical_varint64 _ _ _, run_pure_iff, true_and] at ran
      obtain ⟨ignored', _, rfl, same, rfl⟩ := ran
      cases same
      rw [if_pos second]
      exact ⟨⟨sized, fun first => absurd second first⟩, rfl⟩
    · rename_i first
      obtain ⟨same, rfl⟩ := run_pure_iff.mp ran
      cases same
      rw [if_neg first]
      exact ⟨⟨sized, fun _ => rfl⟩, rfl⟩
  · rintro ⟨⟨sized, dropped⟩, rfl⟩
    refine ⟨tx.version, _, rfl, tx, _, ⟨⟨rfl, sized⟩, rfl⟩, ?_⟩
    by_cases second : tx.version ≥ transactionVersion2
    · simp only [if_pos second, run_bind_iff, canonical_varint64 _ _ _, run_pure_iff, true_and]
      exact ⟨ignored, rest, rfl, rfl, rfl⟩
    · rw [if_neg second, if_neg second, dropped second]
      rfl

theorem canonical_parentBlock :
    Canonical readParentBlock (fun parent => parent.2.2.bytes parent.1 parent.2.1)
      (fun parent => parent.2.2.Readable) := by
  rintro bytes ⟨timestamp, nonce, content⟩ rest
  simp only [readParentBlock, run_bind_iff, canonical_varint8 _ _ _, canonical_varint64 _ _ _,
    canonical_hash _ _ _, canonical_nonce _ _ _, run_check_iff, canonical_hash.times _ _ _ _,
    canonical_baseTransaction _ _ _, ParentContent.bytes, append_assoc, implies_true,
    and_true, true_and]
  constructor
  · rintro ⟨major, _, rfl, minor, _, rfl, time, _, rfl, previous, _, rfl, nonce', _, rfl, number, _,
      rfl, _, _, ⟨counted, rfl⟩, branch, _, ⟨length, rfl⟩, base, _, ⟨⟨sized, ignored⟩, rfl⟩, ran⟩
    split at ran
    · cases ran
    · rename_i mmTag isTag
      simp only [run_bind_iff, run_check_iff, canonical_hash.times _ _ _ _, run_pure_iff,
        implies_true, and_true] at ran
      obtain ⟨_, _, ⟨shallow, rfl⟩, chain, _, ⟨depth, rfl⟩, same, rfl⟩ := ran
      cases same
      exact ⟨⟨counted, length, sized, ignored, mmTag, isTag, shallow, depth⟩, rfl⟩
  · rintro ⟨⟨counted, length, sized, ignored, mmTag, isTag, shallow, depth⟩, rfl⟩
    refine ⟨_, _, rfl, _, _, rfl, _, _, rfl, _, _, rfl, _, _, rfl, _, _, rfl, (), _,
      ⟨counted, rfl⟩, _, _, ⟨length, rfl⟩, (content.baseTransaction, content.ignored), _,
      ⟨⟨sized, ignored⟩, rfl⟩, ?_⟩
    simp only [isTag, run_bind_iff, run_check_iff, canonical_hash.times _ _ _ _, run_pure_iff,
      implies_true, and_true]
    exact ⟨(), _, ⟨shallow, rfl⟩, _, _, ⟨depth, rfl⟩, rfl, rfl⟩

variable {content : ParentContent}

theorem ParentContent.Readable.writeParentBlock_eq
    (readable : content.Readable) (timestamp : UInt64) (nonce : UInt32) :
    writeParentBlock timestamp nonce content.toParentBlock
      = some (content.plain.bytes timestamp nonce) := by
  obtain ⟨mmTag, isTag, shallow, depth⟩ := readable.tagged
  unfold writeParentBlock
  simp only [ParentContent.toParentBlock, if_neg readable.counted, readable.branch, ne_eq,
    not_true_eq_false, if_false, isTag, if_neg shallow, depth]
  rfl

theorem ParentContent.Readable.plain (readable : content.Readable) :
    content.plain.Readable where
  counted := by
    rw [plain_transactionCount]
    exact readable.counted
  branch := by
    rw [plain_transactionCount]
    exact readable.branch
  sized := readable.sized
  ignored := fun _ => rfl
  tagged := readable.tagged

/-! ### The block -/

namespace Parameters

def blockMajorVersion1 : UInt8 := 1
def blockMajorVersion2 : UInt8 := 2
def blockMajorVersion5 : UInt8 := 5

end Parameters

structure BlockContent where
  majorVersion : UInt8
  minorVersion : UInt8
  nonce : UInt32
  timestamp : UInt64
  previousBlockHash : Hash
  parent : ParentContent
  baseTransaction : Transaction
  transactionHashes : List Hash
  deriving DecidableEq, Repr

def BlockContent.toTemplate (content : BlockContent) : BlockTemplate :=
  { majorVersion := content.majorVersion
    minorVersion := content.minorVersion
    nonce := content.nonce
    timestamp := content.timestamp
    previousBlockHash := content.previousBlockHash
    parentBlock := content.parent.toParentBlock
    baseTransaction := content.baseTransaction
    transactionHashes := content.transactionHashes }

/-- Timestamp, nonce and parent: in the header of the first version, in the parent block
section of the later ones. -/
def readHeaderTail (majorVersion : UInt8) :
    ByteReader (Hash × UInt64 × UInt32 × ParentContent) :=
  if majorVersion = blockMajorVersion1 then do
    let timestamp ← readVarint64
    let previousBlockHash ← readHash
    let nonce ← readNonce
    pure (previousBlockHash, timestamp, nonce, {})
  else if majorVersion ≥ blockMajorVersion2 then do
    let previousBlockHash ← readHash
    let parent ← readParentBlock
    pure (previousBlockHash, parent)
  else failure

def readBlockTemplate : ByteReader BlockContent := do
  let majorVersion ← readVarint8
  check (¬majorVersion > blockMajorVersion5)
  let minorVersion ← readVarint8
  let header ← readHeaderTail majorVersion
  let baseTransaction ← readTransaction
  let transactionHashes ← readContainer readHash
  pure
    { majorVersion := majorVersion
      minorVersion := minorVersion
      nonce := header.2.2.1
      timestamp := header.2.1
      previousBlockHash := header.1
      parent := header.2.2.2
      baseTransaction := baseTransaction
      transactionHashes := transactionHashes }

def headerTailBytes (majorVersion : UInt8) (previousBlockHash : Hash) (timestamp : UInt64)
    (nonce : UInt32) (content : ParentContent) : List UInt8 :=
  if majorVersion = blockMajorVersion1 then
    writeVarint timestamp.toNat ++ (writeHash previousBlockHash ++ writeNonce nonce)
  else writeHash previousBlockHash ++ content.bytes timestamp nonce

def BlockContent.bytes (content : BlockContent) : List UInt8 :=
  writeVarint content.majorVersion.toNat ++ (writeVarint content.minorVersion.toNat
    ++ (headerTailBytes content.majorVersion content.previousBlockHash content.timestamp
      content.nonce content.parent
    ++ (transactionBytes content.baseTransaction
    ++ writeContainer writeHash content.transactionHashes)))

/-- The parent of a block of the first version is not stored. -/
def ParentFits (majorVersion : UInt8) (content : ParentContent) : Prop :=
  if majorVersion = blockMajorVersion1 then content = {}
  else majorVersion ≥ blockMajorVersion2 ∧ content.Readable

theorem ParentFits.plain {majorVersion : UInt8}
    (fits : ParentFits majorVersion content) : ParentFits majorVersion content.plain := by
  unfold ParentFits at fits ⊢
  by_cases first : majorVersion = blockMajorVersion1
  · rw [if_pos first] at fits ⊢
    rw [fits]
    rfl
  · rw [if_neg first] at fits ⊢
    exact ⟨fits.1, fits.2.plain⟩

structure BlockContent.Readable (content : BlockContent) : Prop where
  version : ¬content.majorVersion > blockMajorVersion5
  parent : ParentFits content.majorVersion content.parent
  base : content.baseTransaction.Serializable
  hashes : content.transactionHashes.length < 2 ^ 64

theorem canonical_headerTail (majorVersion : UInt8) :
    Canonical (readHeaderTail majorVersion)
      (fun header => headerTailBytes majorVersion header.1 header.2.1 header.2.2.1 header.2.2.2)
      (fun header => ParentFits majorVersion header.2.2.2) := by
  rintro bytes ⟨previous, timestamp, nonce, content⟩ rest
  unfold readHeaderTail headerTailBytes ParentFits
  by_cases first : majorVersion = blockMajorVersion1
  · simp only [if_pos first, run_bind_iff, canonical_varint64 _ _ _, canonical_hash _ _ _,
      canonical_nonce _ _ _, run_pure_iff, append_assoc, true_and]
    constructor
    · rintro ⟨timestamp', _, rfl, previous', _, rfl, nonce', _, rfl, same, rfl⟩
      cases same
      exact ⟨rfl, rfl⟩
    · rintro ⟨rfl, rfl⟩
      exact ⟨_, _, rfl, _, _, rfl, _, _, rfl, rfl, rfl⟩
  · simp only [if_neg first]
    by_cases later : majorVersion ≥ blockMajorVersion2
    · rw [if_pos later]
      simp only [run_bind_iff, canonical_hash _ _ _, canonical_parentBlock _ _ _, run_pure_iff,
        append_assoc, true_and]
      constructor
      · rintro ⟨previous', _, rfl, parent, _, ⟨readable, rfl⟩, same, rfl⟩
        cases same
        exact ⟨⟨later, readable⟩, rfl⟩
      · rintro ⟨⟨-, readable⟩, rfl⟩
        exact ⟨_, _, rfl, (timestamp, nonce, content), _, ⟨readable, rfl⟩, rfl, rfl⟩
    · rw [if_neg later]
      constructor
      · intro ran
        cases ran
      · rintro ⟨⟨later', -⟩, -⟩
        exact absurd later' later

theorem canonical_blockTemplate :
    Canonical readBlockTemplate BlockContent.bytes BlockContent.Readable := by
  intro bytes content rest
  simp only [readBlockTemplate, run_bind_iff, canonical_varint8 _ _ _, run_check_iff,
    canonical_headerTail _ _ _ _, canonical_transaction _ _ _,
    canonical_container canonical_hash _ _ _, run_pure_iff, BlockContent.bytes,
    append_assoc, implies_true, and_true, true_and]
  constructor
  · rintro ⟨major, _, rfl, _, _, ⟨known, rfl⟩, minor, _, rfl, header, _, ⟨fits, rfl⟩, base, _,
      ⟨serializable, rfl⟩, hashes, _, ⟨sized, rfl⟩, rfl, rfl⟩
    exact ⟨⟨known, fits, serializable, sized⟩, rfl⟩
  · rintro ⟨⟨known, fits, serializable, sized⟩, rfl⟩
    exact ⟨_, _, rfl, (), _, ⟨known, rfl⟩, _, _, rfl,
      (content.previousBlockHash, content.timestamp, content.nonce, content.parent), _,
      ⟨fits, rfl⟩, _, _, ⟨serializable, rfl⟩, _, _, ⟨sized, rfl⟩, rfl, rfl⟩

namespace BlockTemplate

def fromBinaryArray (binaryArray : BinaryArray) : Option BlockTemplate :=
  (readBlockTemplate.all binaryArray).map BlockContent.toTemplate

def writeHeaderTail (block : BlockTemplate) : Option (List UInt8) :=
  if block.majorVersion = blockMajorVersion1 then
    some (writeVarint block.timestamp.toNat
      ++ (writeHash block.previousBlockHash ++ writeNonce block.nonce))
  else if block.majorVersion ≥ blockMajorVersion2 then do
    let parentBlock ← writeParentBlock block.timestamp block.nonce block.parentBlock
    some (writeHash block.previousBlockHash ++ parentBlock)
  else none

/-- `none` is an exception of one of the serializers. -/
def toBinaryArray (block : BlockTemplate) : Option BinaryArray :=
  if block.majorVersion > blockMajorVersion5 then none
  else do
    let header ← block.writeHeaderTail
    let baseTransaction ← block.baseTransaction.toBinaryArray
    some (writeVarint block.majorVersion.toNat ++ (writeVarint block.minorVersion.toNat
      ++ (header ++ (baseTransaction ++ writeContainer writeHash block.transactionHashes))))

end BlockTemplate

namespace BlockContent

def plain (content : BlockContent) : BlockContent :=
  { content with parent := content.parent.plain }

theorem Readable.plain {content : BlockContent} (readable : content.Readable) :
    content.plain.Readable where
  version := readable.version
  parent := readable.parent.plain
  base := readable.base
  hashes := readable.hashes

theorem Readable.toBinaryArray_eq {content : BlockContent} (readable : content.Readable) :
    content.toTemplate.toBinaryArray = some content.plain.bytes := by
  have fits := readable.parent
  have header : content.toTemplate.writeHeaderTail
      = some (headerTailBytes content.majorVersion content.previousBlockHash content.timestamp
        content.nonce content.plain.parent) := by
    unfold headerTailBytes
    unfold ParentFits at fits
    change (if content.majorVersion = blockMajorVersion1 then _
      else if content.majorVersion ≥ blockMajorVersion2 then
        (writeParentBlock content.timestamp content.nonce content.parent.toParentBlock).bind _
      else none) = _
    by_cases first : content.majorVersion = blockMajorVersion1
    · rw [if_pos first, if_pos first]
      rfl
    · rw [if_neg first] at fits
      rw [if_neg first, if_neg first, if_pos fits.1, fits.2.writeParentBlock_eq]
      rfl
  unfold BlockTemplate.toBinaryArray
  rw [if_neg (show ¬content.toTemplate.majorVersion > blockMajorVersion5 from readable.version),
    header]
  simp only [BlockContent.toTemplate, Option.bind_eq_bind, Option.bind_some,
    Transaction.toBinaryArray_of_signaturesMatch readable.base.signatures]
  rfl

end BlockContent

/-- The numbers of the parent block section that the block template does not keep. -/
def KeepsNumbers (binaryArray : BinaryArray) : Prop :=
  ∀ content ∈ readBlockTemplate.all binaryArray,
    content.parent.numberOfTransactions.toNat < 2 ^ 16 ∧ content.parent.ignored = 0

theorem ParentContent.plain_eq_iff :
    content.plain = content ↔
      content.numberOfTransactions.toNat < 2 ^ 16 ∧ content.ignored = 0 := by
  have cut : content.transactionCount.toUInt64 = content.numberOfTransactions ↔
      content.numberOfTransactions.toNat < 2 ^ 16 := by
    unfold ParentContent.transactionCount
    rw [← UInt64.toNat_inj, UInt16.toNat_toUInt64, UInt64.toNat_toUInt16]
    omega
  rw [← cut]
  constructor
  · intro same
    exact ⟨congrArg ParentContent.numberOfTransactions same,
      (congrArg ParentContent.ignored same).symm⟩
  · rintro ⟨number, ignored⟩
    unfold ParentContent.plain
    rw [number, ← ignored]

theorem BlockContent.plain_eq_iff {content : BlockContent} :
    content.plain = content ↔ content.parent.plain = content.parent := by
  constructor
  · intro same
    exact congrArg BlockContent.parent same
  · intro same
    unfold BlockContent.plain
    rw [same]

/-- The bytes of a block are written again as they were read, unless one of the two
numbers was not plain. -/
theorem toBinaryArray_fromBinaryArray_iff {binaryArray : BinaryArray} {block : BlockTemplate}
    (isRead : BlockTemplate.fromBinaryArray binaryArray = some block) :
    block.toBinaryArray = some binaryArray ↔ KeepsNumbers binaryArray := by
  obtain ⟨content, isContent, rfl⟩ := Option.map_eq_some_iff.mp isRead
  obtain ⟨readable, rfl⟩ := canonical_blockTemplate.all_eq_some.mp isContent
  have keeps : KeepsNumbers content.bytes ↔ content.plain = content := by
    rw [BlockContent.plain_eq_iff, ParentContent.plain_eq_iff]
    unfold KeepsNumbers
    rw [isContent]
    constructor
    · intro all
      exact all content rfl
    · rintro both _ ⟨⟩
      exact both
  rw [keeps, readable.toBinaryArray_eq, Option.some.injEq]
  constructor
  · intro sameBytes
    -- both contents are read from the same bytes
    have again := canonical_blockTemplate.all_eq_some.mpr ⟨readable.plain, rfl⟩
    rw [sameBytes, isContent] at again
    exact (Option.some.inj again).symm
  · intro same
    rw [same]

end Mevacoin
