/-
From a template to a mined block. Numbers that the reader cuts or drops are the only
ones that do not come back.
-/

import Mevacoin.Mining.BlockTemplate

namespace Mevacoin
open List ByteReader Parameters Nat Option Core BlockTemplate

/-- `adjustMergeMiningTag`: the tag of the parent's coinbase is replaced by one that holds the
hash of the header. -/
def adjustMergeMiningTag (auxiliaryBlockHeaderHash : Hash) (block : BlockTemplate) :
    BlockTemplate :=
  if block.majorVersion ≥ blockMajorVersion2 then
    { block with
      parentBlock :=
        { block.parentBlock with
          baseTransaction :=
            { block.parentBlock.baseTransaction with
              extra := appendMergeMiningTagToExtra []
                { depth := 0, merkleRoot := auxiliaryBlockHeaderHash } } } }
  else block

/-- A template with its tag, and the timestamp and nonce that the miner has settled on. -/
def mine (auxiliaryBlockHeaderHash : Hash) (timestamp : UInt64) (nonce : UInt32)
    (template : BlockTemplate) : BlockTemplate :=
  { adjustMergeMiningTag auxiliaryBlockHeaderHash template with
    timestamp := timestamp
    nonce := nonce }

/-- The sizes of the vectors are 64-bit numbers. -/
def BlockTemplate.Sized (block : BlockTemplate) : Prop :=
  block.baseTransaction.Sized ∧ block.transactionHashes.length < 2 ^ 64

/-! ### Reading a mined block -/

def minedParent (majorVersion : Nat) (merkleRoot : Hash) : ParentContent :=
  if majorVersion ≥ 2 then
    { numberOfTransactions := 1
      baseTransaction :=
        { version := 0
          unlockTime := 0
          inputs := []
          outputs := []
          extra := appendMergeMiningTagToExtra [] { depth := 0, merkleRoot := merkleRoot } } }
  else {}

theorem emptyTag_length (merkleRoot : Hash) :
    (writeMergeMiningTagFields { depth := 0, merkleRoot := merkleRoot }).length = 33 := by
  unfold writeMergeMiningTagFields writeHash
  have zero : writeVarint (0 : UInt64).toNat = [0] := writeVarint_last (by decide)
  rw [zero, length_append, littleEndian_length]
  rfl

theorem emptyTagExtra_length (merkleRoot : Hash) :
    (appendMergeMiningTagToExtra [] { depth := 0, merkleRoot := merkleRoot }).length = 35 := by
  unfold appendMergeMiningTagToExtra writeMergeMiningTag writeContainer
  have size : writeVarint ((writeMergeMiningTagFields
      { depth := 0, merkleRoot := merkleRoot }).length % 2 ^ 64) = [33] := by
    rw [emptyTag_length]
    exact writeVarint_last (by decide)
  rw [size, flatMap_singleton', nil_append, length_cons, length_append, emptyTag_length]
  rfl

theorem minedParent_readable (merkleRoot : Hash) {majorVersion : Nat} (later : majorVersion ≥ 2) :
    (minedParent majorVersion merkleRoot).Readable := by
  unfold minedParent
  rw [if_pos later]
  exact {
    counted := by
      change ¬(1 : UInt64).toUInt16 < 1
      decide
    branch := by
      change 0 = treeDepth (1 : UInt64).toUInt16.toNat
      decide
    sized := {
      inputs := Nat.two_pow_pos 64
      indexes := fun _ impossible => absurd impossible not_mem_nil
      outputs := Nat.two_pow_pos 64
      extra := by
        rw [emptyTagExtra_length]
        decide }
    ignored := fun _ => rfl
    tagged := by
      refine ⟨{ depth := 0, merkleRoot := merkleRoot }, ?_, not_lt_zero _, rfl⟩
      exact getMergeMiningTagFromExtra_append _ }

theorem minedParent_plain (majorVersion : Nat) (merkleRoot : Hash) :
    (minedParent majorVersion merkleRoot).plain = minedParent majorVersion merkleRoot := by
  unfold minedParent
  split <;> rfl

theorem getBlockMajorVersion_range (blockIndex : Nat) :
    1 ≤ UpgradeManager.getBlockMajorVersion blockIndex ∧
      UpgradeManager.getBlockMajorVersion blockIndex ≤ 5 := by
  unfold UpgradeManager.getBlockMajorVersion
  split_ifs <;> omega

namespace Core
variable {primitives : Primitives} {keys : Nat → MinerKeys} {now : UInt64} {core : Core}
  {pool : TransactionPool} {extraNonce : BinaryArray} {template : BlockTemplate}
  {difficulty : UInt64} {height : Nat}

theorem mined_content
    (returned : core.getBlockTemplate primitives keys now pool extraNonce
      = some (template, difficulty, height))
    (sized : template.Sized) (merkleRoot : Hash) (timestamp : UInt64) (nonce : UInt32) :
    ∃ content : BlockContent, content.Readable ∧ content.plain = content ∧
      content.toTemplate = mine merkleRoot timestamp nonce template := by
  obtain ⟨main, mainChain, input, coinbase, total, isMain, found, isInput, made, -, isVersion,
    isParent, isBase, -⟩ := getBlockTemplate_eq_some returned
  obtain ⟨-, isMajor, -⟩ := templateInput_eq_some isMain found isInput
  obtain ⟨-, -, known, inputs, unsigned⟩ := TemplateInput.coinbase_eq_some made
  obtain ⟨atLeast, atMost⟩ := getBlockMajorVersion_range input.height
  rw [← isMajor] at atLeast atMost
  have major : template.majorVersion.toNat = input.majorVersion := by
    rw [isVersion, isMajor, majorVersion_toNat]
  have later : template.majorVersion ≥ blockMajorVersion2 ↔ input.majorVersion ≥ 2 := by
    rw [ge_iff_le, UInt8.le_iff_toNat_le, major]
    rfl
  refine ⟨{
    majorVersion := template.majorVersion
    minorVersion := template.minorVersion
    nonce := nonce
    timestamp := timestamp
    previousBlockHash := template.previousBlockHash
    parent := minedParent input.majorVersion merkleRoot
    baseTransaction := template.baseTransaction
    transactionHashes := template.transactionHashes }, ?_, ?_, ?_⟩
  · exact {
      version := by
        rw [gt_iff_lt, UInt8.lt_iff_toNat_lt, major]
        exact not_lt.mpr atMost
      parent := by
        unfold ParentFits
        by_cases second : input.majorVersion ≥ 2
        · have notFirst : ¬template.majorVersion = blockMajorVersion1 := by
            intro first
            rw [first] at major
            change 1 = input.majorVersion at major
            omega
          rw [if_neg notFirst]
          exact ⟨later.mpr second, minedParent_readable merkleRoot second⟩
        · have first : template.majorVersion = blockMajorVersion1 := by
            rw [← UInt8.toNat_inj, major]
            change input.majorVersion = 1
            omega
          rw [if_pos first]
          unfold minedParent
          rw [if_neg second]
      base := {
        version := by
          rw [isBase, known]
          exact UInt8.le_refl _
        signatures := by
          unfold Transaction.SignaturesMatch
          rw [isBase, inputs]
          exact unsigned
        sized := sized.1 }
      hashes := sized.2 }
  · rw [BlockContent.plain_eq_iff]
    exact minedParent_plain _ _
  · unfold mine adjustMergeMiningTag BlockContent.toTemplate minedParent
    unfold templateParentBlock at isParent
    by_cases second : input.majorVersion ≥ 2
    · simp only [if_pos (later.mpr second), if_pos second, isParent]
      rfl
    · simp only [if_neg (mt later.mp second), if_neg second, isParent]
      rfl

end Core

/-- The bytes of a block are the only ones it is read from, unless the parent block section
held a transaction count of more than sixteen bits or a number that is ignored; and what a
miner makes of a template is read back unchanged. -/
theorem blockTemplate_format (binaryArray : BinaryArray) :
    (∀ block, fromBinaryArray binaryArray = some block →
      (block.toBinaryArray = some binaryArray ↔ KeepsNumbers binaryArray)) ∧
    ∀ primitives keys now core pool extraNonce template difficulty height,
      getBlockTemplate primitives keys now core pool extraNonce
        = some (template, difficulty, height) →
      template.Sized → ∀ merkleRoot timestamp nonce,
      ∃ binaryArray,
        (mine merkleRoot timestamp nonce template).toBinaryArray = some binaryArray ∧
          fromBinaryArray binaryArray = some (mine merkleRoot timestamp nonce template) := by
  constructor
  · intro block isRead
    exact toBinaryArray_fromBinaryArray_iff isRead
  · intro primitives keys now core pool extraNonce template difficulty height returned sized
      merkleRoot timestamp nonce
    obtain ⟨content, readable, plain, same⟩ :=
      mined_content returned sized merkleRoot timestamp nonce
    refine ⟨content.bytes, ?_, ?_⟩
    · rw [← same, readable.toBinaryArray_eq, plain]
    · unfold fromBinaryArray
      rw [canonical_blockTemplate.all_eq_some.mpr ⟨readable, rfl⟩, map_some, same]

/-! ### A second encoding -/

def countedContent (numberOfTransactions : UInt64) : BlockContent :=
  { majorVersion := 2
    minorVersion := 0
    nonce := 0
    timestamp := 0
    previousBlockHash := { value := 0 }
    parent := { minedParent 2 { value := 0 } with numberOfTransactions := numberOfTransactions }
    baseTransaction := (coinbaseBlock 0 0 0 1).baseTransaction
    transactionHashes := [] }

theorem countedContent_readable {numberOfTransactions : UInt64}
    (one : numberOfTransactions.toUInt16 = 1) : (countedContent numberOfTransactions).Readable := by
  have readable := minedParent_readable { value := 0 } (le_refl 2)
  have base : (coinbaseBlock 0 0 0 1).baseTransaction.Serializable :=
    ⟨by decide, rfl, ⟨by decide, by decide, by decide, by decide⟩⟩
  exact {
    version := (by decide : ¬(2 : UInt8) > blockMajorVersion5)
    parent := ⟨(by decide : (2 : UInt8) ≥ blockMajorVersion2), {
      counted := by
        change ¬numberOfTransactions.toUInt16 < 1
        rw [one]
        decide
      branch := by
        change 0 = treeDepth numberOfTransactions.toUInt16.toNat
        rw [one]
        decide
      sized := readable.sized
      ignored := fun _ => rfl
      tagged := readable.tagged }⟩
    base := base
    hashes := Nat.two_pow_pos 64 }

/-- The count 65537 is cut to the count 1: two byte strings for one block. -/
theorem blockTemplate_two_encodings :
    ∃ first second block, first ≠ second ∧ fromBinaryArray first = some block ∧
      fromBinaryArray second = some block ∧
      block.toBinaryArray ≠ some second := by
  have plainRead := canonical_blockTemplate.all_eq_some.mpr
    ⟨countedContent_readable (by decide : (1 : UInt64).toUInt16 = 1), rfl⟩
  have cutRead := canonical_blockTemplate.all_eq_some.mpr
    ⟨countedContent_readable (by decide : (65537 : UInt64).toUInt16 = 1), rfl⟩
  have readFirst : fromBinaryArray (countedContent 1).bytes
      = some (countedContent 1).toTemplate := by
    unfold fromBinaryArray
    rw [plainRead, map_some]
  have readSecond : fromBinaryArray (countedContent 65537).bytes
      = some (countedContent 1).toTemplate := by
    unfold fromBinaryArray
    rw [cutRead, map_some]
    rfl
  refine ⟨(countedContent 1).bytes, (countedContent 65537).bytes, (countedContent 1).toTemplate, ?_,
    readFirst, readSecond, ?_⟩
  · intro same
    rw [same, cutRead] at plainRead
    have counts := congrArg (fun content => content.parent.numberOfTransactions)
      (Option.some.inj plainRead)
    exact absurd counts (by decide)
  · rw [ne_eq, toBinaryArray_fromBinaryArray_iff readSecond]
    intro keeps
    have small := (keeps _ cutRead).1
    exact absurd small (by decide)

theorem blockTemplate_format_fusion :
    ∃ template difficulty height binaryArray,
      (afterAll fusionEnvironment (initRootSegment fusionGenesis)
          [1, 2]).getBlockTemplate Core.fusionEnvironment.primitives fusionKeys 0
          TransactionPool.empty [] = some (template, difficulty, height) ∧
        (mine { value := 7 } 5 9 template).toBinaryArray = some binaryArray ∧
        fromBinaryArray binaryArray = some (mine { value := 7 } 5 9 template) := by
  have present : ((afterAll fusionEnvironment (initRootSegment fusionGenesis)
      [1, 2]).getBlockTemplate fusionEnvironment.primitives fusionKeys 0
      TransactionPool.empty []).any (fun result =>
        decide (result.1.baseTransaction.inputs.length < 2 ^ 64 ∧
          (∀ input ∈ result.1.baseTransaction.inputs, input.Sized) ∧
          result.1.baseTransaction.outputs.length < 2 ^ 64 ∧
          result.1.baseTransaction.extra.length < 2 ^ 64 ∧
          result.1.transactionHashes.length < 2 ^ 64)) = true := by
    decide +kernel
  obtain ⟨⟨template, difficulty, height⟩, returned, isSized⟩ := any_eq_true _ _ |>.mp present
  obtain ⟨inputs, indexes, outputs, extra, hashes⟩ := of_decide_eq_true isSized
  obtain ⟨binaryArray, written, isRead⟩ := (blockTemplate_format []).2 _ _ _ _ _ _ template difficulty
    height returned ⟨⟨inputs, indexes, outputs, extra⟩, hashes⟩ { value := 7 } 5 9
  exact ⟨template, difficulty, height, binaryArray, returned, written, isRead⟩

end Mevacoin
