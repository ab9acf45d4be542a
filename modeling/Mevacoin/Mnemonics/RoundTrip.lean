/-
Keys and seeds. A seed is faithful if capitals stand only in words that read as themselves,
and the checksum still holds in small letters.
-/

import Mathlib.Data.List.GetD
import Mevacoin.Mnemonics.Mnemonics

namespace Mevacoin
open List Nat DifferenceDigits ByteReader

namespace Mnemonics
open Wallet WordList Checked

variable {word : Text} {words : List Text} {data : List UInt8} {key : SecretKey}

/-! ### Positions and words -/

private theorem positive_length : 0 < english.length := by
  rw [length_english]
  decide

theorem englishWord_mem {index : Nat} (inside : index < english.length) :
    englishWord index ∈ english := by
  rw [englishWord, getD_eq_getElem _ _ inside]
  exact getElem_mem inside

theorem wordIndex_englishWord {index : Nat} (inside : index < english.length) :
    wordIndex (englishWord index) = index := by
  rw [englishWord, getD_eq_getElem _ _ inside]
  exact nodup_english.idxOf_getElem index inside

theorem wordIndex_lt_iff : wordIndex word < english.length ↔ word ∈ english :=
  idxOf_lt_length_iff

theorem englishWord_wordIndex (listed : word ∈ english) :
    englishWord (wordIndex word) = word := by
  have inside := wordIndex_lt_iff.mpr listed
  rw [englishWord, getD_eq_getElem _ _ inside]
  exact getElem_idxOf inside

theorem wordIndex_of_not_mem (missing : word ∉ english) :
    wordIndex word = english.length :=
  idxOf_eq_length missing

theorem lowerCase_lowerCase (word : Text) : lowerCase (lowerCase word) = lowerCase word := by
  rw [lowerCase, lowerCase, map_map]
  exact map_congr_left fun letter _ => toLower_toLower letter

def readAs (word : Text) : Text := englishWord (effectiveIndex word)

theorem effectiveIndex_lt (word : Text) : effectiveIndex word < english.length := by
  unfold effectiveIndex
  split
  · rename_i listed
    exact wordIndex_lt_iff.mpr listed
  · exact positive_length

theorem readAs_of_mem (listed : word ∈ english) : readAs word = word := by
  rw [readAs, effectiveIndex, if_pos listed, englishWord_wordIndex listed]

theorem readAs_eq_lowerCase_iff (known : lowerCase word ∈ english) :
    readAs word = lowerCase word ↔ lowerCase word = word ∨ lowerCase word = englishWord 0 := by
  by_cases listed : word ∈ english
  · have plain : lowerCase word = word := map_toLower_english listed
    rw [readAs_of_mem listed, plain]
    exact ⟨fun _ => .inl rfl, fun _ => rfl⟩
  · rw [readAs, effectiveIndex, if_neg listed]
    constructor
    · intro same
      exact .inr same.symm
    · rintro (plain | isFirst)
      · rw [plain] at known
        exact absurd known listed
      · exact isFirst.symm

private theorem effectiveIndex_cases (word : Text) :
    wordIndex word = effectiveIndex word ∨
      (wordIndex word = english.length ∧ effectiveIndex word = 0) := by
  unfold effectiveIndex
  split
  · exact .inl rfl
  · rename_i missing
    exact .inr ⟨wordIndex_of_not_mem missing, rfl⟩

theorem value_effective (low : Nat) (middle high : Text) :
    value english.length low (wordIndex middle) (wordIndex high) =
      value english.length low (effectiveIndex middle) (effectiveIndex high) := by
  have atHigh : value english.length low (wordIndex middle) (wordIndex high) =
      value english.length low (wordIndex middle) (effectiveIndex high) := by
    rcases effectiveIndex_cases high with same | ⟨past, isZero⟩
    · rw [same]
    · rw [past, isZero, value_base_high]
  rw [atHigh]
  rcases effectiveIndex_cases middle with same | ⟨past, isZero⟩
  · rw [same]
  · rw [past, isZero, value_base_middle]

/-! ### One group -/

/-- The test of the first position catches every product that does not fit in 32 bits,
since 2 ^ 32 is no multiple of the length of the list. -/
theorem decodeGroup_eq_ok {w1 w2 w3 : Nat} {bytes : List UInt8} :
    decodeGroup w1 w2 w3 = .ok bytes ↔
      w1 < english.length ∧ value english.length w1 w2 w3 < 2 ^ 32 ∧
        littleEndian 4 (value english.length w1 w2 w3) = bytes := by
  have tested : decodeGroup w1 w2 w3 = .ok bytes ↔
      value english.length w1 w2 w3 % 2 ^ 32 % english.length = w1 ∧
        littleEndian 4 (value english.length w1 w2 w3 % 2 ^ 32) = bytes := by
    unfold decodeGroup
    rw [rejectIf_bind_eq_ok, not_not]
    exact and_congr_right fun _ => ⟨fun same => by cases same; rfl, fun same => by rw [same]; rfl⟩
  rw [tested]
  constructor
  · rintro ⟨first, isBytes⟩
    have isFirst : w1 < english.length := by
      rw [← first]
      exact mod_lt _ positive_length
    have remainder := @value_mod english.length w1 w2 w3 isFirst
    have bound := @value_lt english.length w1 w2 w3 isFirst
    generalize value english.length w1 w2 w3 = product at *
    have fits : product < 2 ^ 32 := by
      rw [length_english] at first remainder bound
      omega
    rw [mod_eq_of_lt fits] at isBytes
    exact ⟨isFirst, fits, isBytes⟩
  · rintro ⟨isFirst, fits, isBytes⟩
    rw [mod_eq_of_lt fits, value_mod isFirst]
    exact ⟨rfl, isBytes⟩

theorem encodeGroups_littleEndian {val : Nat} (fits : val < 2 ^ 32) (data : List UInt8) :
    encodeGroups (littleEndian 4 val ++ data) =
      englishWord (first english.length val) ::
        englishWord (second english.length val) ::
        englishWord (third english.length val) :: encodeGroups data := by
  have same : ofLittleEndian (littleEndian 4 val) = val :=
    ofLittleEndian_littleEndian fits
  change englishWord (first english.length
      (ofLittleEndian (littleEndian 4 val))) ::
    englishWord (second english.length (ofLittleEndian (littleEndian 4 val))) ::
    englishWord (third english.length
      (ofLittleEndian (littleEndian 4 val))) :: encodeGroups data = _
  rw [same]

theorem encodeGroups_of_decodeGroup {w1 w2 w3 : Text} {bytes : List UInt8}
    (decoded : decodeGroup (wordIndex w1) (wordIndex w2) (wordIndex w3) = .ok bytes)
    (data : List UInt8) :
    w1 ∈ english ∧ bytes.length = 4 ∧
      encodeGroups (bytes ++ data) = w1 :: readAs w2 :: readAs w3 :: encodeGroups data := by
  rw [decodeGroup_eq_ok, value_effective] at decoded
  obtain ⟨isFirst, fits, rfl⟩ := decoded
  have listed := wordIndex_lt_iff.mp isFirst
  refine ⟨listed, littleEndian_length _ _, ?_⟩
  rw [encodeGroups_littleEndian fits, first_value isFirst,
    second_value isFirst (effectiveIndex_lt w2),
    third_value isFirst (effectiveIndex_lt w2) (effectiveIndex_lt w3),
    englishWord_wordIndex listed]
  rfl

/-! ### All groups -/

/-- Capital letters stand only where they do not change what is read: never in the first
word of a group, and otherwise only in the first word of the list. -/
def Legible : List Text → Prop
  | w1 :: w2 :: w3 :: words =>
    lowerCase w1 = w1 ∧ (lowerCase w2 = w2 ∨ lowerCase w2 = englishWord 0) ∧
      (lowerCase w3 = w3 ∨ lowerCase w3 = englishWord 0) ∧ Legible words
  | _ => True

private theorem dropLast_group {w1 w2 w3 : Text}
    (groups : (w1 :: w2 :: w3 :: words).length % 3 = 1) :
    words.length % 3 = 1 ∧
      (w1 :: w2 :: w3 :: words).dropLast = w1 :: w2 :: w3 :: words.dropLast := by
  have rest : words.length % 3 = 1 := by
    simp only [length_cons] at groups
    omega
  cases words with
  | nil => cases rest
  | cons word words => exact ⟨rest, rfl⟩

private theorem dropLast_short (isShort : ∀ w1 w2 w3 rest, words = w1 :: w2 :: w3 :: rest → False)
    (groups : words.length % 3 = 1) : words.dropLast = [] := by
  rcases words with _ | ⟨w1, _ | ⟨w2, _ | ⟨w3, rest⟩⟩⟩
  · rfl
  · rfl
  · cases groups
  · exact (isShort _ _ _ _ rfl).elim

theorem decodeGroups_cons_eq_ok {w1 w2 w3 : Nat} {indexes : List Nat} :
    decodeGroups (w1 :: w2 :: w3 :: indexes) = .ok data ↔
      ∃ bytes later, decodeGroup w1 w2 w3 = .ok bytes ∧ decodeGroups indexes = .ok later ∧
        bytes ++ later = data := by
  rw [decodeGroups, bind_eq_ok]
  constructor
  · rintro ⟨bytes, decoded, ran⟩
    obtain ⟨later, decodedLater, isData⟩ := bind_eq_ok.mp ran
    cases isData
    exact ⟨bytes, later, decoded, decodedLater, rfl⟩
  · rintro ⟨bytes, later, decoded, decodedLater, rfl⟩
    exact ⟨bytes, decoded, bind_eq_ok.mpr ⟨later, decodedLater, rfl⟩⟩

private theorem decodeGroups_short
    (isShort : ∀ w1 w2 w3 rest, words = w1 :: w2 :: w3 :: rest → False) :
    decodeGroups (getWordIndexes words) = .ok [] := by
  rcases words with _ | ⟨w1, _ | ⟨w2, _ | ⟨w3, rest⟩⟩⟩
  · rfl
  · rfl
  · rfl
  · exact (isShort _ _ _ _ rfl).elim

/-- The words that the decoded bytes are written with, and whether they are the given
words in small letters. -/
theorem encodeGroups_of_decodeGroups
    (groups : words.length % 3 = 1) (known : ∀ word ∈ words, lowerCase word ∈ english)
    (decoded : decodeGroups (getWordIndexes words) = .ok data) :
    3 * data.length = 4 * words.dropLast.length ∧ encodeGroups data = words.dropLast.map readAs ∧
      (words.dropLast.map readAs = words.dropLast.map lowerCase ↔ Legible words) := by
  fun_induction Legible words generalizing data with
  | case1 w1 w2 w3 words ih =>
    obtain ⟨rest, isDropLast⟩ := dropLast_group groups
    obtain ⟨bytes, later, group, decodedLater, rfl⟩ := decodeGroups_cons_eq_ok.mp decoded
    obtain ⟨listed, size, isGroup⟩ := encodeGroups_of_decodeGroup group later
    have knownLater : ∀ word ∈ words, lowerCase word ∈ english := by
      intro word isWord
      exact known word (by simp [isWord])
    obtain ⟨laterSize, isLater, legible⟩ := ih rest knownLater decodedLater
    have middle := readAs_eq_lowerCase_iff (known w2 (by simp))
    have high := readAs_eq_lowerCase_iff (known w3 (by simp))
    have low : lowerCase w1 = w1 := map_toLower_english listed
    rw [isDropLast]
    refine ⟨?_, ?_, ?_⟩
    · simp only [length_append, length_cons]
      omega
    · rw [isGroup, isLater, map_cons, map_cons, map_cons, readAs_of_mem listed]
    · simp only [map_cons, List.cons.injEq, middle, high, legible, readAs_of_mem listed, low]
  | case2 words isShort =>
    have noGroup := dropLast_short isShort groups
    rw [decodeGroups_short isShort] at decoded
    cases decoded
    rw [noGroup]
    exact ⟨rfl, rfl, iff_of_true rfl trivial⟩

private theorem effectiveIndex_lowerCase (known : lowerCase word ∈ english)
    (kept : lowerCase word = word ∨ lowerCase word = englishWord 0) :
    effectiveIndex (lowerCase word) = effectiveIndex word := by
  by_cases listed : word ∈ english
  · have plain : lowerCase word = word := map_toLower_english listed
    rw [plain]
  · rcases kept with plain | isFirst
    · rw [plain]
    · rw [effectiveIndex, if_pos known, effectiveIndex, if_neg listed, isFirst,
        wordIndex_englishWord positive_length]

theorem decodeGroups_lowerCase (known : ∀ word ∈ words, lowerCase word ∈ english)
    (legible : Legible words) :
    decodeGroups (getWordIndexes (words.map lowerCase)) = decodeGroups (getWordIndexes words) := by
  fun_induction Legible words with
  | case1 w1 w2 w3 words ih =>
    obtain ⟨low, middle, high, rest⟩ := legible
    have later := ih (fun word isWord => known word (by simp [isWord])) rest
    have sameMiddle := effectiveIndex_lowerCase (known w2 (by simp)) middle
    have sameHigh := effectiveIndex_lowerCase (known w3 (by simp)) high
    have group : decodeGroup (wordIndex (lowerCase w1)) (wordIndex (lowerCase w2))
        (wordIndex (lowerCase w3)) = decodeGroup (wordIndex w1) (wordIndex w2) (wordIndex w3) := by
      unfold decodeGroup
      dsimp only
      rw [value_effective, value_effective, low, sameMiddle, sameHigh]
    change decodeGroups (wordIndex (lowerCase w1) :: wordIndex (lowerCase w2) ::
        wordIndex (lowerCase w3) :: getWordIndexes (words.map lowerCase)) =
      decodeGroups (wordIndex w1 :: wordIndex w2 :: wordIndex w3 :: getWordIndexes words)
    rw [decodeGroups, decodeGroups, group, later]
  | case2 words isShort =>
    rw [decodeGroups_short isShort, decodeGroups_short]
    intro w1 w2 w3 rest same
    rcases words with _ | ⟨v1, _ | ⟨v2, _ | ⟨v3, others⟩⟩⟩
    · cases same
    · cases same
    · cases same
    · exact isShort _ _ _ _ rfl

/-! ### From bytes to words and back -/

theorem symbol_lt (val : Nat) :
    first english.length val < english.length ∧ second english.length val < english.length ∧
      third english.length val < english.length :=
  ⟨mod_lt _ positive_length, mod_lt _ positive_length, mod_lt _ positive_length⟩

theorem mem_encodeGroups (isWord : word ∈ encodeGroups data) :
    word ∈ english := by
  fun_induction encodeGroups data with
  | case1 b0 b1 b2 b3 data val wlLen ih =>
    obtain ⟨low, middle, high⟩ := symbol_lt val
    rcases mem_cons.mp isWord with rfl | isWord
    · exact englishWord_mem low
    rcases mem_cons.mp isWord with rfl | isWord
    · exact englishWord_mem middle
    rcases mem_cons.mp isWord with rfl | isWord
    · exact englishWord_mem high
    · exact ih isWord
  | case2 data isShort => cases isWord

theorem length_encodeGroups {data : List UInt8} (groups : data.length % 4 = 0) :
    4 * (encodeGroups data).length = 3 * data.length := by
  fun_induction encodeGroups data with
  | case1 b0 b1 b2 b3 data val wlLen ih =>
    simp only [length_cons] at groups ⊢
    omega
  | case2 data isShort =>
    rcases data with _ | ⟨b0, _ | ⟨b1, _ | ⟨b2, _ | ⟨b3, rest⟩⟩⟩⟩
    · rfl
    · cases groups
    · cases groups
    · cases groups
    · exact (isShort _ _ _ _ _ rfl).elim

theorem decodeGroups_encodeGroups (groups : data.length % 4 = 0) (checksum : Text) :
    decodeGroups (getWordIndexes (encodeGroups data ++ [checksum])) = .ok data := by
  fun_induction encodeGroups data with
  | case1 b0 b1 b2 b3 data val wlLen ih =>
    simp only [length_cons] at groups
    obtain ⟨low, middle, high⟩ := symbol_lt val
    have fits : val < 2 ^ 32 :=
      lt_of_lt_of_eq (ofLittleEndian_lt [b0, b1, b2, b3]) (by decide : 256 ^ 4 = 2 ^ 32)
    have isValue : value english.length (first english.length val)
        (second english.length val)
        (third english.length val) = val := by
      apply value_symbols
      rw [length_english]
      omega
    refine decodeGroups_cons_eq_ok.mpr ⟨[b0, b1, b2, b3], data, ?_, ih (by omega), rfl⟩
    rw [wordIndex_englishWord low, wordIndex_englishWord middle, wordIndex_englishWord high,
      decodeGroup_eq_ok, isValue]
    exact ⟨low, fits, littleEndian_ofLittleEndian [b0, b1, b2, b3]⟩
  | case2 data isShort =>
    rcases data with _ | ⟨b0, _ | ⟨b1, _ | ⟨b2, _ | ⟨b3, rest⟩⟩⟩⟩
    · rfl
    · cases groups
    · cases groups
    · cases groups
    · exact (isShort _ _ _ _ _ rfl).elim

/-! ### Seeds -/

theorem mnemonicToPrivateKey_eq_ok :
    mnemonicToPrivateKey words = .ok key ↔
      words.length = 25 ∧ (∀ word ∈ words, lowerCase word ∈ english) ∧
        hasValidChecksum words = true ∧ ∃ data, decodeGroups (getWordIndexes words) = .ok data ∧
          key = ⟨BitVec.ofNat 256 (ofLittleEndian data)⟩ := by
  unfold mnemonicToPrivateKey
  rw [rejectIf_bind_eq_ok, check_bind_eq_ok, forM_eq_ok_iff, rejectIf_bind_eq_ok, bind_eq_ok]
  simp only [rejectIf_eq_ok, not_not, Bool.not_eq_false]
  refine and_congr_right fun _ => and_congr_right fun _ => and_congr_right fun _ =>
    exists_congr fun data => and_congr_right fun _ => ?_
  exact ⟨fun same => (Except.ok.inj same).symm, fun same => congrArg Except.ok same.symm⟩

private theorem append_singleton_eq_iff {front : List Text} {last : Text} :
    front ++ [last] = words ↔ front = words.dropLast ∧ words.getLast? = some last := by
  constructor
  · rintro rfl
    exact ⟨dropLast_concat.symm, getLast?_concat⟩
  · rintro ⟨rfl, isLast⟩
    exact dropLast_append_getLast? last isLast

theorem length_keyWords (key : SecretKey) : (keyWords key).length = 24 := by
  have size := @length_encodeGroups (littleEndian 32 key.value.toNat) (by simp)
  exact Nat.eq_of_mul_eq_mul_left (by decide : 0 < 4) size

theorem getChecksumWord_mem (nonempty : words ≠ []) :
    getChecksumWord words ∈ words := by
  have inside := mod_lt
    (CRC32.crc32 (words.flatMap fun word => word.take 3)).toNat (length_pos_iff.mpr nonempty)
  change words.getD _ [] ∈ words
  rw [getD_eq_getElem _ _ inside]
  exact getElem_mem inside

def seedWords (key : SecretKey) : List Text := keyWords key ++ [getChecksumWord (keyWords key)]

theorem mem_seedWords (isWord : word ∈ seedWords key) :
    word ∈ english := by
  have nonempty : keyWords key ≠ [] := length_pos_iff.mp (by rw [length_keyWords]; decide)
  rcases mem_append.mp isWord with isFront | isChecksum
  · exact mem_encodeGroups isFront
  · rw [mem_singleton.mp isChecksum]
    exact mem_encodeGroups (getChecksumWord_mem nonempty)

theorem mnemonicToPrivateKey_seedWords (key : SecretKey) :
    mnemonicToPrivateKey (seedWords key) = .ok key := by
  refine mnemonicToPrivateKey_eq_ok.mpr ⟨?_, ?_, ?_, littleEndian 32 key.value.toNat, ?_, ?_⟩
  · rw [seedWords, length_append, length_keyWords, length_singleton]
  · intro word isWord
    have listed := mem_seedWords isWord
    rw [lowerCase, map_toLower_english listed]
    exact listed
  · exact decide_eq_true (append_singleton_eq_iff.mp rfl).2
  · exact decodeGroups_encodeGroups (by simp) _
  · have fits : key.value.toNat < 256 ^ 32 := key.value.isLt
    rw [ofLittleEndian_littleEndian fits, BitVec.ofNat_toNat, BitVec.setWidth_eq]

theorem keyWords_of_accepted (accepted : mnemonicToPrivateKey words = .ok key) :
    keyWords key = words.dropLast.map readAs ∧
      (keyWords key = (words.map lowerCase).dropLast ↔ Legible words) := by
  obtain ⟨size, known, _, data, decoded, rfl⟩ := mnemonicToPrivateKey_eq_ok.mp accepted
  obtain ⟨dataSize, isFront, legible⟩ :=
    encodeGroups_of_decodeGroups (by rw [size]) known decoded
  have isData : data.length = 32 := by
    rw [length_dropLast, size] at dataSize
    omega
  have bound := ofLittleEndian_lt data
  have bytes := littleEndian_ofLittleEndian data
  rw [isData] at bound bytes
  have fits : ofLittleEndian data < 2 ^ 256 := bound
  have written : keyWords ⟨BitVec.ofNat 256 (ofLittleEndian data)⟩ =
      words.dropLast.map readAs := by
    rw [keyWords, BitVec.toNat_ofNat, mod_eq_of_lt fits, bytes, isFront]
  rw [written, ← map_dropLast]
  exact ⟨rfl, legible⟩

/-- What an accepted seed needs to be the seed of its key up to capital letters. -/
def Faithful (words : List Text) : Prop :=
  Legible words ∧ hasValidChecksum (words.map lowerCase) = true

theorem seedWords_of_accepted (accepted : mnemonicToPrivateKey words = .ok key) :
    seedWords key = words.map lowerCase ↔ Faithful words := by
  have front := (keyWords_of_accepted accepted).2
  rw [seedWords, append_singleton_eq_iff, Faithful, front, hasValidChecksum, decide_eq_true_eq]
  refine and_congr_right fun legible => ?_
  rw [front.mpr legible]

theorem isWord_of_mem (listed : ∀ word ∈ words, word ∈ english) :
    ∀ word ∈ words, Phrase.IsWord isSpace word :=
  fun word isWord => isWord_english (listed word isWord)

theorem accepted_iff_of_lowerCase
    (accepted : mnemonicToPrivateKey (words.map lowerCase) = .ok key) :
    mnemonicToPrivateKey words = .ok key ↔ Legible words ∧ hasValidChecksum words = true := by
  obtain ⟨size, known, checksum, data, decoded, isKey⟩ := mnemonicToPrivateKey_eq_ok.mp accepted
  have knownWords : ∀ word ∈ words, lowerCase word ∈ english := by
    intro word isWord
    have listed := known _ (mem_map_of_mem isWord)
    rwa [lowerCase_lowerCase] at listed
  constructor
  · intro same
    have small := (keyWords_of_accepted accepted).1
    have plain : (words.map lowerCase).dropLast.map readAs = (words.map lowerCase).dropLast := by
      rw [← map_dropLast, map_map]
      apply map_congr_left
      intro word isWord
      exact readAs_of_mem (knownWords word (dropLast_subset _ isWord))
    rw [plain] at small
    exact ⟨(keyWords_of_accepted same).2.mp small, (mnemonicToPrivateKey_eq_ok.mp same).2.2.1⟩
  · rintro ⟨legible, valid⟩
    rw [length_map] at size
    rw [decodeGroups_lowerCase knownWords legible] at decoded
    exact mnemonicToPrivateKey_eq_ok.mpr ⟨size, knownWords, valid, data, decoded, isKey⟩

/-- Every key comes back from its seed. An accepted list of words is the seed of its key
in small letters exactly if it is faithful, so faithful lists that differ in more than
capitals give different keys; another spelling of a valid seed gives its key exactly if
it is legible and passes the checksum as it is spelled. -/
theorem mnemonics_round_trip_iff (words : List Text) :
    (∀ key, mnemonicTextToPrivateKey (privateKeyToMnemonic key) = .ok key) ∧
    (∀ key, mnemonicToPrivateKey words = .ok key →
      (privateKeyToMnemonic key = Phrase.join 32 (words.map lowerCase) ↔ Faithful words)) ∧
    (∀ left right key, mnemonicToPrivateKey left = .ok key →
      mnemonicToPrivateKey right = .ok key → Faithful left → Faithful right →
      left.map lowerCase = right.map lowerCase) ∧
    (∀ key, mnemonicToPrivateKey (words.map lowerCase) = .ok key →
      (mnemonicToPrivateKey words = .ok key ↔ Legible words ∧ hasValidChecksum words = true)) := by
  refine ⟨?_, ?_, ?_, ?_⟩
  · intro key
    change mnemonicToPrivateKey (Phrase.words isSpace (Phrase.join 32 (seedWords key))) = .ok key
    rw [Phrase.words_join rfl (isWord_of_mem fun _ isWord => mem_seedWords isWord)]
    exact mnemonicToPrivateKey_seedWords key
  · intro key accepted
    have known := (mnemonicToPrivateKey_eq_ok.mp accepted).2.1
    rw [← seedWords_of_accepted accepted]
    apply Phrase.join_inj rfl (isWord_of_mem fun _ isWord => mem_seedWords isWord)
    apply isWord_of_mem
    intro word isWord
    obtain ⟨given, isGiven, rfl⟩ := mem_map.mp isWord
    exact known given isGiven
  · intro left right key acceptedLeft acceptedRight faithfulLeft faithfulRight
    rw [← (seedWords_of_accepted acceptedLeft).mpr faithfulLeft,
      (seedWords_of_accepted acceptedRight).mpr faithfulRight]
  · intro key accepted
    exact accepted_iff_of_lowerCase accepted

/-- Two accepted seeds of different words with one key: the capital in the second word
makes it count as the first word of the list. -/
def capitalSeed : List Text :=
  ascii "abbey" :: ascii "Ability" :: List.replicate 23 (ascii "abbey")

theorem capital_read_as_first_word :
    mnemonicToPrivateKey capitalSeed = .ok ⟨0⟩ ∧
      mnemonicToPrivateKey (List.replicate 25 (ascii "abbey")) = .ok ⟨0⟩ ∧
      privateKeyToMnemonic ⟨0⟩ ≠ Phrase.join 32 (capitalSeed.map lowerCase) := by
  decide +kernel

end Mnemonics
end Mevacoin
