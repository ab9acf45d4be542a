/-
Writing and parsing the extra field of a transaction. Every kind of field is read once,
and padding runs to the end.
-/

import Mevacoin.Mining.BlockTemplate

namespace Mevacoin
open List ByteReader Parameters

namespace TransactionExtraField

def write (extra : BinaryArray) : TransactionExtraField → Option BinaryArray
  | padding size =>
    if size > txExtraPaddingMaxCount then none else some (extra ++ List.replicate size 0)
  | publicKey key => some (addTransactionPublicKeyToExtra extra key)
  | nonce value => addExtraNonceToTransactionExtra extra value
  | mergeMiningTag tag => some (appendMergeMiningTagToExtra extra tag)

def tag : TransactionExtraField → UInt8
  | padding _ => 0x00
  | publicKey _ => 0x01
  | nonce _ => 0x02
  | mergeMiningTag _ => 0x03

def Sized : TransactionExtraField → Prop
  | padding size => 1 ≤ size ∧ size ≤ txExtraPaddingMaxCount
  | nonce value => value.length ≤ txExtraNonceMaxCount
  | _ => True

def bytes : TransactionExtraField → List UInt8
  | padding size => List.replicate size 0
  | publicKey key => 0x01 :: writePublicKey key
  | nonce value => 0x02 :: UInt8.ofNat value.length :: value
  | mergeMiningTag tag => 0x03 :: writeMergeMiningTag tag

end TransactionExtraField

open TransactionExtraField

def writeTransactionExtra (extra : BinaryArray) (fields : List TransactionExtraField) :
    Option BinaryArray :=
  fields.foldlM write extra

namespace SeenExtraTags

def has (seen : SeenExtraTags) : TransactionExtraField → Bool
  | .padding _ => seen.padding
  | .publicKey _ => seen.publicKey
  | .nonce _ => seen.nonce
  | .mergeMiningTag _ => seen.mergeMiningTag

def mark (seen : SeenExtraTags) : TransactionExtraField → SeenExtraTags
  | .padding _ => { seen with padding := true }
  | .publicKey _ => { seen with publicKey := true }
  | .nonce _ => { seen with nonce := true }
  | .mergeMiningTag _ => { seen with mergeMiningTag := true }

theorem has_mark (seen : SeenExtraTags) {field other : TransactionExtraField}
    (different : field.tag ≠ other.tag) : (seen.mark field).has other = seen.has other := by
  cases field <;> cases other <;> first | rfl | exact absurd rfl different

end SeenExtraTags

variable {field : TransactionExtraField} {fields : List TransactionExtraField}
  {seen : SeenExtraTags} {rounds : Nat}

theorem TransactionExtraField.write_eq (extra : BinaryArray) (sized : field.Sized) :
    field.write extra = some (extra ++ field.bytes) := by
  cases field with
  | padding size => exact if_neg (Nat.not_lt.mpr sized.2)
  | publicKey key => rfl
  | nonce nonce => exact if_neg (Nat.not_lt.mpr sized)
  | mergeMiningTag tag => rfl

theorem writeTransactionExtra_eq (extra : BinaryArray) (sized : ∀ field ∈ fields, field.Sized) :
    writeTransactionExtra extra fields = some (extra ++ fields.flatMap bytes) := by
  induction fields generalizing extra with
  | nil => simp [writeTransactionExtra]
  | cons field fields ih =>
    obtain ⟨here, later⟩ := forall_mem_cons.mp sized
    have rest := ih (extra ++ field.bytes) later
    rw [writeTransactionExtra, foldlM_cons, write_eq extra here, flatMap_cons, ← append_assoc]
    exact rest

theorem TransactionExtraField.bytes_length_pos (sized : field.Sized) : 0 < field.bytes.length := by
  cases field with
  | padding size => exact sized.1.trans_eq length_replicate.symm
  | publicKey key => exact Nat.succ_pos _
  | nonce nonce => exact Nat.succ_pos _
  | mergeMiningTag tag => exact Nat.succ_pos _

/-- One round of the parser on a field other than padding. -/
theorem parse_field (sized : field.Sized) (notPadding : field.tag ≠ 0)
    (unseen : seen.has field = false) (more : List UInt8) :
    parseTransactionExtraFrom (rounds + 1) seen (field.bytes ++ more)
      = (field :: (parseTransactionExtraFrom rounds (seen.mark field) more).1,
        (parseTransactionExtraFrom rounds (seen.mark field) more).2) := by
  cases field with
  | padding size => exact absurd rfl notPadding
  | publicKey key =>
    have unseen : seen.publicKey = false := unseen
    have read : readPublicKey.run (writePublicKey key ++ more) = some (key, more) :=
      (canonical_publicKey _ _ _).mpr ⟨trivial, rfl⟩
    simp [parseTransactionExtraFrom, bytes, unseen, read, SeenExtraTags.mark]
  | nonce nonce =>
    have unseen : seen.nonce = false := unseen
    have size : (UInt8.ofNat nonce.length).toNat = nonce.length :=
      UInt8.toNat_ofNat_of_lt' (Nat.lt_succ_of_le sized)
    have read : (times byte nonce.length).run (nonce ++ more) = some (nonce, more) :=
      (canonical_bytes _ _ _ _).mpr ⟨rfl, rfl⟩
    simp [parseTransactionExtraFrom, bytes, unseen, size, read, SeenExtraTags.mark]
  | mergeMiningTag tag =>
    have unseen : seen.mergeMiningTag = false := unseen
    have read := readMergeMiningTag_write tag more
    simp [parseTransactionExtraFrom, bytes, unseen, read, SeenExtraTags.mark]

theorem parse_padding {size : Nat} (sized : (padding size).Sized) (unseen : seen.padding = false) :
    parseTransactionExtraFrom (rounds + 1) seen (padding size).bytes = ([.padding size], true) := by
  obtain ⟨count, rfl⟩ : ∃ count, size = count + 1 := ⟨size - 1, by have := sized.1; omega⟩
  have short : ¬count ≥ txExtraPaddingMaxCount := Nat.not_le.mpr sized.2
  simp [parseTransactionExtraFrom, bytes, replicate_succ, unseen, short]

section
variable (once : (fields.map tag).Nodup) (sized : ∀ field ∈ fields, field.Sized)
  (last : ∀ field ∈ fields.dropLast, field.tag ≠ 0)
include once sized last

theorem parse_fields (unseen : ∀ field ∈ fields, seen.has field = false)
    (enough : (fields.flatMap bytes).length ≤ rounds) :
    parseTransactionExtraFrom rounds seen (fields.flatMap bytes) = (fields, true) := by
  induction fields generalizing rounds seen with
  | nil => cases rounds <;> rfl
  | cons field fields ih =>
    obtain ⟨here, later⟩ := forall_mem_cons.mp sized
    obtain ⟨unseenHere, unseenLater⟩ := forall_mem_cons.mp unseen
    obtain ⟨apart, onceLater⟩ := nodup_cons.mp once
    have positive := field.bytes_length_pos here
    rw [flatMap_cons, length_append] at enough
    obtain ⟨rounds, rfl⟩ : ∃ less, rounds = less + 1 := ⟨rounds - 1, by omega⟩
    rw [flatMap_cons]
    by_cases isPadding : field.tag = 0
    · have isLast : fields = [] := by
        by_contra more
        exact last field (by simp [dropLast_cons_of_ne_nil more]) isPadding
      subst isLast
      cases field with
      | padding size => simpa using parse_padding here unseenHere
      | publicKey | nonce | mergeMiningTag => simp [tag] at isPadding
    · have lastLater : ∀ other ∈ fields.dropLast, other.tag ≠ 0 := by
        intro other member
        apply last other
        rw [dropLast_cons_of_ne_nil (by rintro rfl; cases member)]
        exact mem_cons_of_mem _ member
      have unmarked : ∀ other ∈ fields, (seen.mark field).has other = false := by
        intro other member
        rw [seen.has_mark, unseenLater other member]
        exact fun same => apart (same ▸ mem_map_of_mem member)
      rw [parse_field here isPadding unseenHere, ih onceLater later lastLater unmarked (by omega)]

/-- Fields of different kinds, with padding only at the end and within the sizes that the
writer accepts, are read back. -/
theorem parseTransactionExtra_write :
    ∃ extra, writeTransactionExtra [] fields = some extra ∧
      parseTransactionExtra extra = (fields, true) := by
  refine ⟨fields.flatMap bytes, writeTransactionExtra_eq [] sized, ?_⟩
  apply parse_fields once sized last
  · intro field _
    cases field <;> rfl
  · exact Nat.le_refl _

end

theorem parseTransactionExtra_write_four :
    ∃ extra, writeTransactionExtra []
        [.mergeMiningTag ⟨0, ⟨0⟩⟩, .nonce [7], .publicKey ⟨1⟩, .padding 3] = some extra ∧
      parseTransactionExtra extra
        = ([.mergeMiningTag ⟨0, ⟨0⟩⟩, .nonce [7], .publicKey ⟨1⟩, .padding 3], true) := by
  apply parseTransactionExtra_write
  · decide
  · simp [Sized, txExtraPaddingMaxCount, txExtraNonceMaxCount]
  · simp [tag]

/-- Padding of 256 bytes is refused by the writer. -/
theorem writeTransactionExtra_long_padding : writeTransactionExtra [] [.padding 256] = none := rfl

end Mevacoin
