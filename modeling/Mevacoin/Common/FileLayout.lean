/-
How a vector lies in its file: where the parts are, what a write to one of them changes,
and that opening a file of this shape gives back its parts.
-/

import Mevacoin.Common.FileMappedVector

namespace Mevacoin
open List UInt64 Nat Regions

namespace FileMappedVector
open Wallet

variable {start index : Nat}

/-! ### Offsets -/

theorem toNat_ofNat {number : Nat} (fits : number < 2 ^ 64) :
    (UInt64.ofNat number).toNat = number :=
  toNat_ofNat_of_lt' fits

theorem length_word (value : UInt64) : (word value).length = 8 :=
  ByteReader.littleEndian_length 8 value.toNat

theorem readWord_word {file rest : File} {offset : UInt64} {value : UInt64}
    (isWord : file.drop offset.toNat = word value ++ rest) : readWord file offset = value := by
  have fits : value.toNat < 256 ^ 8 := value.toNat_lt
  rw [readWord, isWord, take_left' (length_word value), word,
    ByteReader.ofLittleEndian_littleEndian fits, UInt64.ofNat_toNat]

section Offsets
variable {T : Type} (pod : Pod T)

theorem toNat_sizePtr (fits : start + 16 < 2 ^ 64) :
    (sizePtr (UInt64.ofNat start)).toNat = start + 8 := by
  have isStart := toNat_ofNat (show start < 2 ^ 64 by omega)
  simp only [sizePtr, capacityPtr, UInt64.toNat_add, isStart, UInt64.reduceToNat]
  omega

theorem toNat_vectorDataPtr (fits : start + 16 < 2 ^ 64) :
    (vectorDataPtr (UInt64.ofNat start)).toNat = start + 16 := by
  simp only [vectorDataPtr, UInt64.toNat_add, toNat_sizePtr fits, UInt64.reduceToNat]
  omega

private theorem index_lt (fits : index * pod.size < 2 ^ 64) : index < 2 ^ 64 :=
  Nat.lt_of_le_of_lt (Nat.le_mul_of_pos_right index pod.size_pos) fits

theorem toNat_bytes (fits : index * pod.size < 2 ^ 64) :
    (UInt64.ofNat index * valueSize pod).toNat = index * pod.size := by
  rw [UInt64.toNat_mul, toNat_ofNat (index_lt pod fits), valueSize, toNat_ofNat pod.size_lt,
    mod_eq_of_lt fits]

theorem toNat_elementPtr (fits : start + 16 + index * pod.size < 2 ^ 64) :
    (elementPtr pod (UInt64.ofNat start) (UInt64.ofNat index)).toNat =
      start + 16 + index * pod.size := by
  rw [elementPtr, UInt64.toNat_add, toNat_vectorDataPtr (by omega), toNat_bytes pod (by omega),
    mod_eq_of_lt fits]

theorem toNat_fileSize {capacity prefixSize suffixSize : Nat}
    (fits : prefixSize + 16 + capacity * pod.size + suffixSize < 2 ^ 64) :
    (fileSize pod (UInt64.ofNat capacity) (UInt64.ofNat prefixSize) (UInt64.ofNat suffixSize)).toNat =
      prefixSize + 16 + capacity * pod.size + suffixSize := by
  have isPrefix := toNat_ofNat (show prefixSize < 2 ^ 64 by omega)
  have isSuffix := toNat_ofNat (show suffixSize < 2 ^ 64 by omega)
  have isData := toNat_bytes pod (show capacity * pod.size < 2 ^ 64 by omega)
  simp only [fileSize, metadataSize, UInt64.toNat_add, isPrefix, isSuffix, isData, UInt64.reduceToNat]
  omega

theorem length_valuesBytes (values : List T) :
    (valuesBytes pod values).length = values.length * pod.size := by
  induction values with
  | nil => rw [length_nil, Nat.zero_mul]; rfl
  | cons value values ih =>
    rw [valuesBytes, flatMap_cons, length_append, pod.length_toBytes, length_cons,
      succ_mul, add_comm]
    exact congrArg (· + pod.size) ih

theorem valuesBytes_append (first second : List T) :
    valuesBytes pod (first ++ second) = valuesBytes pod first ++ valuesBytes pod second :=
  flatMap_append

end Offsets

/-! ### The layout of a file -/

def assemble (prefixBytes : List UInt8) (capacity size : UInt64) (data suffixBytes : List UInt8) :
    File :=
  prefixBytes ++ (word capacity ++ (word size ++ (data ++ suffixBytes)))

section Layout
variable {prefixBytes data suffixBytes bytes : List UInt8} {capacity size : UInt64}

theorem length_assemble :
    (assemble prefixBytes capacity size data suffixBytes).length =
      prefixBytes.length + 16 + data.length + suffixBytes.length := by
  simp only [assemble, length_append, length_word]
  omega

theorem drop_size :
    (assemble prefixBytes capacity size data suffixBytes).drop (prefixBytes.length + 8) =
      word size ++ (data ++ suffixBytes) := by
  rw [assemble, drop_length_add_append, drop_left' (length_word capacity)]

theorem drop_data :
    (assemble prefixBytes capacity size data suffixBytes).drop (prefixBytes.length + 16) =
      data ++ suffixBytes := by
  rw [show prefixBytes.length + 16 = prefixBytes.length + 8 + 8 from rfl, ← drop_drop,
    drop_size, drop_left' (length_word size)]

theorem assemble_zeros (prefixSize dataSize suffixSize : Nat) :
    replicate (prefixSize + 16 + dataSize + suffixSize) 0 =
      assemble (replicate prefixSize 0) 0 0 (replicate dataSize 0)
        (replicate suffixSize 0) := by
  have isZero : word 0 = replicate 8 0 := by decide
  rw [assemble, isZero, replicate_append_replicate, replicate_append_replicate,
    replicate_append_replicate, replicate_append_replicate]
  congr 1
  omega

theorem overwrite_capacity (newCapacity : UInt64) :
    overwrite (assemble prefixBytes capacity size data suffixBytes) prefixBytes.length
      (word newCapacity) = some (assemble prefixBytes newCapacity size data suffixBytes) :=
  overwrite_whole ((length_word _).trans (length_word _).symm)

theorem overwrite_size (newSize : UInt64) :
    overwrite (assemble prefixBytes capacity size data suffixBytes)
      (prefixBytes.length + 8) (word newSize) =
      some (assemble prefixBytes capacity newSize data suffixBytes) := by
  have written := @overwrite_whole _ (prefixBytes ++ word capacity) (word size)
    (data ++ suffixBytes) (word newSize) ((length_word _).trans (length_word _).symm)
  rw [length_append, length_word, append_assoc, append_assoc] at written
  exact written

theorem overwrite_prefixBytes (inside : bytes.length ≤ prefixBytes.length) :
    overwrite (assemble prefixBytes capacity size data suffixBytes) 0 bytes =
      some (assemble (bytes ++ prefixBytes.drop bytes.length) capacity size data suffixBytes) := by
  have written := @overwrite_region _ [] prefixBytes
    (word capacity ++ (word size ++ (data ++ suffixBytes))) bytes 0 (by omega)
  rw [length_nil, zero_add, zero_add, take_zero, nil_append, nil_append, nil_append] at written
  exact written

theorem overwrite_data (inside : start + bytes.length ≤ data.length) :
    overwrite (assemble prefixBytes capacity size data suffixBytes)
      (prefixBytes.length + 16 + start) bytes =
      some (assemble prefixBytes capacity size
        (data.take start ++ bytes ++ data.drop (start + bytes.length)) suffixBytes) := by
  have written := @overwrite_region _ (prefixBytes ++ (word capacity ++ word size)) data
    suffixBytes bytes start inside
  simp only [length_append, length_word, append_assoc] at written ⊢
  simpa only [assemble, append_assoc] using written

theorem overwrite_suffixBytes (inside : bytes.length ≤ suffixBytes.length) :
    overwrite (assemble prefixBytes capacity size data suffixBytes)
      (prefixBytes.length + 16 + data.length) bytes =
      some (assemble prefixBytes capacity size data (bytes ++ suffixBytes.drop bytes.length)) := by
  have written := @overwrite_region _ (prefixBytes ++ (word capacity ++ (word size ++ data)))
    suffixBytes [] bytes 0 (by omega)
  have isOffset : (prefixBytes ++ (word capacity ++ (word size ++ data))).length + 0 =
      prefixBytes.length + 16 + data.length := by
    simp only [length_append, length_word]
    omega
  rw [isOffset] at written
  simpa only [assemble, append_assoc, append_nil, take_zero, nil_append, zero_add] using written

end Layout

/-! ### Files that hold a vector -/

variable {T : Type} {pod : Pod T}

def Fits (pod : Pod T) (capacity prefixSize suffixSize : Nat) : Prop :=
  prefixSize + 16 + capacity * pod.size + suffixSize < 2 ^ 63

/-- A vector as it lies in its file; `spare` are the bytes of the slots beyond its size. -/
structure Image (pod : Pod T) where
  prefixBytes : List UInt8
  capacity : Nat
  elements : List T
  spare : List UInt8
  suffixBytes : List UInt8
  room : elements.length * pod.size + spare.length = capacity * pod.size
  fits : Fits pod capacity prefixBytes.length suffixBytes.length

namespace Image
variable (image : Image pod)

def file : File :=
  assemble image.prefixBytes (UInt64.ofNat image.capacity) (UInt64.ofNat image.elements.length)
    (valuesBytes pod image.elements ++ image.spare) image.suffixBytes

def mapped : Mapped where
  file := image.file
  prefixSize := UInt64.ofNat image.prefixBytes.length
  suffixSize := UInt64.ofNat image.suffixBytes.length

def contents : Contents T where
  prefixBytes := image.prefixBytes
  elements := image.elements
  suffixBytes := image.suffixBytes

theorem size_lt : image.prefixBytes.length + 16 + image.capacity * pod.size +
    image.suffixBytes.length < 2 ^ 63 :=
  image.fits

theorem length_data :
    (valuesBytes pod image.elements ++ image.spare).length = image.capacity * pod.size := by
  rw [length_append, length_valuesBytes, image.room]

theorem length_file :
    image.file.length =
      image.prefixBytes.length + 16 + image.capacity * pod.size + image.suffixBytes.length := by
  rw [file, length_assemble, image.length_data]

theorem length_le_capacity : image.elements.length ≤ image.capacity := by
  have room := image.room
  exact le_of_mul_le_mul_right (by omega) pod.size_pos

theorem capacity_lt : image.capacity < 2 ^ 63 := by
  have fits := image.size_lt
  have wide := Nat.le_mul_of_pos_right image.capacity pod.size_pos
  omega

theorem capacity_mapped : image.mapped.capacity = UInt64.ofNat image.capacity := by
  have fits := image.size_lt
  have isPrefix := toNat_ofNat (show image.prefixBytes.length < 2 ^ 64 by omega)
  apply readWord_word
  change image.file.drop (UInt64.ofNat image.prefixBytes.length).toNat = _
  rw [isPrefix, file, assemble, drop_left]

theorem size_mapped : image.mapped.size = UInt64.ofNat image.elements.length := by
  have fits := image.size_lt
  apply readWord_word
  change image.file.drop (sizePtr (UInt64.ofNat image.prefixBytes.length)).toNat = _
  rw [toNat_sizePtr (by omega), file, drop_size]

theorem prefixBytes_mapped : image.mapped.prefixBytes = image.prefixBytes := by
  have fits := image.size_lt
  have isPrefix := toNat_ofNat (show image.prefixBytes.length < 2 ^ 64 by omega)
  change image.file.take (UInt64.ofNat image.prefixBytes.length).toNat = _
  rw [isPrefix, file, assemble, take_left]

theorem suffixBytes_mapped : image.mapped.suffixBytes pod = image.suffixBytes := by
  have fits := image.size_lt
  have isSuffix := toNat_ofNat (show image.suffixBytes.length < 2 ^ 64 by omega)
  rw [Mapped.suffixBytes, capacity_mapped, suffixPtr]
  change (image.file.drop (elementPtr pod (UInt64.ofNat image.prefixBytes.length) _).toNat).take
    (UInt64.ofNat image.suffixBytes.length).toNat = _
  rw [toNat_elementPtr pod (by omega), isSuffix, file, ← drop_drop, drop_data,
    drop_left' image.length_data, take_length]

theorem readElements_valuesBytes {file rest : File} {start : Nat} (values : List T)
    (fits : start + values.length * pod.size < 2 ^ 64)
    (isData : file.drop start = valuesBytes pod values ++ rest) :
    Mapped.readElements pod file (UInt64.ofNat start) values.length = values := by
  induction values generalizing start with
  | nil => rfl
  | cons value values ih =>
    rw [length_cons, succ_mul] at fits
    have isStart := toNat_ofNat (show start < 2 ^ 64 by omega)
    have split : file.drop start = pod.toBytes value ++ (valuesBytes pod values ++ rest) := by
      rw [isData, valuesBytes, flatMap_cons, append_assoc]
      rfl
    have next : UInt64.ofNat start + valueSize pod = UInt64.ofNat (start + pod.size) := by
      rw [valueSize, ofNat_add]
    have later : file.drop (start + pod.size) = valuesBytes pod values ++ rest := by
      rw [← drop_drop, split, drop_left' (pod.length_toBytes value)]
    rw [length_cons, Mapped.readElements, next, ih (by omega) later, isStart, split,
      take_left' (pod.length_toBytes value), pod.ofBytes_toBytes]

theorem elements_mapped : image.mapped.elements pod = image.elements := by
  have fits := image.size_lt
  have capacityBound := image.capacity_lt
  have inside := image.length_le_capacity
  have room := image.room
  have isCount := toNat_ofNat (show image.elements.length < 2 ^ 64 by omega)
  rw [Mapped.elements, size_mapped, isCount]
  change Mapped.readElements pod image.file
    (vectorDataPtr (UInt64.ofNat image.prefixBytes.length)) _ = _
  rw [← UInt64.ofNat_toNat (x := vectorDataPtr _), toNat_vectorDataPtr (by omega)]
  refine @readElements_valuesBytes T pod image.file (image.spare ++ image.suffixBytes) _
    image.elements (by omega) ?_
  rw [file, drop_data, append_assoc]

theorem contents_mapped : image.mapped.contents pod = image.contents := by
  rw [Mapped.contents, prefixBytes_mapped, elements_mapped, suffixBytes_mapped]
  rfl

theorem openFile_file :
    openFile pod (some image.file) (UInt64.ofNat image.prefixBytes.length) = .ok image.mapped := by
  have fits := image.size_lt
  have capacityBound := image.capacity_lt
  have inside := image.length_le_capacity
  have isCapacity : Mapped.capacity ⟨image.file, UInt64.ofNat image.prefixBytes.length, 0⟩ =
      UInt64.ofNat image.capacity := image.capacity_mapped
  have isSize : Mapped.size ⟨image.file, UInt64.ofNat image.prefixBytes.length, 0⟩ =
      UInt64.ofNat image.elements.length := image.size_mapped
  have required : UInt64.ofNat image.prefixBytes.length + metadataSize +
      UInt64.ofNat image.capacity * valueSize pod =
        UInt64.ofNat (image.prefixBytes.length + 16 + image.capacity * pod.size) := by
    rw [ofNat_add, ofNat_add, ofNat_mul]
    rfl
  have large : ¬ UInt64.ofNat image.file.length <
      UInt64.ofNat image.prefixBytes.length + metadataSize := by
    rw [length_file, UInt64.lt_iff_toNat_lt, toNat_ofNat (by omega), UInt64.toNat_add,
      toNat_ofNat (by omega)]
    change ¬ _ < (_ + 16) % 2 ^ 64
    omega
  have ordered : ¬ UInt64.ofNat image.elements.length > UInt64.ofNat image.capacity := by
    rw [gt_iff_lt, lt_iff_toNat_lt, toNat_ofNat (by omega), toNat_ofNat (by omega)]
    omega
  have complete : ¬ UInt64.ofNat image.file.length <
      UInt64.ofNat (image.prefixBytes.length + 16 + image.capacity * pod.size) := by
    rw [length_file, lt_iff_toNat_lt, toNat_ofNat (by omega), toNat_ofNat (by omega)]
    omega
  have isSuffix : UInt64.ofNat image.file.length -
      UInt64.ofNat (image.prefixBytes.length + 16 + image.capacity * pod.size) =
        UInt64.ofNat image.suffixBytes.length := by
    rw [length_file, ofNat_add, add_comm, add_sub_cancel_right]
  simp only [openFile, isCapacity, isSize, required, if_neg large, if_neg ordered, if_neg complete,
    isSuffix]
  rfl

theorem reopen_recovered {disk : Disk} {mode : OpenMode} (mustOpen : mode ≠ .create)
    (isFile : (recover disk).file = some image.file) :
    reopen pod disk mode (UInt64.ofNat image.prefixBytes.length) = .ok image.contents := by
  have opened : openVector pod disk mode (UInt64.ofNat image.prefixBytes.length) =
      .ok image.mapped := by
    cases mode with
    | «open» => rw [openVector, isFile]; exact image.openFile_file
    | create => exact absurd rfl mustOpen
    | openOrCreate => rw [openVector, isFile]; exact image.openFile_file
  rw [reopen, opened]
  exact congrArg Except.ok image.contents_mapped

end Image
end FileMappedVector
end Mevacoin
