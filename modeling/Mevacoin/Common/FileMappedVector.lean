/-
A vector that lives in a memory-mapped file. The file is a prefix of bytes, the capacity
and the size as 64-bit words, the slots, and a suffix. Small changes are written in place;
every other change builds a temporary file, moves the old file to its .bak name, moves the
temporary file to the path and removes the .bak file.

An operation is the list of its file-system actions. A write through the mapping is in the
file at once; one outside the mapping stops the process. Sizes and offsets are 64-bit
words that wrap.
-/

import Mevacoin.Lib.Interruption
import Mevacoin.Lib.Regions
import Mevacoin.Wallet.Types

namespace Mevacoin
namespace FileMappedVector
open Wallet

abbrev File := List UInt8

/-- The files at the vector's path, at its .bak path and at the temporary path. -/
structure Disk where
  file : Option File
  bak : Option File
  tmp : Option File
  deriving DecidableEq, Repr

inductive Action where
  | removeBak
  | createTmp (size : UInt64)
  | writeTmp (offset : UInt64) (bytes : List UInt8)
  | writeFile (offset : UInt64) (bytes : List UInt8)
  | flush
  | renameToBak
  | renameTmp
  deriving DecidableEq, Repr

def Action.apply : Action → Disk → Option Disk
  | .removeBak, disk => some { disk with bak := none }
  | .createTmp size, disk =>
    -- ftruncate refuses a size that is negative as off_t
    if size.toNat < 2 ^ 63 then some { disk with tmp := some (List.replicate size.toNat 0) }
    else none
  | .writeTmp offset bytes, disk => do
      let tmp ← disk.tmp
      let written ← Regions.overwrite tmp offset.toNat bytes
      return { disk with tmp := some written }
  | .writeFile offset bytes, disk => do
      let file ← disk.file
      let written ← Regions.overwrite file offset.toNat bytes
      return { disk with file := some written }
  | .flush, disk => some disk
  | .renameToBak, disk => do
      let file ← disk.file
      return { disk with file := none, bak := some file }
  | .renameTmp, disk => do
      let tmp ← disk.tmp
      return { disk with file := some tmp, tmp := none }

structure Pod (T : Type) where
  size : Nat
  size_pos : 0 < size
  size_lt : size < 2 ^ 64
  toBytes : T → List UInt8
  ofBytes : List UInt8 → T
  length_toBytes : ∀ value, (toBytes value).length = size
  ofBytes_toBytes : ∀ value, ofBytes (toBytes value) = value

def word (value : UInt64) : List UInt8 := ByteReader.littleEndian 8 value.toNat

def readWord (file : File) (offset : UInt64) : UInt64 :=
  UInt64.ofNat (ByteReader.ofLittleEndian ((file.drop offset.toNat).take 8))

def metadataSize : UInt64 := 16

variable {T : Type} (pod : Pod T)

def valueSize : UInt64 := UInt64.ofNat pod.size

def valuesBytes (values : List T) : List UInt8 := values.flatMap pod.toBytes

structure Mapped where
  file : File
  prefixSize : UInt64
  suffixSize : UInt64
  deriving DecidableEq, Repr

def capacityPtr (prefixSize : UInt64) : UInt64 := prefixSize

def sizePtr (prefixSize : UInt64) : UInt64 := capacityPtr prefixSize + 8

def vectorDataPtr (prefixSize : UInt64) : UInt64 := sizePtr prefixSize + 8

def elementPtr (prefixSize index : UInt64) : UInt64 :=
  vectorDataPtr prefixSize + index * valueSize pod

def suffixPtr (prefixSize capacity : UInt64) : UInt64 := elementPtr pod prefixSize capacity

namespace Mapped

def capacity (vector : Mapped) : UInt64 := readWord vector.file (capacityPtr vector.prefixSize)

def size (vector : Mapped) : UInt64 := readWord vector.file (sizePtr vector.prefixSize)

def nextCapacity (vector : Mapped) : UInt64 := vector.capacity + vector.capacity / 2 + 1

def prefixBytes (vector : Mapped) : List UInt8 := vector.file.take vector.prefixSize.toNat

def readElements (file : File) (offset : UInt64) : Nat → List T
  | 0 => []
  | count + 1 =>
    pod.ofBytes ((file.drop offset.toNat).take pod.size) ::
      readElements file (offset + valueSize pod) count

def elements (vector : Mapped) : List T :=
  readElements pod vector.file (vectorDataPtr vector.prefixSize) vector.size.toNat

def suffixBytes (vector : Mapped) : List UInt8 :=
  (vector.file.drop (suffixPtr pod vector.prefixSize vector.capacity).toNat).take
    vector.suffixSize.toNat

end Mapped

structure Contents (T : Type) where
  prefixBytes : List UInt8
  elements : List T
  suffixBytes : List UInt8
  deriving DecidableEq, Repr

def Mapped.contents (vector : Mapped) : Contents T where
  prefixBytes := vector.prefixBytes
  elements := vector.elements pod
  suffixBytes := vector.suffixBytes pod

/-! ### Opening -/

inductive OpenMode where
  | open
  | create
  | openOrCreate
  deriving DecidableEq, Repr

def initialCapacity : UInt64 := 10

def fileSize (capacity prefixSize suffixSize : UInt64) : UInt64 :=
  prefixSize + metadataSize + capacity * valueSize pod + suffixSize

def openFile (file : Option File) (prefixSize : UInt64) : Except Text Mapped :=
  match file with
  | none => throw (ascii "MemoryMappedFile::open")
  | some file => do
      let vector : Mapped := { file := file, prefixSize := prefixSize, suffixSize := 0 }
      let mappedSize := UInt64.ofNat file.length
      if mappedSize < prefixSize + metadataSize then
        throw (ascii "FileMappedVector::open() file is too small")
      if vector.size > vector.capacity then
        throw (ascii "FileMappedVector::open() vector size is greater than capacity")
      let minRequiredFileSize := prefixSize + metadataSize + vector.capacity * valueSize pod
      if mappedSize < minRequiredFileSize then
        throw (ascii "FileMappedVector::open() invalid file size")
      return { vector with suffixSize := mappedSize - minRequiredFileSize }

/-- The writes of `create` and of what fills the new vector, on a file of zeros. -/
def writtenFile (size : UInt64) (writes : List (UInt64 × List UInt8)) : Option File :=
  writes.foldlM (fun file write => Regions.overwrite file write.1.toNat write.2)
    (List.replicate size.toNat 0)

def createWrites (newCapacity newPrefixSize : UInt64) : List (UInt64 × List UInt8) :=
  [(sizePtr newPrefixSize, word 0), (capacityPtr newPrefixSize, word newCapacity)]

def createFile (file : Option File) (newPrefixSize : UInt64) : Except Text Mapped :=
  let size := fileSize pod initialCapacity newPrefixSize 0
  match file with
  | some _ => throw (ascii "MemoryMappedFile::create")
  | none =>
    if size.toNat < 2 ^ 63 then
      match writtenFile size (createWrites initialCapacity newPrefixSize) with
      | some file => return { file := file, prefixSize := newPrefixSize, suffixSize := 0 }
      | none => throw (ascii "MemoryMappedFile::create")
    else throw (ascii "MemoryMappedFile::create")

/-- What `open` does about a leftover .bak file. -/
def recover (disk : Disk) : Disk :=
  match disk.file, disk.bak with
  | some file, _ => { disk with file := some file, bak := none }
  | none, some bak => { disk with file := some bak, bak := none }
  | none, none => disk

def openVector (disk : Disk) (mode : OpenMode) (prefixSize : UInt64) : Except Text Mapped :=
  let file := (recover disk).file
  match mode with
  | .open => openFile pod file prefixSize
  | .create => createFile pod file prefixSize
  | .openOrCreate =>
    if file.isSome then openFile pod file prefixSize else createFile pod file prefixSize

def reopen (disk : Disk) (mode : OpenMode) (prefixSize : UInt64) : Except Text (Contents T) := do
  let vector ← openVector pod disk mode prefixSize
  return vector.contents pod

/-- The new file's size, and every write that makes its content. -/
structure Replacement where
  size : UInt64
  created : List (UInt64 × List UInt8)
  filled : List (UInt64 × List UInt8)
  deriving DecidableEq, Repr

def Replacement.file (replacement : Replacement) : Option File :=
  writtenFile replacement.size (replacement.created ++ replacement.filled)

def writeTmp (write : UInt64 × List UInt8) : Action := .writeTmp write.1 write.2

def Replacement.actions (replacement : Replacement) : List Action :=
  [.removeBak, .createTmp replacement.size] ++ replacement.created.map writeTmp ++ [.flush] ++
    replacement.filled.map writeTmp ++ [.flush, .renameToBak, .renameTmp, .removeBak]

/-- What `atomicUpdate` writes: the prefix, the new size, the copies of elements, each at
its slot, and the suffix. -/
def Mapped.replacement (vector : Mapped) (newSize newCapacity newPrefixSize newSuffixSize : UInt64)
    (copies : List (UInt64 × List T)) : Replacement where
  size := fileSize pod newCapacity newPrefixSize newSuffixSize
  created := createWrites newCapacity newPrefixSize
  filled :=
    (if vector.prefixSize ≠ 0 ∧ newPrefixSize ≠ 0 then
      [(0, vector.prefixBytes.take (min vector.prefixSize newPrefixSize).toNat)] else []) ++
    [(sizePtr newPrefixSize, word newSize)] ++
    copies.map (fun copy => (elementPtr pod newPrefixSize copy.1, valuesBytes pod copy.2)) ++
    (if vector.suffixSize ≠ 0 ∧ newSuffixSize ≠ 0 then
      [(suffixPtr pod newPrefixSize newCapacity,
        (vector.suffixBytes pod).take (min vector.suffixSize newSuffixSize).toNat)] else [])

/-! ### Operations -/

inductive Operation (T : Type) where
  | pushBack (val : T)
  | popBack
  | insert (position : UInt64) (values : List T)
  | erase (first last : UInt64)
  | reserve (n : UInt64)
  | resizePrefix (newPrefixSize : UInt64)
  | resizeSuffix (newSuffixSize : UInt64)

namespace Mapped

def reserved (vector : Mapped) (n : UInt64) : Option Replacement :=
  if n > vector.capacity then
    some (vector.replacement pod vector.size n vector.prefixSize vector.suffixSize
      [(0, vector.elements pod)])
  else none

def reserve (vector : Mapped) (n : UInt64) : List Action :=
  match vector.reserved pod n with
  | some replacement => replacement.actions
  | none => []

def afterReserve (vector : Mapped) (n : UInt64) : Option Mapped :=
  match vector.reserved pod n with
  | some replacement => replacement.file.map fun file => { vector with file := file }
  | none => some vector

def pushInPlace (vector : Mapped) (val : T) : List Action :=
  [.writeFile (elementPtr pod vector.prefixSize vector.size) (pod.toBytes val), .flush,
    .writeFile (sizePtr vector.prefixSize) (word (vector.size + 1)), .flush]

def pushBack (vector : Mapped) (val : T) : List Action :=
  if vector.capacity = vector.size then
    vector.reserve pod vector.nextCapacity ++
      match vector.afterReserve pod vector.nextCapacity with
      | some grown => grown.pushInPlace pod val
      | none => []
  else vector.pushInPlace pod val

def popBack (vector : Mapped) : List Action :=
  [.writeFile (sizePtr vector.prefixSize) (word (vector.size - 1)), .flush]

def insert (vector : Mapped) (position : UInt64) (values : List T) : List Action :=
  let newSize := vector.size + UInt64.ofNat values.length
  let newCapacity :=
    if newSize > vector.capacity then
      if newSize > vector.nextCapacity then newSize else vector.nextCapacity
    else vector.capacity
  (vector.replacement pod newSize newCapacity vector.prefixSize vector.suffixSize
    [(0, (vector.elements pod).take position.toNat), (position, values),
      (position + UInt64.ofNat values.length, (vector.elements pod).drop position.toNat)]).actions

def erase (vector : Mapped) (first last : UInt64) : List Action :=
  let newSize := vector.size - (last - first)
  (vector.replacement pod newSize vector.capacity vector.prefixSize vector.suffixSize
    [(0, (vector.elements pod).take first.toNat),
      (first, (vector.elements pod).drop last.toNat)]).actions

def resizePrefix (vector : Mapped) (newPrefixSize : UInt64) : List Action :=
  if vector.prefixSize ≠ newPrefixSize then
    (vector.replacement pod vector.size vector.capacity newPrefixSize vector.suffixSize
      [(0, vector.elements pod)]).actions
  else []

def resizeSuffix (vector : Mapped) (newSuffixSize : UInt64) : List Action :=
  if vector.suffixSize ≠ newSuffixSize then
    (vector.replacement pod vector.size vector.capacity vector.prefixSize newSuffixSize
      [(0, vector.elements pod)]).actions
  else []

def actions (vector : Mapped) : Operation T → List Action
  | .pushBack val => vector.pushBack pod val
  | .popBack => vector.popBack
  | .insert position values => vector.insert pod position values
  | .erase first last => vector.erase pod first last
  | .reserve n => vector.reserve pod n
  | .resizePrefix newPrefixSize => vector.resizePrefix pod newPrefixSize
  | .resizeSuffix newSuffixSize => vector.resizeSuffix pod newSuffixSize

end Mapped
end FileMappedVector
end Mevacoin
