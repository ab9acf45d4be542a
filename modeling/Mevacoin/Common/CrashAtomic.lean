/-
Crash atomicity of the file-mapped vector: wherever an operation is cut short, opening the
path gives the old contents or the new ones, and a finished operation gives the new ones.
The turning point of a replacement is the renaming of the temporary file; an operation in
place turns with the write of the size.
-/

import Mevacoin.Common.FileLayout

namespace Mevacoin
open List Regions
open UInt64 (ofNat ofNat_add ofNat_sub ofNat_toNat toNat toNat_inj)
open Option (bind_eq_bind bind_some)

namespace FileMappedVector
open Wallet Interruption

variable {T : Type} {pod : Pod T} {disk : Disk}

def Recovers (pod : Pod T) (disk : Disk) (contents : Contents T) : Prop :=
  ∀ mode, mode ≠ .create → reopen pod disk mode (ofNat contents.prefixBytes.length) = .ok contents

theorem recovers_file {image : Image pod} (isFile : disk.file = some image.file) :
    Recovers pod disk image.contents := by
  intro mode mustOpen
  refine image.reopen_recovered mustOpen ?_
  rw [recover, isFile]

theorem recovers_bak {image : Image pod} (missing : disk.file = none)
    (isBak : disk.bak = some image.file) : Recovers pod disk image.contents := by
  intro mode mustOpen
  refine image.reopen_recovered mustOpen ?_
  rw [recover, missing, isBak]

/-- Any interruption leaves the old contents or the new ones, and the finished run the new. -/
def Atomic (pod : Pod T) (disk : Disk) (actions : List Action) (old new : Contents T) : Prop :=
  (∀ left, Left Action.apply actions disk left → Recovers pod left old ∨ Recovers pod left new) ∧
    ∃ done, run Action.apply actions disk = some done ∧ Recovers pod done new

/-! ### Replacing the file -/

namespace Replacement

def preparation (replacement : Replacement) : List Action :=
  [.removeBak, .createTmp replacement.size] ++ replacement.created.map writeTmp ++ [.flush] ++
    replacement.filled.map writeTmp ++ [.flush]

theorem actions_eq (replacement : Replacement) :
    replacement.actions = replacement.preparation ++ [.renameToBak, .renameTmp, .removeBak] := by
  simp only [actions, preparation, append_assoc, cons_append, nil_append]

def KeepsFile (action : Action) : Prop :=
  ∀ before after, action.apply before = some after → after.file = before.file

theorem keepsFile_writeTmp (write : UInt64 × List UInt8) : KeepsFile (writeTmp write) := by
  intro before after applied
  obtain ⟨tmp, _, applied⟩ := Option.bind_eq_some_iff.mp applied
  obtain ⟨written, _, applied⟩ := Option.bind_eq_some_iff.mp applied
  cases applied
  rfl

variable {replacement : Replacement}

theorem keepsFile_preparation {action : Action}
    (isAction : action ∈ replacement.preparation) : KeepsFile action := by
  simp only [preparation, mem_append, mem_cons, not_mem_nil, or_false, mem_map] at isAction
  rcases isAction with ((((rfl | rfl) | ⟨write, _, rfl⟩) | rfl) | ⟨write, _, rfl⟩) | rfl
  · intro before after applied
    cases applied
    rfl
  · intro before after applied
    rw [Action.apply] at applied
    split at applied
    · cases applied
      rfl
    · cases applied
  · exact keepsFile_writeTmp write
  · intro before after applied
    cases applied
    rfl
  · exact keepsFile_writeTmp write
  · intro before after applied
    cases applied
    rfl

theorem run_writeTmp (writes : List (UInt64 × List UInt8)) (disk : Disk) {start file : File}
    (isStart : disk.tmp = some start)
    (written : writes.foldlM (fun file write => overwrite file write.1.toNat write.2) start =
      some file) :
    run Action.apply (writes.map writeTmp) disk = some { disk with tmp := some file } := by
  induction writes generalizing disk start with
  | nil =>
    cases written
    rw [← isStart]
    rfl
  | cons write writes ih =>
    obtain ⟨next, first, later⟩ := Option.bind_eq_some_iff.mp written
    have applied : (writeTmp write).apply disk = some { disk with tmp := some next } := by
      have overwritten : overwrite start write.1.toNat write.2 = some next := first
      rw [writeTmp, Action.apply, isStart, bind_eq_bind, bind_some, overwritten]
      rfl
    rw [map_cons, run, applied, bind_some, ih { disk with tmp := some next } rfl later]

theorem run_preparation {file : File} (disk : Disk)
    (small : replacement.size.toNat < 2 ^ 63) (isFile : replacement.file = some file) :
    run Action.apply replacement.preparation disk =
      some { disk with bak := none, tmp := some file } := by
  rw [Replacement.file, writtenFile, foldlM_append] at isFile
  obtain ⟨middle, created, filled⟩ := Option.bind_eq_some_iff.mp isFile
  have start : run Action.apply [.removeBak, .createTmp replacement.size] disk =
      some { disk with bak := none, tmp := some (replicate replacement.size.toNat 0) } := by
    rw [run, Action.apply, bind_some, run, Action.apply, if_pos small]
    rfl
  rw [preparation, run_append, run_append, run_append, run_append, start, bind_some,
    run_writeTmp _ _ rfl created, bind_some]
  change (run Action.apply (replacement.filled.map writeTmp) _).bind _ = _
  rw [run_writeTmp _ _ rfl filled]
  rfl

theorem run_actions {old new : File} (isOld : disk.file = some old)
    (small : replacement.size.toNat < 2 ^ 63) (isNew : replacement.file = some new) :
    run Action.apply replacement.actions disk =
      some { file := some new, bak := none, tmp := none } := by
  rw [actions_eq, run_append, run_preparation disk small isNew, isOld]
  rfl

theorem atomic {old new : Image pod} (isOld : disk.file = some old.file)
    (small : replacement.size.toNat < 2 ^ 63) (isNew : replacement.file = some new.file) :
    Atomic pod disk replacement.actions old.contents new.contents := by
  refine ⟨?_, _, run_actions isOld small isNew, recovers_file rfl⟩
  intro left isLeft
  rw [actions_eq] at isLeft
  rcases left_append isLeft with early | ⟨middle, ran, late⟩
  · have kept : left.file = some old.file := by
      refine @left_of_invariant _ _ Action.apply _ _ _ (fun state => state.file = some old.file)
        ?_ isOld early
      intro action isAction before after applied isBefore
      rw [keepsFile_preparation isAction before after applied, isBefore]
    exact .inl (recovers_file kept)
  rw [run_preparation disk small isNew] at ran
  cases ran
  -- the states around the two renames and the removal of the .bak file
  rcases left_cons.mp late with rfl | ⟨renamed, applied, late⟩
  · exact .inl (recovers_file isOld)
  rw [Action.apply, isOld] at applied
  cases applied
  rcases left_cons.mp late with rfl | ⟨swapped, applied, late⟩
  · exact .inl (recovers_bak rfl rfl)
  cases applied
  rcases left_cons.mp late with rfl | ⟨removed, applied, late⟩
  · exact .inr (recovers_file rfl)
  cases applied
  rw [left_nil.mp late]
  exact .inr (recovers_file rfl)

end Replacement

/-! ### What a replacement contains -/

/-- The bytes cut or filled up with zeros to a size. -/
def resized (bytes : List UInt8) (size : Nat) : List UInt8 :=
  bytes.take size ++ replicate (size - bytes.length) 0

theorem length_resized (bytes : List UInt8) (size : Nat) : (resized bytes size).length = size := by
  rw [resized, length_append, length_take, length_replicate]
  omega

theorem resized_length (bytes : List UInt8) : resized bytes bytes.length = bytes := by
  rw [resized, take_length, Nat.sub_self, replicate_zero, append_nil]

def consecutive : Nat → List (List T) → List (UInt64 × List T)
  | _, [] => []
  | index, values :: runs =>
    (ofNat index, values) :: consecutive (index + values.length) runs

variable {bytes : List UInt8}

section Writes
variable {prefixBytes data suffixBytes : List UInt8} {capacity size : UInt64}

def writeAll (file : File) (writes : List (UInt64 × List UInt8)) : Option File :=
  writes.foldlM (fun file write => overwrite file write.1.toNat write.2) file

theorem writeAll_cons (file : File) (offset : UInt64) (bytes : List UInt8)
    (writes : List (UInt64 × List UInt8)) :
    writeAll file ((offset, bytes) :: writes) =
      (overwrite file offset.toNat bytes).bind fun next => writeAll next writes :=
  foldlM_cons

theorem writeAll_append (file : File) (first second : List (UInt64 × List UInt8)) :
    writeAll file (first ++ second) = (writeAll file first).bind fun next => writeAll next second :=
  foldlM_append

theorem writeAll_nil (file : File) : writeAll file [] = some file := rfl

private theorem writeAll_parts {file0 file1 file2 file3 file4 file5 : File}
    {part1 part2 part3 part4 part5 : List (UInt64 × List UInt8)}
    (wrote1 : writeAll file0 part1 = some file1) (wrote2 : writeAll file1 part2 = some file2)
    (wrote3 : writeAll file2 part3 = some file3) (wrote4 : writeAll file3 part4 = some file4)
    (wrote5 : writeAll file4 part5 = some file5) :
    writeAll file0 (part1 ++ (part2 ++ part3 ++ part4 ++ part5)) = some file5 := by
  rw [writeAll_append, wrote1, bind_some, writeAll_append, writeAll_append, writeAll_append,
    wrote2, bind_some, wrote3, bind_some, wrote4, bind_some, wrote5]

private theorem resized_zeros (bytes : List UInt8) (newSize : Nat) :
    bytes.take newSize ++ (replicate newSize 0).drop (bytes.take newSize).length =
      resized bytes newSize := by
  rw [resized, drop_replicate, length_take]
  congr 2
  omega

private theorem ofNat_ne_zero_iff {number : Nat} (fits : number < 2 ^ 64) :
    ofNat number ≠ 0 ↔ number ≠ 0 := by
  rw [Ne, ← toNat_inj, toNat_ofNat fits]
  rfl

/-- The prefix and the suffix are copied alike, over zeros and as far as both sizes go. -/
private theorem writeAll_copied (place : List UInt8 → File) {offset : UInt64} {old : List UInt8}
    {newSize : Nat} (fits : old.length < 2 ^ 64) (newFits : newSize < 2 ^ 64)
    (write : ∀ bytes : List UInt8, bytes.length ≤ (replicate newSize (0 : UInt8)).length →
      overwrite (place (replicate newSize 0)) offset.toNat bytes =
        some (place (bytes ++ (replicate newSize 0).drop bytes.length))) :
    writeAll (place (replicate newSize 0))
      (if ofNat old.length ≠ 0 ∧ ofNat newSize ≠ 0 then
        [(offset, old.take (min (ofNat old.length) (ofNat newSize)).toNat)] else []) =
      some (place (resized old newSize)) := by
  have isMin : (min (ofNat old.length) (ofNat newSize)).toNat =
      min (ofNat old.length).toNat (ofNat newSize).toNat :=
    apply_ite toNat (_ ≤ _) _ _
  rw [isMin, toNat_ofNat fits, toNat_ofNat newFits, Nat.min_comm, ← take_eq_take_min,
    ← resized_zeros]
  split
  · have inside : (old.take newSize).length ≤ (replicate newSize (0 : UInt8)).length := by
      rw [length_take, length_replicate]
      omega
    rw [writeAll_cons, write _ inside, bind_some, writeAll_nil]
  · rename_i either
    rw [ofNat_ne_zero_iff fits, ofNat_ne_zero_iff newFits] at either
    have nothing : old.take newSize = [] := by
      rw [take_eq_nil_iff, ← length_eq_zero_iff]
      omega
    rw [nothing, writeAll_nil]
    rfl

theorem writeAll_copies (pod : Pod T) {done : List UInt8} {index room : Nat} (runs : List (List T))
    (isDone : done.length = index * pod.size) (inside : runs.flatten.length * pod.size ≤ room)
    (fits : prefixBytes.length + 16 + done.length + room < 2 ^ 64) :
    writeAll (assemble prefixBytes capacity size (done ++ replicate room 0) suffixBytes)
      ((consecutive index runs).map fun copy =>
        (elementPtr pod (ofNat prefixBytes.length) copy.1, valuesBytes pod copy.2)) =
      some (assemble prefixBytes capacity size
        (done ++ (valuesBytes pod runs.flatten ++
          replicate (room - runs.flatten.length * pod.size) 0)) suffixBytes) := by
  induction runs generalizing done index room with
  | nil => 
    rw [flatten_nil, length_nil, Nat.zero_mul, Nat.sub_zero]
    rfl
  | cons values runs ih =>
    rw [flatten_cons, length_append, Nat.add_mul] at inside
    have length := length_valuesBytes pod values
    have first : overwrite
        (assemble prefixBytes capacity size (done ++ replicate room 0) suffixBytes)
        (elementPtr pod (ofNat prefixBytes.length) (ofNat index)).toNat
        (valuesBytes pod values) =
        some (assemble prefixBytes capacity size
          ((done ++ valuesBytes pod values) ++
            replicate (room - values.length * pod.size) 0) suffixBytes) := by
      rw [toNat_elementPtr pod (by omega), ← isDone, overwrite_data (by
        rw [length_append, length_replicate, length]
        omega), take_left, ← drop_drop, drop_left, drop_replicate, length]
    have rest := @ih (done ++ valuesBytes pod values) (index + values.length)
      (room - values.length * pod.size) (by rw [length_append, isDone, length, Nat.add_mul])
      (by omega) (by rw [length_append, length]; omega)
    rw [consecutive, map_cons, writeAll_cons, first, bind_some]
    refine rest.trans ?_
    rw [flatten_cons, valuesBytes_append, length_append, Nat.add_mul, Nat.sub_sub]
    simp only [append_assoc]

theorem writeAll_created {prefixSize : Nat} (isPrefix : prefixBytes.length = prefixSize)
    (fits : prefixSize + 16 < 2 ^ 64) (newCapacity : UInt64) :
    writeAll (assemble prefixBytes 0 0 data suffixBytes)
      (createWrites newCapacity (ofNat prefixSize)) =
      some (assemble prefixBytes newCapacity 0 data suffixBytes) := by
  have atSize := toNat_sizePtr fits
  have atCapacity : (capacityPtr (ofNat prefixSize)).toNat = prefixSize :=
    toNat_ofNat (by omega)
  rw [createWrites, writeAll_cons, atSize, ← isPrefix, overwrite_size, bind_some,
    writeAll_cons, isPrefix, atCapacity, ← isPrefix, overwrite_capacity, bind_some,
    writeAll_nil]

theorem writeAll_size {prefixSize : Nat} (isPrefix : prefixBytes.length = prefixSize)
    (fits : prefixSize + 16 < 2 ^ 64) (newSize : UInt64) :
    writeAll (assemble prefixBytes capacity size data suffixBytes)
      [(sizePtr (ofNat prefixSize), word newSize)] =
      some (assemble prefixBytes capacity newSize data suffixBytes) := by
  rw [writeAll_cons, toNat_sizePtr fits, ← isPrefix, overwrite_size, bind_some, writeAll_nil]

end Writes

def Image.replaced (old : Image pod) (elements : List T) (newCapacity newPrefixSize newSuffixSize : Nat)
    (inside : elements.length ≤ newCapacity)
    (fits : Fits pod newCapacity newPrefixSize newSuffixSize) : Image pod where
  prefixBytes := resized old.prefixBytes newPrefixSize
  capacity := newCapacity
  elements := elements
  spare := replicate (newCapacity * pod.size - elements.length * pod.size) 0
  suffixBytes := resized old.suffixBytes newSuffixSize
  room := by
    have bound := Nat.mul_le_mul_right pod.size inside
    rw [length_replicate]
    omega
  fits := by
    rw [length_resized, length_resized]
    exact fits

variable {elements : List T}

section
variable (old : Image pod) (runs : List (List T))
  {newCapacity newPrefixSize newSuffixSize : Nat} (isRuns : runs.flatten = elements)
  (inside : elements.length ≤ newCapacity)
  (fits : Fits pod newCapacity newPrefixSize newSuffixSize)
include isRuns inside fits

theorem Image.replacement_file :
    (old.mapped.replacement pod (ofNat elements.length) (ofNat newCapacity)
      (ofNat newPrefixSize) (ofNat newSuffixSize) (consecutive 0 runs)).file =
      some (old.replaced elements newCapacity newPrefixSize newSuffixSize inside fits).file := by
  have oldFits := old.fits
  have bound := Nat.mul_le_mul_right pod.size inside
  have isPrefix := length_resized old.prefixBytes newPrefixSize
  unfold Fits at fits oldFits
  have isOffset : (elementPtr pod (ofNat newPrefixSize) (ofNat newCapacity)).toNat =
      (resized old.prefixBytes newPrefixSize).length + 16 + (valuesBytes pod elements ++
        replicate (newCapacity * pod.size - elements.length * pod.size) 0).length := by
    rw [toNat_elementPtr pod (by omega), isPrefix, length_append, length_valuesBytes,
      length_replicate, Nat.add_sub_cancel' bound]
  have copied := @writeAll_copies T (resized old.prefixBytes newPrefixSize)
    (replicate newSuffixSize 0) (ofNat newCapacity) (ofNat elements.length) pod
    [] 0 (newCapacity * pod.size) runs (Nat.zero_mul _).symm (by rw [isRuns]; exact bound)
    (by rw [isPrefix, length_nil]; omega)
  rw [isRuns, nil_append, nil_append, isPrefix] at copied
  have prefixed := @writeAll_copied (fun part => assemble part (ofNat newCapacity) 0
    (replicate (newCapacity * pod.size) 0) (replicate newSuffixSize 0)) 0 old.prefixBytes
    newPrefixSize (by omega) (by omega) fun _ inside => overwrite_prefixBytes inside
  have suffixed := @writeAll_copied (assemble (resized old.prefixBytes newPrefixSize)
    (ofNat newCapacity) (ofNat elements.length) (valuesBytes pod elements ++
      replicate (newCapacity * pod.size - elements.length * pod.size) 0))
    (elementPtr pod (ofNat newPrefixSize) (ofNat newCapacity)) old.suffixBytes
    newSuffixSize (by omega) (by omega) fun bytes inside => by
      rw [isOffset]
      exact overwrite_suffixBytes inside
  change writeAll (replicate (fileSize pod (ofNat newCapacity)
    (ofNat newPrefixSize) (ofNat newSuffixSize)).toNat 0)
    (_ ++ ((if ofNat old.prefixBytes.length ≠ 0 ∧ _ then _ else _) ++ _ ++ _ ++
      (if ofNat old.suffixBytes.length ≠ 0 ∧ _ then _ else _))) = _
  rw [toNat_fileSize pod (by omega), assemble_zeros, old.prefixBytes_mapped, old.suffixBytes_mapped]
  exact writeAll_parts (writeAll_created length_replicate (by omega) _) prefixed
    (writeAll_size isPrefix (by omega) _) copied suffixed

theorem Image.atomic_replacement (isOld : disk.file = some old.file) :
    Atomic pod disk (old.mapped.replacement pod (ofNat elements.length)
        (ofNat newCapacity) (ofNat newPrefixSize) (ofNat newSuffixSize)
        (consecutive 0 runs)).actions old.contents
      ⟨resized old.prefixBytes newPrefixSize, elements, resized old.suffixBytes newSuffixSize⟩ := by
  have small : (fileSize pod (ofNat newCapacity) (ofNat newPrefixSize)
      (ofNat newSuffixSize)).toNat < 2 ^ 63 := by
    rw [toNat_fileSize pod (by unfold Fits at fits; omega)]
    exact fits
  have isNew := old.replacement_file runs isRuns inside fits
  have replaced := Replacement.atomic isOld small isNew
  exact replaced

end

/-! ### Changes in place -/

theorem Atomic.append {disk middle : Disk} {first second : List Action} {old new : Contents T}
    (early : ∀ left, Left Action.apply first disk left → Recovers pod left old)
    (ran : run Action.apply first disk = some middle) (late : Atomic pod middle second old new) :
    Atomic pod disk (first ++ second) old new := by
  constructor
  · intro left isLeft
    rcases left_append isLeft with isEarly | ⟨other, isMiddle, isLate⟩
    · exact .inl (early left isEarly)
    · rw [ran] at isMiddle
      cases isMiddle
      exact late.1 left isLate
  · obtain ⟨done, finished, recovers⟩ := late.2
    exact ⟨done, by rw [run_append, ran, bind_some, finished], recovers⟩

section
variable {old new : Image pod} {offset : UInt64} (isOld : disk.file = some old.file)
  (isNew : overwrite old.file offset.toNat bytes = some new.file)
include isOld isNew

theorem run_writeFile : run Action.apply [.writeFile offset bytes, .flush] disk =
    some { disk with file := some new.file } := by
  rw [run, Action.apply, isOld, bind_eq_bind, bind_some, isNew]
  rfl

/-- The file is written at once, so that it is the old one or the new one. -/
theorem Atomic.writeFile :
    Atomic pod disk [.writeFile offset bytes, .flush] old.contents new.contents := by
  refine ⟨?_, _, run_writeFile isOld isNew, recovers_file rfl⟩
  have applied : (Action.writeFile offset bytes).apply disk =
      some { disk with file := some new.file } := by
    rw [Action.apply, isOld, bind_eq_bind, bind_some, isNew]
    rfl
  intro left isLeft
  rcases left_cons.mp isLeft with rfl | ⟨next, isNext, later⟩
  · exact .inl (recovers_file isOld)
  rw [applied] at isNext
  cases isNext
  rcases left_cons.mp later with rfl | ⟨flushed, isFlushed, later⟩
  · exact .inr (recovers_file rfl)
  cases isFlushed
  rw [left_nil.mp later]
  exact .inr (recovers_file rfl)

end

namespace Image
variable (image : Image pod)

def withSlot (val : T) (room : image.elements.length < image.capacity) : Image pod where
  prefixBytes := image.prefixBytes
  capacity := image.capacity
  elements := image.elements
  spare := pod.toBytes val ++ image.spare.drop pod.size
  suffixBytes := image.suffixBytes
  room := by
    have bound := Nat.mul_le_mul_right pod.size (Nat.succ_le_of_lt room)
    have total := image.room
    rw [Nat.succ_mul] at bound
    rw [length_append, pod.length_toBytes, length_drop]
    omega
  fits := image.fits

def pushed (val : T) (room : image.elements.length < image.capacity) : Image pod where
  prefixBytes := image.prefixBytes
  capacity := image.capacity
  elements := image.elements ++ [val]
  spare := image.spare.drop pod.size
  suffixBytes := image.suffixBytes
  room := by
    have bound := Nat.mul_le_mul_right pod.size (Nat.succ_le_of_lt room)
    have total := image.room
    rw [Nat.succ_mul] at bound
    rw [length_append, length_singleton, Nat.succ_mul, length_drop]
    omega
  fits := image.fits

private theorem valuesBytes_singleton (val : T) : valuesBytes pod [val] = pod.toBytes val :=
  append_nil _

theorem write_slot (val : T) (room : image.elements.length < image.capacity) :
    overwrite image.file
      (elementPtr pod image.mapped.prefixSize image.mapped.size).toNat (pod.toBytes val) =
      some (image.withSlot val room).file := by
  have fits := image.size_lt
  have bound := Nat.mul_le_mul_right pod.size (Nat.succ_le_of_lt room)
  have length := length_valuesBytes pod image.elements
  rw [Nat.succ_mul] at bound
  rw [size_mapped]
  change overwrite _ (elementPtr pod (ofNat image.prefixBytes.length) _).toNat _ = _
  rw [toNat_elementPtr pod (by omega), file, overwrite_data (by
    rw [image.length_data, pod.length_toBytes]
    omega), take_left' length, ← drop_drop, drop_left' length, pod.length_toBytes,
    append_assoc]
  rfl

theorem write_pushed_size (val : T) (room : image.elements.length < image.capacity) :
    overwrite (image.withSlot val room).file (sizePtr image.mapped.prefixSize).toNat
      (word (image.mapped.size + 1)) = some (image.pushed val room).file := by
  have fits := image.size_lt
  have next : image.mapped.size + 1 = ofNat (image.elements ++ [val]).length := by
    rw [size_mapped, length_append, length_singleton, ofNat_add]
    rfl
  rw [next]
  change overwrite (assemble image.prefixBytes _ _ _ _)
    (sizePtr (ofNat image.prefixBytes.length)).toNat _ = _
  rw [toNat_sizePtr (by omega), overwrite_size, file]
  change _ = some (assemble _ _ _ (valuesBytes pod (image.elements ++ [val]) ++ _) _)
  rw [valuesBytes_append, valuesBytes_singleton, append_assoc]
  rfl

theorem atomic_pushInPlace (isFile : disk.file = some image.file) (val : T)
    (room : image.elements.length < image.capacity) :
    Atomic pod disk (image.mapped.pushInPlace pod val) image.contents
      (image.pushed val room).contents := by
  have slot := image.write_slot val room
  have early := @Atomic.writeFile _ _ _ _ image (image.withSlot val room) _ isFile slot
  exact Atomic.append (fun left isLeft => (early.1 left isLeft).elim id id)
    (@run_writeFile _ _ _ _ image (image.withSlot val room) _ isFile slot)
    (@Atomic.writeFile _ _ _ _ (image.withSlot val room) _ _ rfl (image.write_pushed_size val room))

def popped (init : List T) (last : T) (isLast : image.elements = init ++ [last]) : Image pod where
  prefixBytes := image.prefixBytes
  capacity := image.capacity
  elements := init
  spare := pod.toBytes last ++ image.spare
  suffixBytes := image.suffixBytes
  room := by
    have total := image.room
    rw [isLast, length_append, length_singleton, Nat.succ_mul] at total
    rw [length_append, pod.length_toBytes]
    omega
  fits := image.fits

theorem write_popped_size {init : List T} {last : T} (isLast : image.elements = init ++ [last]) :
    overwrite image.file (sizePtr image.mapped.prefixSize).toNat
      (word (image.mapped.size - 1)) = some (image.popped init last isLast).file := by
  have fits := image.size_lt
  have before : image.mapped.size - 1 = ofNat init.length := by
    rw [size_mapped, isLast, length_append, length_singleton, ofNat_add]
    exact add_sub_cancel_right _ _
  rw [before]
  change overwrite (assemble image.prefixBytes _ _ (valuesBytes pod image.elements ++ _) _)
    (sizePtr (ofNat image.prefixBytes.length)).toNat _ = _
  rw [toNat_sizePtr (by omega), overwrite_size, isLast, valuesBytes_append, valuesBytes_singleton,
    append_assoc]
  rfl

theorem atomic_popBack (isFile : disk.file = some image.file) {init : List T} {last : T}
    (isLast : image.elements = init ++ [last]) :
    Atomic pod disk image.mapped.popBack image.contents (image.popped init last isLast).contents := by
  exact Atomic.writeFile isFile (image.write_popped_size isLast)

end Image

theorem Atomic.nothing {image : Image pod} (isFile : disk.file = some image.file) :
    Atomic pod disk [] image.contents image.contents := by
  refine ⟨?_, disk, rfl, recovers_file isFile⟩
  intro left isLeft
  rw [left_nil.mp isLeft]
  exact .inl (recovers_file isFile)

/-! ### The operations -/

def Operation.result : Operation T → Contents T → Contents T
  | .pushBack val, contents => { contents with elements := contents.elements ++ [val] }
  | .popBack, contents => { contents with elements := contents.elements.dropLast }
  | .insert position values, contents =>
    { contents with
      elements := contents.elements.take position.toNat ++ values ++
        contents.elements.drop position.toNat }
  | .erase first last, contents =>
    { contents with
      elements := contents.elements.take first.toNat ++ contents.elements.drop last.toNat }
  | .reserve _, contents => contents
  | .resizePrefix newPrefixSize, contents =>
    { contents with prefixBytes := resized contents.prefixBytes newPrefixSize.toNat }
  | .resizeSuffix newSuffixSize, contents =>
    { contents with suffixBytes := resized contents.suffixBytes newSuffixSize.toNat }

namespace Image
variable (image : Image pod)

def grownCapacity : Nat := image.capacity + image.capacity / 2 + 1

def FitsWith (newCapacity : Nat) : Prop :=
  Fits pod newCapacity image.prefixBytes.length image.suffixBytes.length

def insertCapacity (count : Nat) : Nat :=
  if image.elements.length + count > image.capacity then
    if image.elements.length + count > image.grownCapacity then image.elements.length + count
    else image.grownCapacity
  else image.capacity

/-- Positions are inside the vector, and a new file has a size that its computation can
hold. -/
def Allows : Operation T → Prop
  | .pushBack _ => image.elements.length = image.capacity → image.FitsWith image.grownCapacity
  | .popBack => image.elements ≠ []
  | .insert position values =>
    position.toNat ≤ image.elements.length ∧ image.FitsWith (image.insertCapacity values.length)
  | .erase first last => first.toNat ≤ last.toNat ∧ last.toNat ≤ image.elements.length
  | .reserve n => image.capacity < n.toNat → image.FitsWith n.toNat
  | .resizePrefix newPrefixSize =>
    Fits pod image.capacity newPrefixSize.toNat image.suffixBytes.length
  | .resizeSuffix newSuffixSize =>
    Fits pod image.capacity image.prefixBytes.length newSuffixSize.toNat

theorem nextCapacity_mapped :
    image.mapped.nextCapacity = ofNat image.grownCapacity := by
  have bound := image.capacity_lt
  rw [Mapped.nextCapacity, capacity_mapped, grownCapacity, ofNat_add, ofNat_add,
    UInt64.ofNat_div (by omega) (by decide)]
  rfl

theorem grownCapacity_lt : image.grownCapacity < 2 ^ 64 := by
  have bound := image.capacity_lt
  unfold grownCapacity
  omega

theorem atomic_elements (runs : List (List T)) {newCapacity : Nat}
    (isOld : disk.file = some image.file) (isRuns : runs.flatten = elements)
    (inside : elements.length ≤ newCapacity) (fits : image.FitsWith newCapacity) :
    Atomic pod disk (image.mapped.replacement pod (ofNat elements.length)
        (ofNat newCapacity) image.mapped.prefixSize image.mapped.suffixSize
        (consecutive 0 runs)).actions image.contents
      { image.contents with elements := elements } := by
  have replaced := image.atomic_replacement runs isRuns inside fits isOld
  rw [resized_length, resized_length] at replaced
  exact replaced

theorem capacity_eq_size_iff :
    image.mapped.capacity = image.mapped.size ↔ image.elements.length = image.capacity := by
  have bound := image.capacity_lt
  have inside := image.length_le_capacity
  rw [capacity_mapped, size_mapped, ← toNat_inj, toNat_ofNat (by omega),
    toNat_ofNat (by omega), eq_comm]

def reserving (n : UInt64) : Replacement :=
  image.mapped.replacement pod (ofNat image.elements.length) (ofNat n.toNat)
    image.mapped.prefixSize image.mapped.suffixSize (consecutive 0 [image.elements])

theorem reserved_mapped (n : UInt64) :
    image.mapped.reserved pod n =
      if image.capacity < n.toNat then some (image.reserving n) else none := by
  have bound := image.capacity_lt
  have grows : n > image.mapped.capacity ↔ image.capacity < n.toNat := by
    rw [capacity_mapped, gt_iff_lt, UInt64.lt_iff_toNat_lt, toNat_ofNat (by omega)]
  rw [Mapped.reserved, size_mapped, elements_mapped, reserving, ofNat_toNat]
  by_cases larger : image.capacity < n.toNat
  · rw [if_pos larger, if_pos (grows.mpr larger)]
    rfl
  · rw [if_neg larger, if_neg (fun above => larger (grows.mp above))]

section
variable (isFile : disk.file = some image.file)
include isFile

theorem atomic_reserving {n : UInt64} (larger : image.capacity < n.toNat)
    (fits : image.FitsWith n.toNat) :
    Atomic pod disk (image.reserving n).actions image.contents image.contents := by
  have inside := image.length_le_capacity
  exact image.atomic_elements [image.elements] isFile (append_nil _) (by omega) fits

theorem atomic_reserve (n : UInt64) (fits : image.capacity < n.toNat → image.FitsWith n.toNat) :
    Atomic pod disk (image.mapped.reserve pod n) image.contents image.contents := by
  rw [Mapped.reserve, reserved_mapped]
  by_cases larger : image.capacity < n.toNat
  · rw [if_pos larger]
    exact image.atomic_reserving isFile larger (fits larger)
  · rw [if_neg larger]
    exact Atomic.nothing isFile

/-- Growth keeps the contents, and the vector that is mapped afterwards is the grown one. -/
theorem atomic_pushBack (val : T)
    (fits : image.elements.length = image.capacity → image.FitsWith image.grownCapacity) :
    Atomic pod disk (image.mapped.pushBack pod val) image.contents
      { image.contents with elements := image.elements ++ [val] } := by
  have inside := image.length_le_capacity
  by_cases full : image.elements.length = image.capacity
  · obtain ⟨n, isNext⟩ : ∃ n : UInt64, n.toNat = image.grownCapacity :=
      ⟨_, toNat_ofNat image.grownCapacity_lt⟩
    have larger : image.capacity < n.toNat := by
      rw [isNext, grownCapacity]
      omega
    have newFits : image.FitsWith n.toNat := by
      rw [isNext]
      exact fits full
    have room : image.elements.length < n.toNat := by omega
    let grown := image.replaced image.elements _ _ _ room.le newFits
    have isGrown : (image.reserving n).file = some grown.file :=
      image.replacement_file [image.elements] (append_nil _) room.le newFits
    have small : (image.reserving n).size.toNat < 2 ^ 63 := by
      unfold FitsWith Fits at newFits
      exact lt_of_eq_of_lt (toNat_fileSize pod (by omega)) newFits
    have sameMapped : ({ image.mapped with file := grown.file } : Mapped) = grown.mapped := by
      simp only [mapped, grown, replaced, length_resized]
    have sameContents : grown.contents = image.contents := by
      simp only [contents, grown, replaced, resized_length]
    have early := (image.atomic_reserving isFile larger newFits).1
    have ran := Replacement.run_actions isFile small isGrown
    have late := @atomic_pushInPlace T pod ⟨some grown.file, none, none⟩ grown rfl val room
    have pushedContents : (grown.pushed val room).contents =
        { image.contents with elements := image.elements ++ [val] } := by
      rw [← sameContents]
      rfl
    rw [sameContents, pushedContents] at late
    rw [Mapped.pushBack, if_pos (image.capacity_eq_size_iff.mpr full), nextCapacity_mapped, ← isNext,
      ofNat_toNat, Mapped.reserve, Mapped.afterReserve, reserved_mapped, if_pos larger]
    dsimp only
    rw [isGrown, Option.map_some, sameMapped]
    exact Atomic.append (fun left isLeft => (early left isLeft).elim id id) ran late
  · rw [Mapped.pushBack, if_neg (fun same => full (image.capacity_eq_size_iff.mp same))]
    exact image.atomic_pushInPlace isFile val (by omega)

theorem atomic_insert {position : UInt64} {values : List T}
    (inside : position.toNat ≤ image.elements.length)
    (fits : image.FitsWith (image.insertCapacity values.length)) :
    Atomic pod disk (image.mapped.insert pod position values) image.contents
      { image.contents with
        elements := image.elements.take position.toNat ++ values ++
          image.elements.drop position.toNat } := by
  have bound := image.capacity_lt
  have grownBound := image.grownCapacity_lt
  have enough : image.elements.length + values.length ≤ image.insertCapacity values.length := by
    unfold insertCapacity
    split <;> [split; skip] <;> omega
  have wide := Nat.le_mul_of_pos_right (image.insertCapacity values.length) pod.size_pos
  have total : image.elements.length + values.length < 2 ^ 63 := by
    unfold FitsWith Fits at fits
    omega
  have newCapacity : (if ofNat (image.elements.length + values.length) >
        ofNat image.capacity then
      if ofNat (image.elements.length + values.length) > ofNat image.grownCapacity then
        ofNat (image.elements.length + values.length)
      else ofNat image.grownCapacity
      else ofNat image.capacity) = ofNat (image.insertCapacity values.length) := by
    simp (disch := omega) only [gt_iff_lt, UInt64.lt_iff_toNat_lt, toNat_ofNat, insertCapacity]
    split
    · split <;> rfl
    · rfl
  have frontLength := length_take_of_le inside
  have backLength := @length_drop _ position.toNat image.elements
  unfold Mapped.insert
  dsimp only
  rw [size_mapped, ← ofNat_add, capacity_mapped, nextCapacity_mapped, newCapacity, elements_mapped]
  generalize image.elements.take position.toNat = front at frontLength ⊢
  generalize image.elements.drop position.toNat = back at backLength ⊢
  have length : (front ++ values ++ back).length = image.elements.length + values.length := by
    rw [length_append, length_append]
    omega
  have copies : consecutive 0 [front, values, back] =
      [(0, front), (position, values), (position + ofNat values.length, back)] := by
    simp only [consecutive, frontLength, Nat.zero_add, ofNat_add, ofNat_toNat]
    rfl
  have replaced := image.atomic_elements [front, values, back] isFile
    (show _ = front ++ values ++ back by
      simp only [flatten_cons, flatten_nil, append_nil, append_assoc])
    (by rw [length]; exact enough) fits
  rw [length, copies] at replaced
  exact replaced

theorem atomic_erase {first last : UInt64} (ordered : first.toNat ≤ last.toNat)
    (inside : last.toNat ≤ image.elements.length) :
    Atomic pod disk (image.mapped.erase pod first last) image.contents
      { image.contents with
        elements := image.elements.take first.toNat ++ image.elements.drop last.toNat } := by
  have stored := image.length_le_capacity
  have newSize : image.mapped.size - (last - first) =
      ofNat (image.elements.length - (last.toNat - first.toNat)) := by
    rw [size_mapped, ofNat_sub (by omega), ofNat_sub ordered, ofNat_toNat, ofNat_toNat]
  have frontLength := length_take_of_le (ordered.trans inside)
  have backLength := @length_drop _ last.toNat image.elements
  unfold Mapped.erase
  rw [newSize, capacity_mapped, elements_mapped]
  generalize image.elements.take first.toNat = front at frontLength ⊢
  generalize image.elements.drop last.toNat = back at backLength ⊢
  have length : (front ++ back).length = image.elements.length - (last.toNat - first.toNat) := by
    rw [length_append]
    omega
  have copies : consecutive 0 [front, back] = [(0, front), (first, back)] := by
    simp only [consecutive, frontLength, Nat.zero_add, ofNat_toNat]
    rfl
  have replaced := image.atomic_elements [front, back] isFile
    (show _ = front ++ back by simp only [flatten_cons, flatten_nil, append_nil])
    (show _ ≤ image.capacity by rw [length]; omega) image.fits
  rw [length, copies] at replaced
  exact replaced

private theorem atomic_resized {newPrefixSize newSuffixSize : Nat} {changed : Prop}
    [Decidable changed] (fits : Fits pod image.capacity newPrefixSize newSuffixSize)
    (unchanged : ¬ changed → newPrefixSize = image.prefixBytes.length ∧
      newSuffixSize = image.suffixBytes.length) :
    Atomic pod disk
      (if changed then (image.mapped.replacement pod image.mapped.size image.mapped.capacity
        (ofNat newPrefixSize) (ofNat newSuffixSize)
        [(0, image.mapped.elements pod)]).actions else [])
      image.contents ⟨resized image.prefixBytes newPrefixSize, image.elements,
        resized image.suffixBytes newSuffixSize⟩ := by
  split
  · rw [size_mapped, capacity_mapped, elements_mapped]
    exact image.atomic_replacement [image.elements] (append_nil _) image.length_le_capacity fits
      isFile
  · rename_i same
    rw [(unchanged same).1, (unchanged same).2, resized_length, resized_length]
    exact Atomic.nothing isFile

theorem atomic_resizePrefix {newPrefixSize : UInt64}
    (fits : Fits pod image.capacity newPrefixSize.toNat image.suffixBytes.length) :
    Atomic pod disk (image.mapped.resizePrefix pod newPrefixSize) image.contents
      { image.contents with prefixBytes := resized image.prefixBytes newPrefixSize.toNat } := by
  have replaced := @atomic_resized T pod disk image isFile _ _
    (image.mapped.prefixSize ≠ newPrefixSize) _ fits fun same => by
      have oldFits := image.size_lt
      rw [← not_not.mp same]
      exact ⟨toNat_ofNat (by omega), rfl⟩
  rw [resized_length, ofNat_toNat] at replaced
  exact replaced

theorem atomic_resizeSuffix {newSuffixSize : UInt64}
    (fits : Fits pod image.capacity image.prefixBytes.length newSuffixSize.toNat) :
    Atomic pod disk (image.mapped.resizeSuffix pod newSuffixSize) image.contents
      { image.contents with suffixBytes := resized image.suffixBytes newSuffixSize.toNat } := by
  have replaced := @atomic_resized T pod disk image isFile _ _
    (image.mapped.suffixSize ≠ newSuffixSize) _ fits fun same => by
      have oldFits := image.size_lt
      rw [← not_not.mp same]
      exact ⟨rfl, toNat_ofNat (by omega)⟩
  rw [resized_length, ofNat_toNat] at replaced
  exact replaced

end
end Image

/-- An operation inside the vector whose file has room for its size is atomic, whatever
other files lie beside the vector's. -/
theorem operation_atomic (image : Image pod) (operation : Operation T) (bak tmp : Option File)
    (allowed : image.Allows operation) :
    Atomic pod ⟨some image.file, bak, tmp⟩ (image.mapped.actions pod operation) image.contents
      (operation.result image.contents) := by
  cases operation with
  | pushBack val => exact image.atomic_pushBack rfl val allowed
  | popBack =>
    obtain ⟨init, last, isLast⟩ := (eq_nil_or_concat image.elements).resolve_left allowed
    rw [concat_eq_append] at isLast
    have popped := @Image.atomic_popBack T pod ⟨some image.file, bak, tmp⟩ image rfl init last isLast
    have isInit : image.elements.dropLast = init := by rw [isLast, dropLast_concat]
    change Atomic pod _ _ _ ⟨_, image.elements.dropLast, _⟩
    rw [isInit]
    exact popped
  | insert position values => exact image.atomic_insert rfl allowed.1 allowed.2
  | erase first last => exact image.atomic_erase rfl allowed.1 allowed.2
  | reserve n => exact image.atomic_reserve rfl n allowed
  | resizePrefix newPrefixSize => exact image.atomic_resizePrefix rfl allowed
  | resizeSuffix newSuffixSize => exact image.atomic_resizeSuffix rfl allowed

def wordPod : Pod UInt64 where
  size := 8
  size_pos := by decide
  size_lt := by decide
  toBytes := word
  ofBytes bytes := ofNat (ByteReader.ofLittleEndian bytes)
  length_toBytes := length_word
  ofBytes_toBytes value := by
    have fits : value.toNat < 256 ^ 8 := value.toNat_lt
    rw [word, ByteReader.ofLittleEndian_littleEndian fits, ofNat_toNat]

def oneWord : Image wordPod where
  prefixBytes := []
  capacity := 1
  elements := [5]
  spare := []
  suffixBytes := word 7
  room := by decide
  fits := by unfold Fits; decide

theorem push_onto_one_word :
    oneWord.Allows (.pushBack 9) ∧
      Atomic wordPod ⟨some oneWord.file, none, none⟩ (oneWord.mapped.actions wordPod (.pushBack 9))
        oneWord.contents ((Operation.pushBack 9).result oneWord.contents) := by
  have allowed : oneWord.Allows (.pushBack 9) := by
    intro full
    unfold Image.FitsWith Fits
    decide
  exact ⟨allowed, operation_atomic oneWord (.pushBack 9) none none allowed⟩

/-- The size of 2 ^ 61 words is zero modulo 2 ^ 64: the suffix is copied over the element. -/
theorem reserve_overwrites_element :
    oneWord.contents = ⟨[], [5], word 7⟩ ∧
      (run Action.apply (oneWord.mapped.actions wordPod (.reserve (2 ^ 61)))
        ⟨some oneWord.file, none, none⟩).map (fun done => reopen wordPod done .open 0) =
        some (.ok ⟨[], [7], word 7⟩) := by
  decide +kernel

end FileMappedVector
end Mevacoin
