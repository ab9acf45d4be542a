/-
Writing over a part of a fixed-size block. A write that does not lie inside the block is
refused; one that does changes only the region it falls into.
-/

import Mathlib.Data.List.Basic

namespace Regions
open List

variable {α : Type}

def overwrite (block : List α) (offset : Nat) (bytes : List α) : Option (List α) :=
  if offset + bytes.length ≤ block.length then
    some (block.take offset ++ bytes ++ block.drop (offset + bytes.length))
  else none

theorem overwrite_region {before region after bytes : List α} {start : Nat}
    (inside : start + bytes.length ≤ region.length) :
    overwrite (before ++ (region ++ after)) (before.length + start) bytes =
      some (before ++ (region.take start ++ bytes ++ region.drop (start + bytes.length) ++ after)) := by
  have fits : before.length + start + bytes.length ≤ (before ++ (region ++ after)).length := by
    simp only [length_append]
    omega
  have shorter : start ≤ region.length := by omega
  rw [overwrite, if_pos fits, take_length_add_append, Nat.add_assoc,
    drop_length_add_append, take_append_of_le_length shorter,
    drop_append_of_le_length inside]
  simp only [append_assoc]

theorem overwrite_whole {before region after bytes : List α} (same : bytes.length = region.length) :
    overwrite (before ++ (region ++ after)) before.length bytes =
      some (before ++ (bytes ++ after)) := by
  have written := @overwrite_region α before region after bytes 0 (by omega)
  rw [Nat.add_zero, Nat.zero_add, take_zero, nil_append,
    drop_eq_nil_of_le (Nat.le_of_eq same.symm), append_nil] at written
  exact written

end Regions
