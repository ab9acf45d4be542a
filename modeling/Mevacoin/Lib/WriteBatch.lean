/-
Tables of a key-value store that are changed by batches. A batch collects insertions and
removals; when it is written the insertions come first, in their order, and the removals
after them.
-/

import Mathlib.Data.List.Basic
import Mathlib.Data.List.Induction

namespace WriteBatch
open List

variable {κ ν : Type} [DecidableEq κ]

abbrev Table (κ ν : Type) := List (κ × ν)

structure Batch (κ ν : Type) where
  inserts : List (κ × ν) := []
  removals : List κ := []

namespace Batch

def insert (batch : Batch κ ν) (key : κ) (value : ν) : Batch κ ν :=
  { batch with inserts := batch.inserts ++ [(key, value)] }

def remove (batch : Batch κ ν) (key : κ) : Batch κ ν :=
  { batch with removals := batch.removals ++ [key] }

end Batch

namespace Table

def get (table : Table κ ν) (key : κ) : Option ν :=
  (table.find? fun entry => entry.1 = key).map Prod.snd

def delete (table : Table κ ν) (key : κ) : Table κ ν :=
  table.filter fun entry => entry.1 ≠ key

def put (table : Table κ ν) (entry : κ × ν) : Table κ ν :=
  entry :: delete table entry.1

def write (table : Table κ ν) (batch : Batch κ ν) : Table κ ν :=
  batch.removals.foldl delete (batch.inserts.foldl put table)

theorem get_delete (table : Table κ ν) (key other : κ) :
    get (delete table key) other = if other = key then none else get table other := by
  induction table with
  | nil => exact (ite_self none).symm
  | cons entry rest ih =>
    unfold delete get at ih ⊢
    by_cases dropped : entry.1 = key
    · rw [filter_cons_of_neg (by simpa using dropped), ih]
      by_cases same : other = key
      · rw [if_pos same, if_pos same]
      · have different : entry.1 ≠ other := fun here => same (here.symm.trans dropped)
        rw [find?_cons_of_neg (by simpa using different)]
    · rw [filter_cons_of_pos (by simpa using dropped)]
      by_cases here : entry.1 = other
      · have different : other ≠ key := here ▸ dropped
        rw [find?_cons_of_pos (by simpa using here), if_neg different,
          find?_cons_of_pos (by simpa using here)]
      · rw [find?_cons_of_neg (by simpa using here), ih, find?_cons_of_neg (by simpa using here)]

theorem get_put (table : Table κ ν) (entry : κ × ν) (other : κ) :
    get (put table entry) other = if other = entry.1 then some entry.2 else get table other := by
  by_cases same : other = entry.1
  · subst same
    simp [get, put]
  · have deleted := get_delete table entry.1 other
    rw [if_neg same] at deleted ⊢
    rw [← deleted]
    unfold get put
    rw [find?_cons_of_neg (by simpa using fun here => same here.symm)]

theorem mem_keys_iff (table : Table κ ν) (key : κ) :
    key ∈ table.map Prod.fst ↔ get table key ≠ none := by
  unfold get
  rw [ne_eq, Option.map_eq_none_iff, find?_eq_none, mem_map]
  simp only [decide_eq_true_eq]
  constructor
  · rintro ⟨entry, member, isKey⟩ none
    exact none entry member isKey
  · intro some
    by_contra missing
    exact some fun entry member isKey => missing ⟨entry, member, isKey⟩

/-! ### Reading after a batch -/

/-- The value that the insertions leave under a key: the last one decides. -/
def lastInsert (inserts : List (κ × ν)) (key : κ) : Option ν :=
  get inserts.reverse key

theorem lastInsert_append (inserts : List (κ × ν)) (entry : κ × ν) (key : κ) :
    lastInsert (inserts ++ [entry]) key
      = if key = entry.1 then some entry.2 else lastInsert inserts key := by
  unfold lastInsert get
  rw [reverse_append, reverse_singleton, singleton_append]
  by_cases same : key = entry.1
  · rw [find?_cons_of_pos (by simpa using same.symm), if_pos same]
    rfl
  · rw [find?_cons_of_neg (by simpa using fun here => same here.symm), if_neg same]

@[simp] theorem lastInsert_nil (key : κ) : lastInsert ([] : List (κ × ν)) key = none :=
  rfl

@[simp] theorem lastInsert_singleton (entry : κ × ν) (key : κ) :
    lastInsert [entry] key = if key = entry.1 then some entry.2 else none :=
  lastInsert_append [] entry key

theorem get_inserts (table : Table κ ν) (inserts : List (κ × ν)) (key : κ) :
    get (inserts.foldl put table) key = (lastInsert inserts key).or (get table key) := by
  induction inserts using List.reverseRecOn with
  | nil => rfl
  | append_singleton inserts entry ih =>
    rw [foldl_append, foldl_cons, foldl_nil, get_put, ih, lastInsert_append]
    split <;> rfl

theorem get_removals (table : Table κ ν) (removals : List κ) (key : κ) :
    get (removals.foldl delete table) key = if key ∈ removals then none else get table key := by
  induction removals generalizing table with
  | nil => rfl
  | cons first rest ih =>
    rw [foldl_cons, ih, get_delete]
    by_cases later : key ∈ rest
    · rw [if_pos later, if_pos (mem_cons_of_mem _ later)]
    · rw [if_neg later]
      by_cases here : key = first
      · rw [if_pos here, if_pos (here ▸ mem_cons_self)]
      · rw [if_neg here, if_neg (by simp [here, later])]

theorem get_write (table : Table κ ν) (batch : Batch κ ν) (key : κ) :
    get (write table batch) key = if key ∈ batch.removals then none
      else (lastInsert batch.inserts key).or (get table key) := by
  unfold write
  rw [get_removals, get_inserts]

end Table
end WriteBatch
