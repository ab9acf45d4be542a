/-
Lists from which the first item that passes a test is taken. Seen through a key, such a
list is one queue per key. Two lists with the same queues are permutations of each
other and answer every later request alike.
-/

import Mathlib.Data.List.Perm.Basic
import Mathlib.Data.List.Count

namespace FirstMatch
open List

variable {α κ : Type}

def take (test : α → Bool) : List α → Option (α × List α)
  | [] => none
  | item :: items =>
    if test item then some (item, items)
    else (take test items).map fun (found, rest) => (found, item :: rest)

variable {test : α → Bool} {found : α} {items rest : List α}

section
variable (taken : take test items = some (found, rest))
include taken

theorem exists_of_take :
    ∃ before after, items = before ++ found :: after ∧ rest = before ++ after ∧
      test found = true ∧ ∀ item ∈ before, test item = false := by
  induction items generalizing rest with
  | nil => cases taken
  | cons item items ih =>
    rw [take] at taken
    cases passes : test item with
    | true =>
      rw [passes, if_pos rfl] at taken
      cases taken
      exact ⟨[], items, rfl, rfl, passes, nofun⟩
    | false =>
      rw [passes, if_neg Bool.false_ne_true, Option.map_eq_some_iff] at taken
      obtain ⟨⟨found, later⟩, takenLater, same⟩ := taken
      cases same
      obtain ⟨before, after, rfl, rfl, isFound, none⟩ := ih takenLater
      exact ⟨item :: before, after, rfl, rfl, isFound, forall_mem_cons.mpr ⟨passes, none⟩⟩

theorem test_of_take : test found = true := by
  obtain ⟨before, after, -, -, passes, -⟩ := exists_of_take taken
  exact passes

theorem perm_of_take : items.Perm (found :: rest) := by
  obtain ⟨before, after, rfl, rfl, -⟩ := exists_of_take taken
  exact perm_middle

end

theorem take_eq_none_iff :
    take test items = none ↔ ∀ item ∈ items, test item = false := by
  induction items with
  | nil => simp [take]
  | cons item items ih =>
    rw [take]
    cases passes : test item with
    | true => simp [passes]
    | false => simp [passes, ih]

theorem sublist_of_take (taken : take test items = some (found, rest)) : rest.Sublist items := by
  obtain ⟨before, after, rfl, rfl, -⟩ := exists_of_take taken
  exact (sublist_cons_self found after).append_left before

theorem filter_of_take {other : α → Bool}
    (taken : take test items = some (found, rest)) (apart : other found = false) :
    rest.filter other = items.filter other := by
  obtain ⟨before, after, rfl, rfl, -⟩ := exists_of_take taken
  rw [filter_append, filter_append, filter_cons_of_neg (by rw [apart]; exact Bool.false_ne_true)]

/-! ### Queues -/

variable [DecidableEq κ]

def queue (key : α → κ) (wanted : κ) (items : List α) : List α :=
  items.filter fun item => key item = wanted

variable {key : α → κ}

variable {wanted : κ}

theorem queue_append {first second : List α} :
    queue key wanted (first ++ second) = queue key wanted first ++ queue key wanted second :=
  filter_append ..

theorem queue_cons {item : α} :
    queue key wanted (item :: items)
      = if key item = wanted then item :: queue key wanted items else queue key wanted items := by
  by_cases same : key item = wanted
  · rw [if_pos same]
    exact filter_cons_of_pos (by simpa using same)
  · rw [if_neg same]
    exact filter_cons_of_neg (by simpa using same)

theorem key_of_take (taken : take (fun item => key item = wanted) items = some (found, rest)) :
    key found = wanted := by
  have passes := test_of_take taken
  exact of_decide_eq_true passes

theorem queue_of_take {other : κ}
    (taken : take (fun item => key item = wanted) items = some (found, rest)) :
    queue key other items
      = if other = wanted then found :: queue key other rest else queue key other rest := by
  obtain ⟨before, after, rfl, rfl, passes, notBefore⟩ := exists_of_take taken
  have isWanted : key found = wanted := of_decide_eq_true passes
  rw [queue_append, queue_append, queue_cons, isWanted]
  by_cases same : other = wanted
  · have absent : queue key other before = [] := by
      refine filter_eq_nil_iff.mpr fun item member isOther => ?_
      exact of_decide_eq_false (notBefore item member) ((of_decide_eq_true isOther).trans same)
    rw [if_pos same, if_pos same.symm, absent, nil_append, nil_append]
  · rw [if_neg same, if_neg (Ne.symm same)]

theorem take_eq_none_iff_queue :
    take (fun item => key item = wanted) items = none ↔ queue key wanted items = [] := by
  rw [take_eq_none_iff, queue, filter_eq_nil_iff]
  constructor
  · intro none item member
    rw [none item member]
    exact Bool.false_ne_true
  · intro none item member
    exact Bool.eq_false_iff.mpr (none item member)

def SameQueues (key : α → κ) (left right : List α) : Prop :=
  ∀ wanted, queue key wanted left = queue key wanted right

theorem SameQueues.refl (items : List α) : SameQueues key items items := fun _ => rfl

variable {left right : List α}

theorem SameQueues.symm (same : SameQueues key left right) :
    SameQueues key right left := fun wanted => (same wanted).symm

theorem SameQueues.trans {middle : List α} (first : SameQueues key left middle)
    (second : SameQueues key middle right) : SameQueues key left right :=
  fun wanted => (first wanted).trans (second wanted)

theorem SameQueues.append_left (more : List α)
    (same : SameQueues key left right) : SameQueues key (more ++ left) (more ++ right) := by
  intro wanted
  rw [queue_append, queue_append, same wanted]

theorem sameQueues_of_take
    (taken : take (fun item => key item = wanted) items = some (found, rest)) :
    SameQueues key items (found :: rest) := by
  intro other
  rw [queue_of_take taken, queue_cons, key_of_take taken]
  by_cases same : other = wanted
  · rw [if_pos same, if_pos same.symm]
  · rw [if_neg same, if_neg (Ne.symm same)]

theorem SameQueues.filter (test : α → Bool) (same : SameQueues key left right) :
    SameQueues key (left.filter test) (right.filter test) := by
  intro wanted
  have filtered : ∀ items : List α,
      queue key wanted (items.filter test) = (queue key wanted items).filter test := by
    intro items
    unfold queue
    rw [filter_comm]
  rw [filtered, filtered, same wanted]

theorem sameQueues_append_comm (apart : ∀ first ∈ left, ∀ second ∈ right, key first ≠ key second) :
    SameQueues key (left ++ right) (right ++ left) := by
  intro wanted
  rw [queue_append, queue_append]
  have isEmpty : queue key wanted left = [] ∨ queue key wanted right = [] := by
    by_cases absent : ∃ first ∈ left, key first = wanted
    · obtain ⟨first, inLeft, isWanted⟩ := absent
      refine .inr (filter_eq_nil_iff.mpr fun second inRight isSecond => ?_)
      exact apart first inLeft second inRight (isWanted.trans (of_decide_eq_true isSecond).symm)
    · refine .inl (filter_eq_nil_iff.mpr fun first inLeft isFirst => ?_)
      exact absent ⟨first, inLeft, of_decide_eq_true isFirst⟩
  rcases isEmpty with isEmpty | isEmpty
  · rw [isEmpty, nil_append, append_nil]
  · rw [isEmpty, append_nil, nil_append]

theorem SameQueues.append {more : List α} (same : SameQueues key left right) :
    SameQueues key (left ++ more) (right ++ more) := by
  intro wanted
  rw [queue_append, queue_append, same wanted]

theorem SameQueues.take {leftRest : List α} (same : SameQueues key left right)
    (taken : take (fun item => key item = wanted) left = some (found, leftRest)) :
    ∃ rightRest, FirstMatch.take (fun item => key item = wanted) right = some (found, rightRest) ∧
      SameQueues key leftRest rightRest := by
  have front : queue key wanted left = _ := queue_of_take taken
  rw [if_pos rfl, same wanted] at front
  cases other : FirstMatch.take (fun item => decide (key item = wanted)) right with
  | none =>
    rw [take_eq_none_iff_queue.mp other] at front
    cases front
  | some taken' =>
    obtain ⟨item, rightRest⟩ := taken'
    have both : ∀ asked, (if asked = wanted then found :: queue key asked leftRest
          else queue key asked leftRest)
        = if asked = wanted then item :: queue key asked rightRest
          else queue key asked rightRest := by
      intro asked
      rw [← queue_of_take taken, ← queue_of_take other, same asked]
    have heads := both wanted
    rw [if_pos rfl, if_pos rfl] at heads
    obtain ⟨isFound, tails⟩ := List.cons.inj heads
    refine ⟨rightRest, by rw [isFound], ?_⟩
    intro asked
    by_cases isWanted : asked = wanted
    · rw [isWanted]
      exact tails
    · have := both asked
      rwa [if_neg isWanted, if_neg isWanted] at this

theorem SameQueues.take_eq_none (same : SameQueues key left right)
    (absent : FirstMatch.take (fun item => key item = wanted) left = none) :
    FirstMatch.take (fun item => key item = wanted) right = none := by
  rw [take_eq_none_iff_queue] at absent ⊢
  rw [← same wanted, absent]

variable [DecidableEq α]

theorem count_queue (key : α → κ) (item : α) (items : List α) :
    (queue key (key item) items).count item = items.count item :=
  count_filter (by simp)

theorem SameQueues.perm (same : SameQueues key left right) :
    left.Perm right := by
  rw [perm_iff_count]
  intro item
  calc left.count item = (queue key (key item) left).count item :=
      (count_queue key item left).symm
    _ = (queue key (key item) right).count item := by rw [same]
    _ = right.count item := count_queue key item right

end FirstMatch
