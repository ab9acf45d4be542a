/-
Binary search for the end of a range of positions that satisfy a test. The search
answers on any input; where the test holds on an initial range only, it answers with
the end of that range.
-/

import Mathlib.Data.List.TakeWhile

namespace BinarySearch
open List

/-- Halves a range of `count` positions from `first` on until it is empty. The first
argument bounds the number of rounds. -/
def firstFailing (test : Nat → Bool) : Nat → Nat → Nat → Nat
  | 0, first, _ => first
  | _ + 1, first, 0 => first
  | rounds + 1, first, count + 1 =>
    let step := (count + 1) / 2
    if test (first + step) then firstFailing test rounds (first + step + 1) (count - step)
    else firstFailing test rounds first step

/-- The test holds on the positions below the bound and on no other position of the range. -/
structure Divides (test : Nat → Bool) (first count bound : Nat) : Prop where
  lower : first ≤ bound
  upper : bound ≤ first + count
  holds : ∀ position, first ≤ position → position < bound → test position = true
  fails : ∀ position, bound ≤ position → position < first + count → test position = false

theorem firstFailing_eq {test : Nat → Bool} {rounds first count bound : Nat}
    (enough : count ≤ rounds) (divides : Divides test first count bound) :
    firstFailing test rounds first count = bound := by
  induction rounds generalizing first count with
  | zero =>
    have lower := divides.lower
    have upper := divides.upper
    change first = bound
    omega
  | succ rounds ih =>
    cases count with
    | zero =>
      have lower := divides.lower
      have upper := divides.upper
      change first = bound
      omega
    | succ count =>
      have upper := divides.upper
      change (if test (first + (count + 1) / 2) then _ else _) = bound
      -- the tested position lies on one side of the bound
      by_cases below : first + (count + 1) / 2 < bound
      · rw [if_pos (divides.holds _ (Nat.le_add_right _ _) below)]
        refine ih (by omega) ⟨below, by omega, ?_, ?_⟩
        · intro position above
          exact divides.holds position (by omega)
        · intro position above inside
          exact divides.fails position above (by omega)
      · rw [divides.fails _ (Nat.le_of_not_lt below) (by omega)]
        refine ih (by omega) ⟨divides.lower, by omega, divides.holds, ?_⟩
        intro position above inside
        exact divides.fails position above (by omega)

/-- The number of items that come before the position searched for. -/
def lowerBound {α : Type} (before : α → Bool) (items : List α) : Nat :=
  firstFailing (fun position => (items[position]?).any before) items.length 0 items.length

def Partitioned {α : Type} (before : α → Bool) (items : List α) : Prop :=
  items.Pairwise fun first second => before second = true → before first = true

theorem lowerBound_eq {α : Type} {before : α → Bool} {items : List α}
    (partitioned : Partitioned before items) :
    lowerBound before items = (items.takeWhile before).length := by
  have whole := takeWhile_append_dropWhile (p := before) (l := items)
  have length := congrArg List.length whole
  rw [length_append] at length
  refine firstFailing_eq (Nat.le_refl _) ⟨Nat.zero_le _, by omega, ?_, ?_⟩
  · intro position _ inside
    have found : items[position]? = (items.takeWhile before)[position]? :=
      calc items[position]?
          = (items.takeWhile before ++ items.dropWhile before)[position]? := by rw [whole]
        _ = (items.takeWhile before)[position]? := getElem?_append_left inside
    rw [found, getElem?_eq_getElem inside, Option.any_some]
    exact mem_takeWhile_imp (getElem_mem inside)
  · intro position above inside
    rw [← whole, getElem?_append_right above]
    cases rest : items.dropWhile before with
    | nil => rfl
    | cons first rest' =>
      have firstFails : before first = false := by
        have head := head?_dropWhile_not before items
        rw [rest] at head
        simpa using head
      rw [← whole, rest] at partitioned
      have later := (pairwise_append.mp partitioned).2.1
      cases position - (items.takeWhile before).length with
      | zero => exact firstFails
      | succ offset =>
        rw [getElem?_cons_succ]
        cases found : rest'[offset]? with
        | none => rfl
        | some item =>
          have member := mem_of_getElem? found
          have implied := (pairwise_cons.mp later).1 item member
          rw [firstFails] at implied
          simpa using implied

theorem Partitioned.of_mem_dropWhile {α : Type} {before : α → Bool} {items : List α} {item : α}
    (partitioned : Partitioned before items) (member : item ∈ items.dropWhile before) :
    before item = false := by
  induction items with
  | nil => cases member
  | cons head items ih =>
    obtain ⟨first, rest⟩ := pairwise_cons.mp partitioned
    by_cases passes : before head = true
    · rw [dropWhile_cons_of_pos passes] at member
      exact ih rest member
    · rw [dropWhile_cons_of_neg passes] at member
      rcases mem_cons.mp member with isHead | later
      · rw [isHead]
        exact eq_false_of_ne_true passes
      · apply eq_false_of_ne_true
        intro itemPasses
        exact passes (first item later itemPasses)

theorem lowerBound_eq_zero {α : Type} {before : α → Bool} {items : List α}
    (none : ∀ item ∈ items, before item = false) : lowerBound before items = 0 := by
  rw [lowerBound_eq]
  · cases items with
    | nil => rfl
    | cons item items =>
      rw [takeWhile_cons_of_neg (by rw [none item mem_cons_self]; decide)]
      rfl
  · apply pairwise_of_forall_mem_list
    intro first _ second member passes
    rw [none second member] at passes
    cases passes

end BinarySearch
