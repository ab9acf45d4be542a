/-
Drawing positions below a bound without repetition: the last position that is left
takes the place of the drawn one, and only places that have changed are stored.
Whatever the random numbers are, every position is drawn once.
-/

import Mathlib.Data.List.Perm.Basic
import Mathlib.Data.List.Range
import Mathlib.Logic.Function.Basic

namespace SparseShuffle
open List Nat Function

/-- The number of positions left, and what has moved to them. -/
structure Generator where
  count : Nat
  selected : Nat → Option Nat

def start (size : Nat) : Generator := { count := size, selected := fun _ => none }

def Generator.at (generator : Generator) (position : Nat) : Nat :=
  (generator.selected position).getD position

/-- The last position takes the place of a drawn one. -/
def Generator.move (generator : Generator) (last value : Nat) : Generator :=
  { count := last
    selected := Function.update generator.selected value (some (generator.at last)) }

/-- A draw, given a random number that is at most the last position. -/
def Generator.next (random : Nat → Nat) (generator : Generator) : Option (Nat × Generator) :=
  match generator.count with
  | 0 => none
  | last + 1 => some (generator.at (random last), generator.move last (random last))

/-- Several draws; the random numbers of later calls come from the later calls. -/
def Generator.draw (random : Nat → Nat → Nat) : Nat → Nat → Generator → Option (List Nat)
  | 0, _, _ => some []
  | draws + 1, call, generator => do
    let (value, generator) ← generator.next (random call)
    let values ← generator.draw random draws (call + 1)
    return value :: values

def Generator.remaining (generator : Generator) : List Nat :=
  (range generator.count).map generator.at

theorem remaining_start (size : Nat) : (start size).remaining = range size :=
  map_id _

theorem at_move (generator : Generator) (last value position : Nat) :
    (generator.move last value).at position
      = Function.update generator.at value (generator.at last) position := by
  unfold Generator.at Generator.move
  dsimp only
  by_cases same : position = value
  · rw [same, update_self, update_self]
    rfl
  · rw [update_of_ne same, update_of_ne same]

theorem next_eq {generator : Generator} {last : Nat} (isCount : generator.count = last + 1)
    (random : Nat → Nat) : generator.next random
      = some (generator.at (random last), generator.move last (random last)) := by
  rw [Generator.next, isCount]

theorem draw_succ {random : Nat → Nat → Nat} {call value : Nat} {generator after : Generator}
    (drawn : generator.next (random call) = some (value, after)) (draws : Nat) :
    generator.draw random (draws + 1) call
      = (after.draw random draws (call + 1)).map (cons value) := by
  rw [Generator.draw, drawn]
  exact Option.map_eq_bind.symm

theorem perm_map_update {places : List Nat} (distinct : places.Nodup) {place : Nat}
    (member : place ∈ places) (values : Nat → Nat) (moved : Nat) :
    (values place :: places.map (Function.update values place moved)).Perm
      (moved :: places.map values) := by
  induction places with
  | nil => cases member
  | cons first places ih =>
    obtain ⟨fresh, restDistinct⟩ := nodup_cons.mp distinct
    rw [map_cons, map_cons]
    by_cases here : first = place
    · have unchanged : places.map (Function.update values place moved) = places.map values := by
        refine map_congr_left fun other inside => update_of_ne ?_ _ _
        intro same
        rw [← here] at same
        exact fresh (same ▸ inside)
      rw [here, update_self, unchanged]
      exact List.Perm.swap _ _ _
    · have later : place ∈ places := by
        rcases mem_cons.mp member with same | inside
        · exact absurd same.symm here
        · exact inside
      rw [update_of_ne here]
      exact ((List.Perm.swap _ _ _).trans ((ih restDistinct later).cons _)).trans
        (List.Perm.swap _ _ _)

theorem next_perm {random : Nat → Nat} (bounded : ∀ last, random last ≤ last)
    {generator : Generator} {last : Nat} (isCount : generator.count = last + 1) :
    (generator.at (random last) :: (generator.move last (random last)).remaining).Perm
      generator.remaining := by
  have before : generator.remaining
      = (range last).map generator.at ++ [generator.at last] := by
    rw [Generator.remaining, isCount, range_succ, map_append, map_singleton]
  have after : (generator.move last (random last)).remaining
      = (range last).map (Function.update generator.at (random last) (generator.at last)) :=
    map_congr_left fun position _ => at_move generator last _ position
  rw [before, after]
  refine List.Perm.trans ?_ (perm_append_singleton _ _).symm
  by_cases inside : random last < last
  · exact perm_map_update nodup_range (mem_range.mpr inside) _ _
  · have isLast : random last = last := le_antisymm (bounded last) (not_lt.mp inside)
    rw [isLast]
    refine List.Perm.cons _ (List.Perm.of_eq (map_congr_left fun position below => ?_))
    exact Function.update_of_ne (Nat.ne_of_lt (mem_range.mp below)) _ _

theorem draw_subperm {random : Nat → Nat → Nat} (bounded : ∀ call last, random call last ≤ last)
    {draws : Nat} (call : Nat) {generator : Generator} (enough : draws ≤ generator.count) :
    ∃ values, generator.draw random draws call = some values ∧ values.length = draws ∧
      ∃ left, (values ++ left).Perm generator.remaining := by
  induction draws generalizing call generator with
  | zero => exact ⟨[], rfl, rfl, generator.remaining, .refl _⟩
  | succ draws ih =>
    obtain ⟨last, isCount⟩ := exists_eq_add_one_of_ne_zero
      (ne_of_gt (lt_of_lt_of_le (succ_pos draws) enough))
    have shorter : draws ≤ (generator.move last (random call last)).count := by
      rw [isCount] at enough
      exact le_of_succ_le_succ enough
    obtain ⟨values, drawn, length, left, perm⟩ := ih (call + 1) shorter
    refine ⟨_ :: values, ?_, congrArg (· + 1) length, left,
      (perm.cons _).trans (next_perm (bounded call) isCount)⟩
    rw [draw_succ (next_eq isCount _), drawn]
    rfl

/-- Random numbers that draw two given positions first. The second may be the last
position, which the first draw has moved. -/
def drawPair (size first second call last : Nat) : Nat :=
  min (if call = 0 then first else if second + 1 = size then first else second) last

theorem exists_draw_pair {size first second draws : Nat} (ordered : first < second)
    (inside : second < size) (enough : draws + 2 ≤ size) :
    ∃ rest, (start size).draw (drawPair size first second) (draws + 2) 0
      = some (first :: second :: rest) := by
  obtain ⟨size, rfl⟩ : ∃ smaller, size = smaller + 2 := ⟨size - 2, by omega⟩
  have isFirst : drawPair (size + 2) first second 0 (size + 1) = first := by
    unfold drawPair
    rw [if_pos rfl]
    omega
  have isSecond : ((start (size + 2)).move (size + 1) first).at
      (drawPair (size + 2) first second 1 size) = second := by
    rw [at_move]
    unfold drawPair
    rw [if_neg (by decide)]
    split
    · rename_i isLast
      rw [min_eq_left (by omega), update_self]
      exact (Nat.succ.inj isLast).symm
    · rw [min_eq_left (by omega), update_of_ne (by omega)]
      rfl
  have firstDraw := @next_eq (start (size + 2)) (size + 1) rfl (drawPair (size + 2) first second 0)
  have secondDraw := @next_eq ((start (size + 2)).move (size + 1) first) size rfl
    (drawPair (size + 2) first second 1)
  rw [isFirst] at firstDraw
  rw [isSecond] at secondDraw
  obtain ⟨rest, others, _⟩ := @draw_subperm (drawPair (size + 2) first second)
    (fun _ _ => min_le_right _ _) draws 2
    (((start (size + 2)).move (size + 1) first).move size
      (drawPair (size + 2) first second 1 size)) (Nat.le_of_add_le_add_right enough)
  refine ⟨rest, ?_⟩
  rw [draw_succ firstDraw, draw_succ secondDraw, others]
  rfl

end SparseShuffle
