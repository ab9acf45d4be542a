/-
Phrases: words written one after the other with a blank between two of them, and read
back by cutting at blanks. Cutting undoes joining for words that are not empty and hold
no blank.
-/

import Mathlib.Data.List.Basic

namespace Phrase
open List

variable {α : Type} (isBlank : α → Bool)

def finished : List α → List (List α)
  | [] => []
  | letter :: before => [(letter :: before).reverse]

def wordsFrom : List α → List α → List (List α)
  | current, [] => finished current
  | current, letter :: text =>
    if isBlank letter then finished current ++ wordsFrom [] text
    else wordsFrom (letter :: current) text

def words (text : List α) : List (List α) := wordsFrom isBlank [] text

def join (blank : α) : List (List α) → List α
  | [] => []
  | [word] => word
  | word :: next :: rest => word ++ blank :: join blank (next :: rest)

def IsWord (word : List α) : Prop := word ≠ [] ∧ ∀ letter ∈ word, isBlank letter = false

variable {isBlank}

theorem wordsFrom_append {word : List α} (unbroken : ∀ letter ∈ word, isBlank letter = false)
    (current text : List α) :
    wordsFrom isBlank current (word ++ text) = wordsFrom isBlank (word.reverse ++ current) text := by
  induction word generalizing current with
  | nil => rfl
  | cons letter word ih =>
    have isLetter := unbroken letter mem_cons_self
    rw [cons_append, wordsFrom, isLetter, if_neg Bool.false_ne_true,
      ih (fun other isLater => unbroken other (mem_cons_of_mem _ isLater)),
      reverse_cons, append_assoc, singleton_append]

theorem finished_reverse {word : List α} (nonempty : word ≠ []) :
    finished word.reverse = [word] := by
  cases reversed : word.reverse with
  | nil => exact absurd (reverse_eq_nil_iff.mp reversed) nonempty
  | cons last before => rw [finished, ← reversed, reverse_reverse]

theorem words_append_blank {word : List α} {blank : α} (isWord : IsWord isBlank word)
    (separates : isBlank blank = true) (text : List α) :
    words isBlank (word ++ blank :: text) = word :: words isBlank text := by
  rw [words, wordsFrom_append isWord.2, append_nil, wordsFrom, if_pos separates,
    finished_reverse isWord.1]
  rfl

theorem words_singleton {word : List α} (isWord : IsWord isBlank word) :
    words isBlank word = [word] := by
  have read := wordsFrom_append isWord.2 [] []
  rw [append_nil, append_nil, wordsFrom, finished_reverse isWord.1] at read
  exact read

theorem words_join {blank : α} (separates : isBlank blank = true) {phrase : List (List α)}
    (areWords : ∀ word ∈ phrase, IsWord isBlank word) :
    words isBlank (join blank phrase) = phrase := by
  induction phrase with
  | nil => rfl
  | cons word rest ih =>
    have isWord := areWords word mem_cons_self
    cases rest with
    | nil => exact words_singleton isWord
    | cons next rest =>
      rw [join, words_append_blank isWord separates,
        ih (fun other isLater => areWords other (mem_cons_of_mem _ isLater))]

theorem join_inj {blank : α} (separates : isBlank blank = true) {left right : List (List α)}
    (leftWords : ∀ word ∈ left, IsWord isBlank word)
    (rightWords : ∀ word ∈ right, IsWord isBlank word) :
    join blank left = join blank right ↔ left = right := by
  constructor
  · intro same
    rw [← words_join separates leftWords, same, words_join separates rightWords]
  · intro same
    rw [same]

end Phrase
