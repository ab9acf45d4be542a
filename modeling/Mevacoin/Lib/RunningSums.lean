/-
Increasing lists of machine words written as differences. The differences are taken
in modular arithmetic; the running sums are exact.
-/

import Mathlib.Data.List.Basic
import Mathlib.Data.UInt

namespace RunningSums

def sumsFrom (start : Nat) : List UInt32 → List Nat
  | [] => []
  | word :: words => (start + word.toNat) :: sumsFrom (start + word.toNat) words

def differencesFrom (previous : UInt32) : List UInt32 → List UInt32
  | [] => []
  | word :: words => (word - previous) :: differencesFrom word words

theorem sumsFrom_differencesFrom {previous : UInt32} {words : List UInt32}
    (increasing : (previous :: words).Pairwise (· ≤ ·)) :
    sumsFrom previous.toNat (differencesFrom previous words) = words.map UInt32.toNat := by
  induction words generalizing previous with
  | nil => rfl
  | cons word words ih =>
    obtain ⟨before, rest⟩ := List.pairwise_cons.mp increasing
    have below : previous ≤ word := before word List.mem_cons_self
    have exact : previous.toNat + (word - previous).toNat = word.toNat := by
      rw [UInt32.toNat_sub_of_le _ _ below]
      have := UInt32.le_iff_toNat_le.mp below
      omega
    rw [differencesFrom, sumsFrom, exact, ih rest, List.map_cons]

/-- The first word is kept, the others are written relative to the word before. -/
def differences : List UInt32 → List UInt32
  | [] => []
  | word :: words => word :: differencesFrom word words

theorem sumsFrom_differences {words : List UInt32} (increasing : words.Pairwise (· ≤ ·)) :
    sumsFrom 0 (differences words) = words.map UInt32.toNat := by
  cases words with
  | nil => rfl
  | cons word words =>
    rw [differences, sumsFrom, Nat.zero_add, sumsFrom_differencesFrom increasing, List.map_cons]

end RunningSums
