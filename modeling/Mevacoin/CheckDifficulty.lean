/-
The proof-of-work check. The hash, read as a little-endian number, is multiplied word
by word with the difficulty, and only the carries are kept: the block passes when the
product stays below 2 ^ 256.
-/

import Mathlib.Tactic.Ring
import Mevacoin.Types

namespace Mevacoin

/-- The low and the high word of the 128-bit product. -/
def mul (a b : UInt64) : UInt64 × UInt64 :=
  (UInt64.ofNat (a.toNat * b.toNat), UInt64.ofNat ((a.toNat * b.toNat) >>> 64))

def cadd (a b : UInt64) : Bool := a + b < a

def cadc (a b : UInt64) (c : Bool) : Bool := a + b < a || (c && a + b == 0xFFFFFFFFFFFFFFFF)

def Hash.word (hash : Hash) (index : Nat) : UInt64 :=
  UInt64.ofNat (hash.value.toNat >>> (64 * index))

def checkHash (hash : Hash) (difficulty : UInt64) : Bool :=
  let (top, high) := mul (hash.word 3) difficulty
  if high != 0 then false
  else
    let (_, cur) := mul (hash.word 0) difficulty
    let (low, high) := mul (hash.word 1) difficulty
    let carry := cadd cur low
    let cur := high
    let (low, high) := mul (hash.word 2) difficulty
    let carry := cadc cur low carry
    let carry := cadc high top carry
    !carry

theorem mul_exact (a b : UInt64) :
    (mul a b).1.toNat + 2 ^ 64 * (mul a b).2.toNat = a.toNat * b.toNat := by
  have bound : a.toNat * b.toNat < 2 ^ 64 * 2 ^ 64 := Nat.mul_lt_mul'' a.toNat_lt b.toNat_lt
  simp only [mul, UInt64.toNat_ofNat', Nat.shiftRight_eq_div_pow]
  omega

/-- The carry out of a word is the overflow of the sum with the carry into it. -/
theorem toNat_cadc (a b : UInt64) (c : Bool) :
    (cadc a b c).toNat = (a.toNat + b.toNat + c.toNat) / 2 ^ 64 := by
  have first := a.toNat_lt
  have second := b.toNat_lt
  have ones : (0xFFFFFFFFFFFFFFFF : UInt64).toNat = 2 ^ 64 - 1 := by decide
  have overflow : cadc a b c = decide (2 ^ 64 ≤ a.toNat + b.toNat + c.toNat) := by
    rw [Bool.eq_iff_iff]
    simp only [cadc, Bool.or_eq_true, Bool.and_eq_true, beq_iff_eq, decide_eq_true_eq,
      UInt64.lt_iff_toNat_lt, ← UInt64.toNat_inj, UInt64.toNat_add, ones]
    cases c <;> simp only [Bool.toNat_true, Bool.toNat_false, Bool.false_eq_true, true_and,
      false_and, or_false] <;> omega
  have carry := c.toNat_le
  rw [overflow]
  by_cases above : 2 ^ 64 ≤ a.toNat + b.toNat + c.toNat
  · rw [decide_eq_true above, Bool.toNat_true]
    omega
  · rw [decide_eq_false above, Bool.toNat_false]
    omega

theorem cadd_eq_cadc (a b : UInt64) : cadd a b = cadc a b false := by
  simp [cadd, cadc]

theorem Hash.value_eq_words (hash : Hash) : hash.value.toNat =
    (hash.word 0).toNat + 2 ^ 64 * (hash.word 1).toNat + 2 ^ 128 * (hash.word 2).toNat
      + 2 ^ 192 * (hash.word 3).toNat := by
  simp only [word, UInt64.toNat_ofNat', Nat.shiftRight_eq_div_pow]
  omega

theorem checkHash_iff (hash : Hash) (difficulty : UInt64) :
    checkHash hash difficulty = true ↔ hash.value.toNat * difficulty.toNat < 2 ^ 256 := by
  have product : hash.value.toNat * difficulty.toNat =
      (hash.word 0).toNat * difficulty.toNat + 2 ^ 64 * ((hash.word 1).toNat * difficulty.toNat)
        + 2 ^ 128 * ((hash.word 2).toNat * difficulty.toNat)
        + 2 ^ 192 * ((hash.word 3).toNat * difficulty.toNat) := by
    rw [hash.value_eq_words]
    ring
  rw [product, ← mul_exact, ← mul_exact, ← mul_exact, ← mul_exact]
  have fits := fun index => (mul (hash.word index) difficulty).1.toNat_lt
  have first := fits 0
  by_cases high : (mul (hash.word 3) difficulty).2 = 0
  · have unset : ∀ carry : Bool, (!carry) = true ↔ carry.toNat = 0 := by decide
    simp only [checkHash, high, bne_self_eq_false, Bool.false_eq_true, if_false]
    rw [unset, cadd_eq_cadc, toNat_cadc, toNat_cadc, toNat_cadc, UInt64.toNat_zero,
      Bool.toNat_false]
    omega
  · have positive : (mul (hash.word 3) difficulty).2.toNat ≠ 0 := by
      rwa [Ne, ← UInt64.toNat_zero, UInt64.toNat_inj]
    simp only [checkHash, bne_iff_ne.mpr high, if_true, Bool.false_eq_true, false_iff]
    omega

end Mevacoin
