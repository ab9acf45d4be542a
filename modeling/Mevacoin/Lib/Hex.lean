/-
Hexadecimal text. Reading accepts both cases, writing uses the lower one; a text is
readable exactly if it has an even number of characters that are all digits.
-/

import Mathlib.Data.List.Basic
import Mathlib.Data.UInt

namespace Hex
open List

def digitValue (character : UInt8) : Option UInt8 :=
  if 48 ≤ character ∧ character ≤ 57 then some (character - 48)
  else if 65 ≤ character ∧ character ≤ 70 then some (character - 55)
  else if 97 ≤ character ∧ character ≤ 102 then some (character - 87)
  else none

def digit (value : UInt8) : UInt8 := if value < 10 then value + 48 else value + 87

def decode : List UInt8 → Option (List UInt8)
  | [] => some []
  | [_] => none
  | high :: low :: text => do
    let highValue ← digitValue high
    let lowValue ← digitValue low
    let bytes ← decode text
    return (highValue <<< 4 ||| lowValue) :: bytes

def encode (bytes : List UInt8) : List UInt8 :=
  bytes.flatMap fun byte : UInt8 => [digit (byte >>> 4), digit (byte &&& 15)]

theorem length_of_decode {text bytes : List UInt8} (decoded : decode text = some bytes) :
    text.length = 2 * bytes.length := by
  induction text using decode.induct generalizing bytes with
  | case1 =>
    cases decoded
    rfl
  | case2 => cases decoded
  | case3 high low text ih =>
    simp only [decode, Option.pure_def, Option.bind_eq_bind, Option.bind_eq_some_iff] at decoded
    obtain ⟨_, _, _, _, rest, isRest, same⟩ := decoded
    cases same
    rw [length_cons, length_cons, ih isRest, length_cons]
    omega

theorem isSome_decode_iff {text : List UInt8} :
    (decode text).isSome = true ↔
      text.length % 2 = 0 ∧ ∀ character ∈ text, (digitValue character).isSome = true := by
  induction text using decode.induct with
  | case1 => simp [decode]
  | case2 character => simp [decode]
  | case3 high low text ih =>
    have even : (high :: low :: text).length % 2 = text.length % 2 := by
      simp only [length_cons]
      omega
    rw [even, decode, forall_mem_cons, forall_mem_cons]
    cases digitValue high with
    | none => simp
    | some highValue =>
      cases digitValue low with
      | none => simp
      | some lowValue =>
        cases rest : decode text with
        | none =>
          rw [rest] at ih
          simpa using ih
        | some bytes =>
          rw [rest] at ih
          simpa using ih

end Hex
