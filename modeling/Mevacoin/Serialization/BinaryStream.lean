/-
The binary stream serializers: integers as varints, vectors with their size in
front, keys and hashes as raw bytes.
-/

import Mevacoin.Lib.ByteReader
import Mevacoin.Types

namespace Mevacoin
open List ByteReader Nat
open UInt8 (ofNat toNat_inj)

variable {piece : UInt8} {temp shift width value : Nat}

/-! ### Varints -/

def readVarintFrom (width shift temp : Nat) : List UInt8 → Option (Nat × List UInt8)
  | [] => none
  | piece :: rest =>
    if shift ≥ width - 7 ∧ piece.toNat ≥ 1 <<< (width - shift) then none
    else
      let temp := temp ||| (((piece.toNat &&& 0x7f) <<< shift) % 2 ^ width)
      if piece.toNat &&& 0x80 = 0 then
        if piece = 0 ∧ shift ≠ 0 then none else some (temp, rest)
      else readVarintFrom width (shift + 7) temp rest

def readVarint (width : Nat) : ByteReader Nat := readVarintFrom width 0 0

def writeVarint (value : Nat) : List UInt8 :=
  if value ≥ 0x80 then ofNat (value ||| 0x80) :: writeVarint (value >>> 7)
  else [ofNat value]
termination_by value
decreasing_by
  rw [Nat.shiftRight_eq_div_pow]
  omega

example : writeVarint 300 = [0xac, 0x02] := by decide +kernel

private theorem low_bits (value : Nat) : value &&& 0x7f = value % 128 :=
  and_two_pow_sub_one_eq_mod value 7

private theorem high_bit : piece.toNat &&& 0x80 = 0 ↔ piece.toNat < 128 := by
  have table : ∀ byte : Fin 256, byte.val &&& 0x80 = 0 ↔ byte.val < 128 := by decide +kernel
  exact table ⟨piece.toNat, piece.toNat_lt⟩

private theorem continued (value : Nat) :
    (ofNat (value ||| 0x80)).toNat = value % 128 + 128 := by
  have table : ∀ byte : Fin 256, byte.val ||| 0x80 = byte.val % 128 + 128 := by decide +kernel
  have split : (value ||| 0x80) % 2 ^ 8 = (value % 2 ^ 8) ||| (0x80 % 2 ^ 8) :=
    or_mod_two_pow
  rw [UInt8.toNat_ofNat', split]
  have low := table ⟨value % 256, mod_lt _ (by decide)⟩
  change (value % 256) ||| 0x80 = value % 256 % 128 + 128 at low
  change (value % 256) ||| 0x80 = _
  omega

private theorem merged {bits : Nat} (low : temp < 2 ^ shift) :
    temp ||| (bits <<< shift) = temp + bits * 2 ^ shift := by
  rw [Nat.shiftLeft_eq, Nat.mul_comm bits, Nat.or_comm, ← Nat.two_pow_add_eq_or_of_lt low, add_comm]

private theorem accepted_iff (room : shift < width) (piece : UInt8) :
    ¬(shift ≥ width - 7 ∧ piece.toNat ≥ 1 <<< (width - shift)) ↔
      (piece.toNat < 128 → piece.toNat < 2 ^ (width - shift)) ∧
        (128 ≤ piece.toNat → shift + 7 < width) := by
  by_cases more : shift + 7 < width
  · have large : 2 ^ 8 ≤ 2 ^ (width - shift) := Nat.pow_le_pow_right (by decide) (by omega)
    omega
  · have small : 2 ^ (width - shift) ≤ 2 ^ 7 := Nat.pow_le_pow_right (by decide) (by omega)
    omega

theorem writeVarint_last (small : value < 128) :
    writeVarint value = [ofNat value] := by
  rw [writeVarint, if_neg (by omega)]

theorem writeVarint_more (large : 128 ≤ value) :
    writeVarint value = ofNat (value ||| 0x80) :: writeVarint (value / 128) := by
  rw [writeVarint, if_pos large, shiftRight_eq_div_pow]

theorem writeVarint_ne_nil (value : Nat) : writeVarint value ≠ [] := by
  by_cases small : value < 128
  · rw [writeVarint_last small]
    exact cons_ne_nil _ _
  · rw [writeVarint_more (by omega)]
    exact cons_ne_nil _ _

theorem length_writeVarint_le {count : Nat} (fits : value < 128 ^ (count + 1)) :
    (writeVarint value).length ≤ count + 1 := by
  induction count generalizing value with
  | zero =>
    rw [writeVarint_last (by omega)]
    rfl
  | succ count ih =>
    by_cases small : value < 128
    · rw [writeVarint_last small, length_singleton]
      omega
    · rw [writeVarint_more (by omega), length_cons]
      apply Nat.succ_le_succ
      apply ih
      rw [Nat.div_lt_iff_lt_mul (by decide), ← Nat.pow_succ]
      exact fits

theorem cons_eq_writeVarint_iff {others rest : List UInt8} :
    piece :: others = writeVarint value ++ rest ↔
      (value < 128 ∧ piece.toNat = value ∧ others = rest) ∨
        (128 ≤ value ∧ piece.toNat = value % 128 + 128 ∧
          others = writeVarint (value / 128) ++ rest) := by
  by_cases small : value < 128
  · have same : piece = ofNat value ↔ piece.toNat = value := by
      rw [← toNat_inj, UInt8.toNat_ofNat', Nat.mod_eq_of_lt (by omega)]
    have notLarge : ¬128 ≤ value := by omega
    rw [writeVarint_last small, singleton_append, List.cons.injEq, same]
    simp only [small, notLarge, true_and, false_and, or_false]
  · have large : 128 ≤ value := by omega
    have same : piece = ofNat (value ||| 0x80) ↔ piece.toNat = value % 128 + 128 := by
      rw [← toNat_inj, continued]
    rw [writeVarint_more large, cons_append, List.cons.injEq, same]
    simp only [small, large, true_and, false_and, false_or]

section
variable (low : temp < 2 ^ shift) (room : shift < width)
include low room

theorem readVarintFrom_last (last : piece.toNat < 128) (others rest : List UInt8) (value : Nat) :
    readVarintFrom width shift temp (piece :: others) = some (value, rest) ↔
      (piece.toNat < 2 ^ (width - shift) ∧ (shift ≠ 0 → piece.toNat ≠ 0)) ∧
        value = temp + piece.toNat * 2 ^ shift ∧ others = rest := by
  have scaled : 2 ^ (width - shift) * 2 ^ shift = 2 ^ width := by
    rw [← pow_add, Nat.sub_add_cancel room.le]
  unfold readVarintFrom
  by_cases fits : piece.toNat < 2 ^ (width - shift)
  · have accepted : ¬(shift ≥ width - 7 ∧ piece.toNat ≥ 1 <<< (width - shift)) :=
      (accepted_iff room piece).mpr ⟨fun _ => fits, fun large => absurd last (by omega)⟩
    have bits : ((piece.toNat &&& 0x7f) <<< shift) % 2 ^ width = piece.toNat <<< shift := by
      rw [low_bits, mod_eq_of_lt last, shiftLeft_eq]
      apply mod_eq_of_lt
      rw [← scaled]
      exact Nat.mul_lt_mul_of_pos_right fits (Nat.two_pow_pos shift)
    have zero : piece = 0 ↔ piece.toNat = 0 := UInt8.toNat_inj.symm
    simp only [if_neg accepted, if_pos (high_bit.mpr last), bits, merged low, zero]
    by_cases padded : piece.toNat = 0 ∧ shift ≠ 0
    · rw [if_pos padded]
      constructor
      · intro ran
        cases ran
      · rintro ⟨⟨-, notPadded⟩, -⟩
        exact absurd padded.1 (notPadded padded.2)
    · rw [if_neg padded, Option.some.injEq, Prod.mk.injEq]
      have notPadded : shift ≠ 0 → piece.toNat ≠ 0 := fun shifted isZero => padded ⟨isZero, shifted⟩
      constructor
      · rintro ⟨rfl, rfl⟩
        exact ⟨⟨fits, notPadded⟩, rfl, rfl⟩
      · rintro ⟨-, rfl, rfl⟩
        exact ⟨rfl, rfl⟩
  · have refused : shift ≥ width - 7 ∧ piece.toNat ≥ 1 <<< (width - shift) := by
      apply Classical.byContradiction
      intro accepted
      exact fits (((accepted_iff room piece).mp accepted).1 last)
    rw [if_pos refused]
    constructor
    · intro ran
      cases ran
    · rintro ⟨⟨fits', -⟩, -⟩
      exact absurd fits' fits

theorem readVarintFrom_more (more : 128 ≤ piece.toNat) (others : List UInt8) :
    readVarintFrom width shift temp (piece :: others)
      = if shift + 7 < width then
          readVarintFrom width (shift + 7) (temp + piece.toNat % 128 * 2 ^ shift) others
        else none := by
  have notLast : ¬piece.toNat < 128 := by omega
  have notHigh : ¬piece.toNat &&& 0x80 = 0 := mt high_bit.mp notLast
  conv => lhs; unfold readVarintFrom
  by_cases goesOn : shift + 7 < width
  · have accepted : ¬(shift ≥ width - 7 ∧ piece.toNat ≥ 1 <<< (width - shift)) :=
      (accepted_iff room piece).mpr ⟨fun last => absurd last notLast, fun _ => goesOn⟩
    have bits : ((piece.toNat &&& 0x7f) <<< shift) % 2 ^ width
        = (piece.toNat % 128) <<< shift := by
      rw [low_bits, shiftLeft_eq]
      apply mod_eq_of_lt
      calc piece.toNat % 128 * 2 ^ shift < 2 ^ 7 * 2 ^ shift :=
            Nat.mul_lt_mul_of_pos_right (Nat.mod_lt _ (by decide)) (Nat.two_pow_pos shift)
        _ = 2 ^ (7 + shift) := (pow_add 2 7 shift).symm
        _ ≤ 2 ^ width := Nat.pow_le_pow_right (by decide) (by omega)
    simp only [if_neg accepted, if_neg notHigh, if_pos goesOn, bits, merged low]
  · have refused : shift ≥ width - 7 ∧ piece.toNat ≥ 1 <<< (width - shift) := by
      apply Classical.byContradiction
      intro accepted
      exact goesOn (((accepted_iff room piece).mp accepted).2 more)
    rw [if_pos refused, if_neg goesOn]

theorem readVarintFrom_iff (bytes rest : List UInt8) (value : Nat) :
    readVarintFrom width shift temp bytes = some (value, rest) ↔
      ∃ high, value = temp + high * 2 ^ shift ∧ high < 2 ^ (width - shift) ∧
        (shift ≠ 0 → high ≠ 0) ∧ bytes = writeVarint high ++ rest := by
  induction bytes generalizing shift temp with
  | nil =>
    constructor
    · intro ran
      cases ran
    · rintro ⟨high, -, -, -, isWritten⟩
      exact absurd (append_eq_nil_iff.mp isWritten.symm).1 (writeVarint_ne_nil high)
  | cons piece others ih =>
    simp only [cons_eq_writeVarint_iff]
    by_cases last : piece.toNat < 128
    · rw [readVarintFrom_last low room last]
      constructor
      · rintro ⟨⟨fits, notPadded⟩, isValue, isRest⟩
        exact ⟨piece.toNat, isValue, fits, notPadded, .inl ⟨last, rfl, isRest⟩⟩
      · rintro ⟨high, isValue, fits, notPadded, (⟨-, isHigh, isRest⟩ | ⟨-, isPiece, -⟩)⟩
        · rw [isHigh]
          exact ⟨⟨fits, notPadded⟩, isValue, isRest⟩
        · omega
    · have more : 128 ≤ piece.toNat := by omega
      have bound := piece.toNat_lt
      rw [readVarintFrom_more low room more]
      have shifted : 2 ^ (shift + 7) = 128 * 2 ^ shift := by rw [pow_add, mul_comm]; rfl
      have low' : temp + piece.toNat % 128 * 2 ^ shift < 2 ^ (shift + 7) := by
        have bound : piece.toNat % 128 ≤ 127 := by omega
        have scaled := mul_le_mul_right (2 ^ shift) bound
        omega
      by_cases goesOn : shift + 7 < width
      · have widths : 2 ^ (width - shift) = 128 * 2 ^ (width - (shift + 7)) := by
          have split : width - shift = 7 + (width - (shift + 7)) := by omega
          rw [split, pow_add]
          rfl
        rw [if_pos goesOn, ih low' goesOn]
        constructor
        · rintro ⟨high, rfl, fits, notZero, isRest⟩
          refine ⟨piece.toNat % 128 + 128 * high, ?_, by omega, by omega, .inr ?_⟩
          · ring
          · refine ⟨by omega, by omega, ?_⟩
            have above : (piece.toNat % 128 + 128 * high) / 128 = high := by omega
            rw [above, isRest]
        · rintro ⟨high, isValue, fits, -, (⟨small, isHigh, -⟩ | ⟨large, isPiece, isRest⟩)⟩
          · omega
          · refine ⟨high / 128, ?_, by omega, by omega, isRest⟩
            have digits : high = piece.toNat % 128 + 128 * (high / 128) := by omega
            rw [isValue, shifted]
            conv => lhs; rw [digits]
            ring
      · rw [if_neg goesOn]
        constructor
        · intro ran
          cases ran
        · rintro ⟨high, -, fits, -, (⟨small, isHigh, -⟩ | ⟨large, -, -⟩)⟩
          · omega
          · have small : 2 ^ (width - shift) ≤ 2 ^ 7 :=
              Nat.pow_le_pow_right (by decide) (by omega)
            omega

end

theorem canonical_varint (positive : 0 < width) :
    Canonical (readVarint width) writeVarint (fun value => value < 2 ^ width) := by
  intro bytes value rest
  change readVarintFrom width 0 0 bytes = some (value, rest) ↔ _
  rw [readVarintFrom_iff (Nat.two_pow_pos 0) positive]
  constructor
  · rintro ⟨high, isValue, fits, -, isWritten⟩
    have same : value = high := by omega
    rw [same]
    exact ⟨fits, isWritten⟩
  · rintro ⟨fits, isWritten⟩
    exact ⟨value, by omega, fits, fun shifted => absurd rfl shifted, isWritten⟩

def readVarint8 : ByteReader UInt8 := do
  let value ← readVarint 8
  pure (ofNat value)

def readVarint32 : ByteReader UInt32 := do
  let value ← readVarint 32
  pure (UInt32.ofNat value)

def readVarint64 : ByteReader UInt64 := do
  let value ← readVarint 64
  pure (UInt64.ofNat value)

theorem canonical_varint8 :
    Canonical readVarint8 (fun value => writeVarint value.toNat) (fun _ => True) := by
  have canonical := (canonical_varint (by decide : 0 < 8)).map
    (fun value fits => UInt8.toNat_ofNat_of_lt' fits) (fun result => UInt8.ofNat_toNat)
  intro bytes value rest
  rw [readVarint8, canonical]
  simp only [value.toNat_lt, true_and]

theorem canonical_varint32 :
    Canonical readVarint32 (fun value => writeVarint value.toNat) (fun _ => True) := by
  have canonical := (canonical_varint (by decide : 0 < 32)).map
    (fun value fits => UInt32.toNat_ofNat_of_lt' fits) (fun result => UInt32.ofNat_toNat)
  intro bytes value rest
  rw [readVarint32, canonical]
  simp only [value.toNat_lt, true_and]

theorem canonical_varint64 :
    Canonical readVarint64 (fun value => writeVarint value.toNat) (fun _ => True) := by
  have canonical := (canonical_varint (by decide : 0 < 64)).map
    (fun value fits => UInt64.toNat_ofNat_of_lt' fits) (fun result => UInt64.ofNat_toNat)
  intro bytes value rest
  rw [readVarint64, canonical]
  simp only [value.toNat_lt, true_and]

def readHash : ByteReader Hash := do
  let value ← word 32
  pure { value := value }

def writeHash (hash : Hash) : List UInt8 := littleEndian 32 hash.value.toNat

theorem canonical_hash : Canonical readHash writeHash (fun _ => True) :=
  (canonical_word 32).map (fun _ _ => rfl) (fun _ => rfl)

def readPublicKey : ByteReader PublicKey := do
  let value ← word 32
  pure { value := value }

def writePublicKey (key : PublicKey) : List UInt8 := littleEndian 32 key.value.toNat

theorem canonical_publicKey : Canonical readPublicKey writePublicKey (fun _ => True) :=
  (canonical_word 32).map (fun _ _ => rfl) (fun _ => rfl)

def readKeyImage : ByteReader KeyImage := do
  let value ← word 32
  pure { value := value }

def writeKeyImage (keyImage : KeyImage) : List UInt8 := littleEndian 32 keyImage.value.toNat

theorem canonical_keyImage : Canonical readKeyImage writeKeyImage (fun _ => True) :=
  (canonical_word 32).map (fun _ _ => rfl) (fun _ => rfl)

def readSignature : ByteReader Signature := do
  let value ← word 64
  pure { value := value }

def writeSignature (signature : Signature) : List UInt8 :=
  littleEndian 64 signature.value.toNat

theorem canonical_signature : Canonical readSignature writeSignature (fun _ => True) :=
  (canonical_word 64).map (fun _ _ => rfl) (fun _ => rfl)

/-- `serializeContainer` on input: the size, then the items. -/
def readContainer {α : Type} (read : ByteReader α) : ByteReader (List α) := do
  let size ← readVarint 64
  times read size

/-- `serializeContainer` on output; the size of a container is a 64-bit number. -/
def writeContainer {α : Type} (write : α → List UInt8) (values : List α) : List UInt8 :=
  writeVarint (values.length % 2 ^ 64) ++ values.flatMap write

theorem canonical_container {α : Type} {read : ByteReader α} {write : α → List UInt8}
    {valid : α → Prop} (canonical : Canonical read write valid) :
    Canonical (readContainer read) (writeContainer write)
      (fun values => values.length < 2 ^ 64 ∧ ∀ value ∈ values, valid value) := by
  intro bytes values rest
  simp only [readContainer, run_bind_iff, canonical_varint (by decide : 0 < 64) _ _ _,
    canonical.times _ _ _ _]
  constructor
  · rintro ⟨size, _, ⟨fits, rfl⟩, ⟨length, allValid⟩, rfl⟩
    subst length
    refine ⟨⟨fits, allValid⟩, ?_⟩
    rw [writeContainer, mod_eq_of_lt fits, append_assoc]
  · rintro ⟨⟨fits, allValid⟩, rfl⟩
    rw [writeContainer, mod_eq_of_lt fits, append_assoc]
    exact ⟨values.length, _, ⟨fits, rfl⟩, ⟨rfl, allValid⟩, rfl⟩

theorem canonical_string :
    Canonical (readContainer byte) (writeContainer fun value => [value])
      (fun values => values.length < 2 ^ 64) := by
  intro bytes values rest
  rw [canonical_container canonical_byte]
  simp only [implies_true, and_true]

end Mevacoin
