/-
Readers of byte strings. A reader consumes the front of what it is given; it is
canonical for a way of writing when it accepts exactly the written forms of the
valid values, whatever follows them.
-/

import Mathlib.Data.List.Forall2
import Mathlib.Tactic.Ring

/-- A reader gives the value it has read and the bytes it has left. -/
abbrev ByteReader := StateT (List UInt8) Option

namespace ByteReader
open List

variable {bytes rest : List UInt8}

variable {α β : Type}

theorem run_bind_iff {read : ByteReader α} {next : α → ByteReader β} {result : β} :
    (read >>= next).run bytes = some (result, rest) ↔
      ∃ value middle, read.run bytes = some (value, middle) ∧
        (next value).run middle = some (result, rest) := by
  constructor
  · intro ran
    obtain ⟨⟨value, middle⟩, first, second⟩ := Option.bind_eq_some_iff.mp ran
    exact ⟨value, middle, first, second⟩
  · rintro ⟨value, middle, first, second⟩
    exact Option.bind_eq_some_iff.mpr ⟨(value, middle), first, second⟩

theorem run_pure_iff {value result : α} :
    (pure value : ByteReader α).run bytes = some (result, rest) ↔ value = result ∧ bytes = rest := by
  constructor
  · intro same
    cases same
    exact ⟨rfl, rfl⟩
  · rintro ⟨rfl, rfl⟩
    rfl

def check (condition : Prop) [Decidable condition] : ByteReader Unit :=
  if condition then pure () else failure

theorem run_check_iff {condition : Prop} [Decidable condition] {result : Unit} :
    (check condition).run bytes = some (result, rest) ↔ condition ∧ bytes = rest := by
  unfold check
  split
  · rename_i holds
    simp only [run_pure_iff, holds, true_and]
  · rename_i fails
    constructor
    · intro ran
      cases ran
    · intro both
      exact absurd both.1 fails

/-- The reader accepts exactly the written forms of the valid values. -/
def Canonical (read : ByteReader α) (write : α → List UInt8) (valid : α → Prop) : Prop :=
  ∀ bytes value rest, read.run bytes = some (value, rest) ↔
    valid value ∧ bytes = write value ++ rest

def all (read : ByteReader α) (bytes : List UInt8) : Option α :=
  match read.run bytes with
  | some (value, []) => some value
  | _ => none

theorem all_eq_some_iff {read : ByteReader α} {value : α} :
    read.all bytes = some value ↔ read.run bytes = some (value, []) := by
  unfold all
  constructor
  · intro accepted
    split at accepted
    · rename_i isRead
      cases accepted
      exact isRead
    · cases accepted
  · intro ran
    rw [ran]

namespace Canonical
variable {read : ByteReader α} {write : α → List UInt8} {valid : α → Prop}

theorem all_eq_some (canonical : Canonical read write valid) {value : α} :
    read.all bytes = some value ↔ valid value ∧ bytes = write value := by
  rw [all_eq_some_iff, canonical, append_nil]

theorem map (canonical : Canonical read write valid) {wrap : α → β} {unwrap : β → α}
    (unwrap_wrap : ∀ value, valid value → unwrap (wrap value) = value)
    (wrap_unwrap : ∀ result, wrap (unwrap result) = result) :
    Canonical (do
      let value ← read
      pure (wrap value)) (fun result => write (unwrap result)) (fun result => valid (unwrap result)) := by
  intro bytes result rest
  rw [run_bind_iff]
  constructor
  · rintro ⟨value, middle, isRead, isResult⟩
    obtain ⟨isValid, rfl⟩ := (canonical _ _ _).mp isRead
    obtain ⟨rfl, rfl⟩ := run_pure_iff.mp isResult
    simp only [unwrap_wrap value isValid, and_true]
    exact isValid
  · rintro ⟨isValid, rfl⟩
    refine ⟨unwrap result, rest, (canonical _ _ _).mpr ⟨isValid, rfl⟩, ?_⟩
    exact run_pure_iff.mpr ⟨wrap_unwrap result, rfl⟩

end Canonical

/-! ### Bytes -/

def byte : ByteReader UInt8 := fun bytes =>
  match bytes with
  | [] => none
  | first :: rest => some (first, rest)

theorem canonical_byte : Canonical byte (fun value => [value]) (fun _ => True) := by
  intro bytes value rest
  cases bytes with
  | nil =>
    constructor
    · intro ran
      cases ran
    · rintro ⟨-, impossible⟩
      cases impossible
  | cons first others =>
    constructor
    · intro ran
      cases ran
      exact ⟨trivial, rfl⟩
    · rintro ⟨-, same⟩
      cases same
      rfl

def times (read : ByteReader α) : Nat → ByteReader (List α)
  | 0 => pure []
  | count + 1 => do
      let first ← read
      let others ← times read count
      pure (first :: others)

theorem Canonical.times {read : ByteReader α} {write : α → List UInt8} {valid : α → Prop}
    (canonical : Canonical read write valid) (count : Nat) :
    Canonical (times read count) (fun values => values.flatMap write)
      (fun values => values.length = count ∧ ∀ value ∈ values, valid value) := by
  induction count with
  | zero =>
    intro bytes values rest
    unfold ByteReader.times
    rw [run_pure_iff]
    constructor
    · rintro ⟨rfl, rfl⟩
      exact ⟨⟨rfl, fun _ impossible => absurd impossible not_mem_nil⟩, rfl⟩
    · rintro ⟨⟨empty, -⟩, rfl⟩
      rw [length_eq_zero_iff.mp empty]
      exact ⟨rfl, rfl⟩
  | succ count ih =>
    intro bytes values rest
    simp only [ByteReader.times, run_bind_iff, canonical _ _ _, ih _ _ _, run_pure_iff]
    constructor
    · rintro ⟨first, _, ⟨firstValid, rfl⟩, others, _, ⟨⟨length, othersValid⟩, rfl⟩, rfl, rfl⟩
      refine ⟨⟨by rw [length_cons, length], ?_⟩, ?_⟩
      · exact forall_mem_cons.mpr ⟨firstValid, othersValid⟩
      · rw [flatMap_cons, append_assoc]
    · rintro ⟨⟨length, allValid⟩, rfl⟩
      cases values with
      | nil => cases length
      | cons first others =>
        obtain ⟨firstValid, othersValid⟩ := forall_mem_cons.mp allValid
        rw [flatMap_cons, append_assoc]
        exact ⟨first, _, ⟨firstValid, rfl⟩, others, _,
          ⟨⟨Nat.succ.inj length, othersValid⟩, rfl⟩, rfl, rfl⟩

theorem canonical_bytes (count : Nat) :
    Canonical (times byte count) (fun values => values) (fun values => values.length = count) := by
  intro bytes values rest
  rw [canonical_byte.times count]
  simp only [flatMap_singleton', implies_true, and_true]

/-! ### Numbers of fixed size -/

def littleEndian : Nat → Nat → List UInt8
  | 0, _ => []
  | size + 1, value => UInt8.ofNat value :: littleEndian size (value / 256)

def ofLittleEndian : List UInt8 → Nat
  | [] => 0
  | first :: rest => first.toNat + 256 * ofLittleEndian rest

@[simp] theorem littleEndian_length (size value : Nat) : (littleEndian size value).length = size := by
  induction size generalizing value with
  | zero => rfl
  | succ size ih => rw [littleEndian, length_cons, ih]

theorem littleEndian_ofLittleEndian (bytes : List UInt8) :
    littleEndian bytes.length (ofLittleEndian bytes) = bytes := by
  induction bytes with
  | nil => rfl
  | cons first rest ih =>
    have bound := first.toNat_lt
    have low : UInt8.ofNat (first.toNat + 256 * ofLittleEndian rest) = first := by
      rw [← UInt8.toNat_inj, UInt8.toNat_ofNat']
      omega
    have high : (first.toNat + 256 * ofLittleEndian rest) / 256 = ofLittleEndian rest := by
      omega
    rw [ofLittleEndian, length_cons, littleEndian, low, high, ih]

theorem ofLittleEndian_littleEndian {size value : Nat} (fits : value < 256 ^ size) :
    ofLittleEndian (littleEndian size value) = value := by
  induction size generalizing value with
  | zero =>
    rw [littleEndian, ofLittleEndian]
    omega
  | succ size ih =>
    have smaller : value / 256 < 256 ^ size := by
      apply Nat.div_lt_of_lt_mul
      rw [← pow_succ']
      exact fits
    rw [littleEndian, ofLittleEndian, ih smaller, UInt8.toNat_ofNat']
    omega

theorem ofLittleEndian_lt (bytes : List UInt8) : ofLittleEndian bytes < 256 ^ bytes.length := by
  induction bytes with
  | nil => decide
  | cons first rest ih =>
    have bound := first.toNat_lt
    rw [ofLittleEndian, length_cons, pow_succ]
    omega

def word (size : Nat) : ByteReader (BitVec (8 * size)) := do
  let bytes ← times byte size
  pure (BitVec.ofNat (8 * size) (ofLittleEndian bytes))

theorem canonical_word (size : Nat) :
    Canonical (word size) (fun value => littleEndian size value.toNat) (fun _ => True) := by
  have power : 256 ^ size = 2 ^ (8 * size) := by
    rw [pow_mul]
    rfl
  intro bytes value rest
  simp only [word, run_bind_iff, canonical_bytes size _ _ _, run_pure_iff, true_and]
  constructor
  · rintro ⟨values, _, ⟨length, rfl⟩, rfl, rfl⟩
    have bound := ofLittleEndian_lt values
    rw [length, power] at bound
    rw [BitVec.toNat_ofNat, Nat.mod_eq_of_lt bound, ← length, littleEndian_ofLittleEndian]
  · rintro rfl
    refine ⟨_, _, ⟨littleEndian_length size value.toNat, rfl⟩, ?_, rfl⟩
    have fits : value.toNat < 256 ^ size := by
      rw [power]
      exact value.isLt
    rw [ofLittleEndian_littleEndian fits, BitVec.ofNat_toNat, BitVec.setWidth_eq]

end ByteReader
