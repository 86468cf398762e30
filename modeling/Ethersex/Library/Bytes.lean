import Mathlib

/-!
# Byte-addressed memories

Memories of a fixed number of bytes whose addresses wrap at the end, reading and
writing runs of bytes in them, and the little-endian encodings of numbers.  A
memory is a function of the address, so that a run of bytes that was read is again
a function of its index.
-/

namespace Ethersex.Library

/-- The contents of a memory, or a run of bytes. -/
abbrev Bytes := Nat → UInt8

/-- The bytes from an offset on, wrapping at the end of the memory. -/
def readFrom (size offset : Nat) (memory : Bytes) : Bytes :=
  fun k => memory ((offset + k) % size)

/-- The first `count` bytes of `data` written to an offset, wrapping at the end of
the memory.  At most the whole memory is written. -/
def overlay (size offset count : Nat) (data memory : Bytes) : Bytes :=
  fun k =>
    let index := (k + size - offset % size) % size
    if k < size ∧ index < count then data index else memory k

/-- Two runs agree on their first `count` bytes. -/
def AgreeTo (count : Nat) (left right : Bytes) : Prop := ∀ k < count, left k = right k

theorem AgreeTo.refl (count : Nat) (data : Bytes) : AgreeTo count data data := fun _ _ => rfl

theorem AgreeTo.symm {count : Nat} {left right : Bytes} (agree : AgreeTo count left right) :
    AgreeTo count right left := fun k small => (agree k small).symm

theorem AgreeTo.trans {count : Nat} {first second third : Bytes}
    (left : AgreeTo count first second) (right : AgreeTo count second third) :
    AgreeTo count first third := fun k small => (left k small).trans (right k small)

theorem AgreeTo.mono {count larger : Nat} {left right : Bytes} (agree : AgreeTo larger left right)
    (small : count ≤ larger) : AgreeTo count left right :=
  fun k inside => agree k (lt_of_lt_of_le inside small)

section Memory

variable {size offset count : Nat} {data memory : Bytes}

theorem readFrom_apply {k : Nat} (fits : offset + k < size) :
    readFrom size offset memory k = memory (offset + k) := by
  rw [readFrom, Nat.mod_eq_of_lt fits]

/-- A write that ends inside the memory. -/
theorem overlay_apply (fits : offset + count ≤ size) (k : Nat) :
    overlay size offset count data memory k =
      if offset ≤ k ∧ k < offset + count then data (k - offset) else memory k := by
  simp only [overlay]
  rcases Nat.lt_or_ge offset size with inside | outside
  · rw [Nat.mod_eq_of_lt inside]
    by_cases hit : offset ≤ k ∧ k < offset + count
    · have index : (k + size - offset) % size = k - offset := by
        rw [show k + size - offset = k - offset + size by omega, Nat.add_mod_right,
          Nat.mod_eq_of_lt (by omega)]
      rw [if_pos hit, index, if_pos ⟨by omega, by omega⟩]
    · rw [if_neg hit, if_neg]
      rintro ⟨small, covered⟩
      rcases Nat.lt_or_ge k offset with before | after
      · rw [Nat.mod_eq_of_lt (by omega)] at covered
        omega
      · rw [show k + size - offset = k - offset + size by omega, Nat.add_mod_right,
          Nat.mod_eq_of_lt (by omega)] at covered
        omega
  · have none : count = 0 := by omega
    rw [if_neg (by omega), if_neg (by omega)]

theorem overlay_of_lt (fits : offset + count ≤ size) {k : Nat} (before : k < offset) :
    overlay size offset count data memory k = memory k := by
  rw [overlay_apply fits, if_neg (by omega)]

theorem overlay_of_ge (fits : offset + count ≤ size) {k : Nat} (after : offset + count ≤ k) :
    overlay size offset count data memory k = memory k := by
  rw [overlay_apply fits, if_neg (by omega)]

theorem overlay_add (fits : offset + count ≤ size) {k : Nat} (inside : k < count) :
    overlay size offset count data memory (offset + k) = data k := by
  rw [overlay_apply fits, if_pos (by omega), Nat.add_sub_cancel_left]

/-- Reading what was written. -/
theorem readFrom_overlay (fits : offset + count ≤ size) :
    AgreeTo count (readFrom size offset (overlay size offset count data memory)) data := by
  intro k inside
  rw [readFrom_apply (by omega), overlay_add fits inside]

/-- Reading next to what was written. -/
theorem readFrom_overlay_of_disjoint {start length : Nat} (fits : offset + count ≤ size)
    (inside : start + length ≤ size) (apart : start + length ≤ offset ∨ offset + count ≤ start) :
    AgreeTo length (readFrom size start (overlay size offset count data memory))
      (readFrom size start memory) := by
  intro k small
  rw [readFrom_apply (by omega), readFrom_apply (by omega), overlay_apply fits,
    if_neg (by omega)]

end Memory

/-! ## Little-endian numbers -/

/-- A 16-bit number. -/
def encode16 (value : Nat) : Bytes
  | 0 => UInt8.ofNat value
  | _ => UInt8.ofNat (value / 256)

def decode16 (data : Bytes) : Nat := (data 0).toNat + 256 * (data 1).toNat

theorem decode16_lt (data : Bytes) : decode16 data < 65536 := by
  have := (data 0).toNat_lt
  have := (data 1).toNat_lt
  rw [decode16]
  omega

theorem decode16_encode16 {value : Nat} (small : value < 65536) :
    decode16 (encode16 value) = value := by
  simp only [decode16, encode16, UInt8.toNat_ofNat']
  omega

theorem decode16_congr {left right : Bytes} (agree : AgreeTo 2 left right) :
    decode16 left = decode16 right := by
  rw [decode16, decode16, agree 0 (by decide), agree 1 (by decide)]

/-- A 32-bit number. -/
def encode32 (value : Nat) : Bytes
  | 0 => UInt8.ofNat value
  | 1 => UInt8.ofNat (value / 256)
  | 2 => UInt8.ofNat (value / 65536)
  | _ => UInt8.ofNat (value / 16777216)

def decode32 (data : Bytes) : Nat :=
  (data 0).toNat + 256 * (data 1).toNat + 65536 * (data 2).toNat + 16777216 * (data 3).toNat

theorem decode32_encode32 {value : Nat} (small : value < 4294967296) :
    decode32 (encode32 value) = value := by
  simp only [decode32, encode32, UInt8.toNat_ofNat']
  omega

theorem decode32_congr {left right : Bytes} (agree : AgreeTo 4 left right) :
    decode32 left = decode32 right := by
  rw [decode32, decode32, agree 0 (by decide), agree 1 (by decide), agree 2 (by decide),
    agree 3 (by decide)]

/-- Four flags in the low bits and a 12-bit number above them, in two bytes. -/
structure FlagWord where
  flags : Fin 4 → Bool
  value : Fin 4096

namespace FlagWord

/-! The numerals of the four flags. -/

scoped instance neZero_flags : NeZero 4 := ⟨by decide⟩

@[ext] theorem ext {left right : FlagWord} (flags : ∀ i, left.flags i = right.flags i)
    (value : left.value = right.value) : left = right := by
  cases left
  cases right
  simp only [mk.injEq]
  exact ⟨funext flags, value⟩

def encode (word : FlagWord) : Bytes
  | 0 => UInt8.ofNat ((word.flags 0).toNat + 2 * (word.flags 1).toNat + 4 * (word.flags 2).toNat +
      8 * (word.flags 3).toNat + 16 * (word.value % 16))
  | _ => UInt8.ofNat (word.value / 16)

def decode (data : Bytes) : FlagWord where
  flags i := decide ((data 0).toNat / 2 ^ i.val % 2 = 1)
  value := ⟨(data 0).toNat / 16 + 16 * (data 1).toNat, by
    have := (data 0).toNat_lt
    have := (data 1).toNat_lt
    omega⟩

theorem decode_encode (word : FlagWord) : decode word.encode = word := by
  obtain ⟨flags, value⟩ := word
  have bound := value.isLt
  have low : (encode ⟨flags, value⟩ 0).toNat = (flags 0).toNat + 2 * (flags 1).toNat +
      4 * (flags 2).toNat + 8 * (flags 3).toNat + 16 * (value % 16) := by
    have := (flags 0).toNat_lt
    have := (flags 1).toNat_lt
    have := (flags 2).toNat_lt
    have := (flags 3).toNat_lt
    simp only [encode]
    rw [UInt8.toNat_ofNat_of_lt']
    change _ < 256
    omega
  have high : (encode ⟨flags, value⟩ 1).toNat = value / 16 := by
    simp only [encode]
    rw [UInt8.toNat_ofNat_of_lt']
    change _ < 256
    omega
  have bit (b : Bool) : b.toNat = 0 ∧ b = false ∨ b.toNat = 1 ∧ b = true := by
    cases b <;> simp
  ext i
  · simp only [decode, low]
    have := bit (flags 0)
    have := bit (flags 1)
    have := bit (flags 2)
    have := bit (flags 3)
    rw [Bool.eq_iff_iff, decide_eq_true_iff]
    fin_cases i <;> simp <;> grind
  · simp only [decode, low, high]
    have := (flags 0).toNat_lt
    have := (flags 1).toNat_lt
    have := (flags 2).toNat_lt
    have := (flags 3).toNat_lt
    omega

theorem decode_congr {left right : Bytes} (agree : AgreeTo 2 left right) :
    decode left = decode right := by
  rw [decode, decode]
  simp only [agree 0 (by decide), agree 1 (by decide)]

end FlagWord

end Ethersex.Library

/-!
## Words of 32 bits in memory

A little-endian machine keeps a word as four bytes, the least significant one first.
-/

namespace Ethersex.Library

/-- The word that four bytes are. -/
def wordOf (first second third fourth : UInt8) : UInt32 :=
  UInt32.ofNat (first.toNat + 256 * second.toNat + 65536 * third.toNat + 16777216 * fourth.toNat)

/-- A byte of a word. -/
def byteOf (w : UInt32) (k : Nat) : UInt8 := UInt8.ofNat (w.toNat / 256 ^ k)

theorem byteOf_wordOf (first second third fourth : UInt8) :
    byteOf (wordOf first second third fourth) 0 = first ∧ byteOf (wordOf first second third fourth) 1 = second ∧
      byteOf (wordOf first second third fourth) 2 = third ∧ byteOf (wordOf first second third fourth) 3 = fourth := by
  have one := first.toNat_lt
  have two := second.toNat_lt
  have three := third.toNat_lt
  have four := fourth.toNat_lt
  have whole : (wordOf first second third fourth).toNat =
      first.toNat + 256 * second.toNat + 65536 * third.toNat + 16777216 * fourth.toNat := by
    rw [wordOf, UInt32.toNat_ofNat', Nat.mod_eq_of_lt (by omega)]
  simp only [← UInt8.toNat_inj, byteOf, whole, UInt8.toNat_ofNat']
  refine ⟨?_, ?_, ?_, ?_⟩ <;> omega

theorem wordOf_byteOf (w : UInt32) : wordOf (byteOf w 0) (byteOf w 1) (byteOf w 2) (byteOf w 3) = w := by
  have bound := w.toNat_lt
  rw [← UInt32.toNat_inj, wordOf, UInt32.toNat_ofNat']
  simp only [byteOf, UInt8.toNat_ofNat']
  omega

end Ethersex.Library
