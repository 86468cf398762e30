import Mathlib
import Ethersex.Library.Biphase

/-!
# The FS20 sender and receiver

The sender drives the `FS20_SEND` pin and waits between the changes.  The receiver is told of every
change of its input, with the time since the change before, and takes two pulses of one kind
together as a bit.
-/

namespace Ethersex.Fs20

def FS20_DATAGRAM_LENGTH : UInt8 := 58

def FS20_QUEUE_LENGTH : Nat := 5

/-- `parity_even_bit`: one if an odd number of bits is set. -/
def parityEvenBit (val : UInt8) : UInt8 :=
  (List.range 8).foldl (fun parity i => parity ^^^ (val >>> UInt8.ofNat i &&& 1)) 0

/-! ## The sender -/

/-- The times that the sender waits. -/
inductive Delay where
  | zero
  | one
  | cmd
deriving DecidableEq

/-- What the sender does to the pin. -/
inductive Action where
  | set
  | clear
  | wait (delay : Delay)
deriving DecidableEq

def fs20SendZero : List Action := [.set, .wait .zero, .clear, .wait .zero]

def fs20SendOne : List Action := [.set, .wait .one, .clear, .wait .one]

def fs20SendSync : List Action := (List.replicate 12 fs20SendZero).flatten ++ fs20SendOne

def fs20SendBit (bit : UInt8) : List Action := if bit > 0 then fs20SendOne else fs20SendZero

def fs20SendByte (byte : UInt8) : List Action :=
  ([7, 6, 5, 4, 3, 2, 1, 0] : List UInt8).flatMap (fun i => fs20SendBit (byte &&& (1 : UInt8) <<< i)) ++
    fs20SendBit (parityEvenBit byte)

/-- One of the repetitions of a datagram. -/
def fs20SendOnce (housecode : UInt16) (address command : UInt8) : List Action :=
  let hi := (housecode >>> 8).toUInt8
  let lo := housecode.toUInt8
  let sum := 6 + hi + lo + address + command
  fs20SendSync ++ fs20SendByte hi ++ fs20SendByte lo ++ fs20SendByte address ++
    fs20SendByte command ++ fs20SendByte sum ++ fs20SendZero ++ [.wait .cmd]

def fs20Send (housecode : UInt16) (address command : UInt8) : List Action :=
  (List.replicate 3 (fs20SendOnce housecode address command)).flatten

/-- The waits before each change of the pin, since the change before. -/
def intervals : List Delay → List Action → List (List Delay)
  | _, [] => []
  | waits, .wait delay :: rest => intervals (waits ++ [delay]) rest
  | waits, _ :: rest => waits :: intervals [] rest

/-! ## The receiver -/

def FS20_PULSE_ZERO (x : UInt8) : Prop := 33 ≤ x.toNat ∧ x.toNat ≤ 73

def FS20_PULSE_ONE (x : UInt8) : Prop := 74 ≤ x.toNat ∧ x.toNat ≤ 105

def FS20_PULSE_DIFFERENCE (x y : UInt8) : Prop :=
  (x.toNat : Int) - y.toNat ≤ 68 ∧ (y.toNat : Int) - x.toNat ≤ 68

instance (x : UInt8) : Decidable (FS20_PULSE_ZERO x) :=
  inferInstanceAs (Decidable (33 ≤ x.toNat ∧ x.toNat ≤ 73))

instance (x : UInt8) : Decidable (FS20_PULSE_ONE x) :=
  inferInstanceAs (Decidable (74 ≤ x.toNat ∧ x.toNat ≤ 105))

instance (x y : UInt8) : Decidable (FS20_PULSE_DIFFERENCE x y) :=
  inferInstanceAs (Decidable ((x.toNat : Int) - y.toNat ≤ 68 ∧ (y.toNat : Int) - x.toNat ≤ 68))

/-- `struct fs20_datagram_t`: bit fields from the least significant bit of `raw` on. -/
structure Fs20Datagram where
  raw : UInt64
deriving DecidableEq

namespace Fs20Datagram

def p5 (dg : Fs20Datagram) : UInt8 := (dg.raw &&& 1).toUInt8

def parity (dg : Fs20Datagram) : UInt8 := (dg.raw >>> 1).toUInt8

def p4 (dg : Fs20Datagram) : UInt8 := (dg.raw >>> 9 &&& 1).toUInt8

def cmd (dg : Fs20Datagram) : UInt8 := (dg.raw >>> 10).toUInt8

def p3 (dg : Fs20Datagram) : UInt8 := (dg.raw >>> 18 &&& 1).toUInt8

def addr (dg : Fs20Datagram) : UInt8 := (dg.raw >>> 19).toUInt8

def p2 (dg : Fs20Datagram) : UInt8 := (dg.raw >>> 27 &&& 1).toUInt8

def hc2 (dg : Fs20Datagram) : UInt8 := (dg.raw >>> 28).toUInt8

def p1 (dg : Fs20Datagram) : UInt8 := (dg.raw >>> 36 &&& 1).toUInt8

def hc1 (dg : Fs20Datagram) : UInt8 := (dg.raw >>> 37).toUInt8

def sync (dg : Fs20Datagram) : UInt16 := (dg.raw >>> 45 &&& 0x1fff).toUInt16

end Fs20Datagram

/-- `fs20_global.fs20`, with the static variable of the interrupt.  `received` is the number of bits
received, `rec`. -/
structure Fs20Global where
  datagram : Fs20Datagram
  received : UInt8
  err : UInt8
  queue : List Fs20Datagram
  len : UInt8
  timeout : UInt8
  time_old : UInt8
deriving DecidableEq

/-- `ISR(ANALOG_COMP_vect)`, entered with `TCNT2 = time`. -/
def analogComp (time : UInt8) (fs20 : Fs20Global) : Fs20Global :=
  if fs20.timeout = 0 ∧ fs20.received < FS20_DATAGRAM_LENGTH then
    if FS20_PULSE_ZERO time ∧ FS20_PULSE_ZERO fs20.time_old ∧
        FS20_PULSE_DIFFERENCE time fs20.time_old then
      { fs20 with
        time_old := 0
        err := 0
        datagram := ⟨fs20.datagram.raw <<< 1⟩
        received := fs20.received + 1 }
    else if FS20_PULSE_ONE time ∧ FS20_PULSE_ONE fs20.time_old ∧
        FS20_PULSE_DIFFERENCE time fs20.time_old then
      { fs20 with
        time_old := 0
        err := 0
        datagram := ⟨fs20.datagram.raw <<< 1 ||| 1⟩
        received := fs20.received + 1 }
    else if fs20.err > 3 then
      { fs20 with
        err := 0
        received := 0
        time_old := 0
        datagram := ⟨0⟩ }
    else
      { fs20 with
        time_old := time
        err := fs20.err + 1 }
  else fs20

/-- `ISR(TIMER2_OVF_vect)`. -/
def timer2Ovf (fs20 : Fs20Global) : Fs20Global :=
  if fs20.received ≠ FS20_DATAGRAM_LENGTH ∨ fs20.timeout > 0 then
    { fs20 with
      received := 0
      datagram := ⟨0⟩ }
  else fs20

/-- The checks of a received datagram. -/
def accepted (dg : Fs20Datagram) : Prop :=
  dg.sync = 1 ∧
    parityEvenBit dg.hc1 ^^^ dg.p1 = 0 ∧ parityEvenBit dg.hc2 ^^^ dg.p2 = 0 ∧
    parityEvenBit dg.addr ^^^ dg.p3 = 0 ∧ parityEvenBit dg.cmd ^^^ dg.p4 = 0 ∧
    parityEvenBit dg.parity ^^^ dg.p5 = 0 ∧ 6 + (dg.hc1 + dg.hc2 + dg.addr + dg.cmd) = dg.parity

instance (dg : Fs20Datagram) : Decidable (accepted dg) :=
  inferInstanceAs (Decidable (dg.sync = 1 ∧
    parityEvenBit dg.hc1 ^^^ dg.p1 = 0 ∧ parityEvenBit dg.hc2 ^^^ dg.p2 = 0 ∧
    parityEvenBit dg.addr ^^^ dg.p3 = 0 ∧ parityEvenBit dg.cmd ^^^ dg.p4 = 0 ∧
    parityEvenBit dg.parity ^^^ dg.p5 = 0 ∧ 6 + (dg.hc1 + dg.hc2 + dg.addr + dg.cmd) = dg.parity))

def fs20Process (fs20 : Fs20Global) : Fs20Global :=
  if fs20.received = 58 then
    let fs20 :=
      if accepted fs20.datagram then
        { fs20 with
          queue := fs20.datagram :: fs20.queue.take (FS20_QUEUE_LENGTH - 1)
          len := if fs20.len.toNat < FS20_QUEUE_LENGTH then fs20.len + 1 else fs20.len
          timeout := 6 }
      else fs20
    { fs20 with
      datagram := ⟨0⟩
      received := 0 }
  else fs20

def fs20ProcessTimeout (fs20 : Fs20Global) : Fs20Global :=
  if fs20.timeout > 0 then { fs20 with timeout := fs20.timeout - 1 } else fs20

/-- What happens to the receiver. -/
inductive Event where
  | edge (time : UInt8)
  | overflow
  | process
  | processTimeout
deriving DecidableEq

def step (fs20 : Fs20Global) : Event → Fs20Global
  | .edge time => analogComp time fs20
  | .overflow => timer2Ovf fs20
  | .process => fs20Process fs20
  | .processTimeout => fs20ProcessTimeout fs20

def run (fs20 : Fs20Global) (events : List Event) : Fs20Global := events.foldl step fs20

end Ethersex.Fs20

/-!
## The bits of a datagram

A datagram as the sequence of bits that is sent: the synchronisation, and five bytes with their
parities, the last one the sum of the others.  The bit fields of the receiver read the same bits
back, and its checks accept no others.
-/

namespace Ethersex.Fs20

open Ethersex.Library.Biphase

/-! ## Bits that are sent -/

def syncBits : List Bool := List.replicate 12 false ++ [true]

/-- A byte and its parity. -/
def byteBits (byte : UInt8) : List Bool :=
  ([7, 6, 5, 4, 3, 2, 1, 0] : List UInt8).map (fun i => decide (byte &&& (1 : UInt8) <<< i > 0)) ++
    [decide (parityEvenBit byte > 0)]

def datagramBits (hc1 hc2 address command : UInt8) : List Bool :=
  syncBits ++ byteBits hc1 ++ byteBits hc2 ++ byteBits address ++ byteBits command ++
    byteBits (6 + hc1 + hc2 + address + command)

@[simp] theorem length_byteBits (byte : UInt8) : (byteBits byte).length = 9 := rfl

theorem length_datagramBits (hc1 hc2 address command : UInt8) :
    (datagramBits hc1 hc2 address command).length = 58 := rfl

theorem parityEvenBit_lt (byte : UInt8) : (parityEvenBit byte).toNat < 2 := by
  have all : ∀ value : Fin 256, (parityEvenBit ⟨⟨value⟩⟩).toNat < 2 := by decide +kernel
  exact all byte.toBitVec.toFin

theorem word_byteBits (byte : UInt8) :
    word 0 (byteBits byte) = 2 * byte.toNat + (parityEvenBit byte).toNat := by
  have all : ∀ value : Fin 256,
      word 0 (byteBits ⟨⟨value⟩⟩) = 2 * value + (parityEvenBit ⟨⟨value⟩⟩).toNat := by decide +kernel
  exact all byte.toBitVec.toFin

theorem word_datagramBits (hc1 hc2 address command : UInt8) :
    word 0 (datagramBits hc1 hc2 address command) =
      ((((1 * 512 + (2 * hc1.toNat + (parityEvenBit hc1).toNat)) * 512 +
        (2 * hc2.toNat + (parityEvenBit hc2).toNat)) * 512 +
        (2 * address.toNat + (parityEvenBit address).toNat)) * 512 +
        (2 * command.toNat + (parityEvenBit command).toNat)) * 512 +
        (2 * (6 + hc1 + hc2 + address + command).toNat +
          (parityEvenBit (6 + hc1 + hc2 + address + command)).toNat) := by
  have byte (start : Nat) (value : UInt8) : word start (byteBits value) =
      start * 512 + (2 * value.toNat + (parityEvenBit value).toNat) := by
    rw [word_eq_add, word_byteBits, length_byteBits]
    rfl
  simp only [datagramBits, word_append, byte]
  rfl

/-! ## Bit fields -/

/-- A byte with its parity, as the last digit of a word. -/
theorem digit {byte parity : Nat} (small : byte < 256) (bit : parity < 2) (word : Nat) :
    (word * 512 + (2 * byte + parity)) % 2 = parity ∧
      (word * 512 + (2 * byte + parity)) / 2 % 256 = byte ∧
      (word * 512 + (2 * byte + parity)) / 512 = word := by
  omega

theorem digit_eq (word : Nat) : word / 512 * 512 + (2 * (word / 2 % 256) + word % 2) = word := by
  omega

namespace Fs20Datagram

variable (dg : Fs20Datagram)

/-- The bit fields, as digits of the word. -/
theorem toNat_fields :
    dg.p5.toNat = dg.raw.toNat % 2 ∧ dg.parity.toNat = dg.raw.toNat / 2 % 256 ∧
    dg.p4.toNat = dg.raw.toNat / 512 % 2 ∧ dg.cmd.toNat = dg.raw.toNat / 512 / 2 % 256 ∧
    dg.p3.toNat = dg.raw.toNat / 512 / 512 % 2 ∧
    dg.addr.toNat = dg.raw.toNat / 512 / 512 / 2 % 256 ∧
    dg.p2.toNat = dg.raw.toNat / 512 / 512 / 512 % 2 ∧
    dg.hc2.toNat = dg.raw.toNat / 512 / 512 / 512 / 2 % 256 ∧
    dg.p1.toNat = dg.raw.toNat / 512 / 512 / 512 / 512 % 2 ∧
    dg.hc1.toNat = dg.raw.toNat / 512 / 512 / 512 / 512 / 2 % 256 ∧
    dg.sync.toNat = dg.raw.toNat / 512 / 512 / 512 / 512 / 512 % 8192 := by
  have mask (value : Nat) : value &&& 8191 = value % 8192 := Nat.and_two_pow_sub_one_eq_mod value 13
  have bit (value : Nat) : value % 2 % 256 = value % 2 := by omega
  have word (value : Nat) : value % 8192 % 65536 = value % 8192 := by omega
  simp only [p5, parity, p4, cmd, p3, addr, p2, hc2, p1, hc1, sync, UInt64.toNat_toUInt8,
    UInt64.toNat_toUInt16, UInt64.toNat_and, UInt64.toNat_shiftRight, Nat.shiftRight_eq_div_pow]
  simp [mask, bit, word, Nat.and_one_is_mod, Nat.div_div_eq_div_mul]

variable {dg} {first second third fourth : UInt8}

theorem xor_eq_zero_iff {left right : UInt8} : left ^^^ right = 0 ↔ left.toNat = right.toNat := by
  rw [UInt8.xor_eq_zero_iff, UInt8.toNat_inj]

/-- The checks, as equations between numbers. -/
theorem accepted_iff_toNat : accepted dg ↔
    dg.sync.toNat = 1 ∧ (parityEvenBit dg.hc1).toNat = dg.p1.toNat ∧
    (parityEvenBit dg.hc2).toNat = dg.p2.toNat ∧ (parityEvenBit dg.addr).toNat = dg.p3.toNat ∧
    (parityEvenBit dg.cmd).toNat = dg.p4.toNat ∧ (parityEvenBit dg.parity).toNat = dg.p5.toNat ∧
    6 + dg.hc1 + dg.hc2 + dg.addr + dg.cmd = dg.parity := by
  have sum : 6 + (dg.hc1 + dg.hc2 + dg.addr + dg.cmd) = 6 + dg.hc1 + dg.hc2 + dg.addr + dg.cmd := by
    simp only [UInt8.add_assoc]
  rw [accepted, sum, ← UInt16.toNat_inj]
  simp only [xor_eq_zero_iff]
  rfl

/-- What the sender sends is read back and accepted. -/
theorem fields_of_word (value : dg.raw.toNat = word 0 (datagramBits first second third fourth)) :
    dg.hc1 = first ∧ dg.hc2 = second ∧ dg.addr = third ∧ dg.cmd = fourth ∧ accepted dg := by
  have digits (byte : UInt8) := digit byte.toNat_lt (parityEvenBit_lt byte)
  obtain ⟨is5, isParity, is4, isCmd, is3, isAddr, is2, isHc2, is1, isHc1, isSync⟩ := dg.toNat_fields
  rw [value, word_datagramBits] at is5 isParity is4 isCmd is3 isAddr is2 isHc2 is1 isHc1 isSync
  simp only [digits] at is5 isParity is4 isCmd is3 isAddr is2 isHc2 is1 isHc1 isSync
  rw [UInt8.toNat_inj] at isHc1 isHc2 isAddr isCmd isParity
  refine ⟨isHc1, isHc2, isAddr, isCmd, accepted_iff_toNat.mpr ?_⟩
  rw [isHc1, isHc2, isAddr, isCmd, isParity]
  exact ⟨isSync, is1.symm, is2.symm, is3.symm, is4.symm, is5.symm, rfl⟩

/-- What the receiver accepts are the bits of some datagram. -/
theorem word_of_accepted (small : dg.raw.toNat < 2 ^ 58) (passes : accepted dg) :
    dg.raw.toNat = word 0 (datagramBits dg.hc1 dg.hc2 dg.addr dg.cmd) := by
  obtain ⟨is5, isParity, is4, isCmd, is3, isAddr, is2, isHc2, is1, isHc1, isSync⟩ := dg.toNat_fields
  obtain ⟨sync, p1, p2, p3, p4, p5, sum⟩ := accepted_iff_toNat.mp passes
  have start : 1 = dg.raw.toNat / 512 / 512 / 512 / 512 / 512 := by
    rw [sync] at isSync
    omega
  rw [word_datagramBits, sum, p1, p2, p3, p4, p5, is5, isParity, is4, isCmd, is3, isAddr, is2,
    isHc2, is1, isHc1, start]
  simp only [digit_eq]

end Fs20Datagram

/-- Which bits make up a datagram: synchronisation, parities and checksum are right. -/
def IsDatagram (bits : List Bool) : Prop :=
  ∃ hc1 hc2 address command, bits = datagramBits hc1 hc2 address command

/-- The checks of the receiver are the ones of the bits. -/
theorem accepted_iff {dg : Fs20Datagram} {bits : List Bool} (length : bits.length = 58)
    (value : dg.raw.toNat = word 0 bits) : accepted dg ↔ IsDatagram bits := by
  constructor
  · intro passes
    refine ⟨dg.hc1, dg.hc2, dg.addr, dg.cmd, word_injective length ?_⟩
    rw [← value]
    exact Fs20Datagram.word_of_accepted (by rw [value, ← length]; exact word_lt bits) passes
  · rintro ⟨hc1, hc2, address, command, rfl⟩
    exact (Fs20Datagram.fields_of_word value).2.2.2.2

end Ethersex.Fs20
