import Ethersex.Onewire.Listing
import Ethersex.Library.Decimal
import Ethersex.Vfs.Inline

/-!
# Temperatures

`ow_temp_normalize` makes a number with eight bits behind the point of what a sensor has sent, and
`onewire get` prints it with one decimal.

An `int` has 16 bits.  A shift that does not fit into it and a division by zero are not defined, `none`.
-/

namespace Ethersex.Onewire

open Ethersex.Library Ethersex.Library.Ansi

/-! ## The code -/

structure OwTempScratchpad where
  bytewise : Vector UInt8 9

namespace OwTempScratchpad

variable (sp : OwTempScratchpad)

def byte (index : Nat) : UInt8 := sp.bytewise[index]?.getD 0

def temperature : UInt16 := (sp.byte 0).toUInt16 ||| (sp.byte 1).toUInt16 <<< 8

def count_remain : UInt8 := sp.byte 6

def count_per_c : UInt8 := sp.byte 7

def crc : UInt8 := sp.byte 8

end OwTempScratchpad

/-- The bytes have been sent by the sensor: what `ow_temp_read_scratchpad` returns, given the result
of `ow_match_rom`. -/
def owTempReadScratchpad (rom : OwRomCode) (matched : Int8) (sp : OwTempScratchpad) : Int8 :=
  if owTempSensor rom = false then -3
  else if matched < 0 then matched
  else if sp.crc ≠ Vfs.crcChecksum sp.byte 8 then -2
  else 1

/-- `ow_temp_normalize`. -/
def owTempNormalize (rom : OwRomCode) (sp : OwTempScratchpad) : Option Int16 :=
  if rom.byte 0 = OW_FAMILY_DS1820 then
    let shifted : Int := (sp.count_per_c.toNat - sp.count_remain.toNat) * 2 ^ 8
    if -2 ^ 15 ≤ shifted ∧ shifted < 2 ^ 15 ∧ sp.count_per_c ≠ 0 then
      some ((sp.temperature &&& 0xfffe) <<< 7 - 0x40 + UInt16.ofInt (shifted.tdiv sp.count_per_c.toNat)).toInt16
    else none
  else if rom.byte 0 = OW_FAMILY_DS1822 ∨ rom.byte 0 = OW_FAMILY_DS18B20 then
    some (sp.temperature <<< 4).toInt16
  else some (0xffff : UInt16).toInt16

/-- `HI8`. -/
def hi8 (x : UInt16) : UInt8 := (x >>> 8).toUInt8

/-- `"%3d.%1d"`, or the same with `itoa`. -/
def readingText (TEENSY_SUPPORT : Bool) (temp : UInt16) : List UInt8 :=
  let whole : Int := if TEENSY_SUPPORT then (hi8 temp).toNat else (hi8 temp).toInt8.toInt
  let fraction := hi8 ((temp &&& 0x00ff) * 10 + 0x80)
  padLeft (if TEENSY_SUPPORT then 0 else 3) (decimalInt whole) ++ 46 :: decimal fraction.toNat

/-- `"unknown sensor type"`. -/
def unknownSensorType : List UInt8 := "unknown sensor type".toUTF8.toList

/-- `parse_cmd_onewire_get` without `ONEWIRE_DS2502_SUPPORT`: its result and what it writes, given the
parameter, the result of `ow_match_rom` and what the sensor sends. -/
def parseCmdOnewireGet (TEENSY_SUPPORT : Bool) (rom : Option OwRomCode) (matched : Int8)
    (sp : OwTempScratchpad) (len : Nat) : Option (Int × List UInt8) :=
  let print (text : List UInt8) : Int × List UInt8 :=
    (text.length, if TEENSY_SUPPORT then text else text.take (len - 1))
  match rom with
  | none => some (-1, [])
  | some rom =>
      if owTempSensor rom then
        if owTempReadScratchpad rom matched sp ≠ 1 then some (-2, [])
        else (owTempNormalize rom sp).map fun temp => print (readingText TEENSY_SUPPORT temp.toUInt16)
      else some (print unknownSensorType)

/-! ## Words of 16 bits -/

theorem toInt_toInt16 (x : UInt16) : x.toInt16.toInt = (x.toNat : Int).bmod (2 ^ 16) := by
  rw [← UInt16.toNat_toBitVec]
  exact BitVec.toInt_eq_toNat_bmod x.toBitVec

theorem toInt_toInt8 (x : UInt8) : x.toInt8.toInt = (x.toNat : Int).bmod (2 ^ 8) := by
  rw [← UInt8.toNat_toBitVec]
  exact BitVec.toInt_eq_toNat_bmod x.toBitVec

theorem toNat_and_even (x : UInt16) : (x &&& 0xfffe).toNat = 2 * (x.toNat / 2) := by
  have small := x.toNat_lt
  rw [UInt16.toNat_and]
  refine Nat.eq_of_testBit_eq fun place => ?_
  rw [Nat.testBit_and]
  cases place with
  | zero => simp
  | succ place =>
      have half : (0xfffe : UInt16).toNat / 2 = 2 ^ 15 - 1 := rfl
      rw [Nat.testBit_succ, Nat.testBit_succ, half, Nat.testBit_two_pow_sub_one, Nat.testBit_succ,
        Nat.mul_div_cancel_left _ two_pos]
      rcases Nat.lt_or_ge place 15 with inside | outside
      · simp [inside]
      · have high : (x.toNat / 2).testBit place = false :=
          Nat.testBit_lt_two_pow (lt_of_lt_of_le (by omega : x.toNat / 2 < 2 ^ 15)
            (Nat.pow_le_pow_right (by decide) outside))
        simp [high]

theorem hi8_toNat (x : UInt16) : (hi8 x).toNat = x.toNat / 256 := by
  have small := x.toNat_lt
  rw [hi8, UInt16.toNat_toUInt8, UInt16.toNat_shiftRight]
  simp [Nat.shiftRight_eq_div_pow]
  omega

theorem low_toNat (x : UInt16) : (x &&& 0x00ff).toNat = x.toNat % 256 := by
  rw [UInt16.toNat_and]
  exact Nat.and_two_pow_sub_one_eq_mod x.toNat 8

theorem fraction_toNat (x : UInt16) :
    (hi8 ((x &&& 0x00ff) * 10 + 0x80)).toNat = (10 * (x.toNat % 256) + 128) / 256 := by
  rw [hi8_toNat, UInt16.toNat_add, UInt16.toNat_mul, low_toNat]
  simp
  omega

theorem toInt_sum (x : UInt16) (q : Int) :
    (x - 0x40 + UInt16.ofInt q).toInt16.toInt = (x.toNat - 64 + q).bmod (2 ^ 16) := by
  have small := x.toNat_lt
  have term : (UInt16.ofInt q).toNat = (q % 65536).toNat := by
    rw [UInt16.ofInt, UInt16.toNat_ofNat_of_lt' (by change _ < 65536; omega)]
    rfl
  have fixed : (0x40 : UInt16).toNat = 64 := rfl
  rw [toInt_toInt16, UInt16.toNat_add, UInt16.toNat_sub, term, fixed]
  simp only [Int.bmod]
  omega

theorem up_toNat (x : UInt16) : ((x &&& 0xfffe) <<< 7).toNat = 2 * (x.toNat / 2) * 128 % 65536 := by
  rw [UInt16.toNat_shiftLeft, toNat_and_even]
  simp [Nat.shiftLeft_eq]

theorem toInt_doubled (x : UInt16) (q : Int) :
    ((x &&& 0xfffe) <<< 7 - 0x40 + UInt16.ofInt q).toInt16.toInt =
      (x.toInt16.toInt / 2 * 256 - 64 + q).bmod (2 ^ 16) := by
  have small := x.toNat_lt
  rw [toInt_sum, up_toNat, toInt_toInt16]
  have same : ((2 * (x.toNat / 2) * 128 % 65536 : Nat) - 64 + q : Int) % (2 ^ 16 : Nat) =
      ((x.toNat : Int).bmod (2 ^ 16) / 2 * 256 - 64 + q) % (2 ^ 16 : Nat) := by
    simp only [Int.bmod]
    omega
  rw [← Int.emod_bmod, same, Int.emod_bmod]

theorem toInt_sixteenths (x : UInt16) : (x <<< 4).toInt16.toInt = (x.toInt16.toInt * 16).bmod (2 ^ 16) := by
  have small := x.toNat_lt
  have up : (x <<< 4).toNat = x.toNat * 16 % 65536 := by
    rw [UInt16.toNat_shiftLeft]
    simp [Nat.shiftLeft_eq]
  have same : ((x.toNat * 16 % 65536 : Nat) : Int) % (2 ^ 16 : Nat) =
      ((x.toNat : Int).bmod (2 ^ 16) * 16) % (2 ^ 16 : Nat) := by
    simp only [Int.bmod]
    omega
  rw [toInt_toInt16, up, toInt_toInt16, ← Int.emod_bmod, same, Int.emod_bmod]

/-! ## The temperature that a sensor prescribes -/

/-- The reading of the register, a signed number. -/
def OwTempScratchpad.reading (sp : OwTempScratchpad) : Int := sp.temperature.toInt16.toInt

/-- The number of counts within a degree, signed. -/
def OwTempScratchpad.counted (sp : OwTempScratchpad) : Int := sp.count_per_c.toNat - sp.count_remain.toNat

/-- The temperature that the data sheet prescribes.  The last bit of the DS1820 is cut off. -/
def prescribed (rom : OwRomCode) (sp : OwTempScratchpad) : ℚ :=
  if rom.byte 0 = OW_FAMILY_DS1820 then (sp.reading / 2 : Int) - 1 / 4 + sp.counted / sp.count_per_c.toNat
  else sp.reading / 16

/-- The prescribed temperature in steps of a 256th, the rest cut off. -/
def steps (rom : OwRomCode) (sp : OwTempScratchpad) : Int :=
  if rom.byte 0 = OW_FAMILY_DS1820 then
    sp.reading / 2 * 256 - 64 + (sp.counted * 256).tdiv sp.count_per_c.toNat
  else sp.reading * 16

/-- A number of one decimal that is nearest to another one. -/
def RoundsTo (rounded exact : ℚ) : Prop := (∃ tenths : ℤ, rounded = tenths / 10) ∧ |rounded - exact| ≤ 1 / 20

theorem roundsTo_iff (tenths steps : Int) :
    RoundsTo (tenths / 10) (steps / 256) ↔
      -128 ≤ 256 * tenths - 10 * steps ∧ 256 * tenths - 10 * steps ≤ 128 := by
  have scaled : (tenths / 10 - steps / 256 : ℚ) = (256 * tenths - 10 * steps : Int) / 2560 := by
    push_cast
    ring
  rw [RoundsTo, and_iff_right ⟨tenths, rfl⟩, scaled, abs_le, le_div_iff₀ (by norm_num),
    div_le_iff₀ (by norm_num)]
  norm_num
  norm_cast

theorem tdiv_close (n : Int) {d : Nat} (positive : 0 < d) : |((n.tdiv d : Int) : ℚ) - n / d| < 1 := by
  have whole : (n : ℚ) = d * (n.tdiv d : Int) + (n.tmod d : Int) := by
    exact_mod_cast (Int.mul_tdiv_add_tmod n d).symm
  have rest : (n.tmod d).natAbs < d := by
    rw [Int.natAbs_tmod]
    exact Nat.mod_lt _ positive
  have nonzero : (0 : ℚ) < d := by exact_mod_cast positive
  have size : |((n.tmod d : Int) : ℚ)| < d := by
    rw [← Int.cast_abs, Int.abs_eq_natAbs]
    exact_mod_cast rest
  have difference : ((n.tdiv d : Int) : ℚ) - n / d = -((n.tmod d : Int) / d) := by
    rw [whole, add_div, mul_div_cancel_left₀ _ nonzero.ne']
    ring
  rw [difference, abs_neg, abs_div, abs_of_pos nonzero, div_lt_one nonzero]
  exact size

/-- The registers of a DS1820 are ones for which the correction is defined. -/
def Registers (rom : OwRomCode) (sp : OwTempScratchpad) : Prop :=
  rom.byte 0 = OW_FAMILY_DS1820 → sp.count_per_c ≠ 0 ∧ -128 ≤ sp.counted ∧ sp.counted ≤ 127

section Normalize

variable {rom : OwRomCode} {sp : OwTempScratchpad}

theorem owTempNormalize_of_registers (sensor : owTempSensor rom = true) (registers : Registers rom sp) :
    ∃ temp, owTempNormalize rom sp = some temp ∧ temp.toInt = (steps rom sp).bmod (2 ^ 16) := by
  rw [owTempNormalize, steps]
  by_cases old : rom.byte 0 = OW_FAMILY_DS1820
  · obtain ⟨nonzero, low, high⟩ := registers old
    rw [OwTempScratchpad.counted] at low high
    rw [if_pos old, if_pos old]
    dsimp only
    rw [if_pos ⟨by omega, by omega, nonzero⟩]
    exact ⟨_, rfl, toInt_doubled _ _⟩
  · have newer : rom.byte 0 = OW_FAMILY_DS1822 ∨ rom.byte 0 = OW_FAMILY_DS18B20 := by
      simpa [owTempSensor, old] using sensor
    rw [if_neg old, if_neg old, if_pos newer]
    exact ⟨_, rfl, toInt_sixteenths _⟩

theorem registers_of_owTempNormalize {temp : Int16} (computed : owTempNormalize rom sp = some temp) :
    Registers rom sp := by
  intro old
  rw [owTempNormalize, if_pos old] at computed
  dsimp only at computed
  rw [OwTempScratchpad.counted]
  split at computed
  · rename_i defined
    exact ⟨defined.2.2, by omega, by omega⟩
  · cases computed

theorem steps_close (registers : Registers rom sp) :
    |(steps rom sp : ℚ) - 256 * prescribed rom sp| < 1 := by
  rw [steps, prescribed]
  split_ifs with old
  · have positive : 0 < sp.count_per_c.toNat := by
      have nonzero := (registers old).1
      rw [Ne, ← UInt8.toNat_inj] at nonzero
      exact Nat.pos_of_ne_zero nonzero
    have close := tdiv_close (sp.counted * 256) positive
    convert close using 2
    push_cast
    ring
  · have exact : ((sp.reading * 16 : Int) : ℚ) - 256 * (sp.reading / 16) = 0 := by
      push_cast
      ring
    rw [exact, abs_zero]
    exact one_pos

/-- What is computed is the prescribed temperature just if that fits into eight bits in front of the point. -/
theorem close_iff {temp : Int16} (registers : Registers rom sp)
    (wraps : temp.toInt = (steps rom sp).bmod (2 ^ 16)) :
    |(temp.toInt : ℚ) / 256 - prescribed rom sp| < 1 / 256 ↔
      -2 ^ 15 ≤ steps rom sp ∧ steps rom sp < 2 ^ 15 := by
  have close := steps_close registers
  have scaled : |(temp.toInt : ℚ) / 256 - prescribed rom sp| < 1 / 256 ↔
      |(temp.toInt : ℚ) - 256 * prescribed rom sp| < 1 := by
    have parts : (temp.toInt : ℚ) - 256 * prescribed rom sp = 256 * (temp.toInt / 256 - prescribed rom sp) := by
      ring
    rw [parts, abs_mul, abs_of_pos (by norm_num : (0 : ℚ) < 256), lt_div_iff₀' (by norm_num)]
  rw [scaled]
  constructor
  · intro also
    have near : |(temp.toInt : ℚ) - steps rom sp| < 2 := by
      have path := abs_sub_le (temp.toInt : ℚ) (256 * prescribed rom sp) (steps rom sp)
      rw [abs_sub_comm (256 * prescribed rom sp)] at path
      linarith
    have apart : |temp.toInt - steps rom sp| < 2 := by exact_mod_cast near
    rw [abs_lt] at apart
    rw [Int.bmod] at wraps
    split_ifs at wraps <;> omega
  · intro fits
    have same : temp.toInt = steps rom sp := by
      rw [wraps, Int.bmod]
      omega
    rw [same]
    exact close

end Normalize

/-! ## The text -/

/-- The tenths that a text denotes whose fraction may be `.10`. -/
def tenths (whole : Int) (fraction : Nat) : Int :=
  let digits : Int := if fraction < 10 then fraction else 1
  if whole < 0 then 10 * whole - digits else 10 * whole + digits

theorem fraction_value {fraction : Nat} (small : fraction ≤ 10) :
    (fraction : ℚ) / 10 ^ (decimal fraction).length = ((if fraction < 10 then fraction else 1 : Int) : ℚ) / 10 := by
  rcases Nat.lt_or_eq_of_le small with digit | ten
  · rw [if_pos digit, decimal_of_lt digit]
    simp
  · rw [ten]
    norm_num [decimal_of_ge (le_refl 10), decimal_of_lt (by decide : 1 < 10)]

theorem numeral_tenths (width : Nat) (whole : Int) {fraction : Nat} (small : fraction ≤ 10) :
    numeral (padLeft width (decimalInt whole) ++ 46 :: decimal fraction) = tenths whole fraction / 10 := by
  rw [numeral_point, fraction_value small, tenths, Nat.cast_natAbs]
  by_cases negative : whole < 0
  · rw [if_pos negative, if_pos negative, abs_of_neg negative]
    push_cast
    ring
  · rw [if_neg negative, if_neg negative, abs_of_nonneg (not_lt.mp negative)]
    push_cast
    ring

/-- The whole degrees that are printed. -/
def printedWhole (TEENSY_SUPPORT : Bool) (steps : Int) : Int :=
  if TEENSY_SUPPORT then steps % 65536 / 256 else steps / 256

theorem numeral_readingText (TEENSY_SUPPORT : Bool) (temp : Int16) :
    numeral (readingText TEENSY_SUPPORT temp.toUInt16) =
      tenths (printedWhole TEENSY_SUPPORT temp.toInt) ((10 * (temp.toInt % 256).toNat + 128) / 256) / 10 := by
  have small := temp.toUInt16.toNat_lt
  have value : temp.toInt = (temp.toUInt16.toNat : Int).bmod (2 ^ 16) := by
    rw [← toInt_toInt16]
    simp
  have low : (temp.toInt % 256).toNat = temp.toUInt16.toNat % 256 := by
    rw [value, Int.bmod]
    omega
  have whole : (if TEENSY_SUPPORT = true then ((hi8 temp.toUInt16).toNat : Int)
      else (hi8 temp.toUInt16).toInt8.toInt) = printedWhole TEENSY_SUPPORT temp.toInt := by
    rw [printedWhole, toInt_toInt8, hi8_toNat, value]
    simp only [Int.bmod]
    split_ifs <;> omega
  have fraction := fraction_toNat temp.toUInt16
  rw [readingText]
  rw [whole, fraction, low, numeral_tenths]
  omega

/-- A temperature of which the text is right: it has no carry out of its decimal, and below zero it has no decimal. -/
def Printable (TEENSY_SUPPORT : Bool) (steps : Int) : Prop :=
  if 0 ≤ steps then steps % 256 ≤ 243 else TEENSY_SUPPORT = false ∧ steps % 256 ≤ 12

instance (TEENSY_SUPPORT : Bool) (steps : Int) : Decidable (Printable TEENSY_SUPPORT steps) :=
  inferInstanceAs (Decidable
    (if 0 ≤ steps then steps % 256 ≤ 243 else TEENSY_SUPPORT = false ∧ steps % 256 ≤ 12))

/-- The decimal that is printed is nearest to what it is printed for. -/
theorem tenths_near_iff {whole low : Int} {fraction : Nat} (below : 0 ≤ low) (above : low ≤ 255)
    (printed : (fraction : Int) = (10 * low + 128) / 256) :
    (-128 ≤ 256 * tenths whole fraction - 10 * (256 * whole + low) ∧
      256 * tenths whole fraction - 10 * (256 * whole + low) ≤ 128) ↔
      if 0 ≤ whole then low ≤ 243 else low ≤ 12 := by
  have upper : 10 * low + 128 < 256 * fraction + 256 := by omega
  have lower : 256 * (fraction : Int) ≤ 10 * low + 128 := by omega
  have carries : (fraction : Int) < 10 ↔ low ≤ 243 := by omega
  have vanishes : (fraction : Int) < 1 ↔ low ≤ 12 := by omega
  clear printed
  rw [tenths]
  split_ifs <;> omega

/-- Without a sign nothing below zero is right. -/
theorem tenths_unsigned {whole low : Int} {fraction : Nat} (negative : whole < 0) (lowest : -128 ≤ whole)
    (above : low ≤ 255) : 128 < 256 * tenths (whole + 256) fraction - 10 * (256 * whole + low) := by
  rw [tenths]
  split_ifs <;> omega

theorem roundsTo_readingText (TEENSY_SUPPORT : Bool) (temp : Int16) :
    RoundsTo (numeral (readingText TEENSY_SUPPORT temp.toUInt16)) (temp.toInt / 256) ↔
      Printable TEENSY_SUPPORT temp.toInt := by
  have low : -2 ^ 15 ≤ temp.toInt := temp.le_toInt
  have high : temp.toInt < 2 ^ 15 := temp.toInt_lt
  have printed : (((10 * (temp.toInt % 256).toNat + 128) / 256 : Nat) : Int) =
      (10 * (temp.toInt % 256) + 128) / 256 := by
    omega
  have parts : temp.toInt = 256 * (temp.toInt / 256) + temp.toInt % 256 := by omega
  have signed : 0 ≤ temp.toInt ↔ 0 ≤ temp.toInt / 256 := by omega
  have near := @tenths_near_iff (temp.toInt / 256) _ _ (by omega) (by omega) printed
  rw [← parts] at near
  simp only [← signed] at near
  rw [numeral_readingText, roundsTo_iff, Printable, printedWhole]
  cases TEENSY_SUPPORT with
  | false => simpa using near
  | true =>
      by_cases negative : 0 ≤ temp.toInt
      · have same : temp.toInt % 65536 / 256 = temp.toInt / 256 := by omega
        rw [if_pos negative] at near ⊢
        rw [if_pos rfl, same]
        exact near
      · have same : temp.toInt % 65536 / 256 = temp.toInt / 256 + 256 := by omega
        have wrong := @tenths_unsigned (temp.toInt / 256) (temp.toInt % 256)
          ((10 * (temp.toInt % 256).toNat + 128) / 256) (by omega) (by omega) (by omega)
        rw [← parts] at wrong
        rw [if_neg negative, if_pos rfl, same]
        simp only [Bool.true_eq_false, false_and, iff_false]
        omega

/-! ## The command -/

/-- The command computes the prescribed temperature without a division by zero and without an overflow, and prints it
rounded to one decimal. -/
def ReadsRight (TEENSY_SUPPORT : Bool) (rom : OwRomCode) (sp : OwTempScratchpad) : Prop :=
  ∃ temp text, owTempNormalize rom sp = some temp ∧
    |(temp.toInt : ℚ) / 256 - prescribed rom sp| < 1 / 256 ∧
    (∀ matched len, 0 ≤ matched → text.length < len →
      parseCmdOnewireGet TEENSY_SUPPORT (some rom) matched sp len = some (text.length, text)) ∧
    RoundsTo (numeral text) (temp.toInt / 256)

theorem parseCmdOnewireGet_eq (TEENSY_SUPPORT : Bool) {rom : OwRomCode} {sp : OwTempScratchpad}
    (sensor : owTempSensor rom = true) (checked : sp.crc = Vfs.crcChecksum sp.byte 8) {temp : Int16}
    (computed : owTempNormalize rom sp = some temp) {matched : Int8} (selected : 0 ≤ matched) {len : Nat}
    (room : (readingText TEENSY_SUPPORT temp.toUInt16).length < len) :
    parseCmdOnewireGet TEENSY_SUPPORT (some rom) matched sp len =
      some (((readingText TEENSY_SUPPORT temp.toUInt16).length : Int),
        readingText TEENSY_SUPPORT temp.toUInt16) := by
  have read : owTempReadScratchpad rom matched sp = 1 := by
    rw [owTempReadScratchpad, if_neg (by simp [sensor]), if_neg (Int8.not_lt.mpr selected),
      if_neg (not_not_intro checked)]
  have whole : (readingText TEENSY_SUPPORT temp.toUInt16).take (len - 1) =
      readingText TEENSY_SUPPORT temp.toUInt16 := List.take_of_length_le (by omega)
  simp only [parseCmdOnewireGet, sensor, read, computed, whole, if_true, ite_self, ne_eq, not_true, if_false,
    Option.map_some]

section ReadsRight

variable {TEENSY_SUPPORT : Bool} {rom : OwRomCode} {sp : OwTempScratchpad}

/-- What has been read right meets the conditions. -/
theorem ReadsRight.conditions (right : ReadsRight TEENSY_SUPPORT rom sp) (sensor : owTempSensor rom = true)
    (checked : sp.crc = Vfs.crcChecksum sp.byte 8) :
    Registers rom sp ∧ (-2 ^ 15 ≤ steps rom sp ∧ steps rom sp < 2 ^ 15) ∧
      Printable TEENSY_SUPPORT (steps rom sp) := by
  obtain ⟨temp, text, computed, close, prints, rounds⟩ := right
  have registers := registers_of_owTempNormalize computed
  obtain ⟨value, again, wraps⟩ := owTempNormalize_of_registers sensor registers
  cases computed.symm.trans again
  have fits := (close_iff registers wraps).mp close
  have same : temp.toInt = steps rom sp := by
    rw [wraps, Int.bmod]
    omega
  -- with room for both texts they are the same one
  have printed := prints 0 (text.length + (readingText TEENSY_SUPPORT temp.toUInt16).length + 1) (by decide) (by omega)
  rw [parseCmdOnewireGet_eq TEENSY_SUPPORT sensor checked computed (by decide) (by omega), Option.some_inj,
    Prod.mk.injEq] at printed
  rw [← printed.2, roundsTo_readingText, same] at rounds
  exact ⟨registers, fits, rounds⟩

theorem ReadsRight.of_conditions (sensor : owTempSensor rom = true) (checked : sp.crc = Vfs.crcChecksum sp.byte 8)
    (registers : Registers rom sp) (fits : -2 ^ 15 ≤ steps rom sp ∧ steps rom sp < 2 ^ 15)
    (printable : Printable TEENSY_SUPPORT (steps rom sp)) : ReadsRight TEENSY_SUPPORT rom sp := by
  obtain ⟨temp, computed, wraps⟩ := owTempNormalize_of_registers sensor registers
  have same : temp.toInt = steps rom sp := by
    rw [wraps, Int.bmod]
    omega
  refine ⟨temp, _, computed, (close_iff registers wraps).mpr fits, fun matched len selected room =>
    parseCmdOnewireGet_eq TEENSY_SUPPORT sensor checked computed selected room, ?_⟩
  rw [roundsTo_readingText, same]
  exact printable

end ReadsRight

/-- A scratchpad that passes the check is read and printed right just if its registers allow the correction, the
temperature fits in front of the point, and the text for it is right. -/
theorem onewire_get_right_iff (TEENSY_SUPPORT : Bool) {rom : OwRomCode} {sp : OwTempScratchpad}
    (sensor : owTempSensor rom = true) (checked : sp.crc = Vfs.crcChecksum sp.byte 8) :
    ReadsRight TEENSY_SUPPORT rom sp ↔
      Registers rom sp ∧ (-2 ^ 15 ≤ steps rom sp ∧ steps rom sp < 2 ^ 15) ∧
        Printable TEENSY_SUPPORT (steps rom sp) := by
  constructor
  · intro right
    exact right.conditions sensor checked
  · rintro ⟨registers, fits, printable⟩
    exact .of_conditions sensor checked registers fits printable

def ds1820 : OwRomCode := ⟨⟨#[0x10, 1, 2, 3, 4, 5, 6, 7], rfl⟩⟩

def ds18b20 : OwRomCode := ⟨⟨#[0x28, 1, 2, 3, 4, 5, 6, 7], rfl⟩⟩

/-- 85 degrees. -/
def warm : OwTempScratchpad := ⟨⟨#[0xaa, 0x00, 0x4b, 0x46, 0xff, 0xff, 0x0c, 0x10, 0x87], rfl⟩⟩

/-- Half a degree below zero. -/
def freezing : OwTempScratchpad := ⟨⟨#[0xf8, 0xff, 0x4b, 0x46, 0x7f, 0xff, 0x08, 0x10, 0xf8], rfl⟩⟩

set_option maxRecDepth 4000 in
theorem warm_checked : warm.crc = Vfs.crcChecksum warm.byte 8 := by decide

set_option maxRecDepth 4000 in
theorem freezing_checked : freezing.crc = Vfs.crcChecksum freezing.byte 8 := by decide

/-- A bus that is held down. -/
def silence : OwTempScratchpad := ⟨.replicate 9 0⟩

set_option maxRecDepth 4000 in
theorem silence_checked : silence.crc = Vfs.crcChecksum silence.byte 8 := by decide

theorem onewire_get_right_warm :
    owTempSensor ds1820 = true ∧ warm.crc = Vfs.crcChecksum warm.byte 8 ∧ ReadsRight false ds1820 warm :=
  ⟨by decide, warm_checked, (onewire_get_right_iff false (by decide) warm_checked).mpr
    ⟨fun _ => by decide, by decide, by decide⟩⟩

/-- A bus that is held down, and half a degree below zero. -/
theorem silence_and_frost_wrong :
    (owTempSensor ds1820 = true ∧ silence.crc = Vfs.crcChecksum silence.byte 8 ∧
      ¬ReadsRight false ds1820 silence) ∧
      owTempSensor ds18b20 = true ∧ freezing.crc = Vfs.crcChecksum freezing.byte 8 ∧
        ¬ReadsRight false ds18b20 freezing := by
  refine ⟨⟨by decide, silence_checked, fun right => ?_⟩, by decide, freezing_checked, fun right => ?_⟩
  · exact absurd rfl ((right.conditions (by decide) silence_checked).1 rfl).1
  · exact absurd (right.conditions (by decide) freezing_checked).2.2 (by decide)

end Ethersex.Onewire
