import Mathlib
import Ethersex.Ask.Samples

/-!
# Bits and bytes of remote codes

A remote code is on the air with the highest bit of each byte first.  The bit between the housecode and
the command is the inverse of the one before, and is not decoded.
-/

namespace Ethersex.Ask

/-- A bit of a byte, from the highest one on. -/
def topBit (byte : UInt8) (place : Nat) : Bool := byte.toBitVec.getLsbD (7 - place)

theorem topBit_ext {one other : UInt8} (same : ∀ place < 8, topBit one place = topBit other place) :
    one = other := by
  rw [← UInt8.toBitVec_inj]
  apply BitVec.eq_of_getLsbD_eq
  intro index inside
  have bit := same (7 - index) (by omega)
  rwa [topBit, topBit, Nat.sub_sub_self (by omega)] at bit

theorem topBit_join (high low : UInt8) {place : Nat} (inside : place < 8) :
    topBit ((high <<< 1) ||| (low >>> 7)) place =
      if place = 7 then topBit low 0 else topBit high (place + 1) := by
  have left : (high <<< 1).toBitVec = high.toBitVec <<< 1 := rfl
  have right : (low >>> 7).toBitVec = low.toBitVec >>> 7 := rfl
  simp only [topBit, UInt8.toBitVec_or, left, right, BitVec.getLsbD_or, BitVec.getLsbD_shiftLeft,
    BitVec.getLsbD_ushiftRight]
  interval_cases place <;> simp

/-- The symbol of a bit. -/
theorem rfm12AskEncodeByte_getD (byte : UInt8) {place : Nat} (inside : place < 8) :
    (rfm12AskEncodeByte byte 8).getD place 0 = 12 ↔ topBit byte place = true := by
  have each : ∀ byte : Fin 256, ∀ place : Fin 8,
      (rfm12AskEncodeByte (UInt8.ofNat byte) 8).getD place 0 = 12 ↔
        topBit (UInt8.ofNat byte) place = true := by decide +kernel
  have this := each ⟨byte.toNat, byte.toNat_lt⟩ ⟨place, inside⟩
  rwa [UInt8.ofNat_toNat] at this

theorem getD_between (front back : List Nat) (byte : UInt8) {place : Nat} (inside : place < 8) :
    (front ++ rfm12AskEncodeByte byte 8 ++ back).getD (front.length + place) 0 = 12 ↔
      topBit byte place = true := by
  have eight : (rfm12AskEncodeByte byte 8).length = 8 := rfl
  rw [List.append_assoc, List.getD_append_right _ _ _ _ (Nat.le_add_right _ _), Nat.add_sub_cancel_left,
    List.getD_append _ _ _ _ (by omega)]
  exact rfm12AskEncodeByte_getD byte inside

/-- The symbols of the housecode. -/
theorem tevionCode_housecode (code : Code) (index : Fin 3) {place : Nat} (inside : place < 8) :
    (tevionCode code).getD (8 * index.val + place) 0 = 12 ↔ topBit (code.housecode index) place = true := by
  have at_ (front back : List Nat) := getD_between front back (code.housecode index) inside
  fin_cases index
  · exact at_ [] _
  · exact at_ (rfm12AskEncodeByte (code.housecode 0) 8) _
  · exact at_ (rfm12AskEncodeByte (code.housecode 0) 8 ++ rfm12AskEncodeByte (code.housecode 1) 8) _

/-- The symbols of the command. -/
theorem tevionCode_command (code : Code) (index : Fin 2) {place : Nat} (inside : place < 8) :
    (tevionCode code).getD (25 + (8 * index.val + place)) 0 = 12 ↔
      topBit (code.command index) place = true := by
  have between (front back : List Nat) := getD_between front back (code.command index) inside
  have house : (rfm12AskEncodeByte (code.housecode 0) 8 ++ rfm12AskEncodeByte (code.housecode 1) 8 ++
      rfm12AskEncodeByte (code.housecode 2) 8 ++
      [if (code.housecode 2 &&& 1) > 0 then 6 else 12]).length = 25 := rfl
  rw [← Nat.add_assoc]
  fin_cases index
  · have first := between (rfm12AskEncodeByte (code.housecode 0) 8 ++
      rfm12AskEncodeByte (code.housecode 1) 8 ++ rfm12AskEncodeByte (code.housecode 2) 8 ++
      [if (code.housecode 2 &&& 1) > 0 then 6 else 12]) (rfm12AskEncodeByte (code.command 1) 8)
    exact first
  · have second := between (rfm12AskEncodeByte (code.housecode 0) 8 ++
      rfm12AskEncodeByte (code.housecode 1) 8 ++ rfm12AskEncodeByte (code.housecode 2) 8 ++
      [if (code.housecode 2 &&& 1) > 0 then 6 else 12] ++ rfm12AskEncodeByte (code.command 0) 8) []
    rw [List.append_nil] at second
    exact second

/-- The decoded code has the bits of the buffer. -/
theorem askSenseDecodeTevion_bits (askBuf : Nat → UInt8) {index : Nat} (inside : index < 41)
    (decoded : index ≠ 24) :
    (tevionCode (askSenseDecodeTevion askBuf)).getD index 0 = 12 ↔ bitAt askBuf index = true := by
  rcases Nat.lt_or_ge index 24 with house | command
  · have bit := tevionCode_housecode (askSenseDecodeTevion askBuf) ⟨index / 8, by omega⟩
      (Nat.mod_lt index (by decide : 8 > 0))
    rw [Nat.div_add_mod] at bit
    exact bit
  · obtain ⟨place, rfl⟩ : ∃ place, index = 25 + place := ⟨index - 25, by omega⟩
    have bit := tevionCode_command (askSenseDecodeTevion askBuf) ⟨place / 8, by omega⟩
      (Nat.mod_lt place (by decide : 8 > 0))
    rw [Nat.div_add_mod] at bit
    rw [bit]
    have joined (index : Fin 2) : (askSenseDecodeTevion askBuf).command index =
        (askBuf (3 + index) <<< 1) ||| (askBuf (4 + index) >>> 7) := by
      fin_cases index <;> rfl
    rw [joined, topBit_join _ _ (Nat.mod_lt place (by decide)), bitAt]
    by_cases last : place % 8 = 7
    · have row : (25 + place) / 8 = 4 + place / 8 := by omega
      have column : (25 + place) % 8 = 0 := by omega
      rw [if_pos last, row, column]
      rfl
    · have row : (25 + place) / 8 = 3 + place / 8 := by omega
      have column : (25 + place) % 8 = place % 8 + 1 := by omega
      rw [if_neg last, row, column]
      rfl

/-- A code is its symbols, without that of the inverse bit. -/
theorem tevionCode_ext {one other : Code}
    (same : ∀ index < 41, index ≠ 24 →
      ((tevionCode one).getD index 0 = 12 ↔ (tevionCode other).getD index 0 = 12)) :
    one = other := by
  obtain ⟨housecode, command⟩ := one
  obtain ⟨housecode', command'⟩ := other
  congr 1
  · funext index
    apply topBit_ext
    intro place inside
    have bit := same (8 * index.val + place) (by omega) (by omega)
    rw [tevionCode_housecode _ index inside, tevionCode_housecode _ index inside] at bit
    exact Bool.eq_iff_iff.mpr bit
  · funext index
    apply topBit_ext
    intro place inside
    have bit := same (25 + (8 * index.val + place)) (by omega) (by omega)
    rw [tevionCode_command _ index inside, tevionCode_command _ index inside] at bit
    exact Bool.eq_iff_iff.mpr bit

/-- A buffer is decoded to a code if it has its bits. -/
theorem askSenseDecodeTevion_eq_iff (askBuf : Nat → UInt8) (code : Code) :
    askSenseDecodeTevion askBuf = code ↔
      ∀ index < 41, index ≠ 24 → (bitAt askBuf index = true ↔ (tevionCode code).getD index 0 = 12) := by
  constructor
  · rintro rfl index inside decoded
    exact (askSenseDecodeTevion_bits askBuf inside decoded).symm
  · intro same
    apply tevionCode_ext
    intro index inside decoded
    rw [askSenseDecodeTevion_bits askBuf inside decoded, same index inside decoded]

end Ethersex.Ask
