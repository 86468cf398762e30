import Mathlib
import Ethersex.Dcf77.Model

/-!
# Counting pulses

What one pulse does to the counter, the register number and the parity, and the
invariant that follows: while the counter is `k + 1`, the last `k` pulses directly
follow the event that set it to 1, and they have passed all checks made so far
(`InFrame`).
-/

namespace Ethersex.Dcf77

/-- A bit as a number. -/
def flag (one : Bool) : UInt8 := if one then 1 else 0

/-- The parity of a group of bits. -/
def parity (bits : List Bool) : Bool := bits.foldl xor false

@[simp] theorem parity_nil : parity [] = false := rfl

@[simp] theorem parity_snoc (bits : List Bool) (one : Bool) :
    parity (bits ++ [one]) = xor (parity bits) one := by
  simp [parity, List.foldl_append]

theorem flag_xor (left right : Bool) : flag (xor left right) = flag left ^^^ flag right := by
  cases left <;> cases right <;> rfl

/-! ## The control fields -/

/-- The register the `switch` goes on to. -/
def byteAt (sync : Nat) (timebyte : Fin 8) : Fin 8 :=
  match sync with
  | 1 => 1
  | 22 => 2
  | 29 => 0
  | 30 => 3
  | 36 => 0
  | 37 => 4
  | 43 => 5
  | 46 => 6
  | 51 => 7
  | 59 => 0
  | _ => timebyte

section Control

variable (one : Bool) (divtime : UInt16) (dcf : Decoder)

@[simp] theorem switch_sync : (dcf.switch divtime).sync = dcf.sync := by
  rw [Decoder.switch]
  split <;> rfl

@[simp] theorem switch_timebyte :
    (dcf.switch divtime).timebyte = byteAt dcf.sync.toNat dcf.timebyte := by
  rw [Decoder.switch, byteAt.eq_def]
  split <;> simp_all [Decoder.openByte, Decoder.closeByte]

@[simp] theorem switch_timeparity :
    (dcf.switch divtime).timeparity =
      if dcf.sync.toNat = 22 ∨ dcf.sync.toNat = 30 ∨ dcf.sync.toNat = 37 then 0
      else dcf.timeparity := by
  rw [Decoder.switch]
  split <;> simp_all [Decoder.openByte, Decoder.closeByte]

@[simp] theorem bit_timebyte : (dcf.bit one).timebyte = dcf.timebyte := by
  simp only [Decoder.bit]
  repeat' split
  all_goals rfl

@[simp] theorem bit_timeparity : (dcf.bit one).timeparity = dcf.timeparity ^^^ flag one := by
  simp only [Decoder.bit]
  repeat' split
  all_goals simp_all [flag]

theorem bit_sync :
    (dcf.bit one).sync =
      if (dcf.sync = 21 ∧ one = false) ∨ (dcf.timebyte = 0 ∧ dcf.timeparity ^^^ flag one ≠ 0) then 0
      else dcf.sync := by
  cases one <;> simp only [Decoder.bit] <;> repeat' split
  all_goals simp_all [flag]

end Control

theorem byteAt_ne {sync : Nat} {timebyte : Fin 8} (open' : sync ≠ 29 ∧ sync ≠ 36 ∧ sync ≠ 59)
    (earlier : sync ≠ 1 → sync ≠ 30 → sync ≠ 37 → timebyte ≠ 0) : byteAt sync timebyte ≠ 0 := by
  rw [byteAt.eq_def]
  split <;> simp_all

theorem byteAt_check {sync : Nat} (timebyte : Fin 8) (check : sync = 29 ∨ sync = 36 ∨ sync = 59) :
    byteAt sync timebyte = 0 := by
  rcases check with rfl | rfl | rfl <;> rfl

/-! ## Events and the bits they carry -/

/-- A minute gap. -/
def Event.IsGap (event : Event) : Prop :=
  event.low = false ∧ 0x1C0 < event.divtime ∧ event.divtime < 0x1F0

instance (event : Event) : Decidable event.IsGap := inferInstanceAs (Decidable (_ ∧ _))

/-- The length of a pulse for a bit.  Zeros are not longer than `zero`. -/
def Fits (zero : UInt16) (one : Bool) (divtime : UInt16) : Prop :=
  if one then 0x29 ≤ divtime ∧ divtime ≤ 0x3F else 0x0B ≤ divtime ∧ divtime ≤ zero

instance (zero : UInt16) (one : Bool) (divtime : UInt16) : Decidable (Fits zero one divtime) :=
  inferInstanceAs (Decidable (ite _ _ _))

/-- Pulses of acceptable length with the bits they stand for, acceptable pauses, and
ignored events. -/
inductive Carries (zero : UInt16) : List Bool → List Event → Prop where
  | nil : Carries zero [] []
  | glitch {bits : List Bool} {events : List Event} (low : Bool) {divtime : UInt16}
      (short : divtime ≤ 5) (rest : Carries zero bits events) :
      Carries zero bits (events ++ [⟨low, divtime⟩])
  | pause {bits : List Bool} {events : List Event} {divtime : UInt16}
      (lower : 0xB8 ≤ divtime) (upper : divtime ≤ 0xF8) (rest : Carries zero bits events) :
      Carries zero bits (events ++ [⟨false, divtime⟩])
  | pulse {bits : List Bool} {events : List Event} {one : Bool} {divtime : UInt16}
      (fits : Fits zero one divtime) (rest : Carries zero bits events) :
      Carries zero (bits ++ [one]) (events ++ [⟨true, divtime⟩])

/-- The checks made on the pulses received so far. -/
structure ChecksPass (bits : List Bool) : Prop where
  start : 20 < bits.length → bits[20]? = some true
  minutes : 28 < bits.length → parity ((bits.drop 21).take 8) = false
  hours : 35 < bits.length → parity ((bits.drop 29).take 7) = false
  date : 58 < bits.length → parity ((bits.drop 36).take 23) = false

/-- All 59 pulses of a minute. -/
def ValidMinute (bits : List Bool) : Prop := bits.length = 59 ∧ ChecksPass bits

/-- The pulse fails the check the decoder makes on it. -/
def FailsCheck (one : Bool) (dcf : Decoder) : Prop :=
  (dcf.sync = 21 ∧ one = false) ∨
    ((dcf.sync = 29 ∨ dcf.sync = 36 ∨ dcf.sync = 59) ∧ dcf.timeparity ≠ flag one)

/-- The decoder has received `bits` since it started to count. -/
structure InFrame (bits : List Bool) (dcf : Decoder) : Prop where
  sync : dcf.sync.toNat = bits.length + 1
  few : bits.length ≤ 58
  checks : ChecksPass bits
  timebyte : bits.length ≠ 0 → bits.length ≠ 29 → bits.length ≠ 36 → dcf.timebyte ≠ 0
  minutes : 21 < bits.length → bits.length ≤ 28 → dcf.timeparity = flag (parity (bits.drop 21))
  hours : 29 < bits.length → bits.length ≤ 35 → dcf.timeparity = flag (parity (bits.drop 29))
  date : 36 < bits.length → dcf.timeparity = flag (parity (bits.drop 36))

theorem checksPass_of_short {bits : List Bool} (short : bits.length ≤ 20) : ChecksPass bits :=
  ⟨fun long => by omega, fun long => by omega, fun long => by omega, fun long => by omega⟩

theorem inFrame_nil {dcf : Decoder} (start : dcf.sync = 1) : InFrame [] dcf where
  sync := by rw [start]; rfl
  few := Nat.zero_le _
  checks := checksPass_of_short (Nat.zero_le _)
  timebyte := fun some => absurd rfl some
  minutes := fun many => absurd many (Nat.not_lt_zero _)
  hours := fun many => absurd many (Nat.not_lt_zero _)
  date := fun many => absurd many (Nat.not_lt_zero _)

section Frame

variable {bits : List Bool} {dcf : Decoder} {one : Bool} {divtime : UInt16}

/-- The checks after one more pulse. -/
theorem checksPass_snoc (checks : ChecksPass bits) :
    ChecksPass (bits ++ [one]) ↔
      (bits.length = 20 → one = true) ∧
        (bits.length = 28 → parity (bits.drop 21) = one) ∧
        (bits.length = 35 → parity (bits.drop 29) = one) ∧
        (bits.length = 58 → parity (bits.drop 36) = one) := by
  have group (start count : Nat) (last : bits.length + 1 = start + (count + 1)) :
      ((bits ++ [one]).drop start).take (count + 1) = bits.drop start ++ [one] := by
    rw [List.drop_append_of_le_length (by omega), List.take_of_length_le (by simp; omega)]
  have earlier (start count : Nat) (more : start + count ≤ bits.length) :
      ((bits ++ [one]).drop start).take count = (bits.drop start).take count := by
    rw [List.drop_append_of_le_length (by omega), List.take_append_of_le_length (by simp; omega)]
  have even (left : Bool) : xor left one = false ↔ left = one := by
    cases left <;> cases one <;> simp
  constructor
  · rintro ⟨start, minutes, hours, date⟩
    simp only [List.length_append, List.length_singleton] at start minutes hours date
    refine ⟨fun here => ?_, fun here => ?_, fun here => ?_, fun here => ?_⟩
    · have first := start (by omega)
      rw [List.getElem?_append_right (by omega), here] at first
      simpa using first
    · have sum := minutes (by omega)
      rwa [group 21 7 (by omega), parity_snoc, even] at sum
    · have sum := hours (by omega)
      rwa [group 29 6 (by omega), parity_snoc, even] at sum
    · have sum := date (by omega)
      rwa [group 36 22 (by omega), parity_snoc, even] at sum
  · rintro ⟨start, minutes, hours, date⟩
    constructor <;> intro long <;> simp only [List.length_append, List.length_singleton] at long
    · rcases Nat.lt_or_ge 20 bits.length with before | now
      · rw [List.getElem?_append_left before]
        exact checks.start before
      · rw [List.getElem?_append_right now, start (by omega)]
        simp [show 20 - bits.length = 0 by omega]
    · rcases Nat.lt_or_ge 28 bits.length with before | now
      · rw [earlier 21 8 (by omega)]
        exact checks.minutes before
      · rw [group 21 7 (by omega), parity_snoc, even]
        exact minutes (by omega)
    · rcases Nat.lt_or_ge 35 bits.length with before | now
      · rw [earlier 29 7 (by omega)]
        exact checks.hours before
      · rw [group 29 6 (by omega), parity_snoc, even]
        exact hours (by omega)
    · rcases Nat.lt_or_ge 58 bits.length with before | now
      · rw [earlier 36 23 (by omega)]
        exact checks.date before
      · rw [group 36 22 (by omega), parity_snoc, even]
        exact date (by omega)

theorem InFrame.sync_eq (frame : InFrame bits dcf) (number : UInt8) :
    dcf.sync = number ↔ bits.length + 1 = number.toNat := by
  rw [← frame.sync, UInt8.toNat_inj]

/-- In a frame the decoder checks exactly what the frame is required to satisfy. -/
theorem InFrame.failsCheck_iff (frame : InFrame bits dcf) :
    FailsCheck one dcf ↔ ¬ChecksPass (bits ++ [one]) := by
  have same (group : List Bool) (equal : dcf.timeparity = flag (parity group)) :
      dcf.timeparity = flag one ↔ parity group = one := by
    rw [equal]
    cases parity group <;> cases one <;> decide
  have few := frame.few
  rw [checksPass_snoc frame.checks, FailsCheck, frame.sync_eq, frame.sync_eq, frame.sync_eq,
    frame.sync_eq]
  simp only [UInt8.reduceToNat, Nat.reduceEqDiff]
  rcases Nat.lt_trichotomy bits.length 28 with low | here | high
  · simp only [show bits.length ≠ 28 by omega, show bits.length ≠ 35 by omega,
      show bits.length ≠ 58 by omega, false_imp_iff, false_and, or_false, and_true]
    cases one <;> simp
  · have minutes := same _ (frame.minutes (by omega) (by omega))
    simp [here, minutes]
  · rcases Nat.lt_trichotomy bits.length 35 with low | here | high
    · simp [show bits.length ≠ 20 by omega, show bits.length ≠ 28 by omega,
        show bits.length ≠ 35 by omega, show bits.length ≠ 58 by omega]
    · have hours := same _ (frame.hours (by omega) (by omega))
      simp [here, hours]
    · by_cases last : bits.length = 58
      · have date := same _ (frame.date (by omega))
        simp [last, date]
      · simp [show bits.length ≠ 20 by omega, show bits.length ≠ 28 by omega,
          show bits.length ≠ 35 by omega, last]

/-- In a frame a register is selected, except where a check is made. -/
theorem InFrame.switch_timebyte (frame : InFrame bits dcf) :
    (dcf.switch divtime).timebyte = 0 ↔
      dcf.sync = 29 ∨ dcf.sync = 36 ∨ dcf.sync = 59 := by
  rw [Dcf77.switch_timebyte, frame.sync_eq, frame.sync_eq, frame.sync_eq, frame.sync]
  simp only [UInt8.reduceToNat]
  constructor
  · intro closed
    by_contra other
    refine byteAt_ne (by omega) (fun first hour day => frame.timebyte ?_ ?_ ?_) closed <;> omega
  · exact byteAt_check dcf.timebyte

/-- A pulse that fails its check sets the counter to 0. -/
theorem InFrame.bit_sync (frame : InFrame bits dcf) :
    ((ChecksPass (bits ++ [one]) → ((dcf.switch divtime).bit one).sync = dcf.sync) ∧
      (¬ChecksPass (bits ++ [one]) → ((dcf.switch divtime).bit one).sync = 0)) := by
  have fails : (dcf.sync = 21 ∧ one = false) ∨
      ((dcf.switch divtime).timebyte = 0 ∧ (dcf.switch divtime).timeparity ^^^ flag one ≠ 0) ↔
        FailsCheck one dcf := by
    have differ : dcf.timeparity ^^^ flag one ≠ 0 ↔ dcf.timeparity ≠ flag one :=
      not_congr UInt8.xor_eq_zero_iff
    rw [frame.switch_timebyte, switch_timeparity, FailsCheck]
    refine or_congr_right (and_congr_right fun check => ?_)
    rw [if_neg, differ]
    rcases check with check | check | check <;> rw [check] <;> decide
  rw [Dcf77.bit_sync, switch_sync]
  constructor
  · intro pass
    exact if_neg fun failed => frame.failsCheck_iff.mp (fails.mp failed) pass
  · intro fail
    exact if_pos (fails.mpr (frame.failsCheck_iff.mpr fail))

/-- The parity of a group of bits is collected from its first bit on. -/
theorem timeparity_snoc (frame : InFrame bits dcf) (start : Nat) (begun : start ≤ bits.length)
    (resets : bits.length = start → bits.length = 21 ∨ bits.length = 29 ∨ bits.length = 36)
    (collects : start < bits.length → bits.length ≠ 21 ∧ bits.length ≠ 29 ∧ bits.length ≠ 36 ∧
      dcf.timeparity = flag (parity (bits.drop start))) :
    ((dcf.switch divtime).bit one).timeparity = flag (parity ((bits ++ [one]).drop start)) := by
  rw [bit_timeparity, switch_timeparity, frame.sync, List.drop_append_of_le_length begun,
    parity_snoc, flag_xor]
  rcases Nat.eq_or_lt_of_le begun with first | later
  · have here := resets first.symm
    rw [if_pos (by omega), List.drop_of_length_le (by omega), parity_nil]
    rfl
  · obtain ⟨noMinute, noHour, noDay, kept⟩ := collects later
    rw [if_neg (by omega), kept]

/-- A pulse that passes its check extends the frame. -/
theorem InFrame.extend (frame : InFrame bits dcf) (short : bits.length < 58)
    (pass : ChecksPass (bits ++ [one])) :
    InFrame (bits ++ [one])
      { (dcf.switch divtime).bit one with sync := ((dcf.switch divtime).bit one).sync + 1 } where
  sync := by
    rw [(frame.bit_sync).1 pass, UInt8.toNat_add, frame.sync, UInt8.toNat_one, List.length_append,
      List.length_singleton]
    omega
  few := by
    rw [List.length_append, List.length_singleton]
    exact short
  checks := pass
  timebyte := by
    intro some noMinutes noHours
    rw [List.length_append, List.length_singleton] at noMinutes noHours
    simp only [bit_timebyte, Dcf77.switch_timebyte]
    rw [frame.sync]
    refine byteAt_ne (by omega) fun first hour day => frame.timebyte ?_ ?_ ?_ <;> omega
  minutes := by
    intro many fewer
    rw [List.length_append, List.length_singleton] at many fewer
    refine timeparity_snoc frame 21 (by omega) (fun here => Or.inl here) fun later => ?_
    exact ⟨by omega, by omega, by omega, frame.minutes later (by omega)⟩
  hours := by
    intro many fewer
    rw [List.length_append, List.length_singleton] at many fewer
    refine timeparity_snoc frame 29 (by omega) (fun here => Or.inr (Or.inl here)) fun later => ?_
    exact ⟨by omega, by omega, by omega, frame.hours later (by omega)⟩
  date := by
    intro many
    rw [List.length_append, List.length_singleton] at many
    refine timeparity_snoc frame 36 (by omega) (fun here => Or.inr (Or.inr here)) fun later => ?_
    exact ⟨by omega, by omega, by omega, frame.date later⟩

end Frame

/-! ## Pulses -/

section Pulse

variable {bits : List Bool} {dcf : Decoder} {divtime : UInt16}

theorem pulse_of_fits (behind : Nat → UInt8) (lower : 0x0B ≤ divtime) (upper : divtime ≤ 0x3F)
    (inside : 0 < dcf.sync ∧ dcf.sync < 60) :
    dcf.pulse behind divtime =
      ({ (dcf.switch divtime).bit (decide (0x28 < divtime)) with
          sync := ((dcf.switch divtime).bit (decide (0x28 < divtime))).sync + 1 },
        if ((dcf.switch divtime).bit (decide (0x28 < divtime))).sync = 59 then
          some (Clock.clockUtc2timestamp behind
            ((dcf.switch divtime).bit (decide (0x28 < divtime))).date
            ((dcf.switch divtime).bit (decide (0x28 < divtime))).timezone)
        else none) := by
  have acceptable : ¬(divtime > 0x3F ∨ divtime < 0x0B) := by
    rw [not_or, gt_iff_lt, UInt16.not_lt, UInt16.not_lt]
    exact ⟨upper, lower⟩
  simp only [Decoder.pulse, if_neg acceptable, if_pos inside]

theorem InFrame.inside (frame : InFrame bits dcf) : 0 < dcf.sync ∧ dcf.sync < 60 := by
  have few := frame.few
  rw [UInt8.lt_iff_toNat_lt, UInt8.lt_iff_toNat_lt, frame.sync]
  exact ⟨Nat.succ_pos _, Nat.lt_of_le_of_lt (Nat.succ_le_succ few) (by decide)⟩

theorem InFrame.pulse_short (frame : InFrame bits dcf) (behind : Nat → UInt8)
    (lower : 0x0B ≤ divtime) (upper : divtime ≤ 0x3F) (short : bits.length < 58)
    (pass : ChecksPass (bits ++ [decide (0x28 < divtime)])) :
    InFrame (bits ++ [decide (0x28 < divtime)]) (dcf.pulse behind divtime).1 ∧
      (dcf.pulse behind divtime).2 = none := by
  rw [pulse_of_fits behind lower upper frame.inside]
  refine ⟨frame.extend short pass, if_neg ?_⟩
  rw [frame.bit_sync.1 pass, frame.sync_eq]
  simp only [UInt8.reduceToNat]
  omega

theorem InFrame.pulse_last (frame : InFrame bits dcf) (behind : Nat → UInt8)
    (lower : 0x0B ≤ divtime) (upper : divtime ≤ 0x3F) (last : bits.length = 58)
    (pass : ChecksPass (bits ++ [decide (0x28 < divtime)])) :
    (dcf.pulse behind divtime).1.sync = 60 ∧ (dcf.pulse behind divtime).2.isSome := by
  have sync : dcf.sync = 59 := by
    rw [frame.sync_eq, last]
    rfl
  rw [pulse_of_fits behind lower upper frame.inside, frame.bit_sync.1 pass, sync]
  exact ⟨rfl, rfl⟩

/-- A pulse that fails its check starts a frame, as a minute gap does. -/
theorem InFrame.pulse_fails (frame : InFrame bits dcf) (behind : Nat → UInt8)
    (lower : 0x0B ≤ divtime) (upper : divtime ≤ 0x3F)
    (fail : ¬ChecksPass (bits ++ [decide (0x28 < divtime)])) :
    InFrame [] (dcf.pulse behind divtime).1 ∧ (dcf.pulse behind divtime).2 = none := by
  rw [pulse_of_fits behind lower upper frame.inside, frame.bit_sync.2 fail]
  exact ⟨inFrame_nil rfl, rfl⟩

end Pulse

end Ethersex.Dcf77
