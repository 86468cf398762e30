import Mathlib
import Ethersex.Dcf77.Frames

/-!
# Decoding a minute

The registers of the decoder, which depend on the number of a pulse and its bit but
not on the parity, and the minutes a transmitter sends.  A minute that follows a
minute gap is decoded whatever happened before.
-/

namespace Ethersex.Dcf77

open Clock

/-! ## Shift registers -/

/-- The number whose bits, lowest first, are given. -/
def value : List Bool → Nat
  | [] => 0
  | one :: rest => one.toNat + 2 * value rest

/-- The lowest `count` bits of a number, lowest first. -/
def bitsOf : Nat → Nat → List Bool
  | 0, _ => []
  | count + 1, number => decide (number % 2 = 1) :: bitsOf count (number / 2)

@[simp] theorem bitsOf_length (count number : Nat) : (bitsOf count number).length = count := by
  induction count generalizing number with
  | zero => rfl
  | succ count ih => rw [bitsOf, List.length_cons, ih]

theorem value_bitsOf (count number : Nat) : value (bitsOf count number) = number % 2 ^ count := by
  induction count generalizing number with
  | zero => rw [pow_zero, Nat.mod_one, bitsOf, value]
  | succ count ih =>
      have low : (decide (number % 2 = 1)).toNat = number % 2 := by
        rcases Nat.mod_two_eq_zero_or_one number with even | odd
        · rw [even]
          rfl
        · rw [odd]
          rfl
      rw [bitsOf, value, ih, low, pow_succ', Nat.mod_mul]

/-- One bit enters a register at the top. -/
def shiftBit (one : Bool) (register : UInt8) : UInt8 :=
  register >>> 1 ||| (if one then 0x80 else 0)

def shiftIn (bits : List Bool) (register : UInt8) : UInt8 :=
  bits.foldl (fun register one => shiftBit one register) register

theorem shiftBit_toNat (one : Bool) (register : UInt8) :
    (shiftBit one register).toNat = register.toNat / 2 + 128 * one.toNat := by
  have small : register.toNat / 2 < 2 ^ 7 := by
    have := register.toNat_lt
    omega
  cases one with
  | false => simp [shiftBit, Nat.shiftRight_eq_div_pow]
  | true =>
      have joined := Nat.two_pow_add_eq_or_of_lt small 1
      simp only [shiftBit, UInt8.toNat_or, UInt8.toNat_shiftRight, Nat.shiftRight_eq_div_pow,
        if_true, UInt8.reduceToNat, Bool.toNat_true]
      rw [Nat.or_comm]
      simpa [Nat.add_comm] using joined.symm

/-- The register holds what is left of its old value, and above it the new bits. -/
theorem shiftIn_toNat (bits : List Bool) (few : bits.length ≤ 8) (register : UInt8) :
    (shiftIn bits register).toNat =
      register.toNat / 2 ^ bits.length + 2 ^ (8 - bits.length) * value bits := by
  induction bits generalizing register with
  | nil => simp [shiftIn, value]
  | cons one rest ih =>
      rw [List.length_cons] at few
      have split : 128 * one.toNat = 2 ^ (7 - rest.length) * one.toNat * 2 ^ rest.length := by
        rw [Nat.mul_right_comm, ← pow_add, show 7 - rest.length + rest.length = 7 by omega]
        rfl
      change (shiftIn rest (shiftBit one register)).toNat = _
      rw [ih (by omega), shiftBit_toNat, split, Nat.add_mul_div_right _ _ (by positivity),
        Nat.div_div_eq_div_mul, ← pow_succ', List.length_cons, value,
        show 8 - rest.length = 7 - rest.length + 1 by omega,
        show 8 - (rest.length + 1) = 7 - rest.length by omega, pow_succ]
      ring

/-- The `case` behind the last bit moves the bits to the bottom. -/
theorem shiftIn_closed (bits : List Bool) (few : bits.length ≤ 8) (register shift : UInt8)
    (is : shift.toNat = 8 - bits.length) (positive : 0 < bits.length) :
    (shiftIn bits register >>> shift).toNat = value bits := by
  have small := register.toNat_lt
  have left : register.toNat / 2 ^ bits.length < 2 ^ (8 - bits.length) := by
    rw [Nat.div_lt_iff_lt_mul (by positivity), ← pow_add,
      show 8 - bits.length + bits.length = 8 by omega]
    exact small
  rw [UInt8.toNat_shiftRight, is, Nat.mod_eq_of_lt (by omega), Nat.shiftRight_eq_div_pow,
    shiftIn_toNat bits few, Nat.add_mul_div_left _ _ (by positivity), Nat.div_eq_of_lt left,
    Nat.zero_add]

/-! ## Registers -/

/-- The fields of the decoder that hold data. -/
structure Registers where
  timezone : UInt8
  time : Fin 8 → UInt8
  timebyte : Fin 8

def Decoder.registers (dcf : Decoder) : Registers := ⟨dcf.timezone, dcf.time, dcf.timebyte⟩

/-- The `switch` on pulse number `sync`. -/
def Registers.switch (sync : Nat) (one : Bool) (registers : Registers) : Registers where
  timezone := if sync = 18 then flag one else registers.timezone
  time :=
    if sync = 29 then
      Function.update registers.time registers.timebyte (registers.time registers.timebyte >>> 1)
    else if sync = 36 ∨ sync = 43 then
      Function.update registers.time registers.timebyte (registers.time registers.timebyte >>> 2)
    else if sync = 46 then
      Function.update registers.time registers.timebyte (registers.time registers.timebyte >>> 5)
    else if sync = 51 then
      Function.update registers.time registers.timebyte (registers.time registers.timebyte >>> 3)
    else registers.time
  timebyte := byteAt sync registers.timebyte

def Registers.shift (one : Bool) (registers : Registers) : Registers :=
  if registers.timebyte = 0 then registers
  else
    { registers with
      time := Function.update registers.time registers.timebyte
        (shiftBit one (registers.time registers.timebyte)) }

/-- Pulses from number `sync` on. -/
def Registers.receive : Nat → List Bool → Registers → Registers
  | _, [], registers => registers
  | sync, one :: rest, registers => receive (sync + 1) rest ((registers.switch sync one).shift one)

theorem receive_append (first second : List Bool) (sync : Nat) (registers : Registers) :
    registers.receive sync (first ++ second) =
      (registers.receive sync first).receive (sync + first.length) second := by
  induction first generalizing sync registers with
  | nil => rfl
  | cons one rest ih =>
      rw [List.cons_append, Registers.receive, Registers.receive, ih, List.length_cons,
        Nat.add_right_comm, Nat.add_assoc]

/-- A pulse of nominal length. -/
theorem bit_registers (one : Bool) (dcf : Decoder) :
    (dcf.bit one).registers = dcf.registers.shift one := by
  have shifted (register : UInt8) :
      shiftBit one register = if one then register >>> 1 ||| 0x80 else register >>> 1 := by
    cases one <;> simp [shiftBit]
  simp only [Registers.shift, Decoder.registers, shifted]
  cases one <;> simp only [Decoder.bit] <;> repeat' split
  all_goals simp_all

theorem switch_registers {one : Bool} {divtime : UInt16} (clear : divtime < 34 ↔ one = false)
    (dcf : Decoder) :
    (dcf.switch divtime).registers = dcf.registers.switch dcf.sync.toNat one := by
  have zone : (if divtime < 34 then 0 else 1 : UInt8) = flag one := by
    simp only [clear, flag]
    cases one <;> rfl
  rw [Decoder.switch]
  split <;>
    simp_all [Registers.switch, Decoder.registers, Decoder.openByte, Decoder.closeByte, byteAt]

/-- The date in the registers. -/
def Registers.date (registers : Registers) : Datetime where
  sec := 0
  min := bcd2bin (registers.time 2)
  hour := bcd2bin (registers.time 3)
  day := bcd2bin (registers.time 4)
  month := bcd2bin (registers.time 6)
  dow := 0
  year := bcd2bin (registers.time 7)

/-! ## Runs -/

section Runs

variable {behind : Nat → UInt8} {dcf : Decoder} {bits : List Bool} {frame : List Event}
  {zero : UInt16}

theorem run_snoc (events : List Event) (event : Event) :
    dcf.run behind (events ++ [event]) = ((dcf.run behind events).step behind event).1 := by
  simp [Decoder.run, List.foldl_append]

theorem calls_append (first second : List Event) :
    dcf.calls behind (first ++ second) =
      dcf.calls behind first ++ (dcf.run behind first).calls behind second := by
  induction first generalizing dcf with
  | nil => rfl
  | cons event rest ih =>
      rw [List.cons_append, Decoder.calls, Decoder.calls, ih, List.append_assoc]
      rfl

theorem calls_snoc (events : List Event) (event : Event) :
    dcf.calls behind (events ++ [event]) =
      dcf.calls behind events ++ ((dcf.run behind events).step behind event).2.toList := by
  rw [calls_append, Decoder.calls, Decoder.calls, List.append_nil]

theorem step_glitch (low : Bool) {divtime : UInt16} (short : divtime ≤ 5) :
    dcf.step behind ⟨low, divtime⟩ = (dcf, none) := by
  rw [Decoder.step, if_neg (by rwa [gt_iff_lt, UInt16.not_lt])]

theorem step_pause {divtime : UInt16} (lower : 0xB8 ≤ divtime) (upper : divtime ≤ 0xF8) :
    dcf.step behind ⟨false, divtime⟩ = (dcf, none) := by
  have long : divtime > 5 := UInt16.lt_of_lt_of_le (by decide) lower
  have acceptable : ¬(divtime > 0xF8 ∨ divtime < 0xB8) := by
    rw [not_or, gt_iff_lt, UInt16.not_lt, UInt16.not_lt]
    exact ⟨upper, lower⟩
  have noGap : ¬(divtime > 0x1C0 ∧ divtime < 0x1F0 ∧ dcf.sync = 0) := fun gap =>
    absurd (UInt16.lt_of_lt_of_le gap.1 upper) (by decide)
  simp only [Decoder.step, if_pos long, Bool.false_eq_true, if_false, Decoder.pause,
    if_neg acceptable, if_neg noGap]

theorem step_pulse {divtime : UInt16} (lower : 0x0B ≤ divtime) :
    dcf.step behind ⟨true, divtime⟩ = dcf.pulse behind divtime := by
  have long : divtime > 5 := UInt16.lt_of_lt_of_le (by decide) lower
  simp only [Decoder.step, if_pos long, if_true]

/-- A minute gap starts a frame. -/
theorem step_gap {gap : Event} (is : gap.IsGap) :
    InFrame [] (dcf.step behind gap).1 ∧ (dcf.step behind gap).2 = none := by
  obtain ⟨high, lower, upper⟩ := is
  have long : gap.divtime > 5 := UInt16.lt_trans (by decide) lower
  have unacceptable : gap.divtime > 0xF8 ∨ gap.divtime < 0xB8 := Or.inl (UInt16.lt_trans (by decide) lower)
  have started : gap.divtime > 0x1C0 ∧ gap.divtime < 0x1F0 := ⟨lower, upper⟩
  simp only [Decoder.step, if_pos long, high, Bool.false_eq_true, if_false, Decoder.pause,
    if_pos unacceptable, and_true, if_pos started]
  exact inFrame_nil rfl

theorem ChecksPass.of_snoc {one : Bool} (pass : ChecksPass (bits ++ [one])) : ChecksPass bits := by
  have earlier (start count : Nat) (more : start + count ≤ bits.length) :
      ((bits ++ [one]).drop start).take count = (bits.drop start).take count := by
    rw [List.drop_append_of_le_length (by omega), List.take_append_of_le_length (by simp; omega)]
  constructor
  · intro long
    have start := pass.start (by simp; omega)
    rwa [List.getElem?_append_left long] at start
  · intro long
    rw [← earlier 21 8 (by omega)]
    exact pass.minutes (by simp; omega)
  · intro long
    rw [← earlier 29 7 (by omega)]
    exact pass.hours (by simp; omega)
  · intro long
    rw [← earlier 36 23 (by omega)]
    exact pass.date (by simp; omega)

/-- The decoder accepts the pulse and takes it for the bit. -/
theorem Fits.bounds {one : Bool} {divtime : UInt16} (fits : Fits zero one divtime)
    (small : zero ≤ 0x28) :
    0x0B ≤ divtime ∧ divtime ≤ 0x3F ∧ decide (0x28 < divtime) = one := by
  cases one with
  | false =>
      obtain ⟨lower, upper⟩ := fits
      have short := UInt16.le_trans upper small
      refine ⟨lower, UInt16.le_trans short (by decide), ?_⟩
      rw [decide_eq_false_iff_not, UInt16.not_lt]
      exact short
  | true =>
      obtain ⟨lower, upper⟩ := fits
      refine ⟨UInt16.le_trans (by decide) lower, upper, ?_⟩
      rw [decide_eq_true_iff]
      exact UInt16.lt_of_lt_of_le (by decide) lower

/-- The first 58 pulses of a frame cause no call. -/
theorem InFrame.run (start : InFrame [] dcf) (behind : Nat → UInt8) (small : zero ≤ 0x28)
    (carries : Carries zero bits frame) (pass : ChecksPass bits) (few : bits.length ≤ 58) :
    InFrame bits (dcf.run behind frame) ∧ dcf.calls behind frame = [] := by
  induction carries with
  | nil => exact ⟨start, rfl⟩
  | glitch low short rest ih =>
      obtain ⟨inFrame, quiet⟩ := ih pass few
      rw [run_snoc, calls_snoc, step_glitch low short, quiet]
      exact ⟨inFrame, rfl⟩
  | pause lower upper rest ih =>
      obtain ⟨inFrame, quiet⟩ := ih pass few
      rw [run_snoc, calls_snoc, step_pause lower upper, quiet]
      exact ⟨inFrame, rfl⟩
  | @pulse bits events one divtime fits rest ih =>
      rw [List.length_append, List.length_singleton] at few
      obtain ⟨inFrame, quiet⟩ := ih pass.of_snoc (by omega)
      obtain ⟨lower, upper, rfl⟩ := fits.bounds small
      obtain ⟨extended, silent⟩ := inFrame.pulse_short behind lower upper (by omega) pass
      rw [run_snoc, calls_snoc, step_pulse lower, quiet, silent]
      exact ⟨extended, rfl⟩

theorem InFrame.pulse_registers (inFrame : InFrame bits dcf) (behind : Nat → UInt8) {one : Bool}
    {divtime : UInt16} (fits : Fits 33 one divtime) :
    (dcf.pulse behind divtime).1.registers =
      (dcf.registers.switch (bits.length + 1) one).shift one := by
  obtain ⟨lower, upper, is⟩ := fits.bounds (by decide)
  have clear : divtime < 34 ↔ one = false := by
    cases one with
    | false => exact ⟨fun _ => rfl, fun _ => UInt16.lt_of_le_of_lt fits.2 (by decide)⟩
    | true =>
        refine ⟨fun short => absurd short ?_, fun impossible => nomatch impossible⟩
        rw [UInt16.not_lt]
        exact UInt16.le_trans (by decide) fits.1
  rw [pulse_of_fits behind lower upper inFrame.inside, is, ← inFrame.sync,
    ← switch_registers clear, ← bit_registers]
  rfl

/-- The registers of a frame depend on its bits only. -/
theorem InFrame.run_registers (start : InFrame [] dcf) (behind : Nat → UInt8)
    (carries : Carries 33 bits frame) (pass : ChecksPass bits) (few : bits.length ≤ 58) :
    (dcf.run behind frame).registers = dcf.registers.receive 1 bits := by
  induction carries with
  | nil => rfl
  | glitch low short rest ih => rw [run_snoc, step_glitch low short, ih pass few]
  | pause lower upper rest ih => rw [run_snoc, step_pause lower upper, ih pass few]
  | @pulse bits events one divtime fits rest ih =>
      rw [List.length_append, List.length_singleton] at few
      obtain ⟨inFrame, -⟩ := start.run behind (by decide) rest pass.of_snoc (by omega)
      rw [run_snoc, step_pulse (fits.bounds (by decide)).1, inFrame.pulse_registers behind fits,
        ih pass.of_snoc (by omega), receive_append, Nat.add_comm 1]
      rfl

/-- A whole frame sets the clock to the date in the registers. -/
theorem InFrame.run_calls (start : InFrame [] dcf) (behind : Nat → UInt8)
    (carries : Carries 33 bits frame) (valid : ValidMinute bits) :
    dcf.calls behind frame =
      [clockUtc2timestamp behind (dcf.registers.receive 1 bits).date
        (dcf.registers.receive 1 bits).timezone] := by
  obtain ⟨length, pass⟩ := valid
  induction carries with
  | nil => exact absurd length (by decide)
  | glitch low short rest ih =>
      rw [calls_snoc, ih length pass, step_glitch low short]
      rfl
  | pause lower upper rest ih =>
      rw [calls_snoc, ih length pass, step_pause lower upper]
      rfl
  | @pulse bits events one divtime fits rest ih =>
      rw [List.length_append, List.length_singleton] at length
      obtain ⟨inFrame, quiet⟩ := start.run behind (by decide) rest pass.of_snoc (by omega)
      obtain ⟨lower, upper, is⟩ := fits.bounds (by decide)
      have registers := inFrame.pulse_registers behind fits
      rw [start.run_registers behind rest pass.of_snoc (by omega)] at registers
      have final : dcf.registers.receive 1 (bits ++ [one]) =
          ((dcf.run behind events).pulse behind divtime).1.registers := by
        rw [registers, receive_append, Nat.add_comm 1]
        rfl
      have sync : (dcf.run behind events).sync = 59 := by
        rw [inFrame.sync_eq, show bits.length = 58 by omega]
        rfl
      rw [calls_snoc, quiet, step_pulse lower, final,
        pulse_of_fits behind lower upper inFrame.inside, is, inFrame.bit_sync.1 pass, sync]
      rfl

end Runs

/-! ## Fields -/

/-- Between these pulses the register stays the same. -/
def Quiet (sync : Nat) : Prop :=
  sync ∉ [1, 18, 22, 29, 30, 36, 37, 43, 46, 51, 59]

instance (sync : Nat) : Decidable (Quiet sync) := inferInstanceAs (Decidable (¬_))

/-- Bits collected in the selected register. -/
def Registers.collect (bits : List Bool) (registers : Registers) : Registers :=
  { registers with
    time := Function.update registers.time registers.timebyte
      (shiftIn bits (registers.time registers.timebyte)) }

theorem switch_of_quiet {sync : Nat} (quiet : Quiet sync) (one : Bool) (registers : Registers) :
    registers.switch sync one = registers := by
  simp only [Quiet, List.mem_cons, List.not_mem_nil, or_false, not_or] at quiet
  have byte : byteAt sync registers.timebyte = registers.timebyte := by
    rw [byteAt.eq_def]
    split <;> simp_all
  simp only [Registers.switch, quiet, byte, if_false, or_self]

theorem receive_quiet (bits : List Bool) {sync : Nat}
    (quiet : ∀ k, sync ≤ k → k < sync + bits.length → Quiet k) {registers : Registers}
    (selected : registers.timebyte ≠ 0) :
    registers.receive sync bits = registers.collect bits := by
  induction bits generalizing sync registers with
  | nil => simp [Registers.receive, Registers.collect, shiftIn]
  | cons one rest ih =>
      rw [List.length_cons] at quiet
      rw [Registers.receive, switch_of_quiet (quiet sync (le_refl _) (by omega)), Registers.shift,
        if_neg selected]
      refine Eq.trans (ih (fun k lower upper => quiet k (by omega) (by omega)) selected) ?_
      simp [Registers.collect, shiftIn]

/-- The bits of a field, of which the first one selects the register. -/
theorem receive_field (one : Bool) (rest : List Bool) (sync : Nat)
    (quiet : ∀ k < rest.length, Quiet (sync + 1 + k)) {registers : Registers}
    (selected : (registers.switch sync one).timebyte ≠ 0) :
    registers.receive sync (one :: rest) = (registers.switch sync one).collect (one :: rest) := by
  have inside (k : Nat) (lower : sync + 1 ≤ k) (upper : k < sync + 1 + rest.length) : Quiet k := by
    have here := quiet (k - (sync + 1)) (by omega)
    rwa [show sync + 1 + (k - (sync + 1)) = k by omega] at here
  rw [Registers.receive, Registers.shift, if_neg selected]
  refine Eq.trans (receive_quiet rest inside selected) ?_
  simp [Registers.collect, shiftIn]

@[simp] theorem collect_timezone (bits : List Bool) (registers : Registers) :
    (registers.collect bits).timezone = registers.timezone := rfl

@[simp] theorem collect_timebyte (bits : List Bool) (registers : Registers) :
    (registers.collect bits).timebyte = registers.timebyte := rfl

theorem collect_time (bits : List Bool) (registers : Registers) (byte : Fin 8) :
    (registers.collect bits).time byte =
      if byte = registers.timebyte then shiftIn bits (registers.time byte)
      else registers.time byte := by
  by_cases same : byte = registers.timebyte
  · subst same
    simp [Registers.collect]
  · simp [Registers.collect, same]

/-! ## Minutes -/

/-- A number of two digits in `count` bits. -/
def bcd (count number : Nat) : List Bool := bitsOf count (number / 10 * 16 + number % 10)

/-- A group of bits and its parity bit. -/
def protect (bits : List Bool) : List Bool := bits ++ [parity bits]

/-- The contents of a transmitted minute.  `weather` are its first 17 bits, and
`spare` the two behind the bit for summer time. -/
structure Minute where
  weather : List Bool
  cest : Bool
  spare : List Bool
  minute : Nat
  hour : Nat
  day : Nat
  dow : Nat
  month : Nat
  year : Nat
  weather_length : weather.length = 17
  spare_length : spare.length = 2
  minute_lt : minute < 60
  hour_lt : hour < 24
  day_in : 1 ≤ day ∧ day ≤ 31
  dow_in : 1 ≤ dow ∧ dow ≤ 7
  month_in : 1 ≤ month ∧ month ≤ 12
  year_lt : year < 100

/-- The bits in front of the minute. -/
def Minute.preamble (minute : Minute) : List Bool :=
  minute.weather ++ minute.cest :: (minute.spare ++ [true])

/-- The bits of the date. -/
def Minute.dateBits (minute : Minute) : List Bool :=
  bcd 6 minute.day ++ (bcd 3 minute.dow ++ (bcd 5 minute.month ++ bcd 8 minute.year))

/-- The 59 bits of a minute. -/
def Minute.bits (minute : Minute) : List Bool :=
  minute.preamble ++
    (protect (bcd 7 minute.minute) ++ (protect (bcd 6 minute.hour) ++ protect minute.dateBits))

/-- The date of a minute. -/
def Minute.date (minute : Minute) : Datetime where
  sec := 0
  min := UInt8.ofNat minute.minute
  hour := UInt8.ofNat minute.hour
  day := UInt8.ofNat minute.day
  month := UInt8.ofNat minute.month
  dow := 0
  year := UInt8.ofNat minute.year

@[simp] theorem bcd_length (count number : Nat) : (bcd count number).length = count :=
  bitsOf_length _ _

@[simp] theorem protect_length (bits : List Bool) : (protect bits).length = bits.length + 1 := by
  rw [protect, List.length_append, List.length_singleton]

theorem parity_protect (bits : List Bool) : parity (protect bits) = false := by
  rw [protect, parity_snoc, Bool.xor_self]

theorem bcd2bin_toNat (number : Nat) (small : number < 100) :
    bcd2bin (UInt8.ofNat (number / 10 * 16 + number % 10)) = UInt8.ofNat number := by
  revert number
  decide

section Minute

variable (minute : Minute)

@[simp] theorem preamble_length : minute.preamble.length = 21 := by
  simp [Minute.preamble, minute.weather_length, minute.spare_length]

@[simp] theorem dateBits_length : minute.dateBits.length = 22 := by
  simp [Minute.dateBits]

theorem valid_bits : ValidMinute minute.bits := by
  have groups (start : Nat) (first second third : List Bool) (at' : first.length = start) :
      ((first ++ (second ++ third)).drop start).take second.length = second := by
    rw [List.drop_left' at', List.take_left' rfl]
  refine ⟨by simp [Minute.bits], fun _ => ?_, fun _ => ?_, fun _ => ?_, fun _ => ?_⟩
  · rw [Minute.bits, List.getElem?_append_left (by simp), Minute.preamble,
      List.getElem?_append_right (by simp [minute.weather_length]), minute.weather_length]
    simp [minute.spare_length]
  · have taken := groups 21 minute.preamble (protect (bcd 7 minute.minute))
      (protect (bcd 6 minute.hour) ++ protect minute.dateBits) (by simp)
    rw [protect_length, bcd_length] at taken
    rw [Minute.bits, taken, parity_protect]
  · have taken := groups 29 (minute.preamble ++ protect (bcd 7 minute.minute))
      (protect (bcd 6 minute.hour)) (protect minute.dateBits) (by simp)
    rw [protect_length, bcd_length] at taken
    rw [Minute.bits, ← List.append_assoc, taken, parity_protect]
  · have taken := groups 36 (minute.preamble ++ (protect (bcd 7 minute.minute) ++
      protect (bcd 6 minute.hour))) (protect minute.dateBits) [] (by simp)
    rw [protect_length, dateBits_length, List.append_nil] at taken
    rw [Minute.bits, ← List.append_assoc (protect _), ← List.append_assoc, taken, parity_protect]

end Minute

/-! ## Received minutes -/

/-- A closed register holds the number. -/
theorem bcd2bin_closed {count number : Nat} (register shift : UInt8) (few : count ≤ 8)
    (positive : 0 < count) (is : shift.toNat = 8 - count)
    (fits : number / 10 * 16 + number % 10 < 2 ^ count) (small : number < 100) :
    bcd2bin (shiftIn (bcd count number) register >>> shift) = UInt8.ofNat number := by
  have digits : shiftIn (bcd count number) register >>> shift =
      UInt8.ofNat (number / 10 * 16 + number % 10) := by
    rw [← UInt8.toNat_inj, shiftIn_closed _ (by rwa [bcd_length]) _ _ (by rwa [bcd_length])
      (by rwa [bcd_length]), bcd, value_bitsOf, Nat.mod_eq_of_lt fits,
      UInt8.toNat_ofNat_of_lt' (lt_of_lt_of_le fits (Nat.pow_le_pow_right (by decide) few))]
  rw [digits, bcd2bin_toNat number small]

section Received

variable (minute : Minute) (registers : Registers)

theorem receive_preamble :
    (registers.receive 1 minute.preamble).timezone = flag minute.cest := by
  have length := minute.weather_length
  cases weather : minute.weather with
  | nil => rw [weather] at length; exact absurd length (by decide)
  | cons one rest =>
      rw [weather, List.length_cons] at length
      have quiet : ∀ k < rest.length, Quiet (1 + 1 + k) := by
        rw [show rest.length = 16 by omega]
        decide
      rw [Minute.preamble, weather, receive_append, List.length_cons, length,
        receive_field one rest 1 quiet (by simp [Registers.switch, byteAt]), Registers.receive]
      have later : ∀ k, 19 ≤ k → k < 19 + (minute.spare ++ [true]).length → Quiet k := by
        rw [List.length_append, minute.spare_length]
        intro k lower upper
        have : k = 19 ∨ k = 20 ∨ k = 21 := by
          simp only [List.length_singleton] at upper
          omega
        rcases this with rfl | rfl | rfl <;> decide
      refine (congrArg Registers.timezone (receive_quiet _ later ?_)).trans ?_
      · simp [Registers.switch, Registers.shift, byteAt]
      · simp [Registers.switch, Registers.shift, byteAt]

/-- The bits of a number enter the register that its first pulse selects. -/
theorem receive_bcd (count number sync : Nat) (quiet : ∀ k < count, Quiet (sync + 1 + k))
    (selected : ∀ one, (registers.switch sync one).timebyte ≠ 0) :
    ∃ one, registers.receive sync (bcd (count + 1) number) =
      (registers.switch sync one).collect (bcd (count + 1) number) :=
  ⟨_, receive_field _ _ sync (by rwa [bitsOf_length]) (selected _)⟩

/-- The minute is received in register 2. -/
theorem receive_minutes :
    (registers.receive 22 (protect (bcd 7 minute.minute))).timezone = registers.timezone ∧
      bcd2bin ((registers.receive 22 (protect (bcd 7 minute.minute))).time 2) =
        UInt8.ofNat minute.minute := by
  have small := minute.minute_lt
  obtain ⟨one, field⟩ := receive_bcd registers 6 minute.minute 22 (by decide)
    fun one => by simp [Registers.switch, byteAt]
  rw [protect, receive_append, field, bcd_length]
  refine ⟨by simp [Registers.receive, Registers.switch, Registers.shift, byteAt], ?_⟩
  rw [← bcd2bin_closed (registers.time 2) 1 (show 7 ≤ 8 by decide) (by decide) rfl (by omega)
    (show minute.minute < 100 by omega)]
  simp [Registers.receive, Registers.switch, Registers.shift, byteAt, collect_time]

/-- The hour is received in register 3. -/
theorem receive_hours :
    (registers.receive 30 (protect (bcd 6 minute.hour))).timezone = registers.timezone ∧
      bcd2bin ((registers.receive 30 (protect (bcd 6 minute.hour))).time 3) =
        UInt8.ofNat minute.hour ∧
      (registers.receive 30 (protect (bcd 6 minute.hour))).time 2 = registers.time 2 := by
  have small := minute.hour_lt
  obtain ⟨one, field⟩ := receive_bcd registers 5 minute.hour 30 (by decide)
    fun one => by simp [Registers.switch, byteAt]
  rw [protect, receive_append, field, bcd_length]
  refine ⟨by simp [Registers.receive, Registers.switch, Registers.shift, byteAt], ?_, ?_⟩
  · rw [← bcd2bin_closed (registers.time 3) 2 (show 6 ≤ 8 by decide) (by decide) rfl (by omega)
      (show minute.hour < 100 by omega)]
    simp [Registers.receive, Registers.switch, Registers.shift, byteAt, collect_time]
  · simp [Registers.receive, Registers.switch, Registers.shift, byteAt, collect_time]

/-- Day, month and year are received in registers 4, 6 and 7. -/
theorem receive_date :
    (registers.receive 37 (protect minute.dateBits)).timezone = registers.timezone ∧
      bcd2bin ((registers.receive 37 (protect minute.dateBits)).time 4) = UInt8.ofNat minute.day ∧
      bcd2bin ((registers.receive 37 (protect minute.dateBits)).time 6) =
        UInt8.ofNat minute.month ∧
      bcd2bin ((registers.receive 37 (protect minute.dateBits)).time 7) =
        UInt8.ofNat minute.year ∧
      (registers.receive 37 (protect minute.dateBits)).time 2 = registers.time 2 ∧
      (registers.receive 37 (protect minute.dateBits)).time 3 = registers.time 3 := by
  have day := minute.day_in
  have month := minute.month_in
  have year := minute.year_lt
  obtain ⟨one, dayField⟩ := receive_bcd registers 5 minute.day 37 (by decide)
    fun one => by simp [Registers.switch, byteAt]
  obtain ⟨two, dowField⟩ := receive_bcd
    ((registers.switch 37 one).collect (bcd 6 minute.day)) 2 minute.dow 43 (by decide)
    fun one => by simp [Registers.switch, byteAt]
  obtain ⟨three, monthField⟩ := receive_bcd ((((registers.switch 37 one).collect
    (bcd 6 minute.day)).switch 43 two).collect (bcd 3 minute.dow)) 4 minute.month 46 (by decide)
    fun one => by simp [Registers.switch, byteAt]
  obtain ⟨four, yearField⟩ := receive_bcd ((((((registers.switch 37 one).collect
    (bcd 6 minute.day)).switch 43 two).collect (bcd 3 minute.dow)).switch 46 three).collect
    (bcd 5 minute.month)) 7 minute.year 51 (by decide)
    fun one => by simp [Registers.switch, byteAt]
  rw [protect, Minute.dateBits, List.append_assoc, List.append_assoc, List.append_assoc,
    receive_append, dayField, receive_append, bcd_length, dowField, receive_append, bcd_length,
    monthField, receive_append, bcd_length, yearField, bcd_length]
  refine ⟨by simp [Registers.receive, Registers.switch, Registers.shift, byteAt], ?_, ?_, ?_, ?_, ?_⟩
  · rw [← bcd2bin_closed (registers.time 4) 2 (show 6 ≤ 8 by decide) (by decide) rfl (by omega)
      (show minute.day < 100 by omega)]
    simp [Registers.receive, Registers.switch, Registers.shift, byteAt, collect_time]
  · rw [← bcd2bin_closed (registers.time 6) 3 (show 5 ≤ 8 by decide) (by decide) rfl (by omega)
      (show minute.month < 100 by omega)]
    simp [Registers.receive, Registers.switch, Registers.shift, byteAt, collect_time]
  · rw [← bcd2bin_closed (registers.time 7) 0 (show 8 ≤ 8 by decide) (by decide) rfl (by omega) year]
    simp [Registers.receive, Registers.switch, Registers.shift, byteAt, collect_time]
  · simp [Registers.receive, Registers.switch, Registers.shift, byteAt, collect_time]
  · simp [Registers.receive, Registers.switch, Registers.shift, byteAt, collect_time]

/-- The registers hold the minute. -/
theorem receive_bits :
    (registers.receive 1 minute.bits).date = minute.date ∧
      (registers.receive 1 minute.bits).timezone = flag minute.cest := by
  have zone := receive_preamble minute registers
  rw [Minute.bits, receive_append, preamble_length]
  generalize registers.receive 1 minute.preamble = first at zone
  obtain ⟨zone₁, minutes⟩ := receive_minutes minute first
  rw [receive_append, protect_length, bcd_length]
  generalize first.receive 22 (protect (bcd 7 minute.minute)) = second at zone₁ minutes
  obtain ⟨zone₂, hours, kept⟩ := receive_hours minute second
  rw [receive_append, protect_length, bcd_length]
  generalize second.receive 30 (protect (bcd 6 minute.hour)) = third at zone₂ hours kept
  obtain ⟨zone₃, days, months, years, kept₂, kept₃⟩ := receive_date minute third
  refine ⟨?_, zone₃.trans (zone₂.trans (zone₁.trans zone))⟩
  simp only [Nat.reduceAdd, Registers.date, Minute.date, Datetime.mk.injEq, true_and]
  rw [kept₂, kept, kept₃]
  exact ⟨minutes, hours, days, months, years⟩

end Received

/-- A minute behind a minute gap sets the clock to its date. -/
theorem calls_minute (behind : Nat → UInt8) (dcf : Decoder) (minute : Minute) {gap : Event}
    {frame : List Event} (is : gap.IsGap) (carries : Carries 33 minute.bits frame) :
    dcf.calls behind (gap :: frame) =
      [clockUtc2timestamp behind minute.date (flag minute.cest)] := by
  obtain ⟨start, silent⟩ := @step_gap behind dcf gap is
  obtain ⟨date, zone⟩ := receive_bits minute (dcf.step behind gap).1.registers
  have calls := start.run_calls behind carries (valid_bits minute)
  rw [date, zone] at calls
  rw [Decoder.calls, silent, calls, Option.toList_none, List.nil_append]

end Ethersex.Dcf77
