import Ethersex.Ps2.Model
import Ethersex.Library.Walks

/-!
# The modifiers and the keys that are held

The receiver hands on the bytes that are sent, whatever falls between their frames.  The flag of a
kind of modifiers follows its keys as long as no two of them are held at once.
-/

namespace Ethersex.Ps2

open Ethersex.Library

/-! ## Frames -/

section Receiver

variable {SYSLOG_SUPPORT : Bool}

/-- The receiver waits for a start bit. -/
def Idle (keys : Keys) (state : State) : Prop :=
  state.bitcount = 11 ∧ state.parity = 1 ∧ state.keys = keys

theorem ps2Periodic_idle {keys : Keys} {state : State} (idle : Idle keys state) : Idle keys (ps2Periodic state) := by
  obtain ⟨bitcount, parity, same⟩ := idle
  rw [ps2Periodic]
  split_ifs
  · exact ⟨rfl, rfl, same⟩
  · exact ⟨bitcount, parity, same⟩

theorem shiftIn_toNat (data : UInt8) (high : Bool) : (shiftIn data high).toNat = data.toNat / 2 + 128 * high.toNat := by
  have small := data.toNat_lt
  have half : (data >>> 1).toNat = data.toNat / 2 := by
    rw [UInt8.toNat_shiftRight]
    exact Nat.shiftRight_one _
  cases high with
  | false =>
      rw [shiftIn, if_neg Bool.false_ne_true, half]
      rfl
  | true =>
      have apart := Nat.two_pow_add_eq_or_of_lt (i := 7) (b := data.toNat / 2) (by omega) 1
      rw [shiftIn, if_pos rfl, UInt8.toNat_or, half, Nat.or_comm]
      simpa [Nat.add_comm] using apart.symm

/-- The first bits of a byte, shifted in. -/
theorem foldl_shiftIn_toNat (byte data : UInt8) {count : Nat} (small : count ≤ 8) :
    (((List.range count).map byte.toNat.testBit).foldl shiftIn data).toNat =
      data.toNat / 2 ^ count + byte.toNat % 2 ^ count * 2 ^ (8 - count) := by
  induction count with
  | zero => simp [Nat.mod_one]
  | succ count ih =>
      rw [List.range_succ, List.map_append, List.foldl_append, List.map_singleton, List.foldl_cons, List.foldl_nil,
        shiftIn_toNat, ih (by omega), Nat.toNat_testBit]
      have inside : count < 8 := small
      interval_cases count <;> omega

/-- Eight bits that are shifted in are the byte. -/
theorem foldl_shiftIn (byte data : UInt8) : (dataBits byte).foldl shiftIn data = byte := by
  have small := byte.toNat_lt
  have old := data.toNat_lt
  rw [← UInt8.toNat_inj, dataBits, foldl_shiftIn_toNat byte data le_rfl]
  omega

theorem sub_one_toNat {value : UInt8} (positive : 1 ≤ value.toNat) : (value - 1).toNat = value.toNat - 1 := by
  refine UInt8.toNat_sub_of_le _ _ ?_
  rw [UInt8.le_iff_toNat_le]
  exact positive

/-- How the parity runs along with the data. -/
def toggle (parity : UInt8) (high : Bool) : UInt8 := if high then parity ^^^ 1 else parity

theorem foldl_toggle (bits : List Bool) (odd : Bool) :
    bits.foldl toggle odd.toUInt8 = (bits.foldl xor odd).toUInt8 := by
  induction bits generalizing odd with
  | nil => rfl
  | cons high rest ih =>
      have flips : toggle odd.toUInt8 high = (xor odd high).toUInt8 := by
        cases odd <;> cases high <;> rfl
      rw [List.foldl_cons, List.foldl_cons, flips, ih]

/-- The data bits of a frame. -/
theorem foldl_interrupt_data (bits : List Bool) {state : State} (fits : bits.length + 2 ≤ state.bitcount.toNat)
    (begun : state.bitcount.toNat ≤ 10) :
    bits.foldl (interrupt SYSLOG_SUPPORT) state =
      { state with
        bitcount := UInt8.ofNat (state.bitcount.toNat - bits.length)
        data := bits.foldl shiftIn state.data
        parity := bits.foldl toggle state.parity } := by
  induction bits generalizing state with
  | nil => simp
  | cons high rest ih =>
      rw [List.length_cons] at fits
      have low : state.bitcount > 2 := by
        rw [gt_iff_lt, UInt8.lt_iff_toNat_lt]
        exact lt_of_lt_of_le (by decide : (2 : UInt8).toNat < 3) (by omega)
      have up : state.bitcount < 11 := by
        rw [UInt8.lt_iff_toNat_lt]
        exact lt_of_le_of_lt begun (by decide)
      have next := sub_one_toNat (by omega : 1 ≤ state.bitcount.toNat)
      have more : state.bitcount - 1 ≠ 0 := by
        rw [Ne, ← UInt8.toNat_inj, next]
        exact Nat.ne_of_gt (lt_of_le_of_lt (by decide : (0 : UInt8).toNat ≤ 0) (by omega))
      have taken : interrupt SYSLOG_SUPPORT state high =
          { state with
            bitcount := state.bitcount - 1
            data := shiftIn state.data high
            parity := toggle state.parity high } := by
        have notStart : state.bitcount ≠ 11 := by
          intro start
          rw [start] at begun
          exact absurd begun (by decide)
        have within : state.bitcount < 11 ∧ state.bitcount > 2 := ⟨up, low⟩
        simp only [interrupt, takeBit, if_neg notStart, if_pos within, if_neg more, toggle]
      rw [List.foldl_cons, taken, ih (by rw [next]; omega) (by rw [next]; omega)]
      simp only [next, List.foldl_cons, List.length_cons, Nat.sub_sub, Nat.add_comm]

theorem interrupt_parity {data timeout : UInt8} {keys : Keys} (odd : Bool) :
    interrupt SYSLOG_SUPPORT ⟨2, data, odd.toUInt8, timeout, keys⟩ odd =
      ⟨1, data, odd.toUInt8, timeout, keys⟩ := by
  have even : ¬(if odd = true then (1 : UInt8) else 0) ^^^ odd.toUInt8 ≠ 0 := by
    revert odd
    decide
  have inside : ¬((2 : UInt8) < 11 ∧ (2 : UInt8) > 2) := by decide
  have running : ¬(2 : UInt8) = 11 := by decide
  have more : ¬(2 - 1 : UInt8) = 0 := by decide
  simp only [interrupt, takeBit, if_neg running, if_neg inside, if_neg even, if_neg more, if_true]
  rfl

theorem interrupt_stop {data parity timeout : UInt8} {keys : Keys} (stop : Bool) :
    interrupt SYSLOG_SUPPORT ⟨1, data, parity, timeout, keys⟩ stop =
      ⟨11, data, 1, timeout, received SYSLOG_SUPPORT data keys⟩ := by
  have inside : ¬((1 : UInt8) < 11 ∧ (1 : UInt8) > 2) := by decide
  have running : ¬(1 : UInt8) = 11 := by decide
  have odd : ¬(1 : UInt8) = 2 := by decide
  have last : (1 - 1 : UInt8) = 0 := by decide
  simp only [interrupt, takeBit, if_neg running, if_neg inside, if_neg odd, if_pos last]

theorem length_dataBits (byte : UInt8) : (dataBits byte).length = 8 := by
  rw [dataBits, List.length_map, List.length_range]

theorem ten_toNat : (10 : UInt8).toNat = 10 := rfl

/-- A frame behind its start bit. -/
theorem foldl_interrupt_frame (byte : UInt8) {data timeout : UInt8} {keys : Keys} :
    (frameBits byte).foldl (interrupt SYSLOG_SUPPORT) ⟨10, data, 1, timeout, keys⟩ =
      ⟨11, byte, 1, timeout, received SYSLOG_SUPPORT byte keys⟩ := by
  have bits : (dataBits byte).foldl (interrupt SYSLOG_SUPPORT) ⟨10, data, 1, timeout, keys⟩ =
      ⟨2, byte, ((dataBits byte).foldl xor true).toUInt8, timeout, keys⟩ := by
    rw [foldl_interrupt_data (dataBits byte) (by rw [length_dataBits, ten_toNat]) (by rw [ten_toNat]),
      length_dataBits, foldl_shiftIn, ten_toNat]
    have parity := foldl_toggle (dataBits byte) true
    rw [← parity]
    rfl
  rw [frameBits, List.foldl_append, bits, List.foldl_cons, List.foldl_cons, List.foldl_nil, interrupt_parity,
    interrupt_stop]

/-! ## Calls of `ps2_periodic` within a frame -/

/-- These bits are part of one frame. -/
def Within (state : State) (bits : List Bool) : Prop :=
  bits = [] ∨ state.bitcount.toNat ≤ 10 ∧ bits.length ≤ state.bitcount.toNat

theorem ne_eleven {state : State} (begun : state.bitcount.toNat ≤ 10) : state.bitcount ≠ 11 := by
  intro start
  rw [start] at begun
  exact absurd begun (by decide)

theorem takeBit_timeout {state : State} (begun : state.bitcount.toNat ≤ 10) (timeout : UInt8) (high : Bool) :
    takeBit { state with timeout } high = { takeBit state high with timeout } ∧
      (takeBit state high).bitcount = state.bitcount := by
  simp only [takeBit, if_neg (ne_eleven begun)]
  split_ifs <;> exact ⟨rfl, rfl⟩

theorem interrupt_timeout {state : State} (begun : state.bitcount.toNat ≤ 10) (timeout : UInt8) (high : Bool) :
    interrupt SYSLOG_SUPPORT { state with timeout } high = { interrupt SYSLOG_SUPPORT state high with timeout } := by
  simp only [interrupt, (takeBit_timeout begun timeout high).1]
  split_ifs <;> rfl

theorem Within.next {state : State} {high : Bool} {rest : List Bool} (within : Within state (high :: rest)) :
    state.bitcount.toNat ≤ 10 ∧ Within (interrupt SYSLOG_SUPPORT state high) rest := by
  rcases within with empty | ⟨begun, fits⟩
  · cases empty
  · refine ⟨begun, ?_⟩
    rw [List.length_cons] at fits
    have next := sub_one_toNat (by omega : 1 ≤ state.bitcount.toNat)
    simp only [interrupt, (takeBit_timeout begun 0 high).2]
    split_ifs with last
    · left
      rw [← UInt8.toNat_inj, next] at last
      have zero : (0 : UInt8).toNat = 0 := rfl
      exact List.length_eq_zero_iff.mp (by omega)
    · right
      dsimp only
      omega

theorem foldl_interrupt_timeout {state : State} {bits : List Bool} (within : Within state bits) (timeout : UInt8) :
    bits.foldl (interrupt SYSLOG_SUPPORT) { state with timeout } =
      { bits.foldl (interrupt SYSLOG_SUPPORT) state with timeout } := by
  induction bits generalizing state with
  | nil => rfl
  | cons high rest ih =>
      obtain ⟨begun, within⟩ := @Within.next SYSLOG_SUPPORT _ _ _ within
      rw [List.foldl_cons, List.foldl_cons, interrupt_timeout begun, ih within]

/-- As long as the timeout does not run out, the calls change nothing else. -/
theorem run_within {state : State} {signals : List Signal} (within : Within state (Signal.bits signals))
    (calls : Signal.calls signals < state.timeout.toNat) :
    run SYSLOG_SUPPORT state signals =
      { (Signal.bits signals).foldl (interrupt SYSLOG_SUPPORT) state with
        timeout := UInt8.ofNat (state.timeout.toNat - Signal.calls signals) } := by
  induction signals generalizing state with
  | nil => simp [run, Signal.bits, Signal.calls]
  | cons signal rest ih =>
      cases signal with
      | fall high =>
          rw [Signal.bits_fall] at within
          rw [Signal.calls_fall] at calls
          obtain ⟨begun, following⟩ := @Within.next SYSLOG_SUPPORT _ _ _ within
          have timeout : (interrupt SYSLOG_SUPPORT state high).timeout = state.timeout := by
            have same : interrupt SYSLOG_SUPPORT state high =
                { interrupt SYSLOG_SUPPORT state high with timeout := state.timeout } :=
              interrupt_timeout begun state.timeout high
            rw [same]
          have runs := ih following (by rw [timeout]; exact calls)
          rw [timeout] at runs
          rw [Signal.bits_fall, Signal.calls_fall, List.foldl_cons, ← runs]
          rfl
      | periodic =>
          rw [Signal.bits_periodic] at within
          rw [Signal.calls_periodic] at calls
          have next := sub_one_toNat (by omega : 1 ≤ state.timeout.toNat)
          have more : ¬(state.timeout ≠ 0 ∧ state.timeout - 1 = 0) := by
            rintro ⟨-, last⟩
            rw [← UInt8.toNat_inj, next] at last
            have zero : (0 : UInt8).toNat = 0 := rfl
            omega
          have ticks : step SYSLOG_SUPPORT state .periodic = { state with timeout := state.timeout - 1 } := by
            simp only [step, ps2Periodic, if_neg more]
          have runs := @ih { state with timeout := state.timeout - 1 } within (by dsimp only; omega)
          rw [run, List.foldl_cons, ticks, ← run, runs, foldl_interrupt_timeout within, next, Signal.bits_periodic,
            Signal.calls_periodic, Nat.sub_sub, Nat.add_comm 1]

/-! ## Frames and what is between them -/

/-- The start bit. -/
theorem step_start {keys : Keys} {state : State} (idle : Idle keys state) :
    step SYSLOG_SUPPORT state (.fall false) = ⟨10, state.data, 1, 2, keys⟩ := by
  obtain ⟨bitcount, parity, same⟩ := idle
  have inside : ¬((11 : UInt8) < 11 ∧ (11 : UInt8) > 2) := by decide
  have odd : ¬(11 : UInt8) = 2 := by decide
  have more : ¬(11 - 1 : UInt8) = 0 := by decide
  simp only [step, interrupt, takeBit, bitcount, parity, same, if_true, if_neg inside, if_neg odd, if_neg more]
  rfl

theorem run_cons (state : State) (signal : Signal) (rest : List Signal) :
    run SYSLOG_SUPPORT state (signal :: rest) = run SYSLOG_SUPPORT (step SYSLOG_SUPPORT state signal) rest := rfl

theorem run_append (state : State) (front rest : List Signal) :
    run SYSLOG_SUPPORT state (front ++ rest) = run SYSLOG_SUPPORT (run SYSLOG_SUPPORT state front) rest :=
  List.foldl_append

/-- A frame hands its byte on. -/
theorem run_frame {keys : Keys} {state : State} {byte : UInt8} {signals : List Signal} (idle : Idle keys state)
    (frame : Frame byte signals) :
    Idle (received SYSLOG_SUPPORT byte keys) (run SYSLOG_SUPPORT state signals) := by
  obtain ⟨rest, rfl, bits, calls⟩ := frame
  have ten : (frameBits byte).length = 10 := by
    rw [frameBits, List.length_append, length_dataBits]
    rfl
  have within : Within ⟨10, state.data, 1, 2, keys⟩ (Signal.bits rest) := by
    right
    rw [bits, ten, ten_toNat]
    exact ⟨le_rfl, le_rfl⟩
  have two : (2 : UInt8).toNat = 2 := rfl
  rw [run_cons, step_start idle, run_within within (by rw [two]; omega), bits, foldl_interrupt_frame]
  exact ⟨rfl, rfl, rfl⟩

theorem run_periodic {keys : Keys} {state : State} (idle : Idle keys state) (count : Nat) :
    Idle keys (run SYSLOG_SUPPORT state (List.replicate count .periodic)) := by
  induction count generalizing state with
  | zero => exact idle
  | succ count ih => exact ih (ps2Periodic_idle idle)

/-- With one more call the timeout has run out. -/
theorem ps2Periodic_last {state : State} (last : state.timeout = 1) : Idle state.keys (ps2Periodic state) := by
  have done : state.timeout ≠ 0 ∧ state.timeout - 1 = 0 := by
    rw [last]
    decide
  rw [ps2Periodic, if_pos done]
  exact ⟨rfl, rfl, rfl⟩

theorem run_pause {state : State} {count : Nat} (started : state.timeout = 1 ∨ state.timeout = 2)
    (pause : state.timeout.toNat ≤ count) :
    Idle state.keys (run SYSLOG_SUPPORT state (List.replicate count .periodic)) := by
  rcases started with one | two
  · rw [one] at pause
    obtain ⟨count, rfl⟩ := Nat.exists_eq_add_of_le' pause
    exact run_periodic (ps2Periodic_last one) count
  · rw [two] at pause
    obtain ⟨count, rfl⟩ := Nat.exists_eq_add_of_le' pause
    have first : step SYSLOG_SUPPORT state .periodic = { state with timeout := 1 } := by
      have more : ¬((2 : UInt8) ≠ 0 ∧ (2 - 1 : UInt8) = 0) := by decide
      simp only [step, ps2Periodic, two, if_neg more]
      rfl
    have second := @ps2Periodic_last { state with timeout := 1 } rfl
    change Idle state.keys (run SYSLOG_SUPPORT (step SYSLOG_SUPPORT (step SYSLOG_SUPPORT state .periodic) .periodic)
      (List.replicate count .periodic))
    rw [first]
    exact run_periodic second count

/-- A frame that is not complete hands nothing on. -/
theorem foldl_interrupt_part {state : State} {bits : List Bool} (begun : state.bitcount.toNat ≤ 10)
    (part : bits.length < state.bitcount.toNat) :
    (bits.foldl (interrupt SYSLOG_SUPPORT) state).keys = state.keys := by
  induction bits generalizing state with
  | nil => rfl
  | cons high rest ih =>
      rw [List.length_cons] at part
      have next := sub_one_toNat (by omega : 1 ≤ state.bitcount.toNat)
      have more : ¬state.bitcount - 1 = 0 := by
        rw [← UInt8.toNat_inj, next]
        have zero : (0 : UInt8).toNat = 0 := rfl
        omega
      have same : (takeBit state high).keys = state.keys := by
        simp only [takeBit, if_neg (ne_eleven begun)]
        split_ifs <;> rfl
      have taken : interrupt SYSLOG_SUPPORT state high =
          { takeBit state high with bitcount := state.bitcount - 1 } := by
        simp only [interrupt, (takeBit_timeout begun 0 high).2, if_neg more]
      rw [List.foldl_cons, taken, ih (by dsimp only; omega) (by dsimp only; omega)]
      exact same

theorem run_cut {keys : Keys} {state : State} {signals : List Signal} (idle : Idle keys state)
    (cut : CutFrame signals) : Idle keys (run SYSLOG_SUPPORT state signals) := by
  obtain ⟨rest, pause, rfl, short, calls, long⟩ := cut
  have within : Within ⟨10, state.data, 1, 2, keys⟩ (Signal.bits rest) := by
    right
    rw [ten_toNat]
    exact ⟨le_rfl, by omega⟩
  have two : (2 : UInt8).toNat = 2 := rfl
  have kept : ((Signal.bits rest).foldl (interrupt SYSLOG_SUPPORT) ⟨10, state.data, 1, 2, keys⟩).keys = keys :=
    foldl_interrupt_part le_rfl (by rw [ten_toNat]; omega)
  rw [run_cons, step_start idle, run_append, run_within within (by rw [two]; omega), two]
  generalize (Signal.bits rest).foldl (interrupt SYSLOG_SUPPORT) ⟨10, state.data, 1, 2, keys⟩ = part at kept ⊢
  rw [← kept]
  obtain none | one : Signal.calls rest = 0 ∨ Signal.calls rest = 1 := by omega
  · rw [none] at long ⊢
    exact run_pause (.inr rfl) (by simpa using long)
  · rw [one] at long ⊢
    exact run_pause (.inl rfl) (by simpa using Nat.le_of_add_le_add_left (a := 1) long)

theorem run_noise {keys : Keys} {signals : List Signal} (noise : Noise signals) {state : State}
    (idle : Idle keys state) : Idle keys (run SYSLOG_SUPPORT state signals) := by
  induction noise generalizing state with
  | nil => exact idle
  | periodic _ ih => exact ih (ps2Periodic_idle idle)
  | cut cut _ ih =>
      rw [run_append]
      exact ih (run_cut idle cut)

/-- Whatever falls between the frames, the bytes are received one after another. -/
theorem run_frames {bytes : List UInt8} {signals : List Signal} (frames : Frames bytes signals) {keys : Keys}
    {state : State} (idle : Idle keys state) :
    Idle (bytes.foldl (fun keys byte => received SYSLOG_SUPPORT byte keys) keys)
      (run SYSLOG_SUPPORT state signals) := by
  induction frames generalizing state keys with
  | nil noise => exact run_noise noise idle
  | cons noise frame _ ih =>
      rw [run_append, run_append]
      exact ih (run_frame (run_noise noise idle) frame)

end Receiver

/-! ## Keys -/

/-- The kinds of keys that have a flag. -/
inductive Kind where
  | ctrl
  | alt
  | shift
  | lin
deriving DecidableEq

def kindOf (code : UInt8) : Option Kind :=
  if code = KEY_ALT then some .alt
  else if code = KEY_CTRL then some .ctrl
  else if code = KEY_SHIFT_RIGHT ∨ code = KEY_SHIFT_LEFT then some .shift
  else if code = KEY_LIN then some .lin
  else none

def KeyPress.flag (key : KeyPress) : Kind → Bool
  | .ctrl => key.ctrl
  | .alt => key.alt
  | .shift => key.shift
  | .lin => key.lin

/-- Caps lock is on. -/
def Keys.capsLock (keys : Keys) : Bool := keys.leds &&& PS2_CAPS_LOCK_LED ≠ 0

/-- The flags tell which kinds of keys are held, and all the places that were looked up are in the table.  Caps lock
holds the flag of the shift keys. -/
structure Right (held : Finset Key) (keys : Keys) : Prop where
  down : keys.is_up = false
  flags : ∀ kind, keys.key.flag kind = true ↔
    (∃ key ∈ held, kindOf key.code = some kind) ∨ kind = .shift ∧ keys.capsLock = true
  lookups : ∀ keycode ∈ keys.lookups, keycode.toNat < sizeofKeycodes

section Decoder

variable (SYSLOG_SUPPORT : Bool)

/-- What does not go wrong: no other key of the kind is held when one is released, no key of the kind `lin` when num
lock is released, a released key has a place in the table, and no code is cut off behind `0xF0`. -/
def Undisturbed (held : Finset Key) : Event → Prop
  | .press _ => True
  | .release key =>
      (∀ other ∈ held, other ≠ key → kindOf key.code ≠ none → kindOf other.code ≠ kindOf key.code) ∧
        (key.code = KEY_NUM_LOCK → ∀ other ∈ held, kindOf other.code ≠ some .lin) ∧
        (SYSLOG_SUPPORT = true → key.code.toNat < sizeofKeycodes)
  | .cut _ up => up = false

variable {SYSLOG_SUPPORT}

theorem code_cases (code : UInt8) :
    (code = KEY_ALT ∨ code = KEY_CTRL ∨ code = KEY_SHIFT_RIGHT ∨ code = KEY_SHIFT_LEFT ∨ code = KEY_LIN) ∨
      code = KEY_NUM_LOCK ∨ code = KEY_CAPS_LOCK ∨
      code ≠ KEY_ALT ∧ code ≠ KEY_CTRL ∧ code ≠ KEY_SHIFT_RIGHT ∧ code ≠ KEY_SHIFT_LEFT ∧ code ≠ KEY_LIN ∧
        code ≠ KEY_NUM_LOCK ∧ code ≠ KEY_CAPS_LOCK := by
  tauto

theorem flag_decodeKey (code : UInt8) (keys : Keys) (kind : Kind) :
    (decodeKey SYSLOG_SUPPORT code keys).key.flag kind =
      if kindOf code = some kind then false
      else if code = KEY_NUM_LOCK ∧ kind = .lin then false
      else if code = KEY_CAPS_LOCK ∧ kind = .shift then true
      else keys.key.flag kind := by
  rcases code_cases code with (rfl | rfl | rfl | rfl | rfl) | rfl | rfl | other
  iterate 7 cases kind <;> rfl
  obtain ⟨alt, ctrl, right, left, lin, num, caps⟩ := other
  simp only [decodeKey, kindOf, alt, ctrl, right, left, lin, num, caps, if_false, or_self, false_and]
  cases SYSLOG_SUPPORT <;> rfl

theorem flag_holdKey (code : UInt8) (keys : Keys) (kind : Kind) :
    (holdKey code keys).key.flag kind = if kindOf code = some kind then true else keys.key.flag kind := by
  rcases code_cases code with (rfl | rfl | rfl | rfl | rfl) | rfl | rfl | other
  iterate 7 cases kind <;> rfl
  obtain ⟨alt, ctrl, right, left, lin, num, caps⟩ := other
  simp only [holdKey, kindOf, alt, ctrl, right, left, lin, if_false, or_self, reduceCtorEq]
  split_ifs <;> cases kind <;> rfl

theorem holdKey_rest (code : UInt8) (keys : Keys) :
    (holdKey code keys).is_up = keys.is_up ∧ (holdKey code keys).leds = keys.leds ∧
      (holdKey code keys).lookups = keys.lookups := by
  rw [holdKey]
  split_ifs <;> exact ⟨rfl, rfl, rfl⟩

/-- Caps lock is a bit of the LEDs. -/
theorem capsLock_eq (keys : Keys) : keys.capsLock = keys.leds.toNat.testBit 2 := by
  have bit : (keys.leds &&& PS2_CAPS_LOCK_LED).toNat = (keys.leds.toNat.testBit 2).toNat * 4 := by
    rw [UInt8.toNat_and]
    exact Nat.and_two_pow keys.leds.toNat 2
  rw [Keys.capsLock, Bool.eq_iff_iff, decide_eq_true_iff, Ne, ← UInt8.toNat_inj, bit]
  cases keys.leds.toNat.testBit 2 <;> simp

theorem capsLock_decodeKey (code : UInt8) (keys : Keys) :
    (decodeKey SYSLOG_SUPPORT code keys).capsLock =
      if kindOf code = some .shift then false
      else if code = KEY_CAPS_LOCK then true
      else keys.capsLock := by
  have cleared : (keys.leds &&& ~~~PS2_CAPS_LOCK_LED).toNat.testBit 2 = false := by
    rw [UInt8.toNat_and, Nat.testBit_and, (by decide : (~~~PS2_CAPS_LOCK_LED).toNat.testBit 2 = false), Bool.and_false]
  have set : (keys.leds ||| PS2_CAPS_LOCK_LED).toNat.testBit 2 = true := by
    rw [UInt8.toNat_or, Nat.testBit_or, (by decide : PS2_CAPS_LOCK_LED.toNat.testBit 2 = true), Bool.or_true]
  have same : (keys.leds ^^^ PS2_NUM_LOCK_LED).toNat.testBit 2 = keys.leds.toNat.testBit 2 := by
    rw [UInt8.toNat_xor, Nat.testBit_xor, (by decide : PS2_NUM_LOCK_LED.toNat.testBit 2 = false), Bool.xor_false]
  rw [capsLock_eq, capsLock_eq]
  rcases code_cases code with (rfl | rfl | rfl | rfl | rfl) | rfl | rfl | other
  · rfl
  · rfl
  · exact cleared
  · exact cleared
  · rfl
  · exact same
  · exact set
  · obtain ⟨alt, ctrl, right, left, lin, num, caps⟩ := other
    simp only [decodeKey, kindOf, alt, ctrl, right, left, lin, num, caps, if_false, or_self]
    cases SYSLOG_SUPPORT <;> rfl

theorem lookups_decodeKey {code : UInt8} {keys : Keys} :
    ∀ keycode ∈ (decodeKey SYSLOG_SUPPORT code keys).lookups,
      keycode ∈ keys.lookups ∨ SYSLOG_SUPPORT = true ∧ keycode = code := by
  intro keycode member
  rw [decodeKey] at member
  split_ifs at member with alt ctrl shift lin num caps traced
  iterate 6 exact .inl member
  · rcases List.mem_append.mp member with before | last
    · exact .inl before
    · exact .inr ⟨traced, List.mem_singleton.mp last⟩
  · exact .inl member

variable {held : Finset Key} {keys : Keys}

theorem Right.press (right : Right held keys) (key : Key) : Right (insert key held) (holdKey key.code keys) := by
  obtain ⟨down, leds, lookups⟩ := holdKey_rest key.code keys
  refine ⟨down.trans right.down, fun kind => ?_, by rw [lookups]; exact right.lookups⟩
  have caps : (holdKey key.code keys).capsLock = keys.capsLock := by rw [Keys.capsLock, leds, Keys.capsLock]
  rw [flag_holdKey, caps, Finset.exists_mem_insert]
  by_cases mine : kindOf key.code = some kind
  · simp [mine]
  · simp [mine, right.flags kind]

/-- `0xE0` in front of a code. -/
theorem Right.extended (right : Right held keys) : Right held { keys with key.extended := true } := by
  refine ⟨right.down, fun kind => ?_, right.lookups⟩
  have same : ({ keys.key with extended := true } : KeyPress).flag kind = keys.key.flag kind := by
    cases kind <;> rfl
  rw [same]
  exact right.flags kind

theorem Right.release (right : Right held keys) {key : Key}
    (undisturbed : Undisturbed SYSLOG_SUPPORT held (.release key)) :
    Right (held.erase key) { decodeKey SYSLOG_SUPPORT key.code keys with is_up := false } := by
  obtain ⟨alone, num, inside⟩ := undisturbed
  refine ⟨rfl, fun kind => ?_, fun keycode member => ?_⟩
  · have caps : ({ decodeKey SYSLOG_SUPPORT key.code keys with is_up := false } : Keys).capsLock =
        (decodeKey SYSLOG_SUPPORT key.code keys).capsLock := rfl
    dsimp only
    rw [caps, flag_decodeKey, capsLock_decodeKey]
    by_cases mine : kindOf key.code = some kind
    · -- it was the last one of its kind
      have gone : ¬∃ other ∈ held.erase key, kindOf other.code = some kind := by
        rintro ⟨other, member, same⟩
        obtain ⟨different, holds⟩ := Finset.mem_erase.mp member
        exact alone other holds different (by simp [mine]) (same.trans mine.symm)
      have open' : ¬(kind = .shift ∧ (if kindOf key.code = some .shift then false
          else if key.code = KEY_CAPS_LOCK then true else keys.capsLock) = true) := by
        rintro ⟨rfl, on⟩
        rw [if_pos mine] at on
        cases on
      rw [if_pos mine]
      exact iff_of_false Bool.false_ne_true (not_or_intro gone open')
    · have others : (∃ other ∈ held.erase key, kindOf other.code = some kind) ↔
          ∃ other ∈ held, kindOf other.code = some kind := by
        constructor
        · rintro ⟨other, member, same⟩
          exact ⟨other, Finset.mem_of_mem_erase member, same⟩
        · rintro ⟨other, member, same⟩
          refine ⟨other, Finset.mem_erase.mpr ⟨?_, member⟩, same⟩
          rintro rfl
          exact mine same
      have lock : (kind = .shift ∧ (if kindOf key.code = some .shift then false
          else if key.code = KEY_CAPS_LOCK then true else keys.capsLock) = true) ↔
          kind = .shift ∧ (key.code = KEY_CAPS_LOCK ∨ keys.capsLock = true) := by
        refine and_congr_right ?_
        rintro rfl
        rw [if_neg mine]
        split_ifs with caps <;> simp [caps]
      rw [if_neg mine, others, lock]
      by_cases locked : key.code = KEY_NUM_LOCK ∧ kind = .lin
      · obtain ⟨code, rfl⟩ := locked
        simpa [code] using num code
      · rw [if_neg locked]
        by_cases switched : key.code = KEY_CAPS_LOCK ∧ kind = .shift
        · simp [switched]
        · have same : kind = .shift ∧ (key.code = KEY_CAPS_LOCK ∨ keys.capsLock = true) ↔
              kind = .shift ∧ keys.capsLock = true :=
            and_congr_right fun shift => or_iff_right fun caps => switched ⟨caps, shift⟩
          rw [if_neg switched, same]
          exact right.flags kind
  · rcases lookups_decodeKey keycode member with before | ⟨traced, rfl⟩
    · exact right.lookups keycode before
    · exact inside traced

theorem decodeKey_up (code : UInt8) (keys : Keys) (up : Bool) :
    ({ decodeKey SYSLOG_SUPPORT code { keys with is_up := up } with is_up := false } : Keys) =
      { decodeKey SYSLOG_SUPPORT code keys with is_up := false } := by
  rw [decodeKey, decodeKey]
  split_ifs <;> rfl

/-- The bytes of an event are received. -/
def receivedAll (SYSLOG_SUPPORT : Bool) (bytes : List UInt8) (keys : Keys) : Keys :=
  bytes.foldl (fun keys byte => received SYSLOG_SUPPORT byte keys) keys

theorem received_extended (down : keys.is_up = false) :
    received SYSLOG_SUPPORT 0xE0 keys = { keys with key.extended := true } := by
  rw [received, if_neg (by rw [down]; exact Bool.false_ne_true), if_neg (by decide)]
  rfl

theorem received_press (down : keys.is_up = false) (key : Key) :
    received SYSLOG_SUPPORT key.code keys = holdKey key.code keys := by
  rw [received, down, if_neg Bool.false_ne_true, if_neg key.plain.2]

theorem received_release (down : keys.is_up = false) (code : UInt8) :
    received SYSLOG_SUPPORT code (received SYSLOG_SUPPORT 0xF0 keys) =
      { decodeKey SYSLOG_SUPPORT code keys with is_up := false } := by
  have up : received SYSLOG_SUPPORT 0xF0 keys = { keys with is_up := true } := by
    rw [received, if_neg (by rw [down]; exact Bool.false_ne_true), if_pos rfl]
  rw [up, received, if_pos rfl, decodeKey_up]

/-- An event keeps the flags right. -/
theorem Right.event (right : Right held keys) {event : Event} (undisturbed : Undisturbed SYSLOG_SUPPORT held event) :
    Right (event.held held) (receivedAll SYSLOG_SUPPORT event.bytes keys) := by
  cases event with
  | press key =>
      cases extended : key.extended with
      | false =>
          simp only [Event.bytes, extended, receivedAll, Bool.false_eq_true, if_false, List.nil_append, List.foldl_cons,
            List.foldl_nil]
          rw [received_press right.down]
          exact right.press key
      | true =>
          simp only [Event.bytes, extended, receivedAll, if_true, List.cons_append, List.nil_append, List.foldl_cons,
            List.foldl_nil]
          rw [received_extended right.down, received_press right.extended.down]
          exact right.extended.press key
  | release key =>
      cases extended : key.extended with
      | false =>
          simp only [Event.bytes, extended, receivedAll, Bool.false_eq_true, if_false, List.nil_append, List.foldl_cons,
            List.foldl_nil]
          rw [received_release right.down]
          exact right.release undisturbed
      | true =>
          simp only [Event.bytes, extended, receivedAll, if_true, List.cons_append, List.nil_append, List.foldl_cons,
            List.foldl_nil]
          rw [received_extended right.down, received_release right.extended.down]
          exact right.extended.release undisturbed
  | cut extended up =>
      have down : up = false := undisturbed
      cases extended with
      | false =>
          rw [down]
          exact right
      | true =>
          have bytes : (Event.cut true up).bytes = [0xE0] := by rw [down]; rfl
          rw [bytes, receivedAll, List.foldl_cons, List.foldl_nil, received_extended right.down]
          exact right.extended

theorem Right.events {events : List Event} (right : Right held keys)
    (undisturbed : EachMeets Event.held (Undisturbed SYSLOG_SUPPORT) held events) :
    Right (events.foldl Event.held held) (receivedAll SYSLOG_SUPPORT (events.flatMap Event.bytes) keys) := by
  induction events generalizing held keys with
  | nil => exact right
  | cons event rest ih =>
      rw [List.flatMap_cons, receivedAll, List.foldl_append, List.foldl_cons]
      exact ih (right.event undisturbed.1) undisturbed.2

theorem right_init : Right ∅ ps2Init.keys := by
  refine ⟨rfl, fun kind => ?_, fun keycode member => absurd member List.not_mem_nil⟩
  cases kind <;> decide

end Decoder

theorem idle_init : Idle ps2Init.keys ps2Init := ⟨rfl, rfl, rfl⟩

/-- In every run that is not disturbed the flags tell which kinds of keys are held, and no place outside the table has
been looked up. -/
theorem modifiers_follow_keys (SYSLOG_SUPPORT : Bool) {events : List Event} {signals : List Signal}
    (frames : Frames (events.flatMap Event.bytes) signals)
    (undisturbed : EachMeets Event.held (Undisturbed SYSLOG_SUPPORT) ∅ events) :
    Right (events.foldl Event.held ∅) (run SYSLOG_SUPPORT ps2Init signals).keys := by
  rw [(run_frames frames idle_init).2.2]
  exact right_init.events undisturbed

/-- A frame without any calls in it. -/
def frameSignals (byte : UInt8) : List Signal := .fall false :: (frameBits byte).map .fall

theorem bits_map_fall (bits : List Bool) :
    Signal.bits (bits.map .fall) = bits ∧ Signal.calls (bits.map .fall) = 0 := by
  induction bits with
  | nil => exact ⟨rfl, rfl⟩
  | cons bit rest ih =>
      rw [List.map_cons, Signal.bits_fall, Signal.calls_fall, ih.1, ih.2]
      exact ⟨rfl, rfl⟩

theorem frames_flatMap (bytes : List UInt8) : Frames bytes (bytes.flatMap frameSignals) := by
  induction bytes with
  | nil => exact .nil .nil
  | cons byte rest ih =>
      have frame : Frame byte (frameSignals byte) :=
        ⟨_, rfl, (bits_map_fall _).1, by rw [(bits_map_fall _).2]; exact Nat.zero_le 1⟩
      exact .cons .nil frame ih

theorem ctrl_plain : KEY_CTRL ≠ 0xE0 ∧ KEY_CTRL ≠ 0xF0 := by decide

def leftCtrl : Key := ⟨false, KEY_CTRL, ctrl_plain⟩

def rightCtrl : Key := ⟨true, KEY_CTRL, ctrl_plain⟩

theorem modifiers_follow_left_ctrl :
    Frames ([.press leftCtrl, .release leftCtrl].flatMap Event.bytes)
      ([KEY_CTRL, 0xF0, KEY_CTRL].flatMap frameSignals) ∧
      EachMeets Event.held (Undisturbed true) ∅ [.press leftCtrl, .release leftCtrl] ∧
      Right ∅ (run true ps2Init ([KEY_CTRL, 0xF0, KEY_CTRL].flatMap frameSignals)).keys := by
  have frames : Frames ([.press leftCtrl, .release leftCtrl].flatMap Event.bytes)
      ([KEY_CTRL, 0xF0, KEY_CTRL].flatMap frameSignals) := frames_flatMap [KEY_CTRL, 0xF0, KEY_CTRL]
  have alone : EachMeets Event.held (Undisturbed true) ∅ [.press leftCtrl, .release leftCtrl] := by
    refine ⟨trivial, ⟨?_, ?_, fun _ => by decide⟩, trivial⟩
    · intro other member different
      rw [Event.held, Finset.mem_insert] at member
      rcases member with same | none
      · exact absurd same different
      · exact absurd none (Finset.notMem_empty _)
    · intro code
      exact absurd code (by decide)
  have right := modifiers_follow_keys true frames alone
  have held : [.press leftCtrl, .release leftCtrl].foldl Event.held ∅ = ∅ := by decide
  rw [held] at right
  exact ⟨frames, alone, right⟩

/-- Two control keys are pressed and one of them is released. -/
theorem two_ctrl_keys_wrong :
    Frames ([.press leftCtrl, .press rightCtrl, .release leftCtrl].flatMap Event.bytes)
      ([KEY_CTRL, 0xE0, KEY_CTRL, 0xF0, KEY_CTRL].flatMap frameSignals) ∧
      ¬Right ([.press leftCtrl, .press rightCtrl, .release leftCtrl].foldl Event.held ∅)
        (run true ps2Init ([KEY_CTRL, 0xE0, KEY_CTRL, 0xF0, KEY_CTRL].flatMap frameSignals)).keys := by
  refine ⟨frames_flatMap [KEY_CTRL, 0xE0, KEY_CTRL, 0xF0, KEY_CTRL], fun right => ?_⟩
  rw [(run_frames (frames_flatMap [KEY_CTRL, 0xE0, KEY_CTRL, 0xF0, KEY_CTRL]) idle_init).2.2] at right
  have held : rightCtrl ∈ [.press leftCtrl, .press rightCtrl, .release leftCtrl].foldl Event.held ∅ := by decide
  exact absurd ((right.flags .ctrl).mpr (.inl ⟨rightCtrl, held, rfl⟩)) (by decide)

end Ethersex.Ps2
