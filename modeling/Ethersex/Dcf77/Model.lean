import Mathlib
import Ethersex.Clock.Model

/-!
# The DCF77 receiver

The comparator interrupt measures the time since the last interrupt it accepted,
`divtime`, and decodes it.  The decoder counts the pulses of a minute in `sync`,
shifts their bits into a few registers and checks start bit and parities on the
way.

`step` is the decoder on a measured length; `signal` is the whole interrupt, which
also measures.  Debugging output is left out, and so is the case labels' output of
the bits that only describe the transmission.
-/

namespace Ethersex.Dcf77

open Clock

/-- The numerals of the registers `time[0]` to `time[7]`. -/
scoped instance neZero_time : NeZero 8 := ⟨by decide⟩

/-- The part of `struct dcf77_ctx` that decodes. -/
structure Decoder where
  timezone : UInt8
  time : Fin 8 → UInt8
  timebyte : Fin 8
  timeparity : UInt8
  sync : UInt8

/-- The decoder before the first interrupt. -/
def Decoder.initial : Decoder := ⟨0, fun _ => 0, 0, 0, 0⟩

/-- `bcd2bin`. -/
def bcd2bin (data : UInt8) : UInt8 := data - data / 16 * 6

/-- A `case` that shifts the register down to its bits and goes on to another one. -/
def Decoder.closeByte (shift : UInt8) (next : Fin 8) (dcf : Decoder) : Decoder :=
  { dcf with
    time := Function.update dcf.time dcf.timebyte (dcf.time dcf.timebyte >>> shift)
    timebyte := next }

/-- A `case` that goes on to a register whose bits are under a parity bit. -/
def Decoder.openByte (byte : Fin 8) (dcf : Decoder) : Decoder :=
  { dcf with timebyte := byte, timeparity := 0 }

/-- The `switch` on the number of the pulse. -/
def Decoder.switch (divtime : UInt16) (dcf : Decoder) : Decoder :=
  match dcf.sync.toNat with
  | 1 => { dcf with timebyte := 1 }
  | 18 => { dcf with timezone := if divtime < 34 then 0 else 1 }
  | 22 => dcf.openByte 2
  | 29 => dcf.closeByte 1 0
  | 30 => dcf.openByte 3
  | 36 => dcf.closeByte 2 0
  | 37 => dcf.openByte 4
  | 43 => dcf.closeByte 2 5
  | 46 => dcf.closeByte 5 6
  | 51 => dcf.closeByte 3 7
  | 59 => { dcf with timebyte := 0 }
  | _ => dcf

/-- A pulse shorter or longer than `0x28`.  In front of register 0 the parity is
checked. -/
def Decoder.bit (one : Bool) (dcf : Decoder) : Decoder :=
  let shifted := dcf.time dcf.timebyte >>> 1
  if one then
    let timeparity := dcf.timeparity ^^^ 1
    if dcf.timebyte ≠ 0 then
      { dcf with timeparity, time := Function.update dcf.time dcf.timebyte (shifted ||| 0x80) }
    else if timeparity ≠ 0 then { dcf with timeparity, sync := 0 }
    else { dcf with timeparity }
  else
    let sync := if dcf.sync = 21 then 0 else dcf.sync
    if dcf.timebyte ≠ 0 then
      { dcf with sync, time := Function.update dcf.time dcf.timebyte shifted }
    else if dcf.timeparity ≠ 0 then { dcf with sync := 0 }
    else { dcf with sync }

/-- The date the registers hold.  `dow` is not set and not used. -/
def Decoder.date (dcf : Decoder) : Datetime where
  sec := 0
  min := bcd2bin (dcf.time 2)
  hour := bcd2bin (dcf.time 3)
  day := bcd2bin (dcf.time 4)
  month := bcd2bin (dcf.time 6)
  dow := 0
  year := bcd2bin (dcf.time 7)

/-- A pulse of length `divtime`, and the argument of `clock_set_time` if it is
called. -/
def Decoder.pulse (behind : Nat → UInt8) (divtime : UInt16) (dcf : Decoder) :
    Decoder × Option UInt32 :=
  let dcf := if divtime > 0x3F ∨ divtime < 0x0B then { dcf with sync := 0 } else dcf
  if 0 < dcf.sync ∧ dcf.sync < 60 then
    let dcf := (dcf.switch divtime).bit (0x28 < divtime)
    ({ dcf with sync := dcf.sync + 1 },
      if dcf.sync = 59 then some (clockUtc2timestamp behind dcf.date dcf.timezone) else none)
  else (dcf, none)

/-- A pause of length `divtime`; the minute gap starts a new minute. -/
def Decoder.pause (divtime : UInt16) (dcf : Decoder) : Decoder :=
  let dcf := if divtime > 0xF8 ∨ divtime < 0xB8 then { dcf with sync := 0 } else dcf
  if divtime > 0x1C0 ∧ divtime < 0x1F0 ∧ dcf.sync = 0 then { dcf with sync := 1 } else dcf

/-- A measured length: of a pulse if the comparator output is low. -/
structure Event where
  low : Bool
  divtime : UInt16

/-- The decoder on a measured length.  Lengths up to 5 are ignored. -/
def Decoder.step (behind : Nat → UInt8) (dcf : Decoder) (event : Event) :
    Decoder × Option UInt32 :=
  if event.divtime > 5 then
    if event.low then dcf.pulse behind event.divtime else (dcf.pause event.divtime, none)
  else (dcf, none)

/-! ## Measuring -/

/-- `struct dcf77_ctx` with the fields that measure. -/
structure Context extends Decoder where
  timerover : UInt32
  tcnt2Last : UInt8

/-- 1/256 seconds since the last accepted signal. -/
def Context.divtime (tcnt2 : UInt8) (now : UInt32) (dcf : Context) : UInt16 :=
  (tcnt2.toUInt32 + (now - dcf.timerover) * 0xFF - dcf.tcnt2Last.toUInt32).toUInt16

/-- The interrupt; the last result is the timer register afterwards. -/
def signal (behind : Nat → UInt8) (low : Bool) (tcnt2 : UInt8) (dcf : Context)
    (clock : Counters) : Context × Counters × UInt8 :=
  let divtime := dcf.divtime tcnt2 (clockGetTime clock)
  if divtime > 5 then
    let (decoder, call) := dcf.toDecoder.step behind ⟨low, divtime⟩
    let clock := call.elim clock fun timestamp => clockSetTime timestamp clock
    let tcnt2 :=
      if ¬low ∧ divtime > 0x1C0 ∧ divtime < 0x1F0 then divtime.toUInt8 else tcnt2
    ({ decoder with timerover := clockGetTime clock, tcnt2Last := tcnt2 }, clock, tcnt2)
  else (dcf, clock, tcnt2)

/-! ## Runs -/

/-- The decoder after a sequence of measured lengths. -/
def Decoder.run (behind : Nat → UInt8) (dcf : Decoder) (events : List Event) : Decoder :=
  events.foldl (fun dcf event => (dcf.step behind event).1) dcf

/-- The arguments of the calls of `clock_set_time`. -/
def Decoder.calls (behind : Nat → UInt8) : Decoder → List Event → List UInt32
  | _, [] => []
  | dcf, event :: events =>
      (dcf.step behind event).2.toList ++ (dcf.step behind event).1.calls behind events

end Ethersex.Dcf77
