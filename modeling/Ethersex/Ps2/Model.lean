import Mathlib

/-!
# A PS/2 keyboard

The keyboard drives the clock.  At each falling edge an interrupt takes one bit, and a byte that is
complete is decoded at once.  The main loop calls `ps2_periodic`, which resets the receiver when a
frame takes too long.
-/

namespace Ethersex.Ps2

def KEY_ALT : UInt8 := 0x11
def KEY_CTRL : UInt8 := 0x14
def KEY_SHIFT_RIGHT : UInt8 := 0x12
def KEY_SHIFT_LEFT : UInt8 := 0x59
def KEY_LIN : UInt8 := 0x1f
def KEY_CAPS_LOCK : UInt8 := 0x58
def KEY_NUM_LOCK : UInt8 := 0x77

def PS2_CAPS_LOCK_LED : UInt8 := 0x04
def PS2_NUM_LOCK_LED : UInt8 := 0x02

/-- `sizeof (keycodes)`, and `sizeof (keycodes_shift)` too. -/
def sizeofKeycodes : Nat := 0x80

/-! ## The decoder -/

/-- The modifiers. -/
structure KeyPress where
  ctrl : Bool
  alt : Bool
  lin : Bool
  num : Bool
  shift : Bool
  extended : Bool
deriving DecidableEq

/-- What the bytes from the keyboard change, with the places of `keycodes` that have been looked up. -/
structure Keys where
  is_up : Bool
  key : KeyPress
  leds : UInt8
  lookups : List UInt8
deriving DecidableEq

section Decoder

variable (SYSLOG_SUPPORT : Bool)

/-- `decode_key`: a key has been released. -/
def decodeKey (keycode : UInt8) (keys : Keys) : Keys :=
  if keycode = KEY_ALT then { keys with key.alt := false }
  else if keycode = KEY_CTRL then { keys with key.ctrl := false }
  else if keycode = KEY_SHIFT_RIGHT ∨ keycode = KEY_SHIFT_LEFT then
    { keys with
      key.shift := false
      leds := keys.leds &&& ~~~PS2_CAPS_LOCK_LED }
  else if keycode = KEY_LIN then { keys with key.lin := false }
  else if keycode = KEY_NUM_LOCK then
    { keys with
      key.num := !keys.key.num
      key.lin := false
      leds := keys.leds ^^^ PS2_NUM_LOCK_LED }
  else if keycode = KEY_CAPS_LOCK then
    { keys with
      key.shift := true
      leds := keys.leds ||| PS2_CAPS_LOCK_LED }
  else if SYSLOG_SUPPORT then { keys with lookups := keys.lookups ++ [keycode] }
  else keys

/-- Some codes are processed while the key is held down. -/
def holdKey (data : UInt8) (keys : Keys) : Keys :=
  if data = KEY_ALT then { keys with key.alt := true }
  else if data = KEY_CTRL then { keys with key.ctrl := true }
  else if data = KEY_SHIFT_RIGHT ∨ data = KEY_SHIFT_LEFT then { keys with key.shift := true }
  else if data = KEY_LIN then { keys with key.lin := true }
  else if data = 0xE0 then { keys with key.extended := true }
  else { keys with key.extended := false }

/-- A byte is complete. -/
def received (data : UInt8) (keys : Keys) : Keys :=
  if keys.is_up then { decodeKey SYSLOG_SUPPORT data keys with is_up := false }
  else if data = 0xF0 then { keys with is_up := true }
  else holdKey data keys

end Decoder

/-! ## The receiver -/

structure State where
  bitcount : UInt8
  data : UInt8
  parity : UInt8
  timeout : UInt8
  keys : Keys
deriving DecidableEq

/-- What happens to the receiver: a falling edge of the clock, with the level of the data line, or a
call of `ps2_periodic`. -/
inductive Signal where
  | fall (data : Bool)
  | periodic
deriving DecidableEq

/-- `ps2_init`. -/
def ps2Init : State where
  bitcount := 11
  data := 0
  parity := 1
  timeout := 0
  keys := ⟨false, ⟨false, false, false, false, false, false⟩, 0, []⟩

/-- `ps2_periodic`. -/
def ps2Periodic (state : State) : State :=
  let timeout := state.timeout - 1
  if state.timeout ≠ 0 ∧ timeout = 0 then
    { state with
      timeout
      parity := 1
      bitcount := 11 }
  else { state with timeout }

/-- A data bit is shifted in. -/
def shiftIn (data : UInt8) (high : Bool) : UInt8 := if high then data >>> 1 ||| 0x80 else data >>> 1

/-- The interrupt, up to the count of the bits: the timeout is started, or a bit is taken. -/
def takeBit (state : State) (high : Bool) : State :=
  let state := if state.bitcount = 11 then { state with timeout := 2 } else state
  if state.bitcount < 11 ∧ state.bitcount > 2 then
    { state with
      data := shiftIn state.data high
      parity := if high then state.parity ^^^ 1 else state.parity }
  else if state.bitcount = 2 then
    { state with data := if (if high then 1 else 0) ^^^ state.parity ≠ 0 then 0 else state.data }
  else state

/-- The interrupt at a falling edge. -/
def interrupt (SYSLOG_SUPPORT : Bool) (state : State) (high : Bool) : State :=
  let state := takeBit state high
  let bitcount := state.bitcount - 1
  if bitcount = 0 then
    { state with
      parity := 1
      bitcount := 11
      keys := received SYSLOG_SUPPORT state.data state.keys }
  else { state with bitcount }

def step (SYSLOG_SUPPORT : Bool) (state : State) : Signal → State
  | .fall data => interrupt SYSLOG_SUPPORT state data
  | .periodic => ps2Periodic state

def run (SYSLOG_SUPPORT : Bool) (state : State) (signals : List Signal) : State :=
  signals.foldl (step SYSLOG_SUPPORT) state

/-! ## The keyboard -/

/-- A key: its code, and whether `0xE0` comes in front of it. -/
@[ext] structure Key where
  extended : Bool
  code : UInt8
  plain : code ≠ 0xE0 ∧ code ≠ 0xF0

instance : DecidableEq Key := fun left right =>
  decidable_of_iff (left.extended = right.extended ∧ left.code = right.code) Key.ext_iff.symm

/-- What the keyboard does: a key is pressed, or held on, or released; or it is cut off within a code, of
which only the prefixes have been sent. -/
inductive Event where
  | press (key : Key)
  | release (key : Key)
  | cut (extended up : Bool)

namespace Event

def bytes : Event → List UInt8
  | .press key => (if key.extended then [0xE0] else []) ++ [key.code]
  | .release key => (if key.extended then [0xE0] else []) ++ [0xF0, key.code]
  | .cut extended up => (if extended then [0xE0] else []) ++ if up then [0xF0] else []

/-- The keys that are held down then. -/
def held (keys : Finset Key) : Event → Finset Key
  | .press key => insert key keys
  | .release key => keys.erase key
  | .cut _ _ => keys

end Event

/-! ## What is on the lines -/

namespace Signal

def bit : Signal → Option Bool
  | .fall data => some data
  | .periodic => none

/-- The bits that are clocked. -/
def bits (signals : List Signal) : List Bool := signals.filterMap bit

/-- The calls of `ps2_periodic`. -/
def calls (signals : List Signal) : Nat := signals.count .periodic

@[simp] theorem bits_fall (data : Bool) (rest : List Signal) : bits (.fall data :: rest) = data :: bits rest := rfl

@[simp] theorem bits_periodic (rest : List Signal) : bits (.periodic :: rest) = bits rest := rfl

@[simp] theorem calls_fall (data : Bool) (rest : List Signal) : calls (.fall data :: rest) = calls rest :=
  List.count_cons_of_ne (by simp)

@[simp] theorem calls_periodic (rest : List Signal) : calls (.periodic :: rest) = calls rest + 1 :=
  List.count_cons_self

end Signal

/-- The data bits of a byte, the least significant one first. -/
def dataBits (byte : UInt8) : List Bool := (List.range 8).map byte.toNat.testBit

/-- The bits of a frame behind the start bit: the data, a bit for an odd parity, and the stop bit. -/
def frameBits (byte : UInt8) : List Bool := dataBits byte ++ [(dataBits byte).foldl xor true, true]

/-- A whole frame, within which no more than one call falls. -/
def Frame (byte : UInt8) (signals : List Signal) : Prop :=
  ∃ rest, signals = .fall false :: rest ∧ Signal.bits rest = frameBits byte ∧ Signal.calls rest ≤ 1

/-- A frame that is cut off, with a pause that is long enough for the timeout. -/
def CutFrame (signals : List Signal) : Prop :=
  ∃ rest pause, signals = .fall false :: (rest ++ List.replicate pause .periodic) ∧
    (Signal.bits rest).length ≤ 9 ∧ Signal.calls rest ≤ 1 ∧ 2 ≤ Signal.calls rest + pause

/-- What may be on the lines between two frames. -/
inductive Noise : List Signal → Prop where
  | nil : Noise []
  | periodic {rest : List Signal} (noise : Noise rest) : Noise (.periodic :: rest)
  | cut {signals rest : List Signal} (cut : CutFrame signals) (noise : Noise rest) : Noise (signals ++ rest)

/-- Bytes that are sent in frames. -/
inductive Frames : List UInt8 → List Signal → Prop where
  | nil {signals : List Signal} (noise : Noise signals) : Frames [] signals
  | cons {byte : UInt8} {bytes : List UInt8} {before signals rest : List Signal} (noise : Noise before)
      (frame : Frame byte signals) (frames : Frames bytes rest) :
      Frames (byte :: bytes) (before ++ signals ++ rest)

end Ethersex.Ps2
