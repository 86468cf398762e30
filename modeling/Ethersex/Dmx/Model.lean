import Mathlib
import Ethersex.Library.Bytes

/-!
# The DMX transmitter

The channels are sent over and over, one frame after the other.  A frame is started by the periodic
function, and the transmit interrupt sends one channel each time the one before is out.
-/

namespace Ethersex.Dmx

open Library

/-! ## The line -/

/-- What is on the line: a reset with the start byte behind it, a channel, or the end of a frame. -/
inductive Line where
  | reset
  | slot (ch : UInt8)
  | off
deriving DecidableEq

/-- The frame that is being received, if its reset was seen, and the complete ones. -/
structure Receiver where
  current : Option (List UInt8)
  complete : List (List UInt8)
deriving DecidableEq

def Receiver.next (r : Receiver) : Line → Receiver
  | .reset => { r with current := some [] }
  | .slot ch => { r with current := r.current.map (· ++ [ch]) }
  | .off => ⟨none, r.complete ++ r.current.toList⟩

/-- What is received from the start of a line on. -/
def received (line : List Line) : Receiver := line.foldl Receiver.next ⟨none, []⟩

/-- The frames that are on a line as a whole. -/
def frames (line : List Line) : List (List UInt8) := (received line).complete

/-! ## The state -/

/-- The channels with what is behind the array, the variables beside them, whether the transmitter with
its interrupt is enabled, and what it has sent. -/
structure Sender where
  dmx_data : Bytes
  dmx_index : UInt8
  dmx_txlen : UInt8
  dmx_prg : UInt8
  color_r : UInt8
  color_g : UInt8
  color_b : UInt8
  rainbow_step : UInt8
  rainbow_delay : UInt16
  transmits : Bool
  line : List Line

def RAINBOW_DELAY : Nat := 42

namespace Sender

/-- `dmx_set_chan_x`. -/
def dmxSetChanX (startchan channum : UInt8) (chan : List UInt8) (s : Sender) : Sender :=
  { s with
    dmx_txlen :=
      if s.dmx_txlen.toNat < startchan.toNat + channum.toNat then
        UInt8.ofNat (startchan.toNat + channum.toNat)
      else s.dmx_txlen
    dmx_data := fun k =>
      if startchan.toNat ≤ k ∧ k < startchan.toNat + channum.toNat then chan.getD (k - startchan.toNat) 0
      else s.dmx_data k }

/-- The memory at reset. -/
def reset : Sender := ⟨fun _ => 0, 0, 0, 0, 0, 0, 0, 0, 0, false, []⟩

/-- `dmx_init`. -/
def dmxInit (s : Sender) : Sender :=
  let s := { s with
    dmx_txlen := 0
    dmx_index := 0
    color_r := 255
    color_g := 128
    color_b := 0
    dmx_prg := 1 }
  let s := s.dmxSetChanX 0 4 [s.color_r, s.color_g, s.color_b, 159]
  let s := s.dmxSetChanX 4 6 [17, 128, 0, s.color_r, s.color_g, s.color_b]
  s.dmxSetChanX 44 6 [17, 255, 0, s.color_r, s.color_g, s.color_b]

/-- How many calls pass between two steps of the rainbow.  The division routine of the AVR gives all
ones for a divisor of 0. -/
def delay (s : Sender) : Nat := if s.dmx_txlen = 0 then 0xFFFF else RAINBOW_DELAY / s.dmx_txlen.toNat

/-- `dmx_handle_rainbow_colors`. -/
def dmxHandleRainbowColors (s : Sender) : Sender :=
  if s.rainbow_delay.toNat ≤ s.delay then { s with rainbow_delay := s.rainbow_delay + 1 }
  else
    let s := { s with rainbow_delay := 0 }
    if s.rainbow_step = 0 then
      if s.color_g > 1 then
        { s with
          color_g := s.color_g - 1
          color_b := s.color_b + 1 }
      else { s with rainbow_step := s.rainbow_step + 1 }
    else if s.rainbow_step = 1 then
      if s.color_r > 1 then
        { s with
          color_r := s.color_r - 1
          color_g := s.color_g + 1 }
      else { s with rainbow_step := s.rainbow_step + 1 }
    else if s.rainbow_step = 2 then
      if s.color_b > 1 then
        { s with
          color_b := s.color_b - 1
          color_r := s.color_r + 1 }
      else { s with rainbow_step := 0 }
    else s

/-- `dmx_tx_start`. -/
def dmxTxStart (s : Sender) : Sender :=
  { s with
    transmits := true
    line := s.line ++ [.reset] }

/-- `dmx_tx_stop`. -/
def dmxTxStop (s : Sender) : Sender :=
  { s with
    transmits := false
    line := s.line ++ [.off]
    dmx_index := 0 }

/-- The transmit interrupt, which comes only if it is enabled. -/
def txVect (s : Sender) : Sender :=
  if s.transmits then
    if s.dmx_index < s.dmx_txlen then
      { s with
        line := s.line ++ [.slot (s.dmx_data s.dmx_index.toNat)]
        dmx_index := s.dmx_index + 1 }
    else s.dmxTxStop
  else s

/-- The program that fades the colors. -/
def fade (s : Sender) : Sender :=
  let s := s.dmxHandleRainbowColors
  let s := s.dmxSetChanX 0 4 [s.color_r, s.color_g, s.color_b, 159]
  let s := s.dmxSetChanX 4 12 [1, 128, 0, s.color_r, s.color_g, s.color_b,
    s.color_r, s.color_g, s.color_b, s.color_r, s.color_g, s.color_b]
  let s := s.dmxSetChanX 16 12 [1, 0xff, 0, s.color_r, 0, 0, 0, s.color_g, 0, 0, 0, s.color_b]
  s.dmxSetChanX 44 6 [17, 0xff, 0, s.color_r / 2, s.color_g / 2, s.color_b / 2]

/-- `dmx_periodic`, with the transmit interrupts that come before it starts a frame. -/
def dmxPeriodic (interrupts : Nat) (s : Sender) : Sender :=
  if s.dmx_index = 0 then
    let s := if s.dmx_prg = 1 then s.fade else s
    (txVect^[interrupts] s).dmxTxStart
  else s

/-- `parse_cmd_dmx_set6chan`, with the numbers that are found in the command. -/
def parseCmdDmxSet6chan (numbers : List UInt16) (s : Sender) : Option Sender :=
  match numbers with
  | [startchan, value_1, value_2, value_3, value_4, value_5, value_6] =>
      if startchan + 6 > 512 then none
      else
        let s := if s.dmx_txlen.toNat < (startchan + 6).toNat then
          { s with dmx_txlen := (startchan + 6).toUInt8 } else s
        let s := { s with dmx_prg := 0 }
        let s := s.dmxSetChanX startchan.toUInt8 6 [value_1.toUInt8, value_2.toUInt8, value_3.toUInt8,
          value_4.toUInt8, value_5.toUInt8, value_6.toUInt8]
        some { s with dmx_index := 0 }
  | _ => none

/-- `parse_cmd_dmx_fade`. -/
def parseCmdDmxFade (s : Sender) : Sender := { s with dmx_prg := 1 }

end Sender

end Ethersex.Dmx
