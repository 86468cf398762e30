import Mathlib
import Ethersex.Library.Ring

/-!
# The RFM12 driver

The radio's interrupt stores the bytes of a frame in the packet buffer, and sends those of an
outgoing one.  The main loop hands a complete frame to the stack, or has it forwarded.

The packet buffer has one lock, which the driver shares with the stack and with other drivers.
What is written or moved outside of the buffer is not defined, `none`.
-/

namespace Ethersex.Rfm12

open Ethersex.Library

/-- The configuration of a build. -/
structure Config where
  RFM12_BUFFER_LEN : Nat
  TEENSY_SUPPORT : Bool
  /-- The station's number, with `RFM12_PCKT_FWD`. -/
  CONF_RFM12_STATID : Option UInt8
  /-- The router's number, with `RFM12_SOURCE_ROUTE_ALL`. -/
  CONF_RFM12_SOURCE_ROUTE_ALL_RTRID : Option UInt8
  positive : 0 < RFM12_BUFFER_LEN
  indexed : RFM12_BUFFER_LEN ≤ if TEENSY_SUPPORT then 254 else 65535

/-- How many values `rfm12_index_t` has. -/
def Config.indices (c : Config) : Nat := if c.TEENSY_SUPPORT then 256 else 65536

/-! ## The state -/

inductive Status where
  | OFF
  | RX
  | NEW
  | TX
  | TX_PREAMBLE_1
  | TX_PREAMBLE_2
  | TX_PREFIX_1
  | TX_PREFIX_2
  | TX_SRCRT_SZHI
  | TX_SRCRT_SZLO
  | TX_SRCRT_DEST
  | TX_SIZE_HI
  | TX_SIZE_LO
  | TX_DATA
  | TX_DATAEND
  | TX_SUFFIX_1
  | TX_SUFFIX_2
  | TX_END
deriving DecidableEq

namespace Status

/-- `rfm12_tx_active`. -/
def txActive : Status → Bool
  | OFF | RX | NEW => false
  | _ => true

/-- The next status of a transmission. -/
def next (c : Config) : Status → Status
  | TX => TX_PREAMBLE_1
  | TX_PREAMBLE_1 => TX_PREAMBLE_2
  | TX_PREAMBLE_2 => TX_PREFIX_1
  | TX_PREFIX_1 => TX_PREFIX_2
  | TX_PREFIX_2 => if c.CONF_RFM12_SOURCE_ROUTE_ALL_RTRID.isSome then TX_SRCRT_SZHI else TX_SIZE_HI
  | TX_SRCRT_SZHI => TX_SRCRT_SZLO
  | TX_SRCRT_SZLO => TX_SRCRT_DEST
  | TX_SRCRT_DEST => TX_SIZE_HI
  | TX_SIZE_HI => TX_SIZE_LO
  | TX_SIZE_LO => TX_DATA
  | TX_DATA => TX_DATAEND
  | TX_DATAEND => TX_SUFFIX_1
  | TX_SUFFIX_1 => TX_SUFFIX_2
  | TX_SUFFIX_2 => TX_END
  | other => other

end Status

structure State where
  rfm12_status : Status
  rfm12_index : Nat
  rfm12_txlen : Nat
  rfm12_buf : Bytes
  uip_buf_lock : Nat
  /-- What `rfm12_txstart` has to do, after its test: the size, and the packet in the buffer. -/
  txstart : Option (Nat × Bytes)
  /-- What was sent to the radio in order to be transmitted. -/
  transmitted : List UInt8

variable (c : Config)

/-- `rfm12_rxstart`. -/
def rxstart (s : State) : State :=
  if s.rfm12_status ≠ .OFF then s else { s with rfm12_index := 0, rfm12_status := .RX }

/-- `uip_buf_unlock`. -/
def uipBufUnlock (s : State) : State :=
  if s.rfm12_status.txActive then s else { s with uip_buf_lock := 0 }

/-- The length that the header of a frame announces. -/
def announced (buf : Bytes) : Nat :=
  (buf 1).toNat + if c.TEENSY_SUPPORT then 0 else (buf 0 &&& 0x7f).toNat * 256

/-- A frame with a route header. -/
def routed (buf : Bytes) : Bool := buf 0 &&& 0x80 ≠ 0

/-! ## The interrupt -/

/-- Whether the interrupt takes a byte. -/
def takes (byte : UInt8) (s : State) : Bool :=
  if s.rfm12_index ≠ 0 then s.rfm12_index < c.RFM12_BUFFER_LEN
  else s.uip_buf_lock = 0 ∧ (c.TEENSY_SUPPORT = true → byte &&& 0x7f = 0)

/-- Whether a frame is complete. -/
def Complete (s : State) : Prop := 2 < s.rfm12_index ∧ announced c s.rfm12_buf + 1 < s.rfm12_index

instance (s : State) : Decidable (Complete c s) := inferInstanceAs (Decidable (_ ∧ _))

/-- The interrupt while the radio receives. -/
def receive (byte : UInt8) (s : State) : Option State :=
  if takes c byte s then
    if s.rfm12_index < c.RFM12_BUFFER_LEN then
      let s := { s with
        uip_buf_lock := 8
        rfm12_buf := Function.update s.rfm12_buf s.rfm12_index byte
        rfm12_index := s.rfm12_index + 1 }
      some (if Complete c s then { s with rfm12_status := .NEW } else s)
    else none
  else
    let s := if s.rfm12_index ≠ 0 then uipBufUnlock s else s
    some (rxstart { s with rfm12_status := .OFF })

/-- A byte for the transmitter, and the next status. -/
def send (byte : UInt8) (s : State) : State :=
  { s with
    transmitted := s.transmitted ++ [byte]
    rfm12_status := s.rfm12_status.next c }

/-- What the interrupt does in each status. -/
def switch (byte : UInt8) (s : State) : Option State :=
  match s.rfm12_status with
  | .RX => receive c byte s
  | .TX | .TX_PREAMBLE_1 | .TX_PREAMBLE_2 | .TX_DATAEND | .TX_SUFFIX_1 | .TX_SUFFIX_2 =>
      some (send c 0xAA s)
  | .TX_PREFIX_1 => some (send c 0x2D s)
  | .TX_PREFIX_2 => some (send c 0xD4 s)
  | .TX_SRCRT_SZHI =>
      some (send c (if c.TEENSY_SUPPORT then 0x80
        else 0x80 ||| UInt8.ofNat ((3 + s.rfm12_txlen) / 256 % 128)) s)
  | .TX_SRCRT_SZLO => some (send c (UInt8.ofNat (3 + s.rfm12_txlen)) s)
  | .TX_SRCRT_DEST => some (send c (c.CONF_RFM12_SOURCE_ROUTE_ALL_RTRID.getD 0) s)
  | .TX_SIZE_HI => some (send c (s.rfm12_buf 0) s)
  | .TX_SIZE_LO => some (send c (s.rfm12_buf 1) s)
  | .TX_DATA =>
      some { s with
        transmitted := s.transmitted ++ [s.rfm12_buf (2 + s.rfm12_index)]
        rfm12_index := s.rfm12_index + 1
        rfm12_status := if s.rfm12_index + 1 ≥ s.rfm12_txlen then .TX_DATAEND else .TX_DATA }
  | .TX_END => some (rxstart (uipBufUnlock { s with rfm12_status := .OFF }))
  | .OFF | .NEW => some s

/-- The radio's interrupt, with the byte that it has if it receives. -/
def interrupt (byte : UInt8) (s : State) : Option State :=
  (switch c byte s).map fun s =>
    if s.rfm12_status.txActive then { s with uip_buf_lock := 8 } else s

/-! ## The main loop -/

/-- `rfm12_txstart_hard`.  The transmitter is switched on at its end, there is no interrupt of it
before. -/
def txstartHard (s : State) : State :=
  { s with
    rfm12_status := .TX
    rfm12_index := 0
    uip_buf_lock := 8 }

/-- The end of `rfm12_rxfinish`. -/
def finish (len : Nat) (s : State) : Nat × State :=
  let s := { s with rfm12_status := .OFF }
  (len, if len = 0 then rxstart (uipBufUnlock s) else s)

/-- The route header is stripped; `count` is what `memmove` is called with. -/
def strip (count : Nat) (buf : Bytes) : Bytes := fun k => if k < count then buf (k + 3) else buf k

/-- `rfm12_rxfinish`, with its result.  An interrupt finds the status `NEW` or `OFF` here, and does
nothing. -/
def rxfinish (s : State) : Option (Nat × State) :=
  if s.rfm12_status ≠ .NEW then some (0, s)
  else
    let len := announced c s.rfm12_buf
    if routed s.rfm12_buf then
      match c.CONF_RFM12_STATID with
      | some id =>
          if s.rfm12_buf 2 = id then
            let count := (len + 65535) % 65536
            if 3 + count ≤ c.RFM12_BUFFER_LEN then
              some (0, txstartHard { s with
                rfm12_buf := strip count s.rfm12_buf
                rfm12_txlen := (len + c.indices - 3) % c.indices })
            else none
          else some (finish len s)
      | none => some (finish 0 s)
    else some (finish len s)

/-- The test of `rfm12_txstart`, for a packet in the buffer. -/
def txstartTest (size : Nat) (packet : Bytes) (s : State) : State :=
  if s.rfm12_status = .OFF ∨ s.rfm12_status = .RX ∧ s.rfm12_index = 0 then
    { s with txstart := some (size, packet) }
  else s

/-- The rest of `rfm12_txstart`. -/
def txstartRest (size : Nat) (packet : Bytes) (s : State) : State :=
  txstartHard { s with
    rfm12_txlen := size
    rfm12_buf := Function.update (Function.update packet 0
      (if c.TEENSY_SUPPORT then 0 else UInt8.ofNat (size / 256))) 1 (UInt8.ofNat size)
    txstart := none }

/-! ## Runs -/

inductive Event where
  | interrupt (byte : UInt8)
  | rxfinish
  | rxstart
  /-- The stack calls `rfm12_txstart`. -/
  | txstart (size : Nat) (packet : Bytes)
  /-- `rfm12_txstart` goes on. -/
  | proceed
  /-- The stack or another driver wants the buffer. -/
  | lock
  /-- Who has it gives it back. -/
  | unlock

def next (s : State) : Event → Option State
  | .interrupt byte => interrupt c byte s
  | .rxfinish => if s.txstart.isSome then some s else (rxfinish c s).map Prod.snd
  | .rxstart => if s.txstart.isSome then some s else some (rxstart s)
  | .txstart size packet => if s.txstart.isSome then some s else some (txstartTest size packet s)
  | .proceed => some (s.txstart.elim s fun (size, packet) => txstartRest c size packet s)
  | .lock => some (if s.uip_buf_lock = 0 then { s with uip_buf_lock := 8 } else s)
  | .unlock => some (uipBufUnlock s)

/-- After reset, when the receiver was started. -/
def start (buf : Bytes) : State := ⟨.RX, 0, 0, buf, 0, none, []⟩

end Ethersex.Rfm12
