import Mathlib
import Ethersex.Library.Ring

/-!
# The receive memory of the ENC28J60 and its driver

The chip stores the frames that arrive one behind the other in a ring of 4 KiB, each with the
address of the next one and a status vector in front, and counts them.  The driver reads the oldest
one, gives its memory back and decrements the counter.
-/

namespace Ethersex.Enc28j60

open Ethersex.Library

def RXBUFFER_START : Nat := 0x0000

def RXBUFFER_END : Nat := 0x0FFF

/-- The size of the receive memory. -/
def RXBUFFER_SIZE : Nat := 4096

/-- The configuration of a build.  The maximum length with the checksum goes into a register of the
chip. -/
structure Config where
  NET_MAX_FRAME_LENGTH : Nat
  UIP_CONF_IPV6 : Bool
  MAMXFL_fits : NET_MAX_FRAME_LENGTH + 4 < 65536

def Config.UIP_BUFSIZE (config : Config) : Nat := config.NET_MAX_FRAME_LENGTH

/-! ## The chip -/

/-- A frame on the wire, with its checksum, and the state that the chip records with it. -/
structure Frame where
  data : List UInt8
  state : UInt8 × UInt8
deriving DecidableEq

namespace Frame

/-- The memory that a frame takes; the next one starts at an even address. -/
def width (frame : Frame) : Nat := 6 + frame.data.length + frame.data.length % 2

/-- A frame in the memory, behind the address of the next one and the status vector. -/
def encode (next : Nat) (frame : Frame) : List UInt8 :=
  [UInt8.ofNat next, UInt8.ofNat (next / 256), UInt8.ofNat frame.data.length,
    UInt8.ofNat (frame.data.length / 256), frame.state.1, frame.state.2] ++ frame.data

end Frame

structure Chip where
  memory : Bytes
  ERXWRPT : Nat
  ERXRDPT : Nat
  ERDPT : Nat
  EPKTCNT : Nat

namespace Chip

/-- The memory that the chip may write, up to the read pointer. -/
def free (chip : Chip) : Nat := (chip.ERXRDPT + RXBUFFER_SIZE - chip.ERXWRPT - 1) % RXBUFFER_SIZE

/-- The chip has room for a frame, and counts up to 255. -/
def Takes (chip : Chip) (frame : Frame) : Prop := frame.width ≤ chip.free ∧ chip.EPKTCNT < 255

instance (chip : Chip) (frame : Frame) : Decidable (chip.Takes frame) :=
  inferInstanceAs (Decidable (frame.width ≤ chip.free ∧ chip.EPKTCNT < 255))

/-- A frame is stored. -/
def store (chip : Chip) (frame : Frame) : Chip :=
  let next := (chip.ERXWRPT + frame.width) % RXBUFFER_SIZE
  { chip with
    memory := overlay RXBUFFER_SIZE chip.ERXWRPT frame.width (ofList (frame.encode next)) chip.memory
    ERXWRPT := next
    EPKTCNT := chip.EPKTCNT + 1 }

end Chip

def setReadBufferPointer (address : UInt16) (chip : Chip) : Chip :=
  { chip with ERDPT := address.toNat % 8192 }

/-- Reading increments the read pointer, which wraps at the end of the receive memory. -/
def readBufferMemory (chip : Chip) : UInt8 × Chip :=
  (chip.memory chip.ERDPT,
    { chip with
      ERDPT := if chip.ERDPT = RXBUFFER_END then RXBUFFER_START else (chip.ERDPT + 1) % 8192 })

/-- The loops that read some bytes. -/
def readBytes : Nat → Chip → List UInt8 × Chip
  | 0, chip => ([], chip)
  | count + 1, chip =>
      let (byte, chip) := readBufferMemory chip
      let (rest, chip) := readBytes count chip
      (byte :: rest, chip)

/-! ## The driver -/

/-- What the driver gives to the stack, by the type of the frame. -/
inductive Upcall where
  | arp (packet : List UInt8)
  | ip (packet : List UInt8)
  | unknown (packet : List UInt8)
deriving DecidableEq

/-- The chip and the driver, the frames that were stored since the controller was initialised, and
what was given to the stack since then. -/
structure State where
  chip : Chip
  enc28j60_next_packet_pointer : UInt16
  arrived : List Frame
  handed : List Upcall

/-- The controller is reset; frames that it had stored are lost. -/
def initEnc28j60 (state : State) : State where
  chip :=
    { state.chip with
      ERXWRPT := RXBUFFER_START
      ERXRDPT := RXBUFFER_START
      EPKTCNT := 0 }
  enc28j60_next_packet_pointer := UInt16.ofNat RXBUFFER_START
  arrived := []
  handed := []

/-- A little-endian word among some bytes. -/
def wordAt (bytes : List UInt8) (index : Nat) : UInt16 :=
  (bytes.getD index 0).toUInt16 ||| (bytes.getD (index + 1) 0).toUInt16 <<< 8

/-- The size check. -/
def BadSize (config : Config) (received_packet_size : UInt16) : Prop :=
  received_packet_size.toNat > config.NET_MAX_FRAME_LENGTH ∨ received_packet_size.toNat < 14 ∨
    received_packet_size.toNat > config.UIP_BUFSIZE

instance (config : Config) (size : UInt16) : Decidable (BadSize config size) :=
  inferInstanceAs (Decidable (size.toNat > config.NET_MAX_FRAME_LENGTH ∨ size.toNat < 14 ∨
    size.toNat > config.UIP_BUFSIZE))

/-- The type of a packet decides which part of the stack gets it. -/
def upcall (config : Config) (packet : List UInt8) : Upcall :=
  let type := (packet.getD 12 0, packet.getD 13 0)
  if config.UIP_CONF_IPV6 then
    if type = (0x86, 0xdd) then .ip packet else .unknown packet
  else if type = (0x08, 0x06) then .arp packet
  else if type = (0x08, 0x00) then .ip packet
  else .unknown packet

/-- The pointer and the status vector at the place where the driver expects the next frame. -/
def readHeader (state : State) : List UInt8 × Chip :=
  readBytes 6 (setReadBufferPointer state.enc28j60_next_packet_pointer state.chip)

/-- The size in the status vector, without the checksum. -/
def receivedPacketSize (state : State) : UInt16 := wordAt (readHeader state).1 2 - 4

/-- The value for `ERXRDPT`, always an odd one. -/
def readPointerFor (next : UInt16) : Nat :=
  let before := next.toInt16.toInt - 1
  if before < RXBUFFER_START ∨ before > RXBUFFER_END then RXBUFFER_END else before.toNat

def processPacket (config : Config) (state : State) : State :=
  if state.chip.EPKTCNT = 0 then state
  else
    let (header, chip) := readHeader state
    let next := wordAt header 0
    let received_packet_size := receivedPacketSize state
    if BadSize config received_packet_size then
      { state with
        chip := chip
        enc28j60_next_packet_pointer := next }
    else
      let (packet, chip) := readBytes received_packet_size.toNat chip
      { state with
        chip :=
          { chip with
            ERXRDPT := readPointerFor next
            EPKTCNT := chip.EPKTCNT - 1 }
        enc28j60_next_packet_pointer := next
        handed := state.handed ++ [upcall config packet] }

/-- The flags of the interrupt register, and whether the packet buffer is locked. -/
structure Interrupts where
  PKTIF : Bool
  RXERIF : Bool
  locked : Bool
deriving DecidableEq

def networkProcess (config : Config) (interrupts : Interrupts) (state : State) : State :=
  if state.chip.EPKTCNT = 0 then state
  else if interrupts.PKTIF && interrupts.locked then state
  else
    let state := if interrupts.PKTIF then processPacket config state else state
    if interrupts.RXERIF then initEnc28j60 state else state

inductive Event where
  | arrive (frame : Frame)
  | networkProcess (interrupts : Interrupts)

def step (config : Config) (state : State) : Event → State
  | .arrive frame =>
      if state.chip.Takes frame then
        { state with
          chip := state.chip.store frame
          arrived := state.arrived ++ [frame] }
      else state
  | .networkProcess interrupts => networkProcess config interrupts state

/-- After the start, with anything in the memory. -/
def start (memory : Bytes) : State :=
  initEnc28j60 ⟨⟨memory, 0, 0, 0, 0⟩, 0, [], []⟩

end Ethersex.Enc28j60
