import Mathlib
import Ethersex.Library.Bytes

/-!
# A Modbus station

The client stack, which answers a request in the buffer that holds it, and the driver of the
serial line around it: the receive and the transmit interrupt and the timer that finds the end
of a frame.  Only the station's own role is here; no request of a gateway is on its way.

What is written or read outside of the buffer is not defined, and the result is `none` then.
-/

namespace Ethersex.Modbus

open Ethersex.Library

def MODBUS_BUFFER_LEN : Nat := 100

def MODBUS_CMD_READ_HOLDING : UInt8 := 0x03

def MODBUS_CMD_READ_INPUTS : UInt8 := 0x04

def MODBUS_CMD_WRITE_HOLDING : UInt8 := 0x06

def MODBUS_CMD_WRITE_MULTIPLE_HOLDING : UInt8 := 0x10

/-- The configuration of a build. -/
structure Config where
  MODBUS_ADDRESS : UInt8
  MODBUS_BROADCAST : UInt8
  MODBUS_HOLD_REGISTERS : Nat
  MODBUS_INPUT_REGISTERS : Nat
  address_ne_broadcast : MODBUS_ADDRESS ≠ MODBUS_BROADCAST

/-! ## The registers -/

/-- An access to a register, by its address. -/
inductive Access where
  | readHolding (address : Nat)
  | readInput (address : Nat)
  | writeHolding (address : Nat) (value : UInt16)
deriving DecidableEq

/-- The holding registers, and every access to a register so far. -/
structure Registers where
  holding : Nat → UInt16
  accesses : List Access

namespace Registers

def access (r : Registers) : Access → Registers
  | .writeHolding address value =>
      ⟨Function.update r.holding address value, r.accesses ++ [.writeHolding address value]⟩
  | read => ⟨r.holding, r.accesses ++ [read]⟩

def perform (r : Registers) (accesses : List Access) : Registers := accesses.foldl access r

end Registers

def modbusReadHolding (address : UInt8) (r : Registers) : UInt16 × Registers :=
  (r.holding address.toNat, r.access (.readHolding address.toNat))

def modbusWriteHolding (address : UInt8) (value : UInt16) (r : Registers) : Registers :=
  r.access (.writeHolding address.toNat value)

def modbusReadInput (address : UInt8) (r : Registers) : UInt16 × Registers :=
  (0xf0f0, r.access (.readInput address.toNat))

/-! ## The client -/

/-- A word on the wire, the high byte first. -/
def ntohs (data : Bytes) (offset : Nat) : Nat := (data offset).toNat * 256 + (data (offset + 1)).toNat

/-- The two bytes of a register in an answer. -/
def wordBytes (value : UInt16) : List UInt8 := [(value >>> 8).toUInt8, value.toUInt8]

/-- The update of the checksum by one byte, as the library of the compiler documents it. -/
def crc16Update (crc : UInt16) (data : UInt8) : UInt16 :=
  (List.range 8).foldl (fun crc _ => if crc &&& 1 = 1 then (crc >>> 1) ^^^ 0xA001 else crc >>> 1)
    (crc ^^^ data.toUInt16)

section Client

variable (c : Config) (update : UInt16 → UInt8 → UInt16)

/-- The checksum; its length is an eight-bit number. -/
def modbusCrcCalc (data : Bytes) (len : Nat) : UInt16 :=
  (List.range (len % 256)).foldl (fun crc i => update crc (data i)) 0xffff

/-- The buffer and `recv_len` when the client is done. -/
structure Reply where
  data : Bytes
  recvLen : Int

/-- `send_message`: nothing to a broadcast, else the checksum behind the message. -/
def sendMessage (data : Bytes) (recvLen : Nat) : Option Reply :=
  if data 0 = c.MODBUS_BROADCAST then some ⟨data, -1⟩
  else if recvLen + 2 ≤ MODBUS_BUFFER_LEN then
    let crc := modbusCrcCalc update data recvLen
    some ⟨Function.update (Function.update data recvLen crc.toUInt8) (recvLen + 1)
      (crc >>> 8).toUInt8, recvLen + 2⟩
  else none

/-- `send_error`, with the code that was put behind the command. -/
def sendError (code : UInt8) (data : Bytes) : Option Reply :=
  sendMessage c update
    (Function.update (Function.update (Function.update data 2 code) 0 c.MODBUS_ADDRESS) 1
      (data 1 ||| 0x80)) 3

/-- The loop that reads registers into the answer. -/
def readRegisters (holding : Bool) (ptr : Nat) : Nat → Nat → Registers → List UInt8 × Registers
  | 0, _, r => ([], r)
  | count + 1, i, r =>
      let (tmp, r) :=
        if holding then modbusReadHolding (UInt8.ofNat (ptr + i)) r
        else modbusReadInput (UInt8.ofNat (ptr + i)) r
      let (rest, r) := readRegisters holding ptr count (i + 1) r
      (wordBytes tmp ++ rest, r)

/-- The loop that writes registers from the request. -/
def writeRegisters (data : Bytes) (ptr : Nat) : Nat → Nat → Registers → Option Registers
  | 0, _, r => some r
  | count + 1, i, r =>
      if 7 + 2 * i + 2 ≤ MODBUS_BUFFER_LEN then
        writeRegisters data ptr count (i + 1)
          (modbusWriteHolding (UInt8.ofNat (ptr + i)) (UInt16.ofNat (ntohs data (7 + 2 * i))) r)
      else none

/-- `memcpy` to the start of the buffer. -/
def memcpy (data : Bytes) (answer : List UInt8) (count : Nat) : Bytes :=
  fun k => if k < count then answer.getD k 0 else data k

/-- Answer the request of `length` bytes in the buffer. -/
def modbusClientProcess (data : Bytes) (length : Nat) (r : Registers) : Option (Registers × Reply) :=
  if data 1 = MODBUS_CMD_READ_HOLDING ∨ data 1 = MODBUS_CMD_READ_INPUTS then
    let holding := decide (data 1 = MODBUS_CMD_READ_HOLDING)
    let ptr := ntohs data 2 % 256
    let len := ntohs data 4 % 256
    if ptr + len > (if holding then c.MODBUS_HOLD_REGISTERS else c.MODBUS_INPUT_REGISTERS) then
      (sendError c update 2 data).map (r, ·)
    else
      let (registers, r) := readRegisters holding ptr len 0 r
      let answer := c.MODBUS_ADDRESS :: data 1 :: UInt8.ofNat (len * 2) :: registers
      let recvLen := len * 2 % 256 + 3
      if recvLen ≤ MODBUS_BUFFER_LEN then
        (sendMessage c update (memcpy data answer recvLen) recvLen).map (r, ·)
      else none
  else if data 1 = MODBUS_CMD_WRITE_HOLDING then
    if ntohs data 2 ≥ c.MODBUS_HOLD_REGISTERS then (sendError c update 2 data).map (r, ·)
    else
      let r := modbusWriteHolding (UInt8.ofNat (ntohs data 2)) (UInt16.ofNat (ntohs data 4)) r
      (sendMessage c update data length).map (r, ·)
  else if data 1 = MODBUS_CMD_WRITE_MULTIPLE_HOLDING then
    let ptr := ntohs data 2 % 256
    let len := ntohs data 4 % 256
    if ptr + len ≥ c.MODBUS_HOLD_REGISTERS then (sendError c update 2 data).map (r, ·)
    else
      (writeRegisters data ptr len 0 r).bind fun r =>
        let answer := [c.MODBUS_ADDRESS, MODBUS_CMD_WRITE_HOLDING, 0, UInt8.ofNat ptr, 0,
          UInt8.ofNat len]
        (sendMessage c update (memcpy data answer 6) 6).map (r, ·)
  else (sendError c update 1 data).map (r, ·)

end Client

/-! ## The serial line -/

/-- The variables of the driver.  The transmit buffer is the receive buffer. -/
structure Station where
  data : Bytes
  len : Nat
  recvTimer : Nat
  sent : Nat
  txLen : Nat
  crc : UInt16
  crcLen : Nat
  txcie : Bool
  registers : Registers

/-- The state after reset. -/
def modbusInit (data : Bytes) (registers : Registers) : Station where
  data := data
  len := 0
  recvTimer := 0
  sent := 0
  txLen := 0
  crc := 0
  crcLen := 0
  txcie := false
  registers := registers

section Driver

variable (c : Config) (update : UInt16 → UInt8 → UInt16)

/-- The receive interrupt. -/
def rxVect (s : Station) (byte : UInt8) : Option Station :=
  if s.len < MODBUS_BUFFER_LEN then
    some { s with data := Function.update s.data s.len byte, len := s.len + 1, recvTimer := 2 }
  else none

/-- The checksum at the end of a frame is the one of the bytes in front of it. -/
def ValidCrc (data : Bytes) (len : Nat) : Prop :=
  modbusCrcCalc update data (len - 2) =
    (data (len - 1)).toUInt16 <<< 8 ||| (data (len - 2)).toUInt16

instance (data : Bytes) (len : Nat) : Decidable (ValidCrc update data len) :=
  inferInstanceAs (Decidable (_ = _))

/-- The end of `modbus_periodic`: the frame in the buffer is complete.  With the state goes the
byte that is sent. -/
def frameEnd (s : Station) : Option (Station × Option UInt8) :=
  if s.len < 2 then none
  else if ¬ ValidCrc update s.data s.len then some ({ s with len := 0 }, none)
  else if ¬ (s.data 0 = c.MODBUS_ADDRESS ∨ s.data 0 = c.MODBUS_BROADCAST) then some (s, none)
  else
    let s : Station := { s with len := s.len - 2 }
    (modbusClientProcess c update s.data s.len s.registers).map fun (registers, reply) =>
      let s : Station := { s with data := reply.data, registers := registers }
      if reply.recvLen ≠ 0 then
        ({ s with txLen := s.len, sent := 1, txcie := true, len := 0 }, some (s.data 0))
      else ({ s with len := 0 }, none)

/-- The timer.  A frame ends when the timer does. -/
def modbusPeriodic (s : Station) : Option (Station × Option UInt8) :=
  if s.recvTimer = 0 then some (s, none)
  else
    let s : Station := { s with recvTimer := s.recvTimer - 1 }
    if s.recvTimer ≠ 0 then some (s, none) else frameEnd c update s

/-- The transmit interrupt. -/
def txVect (s : Station) : Station × Option UInt8 :=
  if s.sent < s.txLen then ({ s with sent := s.sent + 1 }, some (s.data s.sent))
  else if s.crcLen ≠ 0 then
    ({ s with crcLen := s.crcLen - 1 },
      some (s.crc >>> UInt16.ofNat ((1 - (s.crcLen - 1)) * 8)).toUInt8)
  else ({ s with txcie := false }, none)

/-- Transmit interrupts while they are enabled, with the bytes that they send. -/
def drain : Nat → Station → Station × List UInt8
  | 0, s => (s, [])
  | fuel + 1, s =>
      if s.txcie then
        ((drain fuel (txVect s).1).1, (txVect s).2.toList ++ (drain fuel (txVect s).1).2)
      else (s, [])

/-- The bytes of a frame, each with whether the timer runs once before the next one comes. -/
def receiveFrame : List (UInt8 × Bool) → Station → Option Station
  | [], s => some s
  | (byte, tick) :: rest, s =>
      (rxVect s byte).bind fun s =>
        if tick then (modbusPeriodic c update s).bind fun (s, _) => receiveFrame rest s
        else receiveFrame rest s

/-- A frame, the silence behind it and what the station sends then.  The counters of the
transmission have eight bits, so that 256 interrupts are enough for it. -/
def serve (frame : List (UInt8 × Bool)) (s : Station) : Option (Station × List UInt8) :=
  (receiveFrame c update frame s).bind fun s =>
    (modbusPeriodic c update s).bind fun (s, first) =>
      (modbusPeriodic c update s).map fun (s, second) =>
        ((drain 256 s).1, first.toList ++ second.toList ++ (drain 256 s).2)

end Driver

end Ethersex.Modbus

/-!
## The driver of the serial line in both roles

A station that also passes on the requests of others: a caller puts a request on the line, and the
driver stores what comes next behind each other in the buffer of the caller, until the line is
silent.  Meanwhile the station's own buffer takes nothing.

`Owner` stands for the buffers that requests come from.
-/

namespace Ethersex.Modbus

open Ethersex.Library

/-- The variables of the driver, and those of its callers that it writes to. -/
structure Driver (Owner : Type) extends Station where
  /-- The buffer that `modbus_data.data` points to, the one of the station for `none`. -/
  owner : Option Owner
  requests : Owner → Bytes
  /-- Whether `modbus_recv_len_ptr` is set. -/
  waiting : Bool
  /-- What it points to. -/
  recvLen : Int

section Driver

variable {Owner : Type} [DecidableEq Owner] (c : Config) (update : UInt16 → UInt8 → UInt16)

namespace Driver

/-- The buffer that `modbus_data.data` points to. -/
def buffer (d : Driver Owner) : Bytes := d.owner.elim d.data d.requests

/-- A byte is written to the buffer that `modbus_data.data` points to. -/
def store (d : Driver Owner) (index : Nat) (byte : UInt8) : Driver Owner :=
  match d.owner with
  | none => { d with data := Function.update d.data index byte }
  | some owner =>
      { d with requests := Function.update d.requests owner (Function.update (d.requests owner) index byte) }

/-- The receive interrupt, with an error of the receiver or without. -/
def rxVect (d : Driver Owner) (error : Bool) (byte : UInt8) : Option (Driver Owner) :=
  if error then some d
  else if d.waiting then
    if d.txLen ≥ MODBUS_BUFFER_LEN then some d
    else some { d.store d.txLen byte with txLen := d.txLen + 1, recvTimer := 2 }
  else (Modbus.rxVect d.toStation byte).map fun s => { d with toStation := s }

/-- `modbus_periodic`, with the byte that is sent. -/
def modbusPeriodic (d : Driver Owner) : Option (Driver Owner × Option UInt8) :=
  if d.waiting then
    if d.recvTimer = 0 then some (d, none)
    else
      let d := { d with recvTimer := d.recvTimer - 1 }
      if d.recvTimer ≠ 0 then some (d, none)
      else some ({ d with recvLen := if d.txLen < 2 then -1 else d.txLen, waiting := false }, none)
  else
    (Modbus.modbusPeriodic c update d.toStation).map fun (s, first) =>
      ({ d with toStation := s, owner := if first.isSome then none else d.owner }, first)

/-- The transmit interrupt. -/
def txVect (d : Driver Owner) : Driver Owner × Option UInt8 :=
  if d.sent < d.txLen then ({ d with sent := d.sent + 1 }, some (d.buffer d.sent))
  else if d.crcLen ≠ 0 then
    ({ d with crcLen := d.crcLen - 1 },
      some (d.crc >>> UInt16.ofNat ((1 - (d.crcLen - 1)) * 8)).toUInt8)
  else if d.waiting then ({ d with txcie := false, txLen := 0, recvTimer := 4 }, none)
  else ({ d with txcie := false }, none)

/-- The end of `modbus_rxstart`: the request goes to the line, unless there is one on its way. -/
def startTransmission (d : Driver Owner) (owner : Owner) (len : Nat) : Driver Owner × Option UInt8 × Bool :=
  if d.crcLen ≠ 0 then (d, none, false)
  else
    ({ d with
        waiting := true
        crc := modbusCrcCalc update (d.requests owner) len
        crcLen := 2
        owner := some owner
        txLen := len
        sent := 1
        txcie := true },
      some (d.requests owner 0), true)

/-- `modbus_rxstart`, with the byte that is sent and the result.  The station answers a request for
itself, and obeys one for all. -/
def modbusRxstart (d : Driver Owner) (owner : Owner) (len : Nat) :
    Option (Driver Owner × Option UInt8 × Bool) :=
  let data := d.requests owner
  if data 0 = c.MODBUS_ADDRESS ∨ data 0 = c.MODBUS_BROADCAST then
    (modbusClientProcess c update data len d.registers).map fun (registers, reply) =>
      let d := { d with
        registers
        requests := Function.update d.requests owner reply.data
        recvLen := reply.recvLen }
      if reply.data 0 = c.MODBUS_ADDRESS then (d, none, true) else d.startTransmission update owner len
  else some (d.startTransmission update owner len)

end Driver

/-- The state after reset. -/
def Driver.modbusInit (data : Bytes) (registers : Registers) (requests : Owner → Bytes) (recvLen : Int) :
    Driver Owner where
  toStation := Modbus.modbusInit data registers
  owner := none
  requests
  waiting := false
  recvLen

/-! ## Runs -/

inductive Event (Owner : Type) where
  | receive (error : Bool) (byte : UInt8)
  | periodic
  /-- The transmit interrupt, if it is enabled. -/
  | transmit
  /-- A caller puts a request into its buffer and calls `modbus_rxstart`. -/
  | request (owner : Owner) (data : Bytes) (len : Nat) (fits : len ≤ MODBUS_BUFFER_LEN)

/-- The driver after a caller put a request into its buffer. -/
def Driver.put (d : Driver Owner) (owner : Owner) (data : Bytes) : Driver Owner :=
  { d with requests := Function.update d.requests owner data }

def Driver.next (d : Driver Owner) : Event Owner → Option (Driver Owner)
  | .receive error byte => d.rxVect error byte
  | .periodic => (d.modbusPeriodic c update).map Prod.fst
  | .transmit => some (if d.txcie then d.txVect.1 else d)
  | .request owner data len _ => ((d.put owner data).modbusRxstart c update owner len).map Prod.fst

end Driver

end Ethersex.Modbus
