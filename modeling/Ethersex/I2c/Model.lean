import Mathlib
import Ethersex.Library.Bytes

/-!
# The I2C bus over UDP

A client has the device write to the I2C bus and read from it.  The datagrams of a transaction are
numbered, and the last one has the number 0.
-/

namespace Ethersex.I2c

open Library

/-! ## The bus -/

/-- What the interface does on the bus. -/
inductive Op where
  | start
  | address (ch : UInt8)
  | write (ch : UInt8)
  | receive (ack : Bool)
  | stop
deriving DecidableEq

/-- What the interface does next: nothing without a start condition, then it sends an address, and
then it sends or receives. -/
inductive Mode where
  | idle
  | started
  | transmitter
  | receiver
deriving DecidableEq

/-- The registers of the interface, and what it has done. -/
structure Twi where
  TWDR : UInt8
  TWSR : UInt8
  mode : Mode
  log : List Op

/-- The status and the data that are found in the registers behind an operation, by what was done
so far. -/
abbrev Wire := List Op → UInt8 × UInt8

def TW_START : UInt8 := 0x08
def TW_REP_START : UInt8 := 0x10
def TW_MT_SLA_ACK : UInt8 := 0x18
def TW_MT_DATA_ACK : UInt8 := 0x28
def TW_MR_SLA_ACK : UInt8 := 0x40
def TW_MR_DATA_ACK : UInt8 := 0x50
def TW_MR_DATA_NACK : UInt8 := 0x58
def TW_NO_INFO : UInt8 := 0xF8

namespace Twi

def TW_STATUS (t : Twi) : UInt8 := t.TWSR &&& 0xF8

/-- An operation, with what the bus makes of it. -/
def perform (wire : Wire) (op : Op) (mode : Mode) (t : Twi) : Twi :=
  let log := t.log ++ [op]
  { t with
    TWSR := (wire log).1
    TWDR := match op with
      | .receive _ => (wire log).2
      | _ => t.TWDR
    mode
    log }

/-- `i2c_master_do` with `TWSTA` or `TWEA`.  It waits for an interface that is not in use for ever. -/
def i2cMasterDo (wire : Wire) (twsta twea : Bool) (t : Twi) : Option Twi :=
  if twsta then some (t.perform wire .start .started)
  else match t.mode with
    | .idle => none
    | .started =>
        some (t.perform wire (.address t.TWDR) (if t.TWDR &&& 1 = 0 then .transmitter else .receiver))
    | .transmitter => some (t.perform wire (.write t.TWDR) .transmitter)
    | .receiver => some (t.perform wire (.receive twea) .receiver)

/-- `i2c_master_disable`. -/
def i2cMasterDisable (t : Twi) : Twi := { t with mode := .idle }

/-- `i2c_master_stop`. -/
def i2cMasterStop (t : Twi) : Twi :=
  { t with
    TWSR := TW_NO_INFO
    log := t.log ++ [Op.stop] }.i2cMasterDisable

/-- `i2c_master_select`, and whether it was successful. -/
def i2cMasterSelect (wire : Wire) (address mode : UInt8) (t : Twi) : Option (Twi × Bool) := do
  let t ← t.i2cMasterDo wire true false
  if t.TW_STATUS ≠ TW_START ∧ t.TW_STATUS ≠ TW_REP_START then return (t, false)
  let t := { t with TWDR := address <<< 1 ||| mode }
  let t ← t.i2cMasterDo wire false false
  return (t, mode = 0 ∧ t.TW_STATUS = TW_MT_SLA_ACK ∨ mode = 1 ∧ t.TW_STATUS = TW_MR_SLA_ACK)

end Twi

/-! ## The server -/

/-- `struct i2c_connection_state_t` and the interface. -/
structure Server where
  timeout : Nat
  last_seqnum : UInt8
  twi : Twi

/-- A datagram in the packet buffer, with what is behind it. -/
structure Datagram where
  bytes : List UInt8
  stale : Bytes

namespace Datagram

def read (k : Nat) (d : Datagram) : UInt8 := d.bytes.getD k (d.stale k)

def uip_datalen (d : Datagram) : Nat := d.bytes.length

def seqnum (d : Datagram) : UInt8 := d.read 0

def i2c_addr_rw (d : Datagram) : UInt8 := d.read 1

def datalen (d : Datagram) : UInt8 := d.read 2

end Datagram

/-- What becomes of a datagram: the answer, if there is one, and how many bytes of the packet were read,
up to the last one of them. -/
structure Outcome where
  server : Server
  answer : Option (List UInt8)
  reads : Nat

/-- `reset_connection`. -/
def Server.resetConnection (s : Server) : Server := { s with timeout := 0, last_seqnum := 0 }

/-- The loop that reads `left` more bytes, of which the last one may be the last one at all: the bytes,
and whether there was an error. -/
def receiveLoop (wire : Wire) (last : Bool) : (left : Nat) → Twi → Option (Twi × List UInt8 × Bool)
  | 0, t => some (t, [], false)
  | left + 1, t => do
      let nack := left = 0 ∧ last
      let t ← t.i2cMasterDo wire false (¬nack)
      if t.TW_STATUS ≠ (if nack then TW_MR_DATA_NACK else TW_MR_DATA_ACK) then return (t, [], true)
      let (t', rest, error) ← receiveLoop wire last left t
      return (t', t.TWDR :: rest, error)

/-- The loop that writes bytes of a datagram up to an index: the index it gets to and how many bytes of
the packet were read. -/
def transmitLoop (wire : Wire) (d : Datagram) (stop : Nat) :
    (fuel : Nat) → (tmp_datapos : UInt8) → (reads : Nat) → Twi → Option (Twi × UInt8 × Nat)
  | 0, _, _, _ => none
  | fuel + 1, tmp_datapos, reads, t =>
      if tmp_datapos.toNat < stop then do
        let t := { t with TWDR := d.read (2 + tmp_datapos.toNat) }
        let reads := max reads (2 + tmp_datapos.toNat + 1)
        let t ← t.i2cMasterDo wire false false
        if t.TW_STATUS ≠ TW_MT_DATA_ACK then return (t, tmp_datapos + 1, reads)
        transmitLoop wire d stop fuel (tmp_datapos + 1) reads t
      else some (t, tmp_datapos, reads)

/-- The answer to a request to read, and whether there was an error. -/
def readRequest (wire : Wire) (mdpl : UInt16) (d : Datagram) (t : Twi) : Option (Twi × List UInt8 × Bool) := do
  let tmp_datalen := if d.datalen.toNat > mdpl.toNat then mdpl.toUInt8 else d.datalen
  let (t, readdata, error) ← receiveLoop wire (d.seqnum = 0) tmp_datalen.toNat t
  return (if d.seqnum = 0 then t.i2cMasterStop else t, d.seqnum :: readdata, error)

/-- The answer to a request to write. -/
def writeRequest (wire : Wire) (fuel : Nat) (d : Datagram) (last_seqnum : UInt8) (t : Twi) :
    Option (Twi × List UInt8 × Nat) := do
  if last_seqnum = 0 ∨ d.seqnum ≠ last_seqnum then
    let (t, tmp_datapos, reads) ← transmitLoop wire d (d.uip_datalen - 2) fuel 0 2 t
    return (if d.seqnum = 0 then t.i2cMasterStop else t, [d.seqnum, tmp_datapos], reads)
  else return (t, [d.seqnum, UInt8.ofNat (d.uip_datalen - 2)], 2)

/-- The start condition and the address, in front of the first request. -/
def select (wire : Wire) (d : Datagram) (s : Server) : Option (Twi × Bool) :=
  if s.last_seqnum = 0 then
    s.twi.i2cMasterSelect wire ((d.i2c_addr_rw &&& 0xFE) >>> 1) (d.i2c_addr_rw &&& 1)
  else some (s.twi, true)

/-- A request to read or to write. -/
def request (wire : Wire) (fuel : Nat) (mdpl : UInt16) (d : Datagram) (last_seqnum : UInt8) (t : Twi) :
    Option (Twi × List UInt8 × Bool × Nat) :=
  if d.i2c_addr_rw &&& 1 = 1 then
    (readRequest wire mdpl d t).map fun (t, answer, error) => (t, answer, error, 3)
  else
    (writeRequest wire fuel d last_seqnum t).map fun (t, answer, reads) => (t, answer, false, reads)

/-- `i2c_udp_newdata`, with `MAXDATAPAKETLEN`. -/
def i2cUdpNewdata (wire : Wire) (fuel : Nat) (mdpl : UInt16) (d : Datagram) (s : Server) : Option Outcome := do
  if d.uip_datalen = 1 ∧ d.seqnum = 0 then
    return ⟨s.resetConnection, some [d.seqnum, mdpl.toUInt8], 1⟩
  else if d.uip_datalen ≥ 2 then
    let (t, selects) ← select wire d s
    let (t, answer, error, reads) ← request wire fuel mdpl d s.last_seqnum t
    if error ∨ selects = false then
      return ⟨{ s with twi := t.i2cMasterDisable }.resetConnection, some [d.seqnum], reads⟩
    else if d.seqnum = 0 then return ⟨{ s with twi := t }.resetConnection, some answer, reads⟩
    else return ⟨⟨25, d.seqnum, t⟩, some answer, reads⟩
  else return ⟨⟨25, d.seqnum, s.twi⟩, none, 1⟩

/-- `i2c_udp_periodic`. -/
def i2cUdpPeriodic (s : Server) : Server :=
  let s := if s.timeout = 1 then { s with twi := s.twi.i2cMasterDisable }.resetConnection else s
  let s := { s with timeout := s.timeout - 1 }
  if s.twi.TW_STATUS = 0 then { s with twi := s.twi.i2cMasterDisable } else s

end Ethersex.I2c
