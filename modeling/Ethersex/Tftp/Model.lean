import Mathlib

/-!
# The TFTP server

`tftp_handle_packet` serves downloads and uploads, one at a time.  All it keeps is an open file
of the virtual file system, which knows the position it has been read or written up to, the
number of the last block, and whether that was a short one.
-/

namespace Ethersex.Tftp

/-! ## The virtual file system -/

/-- What the server uses of the virtual file system: `Store` is the state of the backends and
of the memory handles are allocated from, and a `Handle` carries its position in the file. -/
structure Vfs (Store Handle : Type) where
  vfsOpen : List UInt8 → Store → Option Handle × Store
  vfsCreate : List UInt8 → Store → Option Handle × Store
  /-- The bytes read, or nothing where the result is negative. -/
  vfsRead : Handle → Nat → Store → Option (List UInt8) × Handle × Store
  /-- How many bytes were written. -/
  vfsWrite : Handle → List UInt8 → Store → Nat × Handle × Store
  vfsClose : Handle → Store → Store

/-! ## The handler -/

/-- A datagram, with the number of its block where it has one. -/
inductive Packet where
  | readRequest (name : List UInt8)
  | writeRequest (name : List UInt8)
  | data (block : Nat) (data : List UInt8)
  | ack (block : Nat)
  | error
  deriving DecidableEq, Repr

/-- `tftp_connection_state_t`. -/
structure State (Handle : Type) where
  fh : Option Handle
  download : Bool
  finished : Bool
  transfered : Nat
  deriving DecidableEq, Repr

section Handler

variable {Store Handle : Type} (vfs : Vfs Store Handle)

/-- `close_connection`: the answer that is left to be sent goes out, and the file is closed. -/
def closeConnection (state : State Handle) (store : Store) (answers : List Packet) :
    State Handle × Store × List Packet :=
  match state.fh with
  | none => (state, store, answers)
  | some fh => ({ state with fh := none }, vfs.vfsClose fh store, answers)

/-- `error_out`. -/
def errorOut (state : State Handle) (store : Store) : State Handle × Store × List Packet :=
  closeConnection vfs state store [.error]

/-- `send_data`; nothing when a file would be read that is not open. -/
def sendData (state : State Handle) (store : Store) : Option (State Handle × Store × List Packet) :=
  if state.finished then some (closeConnection vfs state store [])
  else
    match state.fh with
    | none => none
    | some fh =>
        match vfs.vfsRead fh 512 store with
        | (none, fh, store) => some (errorOut vfs { state with fh := some fh } store)
        | (some data, fh, store) =>
            let block := (state.transfered + 1) % 2 ^ 16
            some ({ state with fh := some fh, finished := data.length < 512, transfered := block },
              store, [.data block data])

/-- `send_ack`. -/
def sendAck (block : Nat) (state : State Handle) (store : Store) : State Handle × Store × List Packet :=
  if state.finished then closeConnection vfs state store [.ack block]
  else (state, store, [.ack block])

/-- `tftp_handle_packet`; nothing when a file would be read or written that is not open. -/
def tftpHandlePacket (packet : Packet) (state : State Handle) (store : Store) :
    Option (State Handle × Store × List Packet) :=
  match packet with
  | .readRequest name =>
      let (fh, store) := vfs.vfsOpen name store
      let state := ⟨fh, true, false, 0⟩
      if fh.isNone then some (errorOut vfs state store) else sendData vfs state store
  | .ack block =>
      if !state.download then some (errorOut vfs state store)
      else if block < state.transfered ∨ (state.transfered + 1) % 2 ^ 16 < block then
        some (errorOut vfs state store)
      else sendData vfs { state with transfered := block } store
  | .writeRequest name =>
      let (fh, store) := vfs.vfsCreate name store
      let state := ⟨fh, false, false, 0⟩
      if fh.isNone then some (errorOut vfs state store) else some (sendAck vfs 0 state store)
  | .data block data =>
      if state.download then some (errorOut vfs state store)
      else if block < state.transfered then some (errorOut vfs state store)
      else if block = state.transfered then some (sendAck vfs block state store)
      else if (state.transfered + 1) % 2 ^ 16 < block then some (errorOut vfs state store)
      else
        match state.fh with
        | none => none
        | some fh =>
            let (written, fh, store) := vfs.vfsWrite fh data store
            let state := { state with fh := some fh }
            if written = 0 then some (errorOut vfs state store)
            else
              some (sendAck vfs block
                { state with finished := state.finished || data.length < 512, transfered := block } store)
  | .error => some (errorOut vfs state store)

end Handler

end Ethersex.Tftp
