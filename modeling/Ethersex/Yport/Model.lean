import Mathlib
import Ethersex.Library.Transmitter
import Ethersex.Uip.Connection

/-!
# The serial port on the network

What a client sends goes out on the serial port, and what arrives there goes to the client.  The
interrupts of the port come in between the statements of `yport_rxstart`.
-/

namespace Ethersex.Yport

open Library Uip

def YPORT_BUFFER_LEN : Nat := 255

/-- `struct yport_buffer`. -/
structure Buffer where
  len : Nat
  sent : Nat
  data : Bytes

namespace Buffer

/-- The bytes from one index up to another. -/
def between (start stop : Nat) (b : Buffer) : List UInt8 :=
  (List.range (stop - start)).map fun k => b.data (start + k)

/-- The bytes that are in use. -/
def text (b : Buffer) : List UInt8 := b.between 0 b.len

/-- `memcpy` of some bytes to an index. -/
def copy (index : Nat) (text : List UInt8) (b : Buffer) : Buffer :=
  { b with data := overlay YPORT_BUFFER_LEN index text.length (fun k => text.getD k 0) b.data }

/-- `memmove` of some bytes to the front. -/
def move (index count : Nat) (b : Buffer) : Buffer :=
  { b with data := overlay YPORT_BUFFER_LEN 0 count (fun k => b.data (index + k)) b.data }

variable {b : Buffer}

theorem between_self (start : Nat) (b : Buffer) : b.between start start = [] := by
  rw [between, Nat.sub_self, List.range_zero, List.map_nil]

theorem between_cons {start stop : Nat} (some : start < stop) (b : Buffer) :
    b.between start stop = b.data start :: b.between (start + 1) stop := by
  obtain ⟨more, rfl⟩ := Nat.exists_eq_add_of_lt some
  rw [between, between, show start + more + 1 - start = more + 1 by omega,
    show start + more + 1 - (start + 1) = more by omega, List.range_succ_eq_map, List.map_cons,
    List.map_map, Nat.add_zero]
  congr 1
  exact List.map_congr_left fun k _ => congrArg b.data (by rw [Nat.succ_eq_add_one]; omega)

theorem data_copy (index : Nat) (text : List UInt8) (b : Buffer) :
    (b.copy index text).data =
      overlay YPORT_BUFFER_LEN index text.length (fun k => text.getD k 0) b.data := rfl

theorem data_move (index count : Nat) (b : Buffer) :
    (b.move index count).data = overlay YPORT_BUFFER_LEN 0 count (fun k => b.data (index + k)) b.data := rfl

theorem between_copy {index : Nat} {text : List UInt8} (fits : index + text.length ≤ YPORT_BUFFER_LEN) :
    (b.copy index text).between 0 (index + text.length) = b.between 0 index ++ text := by
  rw [between, between, Nat.sub_zero, Nat.sub_zero, List.range_add, List.map_append, List.map_map]
  congr 1
  · refine List.map_congr_left fun k member => ?_
    have before := List.mem_range.mp member
    rw [Nat.zero_add]
    rw [data_copy, overlay_of_lt fits before]
  · refine List.ext_getElem (by rw [List.length_map, List.length_range]) fun k inside inside' => ?_
    rw [List.getElem_map, List.getElem_range, Function.comp_apply, Nat.zero_add]
    rw [data_copy, overlay_apply fits, if_pos ⟨by omega, by omega⟩, Nat.add_sub_cancel_left,
      List.getD_eq_getElem _ _ inside']

theorem between_move {index count : Nat} (fits : count ≤ YPORT_BUFFER_LEN) :
    (b.move index count).between 0 count = b.between index (index + count) := by
  rw [between, between, Nat.sub_zero, Nat.add_sub_cancel_left]
  refine List.map_congr_left fun k member => ?_
  have inside := List.mem_range.mp member
  rw [data_move, overlay_apply (by omega), if_pos ⟨by omega, by omega⟩, Nat.zero_add, Nat.sub_zero]

theorem length_between (start stop : Nat) (b : Buffer) : (b.between start stop).length = stop - start := by
  rw [between, List.length_map, List.length_range]

@[simp] theorem length_text (b : Buffer) : b.text.length = b.len := length_between 0 b.len b

/-- A byte is put behind the others. -/
theorem text_concat (ch : UInt8) (b : Buffer) :
    ({ b with data := Function.update b.data b.len ch, len := b.len + 1 } : Buffer).text = b.text ++ [ch] := by
  rw [text, between, Nat.sub_zero, List.range_succ, List.map_append, List.map_singleton, text, between,
    Nat.sub_zero]
  congr 1
  · refine List.map_congr_left fun k member => ?_
    have before := List.mem_range.mp member
    exact Function.update_of_ne (by omega) ..
  · rw [Nat.zero_add]
    exact congrArg (fun ch => [ch]) (Function.update_self ..)

theorem between_eq_drop (start stop : Nat) (b : Buffer) :
    b.between start stop = (b.between 0 stop).drop start := by
  refine List.ext_getElem (by simp only [length_between, List.length_drop, Nat.sub_zero]) fun k _ _ => ?_
  simp [between]

/-- The first bytes are removed. -/
theorem text_shift {count : Nat} {b : Buffer} (short : b.len ≤ YPORT_BUFFER_LEN) (few : count ≤ b.len) :
    (({ b with len := b.len - count } : Buffer).move count (b.len - count)).text = b.text.drop count := by
  change (Buffer.move count (b.len - count) { b with len := b.len - count }).between 0 (b.len - count) = _
  rw [between_move ((Nat.sub_le _ _).trans short), Nat.add_sub_cancel' few, text, ← between_eq_drop]
  rfl

end Buffer

/-- The statements of `yport_rxstart`, with the value of `diff`, which is 0 where the buffer was
empty. -/
inductive Point where
  | entry
  | move (diff : Nat)
  | copy (diff : Nat)
  | len (diff : Nat)
  | sent
  | enable
  | store
deriving DecidableEq

/-- A call of `yport_rxstart` that has not returned. -/
structure Call (Conn : Type) where
  conn : Conn
  data : List UInt8
  point : Point

/-- The program with the port and the connections.  `acknowledged` are the segments whose bytes uIP has
acknowledged, `accepted` are those for which `yport_rxstart` returned 1, `received` are the bytes that
arrived on the port, and `earlier` are those of them that had left the receive buffer when the present
client connected. -/
structure State (Conn : Type) where
  yport_conn : Option Conn
  yport_send_buffer : Buffer
  yport_recv_buffer : Buffer
  TXCIE : Bool
  uart : Transmitter
  call : Option (Call Conn)
  stopped : Conn → Bool
  flow : Conn → Flow
  acknowledged : List (List UInt8)
  accepted : List (List UInt8)
  received : List UInt8
  earlier : List UInt8

/-- `uip_flags`; `closed` is any of `uip_closed`, `uip_aborted` and `uip_timedout`. -/
structure Flags where
  connected : Bool := false
  acked : Bool := false
  closed : Bool := false
  newdata : Bool := false
  poll : Bool := false
  rexmit : Bool := false

/-- What can happen.  A byte arrives on the port, with an error or not; the transmitter has sent a byte;
its interrupt is served; `yport_rxstart` goes on; a peer takes a copy of a segment; or uIP calls the
program: for a new connection, a packet with an acknowledgement or not, a packet that closes the
connection, the end of a connection, a poll or a retransmission. -/
inductive Event (Conn : Type) where
  | byte (ch : UInt8) (error : Bool)
  | frame
  | transmitted
  | go
  | take (conn : Conn) (copy : Nat)
  | connect (conn : Conn) (data : List UInt8) (mss : Nat) (stale : Bytes)
  | packet (conn : Conn) (ack : Bool) (data : List UInt8) (mss : Nat) (stale : Bytes)
  | fin (conn : Conn) (ack : Bool) (data : List UInt8)
  | closed (conn : Conn)
  | poll (conn : Conn) (mss : Nat) (stale : Bytes)
  | rexmit (conn : Conn) (stale : Bytes)

section Program

variable {Conn : Type} [DecidableEq Conn]

namespace State

/-- Nothing has happened yet. -/
def start (send recv : Bytes) : State Conn where
  yport_conn := none
  yport_send_buffer := ⟨0, 0, send⟩
  yport_recv_buffer := ⟨0, 0, recv⟩
  TXCIE := false
  uart := .idle
  call := none
  stopped := fun _ => false
  flow := fun _ => .closed
  acknowledged := []
  accepted := []
  received := []
  earlier := []

/-! ## The interrupts -/

/-- `SIGNAL(usart(USART,_TX_vect))`, which is served when the flag is set. -/
def txVect (s : State Conn) : State Conn :=
  let s := { s with uart := s.uart.serve }
  let b := s.yport_send_buffer
  if b.sent < b.len then
    { s with
      uart := s.uart.write (b.data b.sent)
      yport_send_buffer := { b with sent := (b.sent + 1) % 256 } }
  else { s with TXCIE := false }

/-- `SIGNAL(usart(USART,_RX_vect))`. -/
def rxVect (ch : UInt8) (error : Bool) (s : State Conn) : State Conn :=
  if error then s
  else
    let s := { s with received := s.received ++ [ch] }
    let b := s.yport_recv_buffer
    if b.len < YPORT_BUFFER_LEN then
      { s with yport_recv_buffer := { b with data := Function.update b.data b.len ch, len := b.len + 1 } }
    else s

/-- The interrupt of the transmitter is served before the program goes on. -/
def Interrupted (s : State Conn) : Prop := s.uart.complete = true ∧ s.TXCIE = true

instance (s : State Conn) : Decidable s.Interrupted := inferInstanceAs (Decidable (_ ∧ _))

/-! ## The program -/

/-- `yport_rxstart` returns, and the connection is stopped if it has accepted the data. -/
def rxreturn (call : Call Conn) (accepts : Bool) (s : State Conn) : State Conn :=
  if accepts then
    { s with
      call := none
      stopped := Function.update s.stopped call.conn true
      accepted := s.accepted ++ [call.data] }
  else { s with call := none }

/-- The next statement of `yport_rxstart`. -/
def yportRxstart (call : Call Conn) (s : State Conn) : State Conn :=
  let b := s.yport_send_buffer
  let len := call.data.length
  let goto (point : Point) (s : State Conn) : State Conn := { s with call := some { call with point } }
  match call.point with
  | .entry =>
      let diff := (b.len + 256 - b.sent) % 256
      if diff = 0 then goto (.copy diff) s
      else if diff + len < YPORT_BUFFER_LEN then goto (.move diff) s
      else s.rxreturn call false
  | .move diff => goto (.copy diff) { s with yport_send_buffer := b.move b.sent diff }
  | .copy diff => goto (.len diff) { s with yport_send_buffer := b.copy diff call.data }
  | .len diff => goto .sent { s with yport_send_buffer := { b with len := (diff + len) % 256 } }
  | .sent => goto .enable { s with yport_send_buffer := { b with sent := 1 } }
  | .enable => goto .store { s with TXCIE := true }
  | .store => { s with uart := s.uart.write (b.data 0) }.rxreturn call true

/-- The first part of `yport_net_main`. -/
def handle (f : Flags) (conn : Conn) (data : List UInt8) (s : State Conn) : State Conn × Reply :=
  if f.connected then
    if s.yport_conn = none then
      ({ s with
        yport_conn := some conn
        earlier := s.received.take (s.received.length - s.yport_recv_buffer.len) }, .silent)
    else (s, .send (("ERROR: Connection blocked\n".toList.map fun ch => ch.toNat.toUInt8) ++ [0]))
  else if f.acked then
    if s.yport_conn ≠ some conn then (s, .close)
    else
      let b := s.yport_recv_buffer
      let b := { b with len := (b.len + 256 - b.sent) % 256 }
      ({ s with yport_recv_buffer := b.move b.sent b.len }, .silent)
  else if f.closed then
    (if s.yport_conn = some conn then { s with yport_conn := none } else s, .silent)
  else if f.newdata ∧ data.length ≤ YPORT_BUFFER_LEN then
    ({ s with call := some ⟨conn, data, .entry⟩ }, .silent)
  else (s, .silent)

/-- `uip_restart`. -/
def restart (f : Flags) (conn : Conn) (s : State Conn) : State Conn :=
  if f.poll ∧ s.yport_conn = some conn ∧ s.stopped conn ∧
      s.yport_send_buffer.sent = s.yport_send_buffer.len then
    { s with stopped := Function.update s.stopped conn false }
  else s

/-- `yport_net_main`, up to the statements of `yport_rxstart`. -/
def yportNetMain (f : Flags) (conn : Conn) (data : List UInt8) (s : State Conn) : State Conn × Reply :=
  let (s, reply) := s.handle f conn data
  let s := s.restart f conn
  if (f.poll ∨ f.acked ∨ f.rexmit) ∧ s.yport_conn = some conn ∧ s.yport_recv_buffer.len > 0 then
    let b := s.yport_recv_buffer
    ({ s with yport_recv_buffer := { b with sent := b.len } }, .send b.text)
  else (s, reply)

/-! ## The connections -/

/-- Whether a packet acknowledges the segment in flight. -/
def acks (conn : Conn) (ack : Bool) (s : State Conn) : Bool :=
  ack ∧ (s.flow conn).len ≠ 0 ∧ (s.flow conn).taken

/-- The connection changes. -/
def change (conn : Conn) (next : Flow → Flow) (s : State Conn) : State Conn :=
  { s with flow := Function.update s.flow conn (next (s.flow conn)) }

/-- The segment in flight is acknowledged, perhaps. -/
def acked (conn : Conn) (ack : Bool) (s : State Conn) : State Conn :=
  if s.acks conn ack then s.change conn Flow.acknowledge else s

/-- uIP acknowledges the data of a packet. -/
def acknowledge (data : List UInt8) (s : State Conn) : State Conn :=
  if data = [] then s else { s with acknowledged := s.acknowledged ++ [data] }

/-- uIP calls the program, and sends what it answers. -/
def callback (f : Flags) (conn : Conn) (data : List UInt8) (mss : Nat) (stale : Bytes) (s : State Conn) :
    State Conn :=
  let (s, reply) := s.yportNetMain f conn data
  s.change conn (Flow.answer f.acked mss stale reply)

/-- An event for a connection. -/
def network (s : State Conn) : Event Conn → State Conn
  | .connect conn data mss stale =>
      if (s.flow conn).status ≠ .closed then s
      else
        let s := { s with stopped := Function.update s.stopped conn false }
        ((s.change conn fun _ => .opened).acknowledge data).callback
          { connected := true, newdata := data ≠ [] } conn data mss stale
  | .packet conn ack data mss stale =>
      if (s.flow conn).status ≠ .established then s
      else
        let acked := s.acks conn ack
        let data := if s.stopped conn then [] else data
        let s := s.acked conn ack
        if acked = false ∧ data = [] then s
        else (s.acknowledge data).callback { acked, newdata := data ≠ [] } conn data mss stale
  | .fin conn ack data =>
      if (s.flow conn).status ≠ .established ∨ s.stopped conn then s
      else
        let acked := s.acks conn ack
        let s := s.acked conn ack
        if (s.flow conn).len ≠ 0 then s
        else
          let s := ((s.acknowledge data).yportNetMain { closed := true, acked, newdata := data ≠ [] } conn data).1
          s.change conn fun flow => { flow with status := .closing }
  | .closed conn =>
      if (s.flow conn).status = .closed then s
      else
        (s.yportNetMain { closed := true } conn []).1.change conn fun flow => { flow with status := .closed }
  | .poll conn mss stale =>
      if (s.flow conn).status ≠ .established ∨ (s.flow conn).len ≠ 0 then s
      else s.callback { poll := true } conn [] mss stale
  | .rexmit conn stale =>
      if (s.flow conn).status ≠ .established ∨ (s.flow conn).len = 0 then s
      else
        let (s, reply) := s.yportNetMain { rexmit := true } conn []
        s.change conn (Flow.again stale reply)
  | _ => s

/-- The program takes part in the next event of the network. -/
def Ready (s : State Conn) : Prop := ¬s.Interrupted ∧ s.call.isNone = true

instance (s : State Conn) : Decidable s.Ready := inferInstanceAs (Decidable (_ ∧ _))

/-- The program does one thing after another. -/
def step (s : State Conn) : Event Conn → State Conn
  | .byte ch error => s.rxVect ch error
  | .frame => { s with uart := s.uart.frame }
  | .transmitted => if s.Interrupted then s.txVect else s
  | .take conn copy => s.change conn (Flow.take copy)
  | .go =>
      match s.call with
      | some call => if s.Interrupted then s else s.yportRxstart call
      | none => s
  | event => if s.Ready then s.network event else s

end State

end Program

end Ethersex.Yport
