import Mathlib
import Ethersex.Uip.Connection

/-!
# The TCP of uIP

What `uip_process` does with one connection: with a segment that belongs to it, and when the timer fires.
The sequence numbers have 32 bits, and at most one segment is in flight.

Urgent data and the timeout of a connection on which nothing happens are left out.
-/

namespace Ethersex.Uip.Tcp

open Library

/-- `tcpstateflags`, without `UIP_STOPPED`. -/
inductive TcpState where
  | closed
  | synRcvd
  | synSent
  | established
  | finWait1
  | finWait2
  | closing
  | timeWait
  | lastAck
  deriving DecidableEq

/-- `uip_conn_t`. -/
structure Conn where
  tcpstate : TcpState
  stopped : Bool
  rcv_nxt : UInt32
  snd_nxt : UInt32
  len : UInt16
  wnd : UInt16
  mss : UInt16
  initialmss : UInt16
  sa : UInt8
  sv : UInt8
  rto : UInt8
  timer : UInt8
  nrtx : UInt8

/-- The bits of `TCP_CTL`. -/
structure Control where
  fin : Bool := false
  syn : Bool := false
  rst : Bool := false
  psh : Bool := false
  ack : Bool := false
  deriving DecidableEq

/-- A segment.  `mss` is what the walk over its options has found. -/
structure Segment where
  seqno : UInt32
  ackno : UInt32
  control : Control
  wnd : UInt16
  options : List UInt8
  mss : Option UInt16
  data : List UInt8

/-- `uip_flags`. -/
structure Flags where
  ackdata : Bool := false
  newdata : Bool := false
  rexmit : Bool := false
  poll : Bool := false
  close : Bool := false
  abort : Bool := false
  connected : Bool := false
  timedout : Bool := false
  deriving DecidableEq

/-- A call of the application: `uip_flags`, and the `uip_len` bytes at `uip_appdata`. -/
structure Call where
  flags : Flags
  data : List UInt8

inductive Request where
  | proceed
  | close
  | abort
  deriving DecidableEq

inductive Dataflow where
  | keep
  | stop
  | restart
  deriving DecidableEq

/-- What an application does in a call: `uip_send`, `uip_close` or `uip_abort`, and `uip_stop` or
`uip_restart`. -/
structure Answer where
  data : List UInt8
  request : Request
  dataflow : Dataflow

/-- What a run of `uip_process` does: the connection, the packet, the call of the application, and the data
that it has taken from the application to send. -/
structure Step where
  conn : Conn
  packet : Option Segment
  call : Option Call
  accepted : List UInt8

structure Config where
  UIP_TCP_MSS : UInt16
  UIP_RECEIVE_WINDOW : UInt16

def UIP_RTO : UInt8 := 3

def UIP_MAXRTX : UInt8 := 8

def UIP_MAXSYNRTX : UInt8 := 5

def UIP_TIME_WAIT_TIMEOUT : UInt8 := 120

namespace Conn

variable (conn : Conn)

/-- `tcpstateflags = state`. -/
def enter (state : TcpState) : Conn := { conn with tcpstate := state, stopped := false }

/-- `uip_stop` and `uip_restart`. -/
def flow : Dataflow → Conn
  | .keep => conn
  | .stop => { conn with stopped := true }
  | .restart => { conn with stopped := false }

/-- `uip_add_rcv_nxt`. -/
def addRcvNxt (count : Nat) : Conn := { conn with rcv_nxt := conn.rcv_nxt + UInt32.ofNat count }

/-- The next number to be sent when all that is in flight has been acknowledged. -/
def sndEnd : UInt32 := conn.snd_nxt + conn.len.toUInt32

/-- The estimation of the round trip time, where nothing has been sent again. -/
def estimate : Conn :=
  let m := (conn.rto - conn.timer).toInt8 - (conn.sa >>> 3).toInt8
  let sa := conn.sa + m.toUInt8
  let m := if m < 0 then -m else m
  let m := m - (conn.sv >>> 2).toInt8
  let sv := conn.sv + m.toUInt8
  { conn with
    sa := sa
    sv := sv
    rto := (sa >>> 3) + sv }

/-- What is in flight has been acknowledged. -/
def acknowledge : Conn :=
  let estimated := if conn.nrtx = 0 then conn.estimate else conn
  { estimated with
    snd_nxt := conn.sndEnd
    timer := estimated.rto
    len := 0 }

/-- Exponential backoff. -/
def retry : Conn :=
  { conn with
    timer := UIP_RTO <<< (if 4 < conn.nrtx then 4 else conn.nrtx)
    nrtx := conn.nrtx + 1 }

/-- `timer--`. -/
def countDown : Conn := { conn with timer := conn.timer - 1 }

end Conn

/-- `uip_flags` behind a call. -/
def Flags.behind (flags : Flags) (answer : Answer) : Flags :=
  match answer.request with
  | .close => { close := true }
  | .abort => { abort := true }
  | .proceed => if answer.dataflow = .restart then { flags with newdata := true } else flags

section Process

variable (config : Config) (app : Call → Answer) (stale : Bytes)

/-- The label `tcp_send`. -/
def tcpSend (conn : Conn) (control : Control) (data : List UInt8) : Segment where
  seqno := conn.snd_nxt
  ackno := conn.rcv_nxt
  control := control
  wnd := if conn.stopped then 0 else if conn.wnd ≠ 0 then conn.wnd else config.UIP_RECEIVE_WINDOW
  options :=
    if control.syn then [2, 4, (config.UIP_TCP_MSS / 256).toUInt8, (config.UIP_TCP_MSS &&& 255).toUInt8] else []
  mss := if control.syn then some config.UIP_TCP_MSS else none
  data := data

/-- The label `drop`. -/
def dropped (conn : Conn) (call : Option Call) : Step := ⟨conn, none, call, []⟩

/-- A packet without data. -/
def sendNodata (conn : Conn) (control : Control) (call : Option Call) : Step :=
  ⟨conn, some (tcpSend config conn control []), call, []⟩

/-- The label `apprexmit`.  The packet buffer holds `data`, and stale bytes behind it. -/
def apprexmit (conn : Conn) (flags : Flags) (slen : UInt16) (data accepted : List UInt8) (call : Call) : Step :=
  if 0 < slen ∧ 0 < conn.len then
    ⟨conn, some (tcpSend config conn { ack := true, psh := true } (buffer data stale conn.len.toNat)), call, accepted⟩
  else if flags.newdata then ⟨conn, some (tcpSend config conn { ack := true } []), call, accepted⟩
  else ⟨conn, none, call, accepted⟩

/-- The label `appsend`. -/
def appsend (conn : Conn) (flags : Flags) (answer : Answer) (call : Call) : Step :=
  let slen := UInt16.ofNat answer.data.length
  if flags.abort then sendNodata config (conn.enter .closed) { rst := true, ack := true } call
  else if flags.close then
    sendNodata config { conn.enter .finWait1 with len := 1, nrtx := 0 } { fin := true, ack := true } call
  else if 0 < slen then
    let conn := if flags.ackdata then { conn with len := 0 } else conn
    if conn.len = 0 then
      let slen := if conn.mss < slen then conn.mss else slen
      apprexmit config stale { conn with len := slen, nrtx := 0 } flags slen answer.data
        (answer.data.take slen.toNat) call
    else apprexmit config stale { conn with nrtx := 0 } flags conn.len answer.data [] call
  else apprexmit config stale { conn with nrtx := 0 } flags 0 answer.data [] call

/-- A call of the application, and then the label `appsend`. -/
def callAndSend (conn : Conn) (flags : Flags) (data : List UInt8) : Step :=
  let call : Call := ⟨flags, data⟩
  let answer := app call
  appsend config stale (conn.flow answer.dataflow) (flags.behind answer) answer call

/-- A call of the application whose answer has no effect but on the dataflow. -/
def notify (conn : Conn) (flags : Flags) (data : List UInt8) : Conn × Call :=
  let call : Call := ⟨flags, data⟩
  (conn.flow (app call).dataflow, call)

/-- What is in flight is sent again. -/
def retransmit (conn : Conn) : Step :=
  match conn.tcpstate with
  | .synRcvd => sendNodata config conn { syn := true, ack := true } none
  | .synSent => sendNodata config conn { syn := true } none
  | .established =>
    let call : Call := ⟨{ rexmit := true }, []⟩
    let answer := app call
    apprexmit config stale (conn.flow answer.dataflow) (Flags.behind { rexmit := true } answer)
      (UInt16.ofNat answer.data.length) answer.data [] call
  | .finWait1 | .closing | .lastAck => sendNodata config conn { fin := true, ack := true } none
  | _ => dropped conn none

/-- `uip_process (UIP_TIMER)`. -/
def timer (conn : Conn) : Step :=
  if conn.stopped = false ∧ (conn.tcpstate = .timeWait ∨ conn.tcpstate = .finWait2) then
    let conn := { conn with timer := conn.timer + 1 }
    dropped (if conn.timer = UIP_TIME_WAIT_TIMEOUT then conn.enter .closed else conn) none
  else if conn.tcpstate = .closed ∧ conn.stopped = false then dropped conn none
  else if conn.len ≠ 0 then
    if conn.timer = 0 then
      if conn.nrtx = UIP_MAXRTX ∨
          (conn.stopped = false ∧ (conn.tcpstate = .synSent ∨ conn.tcpstate = .synRcvd) ∧
            conn.nrtx = UIP_MAXSYNRTX) then
        let (conn, call) := notify app (conn.countDown.enter .closed) { timedout := true } []
        sendNodata config conn { rst := true, ack := true } call
      else
        retransmit config app stale conn.countDown.retry
    else dropped conn.countDown none
  else if conn.tcpstate = .established then
    callAndSend config app stale conn { poll := true } []
  else dropped conn none

/-- The answer to a segment that is not in sequence. -/
def sendAck (conn : Conn) (call : Option Call) : Step := sendNodata config conn { ack := true } call

/-- What an application finds at `uip_appdata`, which is where the data are when there are no options. -/
def appdata (segment : Segment) : List UInt8 := (segment.options ++ segment.data).take segment.data.length

/-- The segment does not begin with the byte that is expected next. -/
def outOfSequence (conn : Conn) (segment : Segment) : Bool :=
  !(conn.tcpstate = .synSent && segment.control = { syn := true, ack := true }) &&
    (segment.data ≠ [] || segment.control.syn || segment.control.fin) && segment.seqno ≠ conn.rcv_nxt

/-- The segment acknowledges what is in flight. -/
def acknowledges (conn : Conn) (segment : Segment) : Bool :=
  segment.control.ack && conn.len ≠ 0 && segment.ackno = conn.sndEnd

/-- The MSS that the window allows. -/
def windowMss (conn : Conn) (segment : Segment) : UInt16 :=
  if conn.initialmss < segment.wnd ∨ segment.wnd = 0 then conn.initialmss else segment.wnd

/-- A segment in the state `UIP_SYN_SENT`. -/
def inSynSent (conn : Conn) (acked : Bool) (segment : Segment) : Step :=
  if acked ∧ segment.control = { syn := true, ack := true } then
    let conn :=
      match segment.mss with
      | none => conn
      | some mss =>
        let mss := if config.UIP_TCP_MSS < mss then config.UIP_TCP_MSS else mss
        { conn with
          mss := mss
          initialmss := mss }
    callAndSend config app stale
      { conn.enter .established with
        rcv_nxt := segment.seqno + 1
        len := 0 }
      { connected := true, newdata := true } []
  else
    let (conn, call) := notify app conn { abort := true } []
    let reset : Segment := ⟨segment.ackno, segment.seqno + 1, { rst := true, ack := true }, segment.wnd, [], none, []⟩
    ⟨conn.enter .closed, some reset, call, []⟩

/-- A segment in the state `UIP_ESTABLISHED`. -/
def inEstablished (conn : Conn) (acked : Bool) (segment : Segment) : Step :=
  if segment.control.fin ∧ conn.stopped = false then
    if conn.len ≠ 0 then dropped conn none
    else
      let conn := conn.addRcvNxt (1 + segment.data.length)
      let (conn, call) := notify app conn { ackdata := acked, close := true, newdata := segment.data ≠ [] }
        (appdata segment)
      sendNodata config { conn.enter .lastAck with len := 1, nrtx := 0 } { fin := true, ack := true } call
  else
    let newdata := segment.data ≠ [] ∧ conn.stopped = false
    let conn := if newdata then conn.addRcvNxt segment.data.length else conn
    let conn := { conn with mss := windowMss conn segment }
    if newdata ∨ acked then
      callAndSend config app stale conn { ackdata := acked, newdata := newdata } (appdata segment)
    else dropped conn none

/-- A segment in the states in which the application has closed the connection. -/
def inFinWait (conn : Conn) (acked : Bool) (segment : Segment) : Step :=
  let conn := conn.addRcvNxt segment.data.length
  if segment.control.fin then
    let conn :=
      if conn.tcpstate = .finWait2 then { conn.enter .timeWait with timer := 0 }
      else if acked then { conn.enter .timeWait with timer := 0, len := 0 }
      else conn.enter .closing
    let (conn, call) := notify app (conn.addRcvNxt 1) { close := true } (appdata segment)
    sendAck config conn call
  else if conn.tcpstate = .finWait1 ∧ acked then dropped { conn.enter .finWait2 with len := 0 } none
  else if segment.data ≠ [] then sendAck config conn none
  else dropped conn none

/-- The label `found`: a segment that belongs to the connection. -/
def receive (conn : Conn) (segment : Segment) : Step :=
  if segment.control.rst then
    let (conn, call) := notify app (conn.enter .closed) { abort := true } []
    dropped conn call
  else if outOfSequence conn segment then sendAck config conn none
  else
    let acked := acknowledges conn segment
    let conn := if acked then conn.acknowledge else conn
    match conn.tcpstate with
    | .synRcvd =>
      if acked then
        let conn := { (conn.enter .established).addRcvNxt segment.data.length with len := 0 }
        callAndSend config app stale conn { connected := true, newdata := segment.data ≠ [] } (appdata segment)
      else dropped conn none
    | .synSent => inSynSent config app stale conn acked segment
    | .established => inEstablished config app stale conn acked segment
    | .lastAck =>
      if acked then
        let (conn, call) := notify app (conn.enter .closed) { close := true } (appdata segment)
        dropped conn call
      else dropped conn none
    | .finWait1 | .finWait2 => inFinWait config app conn acked segment
    | .timeWait => sendAck config conn none
    | .closing => dropped (if acked then { conn.enter .timeWait with timer := 0 } else conn) none
    | .closed => dropped conn none

/-- The label `found_listen`: the connection that is made for a segment with SYN. -/
def foundListen (old : Conn) (iss : UInt32) (segment : Segment) : Conn :=
  let mss := segment.mss.map fun mss => if config.UIP_TCP_MSS < mss then config.UIP_TCP_MSS else mss
  { tcpstate := .synRcvd
    stopped := false
    rcv_nxt := segment.seqno + 1
    snd_nxt := iss
    len := 1
    wnd := 0
    mss := mss.getD old.mss
    initialmss := mss.getD old.initialmss
    sa := 0
    sv := 4
    rto := UIP_RTO
    timer := UIP_RTO
    nrtx := 0 }

/-- `uip_connect`. -/
def uipConnect (old : Conn) (iss : UInt32) : Conn :=
  { tcpstate := .synSent
    stopped := false
    rcv_nxt := old.rcv_nxt
    snd_nxt := iss
    len := 1
    wnd := 0
    mss := config.UIP_TCP_MSS
    initialmss := config.UIP_TCP_MSS
    sa := 0
    sv := 16
    rto := UIP_RTO
    timer := 1
    nrtx := 0 }

end Process

end Ethersex.Uip.Tcp
