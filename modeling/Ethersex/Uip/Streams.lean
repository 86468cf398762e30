import Ethersex.Uip.Tcp
import Ethersex.Library.SequenceNumbers
import Ethersex.Library.Walks

/-!
# The two streams of a connection

A connection and its peer, with a network between them that loses segments, delivers them more than once, and
in any order.  The application of the peer has a stream to send, and the peer takes whatever is new in a
segment, or a part of it.  The streams of bytes are shorter than the sequence numbers go round.
-/

namespace Ethersex.Uip.Tcp

open Library

/-- What the peer sends, from which number on, and the first number of the connection. -/
structure Peer where
  stream : List UInt8
  irs : UInt32
  iss : UInt32
  short : stream.length + 2 < 2 ^ 32

/-- A connection, what has become of the streams, and the segments that it has sent, which the network keeps. -/
structure Link where
  conn : Conn
  delivered : List UInt8
  sent : List UInt8
  copies : List Segment
  received : List UInt8
  finished : Bool

inductive Event where
  | segment (segment : Segment) (app : Call → Answer) (stale : Bytes)
  | timer (app : Call → Answer) (stale : Bytes)
  | taken (copy : Nat) (count : Nat)

/-- What a call brings to the application. -/
def delivery : Option Call → List UInt8
  | some call => if call.flags.newdata then call.data else []
  | none => []

namespace Link

/-- The number that the peer expects. -/
def expected (peer : Peer) (link : Link) : UInt32 := peer.iss + 1 + UInt32.ofNat link.received.length

/-- A step of the connection, with what the application gets, and what it gives. -/
def follow (link : Link) (step : Step) : Link where
  conn := step.conn
  delivered := link.delivered ++ delivery step.call
  sent := link.sent ++ step.accepted
  copies := link.copies ++ step.packet.toList
  received := link.received
  finished := link.finished

/-- The peer takes some of the bytes of a copy that it does not have. -/
def take (peer : Peer) (copy : Segment) (count : Nat) (link : Link) : Link :=
  let ahead := (link.expected peer - copy.seqno).toNat
  if link.finished = false ∧ ahead ≤ copy.data.length then
    { link with
      received := link.received ++ (copy.data.drop ahead).take count
      finished := copy.control.fin && copy.data.length ≤ ahead + count }
  else link

def next (config : Config) (peer : Peer) (link : Link) : Event → Link
  | .segment segment app stale => link.follow (receive config app stale link.conn segment)
  | .timer app stale => link.follow (timer config app stale link.conn)
  | .taken copy count =>
    match link.copies[copy]? with
    | some segment => link.take peer segment count
    | none => link

end Link

/-- A segment of the peer.  Its data are a piece of the stream, and it acknowledges what the peer has taken. -/
structure FromPeer (peer : Peer) (link : Link) (segment : Segment) : Prop where
  syn : segment.control.syn = true → segment.seqno = peer.irs ∧ segment.data = [] ∧ segment.control.fin = false
  piece : segment.control.syn = false → segment.data ≠ [] ∨ segment.control.fin = true →
    ∃ place, segment.seqno = peer.irs + 1 + UInt32.ofNat place ∧ segment.data <+: peer.stream.drop place ∧
      place + segment.data.length ≤ peer.stream.length ∧
      (segment.control.fin = true → place + segment.data.length = peer.stream.length)
  options : segment.data ≠ [] → segment.options = []
  ack : segment.control.ack = true →
    ∃ count ≤ link.received.length + (if link.finished then 1 else 0),
      segment.ackno = peer.iss + 1 + UInt32.ofNat count

/-- What is in flight of the data that have been sent. -/
def inFlight (conn : Conn) (sent : List UInt8) : List UInt8 := sent.drop (sent.length - conn.len.toNat)

/-- An application sends again what is in flight when it sends something then, and does not close the
connection before that is acknowledged. -/
structure Keeps (conn : Conn) (sent : List UInt8) (call : Call) (answer : Answer) : Prop where
  size : answer.data.length < 2 ^ 16
  again : conn.tcpstate = .established → conn.len ≠ 0 → call.flags.ackdata = false →
    answer.data = [] ∨ inFlight conn sent <+: answer.data
  close : conn.tcpstate = .established → conn.len ≠ 0 → call.flags.ackdata = false → answer.request ≠ .close

/-- The segments are those of the peer. -/
def Arrives (peer : Peer) (link : Link) : Event → Prop
  | .segment segment _ _ => FromPeer peer link segment
  | _ => True

/-- The application keeps to what is asked of it, for a stream that is not too long. -/
def Answers (link : Link) : Event → Prop
  | .segment _ app _ => (∀ call, Keeps link.conn link.sent call (app call)) ∧ link.sent.length + 2 ^ 17 < 2 ^ 32
  | .timer app _ => (∀ call, Keeps link.conn link.sent call (app call)) ∧ link.sent.length + 2 ^ 17 < 2 ^ 32
  | .taken _ _ => True

/-- What is asked of an event. -/
def Meets (peer : Peer) (link : Link) (event : Event) : Prop := Arrives peer link event ∧ Answers link event

/-! ## What the application gets -/

section Receiving

variable {config : Config} {app : Call → Answer} {stale : Bytes} {peer : Peer} {conn : Conn} {segment : Segment}
  {delivered : List UInt8}

/-- The part of the stream that has been delivered, and the number that is expected next. -/
structure Awaits (peer : Peer) (conn : Conn) (delivered : List UInt8) : Prop where
  begins : delivered <+: peer.stream
  opening : conn.tcpstate = .synSent ∨ conn.tcpstate = .synRcvd → delivered = []
  first : conn.tcpstate = .synRcvd → conn.rcv_nxt = peer.irs + 1
  next : conn.tcpstate = .established → conn.rcv_nxt = peer.irs + 1 + UInt32.ofNat delivered.length
  whole : conn.tcpstate = .lastAck → delivered = peer.stream

/-- In the other states nothing is delivered any more. -/
theorem Awaits.afterwards (begins : delivered <+: peer.stream)
    (late : conn.tcpstate ∈ [.closed, .finWait1, .finWait2, .closing, .timeWait]) : Awaits peer conn delivered where
  begins := begins
  opening early := by rcases early with early | early <;> simp [early] at late
  first early := by simp [early] at late
  next early := by simp [early] at late
  whole last := by simp [last] at late

theorem Awaits.ofEstablished (begins : delivered <+: peer.stream) (established : conn.tcpstate = .established)
    (next : conn.rcv_nxt = peer.irs + 1 + UInt32.ofNat delivered.length) : Awaits peer conn delivered where
  begins := begins
  opening early := by simp [established] at early
  first early := by simp [established] at early
  next _ := next
  whole late := by simp [established] at late

@[simp] theorem enter_tcpstate (conn : Conn) (state : TcpState) : (conn.enter state).tcpstate = state := rfl

@[simp] theorem enter_rcv_nxt (conn : Conn) (state : TcpState) : (conn.enter state).rcv_nxt = conn.rcv_nxt := rfl

@[simp] theorem enter_snd_nxt (conn : Conn) (state : TcpState) : (conn.enter state).snd_nxt = conn.snd_nxt := rfl

@[simp] theorem enter_len (conn : Conn) (state : TcpState) : (conn.enter state).len = conn.len := rfl

@[simp] theorem flow_tcpstate (conn : Conn) (dataflow : Dataflow) : (conn.flow dataflow).tcpstate = conn.tcpstate := by
  cases dataflow <;> rfl

@[simp] theorem flow_rcv_nxt (conn : Conn) (dataflow : Dataflow) : (conn.flow dataflow).rcv_nxt = conn.rcv_nxt := by
  cases dataflow <;> rfl

@[simp] theorem flow_snd_nxt (conn : Conn) (dataflow : Dataflow) : (conn.flow dataflow).snd_nxt = conn.snd_nxt := by
  cases dataflow <;> rfl

@[simp] theorem flow_len (conn : Conn) (dataflow : Dataflow) : (conn.flow dataflow).len = conn.len := by
  cases dataflow <;> rfl

@[simp] theorem acknowledge_tcpstate (conn : Conn) : conn.acknowledge.tcpstate = conn.tcpstate := by
  rw [Conn.acknowledge]
  split <;> rfl

@[simp] theorem acknowledge_rcv_nxt (conn : Conn) : conn.acknowledge.rcv_nxt = conn.rcv_nxt := by
  rw [Conn.acknowledge]
  split <;> rfl

@[simp] theorem acknowledge_stopped (conn : Conn) : conn.acknowledge.stopped = conn.stopped := by
  rw [Conn.acknowledge]
  split <;> rfl

@[simp] theorem acknowledge_len (conn : Conn) : conn.acknowledge.len = 0 := rfl

@[simp] theorem acknowledge_snd_nxt (conn : Conn) : conn.acknowledge.snd_nxt = conn.sndEnd := rfl

theorem appdata_eq (plain : segment.data ≠ [] → segment.options = []) : appdata segment = segment.data := by
  rw [appdata]
  by_cases none : segment.data = []
  · rw [none, List.length_nil, List.take_zero]
  · rw [plain none, List.nil_append, List.take_length]

/-- What the label `apprexmit` leaves. -/
theorem apprexmit_frame (config : Config) (stale : Bytes) (conn : Conn) (flags : Flags) (slen : UInt16)
    (data accepted : List UInt8) (call : Call) :
    (apprexmit config stale conn flags slen data accepted call).conn = conn ∧
      (apprexmit config stale conn flags slen data accepted call).call = some call ∧
      (apprexmit config stale conn flags slen data accepted call).accepted = accepted := by
  rw [apprexmit]
  split_ifs <;> exact ⟨rfl, rfl, rfl⟩

/-- What the label `appsend` leaves of the connection. -/
theorem appsend_frame (config : Config) (stale : Bytes) (conn : Conn) (flags : Flags) (answer : Answer) (call : Call) :
    (appsend config stale conn flags answer call).call = some call ∧
      (appsend config stale conn flags answer call).conn.rcv_nxt = conn.rcv_nxt ∧
      (appsend config stale conn flags answer call).conn.tcpstate ∈ [conn.tcpstate, .closed, .finWait1] := by
  rw [appsend]
  dsimp only
  split_ifs <;> simp [sendNodata, apprexmit_frame]

theorem callAndSend_call (conn : Conn) (flags : Flags) (data : List UInt8) :
    (callAndSend config app stale conn flags data).call = some ⟨flags, data⟩ :=
  (appsend_frame config stale _ _ _ _).1

theorem Awaits.callAndSend (awaits : Awaits peer conn delivered) (established : conn.tcpstate = .established)
    (flags : Flags) (data : List UInt8) :
    Awaits peer (callAndSend config app stale conn flags data).conn delivered := by
  have frame := appsend_frame config stale (conn.flow (app ⟨flags, data⟩).dataflow)
    (flags.behind (app ⟨flags, data⟩)) (app ⟨flags, data⟩) ⟨flags, data⟩
  rw [flow_rcv_nxt, flow_tcpstate, established] at frame
  obtain ⟨-, same, state⟩ := frame
  rw [Tcp.callAndSend]
  generalize (appsend config stale (conn.flow (app ⟨flags, data⟩).dataflow)
    (flags.behind (app ⟨flags, data⟩)) (app ⟨flags, data⟩) ⟨flags, data⟩).conn = after at same state
  rw [List.mem_cons] at state
  obtain going | ended := state
  · exact .ofEstablished awaits.begins going (same.trans (awaits.next established))
  · refine .afterwards awaits.begins ?_
    simp only [List.mem_cons, List.not_mem_nil, or_false] at ended ⊢
    tauto

/-- A segment in sequence stands where the delivery has got to. -/
theorem stands_next {link : Link} (begins : delivered <+: peer.stream)
    (next : conn.rcv_nxt = peer.irs + 1 + UInt32.ofNat delivered.length) (sender : FromPeer peer link segment)
    (carries : segment.data ≠ [] ∨ segment.control.fin = true) (sequence : segment.seqno = conn.rcv_nxt) :
    segment.data <+: peer.stream.drop delivered.length ∧
      (segment.control.fin = true → delivered.length + segment.data.length = peer.stream.length) := by
  have plain : segment.control.syn = false := by
    by_contra syn
    obtain ⟨-, empty, open_⟩ := sender.syn (Bool.eq_true_of_not_eq_false syn)
    simp [empty, open_] at carries
  obtain ⟨place, number, stands, fits, last⟩ := sender.piece plain carries
  have bound := peer.short
  have same : place = delivered.length := by
    refine place_inj ?_ ?_ (number.symm.trans (sequence.trans next))
    · omega
    · exact lt_of_le_of_lt begins.length_le (by omega)
  exact same ▸ ⟨stands, last⟩

theorem begins_append {link : Link} (begins : delivered <+: peer.stream)
    (next : conn.rcv_nxt = peer.irs + 1 + UInt32.ofNat delivered.length) (sender : FromPeer peer link segment)
    (sequence : segment.data ≠ [] → segment.seqno = conn.rcv_nxt) :
    delivered ++ segment.data <+: peer.stream := by
  by_cases none : segment.data = []
  · rw [none, List.append_nil]
    exact begins
  · have stands := (stands_next begins next sender (.inl none) (sequence none)).1
    have grows := received_append begins stands (Nat.add_zero _).symm segment.data.length
    rwa [List.drop_zero, List.take_length] at grows

theorem addRcvNxt_next (next : conn.rcv_nxt = peer.irs + 1 + UInt32.ofNat delivered.length) (data : List UInt8) :
    (conn.addRcvNxt data.length).rcv_nxt = peer.irs + 1 + UInt32.ofNat (delivered ++ data).length := by
  rw [Conn.addRcvNxt, next, ofNat_add_assoc, List.length_append]

theorem awaits_inSynSent {link : Link} (awaits : Awaits peer conn delivered) (state : conn.tcpstate = .synSent)
    (acked : Bool) (sender : FromPeer peer link segment) :
    Awaits peer (inSynSent config app stale conn acked segment).conn
      (delivered ++ delivery (inSynSent config app stale conn acked segment).call) := by
  have empty := awaits.opening (.inl state)
  rw [inSynSent]
  split_ifs with opened
  · have first : segment.seqno = peer.irs := (sender.syn (by rw [opened.2])).1
    rw [callAndSend_call]
    refine Awaits.callAndSend ?_ rfl _ _
    rw [empty]
    exact .ofEstablished List.nil_prefix rfl (by simp [first, delivery])
  · exact .afterwards (by simpa [notify, delivery] using awaits.begins) (by simp)

theorem delivery_data {flags : Flags} {data : List UInt8} (announced : flags.newdata = decide (data ≠ [])) :
    delivery (some ⟨flags, data⟩) = data := by
  rw [delivery]
  split_ifs with some
  · rfl
  · rw [announced, decide_eq_true_eq, not_not] at some
    exact some.symm

theorem awaits_inEstablished {link : Link} (awaits : Awaits peer conn delivered)
    (state : conn.tcpstate = .established) (acked : Bool) (sender : FromPeer peer link segment)
    (sequence : segment.data ≠ [] ∨ segment.control.fin = true → segment.seqno = conn.rcv_nxt) :
    Awaits peer (inEstablished config app stale conn acked segment).conn
      (delivered ++ delivery (inEstablished config app stale conn acked segment).call) := by
  have next := awaits.next state
  have grows := begins_append awaits.begins next sender fun some => sequence (.inl some)
  have seen := appdata_eq sender.options
  rw [inEstablished]
  split_ifs with fin
  · simpa [dropped, delivery] using awaits
  · obtain ⟨stands, last⟩ := stands_next awaits.begins next sender (.inr fin.1) (sequence (.inr fin.1))
    have all := received_append_all awaits.begins stands rfl (last fin.1)
    simp only [notify, sendNodata, seen]
    rw [delivery_data rfl]
    exact ⟨grows, by simp, by simp, by simp, fun _ => all⟩
  · simp only [seen]
    by_cases taken : segment.data ≠ [] ∧ conn.stopped = false
    · simp only [taken, ne_eq, not_false_eq_true, and_self, if_true, true_or, decide_true]
      rw [callAndSend_call, delivery_data (decide_eq_true taken.1).symm]
      have received : Awaits peer { conn.addRcvNxt segment.data.length with
          mss := windowMss (conn.addRcvNxt segment.data.length) segment } (delivered ++ segment.data) :=
        .ofEstablished grows state (addRcvNxt_next next segment.data)
      exact received.callAndSend state _ _
    · simp only [taken, if_false, false_or, decide_false]
      have same : Awaits peer { conn with mss := windowMss conn segment } delivered :=
        .ofEstablished awaits.begins state next
      split_ifs
      · rw [callAndSend_call]
        simpa [delivery] using same.callAndSend state _ _
      · simpa [dropped, delivery] using same

theorem awaits_inFinWait (begins : delivered <+: peer.stream)
    (state : conn.tcpstate = .finWait1 ∨ conn.tcpstate = .finWait2) (acked : Bool) :
    Awaits peer (inFinWait config app conn acked segment).conn
      (delivered ++ delivery (inFinWait config app conn acked segment).call) := by
  have late : (conn.addRcvNxt segment.data.length).tcpstate ∈
      [.closed, .finWait1, .finWait2, .closing, .timeWait] := by
    obtain first | second := state
    · simp [Conn.addRcvNxt, first]
    · simp [Conn.addRcvNxt, second]
  rw [inFinWait]
  simp only [notify]
  split_ifs
  all_goals refine .afterwards (by simpa [sendAck, sendNodata, dropped, delivery] using begins) ?_
  · simp [sendAck, sendNodata, Conn.addRcvNxt]
  · simp [sendAck, sendNodata, Conn.addRcvNxt]
  · simp [sendAck, sendNodata, Conn.addRcvNxt]
  · simp [dropped]
  · exact late
  · exact late

theorem sequence_of_inside (inside : ¬outOfSequence conn segment = true) (opened : conn.tcpstate ≠ .synSent)
    (carries : segment.data ≠ [] ∨ segment.control.fin = true) : segment.seqno = conn.rcv_nxt := by
  by_contra different
  refine inside ?_
  simp only [outOfSequence, opened, decide_false, Bool.false_and, Bool.not_false, Bool.true_and, different,
    ne_eq, not_false_eq_true, decide_true, Bool.and_true, Bool.or_eq_true, decide_eq_true_eq]
  tauto

/-- A segment of the peer goes on with the delivery of its stream. -/
theorem awaits_receive {link : Link} (awaits : Awaits peer conn delivered) (sender : FromPeer peer link segment) :
    Awaits peer (receive config app stale conn segment).conn
      (delivered ++ delivery (receive config app stale conn segment).call) := by
  rw [receive]
  split_ifs with reset outside
  · exact .afterwards (by simpa [notify, dropped, delivery] using awaits.begins) (by simp [notify, dropped])
  · simpa [sendAck, sendNodata, delivery] using awaits
  · generalize acknowledges conn segment = acked
    dsimp only
    have same : Awaits peer (if acked then conn.acknowledge else conn) delivered := by
      split_ifs
      · exact ⟨awaits.begins, by simpa using awaits.opening, by simpa using awaits.first, by simpa using awaits.next,
          by simpa using awaits.whole⟩
      · exact awaits
    have number : (if acked then conn.acknowledge else conn).rcv_nxt = conn.rcv_nxt := by split_ifs <;> simp
    have kind : (if acked then conn.acknowledge else conn).tcpstate = conn.tcpstate := by split_ifs <;> simp
    have sequence : conn.tcpstate ≠ .synSent → segment.data ≠ [] ∨ segment.control.fin = true →
        segment.seqno = (if acked then conn.acknowledge else conn).rcv_nxt := by
      intro opened carries
      rw [number]
      exact sequence_of_inside outside opened carries
    generalize (if acked then conn.acknowledge else conn) = after at same number kind sequence ⊢
    cases state : after.tcpstate with
    | closed => simpa [dropped, delivery] using same
    | synRcvd =>
      simp only
      split_ifs
      · have empty := same.opening (.inr state)
        have next : after.rcv_nxt = peer.irs + 1 + UInt32.ofNat delivered.length := by
          simpa [empty] using same.first state
        have grows := begins_append same.begins next sender fun some => sequence (by simp [← kind, state]) (.inl some)
        have received : Awaits peer { (after.enter .established).addRcvNxt segment.data.length with len := 0 }
            (delivered ++ segment.data) := .ofEstablished grows rfl (addRcvNxt_next next segment.data)
        rw [callAndSend_call, appdata_eq sender.options, delivery_data rfl]
        exact received.callAndSend rfl _ _
      · simpa [dropped, delivery] using same
    | synSent => exact awaits_inSynSent same state acked sender
    | established => exact awaits_inEstablished same state acked sender (sequence (by simp [← kind, state]))
    | finWait1 => exact awaits_inFinWait same.begins (.inl state) acked
    | finWait2 => exact awaits_inFinWait same.begins (.inr state) acked
    | closing =>
      refine .afterwards (by simpa [dropped, delivery] using same.begins) ?_
      simp only [dropped]
      split_ifs <;> simp [state]
    | timeWait => simpa [sendAck, sendNodata, delivery] using same
    | lastAck =>
      simp only
      split_ifs
      · exact .afterwards (by simpa [notify, dropped, delivery] using same.begins) (by simp [notify, dropped])
      · simpa [dropped, delivery] using same

theorem Awaits.congr {after : Conn} (awaits : Awaits peer conn delivered) (state : after.tcpstate = conn.tcpstate)
    (number : after.rcv_nxt = conn.rcv_nxt) : Awaits peer after delivered :=
  ⟨awaits.begins, state ▸ awaits.opening, state ▸ number ▸ awaits.first, state ▸ number ▸ awaits.next,
    state ▸ awaits.whole⟩

/-- Sending again leaves what the connection awaits. -/
theorem retransmit_frame (config : Config) (app : Call → Answer) (stale : Bytes) (conn : Conn) :
    (retransmit config app stale conn).conn.tcpstate = conn.tcpstate ∧
      (retransmit config app stale conn).conn.rcv_nxt = conn.rcv_nxt ∧
      delivery (retransmit config app stale conn).call = [] := by
  rw [retransmit]
  split <;> simp [sendNodata, dropped, delivery, apprexmit_frame]

theorem awaits_timer (awaits : Awaits peer conn delivered) :
    Awaits peer (timer config app stale conn).conn (delivered ++ delivery (timer config app stale conn).call) := by
  rw [timer]
  dsimp only
  split_ifs with waiting final closed flight due exhausted polled
  · exact .afterwards (by simpa [dropped, delivery] using awaits.begins) (by simp [dropped])
  · have same : Awaits peer { conn with timer := conn.timer + 1 } delivered := awaits.congr rfl rfl
    simpa [dropped, delivery] using same
  · simpa [dropped, delivery] using awaits
  · exact .afterwards (by simpa [notify, sendNodata, delivery] using awaits.begins) (by simp [notify, sendNodata])
  · obtain ⟨state, number, none⟩ := retransmit_frame config app stale conn.countDown.retry
    rw [none, List.append_nil]
    exact awaits.congr state number
  · have same : Awaits peer conn.countDown delivered := awaits.congr rfl rfl
    simpa [dropped, delivery] using same
  · rw [callAndSend_call]
    simpa [delivery] using awaits.callAndSend polled _ _
  · simpa [dropped, delivery] using awaits

end Receiving

end Ethersex.Uip.Tcp
