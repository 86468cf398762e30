import Ethersex.Uip.Sending

/-!
# Runs of a connection

Whatever the network does, each side gets the beginning of what the other one has sent, and gets the whole of
it before its end.
-/

namespace Ethersex.Uip.Tcp

open Library

section Steps

variable {config : Config} {app : Call → Answer} {stale : Bytes} {peer : Peer} {conn : Conn} {segment : Segment}
  {link : Link}

theorem callAndSend_accepted (conn : Conn) (flags : Flags) (data : List UInt8) :
    (callAndSend config app stale conn flags data).accepted.length < 2 ^ 16 := by
  have taken : ∀ (slen : UInt16) (bytes : List UInt8), (bytes.take slen.toNat).length < 2 ^ 16 := by
    intro slen bytes
    exact lt_of_le_of_lt (List.length_take_le ..) slen.toNat_lt
  rw [callAndSend, appsend]
  dsimp only
  split_ifs
  all_goals
    first
    | exact lt_of_eq_of_lt (congrArg List.length (apprexmit_frame ..).2.2) (taken _ _)
    | simp [sendNodata, apprexmit_frame]

/-- Only an application that is called for a connection that has not ended gives data. -/
theorem receive_cases (config : Config) (app : Call → Answer) (stale : Bytes) (conn : Conn) (segment : Segment) :
    (¬Ended conn ∧ ∃ after flags data,
      receive config app stale conn segment = callAndSend config app stale after flags data) ∨
    ((receive config app stale conn segment).accepted = [] ∧
      (Ended conn → Ended (receive config app stale conn segment).conn)) := by
  have quiet : ∀ step : Step, step.accepted = [] → (Ended conn → Ended step.conn) →
      (¬Ended conn ∧ ∃ after flags data, step = callAndSend config app stale after flags data) ∨
      (step.accepted = [] ∧ (Ended conn → Ended step.conn)) := fun _ none ended => .inr ⟨none, ended⟩
  rw [receive]
  split_ifs
  · exact quiet _ rfl fun _ => by simp [Ended, notify, dropped]
  · exact quiet _ rfl id
  · dsimp only
    generalize acknowledges conn segment = acked
    have kind : (if acked then conn.acknowledge else conn).tcpstate = conn.tcpstate := by split_ifs <;> simp
    generalize (if acked then conn.acknowledge else conn) = after at kind ⊢
    have same : Ended conn → Ended after := fun ended => by rwa [Ended, kind]
    cases state : conn.tcpstate with
    | closed =>
      simp only [kind, state]
      exact quiet _ rfl same
    | synRcvd =>
      simp only [kind, state]
      split_ifs
      · exact .inl ⟨by simp [Ended, state], _, _, _, rfl⟩
      · exact quiet _ rfl same
    | synSent =>
      simp only [kind, state]
      rw [inSynSent]
      split_ifs
      · exact .inl ⟨by simp [Ended, state], _, _, _, rfl⟩
      · exact quiet _ rfl fun _ => by simp [Ended, notify]
    | established =>
      simp only [kind, state]
      rw [inEstablished]
      split_ifs
      · exact quiet _ rfl same
      · exact quiet _ rfl fun _ => by simp [Ended, notify, sendNodata]
      · dsimp only
        split_ifs
        · exact .inl ⟨by simp [Ended, state], _, _, _, rfl⟩
        · exact .inl ⟨by simp [Ended, state], _, _, _, rfl⟩
        · exact quiet _ rfl same
        · exact quiet _ rfl same
    | finWait1 =>
      simp only [kind, state]
      rw [inFinWait]
      dsimp only
      split_ifs
      all_goals exact quiet _ rfl fun _ => by simp [Ended, kind, state, notify, sendAck, sendNodata, dropped]
    | finWait2 =>
      simp only [kind, state]
      rw [inFinWait]
      dsimp only
      split_ifs
      all_goals exact quiet _ rfl fun _ => by simp [Ended, kind, state, notify, sendAck, sendNodata, dropped]
    | closing =>
      simp only [kind, state]
      refine quiet _ rfl fun _ => ?_
      simp only [dropped]
      split_ifs <;> simp [Ended, kind, state]
    | timeWait =>
      simp only [kind, state]
      exact quiet _ rfl same
    | lastAck =>
      simp only [kind, state]
      split_ifs
      · exact quiet _ rfl fun _ => by simp [Ended, notify, dropped]
      · exact quiet _ rfl same

theorem timer_cases (config : Config) (app : Call → Answer) (stale : Bytes) (conn : Conn) :
    (¬Ended conn ∧ ∃ after flags data,
      timer config app stale conn = callAndSend config app stale after flags data) ∨
    ((timer config app stale conn).accepted = [] ∧ (Ended conn → Ended (timer config app stale conn).conn)) := by
  rw [timer]
  dsimp only
  split_ifs with waiting final closed flight due exhausted polled
  · exact .inr ⟨rfl, fun _ => by simp [Ended, dropped]⟩
  · exact .inr ⟨rfl, id⟩
  · exact .inr ⟨rfl, id⟩
  · exact .inr ⟨rfl, fun _ => by simp [Ended, notify, sendNodata]⟩
  · have frame := (retransmit_frame config app stale conn.countDown.retry).1
    refine .inr ⟨?_, fun ended => ?_⟩
    · rw [retransmit]
      split <;> simp [sendNodata, dropped, apprexmit_frame]
    · rw [Ended, frame]
      exact ended
  · exact .inr ⟨rfl, id⟩
  · exact .inl ⟨by simp [Ended, polled], _, _, _, rfl⟩
  · exact .inr ⟨rfl, id⟩

/-- The application is told of an acknowledgement in a step. -/
def Tells (step : Step) : Prop := ∃ call, step.call = some call ∧ call.flags.ackdata = true

theorem callAndSend_tells (conn : Conn) (flags : Flags) (data : List UInt8) :
    Tells (callAndSend config app stale conn flags data) ↔ flags.ackdata = true := by
  simp [Tells, callAndSend_call]

theorem tells_none {step : Step} (same : step.call = none) : ¬Tells step := by
  simp [Tells, same]

/-- The application is told of an acknowledgement when there is one. -/
theorem receive_tells (told : Tells (receive config app stale conn segment)) :
    conn.tcpstate = .established ∧ acknowledges conn segment = true := by
  rw [receive] at told
  split_ifs at told
  · simp [Tells, notify, dropped] at told
  · exact absurd told (tells_none rfl)
  · dsimp only at told
    generalize acknowledges conn segment = acknowledged at told ⊢
    have kind : (if acknowledged then conn.acknowledge else conn).tcpstate = conn.tcpstate := by split_ifs <;> simp
    generalize (if acknowledged then conn.acknowledge else conn) = after at kind told
    cases state : conn.tcpstate with
    | established =>
      simp only [kind, state, inEstablished, notify] at told
      refine ⟨rfl, ?_⟩
      split_ifs at told
      · exact absurd told (tells_none rfl)
      · simpa [Tells, sendNodata] using told
      · rwa [callAndSend_tells] at told
      · rwa [callAndSend_tells] at told
      · exact absurd told (tells_none rfl)
      · exact absurd told (tells_none rfl)
    | closed =>
      simp only [kind, state] at told
      exact absurd told (tells_none rfl)
    | synRcvd =>
      simp only [kind, state] at told
      split_ifs at told
      · simp [callAndSend_tells] at told
      · exact absurd told (tells_none rfl)
    | synSent =>
      simp only [kind, state, inSynSent, notify] at told
      split_ifs at told
      · simp [callAndSend_tells] at told
      · simp [Tells] at told
    | finWait1 =>
      simp only [kind, state, inFinWait, notify, sendAck] at told
      split_ifs at told
      all_goals simp [Tells, sendNodata, dropped] at told
    | finWait2 =>
      simp only [kind, state, inFinWait, notify, sendAck] at told
      split_ifs at told
      all_goals simp [Tells, sendNodata, dropped] at told
    | closing =>
      simp only [kind, state] at told
      exact absurd told (tells_none rfl)
    | timeWait =>
      simp only [kind, state] at told
      exact absurd told (tells_none rfl)
    | lastAck =>
      simp only [kind, state, notify] at told
      split_ifs at told
      · simp [Tells, dropped] at told
      · exact absurd told (tells_none rfl)

/-- What the two sides have done fits together. -/
structure Consistent (peer : Peer) (link : Link) : Prop where
  awaits : Awaits peer link.conn link.delivered
  offers : Offers peer link.conn link.sent link.received link.finished
  copies : ∀ copy ∈ link.copies, Copy peer link.conn link.sent copy
  size : link.sent.length + 2 ^ 16 < 2 ^ 32

/-- A copy stays what it is when the application goes on. -/
theorem Copy.later {sent accepted : List UInt8} {after : Conn} {copy : Segment} (copies : Copy peer conn sent copy)
    (ended : Ended conn → Ended after ∧ accepted = []) : Copy peer after (sent ++ accepted) copy where
  size := copies.size
  stands some := by
    obtain ⟨place, bound, number, piece⟩ := copies.stands some
    exact ⟨place, by rw [List.length_append]; omega, number, piece_of_prefix piece (List.prefix_append ..)⟩
  last fin := by
    obtain ⟨over_, empty, number⟩ := copies.last fin
    obtain ⟨stays, none⟩ := ended over_
    exact ⟨stays, empty, by rw [none, List.append_nil]; exact number⟩

/-- A step of the connection. -/
theorem Consistent.follow (consistent : Consistent peer link) {step : Step}
    (awaits : Awaits peer step.conn (link.delivered ++ delivery step.call))
    (sends : Sends peer step link.sent link.received link.finished)
    (short : (link.sent ++ step.accepted).length + 2 ^ 16 < 2 ^ 32)
    (ended : Ended link.conn → Ended step.conn ∧ step.accepted = []) : Consistent peer (link.follow step) where
  awaits := awaits
  offers := sends.offers
  copies copy member := by
    rw [Link.follow, List.mem_append, Option.mem_toList] at member
    exact member.elim (fun old => (consistent.copies copy old).later ended) (sends.copy copy)
  size := short

/-- The peer takes what is new to it. -/
theorem Consistent.take (consistent : Consistent peer link) {copy : Segment} (known : copy ∈ link.copies)
    (count : Nat) : Consistent peer (link.take peer copy count) := by
  have stands := consistent.copies copy known
  obtain ⟨awaits, offers, copies, size⟩ := consistent
  have fits := offers.begins.length_le
  rw [Link.take]
  split_ifs with next
  · obtain ⟨unfinished, near⟩ := next
    generalize distance : (link.expected peer - copy.seqno).toNat = ahead at near ⊢
    have place : copy.data ≠ [] →
        ∃ start, link.received.length = start + ahead ∧ copy.data <+: link.sent.drop start := by
      intro some
      obtain ⟨start, bound, number, piece⟩ := stands.stands some
      rw [Link.expected, number] at distance
      have less := stands.size
      refine ⟨start, ?_, piece⟩
      have room : link.received.length < 2 ^ 32 - copy.data.length ∧ start < 2 ^ 32 - copy.data.length := by omega
      have behind := eq_add_of_distance (peer.iss + 1) link.received.length start room.1 room.2 (by omega)
      rwa [distance] at behind
    have grows : link.received ++ (copy.data.drop ahead).take count <+: link.sent := by
      by_cases none : copy.data = []
      · simpa [none] using offers.begins
      · obtain ⟨start, here, piece⟩ := place none
        exact received_append offers.begins piece here count
    refine ⟨awaits, ⟨grows, offers.opening, fun established => ?_, offers.ending, fun last => ?_⟩, copies, size⟩
    · obtain ⟨acked, taken, flight⟩ := offers.going established
      exact ⟨acked, taken.trans (by simp), flight⟩
    · rw [Bool.and_eq_true] at last
      obtain ⟨ended, empty, number⟩ := stands.last last.1
      rw [Link.expected, number] at distance
      rw [empty, List.length_nil, Nat.le_zero] at near
      have room : link.received.length < 2 ^ 32 - 0 ∧ link.sent.length < 2 ^ 32 - 0 := by omega
      have same := eq_add_of_distance (peer.iss + 1) link.received.length link.sent.length room.1 room.2 (by omega)
      refine ⟨?_, ended⟩
      rw [empty, List.drop_nil, List.take_nil, List.append_nil]
      exact offers.begins.eq_of_length (by omega)
  · exact ⟨awaits, offers, copies, size⟩

/-- What the cases of a step say of the stream. -/
theorem step_bounds {step : Step}
    (cases_ : (¬Ended conn ∧ ∃ after flags data, step = callAndSend config app stale after flags data) ∨
      (step.accepted = [] ∧ (Ended conn → Ended step.conn))) :
    step.accepted.length < 2 ^ 16 ∧ (Ended conn → Ended step.conn ∧ step.accepted = []) := by
  rcases cases_ with ⟨going, after, flags, data, rfl⟩ | ⟨none, ended⟩
  · exact ⟨callAndSend_accepted after flags data, fun ended => absurd ended going⟩
  · exact ⟨by simp [none], fun over_ => ⟨ended over_, none⟩⟩

/-- Every event that meets what is asked of it leaves the two sides consistent. -/
theorem Consistent.next (consistent : Consistent peer link) {event : Event} (meets : Meets peer link event) :
    Consistent peer (link.next config peer event) := by
  cases event with
  | segment segment app stale =>
    obtain ⟨sender, keeps, short⟩ := meets
    obtain ⟨few, ended⟩ := step_bounds (receive_cases config app stale link.conn segment)
    refine consistent.follow (awaits_receive consistent.awaits sender)
      (sends_receive consistent.offers sender keeps (by omega)) ?_ ended
    rw [List.length_append]
    omega
  | timer app stale =>
    obtain ⟨-, keeps, short⟩ := meets
    obtain ⟨few, ended⟩ := step_bounds (timer_cases config app stale link.conn)
    refine consistent.follow (awaits_timer consistent.awaits) (sends_timer consistent.offers keeps) ?_ ended
    rw [List.length_append]
    omega
  | taken copy count =>
    rw [Link.next]
    split
    · rename_i known
      exact consistent.take (List.mem_of_getElem? known) count
    · exact consistent

end Steps

section Runs

variable {config : Config} {peer : Peer}

/-- A connection that has just been made. -/
def Link.opened (conn : Conn) : Link := ⟨conn, [], [], [], [], false⟩

/-- A connection that the peer has asked for, or that it is asked for. -/
def Opened (config : Config) (peer : Peer) (conn : Conn) : Prop :=
  (∃ old syn, syn.seqno = peer.irs ∧ conn = foundListen config old peer.iss syn) ∨
    ∃ old, conn = uipConnect config old peer.iss

/-- The two sides after a run. -/
def Link.run (config : Config) (peer : Peer) (link : Link) (events : List Event) : Link :=
  events.foldl (Link.next config peer) link

theorem Consistent.opened {conn : Conn} (opened : Opened config peer conn) : Consistent peer (.opened conn) := by
  obtain ⟨old, syn, first, rfl⟩ | ⟨old, rfl⟩ := opened
  · refine ⟨⟨List.nil_prefix, fun _ => rfl, ?_, ?_, ?_⟩,
      ⟨List.nil_prefix, fun _ => ⟨rfl, rfl, rfl⟩, ?_, ?_, ?_⟩, ?_, ?_⟩
    all_goals simp [Link.opened, foundListen, first]
  · refine ⟨⟨List.nil_prefix, fun _ => rfl, ?_, ?_, ?_⟩,
      ⟨List.nil_prefix, fun _ => ⟨rfl, rfl, rfl⟩, ?_, ?_, ?_⟩, ?_, ?_⟩
    all_goals simp [Link.opened, uipConnect]

theorem Consistent.run {conn : Conn} (opened : Opened config peer conn) {events : List Event}
    (meets : EachMeets (Link.next config peer) (Meets peer) (.opened conn) events) :
    Consistent peer (Link.run config peer (.opened conn) events) :=
  meets.invariant (fun _ _ consistent each => consistent.next each) (.opened opened)

theorem awaits_next {link : Link} {event : Event} (awaits : Awaits peer link.conn link.delivered)
    (arrives : Arrives peer link event) :
    Awaits peer (link.next config peer event).conn (link.next config peer event).delivered := by
  cases event with
  | segment segment app stale => exact awaits_receive awaits arrives
  | timer app stale => exact awaits_timer awaits
  | taken copy count =>
    rw [Link.next]
    split
    · rw [Link.take]
      split_ifs <;> exact awaits
    · exact awaits

/-! A talk of two sides: the peer sends two bytes, takes the byte that the application answers with, and closes
the connection. -/

def talker : Peer where
  stream := [1, 2]
  irs := 100
  iss := 5
  short := Nat.lt_of_sub_eq_succ rfl

def talkConfig : Config := ⟨536, 536⟩

def talkSyn : Segment := ⟨100, 0, { syn := true }, 500, [2, 4, 2, 24], some 536, []⟩

def talkConn : Conn := foundListen talkConfig ⟨.closed, false, 0, 0, 0, 0, 0, 0, 0, 0, 0, 0, 0⟩ 5 talkSyn

def talkData : Segment := ⟨101, 6, { ack := true }, 500, [], none, [1, 2]⟩

def talkFin : Segment := ⟨103, 7, { ack := true, fin := true }, 500, [], none, []⟩

def talkAnswer (_ : Call) : Answer := ⟨[7], .proceed, .keep⟩

def talk : List Event := [.segment talkData talkAnswer fun _ => 0, .taken 0 1, .segment talkFin talkAnswer fun _ => 0]

theorem talkConn_opened : Opened talkConfig talker talkConn := .inl ⟨_, talkSyn, rfl, rfl⟩

theorem talkData_fromPeer (link : Link) : FromPeer talker link talkData where
  syn asked := by simp [talkData] at asked
  piece _ _ := ⟨0, rfl, by decide, by decide, by decide⟩
  options _ := rfl
  ack _ := ⟨0, Nat.zero_le _, rfl⟩

theorem talkFin_fromPeer (link : Link) (got : 1 ≤ link.received.length) : FromPeer talker link talkFin where
  syn asked := by simp [talkFin] at asked
  piece _ _ := ⟨2, rfl, by decide, by decide, by decide⟩
  options _ := rfl
  ack _ := ⟨1, by omega, rfl⟩

theorem talk_arrives : EachMeets (Link.next talkConfig talker) (Arrives talker) (.opened talkConn) talk :=
  ⟨talkData_fromPeer _, trivial, talkFin_fromPeer _ (by decide), trivial⟩

/-- Whatever the network does, and whatever the application, what the application has been given is the
beginning of the stream of the peer, and the whole of it when the connection answers the end of the peer with
its own. -/
theorem delivered_in_order {conn : Conn} (opened : Opened config peer conn) {events : List Event}
    (arrives : EachMeets (Link.next config peer) (Arrives peer) (.opened conn) events) :
    let link := Link.run config peer (.opened conn) events
    link.delivered <+: peer.stream ∧ (link.conn.tcpstate = .lastAck → link.delivered = peer.stream) := by
  have awaits : Awaits peer (Link.run config peer (.opened conn) events).conn
      (Link.run config peer (.opened conn) events).delivered :=
    @EachMeets.invariant Link Event (Link.next config peer) (Arrives peer)
      (fun link => Awaits peer link.conn link.delivered) (fun _ _ before each => awaits_next before each)
      events _ arrives (Consistent.opened opened).awaits
  exact ⟨awaits.begins, awaits.whole⟩

theorem delivered_in_order_talk :
    (Link.run talkConfig talker (.opened talkConn) talk).conn.tcpstate = .lastAck ∧
      (Link.run talkConfig talker (.opened talkConn) talk).delivered = [1, 2] :=
  have last : (Link.run talkConfig talker (.opened talkConn) talk).conn.tcpstate = .lastAck := by decide
  ⟨last, (delivered_in_order talkConn_opened talk_arrives).2 last⟩

/-- Whatever the network does, the peer gets the beginning of what the application has sent, and its end behind
all of that; and the application is told of an acknowledgement only when the peer has got everything. -/
theorem acknowledged_in_order {conn : Conn} (opened : Opened config peer conn) {events : List Event}
    (meets : EachMeets (Link.next config peer) (Meets peer) (.opened conn) events) :
    let link := Link.run config peer (.opened conn) events
    link.received <+: link.sent ∧ (link.finished = true → link.received = link.sent) ∧
      ∀ segment app stale, Arrives peer link (.segment segment app stale) →
        Tells (receive config app stale link.conn segment) → link.received = link.sent := by
  have consistent := Consistent.run opened meets
  have size := consistent.size
  refine ⟨consistent.offers.begins, fun last => (consistent.offers.whole last).1, ?_⟩
  intro segment app stale sender told
  obtain ⟨established, acks⟩ := receive_tells told
  exact (acknowledged consistent.offers sender (by omega) acks).1 established

theorem talkAnswer_keeps {conn : Conn} {sent : List UInt8} (flight : inFlight conn sent <+: [7]) (call : Call) :
    Keeps conn sent call (talkAnswer call) where
  size := Nat.lt_of_sub_eq_succ rfl
  again _ _ _ := .inr flight
  close _ _ _ := by simp [talkAnswer]

theorem talk_meets : EachMeets (Link.next talkConfig talker) (Meets talker) (.opened talkConn) talk :=
  ⟨⟨talkData_fromPeer _, talkAnswer_keeps (by decide), by decide⟩, ⟨trivial, trivial⟩,
    ⟨talkFin_fromPeer _ (by decide), talkAnswer_keeps (by decide), by decide⟩, trivial⟩

theorem acknowledged_in_order_talk :
    (Link.run talkConfig talker (.opened talkConn) talk).sent = [7] ∧
      (Link.run talkConfig talker (.opened talkConn) talk).received <+: [7] := by
  have all : (Link.run talkConfig talker (.opened talkConn) talk).sent = [7] := by decide
  exact ⟨all, all ▸ (acknowledged_in_order talkConn_opened talk_meets).1⟩

end Runs

end Ethersex.Uip.Tcp
