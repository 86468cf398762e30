import Ethersex.Uip.Streams

/-!
# What the peer gets

The peer takes the beginning of what the application has sent, and what is acknowledged has been taken.
-/

namespace Ethersex.Uip.Tcp

open Library

section Sending

variable {config : Config} {app : Call → Answer} {stale : Bytes} {peer : Peer} {conn : Conn} {segment : Segment}
  {sent received : List UInt8} {finished : Bool} {link : Link}

/-- Nothing more is sent but the end. -/
def Ended (conn : Conn) : Prop := conn.tcpstate ∈ [.finWait1, .finWait2, .closing, .timeWait, .lastAck, .closed]

/-- How far the peer and the connection have got with what has been sent. -/
structure Offers (peer : Peer) (conn : Conn) (sent received : List UInt8) (finished : Bool) : Prop where
  begins : received <+: sent
  opening : conn.tcpstate = .synSent ∨ conn.tcpstate = .synRcvd → sent = [] ∧ conn.snd_nxt = peer.iss ∧ conn.len = 1
  going : conn.tcpstate = .established → ∃ acked ≤ received.length,
    acked + conn.len.toNat = sent.length ∧ conn.snd_nxt = peer.iss + 1 + UInt32.ofNat acked
  ending : conn.tcpstate ∈ [.finWait1, .closing, .lastAck] →
    conn.len = 1 ∧ conn.snd_nxt = peer.iss + 1 + UInt32.ofNat sent.length
  whole : finished = true → received = sent ∧ Ended conn

/-- A copy of a segment brings a piece of what has been sent, or its end. -/
structure Copy (peer : Peer) (conn : Conn) (sent : List UInt8) (copy : Segment) : Prop where
  size : copy.data.length < 2 ^ 16
  stands : copy.data ≠ [] → ∃ place ≤ sent.length,
    copy.seqno = peer.iss + 1 + UInt32.ofNat place ∧ copy.data <+: sent.drop place
  last : copy.control.fin = true →
    Ended conn ∧ copy.data = [] ∧ copy.seqno = peer.iss + 1 + UInt32.ofNat sent.length

/-- A step keeps to the stream that it goes on with. -/
structure Sends (peer : Peer) (step : Step) (sent received : List UInt8) (finished : Bool) : Prop where
  offers : Offers peer step.conn (sent ++ step.accepted) received finished
  copy : ∀ copy ∈ step.packet, Copy peer step.conn (sent ++ step.accepted) copy

theorem Copy.silent {copy : Segment} (none : copy.data = []) (goes : copy.control.fin = false) :
    Copy peer conn sent copy where
  size := by simp [none]
  stands some := absurd none some
  last fin := by simp [goes] at fin

theorem Offers.dropped (offers : Offers peer conn sent received finished) (call : Option Call) :
    Sends peer (dropped conn call) sent received finished :=
  ⟨by simpa [Tcp.dropped] using offers, by simp [Tcp.dropped]⟩

theorem Offers.sendNodata (offers : Offers peer conn sent received finished) {control : Control}
    (goes : control.fin = false) (call : Option Call) :
    Sends peer (sendNodata config conn control call) sent received finished := by
  refine ⟨by simpa [Tcp.sendNodata] using offers, fun copy member => ?_⟩
  cases Option.mem_some_iff.mp member
  exact .silent rfl goes

/-- The end of the stream. -/
theorem Offers.sendFin (offers : Offers peer conn sent received finished)
    (ending : conn.tcpstate ∈ [.finWait1, .closing, .lastAck]) (call : Option Call) :
    Sends peer (Tcp.sendNodata config conn { fin := true, ack := true } call) sent received finished := by
  refine ⟨by simpa [Tcp.sendNodata] using offers, fun copy member => ?_⟩
  cases Option.mem_some_iff.mp member
  simp only [Tcp.sendNodata, List.append_nil]
  refine ⟨by simp [tcpSend], by simp [tcpSend], fun _ => ⟨?_, rfl, (offers.ending ending).2⟩⟩
  simp only [Ended, List.mem_cons, List.not_mem_nil, or_false] at ending ⊢
  tauto

/-- In the states without a stream there is nothing to keep to. -/
theorem Offers.afterwards (begins : received <+: sent) (whole : finished = true → received = sent)
    (late : conn.tcpstate ∈ [.finWait2, .timeWait, .closed]) : Offers peer conn sent received finished where
  begins := begins
  opening early := by rcases early with early | early <;> simp [early] at late
  going early := by simp [early] at late
  ending early := by
    simp only [List.mem_cons, List.not_mem_nil, or_false] at early late
    rcases early with early | early | early <;> simp [early] at late
  whole last := by
    refine ⟨whole last, ?_⟩
    simp only [Ended, List.mem_cons, List.not_mem_nil, or_false] at late ⊢
    tauto

/-- The connection ends behind all that has been sent. -/
theorem Offers.closes (begins : received <+: sent) (whole : finished = true → received = sent)
    (ending : conn.tcpstate ∈ [.finWait1, .closing, .lastAck]) (one : conn.len = 1)
    (number : conn.snd_nxt = peer.iss + 1 + UInt32.ofNat sent.length) : Offers peer conn sent received finished where
  begins := begins
  opening early := by rcases early with early | early <;> simp [early] at ending
  going early := by simp [early] at ending
  ending _ := ⟨one, number⟩
  whole last := by
    refine ⟨whole last, ?_⟩
    simp only [Ended, List.mem_cons, List.not_mem_nil, or_false] at ending ⊢
    tauto

theorem Offers.ofEstablished {acked : Nat} (begins : received <+: sent) (unfinished : finished = false)
    (established : conn.tcpstate = .established) (taken : acked ≤ received.length)
    (flight : acked + conn.len.toNat = sent.length) (number : conn.snd_nxt = peer.iss + 1 + UInt32.ofNat acked) :
    Offers peer conn sent received finished where
  begins := begins
  opening early := by simp [established] at early
  going _ := ⟨acked, taken, flight, number⟩
  ending late := by simp [established] at late
  whole last := by simp [unfinished] at last

/-! ## The label `appsend` -/

/-- The places of a connection that is established. -/
theorem inFlight_eq {acked : Nat} (flight : acked + conn.len.toNat = sent.length) :
    inFlight conn sent = sent.drop acked ∧ (inFlight conn sent).length = conn.len.toNat := by
  have place : sent.length - conn.len.toNat = acked := by omega
  rw [inFlight, place, List.length_drop]
  exact ⟨rfl, by omega⟩

/-- What stands in flight is sent again from the packet buffer. -/
theorem Offers.again (offers : Offers peer conn sent received finished) (established : conn.tcpstate = .established)
    {data : List UInt8} (same : inFlight conn sent <+: data) (control : Control) (plain : control.fin = false) :
    Copy peer conn sent (tcpSend config conn control (buffer data stale conn.len.toNat)) := by
  obtain ⟨acked, taken, flight, number⟩ := offers.going established
  obtain ⟨rest, long⟩ := inFlight_eq flight
  have enough : conn.len.toNat ≤ data.length := long ▸ same.length_le
  have whole : buffer data stale conn.len.toNat = sent.drop acked := by
    rw [buffer_eq_take stale enough, ← rest, ← long]
    exact (List.prefix_iff_eq_take.mp same).symm
  rw [whole]
  refine ⟨?_, fun _ => ⟨acked, by omega, number, List.prefix_rfl⟩, fun last => by simp [tcpSend, plain] at last⟩
  rw [tcpSend, ← rest, long]
  exact conn.len.toNat_lt

/-- The application may answer with anything when nothing is in flight, and else with what is. -/
def Free (conn : Conn) (sent : List UInt8) (flags : Flags) (answer : Answer) : Prop :=
  answer.data.length < 2 ^ 16 ∧ (conn.len ≠ 0 → flags.ackdata = false ∧ answer.request ≠ .close ∧
    (answer.data = [] ∨ inFlight conn sent <+: answer.data))

theorem sends_apprexmit (offers : Offers peer conn sent received finished) (established : conn.tcpstate = .established)
    (flags : Flags) (slen : UInt16) (data accepted : List UInt8) (call : Call)
    (same : 0 < slen → 0 < conn.len → inFlight conn sent <+: data) (before : List UInt8)
    (grown : before ++ accepted = sent) :
    Sends peer (apprexmit config stale conn flags slen data accepted call) before received finished := by
  have frame := apprexmit_frame config stale conn flags slen data accepted call
  rw [apprexmit] at frame ⊢
  split_ifs with full empty
  · refine ⟨by simpa [grown] using offers, fun copy member => ?_⟩
    cases Option.mem_some_iff.mp member
    simpa only [grown] using offers.again established (same full.1 full.2) _ rfl
  · refine ⟨by simpa [grown] using offers, fun copy member => ?_⟩
    cases Option.mem_some_iff.mp member
    exact .silent rfl rfl
  · exact ⟨by simpa [grown] using offers, by simp⟩

/-- An application that neither closes nor aborts leaves those flags. -/
theorem flags_behind (flags : Flags) {answer : Answer} (goes : answer.request = .proceed) :
    (flags.behind answer).ackdata = flags.ackdata ∧ (flags.behind answer).abort = flags.abort ∧
      (flags.behind answer).close = flags.close := by
  rw [Flags.behind, goes]
  dsimp only
  split_ifs <;> exact ⟨rfl, rfl, rfl⟩

/-- New data go behind all that has been sent. -/
theorem sends_new (offers : Offers peer conn sent received finished) (established : conn.tcpstate = .established)
    (unfinished : finished = false) (idle : conn.len = 0) {slen : UInt16} {data : List UInt8}
    (enough : slen.toNat ≤ data.length) (flags : Flags) (call : Call) :
    Sends peer
      (apprexmit config stale { conn with len := slen, nrtx := 0 } flags slen data (data.take slen.toNat) call)
      sent received finished := by
  obtain ⟨acked, taken, flight, number⟩ := offers.going established
  have place : acked = sent.length := by simpa [idle] using flight
  have grown : (sent ++ data.take slen.toNat).length = acked + slen.toNat := by
    rw [List.length_append, List.length_take, Nat.min_eq_left enough, place]
  have after : Offers peer { conn with len := slen, nrtx := 0 } (sent ++ data.take slen.toNat) received finished :=
    .ofEstablished (offers.begins.trans (List.prefix_append ..)) unfinished established taken grown.symm number
  refine sends_apprexmit after established _ _ _ _ _ (fun _ _ => ?_) _ rfl
  rw [(inFlight_eq grown.symm).1, place, List.drop_left]
  exact List.take_prefix ..

/-- The answer of the application goes on with what has been sent. -/
theorem sends_appsend (offers : Offers peer conn sent received finished) (established : conn.tcpstate = .established)
    (unfinished : finished = false) {flags : Flags} {answer : Answer} (free : Free conn sent flags answer)
    (fresh : flags.abort = false ∧ flags.close = false) (call : Call) :
    Sends peer (appsend config stale conn (flags.behind answer) answer call) sent received finished := by
  obtain ⟨small, held⟩ := free
  obtain ⟨acked, taken, flight, number⟩ := offers.going established
  have whole : finished = true → received = sent := fun last => (offers.whole last).1
  cases request : answer.request with
  | abort =>
    have aborts : (flags.behind answer).abort = true := by simp [Flags.behind, request]
    simp only [appsend, aborts, if_true]
    exact (Offers.afterwards offers.begins whole (by simp)).sendNodata rfl _
  | close =>
    have stays : (flags.behind answer).abort = false := by simp [Flags.behind, request]
    have closes : (flags.behind answer).close = true := by simp [Flags.behind, request]
    have idle : conn.len = 0 := by
      by_contra some
      exact (held some).2.1 request
    simp only [appsend, stays, closes, if_true, Bool.false_eq_true, if_false]
    have place : acked = sent.length := by simpa [idle] using flight
    exact (Offers.closes offers.begins whole (by simp) rfl (place ▸ number)).sendFin (by simp) _
  | proceed =>
    obtain ⟨ackdata, abort, close⟩ := flags_behind flags request
    rw [fresh.1] at abort
    rw [fresh.2] at close
    simp only [appsend, abort, close, Bool.false_eq_true, if_false, ackdata]
    have length : (UInt16.ofNat answer.data.length).toNat = answer.data.length := by
      rw [UInt16.toNat_ofNat', Nat.mod_eq_of_lt small]
    have counted : ∀ count : UInt8, Offers peer { conn with nrtx := count } sent received finished := fun _ =>
      .ofEstablished offers.begins unfinished established taken flight number
    by_cases idle : conn.len = 0
    · have same : (if flags.ackdata then { conn with len := 0 } else conn) = conn := by
        rw [← idle, ite_self]
      rw [same, if_pos idle]
      split_ifs with gives short
      · refine sends_new offers established unfinished idle ?_ _ _
        exact length ▸ UInt16.le_iff_toNat_le.mp (UInt16.le_of_lt short)
      · exact sends_new offers established unfinished idle length.le _ _
      · exact sends_apprexmit (counted 0) established _ _ _ _ _ (fun gives => absurd gives (lt_irrefl 0)) _
          (List.append_nil _)
    · obtain ⟨unacked, -, again⟩ := held idle
      simp only [unacked, Bool.false_eq_true, if_false, idle]
      split_ifs with gives
      · refine sends_apprexmit (counted 0) established _ _ _ _ _ (fun _ _ => ?_) _ (List.append_nil _)
        refine again.resolve_left fun none => ?_
        simp [none] at gives
      · exact sends_apprexmit (counted 0) established _ _ _ _ _ (fun gives => absurd gives (lt_irrefl 0)) _
          (List.append_nil _)

/-- A call of the application, and what it sends. -/
theorem sends_callAndSend (offers : Offers peer conn sent received finished)
    (established : conn.tcpstate = .established) (unfinished : finished = false) {flags : Flags} {data : List UInt8}
    (free : Free conn sent flags (app ⟨flags, data⟩)) (fresh : flags.abort = false ∧ flags.close = false) :
    Sends peer (callAndSend config app stale conn flags data) sent received finished := by
  rw [callAndSend]
  have flown : Offers peer (conn.flow (app ⟨flags, data⟩).dataflow) sent received finished := by
    obtain ⟨acked, taken, flight, number⟩ := offers.going established
    exact .ofEstablished offers.begins unfinished (by simpa using established) taken (by simpa using flight)
      (by simpa using number)
  refine sends_appsend flown (by simpa using established) unfinished ?_ fresh _
  simpa [Free, inFlight] using free

/-! ## A segment of the peer -/

theorem Offers.unfinished (offers : Offers peer conn sent received finished) (going : ¬Ended conn) :
    finished = false := by
  by_contra last
  exact going (offers.whole (Bool.eq_true_of_not_eq_false last)).2

/-- An acknowledgement of what is in flight says that the peer has all that has been sent. -/
theorem acknowledged (offers : Offers peer conn sent link.received link.finished)
    (sender : FromPeer peer link segment) (short : sent.length + 2 < 2 ^ 32)
    (acks : acknowledges conn segment = true) :
    (conn.tcpstate = .established → link.received = sent) ∧
      (conn.tcpstate ∈ [.finWait1, .closing, .lastAck] → link.finished = true) := by
  simp only [acknowledges, Bool.and_eq_true, decide_eq_true_eq] at acks
  obtain ⟨⟨control, some⟩, number⟩ := acks
  obtain ⟨count, bound, ackno⟩ := sender.ack control
  have fits := offers.begins.length_le
  constructor
  · intro established
    have unfinished : link.finished = false := offers.unfinished (by simp [Ended, established])
    obtain ⟨acked, taken, flight, place⟩ := offers.going established
    have same : peer.iss + 1 + UInt32.ofNat count = peer.iss + 1 + UInt32.ofNat sent.length := by
      rw [← ackno, number, Conn.sndEnd, place, ← flight, ← ofNat_add_assoc, UInt32.ofNat_uInt16ToNat]
    rw [unfinished] at bound
    have whole : count = sent.length := place_inj (by simp at bound; omega) (by omega) same
    exact offers.begins.eq_of_length (by simp at bound; omega)
  · intro ending
    obtain ⟨one, place⟩ := offers.ending ending
    have same : peer.iss + 1 + UInt32.ofNat count = peer.iss + 1 + UInt32.ofNat (sent.length + 1) := by
      rw [← ackno, number, Conn.sndEnd, place, one, ← ofNat_add_assoc]
      rfl
    by_contra open_
    rw [Bool.eq_false_of_not_eq_true open_] at bound
    have behind : count = sent.length + 1 := place_inj (by simp at bound; omega) (by omega) same
    simp at bound
    omega

theorem Offers.acknowledged {after : Conn} (offers : Offers peer conn sent received finished)
    (state : conn.tcpstate = .established) (all : received = sent) (established : after.tcpstate = .established)
    (number : after.snd_nxt = conn.sndEnd) (idle : after.len = 0) : Offers peer after sent received finished := by
  obtain ⟨acked, taken, flight, place⟩ := offers.going state
  refine .ofEstablished offers.begins (offers.unfinished (by simp [Ended, state])) established
    (le_of_eq (congrArg List.length all.symm)) (by simp [idle]) ?_
  rw [number, Conn.sndEnd, place, ← flight, ← ofNat_add_assoc, UInt32.ofNat_uInt16ToNat]

/-- What is asked of the application goes over to the connection that it is called for. -/
theorem Keeps.free {after : Conn} {call : Call} {answer : Answer} (keeps : Keeps conn sent call answer)
    (busy : after.len ≠ 0 → after.len = conn.len ∧ conn.tcpstate = .established ∧ call.flags.ackdata = false) :
    Free after sent call.flags answer := by
  refine ⟨keeps.size, fun some => ?_⟩
  obtain ⟨same, established, unacked⟩ := busy some
  rw [same] at some
  refine ⟨unacked, keeps.close established some unacked, ?_⟩
  simpa only [inFlight, same] using keeps.again established some unacked

theorem sends_inSynSent (offers : Offers peer conn sent received finished) (state : conn.tcpstate = .synSent)
    (keeps : ∀ call, Keeps conn sent call (app call)) (acked : Bool) {after : Conn}
    (number : acked = true → after.snd_nxt = conn.sndEnd) :
    Sends peer (inSynSent config app stale after acked segment) sent received finished := by
  have unfinished : finished = false := offers.unfinished (by simp [Ended, state])
  obtain ⟨empty, first, one⟩ := offers.opening (.inl state)
  rw [inSynSent]
  split_ifs with opened
  · have follows := number opened.1
    rw [Conn.sndEnd, first, one] at follows
    refine sends_callAndSend ?_ rfl unfinished ((keeps _).free (by simp)) ⟨rfl, rfl⟩
    refine .ofEstablished offers.begins unfinished rfl (Nat.zero_le _) (by simp [empty]) ?_
    cases segment.mss <;> simpa using follows
  · refine ⟨?_, ?_⟩
    · simpa [notify] using Offers.afterwards offers.begins (by simp [unfinished]) (by simp)
    · intro copy member
      cases Option.mem_some_iff.mp member
      exact .silent rfl rfl

@[simp] theorem addRcvNxt_tcpstate (conn : Conn) (count : Nat) : (conn.addRcvNxt count).tcpstate = conn.tcpstate := rfl

@[simp] theorem addRcvNxt_snd_nxt (conn : Conn) (count : Nat) : (conn.addRcvNxt count).snd_nxt = conn.snd_nxt := rfl

@[simp] theorem addRcvNxt_len (conn : Conn) (count : Nat) : (conn.addRcvNxt count).len = conn.len := rfl

theorem sends_inEstablished (offers : Offers peer conn sent received finished) (state : conn.tcpstate = .established)
    (acked : Bool) (free : ∀ call : Call, call.flags.ackdata = acked → Free conn sent call.flags (app call)) :
    Sends peer (inEstablished config app stale conn acked segment) sent received finished := by
  have unfinished : finished = false := offers.unfinished (by simp [Ended, state])
  have congr : ∀ after : Conn, after.tcpstate = conn.tcpstate → after.snd_nxt = conn.snd_nxt → after.len = conn.len →
      Offers peer after sent received finished := by
    intro after same number length
    obtain ⟨acked, taken, flight, place⟩ := offers.going state
    exact .ofEstablished offers.begins unfinished (same.trans state) taken (length ▸ flight) (number.trans place)
  rw [inEstablished]
  split_ifs with fin some
  · exact offers.dropped none
  · have idle : conn.len = 0 := not_not.mp some
    obtain ⟨acked, taken, flight, place⟩ := offers.going state
    have whole : acked = sent.length := by simpa [idle] using flight
    simp only [notify]
    refine Offers.sendFin ?_ (by simp) _
    exact .closes offers.begins (by simp [unfinished]) (by simp) rfl (by simp [place, whole])
  · dsimp only
    have kept : ∀ after : Conn, after.len = conn.len → ∀ call : Call, call.flags.ackdata = acked →
        Free after sent call.flags (app call) := by
      intro after length call same
      simpa only [Free, inFlight, length] using free call same
    generalize moved :
      (if segment.data ≠ [] ∧ conn.stopped = false then conn.addRcvNxt segment.data.length else conn) = after
    have same : after.tcpstate = conn.tcpstate ∧ after.snd_nxt = conn.snd_nxt ∧ after.len = conn.len := by
      rw [← moved]
      split_ifs <;> exact ⟨rfl, rfl, rfl⟩
    obtain ⟨kind, number, length⟩ := same
    have left : Offers peer { after with mss := windowMss after segment } sent received finished :=
      congr _ kind number length
    split_ifs
    · refine sends_callAndSend left (kind.trans state) unfinished ?_ ⟨rfl, rfl⟩
      exact kept _ length ⟨{ ackdata := acked, newdata := _ }, _⟩ rfl
    · exact left.dropped none

theorem sends_inFinWait (begins : received <+: sent) (whole : finished = true → received = sent)
    (state : conn.tcpstate = .finWait1 ∨ conn.tcpstate = .finWait2) (acked : Bool)
    (offers : acked = false → Offers peer conn sent received finished) :
    Sends peer (inFinWait config app conn acked segment) sent received finished := by
  have late : ∀ after : Conn, after.tcpstate ∈ [.finWait2, .timeWait, .closed] →
      Offers peer after sent received finished := fun _ => Offers.afterwards begins whole
  have same : conn.tcpstate = .finWait1 → acked = false → ∀ after : Conn, after.tcpstate ∈ [.finWait1, .closing] →
      after.len = conn.len → after.snd_nxt = conn.snd_nxt → Offers peer after sent received finished := by
    intro first unacked after kind length number
    obtain ⟨one, place⟩ := (offers unacked).ending (by simp [first])
    exact .closes begins whole (by simp at kind ⊢; tauto) (length.trans one) (number.trans place)
  obtain first | second := state
  · cases acked with
    | true =>
      have acks : conn.tcpstate = .finWait1 ∧ True := ⟨first, trivial⟩
      simp only [inFinWait, notify, sendAck, addRcvNxt_tcpstate, first, if_true, and_self, reduceCtorEq, if_false]
      split_ifs
      · exact (late _ (by simp)).sendNodata rfl _
      · exact (late _ (by simp)).dropped _
    | false =>
      simp only [inFinWait, notify, sendAck, addRcvNxt_tcpstate, first, Bool.false_eq_true, and_false, reduceCtorEq,
        if_false]
      split_ifs
      · exact (same first rfl _ (by simp) (by simp) (by simp)).sendNodata rfl _
      · exact (same first rfl _ (by simp [first]) (by simp) (by simp)).sendNodata rfl _
      · exact (same first rfl _ (by simp [first]) (by simp) (by simp)).dropped _
  · simp only [inFinWait, notify, sendAck, addRcvNxt_tcpstate, second, if_true, reduceCtorEq, false_and, if_false]
    split_ifs
    · exact (late _ (by simp)).sendNodata rfl _
    · exact (late _ (by simp [second])).sendNodata rfl _
    · exact (late _ (by simp [second])).dropped _

/-- A segment of the peer leaves the stream in order. -/
theorem sends_receive (offers : Offers peer conn sent link.received link.finished)
    (sender : FromPeer peer link segment) (keeps : ∀ call, Keeps conn sent call (app call))
    (short : sent.length + 2 < 2 ^ 32) :
    Sends peer (receive config app stale conn segment) sent link.received link.finished := by
  have whole : link.finished = true → link.received = sent := fun last => (offers.whole last).1
  rw [receive]
  split_ifs
  · exact (Offers.afterwards offers.begins whole (by simp)).dropped _
  · exact offers.sendNodata rfl _
  · dsimp only
    have told := acknowledged offers sender short
    generalize acknowledges conn segment = acked at told ⊢
    have kind : (if acked then conn.acknowledge else conn).tcpstate = conn.tcpstate := by split_ifs <;> simp
    have number : acked = true → (if acked then conn.acknowledge else conn).snd_nxt = conn.sndEnd := by
      intro acks
      simp [acks]
    have length : (if acked then conn.acknowledge else conn).len ≠ 0 →
        (if acked then conn.acknowledge else conn).len = conn.len ∧ acked = false := by
      split_ifs with acks <;> simp [acks]
    have same : acked = false →
        Offers peer (if acked then conn.acknowledge else conn) sent link.received link.finished := by
      intro unacked
      simpa [unacked] using offers
    generalize (if acked then conn.acknowledge else conn) = after at kind number length same ⊢
    cases state : conn.tcpstate with
    | closed =>
      simp only [kind, state]
      exact (Offers.afterwards offers.begins whole (by simp [kind, state])).dropped _
    | synRcvd =>
      simp only [kind, state]
      split_ifs with acks
      · obtain ⟨empty, first, one⟩ := offers.opening (.inr state)
        have unfinished := offers.unfinished (by simp [Ended, state])
        have follows := number acks
        rw [Conn.sndEnd, first, one] at follows
        refine sends_callAndSend ?_ rfl unfinished ((keeps _).free (by simp)) ⟨rfl, rfl⟩
        exact .ofEstablished offers.begins unfinished rfl (Nat.zero_le _) (by simp [empty]) (by simpa using follows)
      · exact (same (by simpa using acks)).dropped _
    | synSent =>
      simp only [kind, state]
      exact sends_inSynSent offers state keeps acked number
    | established =>
      simp only [kind, state]
      refine sends_inEstablished ?_ (kind.trans state) acked fun call told => ?_
      · cases acked with
        | false => exact same rfl
        | true =>
          have idle : after.len = 0 := by simpa using length
          exact offers.acknowledged state ((told rfl).1 state) (kind.trans state) (number rfl) idle
      · refine (keeps call).free fun some => ?_
        exact ⟨(length some).1, state, told.trans (length some).2⟩
    | finWait1 =>
      simp only [kind, state]
      exact sends_inFinWait offers.begins whole (.inl (kind.trans state)) acked same
    | finWait2 =>
      simp only [kind, state]
      exact sends_inFinWait offers.begins whole (.inr (kind.trans state)) acked same
    | closing =>
      simp only [kind, state]
      split_ifs with acks
      · exact (Offers.afterwards offers.begins whole (by simp)).dropped _
      · exact (same (by simpa using acks)).dropped _
    | timeWait =>
      simp only [kind, state]
      exact (Offers.afterwards offers.begins whole (by simp [kind, state])).sendNodata rfl _
    | lastAck =>
      simp only [kind, state]
      split_ifs with acks
      · exact (Offers.afterwards offers.begins whole (by simp [notify])).dropped _
      · exact (same (by simpa using acks)).dropped _

theorem Offers.congr {after : Conn} (offers : Offers peer conn sent received finished)
    (same : after.tcpstate = conn.tcpstate) (number : after.snd_nxt = conn.snd_nxt) (length : after.len = conn.len) :
    Offers peer after sent received finished := by
  have ended : Ended after = Ended conn := by rw [Ended, Ended, same]
  exact ⟨offers.begins, same ▸ number ▸ length ▸ offers.opening, same ▸ number ▸ length ▸ offers.going,
    same ▸ number ▸ length ▸ offers.ending, ended ▸ offers.whole⟩

/-- What is sent again has been sent. -/
theorem sends_retransmit (offers : Offers peer conn sent received finished) (flight : conn.len ≠ 0)
    (keeps : ∀ call, Keeps conn sent call (app call)) :
    Sends peer (retransmit config app stale conn) sent received finished := by
  rw [retransmit]
  split
  case h_1 => exact offers.sendNodata rfl _
  case h_2 => exact offers.sendNodata rfl _
  case h_3 established =>
    have again := (keeps ⟨{ rexmit := true }, []⟩).again established flight rfl
    have flown : Offers peer (conn.flow (app ⟨{ rexmit := true }, []⟩).dataflow) sent received finished :=
      offers.congr (by simp) (by simp) (by simp)
    refine sends_apprexmit flown (by simpa using established) _ _ _ _ _ (fun gives _ => ?_) _ (List.append_nil _)
    rw [inFlight, flow_len]
    refine again.resolve_left fun none => ?_
    simp [none] at gives
  case h_4 state => exact offers.sendFin (by simp [state]) _
  case h_5 state => exact offers.sendFin (by simp [state]) _
  case h_6 state => exact offers.sendFin (by simp [state]) _
  case h_7 => exact offers.dropped _

/-- The timer leaves the stream in order. -/
theorem sends_timer (offers : Offers peer conn sent received finished)
    (keeps : ∀ call, Keeps conn sent call (app call)) :
    Sends peer (timer config app stale conn) sent received finished := by
  have whole : finished = true → received = sent := fun last => (offers.whole last).1
  rw [timer]
  dsimp only
  split_ifs with waiting final closed flight due exhausted polled
  · exact (Offers.afterwards offers.begins whole (by simp)).dropped _
  · have later : Offers peer { conn with timer := conn.timer + 1 } sent received finished := offers.congr rfl rfl rfl
    exact later.dropped _
  · exact offers.dropped _
  · exact (Offers.afterwards offers.begins whole (by simp [notify])).sendNodata rfl _
  · have left : Offers peer conn.countDown.retry sent received finished := offers.congr rfl rfl rfl
    refine sends_retransmit left flight fun call => ?_
    exact ⟨(keeps call).size, (keeps call).again, (keeps call).close⟩
  · have later : Offers peer conn.countDown sent received finished := offers.congr rfl rfl rfl
    exact later.dropped _
  · have unfinished := offers.unfinished (by simp [Ended, polled])
    refine sends_callAndSend offers polled unfinished ((keeps _).free fun some => ?_) ⟨rfl, rfl⟩
    exact absurd flight (not_not.mpr some)
  · exact offers.dropped _

end Sending

end Ethersex.Uip.Tcp
