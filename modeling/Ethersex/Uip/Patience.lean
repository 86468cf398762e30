import Ethersex.Uip.Delivery

/-!
# A peer that is silent

What is in flight is sent again, after pauses that grow, and when nothing comes back the connection is given up.
The tick at which that happens is known in every state that a connection can reach.
-/

namespace Ethersex.Uip.Tcp

open Library

variable {config : Config} {app : Call → Answer} {stale : Bytes} {peer : Peer} {conn : Conn} {segment : Segment}

/-- The two sides are not connected yet. -/
def Opening (conn : Conn) : Prop := conn.tcpstate = .synSent ∨ conn.tcpstate = .synRcvd

instance Opening.decidable (conn : Conn) : Decidable (Opening conn) :=
  inferInstanceAs (Decidable (_ ∨ _))

/-- How often what is in flight is sent again. -/
def limit (conn : Conn) : Nat := if Opening conn then UIP_MAXSYNRTX.toNat else UIP_MAXRTX.toNat

/-- The pause behind a segment that has been sent again `nrtx` times. -/
def backoff (nrtx : Nat) : Nat := 3 * 2 ^ min nrtx 4

/-- How many ticks pass before the connection is given up. -/
def patience (conn : Conn) : Nat := conn.timer.toNat + ∑ k ∈ Finset.Ico conn.nrtx.toNat (limit conn), (backoff k + 1)

/-- The count of what has been sent again stays within its limit. -/
structure Counts (conn : Conn) : Prop where
  few : conn.nrtx.toNat ≤ limit conn
  flows : Opening conn → conn.stopped = false

/-- Something is in flight, and the connection counts the ticks. -/
structure Waiting (conn : Conn) : Prop extends Counts conn where
  flight : conn.len ≠ 0
  active : conn.tcpstate ∈ [.synRcvd, .synSent, .established, .finWait1, .closing, .lastAck]

/-! ## A tick -/

theorem retransmit_keeps (config : Config) (app : Call → Answer) (stale : Bytes) (conn : Conn) :
    let after := (retransmit config app stale conn).conn
    after.tcpstate = conn.tcpstate ∧ after.len = conn.len ∧ after.timer = conn.timer ∧ after.nrtx = conn.nrtx ∧
      (Opening conn → after.stopped = conn.stopped) := by
  have flown : ∀ dataflow, (conn.flow dataflow).timer = conn.timer ∧ (conn.flow dataflow).nrtx = conn.nrtx := by
    intro dataflow
    cases dataflow <;> exact ⟨rfl, rfl⟩
  rw [retransmit]
  split
  case h_3 established =>
    simp only [apprexmit_frame]
    exact ⟨by simp, by simp, (flown _).1, (flown _).2, fun early => by simp [Opening, established] at early⟩
  all_goals exact ⟨rfl, rfl, rfl, rfl, fun _ => rfl⟩

theorem retry_timer (conn : Conn) (few : conn.nrtx.toNat < 8) :
    conn.countDown.retry.timer.toNat = backoff conn.nrtx.toNat ∧
      conn.countDown.retry.nrtx.toNat = conn.nrtx.toNat + 1 := by
  have number : conn.nrtx = UInt8.ofNat conn.nrtx.toNat := UInt8.ofNat_toNat.symm
  generalize conn.nrtx.toNat = count at few number
  simp only [Conn.retry, Conn.countDown, number]
  interval_cases count <;> decide

/-- A connection that waits is in no state with a timer of its own. -/
theorem Waiting.counting (waiting : Waiting conn) :
    ¬(conn.stopped = false ∧ (conn.tcpstate = .timeWait ∨ conn.tcpstate = .finWait2)) ∧
      ¬(conn.tcpstate = .closed ∧ conn.stopped = false) := by
  have active := waiting.active
  constructor
  · rintro ⟨-, state | state⟩ <;> simp [state] at active
  · rintro ⟨state, -⟩
    simp [state] at active

theorem limit_congr {after : Conn} (same : after.tcpstate = conn.tcpstate) : limit after = limit conn := by
  have early : Opening after ↔ Opening conn := by rw [Opening, Opening, same]
  exact if_congr early rfl rfl

/-- The test for the last tick. -/
theorem exhausted_iff (counts : Counts conn) :
    (conn.nrtx = UIP_MAXRTX ∨ (conn.stopped = false ∧ (conn.tcpstate = .synSent ∨ conn.tcpstate = .synRcvd) ∧
      conn.nrtx = UIP_MAXSYNRTX)) ↔ conn.nrtx.toNat = limit conn := by
  have few := counts.few
  rw [limit] at few ⊢
  simp only [← UInt8.toNat_inj]
  split_ifs at few ⊢ with early
  · have flows := counts.flows early
    have most : UIP_MAXSYNRTX.toNat < UIP_MAXRTX.toNat := by decide
    constructor
    · rintro (many | ⟨-, -, many⟩)
      · omega
      · exact many
    · exact fun many => .inr ⟨flows, early, many⟩
  · constructor
    · rintro (many | ⟨-, opening, -⟩)
      · exact many
      · exact absurd opening early
    · exact .inl

/-- Before the last tick the connection goes on waiting. -/
theorem Waiting.tick (waiting : Waiting conn) (config : Config) (app : Call → Answer) (stale : Bytes)
    (left : 0 < patience conn) :
    Waiting (timer config app stale conn).conn ∧
      (timer config app stale conn).conn.tcpstate = conn.tcpstate ∧
      (timer config app stale conn).conn.len = conn.len ∧
      patience (timer config app stale conn).conn + 1 = patience conn := by
  obtain ⟨own, shut⟩ := waiting.counting
  have flight := waiting.flight
  simp only [timer, own, shut, flight, if_false, ne_eq, not_false_eq_true, if_true]
  by_cases due : conn.timer = 0
  · have again : conn.nrtx.toNat < limit conn := by
      by_contra last
      rw [patience, due, Finset.Ico_eq_empty last] at left
      simp at left
    have more : ¬(conn.nrtx = UIP_MAXRTX ∨ (conn.stopped = false ∧
        (conn.tcpstate = .synSent ∨ conn.tcpstate = .synRcvd) ∧ conn.nrtx = UIP_MAXSYNRTX)) := by
      rw [exhausted_iff waiting.toCounts]
      exact again.ne
    have most : limit conn ≤ 8 := by
      rw [limit]
      split_ifs <;> decide
    obtain ⟨pause, count⟩ := retry_timer conn (by omega)
    obtain ⟨state, length, same, number, flows⟩ := retransmit_keeps config app stale conn.countDown.retry
    simp only [due, more, if_true, if_false]
    have bound := limit_congr state
    have before : limit conn.countDown.retry = limit conn := limit_congr rfl
    refine ⟨⟨⟨?_, fun early => ?_⟩, by rwa [length], by rw [state]; exact waiting.active⟩, state, length, ?_⟩
    · rw [number, count, bound, before]
      exact again
    · have opening : Opening conn.countDown.retry := by rwa [Opening, state] at early
      rw [flows opening]
      exact waiting.flows opening
    · rw [patience, patience, same, number, pause, count, bound, before, due,
        Finset.sum_eq_sum_Ico_succ_bot again]
      simp
      omega
  · have some : conn.timer.toNat ≠ 0 := fun zero => due (UInt8.toNat_inj.mp zero)
    have less : (conn.timer - 1).toNat + 1 = conn.timer.toNat := by
      have one : (1 : UInt8) ≤ conn.timer := UInt8.le_iff_toNat_le.mpr (Nat.one_le_iff_ne_zero.mpr some)
      rw [UInt8.toNat_sub_of_le _ _ one]
      exact Nat.sub_add_cancel (Nat.one_le_iff_ne_zero.mpr some)
    simp only [due, if_false, dropped]
    refine ⟨⟨⟨waiting.few, waiting.flows⟩, flight, waiting.active⟩, rfl, rfl, ?_⟩
    have bound : limit conn.countDown = limit conn := limit_congr rfl
    rw [patience, patience, bound]
    simp only [Conn.countDown]
    omega

/-- The last tick: the application is told, and the peer gets a reset. -/
theorem Waiting.lastTick (waiting : Waiting conn) (last : patience conn = 0) :
    (timer config app stale conn).conn.tcpstate = .closed ∧
      (∃ call, (timer config app stale conn).call = some call ∧ call.flags.timedout = true) ∧
      ∃ packet, (timer config app stale conn).packet = some packet ∧
        packet.control = { rst := true, ack := true } := by
  obtain ⟨own, shut⟩ := waiting.counting
  rw [patience, Nat.add_eq_zero_iff] at last
  have due : conn.timer = 0 := UInt8.toNat_inj.mp last.1
  have most : conn.nrtx.toNat = limit conn := by
    by_contra different
    have again : conn.nrtx.toNat < limit conn := by have few := waiting.few; omega
    rw [Finset.sum_eq_sum_Ico_succ_bot again] at last
    omega
  have exhausted := (exhausted_iff waiting.toCounts).mpr most
  simp only [timer, own, shut, waiting.flight, due, exhausted, if_false, ne_eq, not_false_eq_true, if_true, notify,
    sendNodata]
  exact ⟨by simp, ⟨_, rfl, rfl⟩, _, rfl, rfl⟩

/-! ## Runs -/

/-- A call of the application leaves the count, or begins it again. -/
theorem callAndSend_nrtx (conn : Conn) (flags : Flags) (data : List UInt8) :
    (callAndSend config app stale conn flags data).conn.nrtx = conn.nrtx ∨
      (callAndSend config app stale conn flags data).conn.nrtx = 0 := by
  have flown : (conn.flow (app ⟨flags, data⟩).dataflow).nrtx = conn.nrtx := by
    cases (app ⟨flags, data⟩).dataflow <;> rfl
  rw [callAndSend, appsend]
  dsimp only
  split_ifs
  · exact .inl flown
  all_goals exact .inr (by simp [sendNodata, apprexmit_frame])

theorem counts_of_few {after : Conn} (counts : Counts conn) (late : ¬Opening after)
    (few : after.nrtx = conn.nrtx ∨ after.nrtx = 0) : Counts after where
  few := by
    have bound := counts.few
    have most : limit conn ≤ UIP_MAXRTX.toNat := by
      rw [limit]
      split_ifs <;> decide
    rw [limit, if_neg late]
    rcases few with same | none
    · rw [same]
      omega
    · simp [none]
  flows early := absurd early late

theorem counts_same {after : Conn} (counts : Counts conn) (state : after.tcpstate = conn.tcpstate)
    (flow : after.stopped = conn.stopped) (count : after.nrtx = conn.nrtx) : Counts after where
  few := by
    rw [count, limit_congr state]
    exact counts.few
  flows early := by
    rw [flow]
    exact counts.flows (by rwa [Opening, state] at early)

theorem counts_callAndSend {after : Conn} (counts : Counts conn) (state : after.tcpstate = .established)
    (count : after.nrtx = conn.nrtx) (flags : Flags) (data : List UInt8) :
    Counts (callAndSend config app stale after flags data).conn := by
  have frame := (appsend_frame config stale (after.flow (app ⟨flags, data⟩).dataflow)
    (flags.behind (app ⟨flags, data⟩)) (app ⟨flags, data⟩) ⟨flags, data⟩).2.2
  rw [flow_tcpstate, state] at frame
  refine counts_of_few counts ?_ ?_
  · rw [Opening, callAndSend]
    rintro (early | early) <;> simp [early] at frame
  · exact count ▸ callAndSend_nrtx after flags data

@[simp] theorem flow_nrtx (conn : Conn) (dataflow : Dataflow) : (conn.flow dataflow).nrtx = conn.nrtx := by
  cases dataflow <;> rfl

@[simp] theorem enter_nrtx (conn : Conn) (state : TcpState) : (conn.enter state).nrtx = conn.nrtx := rfl

@[simp] theorem addRcvNxt_nrtx (conn : Conn) (count : Nat) : (conn.addRcvNxt count).nrtx = conn.nrtx := rfl

theorem counts_inFinWait {after : Conn} (counts : Counts conn)
    (state : after.tcpstate = .finWait1 ∨ after.tcpstate = .finWait2) (count : after.nrtx = conn.nrtx) (acked : Bool) :
    Counts (inFinWait config app after acked segment).conn := by
  have late : after.tcpstate ≠ .synSent ∧ after.tcpstate ≠ .synRcvd := by
    rcases state with state | state <;> simp [state]
  rw [inFinWait]
  dsimp only
  split_ifs
  all_goals
    refine counts_of_few counts ?_ (.inl ?_)
    · simp [Opening, notify, sendAck, sendNodata, dropped, late]
    · simpa [notify, sendAck, sendNodata, dropped] using count

/-- A segment leaves the count within its limit. -/
theorem counts_receive (counts : Counts conn) : Counts (receive config app stale conn segment).conn := by
  have told : ∀ (after : Conn) (flags : Flags) (data : List UInt8), ¬Opening after →
      after.nrtx = conn.nrtx ∨ after.nrtx = 0 → Counts (notify app after flags data).1 := by
    intro after flags data late few
    refine counts_of_few counts ?_ ?_
    · simpa [notify, Opening] using late
    · simpa [notify, flow_nrtx] using few
  rw [receive]
  split_ifs
  · exact told _ _ _ (by simp [Opening]) (.inl rfl)
  · exact counts
  · dsimp only
    generalize acknowledges conn segment = acked
    have kind : (if acked then conn.acknowledge else conn).tcpstate = conn.tcpstate := by split_ifs <;> simp
    have flow : (if acked then conn.acknowledge else conn).stopped = conn.stopped := by split_ifs <;> simp
    have count : (if acked then conn.acknowledge else conn).nrtx = conn.nrtx := by
      split_ifs
      · rw [Conn.acknowledge]
        split_ifs <;> rfl
      · rfl
    generalize (if acked then conn.acknowledge else conn) = after at kind flow count ⊢
    have same : Counts after := counts_same counts kind flow count
    cases state : conn.tcpstate with
    | closed =>
      simp only [kind, state]
      exact same
    | synRcvd =>
      simp only [kind, state]
      split_ifs
      · refine counts_callAndSend counts ?_ ?_ _ _
        · rfl
        · exact count
      · exact same
    | synSent =>
      simp only [kind, state]
      rw [inSynSent]
      split_ifs
      · refine counts_callAndSend counts ?_ ?_ _ _
        · cases segment.mss <;> rfl
        · cases segment.mss <;> exact count
      · refine counts_of_few counts (by simp [Opening]) (.inl ?_)
        simpa [notify, Conn.enter, flow_nrtx] using count
    | established =>
      simp only [kind, state]
      rw [inEstablished]
      split_ifs
      · exact same
      · exact counts_of_few counts (by simp [Opening, notify, sendNodata]) (.inr rfl)
      · have established := kind.trans state
        dsimp only
        split_ifs
        · refine counts_callAndSend counts ?_ ?_ _ _
          · exact established
          · exact count
        · refine counts_callAndSend counts ?_ ?_ _ _
          · exact established
          · exact count
        · exact counts_of_few counts (by simp [Opening, dropped, established]) (.inl count)
        · exact counts_of_few counts (by simp [Opening, dropped, established]) (.inl count)
    | finWait1 =>
      simp only [kind, state]
      exact counts_inFinWait counts (.inl (kind.trans state)) count acked
    | finWait2 =>
      simp only [kind, state]
      exact counts_inFinWait counts (.inr (kind.trans state)) count acked
    | closing =>
      simp only [kind, state]
      split_ifs
      · exact counts_of_few counts (by simp [Opening, dropped]) (.inl count)
      · exact same
    | timeWait =>
      simp only [kind, state]
      exact same
    | lastAck =>
      simp only [kind, state]
      split_ifs
      · exact told _ _ _ (by simp [Opening]) (.inl count)
      · exact same

/-- A tick leaves the count within its limit. -/
theorem counts_timer (counts : Counts conn) : Counts (timer config app stale conn).conn := by
  rw [timer]
  dsimp only
  split_ifs with own final shut flight due exhausted polled
  · exact counts_of_few counts (by simp [Opening, dropped]) (.inl rfl)
  · exact counts_same counts rfl rfl rfl
  · exact counts
  · refine counts_of_few counts (by simp [Opening, notify, sendNodata]) (.inl ?_)
    simp [notify, sendNodata, Conn.countDown]
  · rw [exhausted_iff counts] at exhausted
    have again : conn.nrtx.toNat < limit conn := by have few := counts.few; omega
    have most : limit conn ≤ 8 := by
      rw [limit]
      split_ifs <;> decide
    obtain ⟨-, count⟩ := retry_timer conn (by omega)
    obtain ⟨state, -, -, number, flows⟩ := retransmit_keeps config app stale conn.countDown.retry
    refine ⟨?_, fun early => ?_⟩
    · rw [number, count, limit_congr state]
      exact again
    · have opening : Opening conn.countDown.retry := by rwa [Opening, state] at early
      rw [flows opening]
      exact counts.flows opening
  · exact counts_same counts rfl rfl rfl
  · exact counts_callAndSend counts polled rfl _ _
  · exact counts

theorem counts_next {link : Link} (counts : Counts link.conn) (event : Event) :
    Counts (link.next config peer event).conn := by
  cases event with
  | segment segment app stale => exact counts_receive counts
  | timer app stale => exact counts_timer counts
  | taken copy count =>
    rw [Link.next]
    split
    · rw [Link.take]
      split_ifs <;> exact counts
    · exact counts

theorem counts_run (config : Config) (peer : Peer) {link : Link} (counts : Counts link.conn) (events : List Event) :
    Counts (Link.run config peer link events).conn := by
  rw [Link.run]
  induction events generalizing link with
  | nil => exact counts
  | cons event rest ih => exact ih (counts_next counts event)

theorem counts_opened {conn : Conn} (opened : Opened config peer conn) : Counts conn := by
  obtain ⟨old, syn, -, rfl⟩ | ⟨old, rfl⟩ := opened
  · exact ⟨Nat.zero_le _, fun _ => rfl⟩
  · exact ⟨Nat.zero_le _, fun _ => rfl⟩

/-- The connection after ticks without a segment. -/
def silence (config : Config) (conn : Conn) (ticks : List ((Call → Answer) × Bytes)) : Conn :=
  ticks.foldl (fun conn tick => (timer config tick.1 tick.2 conn).conn) conn

theorem Waiting.silence (waiting : Waiting conn) (config : Config) (ticks : List ((Call → Answer) × Bytes))
    (few : ticks.length ≤ patience conn) :
    Waiting (silence config conn ticks) ∧ (silence config conn ticks).tcpstate = conn.tcpstate ∧
      (silence config conn ticks).len = conn.len ∧
      patience (silence config conn ticks) + ticks.length = patience conn := by
  induction ticks generalizing conn with
  | nil => exact ⟨waiting, rfl, rfl, rfl⟩
  | cons tick rest ih =>
    rw [List.length_cons] at few
    obtain ⟨goes, state, length, less⟩ := waiting.tick config tick.1 tick.2 (by omega)
    obtain ⟨after, kind, size, left⟩ := ih goes (by omega)
    refine ⟨after, kind.trans state, size.trans length, ?_⟩
    rw [List.length_cons]
    have here : Tcp.silence config conn (tick :: rest) =
      Tcp.silence config (timer config tick.1 tick.2 conn).conn rest := rfl
    rw [here]
    omega

theorem patience_le (conn : Conn) : patience conn ≤ conn.timer.toNat + 245 := by
  have all : ∑ k ∈ Finset.Ico 0 8, (backoff k + 1) = 245 := by decide
  have most : limit conn ≤ 8 := by
    rw [limit]
    split_ifs <;> decide
  rw [patience, ← all]
  refine Nat.add_le_add_left (Finset.sum_le_sum_of_subset ?_) _
  exact Finset.Ico_subset_Ico (Nat.zero_le _) most

/-- In every state that a connection reaches with something in flight, whatever it has got: when nothing comes any
more, the connection stays as it is for `patience` ticks, which are 245 more than its timer says at most; and
with the next tick it is closed, the application is told, and the peer gets a reset. -/
theorem silence_gives_up {conn : Conn} (opened : Opened config peer conn) (events : List Event)
    (flight : (Link.run config peer (.opened conn) events).conn.len ≠ 0)
    (active : (Link.run config peer (.opened conn) events).conn.tcpstate ∈
      [.synRcvd, .synSent, .established, .finWait1, .closing, .lastAck])
    (ticks : List ((Call → Answer) × Bytes)) (app : Call → Answer) (stale : Bytes) :
    let reached := (Link.run config peer (.opened conn) events).conn
    let step := timer config app stale (silence config reached ticks)
    patience reached ≤ reached.timer.toNat + 245 ∧
      (ticks.length ≤ patience reached → (silence config reached ticks).tcpstate = reached.tcpstate ∧
        (silence config reached ticks).len = reached.len) ∧
      (ticks.length = patience reached → step.conn.tcpstate = .closed ∧
        (∃ call, step.call = some call ∧ call.flags.timedout = true) ∧
        ∃ packet, step.packet = some packet ∧ packet.control = { rst := true, ack := true }) := by
  have counts : Counts (Link.run config peer (.opened conn) events).conn :=
    counts_run config peer (counts_opened opened) events
  have waiting : Waiting (Link.run config peer (.opened conn) events).conn := ⟨counts, flight, active⟩
  refine ⟨patience_le _, fun few => ?_, fun last => ?_⟩
  · obtain ⟨-, state, length, -⟩ := waiting.silence config ticks few
    exact ⟨state, length⟩
  · obtain ⟨after, -, -, left⟩ := waiting.silence config ticks last.le
    exact after.lastTick (by omega)

theorem silence_gives_up_talk :
    patience talkConn = 101 ∧ ∀ (ticks : List ((Call → Answer) × Bytes)) (app : Call → Answer) (stale : Bytes),
      ticks.length = 101 → (timer talkConfig app stale (silence talkConfig talkConn ticks)).conn.tcpstate = .closed := by
  have pause : patience talkConn = 101 := by decide
  refine ⟨pause, fun ticks app stale last => ?_⟩
  have given := silence_gives_up talkConn_opened [] (by decide) (by decide) ticks app stale
  exact (given.2.2 (last.trans pause.symm)).1

end Ethersex.Uip.Tcp
