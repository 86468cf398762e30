import Mathlib
import Ethersex.Library.Walks
import Ethersex.Yport.Model

/-!
# From the port to the network

What the client has taken and what the receive buffer still holds for it are the bytes that arrived on
the port, as long as an acknowledgement finds noted in `sent` how much is in flight.  `sent` is wrong
behind a retransmission for which more had arrived, and when more was handed over than a segment holds.
-/

namespace Ethersex.Yport

open Library Uip

section Runs

variable {Conn : Type}

namespace State

/-! ## What is to hold, and when -/

/-- The connected client has taken the bytes that arrived, in order, up to those that are left in the
receive buffer. -/
structure Forwarded (s : State Conn) : Prop where
  ordered : ∀ conn, s.yport_conn = some conn → (s.flow conn).status = .established →
    ∃ rest, rest <:+ s.yport_recv_buffer.text ∧ s.received = s.earlier ++ (s.flow conn).stream ++ rest
  complete : ∀ conn, s.yport_conn = some conn → (s.flow conn).status = .established →
    s.yport_recv_buffer.len = 0 → s.received = s.earlier ++ (s.flow conn).stream

/-- An acknowledgement of the client covers what `sent` says. -/
def Covered [DecidableEq Conn] (s : State Conn) (conn : Conn) (ack : Bool) : Prop :=
  s.yport_conn = some conn → s.acks conn ack = true → s.yport_recv_buffer.sent = (s.flow conn).len

/-- The receive buffer does not overflow, and acknowledgements cover what `sent` says. -/
def Matched [DecidableEq Conn] (s : State Conn) : Event Conn → Prop
  | .byte _ error => error = false → s.yport_recv_buffer.len < YPORT_BUFFER_LEN
  | .packet conn ack _ _ _ => s.Ready → (s.flow conn).status = .established → s.Covered conn ack
  | .fin conn ack _ => s.Ready → (s.flow conn).status = .established → s.stopped conn = false →
      s.Covered conn ack
  | _ => True

/-- The receive buffer holds what arrived last, and the segment in flight to the client is what it
begins with. -/
structure Held (s : State Conn) : Prop where
  short : s.yport_recv_buffer.len ≤ YPORT_BUFFER_LEN
  last : s.yport_recv_buffer.text <:+ s.received
  exists_ : ∀ conn, s.yport_conn = some conn → (s.flow conn).status ≠ .closed
  client : ∀ conn, s.yport_conn = some conn → (s.flow conn).status = .established →
    (s.flow conn).Carries s.yport_recv_buffer.text ∧
      s.received = s.earlier ++ ((s.flow conn).stream ++ (s.flow conn).rest s.yport_recv_buffer.text)

theorem Held.forwarded {s : State Conn} (held : s.Held) : s.Forwarded where
  ordered := by
    intro conn owner established
    obtain ⟨-, received⟩ := held.client conn owner established
    exact ⟨_, Flow.rest_suffix .., by rw [received, List.append_assoc]⟩
  complete := by
    intro conn owner established empty
    obtain ⟨-, received⟩ := held.client conn owner established
    have nothing : s.yport_recv_buffer.text = [] := by
      rw [← List.length_eq_zero_iff, Buffer.length_text, empty]
    have rest := Flow.rest_suffix (s.flow conn) s.yport_recv_buffer.text
    rw [nothing] at rest
    rw [received, nothing, List.suffix_nil.mp rest, List.append_nil]

theorem held_start (send recv : Bytes) : (start send recv : State Conn).Held where
  short := Nat.zero_le _
  last := List.suffix_rfl
  exists_ := fun _ owner => absurd owner.symm (Option.some_ne_none _)
  client := fun _ owner => absurd owner.symm (Option.some_ne_none _)

/-! ## Steps that leave the receive buffer alone -/

variable {s : State Conn}

/-- The receive buffer and the owner are the same, and so is the connection of the owner. -/
structure SameClient (s next : State Conn) : Prop where
  owner : next.yport_conn = s.yport_conn
  buffer : next.yport_recv_buffer = s.yport_recv_buffer
  received : next.received = s.received
  earlier : next.earlier = s.earlier
  flow : ∀ conn, s.yport_conn = some conn → next.flow conn = s.flow conn

theorem SameClient.refl (s : State Conn) : s.SameClient s := ⟨rfl, rfl, rfl, rfl, fun _ _ => rfl⟩

theorem SameClient.trans {middle next : State Conn} (first : s.SameClient middle)
    (second : middle.SameClient next) : s.SameClient next where
  owner := second.owner.trans first.owner
  buffer := second.buffer.trans first.buffer
  received := second.received.trans first.received
  earlier := second.earlier.trans first.earlier
  flow := fun conn own => (second.flow conn (first.owner.trans own)).trans (first.flow conn own)

theorem Held.same (held : s.Held) {next : State Conn} (same : s.SameClient next) : next.Held := by
  obtain ⟨owner, buffer, received, earlier, flow⟩ := same
  constructor
  · rw [buffer]
    exact held.short
  · rw [buffer, received]
    exact held.last
  · intro conn own
    rw [owner] at own
    rw [flow conn own]
    exact held.exists_ conn own
  · intro conn own established
    rw [owner] at own
    rw [flow conn own] at established ⊢
    rw [buffer, received, earlier]
    exact held.client conn own established

/-- A byte arrives. -/
theorem Held.rxVect (held : s.Held) {ch : UInt8} {error : Bool}
    (room : error = false → s.yport_recv_buffer.len < YPORT_BUFFER_LEN) : (s.rxVect ch error).Held := by
  cases error with
  | true => exact held
  | false =>
      have room := room rfl
      unfold State.rxVect
      rw [if_neg Bool.false_ne_true]
      dsimp only
      rw [if_pos room]
      have text := Buffer.text_concat ch s.yport_recv_buffer
      obtain ⟨gone, last⟩ := held.last
      constructor
      · exact room
      · exact ⟨gone, by rw [text, ← List.append_assoc, last]⟩
      · exact held.exists_
      · intro conn owner established
        obtain ⟨carries, received⟩ := held.client conn owner established
        change (s.flow conn).Carries (Buffer.text _) ∧
          s.received ++ [ch] = s.earlier ++ ((s.flow conn).stream ++ (s.flow conn).rest (Buffer.text _))
        rw [text]
        refine ⟨carries.append [ch], ?_⟩
        rw [carries.rest_append, received]
        simp only [List.append_assoc]

theorem sameClient_txVect (s : State Conn) : s.SameClient s.txVect := by
  unfold txVect
  dsimp only
  split_ifs <;> exact ⟨rfl, rfl, rfl, rfl, fun _ _ => rfl⟩

theorem sameClient_acknowledge (data : List UInt8) (s : State Conn) : s.SameClient (s.acknowledge data) := by
  unfold acknowledge
  split_ifs <;> exact ⟨rfl, rfl, rfl, rfl, fun _ _ => rfl⟩

theorem flow_acknowledge (data : List UInt8) (s : State Conn) : (s.acknowledge data).flow = s.flow := by
  unfold acknowledge
  split_ifs <;> rfl

/-- The client has gone. -/
theorem Held.leave (held : s.Held) {next : State Conn} (gone : next.yport_conn = none)
    (buffer : next.yport_recv_buffer = s.yport_recv_buffer) (received : next.received = s.received) :
    next.Held where
  short := buffer ▸ held.short
  last := by
    rw [buffer, received]
    exact held.last
  exists_ := fun _ own => absurd (own.symm.trans gone) (Option.some_ne_none _)
  client := fun _ own => absurd (own.symm.trans gone) (Option.some_ne_none _)

section Connections

variable [DecidableEq Conn]

theorem sameClient_yportRxstart (call : Call Conn) (s : State Conn) : s.SameClient (s.yportRxstart call) := by
  unfold yportRxstart
  dsimp only
  split
  · split_ifs <;> exact ⟨rfl, rfl, rfl, rfl, fun _ _ => rfl⟩
  all_goals exact ⟨rfl, rfl, rfl, rfl, fun _ _ => rfl⟩

/-- The peer of a connection takes a copy. -/
theorem Held.take (held : s.Held) (conn : Conn) (k : Nat) : (s.change conn (Flow.take k)).Held := by
  have flow (other : Conn) : (s.change conn (Flow.take k)).flow other =
      if other = conn then (s.flow conn).take k else s.flow other := Function.update_apply ..
  constructor
  · exact held.short
  · exact held.last
  · intro other owner
    rw [flow]
    split_ifs with here
    · rw [Flow.status_take]
      exact held.exists_ conn (here ▸ owner)
    · exact held.exists_ other owner
  · intro other owner established
    rw [flow] at established ⊢
    split_ifs with here
    · rw [if_pos here, Flow.status_take] at established
      obtain ⟨carries, received⟩ := held.client conn (here ▸ owner) established
      exact ⟨carries.take k, received.trans (by rw [← carries.stream_take k]; rfl)⟩
    · rw [if_neg here] at established
      exact held.client other owner established

/-! ## The program -/

variable {f : Flags} {conn : Conn} {data : List UInt8} {mss : Nat} {stale : Bytes}

theorem flow_change_self (conn : Conn) (next : Flow → Flow) (s : State Conn) :
    (s.change conn next).flow conn = next (s.flow conn) := Function.update_self ..

/-- Another connection than that of the client changes. -/
theorem sameClient_change (other : s.yport_conn ≠ some conn) (next : Flow → Flow) :
    s.SameClient (s.change conn next) where
  owner := rfl
  buffer := rfl
  received := rfl
  earlier := rfl
  flow := by
    intro owner own
    refine Function.update_of_ne (fun same => other ?_) _ _
    rw [own, same]

theorem sameClient_restart (f : Flags) (conn : Conn) (s : State Conn) : s.SameClient (s.restart f conn) := by
  unfold restart
  split_ifs <;> exact ⟨rfl, rfl, rfl, rfl, fun _ _ => rfl⟩

/-- Other connections have nothing to do with the client. -/
theorem sameClient_yportNetMain (other : s.yport_conn ≠ some conn)
    (taken : f.connected = true → s.yport_conn ≠ none) (data : List UInt8) :
    s.SameClient (s.yportNetMain f conn data).1 := by
  have handled : s.SameClient (s.handle f conn data).1 := by
    unfold handle
    split_ifs with connected free
    · exact absurd free (taken connected)
    · exact .refl s
    · exact .refl s
    · exact .refl s
    · exact ⟨rfl, rfl, rfl, rfl, fun _ _ => rfl⟩
    · exact .refl s
  have same := handled.trans (sameClient_restart f conn _)
  have still : ((s.handle f conn data).1.restart f conn).yport_conn ≠ some conn := by
    rw [same.owner]
    exact other
  unfold yportNetMain
  dsimp only
  rw [if_neg fun serves => still serves.2.1]
  exact same

/-- What a call for the client leaves: its data, which begin with what is sent. -/
structure Served (s next : State Conn) (conn : Conn) (queue : List UInt8) : Prop where
  owner : next.yport_conn = some conn
  received : next.received = s.received
  earlier : next.earlier = s.earlier
  flow : next.flow = s.flow
  short : next.yport_recv_buffer.len ≤ YPORT_BUFFER_LEN
  text : next.yport_recv_buffer.text = queue

/-- The last part of `yport_net_main`. -/
theorem served_of_handle {queue : List UInt8} (handled : s.Served (s.handle f conn data).1 conn queue)
    (silent : (s.handle f conn data).2 = .silent) (serves : f.poll = true ∨ f.acked = true ∨ f.rexmit = true) :
    s.Served (s.yportNetMain f conn data).1 conn queue ∧ Flow.Offers (s.yportNetMain f conn data).2 queue := by
  have restarted : s.Served ((s.handle f conn data).1.restart f conn) conn queue := by
    unfold restart
    split_ifs
    · exact ⟨handled.owner, handled.received, handled.earlier, handled.flow, handled.short, handled.text⟩
    · exact handled
  unfold yportNetMain
  dsimp only
  split_ifs with sends
  · exact ⟨⟨restarted.owner, restarted.received, restarted.earlier, restarted.flow, restarted.short,
      restarted.text⟩, .inl (congrArg Reply.send restarted.text)⟩
  · refine ⟨restarted, .inr ⟨silent, ?_⟩⟩
    have empty := Nat.eq_zero_of_not_pos fun positive => sends ⟨serves, restarted.owner, positive⟩
    rw [← restarted.text, ← List.length_eq_zero_iff, Buffer.length_text, empty]

/-- A poll or a retransmission. -/
theorem served_of_asked (short : s.yport_recv_buffer.len ≤ YPORT_BUFFER_LEN) (own : s.yport_conn = some conn)
    (plain : f.connected = false ∧ f.acked = false ∧ f.closed = false ∧ f.newdata = false)
    (asked : f.poll = true ∨ f.rexmit = true) (data : List UInt8) :
    s.Served (s.yportNetMain f conn data).1 conn s.yport_recv_buffer.text ∧
      Flow.Offers (s.yportNetMain f conn data).2 s.yport_recv_buffer.text := by
  obtain ⟨connected, acked, closed, newdata⟩ := plain
  have handled : s.handle f conn data = (s, .silent) := by
    unfold handle
    simp [connected, acked, closed, newdata]
  refine served_of_handle ?_ (by rw [handled]) (asked.imp_right .inr)
  rw [handled]
  exact ⟨own, rfl, rfl, rfl, short, rfl⟩

/-- An acknowledgement. -/
theorem served_of_acked (short : s.yport_recv_buffer.len ≤ YPORT_BUFFER_LEN)
    (own : s.yport_conn = some conn) (connected : f.connected = false)
    (acked : f.acked = true) (covered : s.yport_recv_buffer.sent ≤ s.yport_recv_buffer.len)
    (data : List UInt8) :
    s.Served (s.yportNetMain f conn data).1 conn
        (s.yport_recv_buffer.text.drop s.yport_recv_buffer.sent) ∧
      Flow.Offers (s.yportNetMain f conn data).2
        (s.yport_recv_buffer.text.drop s.yport_recv_buffer.sent) := by
  have left : (s.yport_recv_buffer.len + 256 - s.yport_recv_buffer.sent) % 256 =
      s.yport_recv_buffer.len - s.yport_recv_buffer.sent := by
    have limit := short
    rw [YPORT_BUFFER_LEN] at limit
    omega
  have handled : s.handle f conn data = ({ s with
      yport_recv_buffer := ({ s.yport_recv_buffer with
        len := s.yport_recv_buffer.len - s.yport_recv_buffer.sent } : Buffer).move s.yport_recv_buffer.sent
          (s.yport_recv_buffer.len - s.yport_recv_buffer.sent) }, .silent) := by
    unfold handle
    rw [connected, acked, if_neg Bool.false_ne_true, if_pos rfl, if_neg (not_not.mpr own)]
    dsimp only
    rw [left]
  refine served_of_handle ?_ (by rw [handled]) (.inr (.inl acked))
  rw [handled]
  exact ⟨own, rfl, rfl, rfl, (Nat.sub_le _ _).trans short, Buffer.text_shift short covered⟩

/-- New data have nothing to do with the receive buffer. -/
theorem yportNetMain_newdata (plain : f.connected = false ∧ f.acked = false ∧ f.closed = false)
    (unasked : f.poll = false ∧ f.rexmit = false) (conn : Conn) (data : List UInt8) (s : State Conn) :
    s.SameClient (s.yportNetMain f conn data).1 ∧ (s.yportNetMain f conn data).2 = .silent := by
  obtain ⟨connected, acked, closed⟩ := plain
  obtain ⟨poll, rexmit⟩ := unasked
  have handled : s.SameClient (s.handle f conn data).1 ∧ (s.handle f conn data).2 = .silent := by
    unfold handle
    rw [connected, acked, closed, if_neg Bool.false_ne_true, if_neg Bool.false_ne_true,
      if_neg Bool.false_ne_true]
    split_ifs <;> exact ⟨⟨rfl, rfl, rfl, rfl, fun _ _ => rfl⟩, rfl⟩
  unfold yportNetMain
  dsimp only
  rw [if_neg (by rw [poll, acked, rexmit]; simp)]
  exact ⟨handled.1.trans (sameClient_restart f conn _), handled.2⟩

/-! ## Calls -/

/-- The client is given what its data begin with. -/
theorem Served.held {queue : List UInt8} {next : State Conn} (served : s.Served next conn queue)
    (last : queue <:+ s.received) {change : Flow → Flow} (open_ : (change (s.flow conn)).status ≠ .closed)
    (client : (change (s.flow conn)).status = .established → (change (s.flow conn)).Carries queue ∧
      s.received = s.earlier ++ ((change (s.flow conn)).stream ++ (change (s.flow conn)).rest queue)) :
    (next.change conn change).Held := by
  have here : (next.change conn change).flow conn = change (s.flow conn) := by
    rw [← served.flow]
    exact Function.update_self ..
  constructor
  · exact served.short
  · change next.yport_recv_buffer.text <:+ next.received
    rw [served.text, served.received]
    exact last
  · intro other own
    obtain rfl := Option.some.inj (served.owner.symm.trans own)
    rw [here]
    exact open_
  · intro other own established
    obtain rfl := Option.some.inj (served.owner.symm.trans own)
    rw [here] at established ⊢
    change _ ∧ next.received = next.earlier ++ _
    change Flow.Carries _ next.yport_recv_buffer.text ∧ _ = _ ++ (_ ++ Flow.rest _ next.yport_recv_buffer.text)
    rw [served.text, served.received, served.earlier]
    exact client established

/-- The client is given its data when nothing is in flight, or what is in flight once more. -/
theorem Held.offer (held : s.Held) (own : s.yport_conn = some conn)
    (established : (s.flow conn).status = .established) {next : State Conn} {change : Flow → Flow}
    (served : s.Served next conn s.yport_recv_buffer.text)
    (continues : (s.flow conn).Carries s.yport_recv_buffer.text →
      (s.flow conn).Continues (change (s.flow conn)) s.yport_recv_buffer.text) :
    (next.change conn change).Held := by
  obtain ⟨carries, received⟩ := held.client conn own established
  have continues := continues carries
  refine served.held held.last ?_ fun _ => ⟨continues.carries, ?_⟩
  · rw [continues.status]
    exact held.exists_ conn own
  · rw [continues.stream, continues.rest]
    exact received

theorem Held.poll (held : s.Held) (conn : Conn) (mss : Nat) (stale : Bytes) :
    (s.network (.poll conn mss stale)).Held := by
  unfold State.network
  dsimp only
  split_ifs with idle
  · exact held
  obtain ⟨established, nothing⟩ := not_or.mp idle
  unfold callback
  dsimp only
  by_cases own : s.yport_conn = some conn
  · obtain ⟨served, offers⟩ := served_of_asked (f := { poll := true }) held.short own ⟨rfl, rfl, rfl, rfl⟩
      (.inl rfl) []
    exact held.offer own (not_not.mp established) served fun carries =>
      carries.answer (not_not.mp nothing) false mss stale offers
  · have same := sameClient_yportNetMain (f := { poll := true }) own
      (fun connected => absurd connected Bool.false_ne_true) []
    exact held.same (same.trans (sameClient_change (same.owner ▸ own) _))

theorem Held.rexmit (held : s.Held) (conn : Conn) (stale : Bytes) :
    (s.network (.rexmit conn stale)).Held := by
  unfold State.network
  dsimp only
  split_ifs with idle
  · exact held
  obtain ⟨established, flying⟩ := not_or.mp idle
  by_cases own : s.yport_conn = some conn
  · obtain ⟨served, offers⟩ := served_of_asked (f := { rexmit := true }) held.short own ⟨rfl, rfl, rfl, rfl⟩
      (.inr rfl) []
    exact held.offer own (not_not.mp established) served fun carries => carries.again flying stale offers
  · have same := sameClient_yportNetMain (f := { rexmit := true }) own
      (fun connected => absurd connected Bool.false_ne_true) []
    exact held.same (same.trans (sameClient_change (same.owner ▸ own) _))

theorem sameClient_acked (other : s.yport_conn ≠ some conn) (ack : Bool) : s.SameClient (s.acked conn ack) := by
  unfold acked
  split_ifs
  · exact sameClient_change other _
  · exact .refl s

/-- The client has acknowledged a segment, and the data behind it are given to it. -/
theorem Held.acked {ack : Bool} (held : s.Held) (own : s.yport_conn = some conn)
    (established : (s.flow conn).status = .established) (acks : s.acks conn ack = true)
    (covered : s.yport_recv_buffer.sent = (s.flow conn).len) (data : List UInt8) {f : Flags}
    (connected : f.connected = false) (acked : f.acked = true) :
    ∃ queue, queue <:+ s.received ∧
      ((s.acked conn ack).acknowledge data).Served
        (((s.acked conn ack).acknowledge data).yportNetMain f conn data).1 conn queue ∧
      Flow.Offers (((s.acked conn ack).acknowledge data).yportNetMain f conn data).2 queue ∧
      ((s.acked conn ack).acknowledge data).flow conn = (s.flow conn).acknowledge ∧
      s.received = s.earlier ++ ((s.flow conn).stream ++ (s.flow conn).acknowledge.rest queue) := by
  obtain ⟨carries, received⟩ := held.client conn own established
  have same := sameClient_acknowledge data (s.acked conn ack)
  have after : s.acked conn ack = s.change conn Flow.acknowledge := if_pos acks
  have taken : (s.flow conn).taken = true := (of_decide_eq_true acks).2.2
  have buffer : ((s.acked conn ack).acknowledge data).yport_recv_buffer = s.yport_recv_buffer := by
    rw [same.buffer, after]
    rfl
  have owner : ((s.acked conn ack).acknowledge data).yport_conn = some conn := by
    rw [same.owner, after]
    exact own
  have served := served_of_acked (f := f) (by rw [buffer]; exact held.short) owner connected acked
    (by rw [buffer, covered, ← Buffer.length_text]; exact carries.len_le) data
  rw [buffer, covered] at served
  refine ⟨_, (List.drop_suffix ..).trans held.last, served.1, served.2, ?_, ?_⟩
  · rw [flow_acknowledge, after]
    exact Function.update_self ..
  · rw [Flow.rest_acknowledge taken]
    exact received

theorem sameClient_callback (plain : f.connected = false ∧ f.acked = false ∧ f.closed = false)
    (unasked : f.poll = false ∧ f.rexmit = false) (conn : Conn) (data : List UInt8) (mss : Nat) (stale : Bytes)
    (s : State Conn) : s.SameClient (s.callback f conn data mss stale) := by
  obtain ⟨same, silent⟩ := yportNetMain_newdata plain unasked conn data s
  unfold callback
  dsimp only
  rw [silent]
  exact same.trans ⟨rfl, rfl, rfl, rfl, fun other _ => congrFun (Function.update_eq_self ..) other⟩

theorem Held.packet {ack : Bool} (held : s.Held) (conn : Conn) (data : List UInt8) (mss : Nat) (stale : Bytes)
    (covered : (s.flow conn).status = .established → s.Covered conn ack) :
    (s.network (.packet conn ack data mss stale)).Held := by
  unfold State.network
  dsimp only
  by_cases status : (s.flow conn).status ≠ .established
  · rw [if_pos status]
    exact held
  rw [if_neg status]
  have established := not_ne_iff.mp status
  generalize (if s.stopped conn then [] else data) = data
  by_cases own : s.yport_conn = some conn
  · cases acks : s.acks conn ack with
    | true =>
        rw [if_neg fun nothing => Bool.false_ne_true nothing.1.symm]
        obtain ⟨queue, last, served, offers, flow, received⟩ := held.acked own established acks
          (covered established own acks) data (f := { acked := true, newdata := data ≠ [] }) rfl rfl
        have same := sameClient_acknowledge data (s.acked conn ack)
        have after : s.acked conn ack = s.change conn Flow.acknowledge := if_pos acks
        have continues := (Flow.acknowledge_carries (s.flow conn) queue).answer rfl true mss stale offers
        rw [← flow] at continues
        rcases called : ((s.acked conn ack).acknowledge data).yportNetMain
          { acked := true, newdata := data ≠ [] } conn data with ⟨next, reply⟩
        rw [called] at served continues
        rw [callback, called]
        change (next.change conn (Flow.answer true mss stale reply)).Held
        refine served.held ?_ ?_ fun _ => ⟨continues.carries, ?_⟩
        · rw [same.received, after]
          exact last
        · rw [continues.status, flow]
          exact held.exists_ conn own
        · rw [continues.stream, continues.rest, flow, same.received, same.earlier, after]
          exact received
    | false =>
        have before : s.acked conn ack = s := if_neg (by rw [acks]; exact Bool.false_ne_true)
        rw [before]
        split_ifs
        · exact held
        · exact held.same ((sameClient_acknowledge data s).trans
            (sameClient_callback ⟨rfl, rfl, rfl⟩ ⟨rfl, rfl⟩ conn data mss stale _))
  · have first := sameClient_acked own ack
    split_ifs
    · exact held.same first
    · have second := first.trans (sameClient_acknowledge data _)
      have called := sameClient_yportNetMain (f := { acked := s.acks conn ack, newdata := data ≠ [] })
        (second.owner ▸ own) (fun connected => absurd connected Bool.false_ne_true) data
      have third := second.trans called
      exact held.same (third.trans (sameClient_change (third.owner ▸ own) _))

/-- The client closes its connection. -/
theorem yportNetMain_closed (plain : f.connected = false ∧ f.acked = false) (closed : f.closed = true)
    (unasked : f.poll = false ∧ f.rexmit = false) (own : s.yport_conn = some conn) (data : List UInt8) :
    (s.yportNetMain f conn data).1.yport_conn = none ∧
      (s.yportNetMain f conn data).1.yport_recv_buffer = s.yport_recv_buffer ∧
      (s.yportNetMain f conn data).1.received = s.received := by
  obtain ⟨connected, acked⟩ := plain
  obtain ⟨poll, rexmit⟩ := unasked
  have handled : s.handle f conn data = ({ s with yport_conn := none }, .silent) := by
    unfold handle
    rw [connected, acked, closed, if_neg Bool.false_ne_true, if_neg Bool.false_ne_true, if_pos rfl, if_pos own]
  unfold yportNetMain
  rw [handled]
  dsimp only
  have same := sameClient_restart f conn { s with yport_conn := none }
  rw [if_neg (by rw [poll, acked, rexmit]; simp)]
  exact ⟨same.owner, same.buffer, same.received⟩

theorem Held.fin {ack : Bool} (held : s.Held) (conn : Conn) (data : List UInt8)
    (covered : (s.flow conn).status = .established → s.stopped conn = false → s.Covered conn ack) :
    (s.network (.fin conn ack data)).Held := by
  unfold State.network
  dsimp only
  by_cases status : (s.flow conn).status ≠ .established ∨ s.stopped conn
  · rw [if_pos status]
    exact held
  rw [if_neg status]
  obtain ⟨established, running⟩ := not_or.mp status
  have established := not_ne_iff.mp established
  by_cases own : s.yport_conn = some conn
  · cases acks : s.acks conn ack with
    | true =>
        obtain ⟨queue, last, served, -, flow, received⟩ := held.acked own established acks
          (covered established (Bool.eq_false_iff.mpr running) own acks) data
          (f := { closed := true, acked := true, newdata := data ≠ [] }) rfl rfl
        have same := sameClient_acknowledge data (s.acked conn ack)
        have after : s.acked conn ack = s.change conn Flow.acknowledge := if_pos acks
        have idle : ((s.acked conn ack).flow conn).len = 0 := by
          rw [after]
          exact congrArg Flow.len (flow_change_self conn Flow.acknowledge s)
        rw [if_neg (not_ne_iff.mpr idle)]
        refine served.held ?_ (by simp) fun open_ => absurd open_ (by simp)
        rw [same.received, after]
        exact last
    | false =>
        have before : s.acked conn ack = s := if_neg (by rw [acks]; exact Bool.false_ne_true)
        rw [before]
        split_ifs
        · exact held
        · have same := sameClient_acknowledge data s
          obtain ⟨gone, buffer, received⟩ := yportNetMain_closed
            (f := { closed := true, acked := false, newdata := data ≠ [] }) ⟨rfl, rfl⟩ rfl ⟨rfl, rfl⟩
            (same.owner.trans own) data
          exact held.leave gone (buffer.trans same.buffer) (received.trans same.received)
  · have first := sameClient_acked own ack
    split_ifs
    · exact held.same first
    · have second := first.trans (sameClient_acknowledge data _)
      have called := sameClient_yportNetMain
        (f := { closed := true, acked := s.acks conn ack, newdata := data ≠ [] })
        (second.owner ▸ own) (fun connected => absurd connected Bool.false_ne_true) data
      have third := second.trans called
      exact held.same (third.trans (sameClient_change (third.owner ▸ own) _))

/-- The first client is given what the receive buffer holds. -/
theorem Held.welcome (held : s.Held) (opened : s.flow conn = .opened) (free : s.yport_conn = none)
    (connected : f.connected = true) (unasked : f.poll = false ∧ f.acked = false ∧ f.rexmit = false)
    (data : List UInt8) (mss : Nat) (stale : Bytes) : (s.callback f conn data mss stale).Held := by
  obtain ⟨poll, acked, rexmit⟩ := unasked
  let next : State Conn := { s with
    yport_conn := some conn
    earlier := s.received.take (s.received.length - s.yport_recv_buffer.len) }
  have handled : s.handle f conn data = (next, .silent) := by
    unfold handle
    rw [if_pos connected, if_pos free]
  have same := sameClient_restart f conn next
  have called : s.yportNetMain f conn data = (next.restart f conn, .silent) := by
    unfold yportNetMain
    rw [handled]
    dsimp only
    rw [if_neg (by rw [poll, acked, rexmit]; simp)]
  have flow : (next.restart f conn).flow conn = .opened := (same.flow conn rfl).trans opened
  rw [callback, called]
  change ((next.restart f conn).change conn (Flow.answer f.acked mss stale .silent)).Held
  have here : ((next.restart f conn).change conn (Flow.answer f.acked mss stale .silent)).flow conn =
      .opened := (Function.update_self ..).trans (congrArg (Flow.answer f.acked mss stale .silent) flow)
  constructor
  · change (next.restart f conn).yport_recv_buffer.len ≤ _
    rw [same.buffer]
    exact held.short
  · change (next.restart f conn).yport_recv_buffer.text <:+ (next.restart f conn).received
    rw [same.buffer, same.received]
    exact held.last
  · intro other own
    obtain rfl := Option.some.inj (same.owner.symm.trans own)
    rw [here]
    exact fun shut => Status.noConfusion shut
  · intro other own _
    obtain rfl := Option.some.inj (same.owner.symm.trans own)
    rw [here]
    refine ⟨Flow.opened_carries _, ?_⟩
    change (next.restart f conn).received = (next.restart f conn).earlier ++
      ([] ++ (next.restart f conn).yport_recv_buffer.text)
    rw [same.received, same.earlier, same.buffer, List.nil_append]
    have split := List.suffix_iff_eq_append.mp held.last
    rw [Buffer.length_text] at split
    exact split.symm

/-- A client connects, unless there is one already. -/
theorem Held.connect (held : s.Held) (conn : Conn) (data : List UInt8) (mss : Nat) (stale : Bytes) :
    (s.network (.connect conn data mss stale)).Held := by
  unfold State.network
  dsimp only
  split_ifs with status
  · exact held
  have other : s.yport_conn ≠ some conn := fun own => held.exists_ conn own (not_ne_iff.mp status)
  let before : State Conn := { s with stopped := Function.update s.stopped conn false }
  have same : s.SameClient before := ⟨rfl, rfl, rfl, rfl, fun _ _ => rfl⟩
  have still : before.yport_conn ≠ some conn := other
  have first := (same.trans (sameClient_change still fun _ => .opened)).trans
    (sameClient_acknowledge data (before.change conn fun _ => .opened))
  have opened : ((before.change conn fun _ => .opened).acknowledge data).flow conn = .opened := by
    rw [flow_acknowledge]
    exact Function.update_self ..
  change (State.callback _ conn data mss stale
    ((before.change conn fun _ => .opened).acknowledge data)).Held
  generalize (before.change conn fun _ => .opened).acknowledge data = middle at first opened ⊢
  by_cases free : s.yport_conn = none
  · exact (held.same first).welcome opened (first.owner.trans free) rfl ⟨rfl, rfl, rfl⟩ data mss stale
  · have called := sameClient_yportNetMain (f := { connected := true, newdata := data ≠ [] })
      (first.owner ▸ other) (fun _ => first.owner ▸ free) data
    have second := first.trans called
    exact held.same (second.trans (sameClient_change (second.owner ▸ other) _))

theorem Held.closed (held : s.Held) (conn : Conn) : (s.network (.closed conn)).Held := by
  unfold State.network
  dsimp only
  split_ifs
  · exact held
  by_cases own : s.yport_conn = some conn
  · obtain ⟨gone, buffer, received⟩ := yportNetMain_closed (f := { closed := true }) ⟨rfl, rfl⟩ rfl ⟨rfl, rfl⟩
      own []
    exact held.leave gone buffer received
  · have same := sameClient_yportNetMain (f := { closed := true }) own
      (fun connected => absurd connected Bool.false_ne_true) []
    exact held.same (same.trans (sameClient_change (same.owner ▸ own) _))

/-! ## Runs -/

theorem Held.network (held : s.Held) (ready : s.Ready) {event : Event Conn} (matched : s.Matched event) :
    (s.network event).Held := by
  cases event with
  | connect conn data mss stale => exact held.connect conn data mss stale
  | packet conn ack data mss stale => exact held.packet conn data mss stale (matched ready)
  | fin conn ack data => exact held.fin conn data (matched ready)
  | closed conn => exact held.closed conn
  | poll conn mss stale => exact held.poll conn mss stale
  | rexmit conn stale => exact held.rexmit conn stale
  | byte => exact held
  | frame => exact held
  | transmitted => exact held
  | go => exact held
  | take => exact held

theorem Held.step {event : Event Conn} (held : s.Held) (matched : s.Matched event) : (s.step event).Held := by
  have network : (if s.Ready then s.network event else s).Held := by
    split_ifs with ready
    · exact held.network ready matched
    · exact held
  cases event with
  | byte ch error => exact held.rxVect matched
  | frame => exact held.same ⟨rfl, rfl, rfl, rfl, fun _ _ => rfl⟩
  | transmitted =>
      unfold State.step
      dsimp only
      split_ifs
      · exact held.same (sameClient_txVect s)
      · exact held
  | go =>
      unfold State.step
      dsimp only
      split
      · split_ifs
        · exact held
        · exact held.same (sameClient_yportRxstart _ s)
      · exact held
  | take conn copy => exact held.take conn copy
  | connect => exact network
  | packet => exact network
  | fin => exact network
  | closed => exact network
  | poll => exact network
  | rexmit => exact network

end Connections

end State

/-- Whatever arrives, and whenever the client is asked for acknowledgements or segments are sent to it
again, it takes the bytes that arrived, as long as acknowledgements cover what was noted. -/
theorem forwarded_of_matched [DecidableEq Conn] (send recv : Bytes) (events : List (Event Conn))
    (matched : EachMeets State.step State.Matched (State.start send recv) events) :
    (events.foldl State.step (State.start send recv)).Forwarded :=
  State.Held.forwarded (matched.invariant (fun _ _ held meets => State.Held.step held meets)
    (State.held_start send recv))

instance [DecidableEq Conn] (s : State Conn) (conn : Conn) (ack : Bool) : Decidable (s.Covered conn ack) :=
  inferInstanceAs (Decidable (_ → _ → _))

instance [DecidableEq Conn] (s : State Conn) : ∀ event, Decidable (s.Matched event)
  | .byte _ _ => inferInstanceAs (Decidable (_ → _))
  | .packet _ _ _ _ _ => inferInstanceAs (Decidable (_ → _ → _))
  | .fin _ _ _ => inferInstanceAs (Decidable (_ → _ → _ → _))
  | .frame | .transmitted | .go | .take _ _ | .connect _ _ _ _ | .closed _ | .poll _ _ _ | .rexmit _ _ =>
      isTrue trivial

/-- The second byte arrives while the first one is in flight. -/
def twoBytes : List (Event Unit) :=
  let stale : Bytes := fun _ => 0
  [.connect () [] 500 stale, .byte 1 false, .poll () 500 stale, .byte 2 false, .take () 0,
    .packet () true [] 500 stale, .take () 0, .packet () true [] 500 stale]

theorem forwarded_of_matched_twoBytes :
    (twoBytes.foldl State.step (State.start (fun _ => 0) fun _ => 0)).Forwarded :=
  forwarded_of_matched (fun _ => 0) (fun _ => 0) twoBytes (by decide)

/-- The first byte has to be sent again when the second one has arrived, and its acknowledgement removes
both. -/
theorem not_forwarded :
    ¬∀ (send recv : Bytes) (events : List (Event Unit)),
      (events.foldl State.step (State.start send recv)).Forwarded := by
  intro holds
  let zeros : Bytes := fun _ => 0
  have complete := (holds zeros zeros [.connect () [] 500 zeros, .byte 1 false, .poll () 500 zeros,
    .byte 2 false, .rexmit () zeros, .take () 0, .packet () true [] 500 zeros]).complete () (by decide)
    (by decide) (by decide)
  exact absurd complete (by decide)

end Runs

end Ethersex.Yport
