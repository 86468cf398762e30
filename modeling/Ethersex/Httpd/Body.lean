import Mathlib
import Ethersex.Uip.Connection

/-!
# The body of an HTTP answer

`httpd_handle_vfs` sends a file in segments of `uip_mss()` bytes.  A segment is read from the
file again when it has to be sent again, and a short one is the last.  So a file whose end
is the end of a full segment has no last segment: the server tries to read another one, and
aborts the connection.
-/

namespace Ethersex.Httpd

open Library Uip

/-! ## The handler -/

/-- The members of `httpd_connection_state_t` that the handler uses. -/
structure State where
  headerAcked : Bool
  eof : Bool
  acked : Nat
  sent : Nat
  deriving DecidableEq, Repr

/-- `httpd_handle_vfs_send_body`.  `read` tells what is read from the open file after a seek
to a position, for a given length. -/
def httpdHandleVfsSendBody (read : Nat → Nat → List UInt8) (mss : Nat) (s : State) : State × Reply :=
  let data := read s.acked mss
  if data.length = 0 then (s, .abort)
  else
    ({ s with eof := s.eof || data.length < mss, sent := (s.acked + data.length) % 2 ^ 32 }, .send data)

/-- What `httpd_handle_vfs` notes when a segment was acknowledged. -/
def State.noteAcked (s : State) : State :=
  if s.headerAcked then { s with acked := s.sent } else { s with headerAcked := true, acked := 0 }

/-- `httpd_handle_vfs`, called because a segment was acknowledged, or has to be sent again. -/
def httpdHandleVfs (header : List UInt8) (read : Nat → Nat → List UInt8) (acked rexmit : Bool)
    (mss : Nat) (s : State) : State × Reply :=
  let s := if acked then s.noteAcked else s
  if !s.headerAcked then (s, .send header)
  else if s.eof && !rexmit then (s, .close)
  else httpdHandleVfsSendBody read mss s

/-! ## A connection -/

inductive Status where
  | established
  | closed
  | aborted
  deriving DecidableEq, Repr

/-- The server's state, the segment in flight with the value of `uip_mss()` it was sent with,
the bytes of the body that were acknowledged, and whether every segment that was sent again
was the same as before. -/
structure Connection where
  state : State
  segment : List UInt8
  mss : Nat
  received : List UInt8
  status : Status
  faithful : Bool

/-- The segment in flight is acknowledged, or has to be sent again, while `uip_mss()` has some
value; `stale` is what lies in the buffer. -/
inductive Event where
  | ack (mss : Nat) (stale : Bytes)
  | rexmit (mss : Nat) (stale : Bytes)

/-- The header has been sent. -/
def Connection.start (header : List UInt8) (mss : Nat) : Connection :=
  ⟨⟨false, false, 0, 0⟩, header, mss, [], .established, true⟩

/-- What an event leads to. -/
def Connection.step (header : List UInt8) (read : Nat → Nat → List UInt8) (c : Connection) :
    Event → Connection
  | .ack mss stale =>
      if c.status ≠ .established then c
      else
        let c := if c.state.headerAcked then { c with received := c.received ++ c.segment } else c
        let (state, reply) := httpdHandleVfs header read true false mss c.state
        match (appsend true mss stale c.segment.length reply).2 with
        | .segment data => { c with state, segment := data, mss }
        | .nothing => { c with state, segment := [], mss }
        | .fin => { c with state, segment := [], status := .closed }
        | .reset => { c with state, segment := [], status := .aborted }
  | .rexmit mss stale =>
      if c.status ≠ .established then c
      else
        let (state, reply) := httpdHandleVfs header read false true mss c.state
        match apprexmit stale c.segment.length reply with
        | .segment data => { c with state, segment := data, faithful := c.faithful && data = c.segment }
        | _ => { c with state, faithful := false }

def Connection.run (header : List UInt8) (read : Nat → Nat → List UInt8) (events : List Event)
    (c : Connection) : Connection := events.foldl (step header read) c

/-- What has arrived is a part of the file, and all of it when the connection is closed, which
it is as soon as all of the file has been acknowledged; it is not aborted. -/
structure Whole (content : List UInt8) (c : Connection) : Prop where
  arrives : c.received <+: content
  unaborted : c.status ≠ .aborted
  closes : c.status = .closed ↔ c.state.headerAcked = true ∧ c.received = content
  faithful : c.faithful = true

/-! ## Steps that go well -/

/-- Where the next segment begins. -/
def Connection.next (c : Connection) : Nat := if c.state.headerAcked then c.state.sent else 0

/-- An acknowledgement that is not for the last segment finds that there is more of the file,
and reading it works; a segment is sent again under the same `uip_mss()` as before. -/
def Connection.Meets (read : Nat → Nat → List UInt8) (content : List UInt8) (c : Connection) :
    Event → Prop
  | .ack mss _ => c.status = .established → c.state.eof = false →
      c.next < content.length ∧ 0 < mss ∧ read c.next mss = (content.drop c.next).take mss
  | .rexmit mss _ => c.status = .established → c.state.headerAcked = true →
      mss = c.mss ∧ read c.state.acked mss = (content.drop c.state.acked).take mss

/-- All events of a run meet the condition. -/
def Connection.AllMeet (header : List UInt8) (read : Nat → Nat → List UInt8) (content : List UInt8) :
    List Event → Connection → Prop
  | [], _ => True
  | event :: rest, c => c.Meets read content event ∧ AllMeet header read content rest (c.step header read event)

/-- The connection before the header is acknowledged. -/
structure Starting (header : List UInt8) (c : Connection) : Prop where
  established : c.status = .established
  headerAcked : c.state.headerAcked = false
  eof : c.state.eof = false
  segment : c.segment = header
  received : c.received = []
  faithful : c.faithful = true

/-- The connection while the file is being sent. -/
structure Sending (content : List UInt8) (c : Connection) : Prop where
  established : c.status = .established
  headerAcked : c.state.headerAcked = true
  received : c.received = content.take c.state.acked
  inside : c.state.acked < content.length
  positive : 0 < c.mss
  segment : c.segment = (content.drop c.state.acked).take c.mss
  sent : c.state.sent = c.state.acked + c.segment.length
  eof : c.state.eof = decide (c.segment.length < c.mss)
  faithful : c.faithful = true

/-- The connection when the file has been sent. -/
structure Done (content : List UInt8) (c : Connection) : Prop where
  closed : c.status = .closed
  headerAcked : c.state.headerAcked = true
  received : c.received = content
  faithful : c.faithful = true

section Steps

variable {header content : List UInt8} {read : Nat → Nat → List UInt8} {c : Connection} {mss : Nat}

theorem segment_ne_nil {position : Nat} (inside : position < content.length) (positive : 0 < mss) :
    (content.drop position).take mss ≠ [] := by
  refine List.length_pos_iff.mp ?_
  rw [List.length_take, List.length_drop]
  omega

/-- Sending a segment of the file. -/
theorem sendBody_eq {s : State} (inside : s.acked < content.length) (positive : 0 < mss)
    (small : content.length < 2 ^ 32)
    (reads : read s.acked mss = (content.drop s.acked).take mss) :
    httpdHandleVfsSendBody read mss s =
      ({ s with
          eof := s.eof || decide (((content.drop s.acked).take mss).length < mss)
          sent := s.acked + ((content.drop s.acked).take mss).length },
        .send ((content.drop s.acked).take mss)) := by
  have some := segment_ne_nil inside positive
  have fits : s.acked + ((content.drop s.acked).take mss).length < 2 ^ 32 := by
    rw [List.length_take, List.length_drop]
    omega
  simp only [httpdHandleVfsSendBody, reads]
  rw [if_neg fun none => some (List.length_eq_zero_iff.mp none), Nat.mod_eq_of_lt fits]

/-- The next segment goes out when the one before it was acknowledged. -/
theorem sending_of_sent {s : State} {received : List UInt8} (headerAcked : s.headerAcked = true)
    (eof : s.eof = false) (arrived : received = content.take s.acked)
    (inside : s.acked < content.length) (positive : 0 < mss) (small : content.length < 2 ^ 32)
    (reads : read s.acked mss = (content.drop s.acked).take mss) (stale : Bytes) (len : Nat) :
    ∃ state, httpdHandleVfsSendBody read mss s =
        (state, .send ((content.drop s.acked).take mss)) ∧
      appsend true mss stale len (.send ((content.drop s.acked).take mss)) =
        (((content.drop s.acked).take mss).length, .segment ((content.drop s.acked).take mss)) ∧
      Sending content ⟨state, (content.drop s.acked).take mss, mss, received, .established, true⟩ := by
  refine ⟨_, sendBody_eq inside positive small reads,
    appsend_fits stale (segment_ne_nil inside positive) ?_ (.inl rfl), ?_⟩
  · rw [List.length_take]
    exact Nat.min_le_left _ _
  · exact ⟨rfl, headerAcked, arrived, inside, positive, rfl, rfl, by rw [eof, Bool.false_or], rfl⟩

theorem Starting.ack (starting : Starting header c) (small : content.length < 2 ^ 32) (stale : Bytes)
    (meets : c.Meets read content (.ack mss stale)) : Sending content (c.step header read (.ack mss stale)) := by
  obtain ⟨inside, positive, reads⟩ := meets starting.established starting.eof
  rw [Connection.next, starting.headerAcked, if_neg Bool.false_ne_true] at inside reads
  obtain ⟨state, sends, goes, sending⟩ := @sending_of_sent content read mss
    { c.state with headerAcked := true, acked := 0 } [] rfl starting.eof rfl inside positive small reads
    stale c.segment.length
  have handled : httpdHandleVfs header read true false mss c.state =
      httpdHandleVfsSendBody read mss { c.state with headerAcked := true, acked := 0 } := by
    simp [httpdHandleVfs, State.noteAcked, starting.headerAcked, starting.eof]
  rw [Connection.step, if_neg (not_not.mpr starting.established)]
  simp only [starting.headerAcked, Bool.false_eq_true, if_false, handled, sends, goes, starting.received,
    starting.established, starting.faithful]
  exact sending

theorem Starting.rexmit (starting : Starting header c) (some : header ≠ []) (stale : Bytes) :
    Starting header (c.step header read (.rexmit mss stale)) := by
  have handled : httpdHandleVfs header read false true mss c.state = (c.state, .send header) := by
    simp [httpdHandleVfs, starting.headerAcked]
  rw [Connection.step, if_neg (not_not.mpr starting.established)]
  simp only [handled, starting.segment, apprexmit_same stale some]
  exact ⟨starting.established, starting.headerAcked, starting.eof, rfl, starting.received,
    by simp [starting.faithful]⟩

theorem Sending.length (sending : Sending content c) :
    c.segment.length = min c.mss (content.length - c.state.acked) := by
  rw [sending.segment, List.length_take, List.length_drop]

/-- What has arrived when the segment in flight has. -/
theorem Sending.arrived (sending : Sending content c) :
    c.received ++ c.segment = content.take c.state.sent := by
  have all : (content.drop c.state.acked).take (content.length - c.state.acked) =
      content.drop c.state.acked := List.take_of_length_le (List.length_drop ..).le
  rw [sending.received, sending.sent, sending.length, List.take_add, ← List.take_take, all,
    ← sending.segment]

theorem Sending.rexmit (sending : Sending content c) (small : content.length < 2 ^ 32) (stale : Bytes)
    (meets : c.Meets read content (.rexmit mss stale)) :
    Sending content (c.step header read (.rexmit mss stale)) := by
  obtain ⟨rfl, reads⟩ := meets sending.established sending.headerAcked
  have some := segment_ne_nil sending.inside sending.positive
  have handled : httpdHandleVfs header read false true c.mss c.state =
      httpdHandleVfsSendBody read c.mss c.state := by
    simp [httpdHandleVfs, sending.headerAcked]
  rw [Connection.step, if_neg (not_not.mpr sending.established)]
  simp only [handled, sendBody_eq sending.inside sending.positive small reads]
  rw [← sending.segment] at some ⊢
  simp only [apprexmit_same stale some]
  exact ⟨sending.established, sending.headerAcked, sending.received, sending.inside, sending.positive,
    sending.segment, rfl, by simp [sending.eof], by simp [sending.faithful]⟩

/-- After the last segment the connection is closed. -/
theorem Sending.ack_last (sending : Sending content c) (eof : c.state.eof = true) (stale : Bytes) :
    Done content (c.step header read (.ack mss stale)) := by
  have handled : httpdHandleVfs header read true false mss c.state =
      ({ c.state with acked := c.state.sent }, .close) := by
    simp [httpdHandleVfs, State.noteAcked, sending.headerAcked, eof]
  have short : c.segment.length < c.mss := of_decide_eq_true (sending.eof ▸ eof)
  have inside := sending.inside
  have all : content.length ≤ c.state.sent := by
    rw [sending.sent]
    have := sending.length
    omega
  have noted : (if c.state.headerAcked then { c with received := c.received ++ c.segment } else c) =
      { c with received := c.received ++ c.segment } := if_pos sending.headerAcked
  rw [Connection.step, if_neg (not_not.mpr sending.established)]
  simp only [noted]
  simp only [handled, appsend, sending.arrived, List.take_of_length_le all]
  exact ⟨rfl, sending.headerAcked, rfl, sending.faithful⟩

/-- After another segment the next one is sent. -/
theorem Sending.ack_more (sending : Sending content c) (more : c.state.eof = false)
    (small : content.length < 2 ^ 32) (stale : Bytes)
    (meets : c.Meets read content (.ack mss stale)) : Sending content (c.step header read (.ack mss stale)) := by
  obtain ⟨inside, positive, reads⟩ := meets sending.established more
  rw [Connection.next, sending.headerAcked, if_pos rfl] at inside reads
  obtain ⟨state, sends, goes, next⟩ := @sending_of_sent content read mss
    { c.state with acked := c.state.sent } (content.take c.state.sent) sending.headerAcked more rfl inside
    positive small reads stale c.segment.length
  have handled : httpdHandleVfs header read true false mss c.state =
      httpdHandleVfsSendBody read mss { c.state with acked := c.state.sent } := by
    simp [httpdHandleVfs, State.noteAcked, sending.headerAcked, more]
  have noted : (if c.state.headerAcked then { c with received := c.received ++ c.segment } else c) =
      { c with received := c.received ++ c.segment } := if_pos sending.headerAcked
  rw [Connection.step, if_neg (not_not.mpr sending.established)]
  simp only [noted]
  simp only [handled, sends, goes, sending.arrived, sending.established, sending.faithful]
  exact next

end Steps

/-! ## Runs -/

/-- A connection is in one of three phases. -/
inductive Phase (header content : List UInt8) (c : Connection) : Prop where
  | starting (starting : Starting header c)
  | sending (sending : Sending content c)
  | done (done : Done content c)

section Runs

variable {header content : List UInt8} {read : Nat → Nat → List UInt8} {c : Connection}

theorem Phase.step (phase : Phase header content c) (some : header ≠ []) (small : content.length < 2 ^ 32)
    {event : Event} (meets : c.Meets read content event) : Phase header content (c.step header read event) := by
  cases phase with
  | starting starting =>
      cases event with
      | ack mss stale => exact .sending (starting.ack small stale meets)
      | rexmit mss stale => exact .starting (starting.rexmit some stale)
  | sending sending =>
      cases event with
      | ack mss stale =>
          cases eof : c.state.eof with
          | true => exact .done (sending.ack_last eof stale)
          | false => exact .sending (sending.ack_more eof small stale meets)
      | rexmit mss stale => exact .sending (sending.rexmit small stale meets)
  | done done =>
      have ended : c.status ≠ .established := by
        rw [done.closed]
        decide
      cases event with
      | ack mss stale =>
          rw [Connection.step, if_pos ended]
          exact .done done
      | rexmit mss stale =>
          rw [Connection.step, if_pos ended]
          exact .done done

theorem Phase.run (phase : Phase header content c) (some : header ≠ []) (small : content.length < 2 ^ 32)
    {events : List Event} (meet : c.AllMeet header read content events) :
    Phase header content (c.run header read events) := by
  induction events generalizing c with
  | nil => exact phase
  | cons event rest ih => exact ih (phase.step some small meet.1) meet.2

theorem Phase.whole (phase : Phase header content c) : Whole content c := by
  cases phase with
  | starting starting =>
      refine ⟨starting.received ▸ List.nil_prefix, ?_, ?_, starting.faithful⟩
      · rw [starting.established]
        decide
      · rw [starting.established, starting.headerAcked]
        exact iff_of_false nofun nofun
  | sending sending =>
      refine ⟨sending.received ▸ List.take_prefix _ _, ?_, ?_, sending.faithful⟩
      · rw [sending.established]
        decide
      · rw [sending.established]
        refine iff_of_false nofun fun all => ?_
        have lengths := congrArg List.length (sending.received.symm.trans all.2)
        rw [List.length_take] at lengths
        have := sending.inside
        omega
  | done done =>
      refine ⟨done.received ▸ List.prefix_rfl, ?_, ?_, done.faithful⟩
      · rw [done.closed]
        decide
      · exact iff_of_true done.closed ⟨done.headerAcked, done.received⟩

theorem starting_start (header : List UInt8) (mss : Nat) : Starting header (Connection.start header mss) :=
  ⟨rfl, rfl, rfl, rfl, rfl, rfl⟩

end Runs

/-! ## One segment size -/

/-- Seeking and reading deliver what is there. -/
def Lawful (read : Nat → Nat → List UInt8) (content : List UInt8) : Prop :=
  ∀ position ≤ content.length, ∀ length, read position length = (content.drop position).take length

/-- The value of `uip_mss()` at an event. -/
def Event.mss : Event → Nat
  | .ack mss _ => mss
  | .rexmit mss _ => mss

section Constant

variable {header content : List UInt8} {read : Nat → Nat → List UInt8} {c : Connection} {mss : Nat}

/-- Segments begin at multiples of the segment size. -/
def Steady (mss : Nat) (c : Connection) : Prop :=
  c.status = .established → c.state.headerAcked = true → c.mss = mss ∧ mss ∣ c.state.acked

theorem httpdHandleVfs_acked (rexmit : Bool) (s : State) :
    (httpdHandleVfs header read true rexmit mss s).1.acked = s.noteAcked.acked := by
  simp only [httpdHandleVfs, if_true, httpdHandleVfsSendBody]
  split_ifs <;> rfl

/-- An acknowledgement that leaves the connection open. -/
theorem step_ack (established : c.status = .established) (stale : Bytes)
    (stays : (c.step header read (.ack mss stale)).status = .established) :
    (c.step header read (.ack mss stale)).mss = mss ∧
      (c.step header read (.ack mss stale)).state.acked = c.next := by
  have acked : (httpdHandleVfs header read true false mss c.state).1.acked = c.next := by
    rw [httpdHandleVfs_acked, State.noteAcked, Connection.next]
    split_ifs <;> rfl
  have same : (if c.state.headerAcked then { c with received := c.received ++ c.segment } else c).state =
      c.state := by
    split_ifs <;> rfl
  rw [Connection.step, if_neg (not_not.mpr established)] at stays ⊢
  simp only [same] at stays ⊢
  split at stays
  · exact ⟨rfl, acked⟩
  · exact ⟨rfl, acked⟩
  · exact nomatch stays
  · exact nomatch stays

/-- An acknowledgement at the end of the file, when there is another segment to be sent. -/
theorem step_abort (established : c.status = .established) (eof : c.state.eof = false)
    (nothing : read c.next mss = []) (stale : Bytes) :
    (c.step header read (.ack mss stale)).status = .aborted := by
  have same : (if c.state.headerAcked then { c with received := c.received ++ c.segment } else c).state =
      c.state := by
    split_ifs <;> rfl
  have handled : (httpdHandleVfs header read true false mss c.state).2 = .abort := by
    cases headerAcked : c.state.headerAcked <;>
      simp_all [httpdHandleVfs, State.noteAcked, Connection.next, httpdHandleVfsSendBody]
  rw [Connection.step, if_neg (not_not.mpr established)]
  simp only [same, handled, appsend]

/-- A full segment is as long as the segment size. -/
theorem Sending.full (sending : Sending content c) (more : c.state.eof = false) :
    c.segment.length = c.mss := by
  have long : ¬c.segment.length < c.mss := of_decide_eq_false (sending.eof ▸ more)
  have := sending.length
  omega

theorem Phase.meets (phase : Phase header content c) (steady : Steady mss c) (lawful : Lawful read content)
    (positive : 0 < mss) (uneven : ¬mss ∣ content.length) {event : Event} (under : event.mss = mss) :
    c.Meets read content event := by
  cases phase with
  | starting starting =>
      cases event with
      | ack other stale =>
          intro _ _
          have some : content.length ≠ 0 := fun none => uneven (none ▸ dvd_zero mss)
          rw [Connection.next, starting.headerAcked, if_neg Bool.false_ne_true]
          exact ⟨Nat.pos_of_ne_zero some, Nat.lt_of_lt_of_eq positive (Eq.symm under), lawful 0 (Nat.zero_le _) _⟩
      | rexmit other stale =>
          exact fun _ headerAcked => absurd (starting.headerAcked.symm.trans headerAcked) Bool.false_ne_true
  | sending sending =>
      obtain ⟨size, begins⟩ := steady sending.established sending.headerAcked
      cases event with
      | ack other stale =>
          intro _ more
          have full := sending.full more
          have length := sending.length
          have ends : mss ∣ c.state.sent := by
            rw [sending.sent, full, size]
            exact Dvd.dvd.add begins dvd_rfl
          have inside : c.state.sent < content.length := by
            refine Nat.lt_of_le_of_ne ?_ fun all => uneven (all ▸ ends)
            rw [sending.sent]
            have := sending.inside
            omega
          rw [Connection.next, sending.headerAcked, if_pos rfl]
          exact ⟨inside, Nat.lt_of_lt_of_eq positive (Eq.symm under), lawful _ (Nat.le_of_lt inside) _⟩
      | rexmit other stale =>
          exact fun _ _ => ⟨(show other = mss from under).trans size.symm,
            lawful _ (Nat.le_of_lt sending.inside) _⟩
  | done done =>
      cases event <;> exact fun established => absurd (done.closed.symm.trans established) (by decide)

/-- The segment in flight stays the same when it is sent again. -/
theorem step_rexmit_acked (stale : Bytes) :
    (c.step header read (.rexmit mss stale)).mss = c.mss ∧
      (c.step header read (.rexmit mss stale)).state.acked = c.state.acked := by
  have acked : (httpdHandleVfs header read false true mss c.state).1.acked = c.state.acked := by
    simp only [httpdHandleVfs, httpdHandleVfsSendBody]
    split_ifs <;> first | rfl | contradiction
  rw [Connection.step]
  split
  · exact ⟨rfl, rfl⟩
  · simp only
    split
    · exact ⟨rfl, acked⟩
    · exact ⟨rfl, acked⟩

theorem Phase.steady (phase : Phase header content c) (some : header ≠ []) (steady : Steady mss c)
    (lawful : Lawful read content) (positive : 0 < mss)
    (uneven : ¬mss ∣ content.length) {event : Event} (under : event.mss = mss) :
    Steady mss (c.step header read event) := by
  have meets := phase.meets steady lawful positive uneven under
  intro open_ headerAcked
  cases phase with
  | starting starting =>
      cases event with
      | ack other stale =>
          obtain ⟨size, begins⟩ := step_ack starting.established stale open_
          rw [begins, Connection.next, starting.headerAcked, if_neg Bool.false_ne_true]
          exact ⟨size.trans under, dvd_zero mss⟩
      | rexmit other stale =>
          have again := (@Starting.rexmit header read c other starting some stale).headerAcked
          exact absurd (again.symm.trans headerAcked) Bool.false_ne_true
  | sending sending =>
      obtain ⟨size, begins⟩ := steady sending.established sending.headerAcked
      cases event with
      | ack other stale =>
          cases more : c.state.eof with
          | true =>
              have done := @Sending.ack_last header content read c other sending more stale
              exact absurd (done.closed.symm.trans open_) (by decide)
          | false =>
              obtain ⟨same, acked⟩ := step_ack sending.established stale open_
              rw [acked, Connection.next, sending.headerAcked, if_pos rfl, sending.sent, sending.full more, size]
              exact ⟨same.trans under, Dvd.dvd.add begins dvd_rfl⟩
      | rexmit other stale =>
          obtain ⟨same, acked⟩ := @step_rexmit_acked header read c other stale
          rw [same, acked]
          exact ⟨size, begins⟩
  | done done =>
      have ended : c.status ≠ .established := by
        rw [done.closed]
        decide
      have stays : c.step header read event = c := by
        cases event <;> exact if_pos ended
      rw [stays] at open_
      exact absurd open_ ended

theorem Phase.allMeet (phase : Phase header content c) (some : header ≠ []) (small : content.length < 2 ^ 32)
    (steady : Steady mss c) (lawful : Lawful read content) (positive : 0 < mss)
    (uneven : ¬mss ∣ content.length) {events : List Event} (under : ∀ event ∈ events, event.mss = mss) :
    c.AllMeet header read content events := by
  induction events generalizing c with
  | nil => trivial
  | cons event rest ih =>
      rw [List.forall_mem_cons] at under
      have meets := phase.meets steady lawful positive uneven under.1
      exact ⟨meets, ih (phase.step some small meets)
        (phase.steady some steady lawful positive uneven under.1) under.2⟩

/-- After so many segments have been acknowledged. -/
theorem sending_after (small : content.length < 2 ^ 32) (lawful : Lawful read content)
    (positive : 0 < mss) (stale : Bytes) (first count : Nat) (inside : count * mss < content.length) :
    Sending content ((Connection.start header first).run header read
        (List.replicate (count + 1) (.ack mss stale))) ∧
      ((Connection.start header first).run header read
        (List.replicate (count + 1) (.ack mss stale))).mss = mss ∧
      ((Connection.start header first).run header read
        (List.replicate (count + 1) (.ack mss stale))).state.acked = count * mss := by
  induction count with
  | zero =>
      have starting := starting_start header first
      have meets : (Connection.start header first).Meets read content (.ack mss stale) := fun _ _ =>
        ⟨Nat.lt_of_le_of_lt (Nat.zero_le _) inside, positive, lawful 0 (Nat.zero_le _) _⟩
      have sending := starting.ack small stale meets
      obtain ⟨size, acked⟩ := step_ack starting.established stale sending.established
      refine ⟨sending, size, acked.trans ?_⟩
      rw [Nat.zero_mul]
      rfl
  | succ count ih =>
      have before : count * mss < content.length := Nat.lt_of_le_of_lt (Nat.mul_le_mul_right mss (Nat.le_succ count)) inside
      obtain ⟨sending, size, begins⟩ := ih before
      rw [List.replicate_succ', Connection.run, List.foldl_concat, ← Connection.run]
      generalize (Connection.start header first).run header read (List.replicate (count + 1) (.ack mss stale)) = c
        at sending size begins ⊢
      rw [Nat.succ_mul] at inside ⊢
      have length := sending.length
      have full : c.segment.length = mss := by omega
      have more : c.state.eof = false := by
        rw [sending.eof, full, size]
        exact decide_eq_false (Nat.lt_irrefl mss)
      have next : c.next = count * mss + mss := by
        rw [Connection.next, sending.headerAcked, if_pos rfl, sending.sent, begins, full]
      have meets : c.Meets read content (.ack mss stale) := fun _ _ => by
        rw [next]
        exact ⟨inside, positive, lawful _ (Nat.le_of_lt inside) _⟩
      have sending' := @Sending.ack_more header content read c mss sending more small stale meets
      obtain ⟨size', acked⟩ := step_ack sending.established stale sending'.established
      exact ⟨sending', size', acked.trans next⟩

/-- A file that fills its segments is never followed by anything but an abort. -/
theorem aborted_of_dvd (small : content.length < 2 ^ 32) (lawful : Lawful read content)
    (even : mss = 0 ∨ mss ∣ content.length) (first : Nat) :
    ∃ count, ((Connection.start header first).run header read
      (List.replicate count (.ack mss fun _ => 0))).status = .aborted := by
  have starting := starting_start header first
  by_cases nothing : mss = 0 ∨ content.length = 0
  · refine ⟨1, @step_abort header read _ mss starting.established starting.eof ?_ _⟩
    rw [Connection.next, starting.headerAcked, if_neg Bool.false_ne_true, lawful 0 (Nat.zero_le _)]
    rcases nothing with rfl | none
    · rfl
    · rw [List.length_eq_zero_iff.mp none, List.drop_nil, List.take_nil]
  · rw [not_or] at nothing
    obtain ⟨segments, total⟩ := even.resolve_left nothing.1
    have positive := Nat.pos_of_ne_zero nothing.1
    obtain ⟨count, rfl⟩ : ∃ count, segments = count + 1 := by
      refine Nat.exists_eq_succ_of_ne_zero ?_
      rintro rfl
      exact nothing.2 total
    have last : content.length = count * mss + mss := by
      rw [total, Nat.mul_comm, Nat.succ_mul]
    obtain ⟨sending, size, begins⟩ := @sending_after header content read mss small lawful positive
      (fun _ => 0) first count (by omega)
    refine ⟨count + 2, ?_⟩
    rw [List.replicate_succ', Connection.run, List.foldl_concat, ← Connection.run]
    generalize (Connection.start header first).run header read
      (List.replicate (count + 1) (.ack mss fun _ => 0)) = c at sending size begins ⊢
    have length := sending.length
    have full : c.segment.length = mss := by omega
    refine step_abort sending.established ?_ ?_ _
    · rw [sending.eof, full, size]
      exact decide_eq_false (Nat.lt_irrefl mss)
    · rw [Connection.next, sending.headerAcked, if_pos rfl, sending.sent, begins, full, ← last,
        lawful _ le_rfl, List.drop_length, List.take_nil]

end Constant

/-- In every run whose events meet the condition the body arrives whole; and with one segment
size it does so in every run exactly when no full segment ends the file. -/
theorem body_arrives_whole (header content : List UInt8) (some : header ≠ [])
    (small : content.length < 2 ^ 32) (read : Nat → Nat → List UInt8) (first : Nat) :
    (∀ events, (Connection.start header first).AllMeet header read content events →
      Whole content ((Connection.start header first).run header read events)) ∧
    (Lawful read content → ∀ mss, (∀ events, (∀ event ∈ events, event.mss = mss) →
        Whole content ((Connection.start header first).run header read events)) ↔
      0 < mss ∧ ¬mss ∣ content.length) := by
  have starting : Phase header content (Connection.start header first) :=
    .starting (starting_start header first)
  refine ⟨fun events meet => (starting.run some small meet).whole, fun lawful mss => ?_⟩
  constructor
  · intro whole
    by_contra uneven
    rw [not_and_or, Nat.not_lt, Nat.le_zero, not_not] at uneven
    obtain ⟨count, aborted⟩ := @aborted_of_dvd header content read mss small lawful uneven first
    refine (whole _ fun event member => ?_).unaborted aborted
    rw [List.eq_of_mem_replicate member]
    rfl
  · rintro ⟨positive, uneven⟩ events under
    have steady : Steady mss (Connection.start header first) := fun _ headerAcked => nomatch headerAcked
    exact (starting.run some small
      (starting.allMeet some small steady lawful positive uneven under)).whole

/-- What is read from a file that is all there. -/
def readAll (content : List UInt8) (position length : Nat) : List UInt8 := (content.drop position).take length

/-- Three bytes in segments of two, one of which is sent twice. -/
theorem body_arrives_whole_three :
    Whole [1, 2, 3] ((Connection.start [72] 2).run [72] (readAll [1, 2, 3])
      [.ack 2 fun _ => 0, .rexmit 2 fun _ => 0, .ack 2 fun _ => 0, .ack 2 fun _ => 0]) ∧
    ∀ events, (∀ event ∈ events, event.mss = 2) →
      Whole [1, 2, 3] ((Connection.start [72] 2).run [72] (readAll [1, 2, 3]) events) := by
  obtain ⟨meets, constant⟩ := body_arrives_whole [72] [1, 2, 3] (by decide) (by decide)
    (readAll [1, 2, 3]) 2
  refine ⟨meets _ ⟨fun _ _ => ⟨by decide, by decide, rfl⟩, fun _ _ => ⟨rfl, rfl⟩,
    fun _ _ => ⟨by decide, by decide, rfl⟩, nofun, trivial⟩, ?_⟩
  exact (constant (fun _ _ _ => rfl) 2).mpr (by decide)

/-- A file of two bytes in segments of two: all of it is acknowledged, and the connection is
aborted. -/
theorem body_aborted :
    ¬Whole [1, 2] ((Connection.start [72] 2).run [72] (readAll [1, 2])
      [.ack 2 fun _ => 0, .ack 2 fun _ => 0]) :=
  fun whole => whole.unaborted rfl

end Ethersex.Httpd
