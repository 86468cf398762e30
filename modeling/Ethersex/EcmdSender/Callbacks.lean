import Mathlib
import Ethersex.Library.CString
import Ethersex.Uip.Active

/-!
# The sender of ECMD commands

A connection is opened for one command, whose answer goes to a callback.
-/

namespace Ethersex.EcmdSender

open Library Uip

/-- A call of the callback: the data with the length that it is given, or `NULL` and 0. -/
inductive Callback where
  | text (data : List UInt8) (len : UInt8)
  | null
deriving DecidableEq

/-- `struct ecmd_sender_connection_state_t`, and the calls of the callback so far. -/
structure Sender where
  sent : Bool
  to_be_sent : List UInt8
  callback : Bool
  calls : List Callback

/-- The buffer with the command in it: what `strncpy_P` copies, and older bytes behind that. -/
def commandBuffer (to_be_sent : List UInt8) (mss : Nat) (stale : Bytes) : Bytes := fun k =>
  if k < (mss + 65535) % 65536 then strncpy (cString to_be_sent) k
  else if k = 1 then 0
  else stale k

/-- The callback is called, and it is not called again. -/
def Sender.callsBack (call : Callback) (state : Sender) : Sender :=
  if state.callback then
    { state with
      callback := false
      calls := state.calls ++ [call] }
  else state

/-- `ecmd_sender_net_main`. -/
def ecmdSenderNetMain : Application Sender := fun flags state =>
  let closes : Bool := flags.newdata && flags.data.length > 0
  let state := if closes then state.callsBack (.text flags.data (UInt8.ofNat flags.data.length)) else state
  -- `uip_close` sets this flag alone.
  let flags := if closes then { Call.plain flags.stale flags.mss with closed := true } else flags
  let state := if flags.closed then state.callsBack .null else state
  let state := if flags.acked then { state with sent := true } else state
  if flags.rexmit ∨ flags.acked ∨ flags.connected ∨ flags.poll then
    if state.sent then (state, .silent)
    else (state, .send (fieldText 65536 (commandBuffer state.to_be_sent flags.mss flags.stale)))
  else (state, if closes then .close else .silent)

/-- `ecmd_sender_send_command` with a callback, for a connection that could be opened. -/
def ecmdSenderSendCommand (pgm_data : List UInt8) : Active Sender :=
  .connect ⟨false, pgm_data, true, []⟩

end Ethersex.EcmdSender

/-!
## The callback

In a run that ends, the callback is called exactly once unless the connection is aborted or given up
before there is an answer, and the length that it gets is that of the data if it has eight bits.
-/

namespace Ethersex.EcmdSender

open Library Uip

/-! ## Runs -/

/-- A connection with the first data that has arrived. -/
structure Run where
  connection : Active Sender
  arrived : Option (List UInt8)

namespace Run

def start (pgm_data : List UInt8) : Run := ⟨ecmdSenderSendCommand pgm_data, none⟩

/-- The data that an established connection takes from a segment. -/
def takes (connection : Active Sender) : Input → Option (List UInt8)
  | .segment acks data fin _ _ =>
      if connection.phase = .established ∧ data ≠ [] ∧ ¬(fin ∧ connection.len ≠ 0 ∧ ¬acks) then some data
      else none
  | _ => none

def step (r : Run) (input : Input) : Run where
  connection := r.connection.step ecmdSenderNetMain input
  arrived := r.arrived <|> takes r.connection input

/-- The connection is closed by one of the peers, aborted or timed out. -/
def Over (r : Run) : Prop := r.connection.phase.isOpen = false

instance (r : Run) : Decidable r.Over := inferInstanceAs (Decidable (_ = _))

/-- The callback was called exactly once, with the first data and its length or with `NULL` if there was
none, and the command was acknowledged at most once. -/
structure Exact (r : Run) : Prop where
  calls : ∃ call, r.connection.app.calls = [call] ∧
    match r.arrived with
    | some data => ∃ len : UInt8, call = .text data len ∧ len.toNat = data.length
    | none => call = .null
  acknowledged : r.connection.acknowledged ≤ 1

/-- An event that the callback hears of: nothing ends the connection without a FIN before there is data,
and the first data has less than 256 bytes. -/
def Heard (r : Run) (input : Input) : Prop :=
  r.connection.app.callback = true →
    match input with
    | .synAck _ _ | .timer _ => True
    | .segment _ _ _ _ _ => r.connection.phase ≠ .synSent ∧
        ∀ data ∈ takes r.connection input, data.length < 256
    | .reset _ | .expire _ => False

end Run

/-! ## One call -/

variable {flags : Call} {state : Sender}

/-- There is data in a call. -/
def Brings (flags : Call) : Prop := flags.newdata = true ∧ flags.data ≠ []

theorem callsBack_pending (pending : state.callback = true) (call : Callback) :
    state.callsBack call =
      { state with
        callback := false
        calls := state.calls ++ [call] } := if_pos pending

theorem callsBack_done (done : state.callback = false) (call : Callback) : state.callsBack call = state :=
  if_neg (by rw [done]; exact Bool.false_ne_true)

theorem callback_callsBack (state : Sender) (call : Callback) : (state.callsBack call).callback = false := by
  cases pending : state.callback with
  | true => rw [callsBack_pending pending]
  | false => rw [callsBack_done pending, pending]

/-- Data goes to the callback, and the connection is closed. -/
theorem main_of_brings (brings : Brings flags) :
    ecmdSenderNetMain flags state =
      (state.callsBack (.text flags.data (UInt8.ofNat flags.data.length)), .close) := by
  have closes : (flags.newdata && decide (flags.data.length > 0)) = true := by
    rw [brings.1, Bool.true_and, decide_eq_true_eq]
    exact List.length_pos_iff.mpr brings.2
  have once := callsBack_done (callback_callsBack state
    (.text flags.data (UInt8.ofNat flags.data.length))) .null
  unfold ecmdSenderNetMain
  simp [closes, Call.plain, once]

/-- What remains of a call without data. -/
theorem main_of_not_brings (brings : ¬Brings flags) :
    (ecmdSenderNetMain flags state).1 =
        { (if flags.closed then state.callsBack .null else state) with sent := state.sent || flags.acked } ∧
      ((ecmdSenderNetMain flags state).2 = .silent ∨
        state.sent = false ∧ flags.acked = false ∧
          ∃ data, (ecmdSenderNetMain flags state).2 = .send data) := by
  have closes : (flags.newdata && decide (flags.data.length > 0)) = false := by
    refine Bool.and_eq_false_imp.mpr fun newdata => decide_eq_false fun some_ => brings ⟨newdata, ?_⟩
    exact List.length_pos_iff.mp some_
  have kept : (if flags.closed then state.callsBack .null else state).sent = state.sent := by
    unfold Sender.callsBack
    split_ifs
    · rfl
    · rfl
    · rfl
  unfold ecmdSenderNetMain
  rw [closes]
  simp only [Bool.false_eq_true, if_false]
  generalize (if flags.closed = true then state.callsBack .null else state) = state' at kept ⊢
  cases acked : flags.acked with
  | true => simp
  | false =>
      have same : { state' with sent := state.sent || false } = state' := by rw [Bool.or_false, ← kept]
      rw [same, if_neg Bool.false_ne_true]
      by_cases asked : flags.rexmit = true ∨ false = true ∨ flags.connected = true ∨ flags.poll = true
      · rw [if_pos asked]
        cases again : state'.sent with
        | true => exact ⟨rfl, .inl rfl⟩
        | false => exact ⟨rfl, .inr ⟨kept.symm.trans again, rfl, _, rfl⟩⟩
      · rw [if_neg asked]
        exact ⟨rfl, .inl rfl⟩

/-! ## One event -/

variable {c : Active Sender} {call : Call}

theorem notify_of_brings (brings : Brings call) (phase : Phase) :
    c.notify ecmdSenderNetMain call phase =
      { c with
        phase
        app := c.app.callsBack (.text call.data (UInt8.ofNat call.data.length)) } := by
  rw [Active.notify, main_of_brings brings]

theorem notify_of_not_brings (brings : ¬Brings call) (phase : Phase) :
    c.notify ecmdSenderNetMain call phase =
      { c with
        phase
        app := { (if call.closed then c.app.callsBack .null else c.app) with
          sent := c.app.sent || call.acked } } := by
  rw [Active.notify, (main_of_not_brings brings).1]

theorem respond_of_brings (brings : Brings call) :
    c.respond ecmdSenderNetMain call =
      { c with
        phase := .finWait1
        len := 1
        app := c.app.callsBack (.text call.data (UInt8.ofNat call.data.length)) } := by
  rw [Active.respond, main_of_brings brings]
  rfl

/-- The connection stays established, and a command is sent only as long as it is not acknowledged. -/
theorem respond_of_not_brings (brings : ¬Brings call) (opened : call.closed = false) :
    ∃ len, c.respond ecmdSenderNetMain call =
        { c with
          len
          app := { c.app with sent := c.app.sent || call.acked } } ∧
      (c.app.sent = true ∨ call.acked = true → len = c.len) := by
  obtain ⟨app, reply⟩ := @main_of_not_brings call c.app brings
  rw [if_neg (by rw [opened]; exact Bool.false_ne_true)] at app
  have stays := reply.imp id fun sends => sends.2.2
  refine ⟨_, by rw [Active.respond_eq stays, app], fun known => ?_⟩
  obtain silent | ⟨fresh, unacked, -⟩ := reply
  · rw [silent]
    rfl
  · rw [fresh, unacked] at known
    exact absurd known (by decide)

/-- The connection is still open, and the callback was not called. -/
structure Waits (c : Active Sender) : Prop where
  callback : c.app.callback = true
  calls : c.app.calls = []
  opened : c.phase.isOpen = true

/-- What a connection that has ended keeps. -/
structure Rests (c c' : Active Sender) : Prop where
  ended : c'.phase.isOpen = false
  acknowledged : c'.acknowledged = c.acknowledged
  closed : c.phase = .closed → c' = c
  app : c.app.callback = false → c'.app.callback = false ∧ c'.app.calls = c.app.calls

theorem Rests.refl (ended : c.phase.isOpen = false) : Rests c c :=
  ⟨ended, rfl, fun _ => rfl, fun done => ⟨done, rfl⟩⟩

/-- A call without data calls the callback at most once. -/
theorem main_of_done (done : state.callback = false) (brings : flags.newdata = false) :
    (ecmdSenderNetMain flags state).1.callback = false ∧
      (ecmdSenderNetMain flags state).1.calls = state.calls := by
  have silent : ¬Brings flags := fun both => Bool.false_ne_true (brings.symm.trans both.1)
  rw [(main_of_not_brings silent).1, callsBack_done done, ite_self]
  exact ⟨done, rfl⟩

theorem Rests.of_call {c' : Active Sender} (opened : c.phase ≠ .closed) (ended : c'.phase.isOpen = false)
    (count : c'.acknowledged = c.acknowledged) (brings : call.newdata = false)
    (app : c'.app = (ecmdSenderNetMain call c.app).1) : Rests c c' :=
  ⟨ended, count, fun closed => absurd closed opened, fun done => by rw [app]; exact main_of_done done brings⟩

theorem Rests.of_phase {c' : Active Sender} (opened : c.phase ≠ .closed) (ended : c'.phase.isOpen = false)
    (count : c'.acknowledged = c.acknowledged) (app : c'.app = c.app) : Rests c c' :=
  ⟨ended, count, fun closed => absurd closed opened, fun done => by rw [app]; exact ⟨done, rfl⟩⟩

theorem rests_step (ended : c.phase.isOpen = false) (input : Input) :
    Rests c (c.step ecmdSenderNetMain input) := by
  cases phase : c.phase with
  | synSent | established =>
      rw [phase] at ended
      exact absurd ended.symm Bool.false_ne_true
  | closed =>
      have same : c.step ecmdSenderNetMain input = c := by
        cases input <;> simp [Active.step, phase]
      rw [same]
      exact Rests.refl ended
  | lastAck | finWait1 | finWait2 | closing | timeWait =>
      have opened : c.phase ≠ .closed := by rw [phase]; decide
      have later : ¬c.phase = .established := by rw [phase]; decide
      cases input with
      | synAck mss stale =>
          simp only [Active.step, phase]
          exact Rests.refl ended
      | reset stale =>
          rw [Active.step, if_neg opened]
          exact Rests.of_call opened rfl rfl rfl rfl
      | timer stale =>
          rw [Active.step, if_neg later]
          exact Rests.refl ended
      | expire stale =>
          simp only [Active.step, phase]
          first
          | exact Rests.of_call opened rfl rfl rfl rfl
          | exact Rests.of_phase opened rfl rfl rfl
      | segment acks data fin mss stale =>
          simp only [Active.step, phase]
          try split_ifs
          all_goals first
          | exact Rests.refl ended
          | exact Rests.of_phase opened rfl rfl rfl
          | exact Rests.of_call opened rfl rfl rfl rfl

/-! ## The command -/

/-- The command is acknowledged once, and then nothing is in flight until the connection is closed. -/
def Counted (c : Active Sender) : Prop :=
  c.acknowledged = 0 ∨ c.acknowledged = 1 ∧ c.phase ≠ .synSent ∧
    (c.phase = .established → c.len = 0 ∧ c.app.sent = true)

theorem Counted.of_same {c' : Active Sender} (counted : Counted c)
    (count : c'.acknowledged = c.acknowledged) (later : c'.phase.isOpen = false) : Counted c' := by
  rw [Counted, count]
  refine counted.imp id fun once => ⟨once.1, ?_, ?_⟩
  · rintro phase
    rw [phase] at later
    exact Bool.false_ne_true later.symm
  · rintro phase
    rw [phase] at later
    exact absurd later.symm Bool.false_ne_true

/-- What is called with `uip_acked` has its command acknowledged, and sends nothing. -/
theorem Counted.respond (phase : c.phase = .established) (opened : call.closed = false)
    (once : c.acknowledged = 0 ∨ c.acknowledged = 1 ∧ c.len = 0 ∧ (c.app.sent = true ∨ call.acked = true)) :
    Counted (c.respond ecmdSenderNetMain call) := by
  obtain none_ | ⟨one, len, sent⟩ := once
  · exact .inl none_
  · refine .inr ⟨one, ?_⟩
    by_cases brings : Brings call
    · rw [respond_of_brings brings]
      exact ⟨by simp, by simp⟩
    · obtain ⟨len', same, keeps⟩ := @respond_of_not_brings c call brings opened
      rw [same]
      refine ⟨?_, fun _ => ⟨(keeps sent).trans len, ?_⟩⟩
      · rw [phase]
        decide
      · exact Bool.or_eq_true_iff.mpr sent

theorem Counted.receive (counted : Counted c) (phase : c.phase = .established) (acks : Bool)
    (data : List UInt8) (fin : Bool) (mss : Nat) (stale : Bytes) :
    Counted (c.receive ecmdSenderNetMain acks data fin mss stale) := by
  rw [Active.receive]
  dsimp only
  generalize which : (acks && decide (c.len ≠ 0)) = acked
  have taken : ∃ c₁ : Active Sender,
      (if acked = true then
        { c with
          len := 0
          acknowledged := c.acknowledged + 1 } else c) = c₁ ∧
        c₁.phase = .established ∧ (c₁.acknowledged = 0 ∨
          c₁.acknowledged = 1 ∧ c₁.len = 0 ∧ (c₁.app.sent = true ∨ acked = true)) := by
    cases acked with
    | false =>
        refine ⟨c, if_neg Bool.false_ne_true, phase, counted.imp id fun once => ⟨once.1, ?_⟩⟩
        exact (once.2.2 phase).imp id .inl
    | true =>
        have busy : c.len ≠ 0 := of_decide_eq_true (Bool.and_eq_true_iff.mp which).2
        refine ⟨_, if_pos rfl, phase, .inr ⟨?_, rfl, .inr rfl⟩⟩
        obtain none_ | ⟨-, -, idle⟩ := counted
        · simp only [none_]
        · exact absurd (idle phase).1 busy
  obtain ⟨c₁, same, phase', once⟩ := taken
  rw [same]
  have kept : Counted c₁ ∨ acked = true := by
    obtain none_ | ⟨one, len, sent | acked⟩ := once
    · exact .inl (.inl none_)
    · exact .inl (.inr ⟨one, by rw [phase']; decide, fun _ => ⟨len, sent⟩⟩)
    · exact .inr acked
  cases fin with
  | true =>
      rw [if_pos rfl]
      split_ifs with busy
      · obtain none_ | ⟨-, len, -⟩ := once
        · exact .inl none_
        · exact absurd len busy
      · exact once.imp id fun once => ⟨once.1, by simp [Active.notify], by simp [Active.notify]⟩
  | false =>
      rw [if_neg Bool.false_ne_true]
      split_ifs with calls
      · exact Counted.respond phase' rfl once
      · obtain counted' | acked := kept
        · exact counted'
        · exact absurd (.inl acked) calls

theorem Counted.step (counted : Counted c) (input : Input) :
    Counted (c.step ecmdSenderNetMain input) := by
  cases phase : c.phase with
  | synSent =>
      have none_ : c.acknowledged = 0 := counted.resolve_right fun once => once.2.1 phase
      refine .inl ?_
      cases input with
      | reset | expire | timer => simp [Active.step, phase, Active.notify, none_]
      | synAck mss stale =>
          simp only [Active.step, phase]
          exact none_
      | segment acks data fin mss stale =>
          simp only [Active.step, phase]
          exact none_
  | established =>
      cases input with
      | synAck mss stale =>
          simp only [Active.step, phase]
          exact counted
      | segment acks data fin mss stale =>
          simp only [Active.step, phase]
          exact counted.receive phase acks data fin mss stale
      | reset stale =>
          rw [Active.step, if_neg (by rw [phase]; decide)]
          exact counted.of_same rfl rfl
      | expire stale =>
          simp only [Active.step, phase]
          exact counted.of_same rfl rfl
      | timer stale =>
          rw [Active.step, if_pos phase]
          split_ifs with busy
          · exact counted.imp id fun once => absurd (once.2.2 phase).1 busy
          · refine Counted.respond phase rfl (counted.imp id fun once => ⟨once.1, ?_⟩)
            exact (once.2.2 phase).imp id .inl
  | finWait1 | finWait2 | closing | timeWait | lastAck | closed =>
      have ended : c.phase.isOpen = false := by rw [phase]; rfl
      have rests := rests_step ended input
      exact counted.of_same rests.acknowledged rests.ended

/-! ## The answer -/

/-- The connection has ended, and the callback was called for the first data or without any. -/
structure Answered (c : Active Sender) (taken : Option (List UInt8)) : Prop where
  ended : c.phase.isOpen = false
  callback : c.app.callback = false
  calls : c.app.calls = [match taken with
    | some data => .text data (UInt8.ofNat data.length)
    | none => .null]

theorem answered_of_brings {c' : Active Sender} (waits : Waits c) (data : List UInt8)
    (ended : c'.phase.isOpen = false)
    (app : c'.app = c.app.callsBack (.text data (UInt8.ofNat data.length))) :
    Answered c' (some data) := by
  rw [callsBack_pending waits.callback] at app
  exact ⟨ended, by rw [app], by rw [app, waits.calls]; rfl⟩

theorem Waits.respond (waits : Waits c) (brings : ¬Brings call) (opened : call.closed = false) :
    Waits (c.respond ecmdSenderNetMain call) := by
  obtain ⟨len, same, -⟩ := @respond_of_not_brings c call brings opened
  rw [same]
  exact ⟨waits.callback, waits.calls, waits.opened⟩

/-- The callback waits until there is data or a FIN. -/
theorem Waits.receive (waits : Waits c) (phase : c.phase = .established) (acks : Bool) (data : List UInt8)
    (fin : Bool) (mss : Nat) (stale : Bytes) :
    Waits (c.receive ecmdSenderNetMain acks data fin mss stale) ∧
        Run.takes c (.segment acks data fin mss stale) = none ∨
      Answered (c.receive ecmdSenderNetMain acks data fin mss stale)
        (Run.takes c (.segment acks data fin mss stale)) := by
  rw [Active.receive, Run.takes]
  dsimp only
  have taken : ∃ c₁ : Active Sender,
      (if (acks && decide (c.len ≠ 0)) = true then
        { c with
          len := 0
          acknowledged := c.acknowledged + 1 } else c) = c₁ ∧
        c₁.app = c.app ∧ c₁.phase = .established ∧ (c₁.len ≠ 0 ↔ c.len ≠ 0 ∧ ¬acks = true) := by
    cases acks with
    | false => exact ⟨c, rfl, rfl, phase, by simp⟩
    | true =>
        by_cases busy : c.len = 0
        · exact ⟨c, by simp [busy], rfl, phase, by simp [busy]⟩
        · exact ⟨_, if_pos (by simp [busy]), rfl, phase, by simp⟩
  obtain ⟨c₁, same, app, phase', busy⟩ := taken
  rw [same, phase]
  have waits' : Waits c₁ := by
    refine ⟨?_, ?_, ?_⟩
    · rw [app]
      exact waits.callback
    · rw [app]
      exact waits.calls
    · rw [phase']
      rfl
  by_cases empty : data = []
  · -- Without data, only a FIN calls the callback.
    have nothing : ¬(Phase.established = .established ∧ data ≠ [] ∧
        ¬(fin = true ∧ c.len ≠ 0 ∧ ¬acks = true)) := fun some_ => some_.2.1 empty
    rw [if_neg nothing]
    cases fin with
    | true =>
        rw [if_pos rfl]
        by_cases drops : c₁.len ≠ 0
        · rw [if_pos drops]
          exact .inl ⟨waits', rfl⟩
        · rw [if_neg drops, notify_of_not_brings (fun brings => brings.2 empty)]
          refine .inr ⟨rfl, ?_, ?_⟩
          · exact callback_callsBack ..
          · dsimp only
            rw [if_pos rfl, callsBack_pending waits'.callback, waits'.calls]
            rfl
    | false =>
        rw [if_neg Bool.false_ne_true]
        refine .inl ⟨?_, rfl⟩
        split_ifs
        · exact Waits.respond ⟨waits'.callback, waits'.calls, waits'.opened⟩ (fun brings => brings.2 empty) rfl
        · exact ⟨waits'.callback, waits'.calls, waits'.opened⟩
  · by_cases drops : fin = true ∧ c₁.len ≠ 0
    · obtain ⟨rfl, busy'⟩ := drops
      have nothing : ¬(Phase.established = .established ∧ data ≠ [] ∧
          ¬(true = true ∧ c.len ≠ 0 ∧ ¬acks = true)) := fun some_ => some_.2.2 ⟨rfl, busy.mp busy'⟩
      rw [if_neg nothing, if_pos rfl, if_pos busy']
      exact .inl ⟨waits', rfl⟩
    · have some_ : Phase.established = .established ∧ data ≠ [] ∧
          ¬(fin = true ∧ c.len ≠ 0 ∧ ¬acks = true) :=
        ⟨rfl, empty, fun both => drops ⟨both.1, busy.mpr both.2⟩⟩
      rw [if_pos some_]
      right
      have newdata : decide (data ≠ []) = true := decide_eq_true empty
      cases fin with
      | true =>
          rw [if_pos rfl, if_neg fun busy' => drops ⟨rfl, busy'⟩, notify_of_brings ⟨newdata, empty⟩]
          exact answered_of_brings waits' data rfl rfl
      | false =>
          rw [if_neg Bool.false_ne_true, if_pos (.inr empty), respond_of_brings ⟨newdata, empty⟩]
          exact answered_of_brings waits' data rfl rfl

/-! ## Runs -/

variable {r : Run}

/-- The callback waits, or it was called for the first data. -/
inductive Sound (r : Run) : Prop where
  | waits (waits : Waits r.connection) (arrived : r.arrived = none)
  | answered (answered : Answered r.connection r.arrived) (short : ∀ data ∈ r.arrived, data.length < 256)

/-- The callback was not called and will not be called, or it was called with a wrong length. -/
inductive Lost (r : Run) : Prop where
  | silent (closed : r.connection.phase = .closed) (calls : r.connection.app.calls = [])
  | wrong (answered : Answered r.connection r.arrived) (long : ∃ data ∈ r.arrived, 256 ≤ data.length)

theorem takes_ended (ended : c.phase.isOpen = false) (input : Input) : Run.takes c input = none := by
  have later : ¬c.phase = .established := fun phase => by
    rw [phase] at ended
    exact Bool.false_ne_true ended.symm
  cases input with
  | segment => exact if_neg fun some_ => later some_.1
  | _ => rfl

theorem Answered.step {taken : Option (List UInt8)} (answered : Answered c taken) (input : Input) :
    Answered (c.step ecmdSenderNetMain input) taken := by
  have rests := rests_step answered.ended input
  obtain ⟨callback, calls⟩ := rests.app answered.callback
  exact ⟨rests.ended, callback, calls.trans answered.calls⟩

theorem Answered.run (answered : Answered r.connection r.arrived) (input : Input) :
    Answered (r.step input).connection (r.step input).arrived ∧ (r.step input).arrived = r.arrived := by
  have same : (r.step input).arrived = r.arrived := by
    rw [Run.step, takes_ended answered.ended]
    cases r.arrived with
    | none => rfl
    | some data => rfl
  rw [same]
  exact ⟨answered.step input, rfl⟩

theorem Lost.step (lost : Lost r) (input : Input) : Lost (r.step input) := by
  cases lost with
  | silent closed calls =>
      have ended : r.connection.phase.isOpen = false := by rw [closed]; rfl
      have same := (rests_step ended input).closed closed
      refine .silent ?_ ?_
      · exact (congrArg Active.phase same).trans closed
      · exact (congrArg (fun c => c.app.calls) same).trans calls
  | wrong answered long =>
      obtain ⟨next, same⟩ := answered.run input
      exact .wrong next (by rw [same]; exact long)

theorem Lost.not_exact (lost : Lost r) : ¬r.Exact := by
  rintro ⟨⟨call, called, right⟩, -⟩
  cases lost with
  | silent closed calls =>
      rw [calls] at called
      exact absurd called.symm (List.cons_ne_nil call [])
  | wrong answered long =>
      obtain ⟨data, arrived, long⟩ := long
      have arrived : r.arrived = some data := arrived
      rw [arrived] at right
      obtain ⟨len, -, same⟩ := right
      exact absurd len.toNat_lt (Nat.not_lt.mpr (same ▸ long))

/-- A connection that is aborted or given up does not call the callback. -/
theorem Waits.lost (waits : Waits r.connection) {input : Input}
    (notified : r.connection.step ecmdSenderNetMain input = r.connection.notify ecmdSenderNetMain call .closed)
    (brings : call.newdata = false) (closed : call.closed = false) : Lost (r.step input) := by
  have silent : ¬Brings call := fun both => Bool.false_ne_true (brings.symm.trans both.1)
  have calls : (r.step input).connection.app.calls = [] := by
    rw [Run.step, notified, notify_of_not_brings silent, if_neg (by rw [closed]; exact Bool.false_ne_true)]
    exact waits.calls
  exact .silent (congrArg Active.phase notified) calls

theorem Waits.keeps (arrived : r.arrived = none) {input : Input}
    (waits : Waits (r.connection.step ecmdSenderNetMain input))
    (taken : Run.takes r.connection input = none) : Sound (r.step input) := by
  refine .waits waits ?_
  rw [Run.step, arrived, taken]
  rfl

theorem Waits.segment (waits : Waits r.connection) (arrived : r.arrived = none)
    (phase : r.connection.phase = .established) (acks : Bool) (data : List UInt8) (fin : Bool) (mss : Nat)
    (stale : Bytes) :
    r.Heard (.segment acks data fin mss stale) ∧ Sound (r.step (.segment acks data fin mss stale)) ∨
      ¬r.Heard (.segment acks data fin mss stale) ∧ Lost (r.step (.segment acks data fin mss stale)) := by
  have later : r.connection.phase ≠ .synSent := by rw [phase]; decide
  have received : r.connection.step ecmdSenderNetMain (.segment acks data fin mss stale) =
      r.connection.receive ecmdSenderNetMain acks data fin mss stale := by
    rw [Active.step, phase]
  have result := waits.receive phase acks data fin mss stale
  rw [← received] at result
  obtain ⟨kept, taken⟩ | answered := result
  · refine .inl ⟨fun _ => ⟨later, ?_⟩, kept.keeps arrived taken⟩
    rw [taken]
    exact fun data among => absurd among (Option.not_mem_none data)
  · have first : (r.step (.segment acks data fin mss stale)).arrived =
        Run.takes r.connection (.segment acks data fin mss stale) := by
      rw [Run.step, arrived]
      rfl
    rw [← first] at answered
    by_cases short : ∀ text ∈ (r.step (.segment acks data fin mss stale)).arrived, text.length < 256
    · refine .inl ⟨fun _ => ⟨later, ?_⟩, .answered answered short⟩
      rw [← first]
      exact short
    · refine .inr ⟨fun heard => short ?_, .wrong answered ?_⟩
      · rw [first]
        exact (heard waits.callback).2
      · push Not at short
        exact short

/-- An event is heard, or the callback is lost. -/
theorem Sound.step (sound : Sound r) (input : Input) :
    r.Heard input ∧ Sound (r.step input) ∨ ¬r.Heard input ∧ Lost (r.step input) := by
  cases sound with
  | answered answered short =>
      obtain ⟨next, same⟩ := answered.run input
      refine .inl ⟨fun pending => ?_, .answered next (by rw [same]; exact short)⟩
      exact absurd (answered.callback.symm.trans pending) Bool.false_ne_true
  | waits waits arrived =>
      have opened : ¬r.connection.phase = .closed := fun phase => by
        have opened := waits.opened
        rw [phase] at opened
        exact Bool.false_ne_true opened
      have plain (call : Call) (data : call.data = []) : ¬Brings call := fun brings => brings.2 data
      cases input with
      | synAck mss stale =>
          refine .inl ⟨fun _ => trivial, Waits.keeps arrived ?_ rfl⟩
          rw [Active.step]
          split
          · exact Waits.respond ⟨waits.callback, waits.calls, rfl⟩ (plain _ rfl) rfl
          · exact waits
      | segment acks data fin mss stale =>
          cases phase : r.connection.phase with
          | synSent =>
              have notified : r.connection.step ecmdSenderNetMain (.segment acks data fin mss stale) =
                  r.connection.notify ecmdSenderNetMain
                    { Call.plain stale r.connection.mss with aborted := true } .closed := by
                rw [Active.step, phase]
              exact .inr ⟨fun heard => (heard waits.callback).1 phase, waits.lost notified rfl rfl⟩
          | established => exact waits.segment arrived phase acks data fin mss stale
          | finWait1 | finWait2 | closing | timeWait | lastAck | closed =>
              have opened := waits.opened
              rw [phase] at opened
              exact absurd opened Bool.false_ne_true
      | reset stale =>
          exact .inr ⟨fun heard => heard waits.callback, waits.lost (if_neg opened) rfl rfl⟩
      | timer stale =>
          refine .inl ⟨fun _ => trivial, Waits.keeps arrived ?_ rfl⟩
          rw [Active.step]
          split_ifs
          · rw [(main_of_not_brings (plain _ rfl)).1]
            exact ⟨waits.callback, waits.calls, waits.opened⟩
          · exact waits.respond (plain _ rfl) rfl
          · exact waits
      | expire stale =>
          refine .inr ⟨fun heard => heard waits.callback, ?_⟩
          cases phase : r.connection.phase with
          | synSent | established =>
              have notified : r.connection.step ecmdSenderNetMain (.expire stale) =
                  r.connection.notify ecmdSenderNetMain
                    { Call.plain stale r.connection.mss with timedout := true } .closed := by
                rw [Active.step, phase]
              exact waits.lost notified rfl rfl
          | finWait1 | finWait2 | closing | timeWait | lastAck | closed =>
              have opened := waits.opened
              rw [phase] at opened
              exact absurd opened Bool.false_ne_true

theorem Lost.run (lost : Lost r) (events : List Input) : Lost (events.foldl Run.step r) := by
  induction events generalizing r with
  | nil => exact lost
  | cons input events ih => exact ih (lost.step input)

theorem Counted.run (counted : Counted r.connection) (events : List Input) :
    Counted (events.foldl Run.step r).connection := by
  induction events generalizing r with
  | nil => exact counted
  | cons input events ih => exact ih (r := r.step input) (counted.step input)

/-- A run is heard in each of its events, or the callback is lost. -/
theorem Sound.run (sound : Sound r) (events : List Input) :
    EachMeets Run.step Run.Heard r events ∧ Sound (events.foldl Run.step r) ∨
      ¬EachMeets Run.step Run.Heard r events ∧ Lost (events.foldl Run.step r) := by
  induction events generalizing r with
  | nil => exact .inl ⟨trivial, sound⟩
  | cons input events ih =>
      obtain ⟨heard, next⟩ | ⟨unheard, lost⟩ := sound.step input
      · exact (ih next).imp (fun both => ⟨⟨heard, both.1⟩, both.2⟩)
          fun both => ⟨fun all => both.1 all.2, both.2⟩
      · exact .inr ⟨fun all => unheard all.1, lost.run events⟩

theorem Sound.exact (sound : Sound r) (ended : r.Over) (counted : Counted r.connection) : r.Exact := by
  have once : r.connection.acknowledged ≤ 1 := by
    obtain none_ | ⟨one, -⟩ := counted
    · exact none_.trans_le (Nat.zero_le 1)
    · exact one.le
  cases sound with
  | waits waits arrived => exact absurd (waits.opened.symm.trans ended) (by decide)
  | answered answered short =>
      refine ⟨⟨_, answered.calls, ?_⟩, once⟩
      cases arrived : r.arrived with
      | none => rfl
      | some data => exact ⟨_, rfl, UInt8.toNat_ofNat_of_lt (short data arrived)⟩

/-- In a run that ends, the callback is called exactly once, and as it should be, if and only if no event
before the answer ends the connection without a FIN and the answer has less than 256 bytes. -/
theorem exact_iff_heard (pgm_data : List UInt8) (events : List Input)
    (ended : (events.foldl Run.step (Run.start pgm_data)).Over) :
    (events.foldl Run.step (Run.start pgm_data)).Exact ↔
      EachMeets Run.step Run.Heard (Run.start pgm_data) events := by
  have sound : Sound (Run.start pgm_data) := .waits ⟨rfl, rfl, rfl⟩ rfl
  have counted : Counted (Run.start pgm_data).connection := .inl rfl
  obtain ⟨heard, sound⟩ | ⟨unheard, lost⟩ := sound.run events
  · exact iff_of_true (sound.exact ended (counted.run events)) heard
  · exact iff_of_false lost.not_exact unheard

/-- The answer to a command that is acknowledged before it. -/
def versionAnswered : List Input :=
  [.synAck 100 fun _ => 0, .segment true [] false 100 fun _ => 0,
    .segment true [53, 48] false 100 fun _ => 0]

theorem exact_iff_heard_version :
    (versionAnswered.foldl Run.step (Run.start [118, 101, 114])).Exact := by
  refine (exact_iff_heard [118, 101, 114] versionAnswered (by decide)).mpr ?_
  refine ⟨fun _ => trivial, fun _ => ⟨by decide, by decide⟩,
    fun _ => ⟨by decide, by decide⟩, trivial⟩

/-- A peer that refuses the connection. -/
def refused : List Input := [.reset fun _ => 0]

theorem not_exact :
    (refused.foldl Run.step (Run.start [118, 101, 114])).Over ∧
      ¬(refused.foldl Run.step (Run.start [118, 101, 114])).Exact := by
  have silent : (refused.foldl Run.step (Run.start [118, 101, 114])).connection.app.calls = [] := by
    decide
  refine ⟨by decide, fun all => ?_⟩
  obtain ⟨call, called, -⟩ := all.calls
  exact List.cons_ne_nil call [] (called.symm.trans silent)

end Ethersex.EcmdSender
