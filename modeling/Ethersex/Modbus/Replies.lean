import Mathlib
import Ethersex.Library.Walks
import Ethersex.Modbus.Requests

/-!
# Replies over a run of frames

What a station puts on the wire for each frame of a run, next to the reply that its client
built.  The driver sends as many bytes as the request had in front of its checksum, answers
broadcasts, and keeps a frame for somebody else in front of the next one, so that the two agree
only on frames where none of this shows.
-/

namespace Ethersex.Modbus

open Ethersex.Library

/-! ## A frame arrives -/

/-- Some bytes put into the buffer one after another. -/
def place : List UInt8 → Nat → Bytes → Bytes
  | [], _, data => data
  | byte :: rest, offset, data => place rest (offset + 1) (Function.update data offset byte)

theorem place_apply (bytes : List UInt8) (offset : Nat) (data : Bytes) (k : Nat) :
    place bytes offset data k =
      if offset ≤ k ∧ k < offset + bytes.length then bytes.getD (k - offset) 0 else data k := by
  induction bytes generalizing offset data with
  | nil => rw [place, if_neg (by rw [List.length_nil]; omega)]
  | cons byte rest ih =>
      rw [place, ih, List.length_cons]
      by_cases first : k = offset
      · subst first
        rw [if_neg (by omega), Function.update_self, if_pos (by omega), Nat.sub_self]
        rfl
      · rw [Function.update_of_ne first]
        by_cases inside : offset + 1 ≤ k ∧ k < offset + 1 + rest.length
        · rw [if_pos inside, if_pos (by omega), show k - offset = k - (offset + 1) + 1 by omega]
          rfl
        · rw [if_neg inside, if_neg (by omega)]

theorem place_zero (bytes : List UInt8) (data : Bytes) :
    place bytes 0 data = memcpy data bytes bytes.length := by
  funext k
  rw [place_apply, memcpy, Nat.zero_add, Nat.sub_zero]
  exact if_congr (and_iff_right (Nat.zero_le k)) rfl rfl

/-- A frame is in the buffer behind what was there, and the timer runs. -/
theorem receiveFrame_eq (c : Config) (update : UInt16 → UInt8 → UInt16)
    (frame : List (UInt8 × Bool)) {s : Station} (room : s.len + frame.length ≤ MODBUS_BUFFER_LEN)
    (running : frame ≠ [] ∨ s.recvTimer = 1 ∨ s.recvTimer = 2) :
    ∃ timer, (timer = 1 ∨ timer = 2) ∧ receiveFrame c update frame s =
      some { s with
        data := place (frame.map Prod.fst) s.len s.data, len := s.len + frame.length,
        recvTimer := timer } := by
  induction frame generalizing s with
  | nil =>
      rcases running with absent | timer
      · exact absurd rfl absent
      · exact ⟨s.recvTimer, timer, rfl⟩
  | cons head rest ih =>
      obtain ⟨byte, tick⟩ := head
      rw [List.length_cons] at room
      have received : rxVect s byte = some { s with
          data := Function.update s.data s.len byte, len := s.len + 1, recvTimer := 2 } :=
        if_pos (by omega)
      have next : s.len + 1 + rest.length = s.len + (rest.length + 1) := by omega
      rw [receiveFrame, received, Option.bind_some]
      cases tick with
      | false =>
          obtain ⟨timer, runs, ends⟩ := ih (s := { s with
              data := Function.update s.data s.len byte, len := s.len + 1, recvTimer := 2 })
            (by dsimp only; omega) (.inr (.inr rfl))
          refine ⟨timer, runs, ?_⟩
          rw [if_neg Bool.false_ne_true, ends]
          dsimp only
          rw [next]
          rfl
      | true =>
          obtain ⟨timer, runs, ends⟩ := ih (s := { s with
              data := Function.update s.data s.len byte, len := s.len + 1, recvTimer := 1 })
            (by dsimp only; omega) (.inr (.inl rfl))
          refine ⟨timer, runs, ?_⟩
          rw [if_pos rfl, modbusPeriodic, if_neg (by exact Nat.succ_ne_zero 1)]
          dsimp only
          rw [if_pos (by decide), Option.bind_some]
          dsimp only
          rw [ends]
          dsimp only
          rw [next]
          rfl

/-! ## A transmission -/

/-- Between two frames: the timer is off and nothing is being sent. -/
structure Idle (s : Station) : Prop where
  recvTimer : s.recvTimer = 0
  txcie : s.txcie = false
  crcLen : s.crcLen = 0

/-- The rest of a transmission, byte by byte from the buffer. -/
theorem drain_eq (fuel left : Nat) {s : Station} (sending : s.txcie = true) (noCrc : s.crcLen = 0)
    (remaining : s.txLen - s.sent = left) (enough : left < fuel) :
    drain fuel s =
      ({ s with sent := s.sent + left, txcie := false },
        (List.range left).map fun k => s.data (s.sent + k)) := by
  induction left generalizing fuel s with
  | zero =>
      obtain ⟨fuel, rfl⟩ : ∃ less, fuel = less + 1 := ⟨fuel - 1, by omega⟩
      have last : txVect s = ({ s with txcie := false }, none) := by
        rw [txVect, if_neg (by omega), if_neg (not_not_intro noCrc)]
      have stopped : ∀ fuel, drain fuel { s with txcie := false } = ({ s with txcie := false }, []) :=
        fun fuel => by cases fuel <;> rfl
      rw [drain, if_pos sending, last, stopped]
      rfl
  | succ left ih =>
      obtain ⟨fuel, rfl⟩ : ∃ less, fuel = less + 1 := ⟨fuel - 1, by omega⟩
      have next : txVect s = ({ s with sent := s.sent + 1 }, some (s.data s.sent)) := by
        rw [txVect, if_pos (by omega)]
      rw [drain, if_pos sending, next, ih fuel (s := { s with sent := s.sent + 1 }) sending noCrc
        (by dsimp only; omega) (by omega), List.range_succ_eq_map, List.map_cons, List.map_map]
      dsimp only [Option.toList]
      rw [Nat.add_right_comm, Nat.add_assoc s.sent]
      refine Prod.ext rfl (congrArg (_ :: ·) (List.map_congr_left fun k _ => ?_))
      rw [Function.comp_apply, Nat.succ_eq_add_one, Nat.add_comm k, Nat.add_assoc]

/-! ## One frame -/

/-- The buffer after a frame that found it empty. -/
def received (s : Station) (frame : List (UInt8 × Bool)) : Bytes :=
  memcpy s.data (frame.map Prod.fst) frame.length

theorem frameEnd_frame {c : Config} {update : UInt16 → UInt8 → UInt16} {s next : Station}
    {out : Option UInt8} (ends : frameEnd c update s = some (next, out)) :
    next.recvTimer = s.recvTimer ∧ next.crcLen = s.crcLen := by
  unfold frameEnd at ends
  split at ends
  · cases ends
  split at ends
  · cases ends
    exact ⟨rfl, rfl⟩
  split at ends
  · cases ends
    exact ⟨rfl, rfl⟩
  obtain ⟨⟨registers, reply⟩, _, same⟩ := Option.map_eq_some_iff.mp ends
  dsimp only at same
  split at same <;> cases same <;> exact ⟨rfl, rfl⟩

/-- What happens at the end of the frame, and what is sent then. -/
theorem serve_eq (c : Config) (update : UInt16 → UInt8 → UInt16) {frame : List (UInt8 × Bool)}
    {s : Station} (empty : s.len = 0) (present : frame ≠ [])
    (fits : frame.length ≤ MODBUS_BUFFER_LEN) :
    serve c update frame s =
      (frameEnd c update { s with
        data := received s frame, len := frame.length, recvTimer := 0 }).map fun (next, first) =>
          ((drain 256 next).1, first.toList ++ (drain 256 next).2) := by
  obtain ⟨timer, runs, arrived⟩ := receiveFrame_eq c update frame (s := s)
    (by rw [empty]; omega) (.inl present)
  have content : place (frame.map Prod.fst) 0 s.data = received s frame := by
    rw [place_zero, List.length_map]
    rfl
  rw [empty, content, Nat.zero_add] at arrived
  rw [serve, arrived, Option.bind_some]
  rcases runs with rfl | rfl
  · -- the timer had run once before the silence: the frame ends at its next run
    have now : modbusPeriodic c update
        { s with data := received s frame, len := frame.length, recvTimer := 1 } =
        frameEnd c update { s with data := received s frame, len := frame.length, recvTimer := 0 } := by
      rfl
    rw [now]
    cases ends : frameEnd c update
        { s with data := received s frame, len := frame.length, recvTimer := 0 } with
    | none => rfl
    | some result =>
        obtain ⟨next, first⟩ := result
        have stopped : modbusPeriodic c update next = some (next, none) :=
          if_pos (frameEnd_frame ends).1
        rw [Option.bind_some]
        dsimp only
        rw [stopped]
        simp only [Option.map_some, Option.toList_none, List.append_nil]
  · have waits : modbusPeriodic c update
        { s with data := received s frame, len := frame.length, recvTimer := 2 } =
        some ({ s with data := received s frame, len := frame.length, recvTimer := 1 }, none) := rfl
    rw [waits, Option.bind_some]
    rfl

/-! ## The replies of a run -/

/-- What is due on the wire for a frame: the reply of the client to a request for this station,
with its checksum, and nothing to any other frame. -/
def due (c : Config) (update : UInt16 → UInt8 → UInt16) (s : Station) (frame : List (UInt8 × Bool)) :
    List UInt8 :=
  if ValidCrc update (received s frame) frame.length ∧ received s frame 0 = c.MODBUS_ADDRESS then
    match modbusClientProcess c update (received s frame) (frame.length - 2) s.registers with
    | some (_, reply) => (List.range reply.recvLen.toNat).map reply.data
    | none => []
  else []

/-- A station with what it sent and what was due, frame by frame. -/
structure Session where
  station : Station
  exchanges : List (List UInt8 × List UInt8)

/-- Nothing follows what is not defined. -/
def Session.step (c : Config) (update : UInt16 → UInt8 → UInt16) (session : Option Session)
    (frame : List (UInt8 × Bool)) : Option Session :=
  session.bind fun session =>
    (serve c update frame session.station).map fun (next, transmitted) =>
      ⟨next, session.exchanges ++ [(transmitted, due c update session.station frame)]⟩

/-- For every frame, what was due is what was sent. -/
def Session.Answers (session : Option Session) : Prop :=
  ∃ run, session = some run ∧ ∀ exchange ∈ run.exchanges, exchange.1 = exchange.2

instance : DecidablePred Session.Answers
  | none => isFalse fun ⟨_, same, _⟩ => nomatch same
  | some run =>
      decidable_of_iff (∀ exchange ∈ run.exchanges, exchange.1 = exchange.2)
        ⟨fun answered => ⟨run, rfl, answered⟩, fun ⟨_, same, answered⟩ => Option.some.inj same ▸ answered⟩

/-! ## When they are the replies that are due -/

/-- The reply to a request is as long as the request is without its checksum: five bytes for an
exception, eight for a multiple write, and two for each register of a read and five more.  The
echo of a single write is never as short as that. -/
def Matching (c : Config) (data : Bytes) (length : Nat) : Prop :=
  if data 1 = MODBUS_CMD_READ_HOLDING ∨ data 1 = MODBUS_CMD_READ_INPUTS then
    if space c data < start data % 256 + quantity data % 256 then length = 5
    else 2 * quantity data % 256 + 5 ≤ MODBUS_BUFFER_LEN ∧ length = 2 * quantity data % 256 + 5
  else if data 1 = MODBUS_CMD_WRITE_HOLDING then space c data ≤ start data ∧ length = 5
  else if data 1 = MODBUS_CMD_WRITE_MULTIPLE_HOLDING then
    if space c data ≤ start data % 256 + quantity data % 256 then length = 5
    else (quantity data % 256 = 0 ∨ 7 + 2 * (quantity data % 256) ≤ MODBUS_BUFFER_LEN) ∧ length = 8
  else length = 5

instance (c : Config) (data : Bytes) (length : Nat) : Decidable (Matching c data length) :=
  inferInstanceAs (Decidable (ite _ _ _))

/-- The frame finds an empty buffer and fits it.  With a valid checksum it is no broadcast, and
if it is for this station, the reply to it is as long as the request. -/
def Station.Meets (c : Config) (update : UInt16 → UInt8 → UInt16) (s : Station)
    (frame : List (UInt8 × Bool)) : Prop :=
  s.len = 0 ∧ 2 ≤ frame.length ∧ frame.length ≤ MODBUS_BUFFER_LEN ∧
    (ValidCrc update (received s frame) frame.length →
      received s frame 0 ≠ c.MODBUS_BROADCAST ∧
        (received s frame 0 = c.MODBUS_ADDRESS →
          Matching c (received s frame) (frame.length - 2)))

instance (c : Config) (update : UInt16 → UInt8 → UInt16) (s : Station) (frame : List (UInt8 × Bool)) :
    Decidable (s.Meets c update frame) :=
  inferInstanceAs (Decidable (_ ∧ _ ∧ _ ∧ (_ → _ ∧ (_ → _))))

def Session.Meets (c : Config) (update : UInt16 → UInt8 → UInt16) (session : Option Session)
    (frame : List (UInt8 × Bool)) : Prop :=
  ∀ run ∈ session, run.station.Meets c update frame

instance (c : Config) (update : UInt16 → UInt8 → UInt16) (session : Option Session)
    (frame : List (UInt8 × Bool)) : Decidable (Session.Meets c update session frame) :=
  inferInstanceAs (Decidable (∀ run ∈ session, run.station.Meets c update frame))

section Meets

variable {c : Config} {update : UInt16 → UInt8 → UInt16} {data : Bytes} {length : Nat} {r : Registers}

/-- An exception is five bytes long. -/
theorem exception_length {code : UInt8} (five : length = 5) :
    ∃ next reply, (sendError c update code data).map (r, ·) = some (next, reply) ∧
      reply.recvLen = length := by
  obtain ⟨reply, sent, count, _⟩ := @sendError_eq c update data code
  exact ⟨r, reply, by rw [sent]; rfl, by rw [count, five]; rfl⟩

theorem length_of_matching (matching : Matching c data length) :
    ∃ next reply, modbusClientProcess c update data length r = some (next, reply) ∧
      reply.recvLen = length := by
  unfold Matching at matching
  by_cases read : data 1 = MODBUS_CMD_READ_HOLDING ∨ data 1 = MODBUS_CMD_READ_INPUTS
  · rw [if_pos read] at matching
    rw [process_read read]
    split at matching
    next refused =>
        rw [if_pos refused]
        exact exception_length matching
    next accepted =>
        obtain ⟨fits, same⟩ := matching
        rw [if_neg accepted, if_pos fits]
        exact ⟨_, _, rfl, by rw [signed, same]; push_cast; ring⟩
  rw [if_neg read] at matching
  by_cases write : data 1 = MODBUS_CMD_WRITE_HOLDING
  · rw [if_pos write] at matching
    have registers : space c data = c.MODBUS_HOLD_REGISTERS :=
      if_neg fun inputs => read (.inr inputs)
    rw [modbusClientProcess, if_neg read, if_pos write, if_pos (registers ▸ matching.1)]
    exact exception_length matching.2
  rw [if_neg write] at matching
  by_cases multiple : data 1 = MODBUS_CMD_WRITE_MULTIPLE_HOLDING
  · rw [if_pos multiple] at matching
    rw [process_multiple multiple]
    split at matching
    next refused =>
        rw [if_pos refused]
        exact exception_length matching
    next accepted =>
        obtain ⟨fits, same⟩ := matching
        rw [if_neg accepted, if_pos fits]
        exact ⟨_, _, rfl, by rw [signed, same]; rfl⟩
  · rw [if_neg multiple] at matching
    rw [modbusClientProcess, if_neg read, if_neg write, if_neg multiple]
    exact exception_length matching

theorem matching_pos (matching : Matching c data length) : 5 ≤ length := by
  unfold Matching at matching
  split_ifs at matching <;> omega

theorem drain_of_idle (fuel : Nat) {s : Station} (idle : s.txcie = false) : drain fuel s = (s, []) := by
  cases fuel with
  | zero => rfl
  | succ fuel => rw [drain, if_neg (by rw [idle]; exact Bool.false_ne_true)]

/-- A frame that meets the condition is answered by what is due. -/
theorem serve_of_meets {s : Station} (idle : Idle s) {frame : List (UInt8 × Bool)}
    (meets : s.Meets c update frame) :
    ∃ next, serve c update frame s = some (next, due c update s frame) ∧ Idle next := by
  obtain ⟨empty, two, fits, fair⟩ := meets
  have present : frame ≠ [] := fun absent => by
    rw [absent, List.length_nil] at two
    omega
  rw [serve_eq c update empty present fits, frameEnd, if_neg (by exact Nat.not_lt.mpr two)]
  by_cases valid : ValidCrc update (received s frame) frame.length
  swap
  · rw [if_pos (by exact valid), due, if_neg fun both => valid both.1, Option.map_some]
    dsimp only
    rw [drain_of_idle 256 (by exact idle.txcie)]
    exact ⟨_, rfl, rfl, idle.txcie, idle.crcLen⟩
  obtain ⟨noBroadcast, answered⟩ := fair valid
  rw [if_neg (not_not_intro (by exact valid))]
  by_cases addressed : received s frame 0 = c.MODBUS_ADDRESS
  swap
  · rw [if_pos (by rintro (own | all); exacts [addressed own, noBroadcast all]), due,
      if_neg fun both => addressed both.2, Option.map_some]
    dsimp only
    rw [drain_of_idle 256 (by exact idle.txcie)]
    exact ⟨_, rfl, rfl, idle.txcie, idle.crcLen⟩
  have matching := answered addressed
  obtain ⟨next, reply, ran, count⟩ := length_of_matching (r := s.registers) matching
  have long := matching_pos matching
  have replies : reply.recvLen ≠ 0 := by omega
  obtain ⟨left, size⟩ : ∃ left, frame.length - 2 = left + 1 := ⟨frame.length - 3, by omega⟩
  rw [if_neg (not_not_intro (.inl addressed)), due, if_pos ⟨valid, addressed⟩]
  dsimp only
  rw [ran, Option.map_some, Option.map_some, if_pos replies]
  dsimp only
  have small : MODBUS_BUFFER_LEN = 100 := rfl
  rw [drain_eq 256 left rfl (by exact idle.crcLen) (by dsimp only; omega) (by omega)]
  refine ⟨_, congrArg some (Prod.ext rfl ?_), ⟨rfl, rfl, idle.crcLen⟩⟩
  rw [count, Int.toNat_natCast, size, List.range_succ_eq_map, List.map_cons, List.map_map]
  refine congrArg (_ :: ·) (List.map_congr_left fun k _ => ?_)
  exact congrArg reply.data (Nat.add_comm 1 k)

theorem idle_modbusInit (buffer : Bytes) (registers : Registers) : Idle (modbusInit buffer registers) :=
  ⟨rfl, rfl, rfl⟩

/-- The state between two frames of a run. -/
def Session.Settled (session : Option Session) : Prop :=
  ∃ run, session = some run ∧ Idle run.station ∧ ∀ exchange ∈ run.exchanges, exchange.1 = exchange.2

theorem Session.Settled.step {session : Option Session} (settled : Settled session)
    {frame : List (UInt8 × Bool)} (meets : Session.Meets c update session frame) :
    Settled (Session.step c update session frame) := by
  obtain ⟨run, rfl, idle, answered⟩ := settled
  obtain ⟨next, served, after⟩ := serve_of_meets idle (meets run rfl)
  rw [Session.step, Option.bind_some, served]
  refine ⟨_, rfl, after, fun exchange inside => ?_⟩
  rcases List.mem_append.mp inside with before | now
  · exact answered exchange before
  · rw [List.mem_singleton.mp now]

/-- In every run whose frames all meet the condition, every frame is answered by what is due. -/
theorem answers_of_eachMeets {buffer : Bytes} {frames : List (List (UInt8 × Bool))}
    (each : EachMeets (Session.step c update) (Session.Meets c update)
      (some ⟨modbusInit buffer r, []⟩) frames) :
    Session.Answers (frames.foldl (Session.step c update) (some ⟨modbusInit buffer r, []⟩)) := by
  have start : Session.Settled (some ⟨modbusInit buffer r, []⟩) :=
    ⟨_, rfl, idle_modbusInit buffer r, nofun⟩
  obtain ⟨run, ends, _, answered⟩ :=
    each.invariant (fun _ _ settled meets => Session.Settled.step settled meets) start
  exact ⟨run, ends, answered⟩

end Meets

/-! ## Runs in the configuration of the source -/

/-- A message with its checksum, as it comes over the line. -/
def frameWithCrc (message : List UInt8) : List (UInt8 × Bool) :=
  let crc := modbusCrcCalc crc16Update (frameOf message) message.length
  (message ++ [crc.toUInt8, (crc >>> 8).toUInt8]).map (·, false)

/-- The runs of the source's configuration from the reset on. -/
def session (frames : List (List (UInt8 × Bool))) : Option Session :=
  frames.foldl (Session.step sourceConfig crc16Update)
    (some ⟨modbusInit (fun _ => 0) ⟨fun _ => 0, []⟩, []⟩)

/-- A command that the station does not know, and a frame with a wrong checksum. -/
theorem answers_of_eachMeets_unknown :
    Session.Answers (session [frameWithCrc [240, 7, 1, 2, 3], [(240, true), (7, false), (9, true)]]) :=
  @answers_of_eachMeets sourceConfig crc16Update ⟨fun _ => 0, []⟩ (fun _ => 0)
    [frameWithCrc [240, 7, 1, 2, 3], [(240, true), (7, false), (9, true)]] (by decide +kernel)

/-- A read of one register, a broadcast, and a frame for another station in front of a request. -/
theorem not_answers :
    ¬ Session.Answers (session [frameWithCrc [240, 3, 0, 0, 0, 1]]) ∧
      ¬ Session.Answers (session [frameWithCrc [255, 6, 0, 0, 0, 1]]) ∧
      ¬ Session.Answers (session [frameWithCrc [17, 3, 0, 0, 0, 1],
        frameWithCrc [240, 7, 1, 2, 3]]) := by
  decide +kernel

end Ethersex.Modbus
