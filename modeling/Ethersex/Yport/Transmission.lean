import Mathlib
import Ethersex.Library.Walks
import Ethersex.Yport.Model

/-!
# From the network to the port

The bytes that have left the port, those in the registers of the transmitter and those that wait in the
send buffer are the bytes of the accepted segments, as long as no interrupt finds anything to send while
`yport_rxstart` is at work, and that does not write its first byte over one that still waits.
-/

namespace Ethersex.Yport

open Library Uip

section Runs

variable {Conn : Type}

namespace State

/-! ## What is to hold, and when -/

/-- The bytes that leave the port are those of the accepted segments, in order, and all of them when
nothing is on the way; no byte was written over another one; and each segment that was acknowledged is
accepted as a whole. -/
structure Delivered (s : State Conn) : Prop where
  ordered : s.uart.line <+: s.accepted.flatten
  drained : s.call = none → s.uart.shift = none → ¬s.Interrupted → s.uart.line = s.accepted.flatten
  written : s.uart.overrun = false
  whole : s.acknowledged = s.accepted ++ (s.call.map Call.data).toList

/-- While `yport_rxstart` is at work, interrupts find nothing to send.  It is called for segments that
fit in the send buffer, and for all that are acknowledged.  It writes its first byte when there is
at most one in the transmitter. -/
def Careful [DecidableEq Conn] (s : State Conn) : Event Conn → Prop
  | .transmitted => s.Interrupted → (∃ call ∈ s.call, call.point ≠ .entry) →
      s.yport_send_buffer.len ≤ s.yport_send_buffer.sent
  | .go => ∀ call ∈ s.call, ¬s.Interrupted →
      (call.point = .entry → s.yport_send_buffer.len = s.yport_send_buffer.sent ∨
        s.yport_send_buffer.len - s.yport_send_buffer.sent + call.data.length < YPORT_BUFFER_LEN) ∧
      (call.point = .store → s.uart.data = none)
  | .connect conn data _ _ => s.Ready → (s.flow conn).status = .closed → data = []
  | .packet conn ack data _ _ => s.Ready → (s.flow conn).status = .established → s.stopped conn = false →
      data ≠ [] → s.acks conn ack = false ∧ data.length ≤ YPORT_BUFFER_LEN
  | .fin conn ack data => s.Ready → (s.flow conn).status = .established → s.stopped conn = false →
      ((s.flow conn).len = 0 ∨ s.acks conn ack = true) → data = []
  | _ => True

/-! ## The send buffer -/

/-- All that is accepted and has not left the port yet is in its registers or in the buffer, and there
is an interrupt to come when something is in the buffer. -/
structure Steady (s : State Conn) : Prop where
  sent_le : s.yport_send_buffer.sent ≤ s.yport_send_buffer.len
  content : s.uart.line ++ s.uart.pending ++
    s.yport_send_buffer.between s.yport_send_buffer.sent s.yport_send_buffer.len = s.accepted.flatten
  alive : s.yport_send_buffer.sent < s.yport_send_buffer.len →
    s.TXCIE = true ∧ (s.uart.shift ≠ none ∨ s.uart.complete = true)

/-- What the send buffer holds in front of a statement of `yport_rxstart`. -/
def Stage (s : State Conn) (data : List UInt8) : Point → Prop
  | .entry => s.Steady
  | .move diff => s.Steady ∧ diff = s.yport_send_buffer.len - s.yport_send_buffer.sent ∧
      diff + data.length ≤ YPORT_BUFFER_LEN
  | .copy diff => diff + data.length ≤ YPORT_BUFFER_LEN ∧
      s.uart.line ++ s.uart.pending ++ s.yport_send_buffer.between 0 diff = s.accepted.flatten
  | .len diff => diff + data.length ≤ YPORT_BUFFER_LEN ∧
      s.uart.line ++ s.uart.pending ++ s.yport_send_buffer.between 0 (diff + data.length) =
        s.accepted.flatten ++ data
  | .sent => 0 < s.yport_send_buffer.len ∧
      s.uart.line ++ s.uart.pending ++ s.yport_send_buffer.between 0 s.yport_send_buffer.len =
        s.accepted.flatten ++ data
  | .enable => 0 < s.yport_send_buffer.len ∧ s.yport_send_buffer.sent = 1 ∧
      s.uart.line ++ s.uart.pending ++ s.yport_send_buffer.between 0 s.yport_send_buffer.len =
        s.accepted.flatten ++ data
  | .store => 0 < s.yport_send_buffer.len ∧ s.yport_send_buffer.sent = 1 ∧
      s.uart.line ++ s.uart.pending ++ s.yport_send_buffer.between 0 s.yport_send_buffer.len =
        s.accepted.flatten ++ data ∧
      (s.TXCIE = false → s.yport_send_buffer.len = 1 ∧ s.uart.shift = none ∧ s.uart.complete = false)

structure Inv (s : State Conn) : Prop where
  sound : s.uart.Sound
  written : s.uart.overrun = false
  short : s.yport_send_buffer.len ≤ YPORT_BUFFER_LEN
  out : s.uart.line ++ s.uart.pending <+: s.accepted.flatten
  idle : s.call = none → s.acknowledged = s.accepted ∧ s.Steady
  busy : ∀ call ∈ s.call, s.acknowledged = s.accepted ++ [call.data] ∧ call.data ≠ [] ∧
    call.data.length ≤ YPORT_BUFFER_LEN ∧ s.Stage call.data call.point

theorem Inv.delivered {s : State Conn} (inv : s.Inv) : s.Delivered where
  ordered := (List.prefix_append ..).trans inv.out
  drained := by
    intro none shift quiet
    obtain ⟨-, steady⟩ := inv.idle none
    have content := steady.content
    have pending : s.uart.pending = [] := by
      rw [Transmitter.pending, shift, inv.sound.ordered shift]
      rfl
    have all : s.yport_send_buffer.sent = s.yport_send_buffer.len := by
      refine le_antisymm steady.sent_le (not_lt.mp fun some => ?_)
      obtain ⟨enabled, busy | complete⟩ := steady.alive some
      · exact busy shift
      · exact quiet ⟨complete, enabled⟩
    rwa [pending, all, Buffer.between_self, List.append_nil, List.append_nil] at content
  written := inv.written
  whole := by
    cases call : s.call with
    | none => rw [(inv.idle call).1, Option.map_none, Option.toList_none, List.append_nil]
    | some busy => rw [(inv.busy busy call).1]; rfl

theorem inv_start (send recv : Bytes) : (start send recv : State Conn).Inv where
  sound := Transmitter.idle_sound
  written := rfl
  short := Nat.zero_le _
  out := List.prefix_rfl
  idle := fun _ => ⟨rfl, le_rfl, rfl, fun some => absurd some (lt_irrefl 0)⟩
  busy := fun _ member => absurd member (Option.not_mem_none _)

/-! ## The interrupts -/

variable {s : State Conn}

/-- A byte leaves the port. -/
theorem Steady.frame (steady : s.Steady) (sound : s.uart.Sound) :
    ({ s with uart := s.uart.frame } : State Conn).Steady where
  sent_le := steady.sent_le
  content := by
    change s.uart.frame.line ++ s.uart.frame.pending ++ _ = _
    rw [Transmitter.line_pending_frame sound]
    exact steady.content
  alive := by
    intro some
    obtain ⟨enabled, busy | complete⟩ := steady.alive some
    · exact ⟨enabled, Transmitter.frame_busy busy⟩
    · refine ⟨enabled, .inr ?_⟩
      change s.uart.frame.complete = true
      rwa [Transmitter.frame_idle (sound.finished complete)]

theorem Stage.frame {data : List UInt8} {point : Point} (stage : s.Stage data point) (sound : s.uart.Sound) :
    ({ s with uart := s.uart.frame } : State Conn).Stage data point := by
  have out := Transmitter.line_pending_frame sound
  cases point with
  | entry => exact Steady.frame stage sound
  | move diff => exact ⟨Steady.frame stage.1 sound, stage.2⟩
  | copy diff => exact ⟨stage.1, by rw [← stage.2, ← out]⟩
  | len diff => exact ⟨stage.1, by rw [← stage.2, ← out]⟩
  | sent => exact ⟨stage.1, by rw [← stage.2, ← out]⟩
  | enable => exact ⟨stage.1, stage.2.1, by rw [← stage.2.2, ← out]⟩
  | store =>
      obtain ⟨some, one, content, disabled⟩ := stage
      refine ⟨some, one, by rw [← content, ← out], fun off => ?_⟩
      obtain ⟨last, idle, unset⟩ := disabled off
      change _ ∧ s.uart.frame.shift = none ∧ s.uart.frame.complete = false
      rw [Transmitter.frame_idle idle]
      exact ⟨last, idle, unset⟩

theorem Inv.frame (inv : s.Inv) : ({ s with uart := s.uart.frame } : State Conn).Inv where
  sound := inv.sound.frame
  written := (Transmitter.overrun_frame s.uart).trans inv.written
  short := inv.short
  out := by
    change s.uart.frame.line ++ s.uart.frame.pending <+: _
    rw [Transmitter.line_pending_frame inv.sound]
    exact inv.out
  idle := fun none => ⟨(inv.idle none).1, (inv.idle none).2.frame inv.sound⟩
  busy := by
    intro call member
    obtain ⟨acknowledged, nonempty, short, stage⟩ := inv.busy call member
    exact ⟨acknowledged, nonempty, short, stage.frame inv.sound⟩

theorem txVect_of_lt (short : s.yport_send_buffer.len ≤ YPORT_BUFFER_LEN)
    (more : s.yport_send_buffer.sent < s.yport_send_buffer.len) :
    s.txVect = { s with
      uart := s.uart.serve.write (s.yport_send_buffer.data s.yport_send_buffer.sent)
      yport_send_buffer := { s.yport_send_buffer with sent := s.yport_send_buffer.sent + 1 } } := by
  have next : (s.yport_send_buffer.sent + 1) % 256 = s.yport_send_buffer.sent + 1 :=
    Nat.mod_eq_of_lt (by rw [YPORT_BUFFER_LEN] at short; omega)
  rw [txVect, if_pos more, next]

theorem txVect_of_ge (all : s.yport_send_buffer.len ≤ s.yport_send_buffer.sent) :
    s.txVect = { s with uart := s.uart.serve, TXCIE := false } := by
  rw [txVect, if_neg (not_lt.mpr all)]

/-- The interrupt sends the next byte. -/
theorem Steady.send (steady : s.Steady) (short : s.yport_send_buffer.len ≤ YPORT_BUFFER_LEN)
    (sound : s.uart.Sound) (interrupted : s.Interrupted)
    (more : s.yport_send_buffer.sent < s.yport_send_buffer.len) : s.txVect.Steady := by
  have free : s.uart.serve.data = none := sound.ordered (sound.finished interrupted.1)
  have content := steady.content
  rw [Buffer.between_cons more] at content
  rw [txVect_of_lt short more]
  constructor
  · exact more
  · change (Transmitter.write _ _).line ++ (Transmitter.write _ _).pending ++ _ = _
    rw [Transmitter.line_write, Transmitter.pending_write free, ← content]
    simp only [List.append_assoc, Transmitter.line_serve, Transmitter.pending_serve]
    rfl
  · exact fun _ => ⟨interrupted.2, .inl (Transmitter.shift_write _ _)⟩

/-- The interrupt finds nothing to send. -/
theorem Stage.finish {data : List UInt8} {point : Point} (stage : s.Stage data point) (sound : s.uart.Sound)
    (interrupted : s.Interrupted) (all : s.yport_send_buffer.len ≤ s.yport_send_buffer.sent) :
    s.txVect.Stage data point := by
  rw [txVect_of_ge all]
  have steady (before : s.Steady) : Steady { s with uart := s.uart.serve, TXCIE := false } :=
    ⟨before.sent_le, before.content, fun more => absurd more (not_lt.mpr all)⟩
  cases point with
  | entry => exact steady stage
  | move diff => exact ⟨steady stage.1, stage.2⟩
  | copy diff => exact stage
  | len diff => exact stage
  | sent => exact stage
  | enable => exact stage
  | store =>
      obtain ⟨some, one, content, -⟩ := stage
      exact ⟨some, one, content, fun _ =>
        ⟨le_antisymm (all.trans one.le) some, sound.finished interrupted.1, rfl⟩⟩

/-- In front of `yport_rxstart`, or outside of it, bytes may be sent. -/
theorem Inv.send (inv : s.Inv) (interrupted : s.Interrupted)
    (more : s.yport_send_buffer.sent < s.yport_send_buffer.len)
    (outside : ∀ call ∈ s.call, call.point = .entry) : s.txVect.Inv := by
  have free : s.uart.serve.data = none := inv.sound.ordered (inv.sound.finished interrupted.1)
  have steady : s.txVect.Steady := by
    refine Steady.send ?_ inv.short inv.sound interrupted more
    cases call : s.call with
    | none => exact (inv.idle call).2
    | some busy =>
        obtain ⟨-, -, -, stage⟩ := inv.busy busy call
        rwa [outside busy call] at stage
  have after := txVect_of_lt inv.short more
  constructor
  · rw [after]
    exact Transmitter.sound_write rfl _
  · rw [after]
    exact (Transmitter.overrun_write free _).trans inv.written
  · rw [after]
    exact inv.short
  · exact ⟨_, steady.content⟩
  · intro none
    rw [after] at none
    refine ⟨?_, steady⟩
    rw [after]
    exact (inv.idle none).1
  · intro busy member
    rw [after] at member
    obtain ⟨acknowledged, nonempty, short, -⟩ := inv.busy busy member
    refine ⟨?_, nonempty, short, ?_⟩
    · rw [after]
      exact acknowledged
    · rw [outside busy member]
      exact steady

theorem Inv.finish (inv : s.Inv) (interrupted : s.Interrupted)
    (all : s.yport_send_buffer.len ≤ s.yport_send_buffer.sent) : s.txVect.Inv := by
  have after := txVect_of_ge all
  constructor
  · rw [after]
    exact inv.sound.serve
  · rw [after]
    exact inv.written
  · rw [after]
    exact inv.short
  · rw [after]
    exact inv.out
  · intro none
    rw [after] at none
    have stage : s.Stage [] .entry := (inv.idle none).2
    refine ⟨?_, stage.finish inv.sound interrupted all⟩
    rw [after]
    exact (inv.idle none).1
  · intro busy member
    rw [after] at member
    obtain ⟨acknowledged, nonempty, short, stage⟩ := inv.busy busy member
    refine ⟨?_, nonempty, short, stage.finish inv.sound interrupted all⟩
    rw [after]
    exact acknowledged

theorem Inv.txVect (inv : s.Inv) (interrupted : s.Interrupted)
    (careful : (∃ call ∈ s.call, call.point ≠ .entry) →
      s.yport_send_buffer.len ≤ s.yport_send_buffer.sent) : s.txVect.Inv := by
  rcases Nat.lt_or_ge s.yport_send_buffer.sent s.yport_send_buffer.len with more | all
  · refine inv.send interrupted more fun call member => ?_
    by_contra inside
    exact absurd (careful ⟨call, member, inside⟩) (not_le.mpr more)
  · exact inv.finish interrupted all

/-! ## The statements of `yport_rxstart` -/

/-- A statement that leaves the transmitter alone. -/
theorem Inv.advance (inv : s.Inv) {next : State Conn} {call : Call Conn} {point : Point}
    (member : s.call = some call) (uart : next.uart = s.uart) (accepted : next.accepted = s.accepted)
    (acknowledged : next.acknowledged = s.acknowledged)
    (short : next.yport_send_buffer.len ≤ YPORT_BUFFER_LEN)
    (goes : next.call = some { call with point }) (stage : next.Stage call.data point) : next.Inv where
  sound := uart ▸ inv.sound
  written := uart ▸ inv.written
  short := short
  out := by
    rw [uart, accepted]
    exact inv.out
  idle := fun none => absurd (goes.symm.trans none) (Option.some_ne_none _)
  busy := by
    intro other same
    obtain ⟨before, nonempty, fits, -⟩ := inv.busy call member
    obtain rfl := Option.some.inj (goes.symm.trans same)
    refine ⟨?_, nonempty, fits, stage⟩
    rw [acknowledged, accepted, before]

theorem Inv.entry [DecidableEq Conn] (inv : s.Inv) {call : Call Conn} (member : s.call = some call)
    (point : call.point = .entry)
    (careful : s.yport_send_buffer.len = s.yport_send_buffer.sent ∨
      s.yport_send_buffer.len - s.yport_send_buffer.sent + call.data.length < YPORT_BUFFER_LEN) :
    (s.yportRxstart call).Inv := by
  obtain ⟨-, -, fits, stage⟩ := inv.busy call member
  rw [point] at stage
  have steady : s.Steady := stage
  have short := inv.short
  have le := steady.sent_le
  have diff : (s.yport_send_buffer.len + 256 - s.yport_send_buffer.sent) % 256 =
      s.yport_send_buffer.len - s.yport_send_buffer.sent := by
    rw [YPORT_BUFFER_LEN] at short
    omega
  rw [yportRxstart, point, diff]
  dsimp only
  by_cases all : s.yport_send_buffer.len - s.yport_send_buffer.sent = 0
  · rw [if_pos all, all]
    refine inv.advance member rfl rfl rfl short rfl ⟨by omega, ?_⟩
    have content := steady.content
    rwa [show s.yport_send_buffer.sent = s.yport_send_buffer.len by omega, Buffer.between_self] at content
  · have room := careful.resolve_left (by omega)
    rw [if_neg all, if_pos room]
    exact inv.advance member rfl rfl rfl short rfl ⟨⟨le, steady.content, steady.alive⟩, rfl, room.le⟩

theorem Inv.store [DecidableEq Conn] (inv : s.Inv) {call : Call Conn} (member : s.call = some call)
    (point : call.point = .store) (quiet : ¬s.Interrupted) (free : s.uart.data = none) :
    (s.yportRxstart call).Inv := by
  obtain ⟨acknowledged, -, -, stage⟩ := inv.busy call member
  rw [point] at stage
  obtain ⟨some, one, content, disabled⟩ := stage
  have unset : s.uart.complete = false := by
    by_contra set
    have set := Bool.eq_true_of_not_eq_false set
    have off : s.TXCIE = false := Bool.eq_false_iff.mpr fun on => quiet ⟨set, on⟩
    exact absurd ((disabled off).2.2.symm.trans set) Bool.false_ne_true
  rw [Buffer.between_cons some] at content
  have flat : (s.accepted ++ [call.data]).flatten = s.accepted.flatten ++ call.data := by
    rw [List.flatten_append, List.flatten_singleton]
  have written : (s.uart.write (s.yport_send_buffer.data 0)).line ++
      (s.uart.write (s.yport_send_buffer.data 0)).pending ++
        s.yport_send_buffer.between 1 s.yport_send_buffer.len = (s.accepted ++ [call.data]).flatten := by
    rw [Transmitter.line_write, Transmitter.pending_write free, flat, ← content]
    simp only [List.append_assoc]
    rfl
  rw [yportRxstart, point]
  constructor
  · exact Transmitter.sound_write unset _
  · exact (Transmitter.overrun_write free _).trans inv.written
  · exact inv.short
  · exact ⟨_, written⟩
  · refine fun _ => ⟨acknowledged, ?_⟩
    constructor
    · exact one.le.trans some
    · change _ ++ _ ++ Buffer.between s.yport_send_buffer.sent _ _ = _
      rw [one]
      exact written
    · intro more
      refine ⟨Bool.eq_true_of_not_eq_false fun off => ?_, .inl (Transmitter.shift_write _ _)⟩
      have last := (disabled off).1
      change s.yport_send_buffer.sent < s.yport_send_buffer.len at more
      omega
  · exact fun other same => absurd same (Option.not_mem_none other)

theorem Inv.rxstart [DecidableEq Conn] (inv : s.Inv) {call : Call Conn} (member : s.call = some call)
    (quiet : ¬s.Interrupted)
    (careful : (call.point = .entry → s.yport_send_buffer.len = s.yport_send_buffer.sent ∨
        s.yport_send_buffer.len - s.yport_send_buffer.sent + call.data.length < YPORT_BUFFER_LEN) ∧
      (call.point = .store → s.uart.data = none)) : (s.yportRxstart call).Inv := by
  obtain ⟨-, nonempty, -, stage⟩ := inv.busy call member
  cases point : call.point with
  | entry => exact inv.entry member point (careful.1 point)
  | move diff =>
      rw [point] at stage
      obtain ⟨steady, rfl, fits⟩ := stage
      rw [yportRxstart, point]
      refine inv.advance member rfl rfl rfl inv.short rfl ⟨fits, ?_⟩
      change _ ++ _ ++ (Buffer.move _ _ _).between 0 _ = _
      rw [Buffer.between_move ((Nat.sub_le _ _).trans inv.short),
        Nat.add_sub_cancel' steady.sent_le]
      exact steady.content
  | copy diff =>
      rw [point] at stage
      obtain ⟨fits, content⟩ := stage
      rw [yportRxstart, point]
      refine inv.advance member rfl rfl rfl inv.short rfl ⟨fits, ?_⟩
      change s.uart.line ++ s.uart.pending ++ (Buffer.copy _ _ _).between 0 _ = s.accepted.flatten ++ _
      rw [Buffer.between_copy fits, ← content]
      simp only [List.append_assoc]
  | len diff =>
      rw [point] at stage
      obtain ⟨fits, content⟩ := stage
      have positive := List.length_pos_iff.mpr nonempty
      have total : (diff + call.data.length) % 256 = diff + call.data.length :=
        Nat.mod_eq_of_lt (by rw [YPORT_BUFFER_LEN] at fits; omega)
      rw [yportRxstart, point]
      dsimp only
      rw [total]
      exact inv.advance member rfl rfl rfl fits rfl ⟨Nat.add_pos_right _ positive, content⟩
  | sent =>
      rw [point] at stage
      rw [yportRxstart, point]
      exact inv.advance member rfl rfl rfl inv.short rfl ⟨stage.1, rfl, stage.2⟩
  | enable =>
      rw [point] at stage
      rw [yportRxstart, point]
      exact inv.advance member rfl rfl rfl inv.short rfl
        ⟨stage.1, stage.2.1, stage.2.2, fun off => absurd off.symm Bool.false_ne_true⟩
  | store => exact inv.store member point quiet (careful.2 point)

/-! ## The connections -/

/-- The port and the send buffer are the same. -/
structure SamePort (s next : State Conn) : Prop where
  buffer : next.yport_send_buffer = s.yport_send_buffer
  enabled : next.TXCIE = s.TXCIE
  uart : next.uart = s.uart
  accepted : next.accepted = s.accepted

theorem SamePort.refl (s : State Conn) : s.SamePort s := ⟨rfl, rfl, rfl, rfl⟩

theorem SamePort.trans {middle next : State Conn} (first : s.SamePort middle) (second : middle.SamePort next) :
    s.SamePort next :=
  ⟨second.buffer.trans first.buffer, second.enabled.trans first.enabled, second.uart.trans first.uart,
    second.accepted.trans first.accepted⟩

theorem SamePort.steady {next : State Conn} (same : s.SamePort next) (steady : s.Steady) : next.Steady := by
  obtain ⟨le, content, alive⟩ := steady
  constructor
  · rwa [same.buffer]
  · rwa [same.buffer, same.uart, same.accepted]
  · rwa [same.buffer, same.uart, same.enabled]

theorem SamePort.stage {next : State Conn} {data : List UInt8} {point : Point} (same : s.SamePort next)
    (stage : s.Stage data point) : next.Stage data point := by
  cases point with
  | entry => exact same.steady stage
  | move diff => exact ⟨same.steady stage.1, by rw [same.buffer]; exact stage.2⟩
  | copy diff => rwa [Stage, same.buffer, same.uart, same.accepted]
  | len diff => rwa [Stage, same.buffer, same.uart, same.accepted]
  | sent => rwa [Stage, same.buffer, same.uart, same.accepted]
  | enable => rwa [Stage, same.buffer, same.uart, same.accepted]
  | store => rwa [Stage, same.buffer, same.uart, same.accepted, same.enabled]

theorem Inv.same (inv : s.Inv) {next : State Conn} (same : s.SamePort next) (call : next.call = s.call)
    (acknowledged : next.acknowledged = s.acknowledged) : next.Inv := by
  constructor
  · rw [same.uart]
    exact inv.sound
  · rw [same.uart]
    exact inv.written
  · rw [same.buffer]
    exact inv.short
  · rw [same.uart, same.accepted]
    exact inv.out
  · intro none
    obtain ⟨before, steady⟩ := inv.idle (call.symm.trans none)
    exact ⟨by rw [acknowledged, same.accepted, before], same.steady steady⟩
  · intro busy member
    obtain ⟨before, nonempty, fits, stage⟩ := inv.busy busy (call.symm.trans member)
    exact ⟨by rw [acknowledged, same.accepted, before], nonempty, fits, same.stage stage⟩

theorem Inv.rxVect (inv : s.Inv) (ch : UInt8) (error : Bool) : (s.rxVect ch error).Inv := by
  unfold State.rxVect
  dsimp only
  split_ifs
  · exact inv
  · exact inv.same ⟨rfl, rfl, rfl, rfl⟩ rfl rfl
  · exact inv.same ⟨rfl, rfl, rfl, rfl⟩ rfl rfl

/-- Outside of `yport_rxstart` nothing changes for the port, except that it may be called with data
that were acknowledged. -/
theorem Inv.outside (inv : s.Inv) {next : State Conn} (none : s.call = none) (same : s.SamePort next)
    (calls : next.call = Option.none ∧ next.acknowledged = s.acknowledged ∨
      ∃ conn data, next.call = some ⟨conn, data, .entry⟩ ∧ next.acknowledged = s.acknowledged ++ [data] ∧
        data ≠ [] ∧ data.length ≤ YPORT_BUFFER_LEN) : next.Inv := by
  obtain ⟨before, steady⟩ := inv.idle none
  constructor
  · rw [same.uart]
    exact inv.sound
  · rw [same.uart]
    exact inv.written
  · rw [same.buffer]
    exact inv.short
  · rw [same.uart, same.accepted]
    exact inv.out
  · intro idle
    obtain ⟨-, acknowledged⟩ | ⟨conn, data, busy, -⟩ := calls
    · exact ⟨by rw [acknowledged, same.accepted, before], same.steady steady⟩
    · exact absurd (busy.symm.trans idle) (Option.some_ne_none _)
  · intro call member
    obtain ⟨idle, -⟩ | ⟨conn, data, busy, acknowledged, nonempty, fits⟩ := calls
    · exact absurd (idle.symm.trans member) (Option.some_ne_none _).symm
    · obtain rfl := Option.some.inj (busy.symm.trans member)
      exact ⟨by rw [acknowledged, same.accepted, before], nonempty, fits, same.steady steady⟩

theorem acknowledge_nil (s : State Conn) : s.acknowledge [] = s := if_pos rfl

theorem Ready.none (ready : s.Ready) : s.call = none := Option.isNone_iff_eq_none.mp ready.2

section Connections

variable [DecidableEq Conn] {f : Flags} {conn : Conn} {data : List UInt8} {mss : Nat} {stale : Bytes}

theorem samePort_change (conn : Conn) (next : Flow → Flow) (s : State Conn) :
    s.SamePort (s.change conn next) := ⟨rfl, rfl, rfl, rfl⟩

/-- What does not depend on the receive buffer and on the stopped connections is settled by the first
part of `yport_net_main`. -/
theorem view_yportNetMain {α : Type*} (view : State Conn → α)
    (stopped : ∀ (t : State Conn) other, view { t with stopped := other } = view t)
    (received : ∀ (t : State Conn) b, view { t with yport_recv_buffer := b } = view t) (f : Flags)
    (conn : Conn) (data : List UInt8) (s : State Conn) :
    view (s.yportNetMain f conn data).1 = view (s.handle f conn data).1 := by
  have restarted (t : State Conn) : view (t.restart f conn) = view t := by
    unfold restart
    split_ifs
    · exact stopped t _
    · rfl
  rw [← restarted (s.handle f conn data).1]
  unfold yportNetMain
  dsimp only
  split_ifs
  · exact received _ _
  · rfl

theorem samePort_yportNetMain (f : Flags) (conn : Conn) (data : List UInt8) (s : State Conn) :
    s.SamePort (s.yportNetMain f conn data).1 := by
  have handled : s.SamePort (s.handle f conn data).1 := by
    unfold handle
    split_ifs <;> exact ⟨rfl, rfl, rfl, rfl⟩
  refine handled.trans ⟨?_, ?_, ?_, ?_⟩
  · exact view_yportNetMain yport_send_buffer (fun _ _ => rfl) (fun _ _ => rfl) f conn data s
  · exact view_yportNetMain TXCIE (fun _ _ => rfl) (fun _ _ => rfl) f conn data s
  · exact view_yportNetMain uart (fun _ _ => rfl) (fun _ _ => rfl) f conn data s
  · exact view_yportNetMain accepted (fun _ _ => rfl) (fun _ _ => rfl) f conn data s

theorem acknowledged_yportNetMain (f : Flags) (conn : Conn) (data : List UInt8) (s : State Conn) :
    (s.yportNetMain f conn data).1.acknowledged = s.acknowledged := by
  rw [view_yportNetMain acknowledged (fun _ _ => rfl) (fun _ _ => rfl)]
  unfold handle
  split_ifs <;> rfl

/-- `yport_rxstart` is called for new data when the flags hold nothing else. -/
theorem call_yportNetMain (f : Flags) (conn : Conn) (data : List UInt8) (s : State Conn) :
    (s.yportNetMain f conn data).1.call =
      if f.connected = false ∧ f.acked = false ∧ f.closed = false ∧ f.newdata = true ∧
          data.length ≤ YPORT_BUFFER_LEN then
        some ⟨conn, data, .entry⟩
      else s.call := by
  rw [view_yportNetMain call (fun _ _ => rfl) (fun _ _ => rfl)]
  unfold handle
  split_ifs <;> simp_all

/-- A call of the program without new data. -/
theorem Inv.quiet (inv : s.Inv) (none : s.call = none) {before next : State Conn}
    (same : s.SamePort before) (calls : before.call = s.call) (acknowledged : before.acknowledged = s.acknowledged)
    (other : f.newdata = false) (after : (before.yportNetMain f conn data).1.SamePort next)
    (calls' : next.call = (before.yportNetMain f conn data).1.call)
    (acknowledged' : next.acknowledged = (before.yportNetMain f conn data).1.acknowledged) : next.Inv := by
  refine inv.outside none (same.trans ((samePort_yportNetMain f conn data before).trans after)) (.inl ⟨?_, ?_⟩)
  · rw [calls', call_yportNetMain, other, if_neg (by simp), calls, none]
  · rw [acknowledged', acknowledged_yportNetMain, acknowledged]

theorem samePort_callback (f : Flags) (conn : Conn) (data : List UInt8) (mss : Nat) (stale : Bytes)
    (s : State Conn) : s.SamePort (s.callback f conn data mss stale) :=
  (samePort_yportNetMain f conn data s).trans (samePort_change ..)

/-- uIP calls the program without new data. -/
theorem Inv.callback (inv : s.Inv) (none : s.call = none) {before : State Conn} (same : s.SamePort before)
    (calls : before.call = s.call) (acknowledged : before.acknowledged = s.acknowledged) (f : Flags)
    (other : f.newdata = false) (conn : Conn) (data : List UInt8) (mss : Nat) (stale : Bytes) :
    (before.callback f conn data mss stale).Inv :=
  inv.quiet none same calls acknowledged other
    (samePort_change conn (Flow.answer f.acked mss stale (before.yportNetMain f conn data).2) _) rfl rfl

theorem samePort_acked (conn : Conn) (ack : Bool) (s : State Conn) : s.SamePort (s.acked conn ack) := by
  unfold acked
  split
  · exact samePort_change ..
  · exact .refl s

theorem call_acked (conn : Conn) (ack : Bool) (s : State Conn) : (s.acked conn ack).call = s.call := by
  unfold acked
  split <;> rfl

theorem acknowledged_acked (conn : Conn) (ack : Bool) (s : State Conn) :
    (s.acked conn ack).acknowledged = s.acknowledged := by
  unfold acked
  split <;> rfl

theorem Inv.packet {ack : Bool} (inv : s.Inv) (ready : s.Ready)
    (careful : s.Careful (.packet conn ack data mss stale)) :
    (s.network (.packet conn ack data mss stale)).Inv := by
  have none := ready.none
  unfold State.network
  dsimp only
  by_cases status : (s.flow conn).status ≠ .established
  · rw [if_pos status]
    exact inv
  rw [if_neg status]
  by_cases empty : (if s.stopped conn then [] else data) = []
  · rw [empty]
    split_ifs with nothing
    · rw [acked, nothing.1]
      exact inv
    · rw [acknowledge_nil]
      exact inv.callback none (samePort_acked conn ack s) (call_acked conn ack s)
        (acknowledged_acked conn ack s) _ rfl conn [] mss stale
  · have running : s.stopped conn = false := by
      by_contra stopped
      exact empty (if_pos (Bool.eq_true_of_not_eq_false stopped))
    rw [running, if_neg Bool.false_ne_true] at empty ⊢
    obtain ⟨plain, fits⟩ := careful ready (not_ne_iff.mp status) running empty
    rw [if_neg fun nothing => empty nothing.2, acked, plain, if_neg Bool.false_ne_true, acknowledge,
      if_neg empty]
    let before : State Conn := { s with acknowledged := s.acknowledged ++ [data] }
    let f : Flags := { newdata := data ≠ [] }
    have same : s.SamePort before := ⟨rfl, rfl, rfl, rfl⟩
    have new : f.newdata = true := decide_eq_true empty
    exact inv.outside none (same.trans (samePort_callback f conn data mss stale before))
      (.inr ⟨conn, data, (call_yportNetMain f conn data before).trans (if_pos ⟨rfl, rfl, rfl, new, fits⟩),
        acknowledged_yportNetMain f conn data before, empty, fits⟩)

theorem Inv.fin {ack : Bool} (inv : s.Inv) (ready : s.Ready)
    (careful : s.Careful (.fin conn ack data)) : (s.network (.fin conn ack data)).Inv := by
  have none := ready.none
  unfold State.network
  dsimp only
  split_ifs with status outstanding
  · exact inv
  · exact inv.outside none (samePort_acked conn ack s)
      (.inl ⟨(call_acked conn ack s).trans none, acknowledged_acked conn ack s⟩)
  · have empty : data = [] := by
      obtain ⟨established, running⟩ := not_or.mp status
      refine careful ready (not_ne_iff.mp established) (Bool.eq_false_iff.mpr running) ?_
      by_cases acks : s.acks conn ack = true
      · exact .inr acks
      · rw [acked, if_neg acks] at outstanding
        exact .inl (not_ne_iff.mp outstanding)
    subst empty
    exact inv.quiet none (samePort_acked conn ack s) (call_acked conn ack s) (acknowledged_acked conn ack s)
      rfl (samePort_change ..) rfl rfl

theorem Inv.network (inv : s.Inv) (ready : s.Ready) {event : Event Conn} (careful : s.Careful event) :
    (s.network event).Inv := by
  have none := ready.none
  cases event with
  | connect conn data mss stale =>
      unfold State.network
      dsimp only
      split_ifs with open_
      · exact inv
      · obtain rfl := careful ready (not_ne_iff.mp open_)
        rw [acknowledge_nil]
        refine inv.callback none ?_ ?_ ?_ _ ?_ conn [] mss stale
        · exact ⟨rfl, rfl, rfl, rfl⟩
        · rfl
        · rfl
        · rfl
  | packet conn ack data mss stale => exact inv.packet ready careful
  | fin conn ack data => exact inv.fin ready careful
  | closed conn =>
      unfold State.network
      dsimp only
      split_ifs
      · exact inv
      · exact inv.quiet none (.refl s) rfl rfl rfl (samePort_change ..) rfl rfl
  | poll conn mss stale =>
      unfold State.network
      dsimp only
      split_ifs
      · exact inv
      · exact inv.callback none (.refl s) rfl rfl _ rfl conn [] mss stale
  | rexmit conn stale =>
      unfold State.network
      dsimp only
      split_ifs
      · exact inv
      · exact inv.quiet none (.refl s) rfl rfl rfl (samePort_change ..) rfl rfl
  | byte => exact inv
  | frame => exact inv
  | transmitted => exact inv
  | go => exact inv
  | take => exact inv

/-! ## Runs -/

theorem Inv.step {event : Event Conn} (inv : s.Inv) (careful : s.Careful event) : (s.step event).Inv := by
  have network : (if s.Ready then s.network event else s).Inv := by
    split_ifs with ready
    · exact inv.network ready careful
    · exact inv
  cases event with
  | byte ch error => exact inv.rxVect ch error
  | frame => exact inv.frame
  | transmitted =>
      unfold State.step
      dsimp only
      split_ifs with interrupted
      · exact inv.txVect interrupted (careful interrupted)
      · exact inv
  | go =>
      unfold State.step
      dsimp only
      cases call : s.call with
      | none => exact inv
      | some busy =>
          dsimp only
          split_ifs with interrupted
          · exact inv
          · exact inv.rxstart call interrupted (careful busy call interrupted)
  | take conn copy => exact inv.same (samePort_change conn (Flow.take copy) s) rfl rfl
  | connect => exact network
  | packet => exact network
  | fin => exact network
  | closed => exact network
  | poll => exact network
  | rexmit => exact network

end Connections

end State

/-- Whatever the interrupts and the segments come in between, what leaves the port is what was accepted,
as long as each step is one that the program expects. -/
theorem delivered_of_careful [DecidableEq Conn] (send recv : Bytes) (events : List (Event Conn))
    (careful : EachMeets State.step State.Careful (State.start send recv) events) :
    (events.foldl State.step (State.start send recv)).Delivered :=
  State.Inv.delivered (careful.invariant (fun _ _ inv meets => State.Inv.step inv meets)
    (State.inv_start send recv))

instance [DecidableEq Conn] (s : State Conn) : ∀ event, Decidable (s.Careful event)
  | .transmitted => inferInstanceAs (Decidable (_ → (∃ call ∈ s.call, _) → _))
  | .go => inferInstanceAs (Decidable (∀ call ∈ s.call, _))
  | .connect _ _ _ _ => inferInstanceAs (Decidable (_ → _ → _))
  | .packet _ _ _ _ _ => inferInstanceAs (Decidable (_ → _ → _ → _ → _))
  | .fin _ _ _ => inferInstanceAs (Decidable (_ → _ → _ → _ → _))
  | .byte _ _ | .frame | .take _ _ | .closed _ | .poll _ _ _ | .rexmit _ _ => isTrue trivial

/-- Two segments, the second one while the last byte of the first one goes out. -/
def twoSegments : List (Event Unit) :=
  let stale : Bytes := fun _ => 0
  [.connect () [] 500 stale, .packet () false [1, 2] 500 stale, .go, .go, .go, .go, .go, .go,
    .frame, .transmitted, .poll () 500 stale, .packet () false [3] 500 stale, .go, .go, .go, .go, .go, .go,
    .frame, .frame, .transmitted]

theorem delivered_of_careful_twoSegments :
    (twoSegments.foldl State.step (State.start (fun _ => 0) fun _ => 0)).Delivered :=
  delivered_of_careful (fun _ => 0) (fun _ => 0) twoSegments (by decide)

/-- A segment that also acknowledges what the client got from the port is acknowledged and thrown
away. -/
theorem not_delivered :
    ¬∀ (send recv : Bytes) (events : List (Event Unit)),
      (events.foldl State.step (State.start send recv)).Delivered := by
  intro holds
  let zeros : Bytes := fun _ => 0
  have whole := (holds zeros zeros [.connect () [] 500 zeros, .byte 120 false, .poll () 500 zeros, .take () 0,
    .packet () true [97] 500 zeros]).whole
  exact absurd whole (by decide)

end Runs

end Ethersex.Yport
