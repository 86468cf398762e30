import Mathlib
import Ethersex.Library.Walks
import Ethersex.Zbus.Transfer

/-!
# Receiving over any run of a station

A station whose interrupts, timer and main loop take turns in any order, on any stream of
bytes.  A packet that it hands to its stack is a frame of that stream, and it keeps listening,
as long as no frame comes to one of the ends that the receive interrupt does not handle: a
start marker inside of a frame, a byte behind the end of the buffer, a frame without content.
-/

namespace Ethersex.Zbus

open Ethersex.Library

/-- What can happen at a station.  The last three are the other users of the buffer. -/
inductive Event where
  | receive (failed : Bool) (data : UInt8)
  | transmit
  | periodic
  | process
  | txstart (size : Nat)
  | lock
  | unlock
  | write (buffer : Bytes)

/-- The next state, and the packet that is handed to the stack.  An interrupt comes only while
it is enabled, and only who has the lock gives it back or writes to the buffer. -/
def Station.step (bufferLen : Nat) (s : Station) : Event → Station × Option (List UInt8)
  | .receive failed data =>
      (if s.usart = .receiver then (rxVect bufferLen failed data s).1 else s, none)
  | .transmit => (if s.usart = .transmitter then (txVect s).1 else s, none)
  | .periodic => ((zbusCorePeriodic s).1, none)
  | .process => zbusProcess s
  | .txstart size => ((zbusTxstart size s).1, none)
  | .lock => ((uipBufLock .other s).getD s, none)
  | .unlock => (if s.lock = some .other then uipBufUnlock s else s, none)
  | .write buffer => (if s.lock = some .other then { s with zbusBuf := buffer } else s, none)

/-- The byte that the receive interrupt is given. -/
def Station.hears (s : Station) : Event → Option UInt8
  | .receive failed data => if s.usart = .receiver ∧ failed = false then some data else none
  | _ => none

/-- The marker or the byte of a frame that an event completes. -/
def Station.completes (s : Station) (event : Event) : Option (Symbol UInt8) :=
  (s.hears event).bind fun data => (zbusEscapes.read s.recvEscapeData data).2

/-- A station with the bytes that it heard and the packets that its stack was handed. -/
structure History where
  station : Station
  heard : List UInt8
  delivered : List (List UInt8)

def History.init (buffer : Bytes) : History := ⟨zbusCoreInit buffer, [], []⟩

def History.step (bufferLen : Nat) (h : History) (event : Event) : History where
  station := (h.station.step bufferLen event).1
  heard := h.heard ++ (h.station.hears event).toList
  delivered := h.delivered ++ (h.station.step bufferLen event).2.toList

/-- The markers and the bytes in what a station heard. -/
def History.symbols (h : History) : List (Symbol UInt8) := (zbusEscapes.scan false h.heard).2

/-- A packet as it stands in the stream, from a start marker to the next stop marker. -/
def framed (packet : List UInt8) : List (Symbol UInt8) := .start :: (packet.map .item ++ [.stop])

/-- Every packet that the stack was handed is a whole frame of the stream and fits. -/
def History.Genuine (bufferLen : Nat) (h : History) : Prop :=
  ∀ packet ∈ h.delivered, packet.length ≤ bufferLen ∧ framed packet <:+: h.symbols

instance (bufferLen : Nat) (h : History) : Decidable (h.Genuine bufferLen) :=
  inferInstanceAs (Decidable (∀ packet ∈ h.delivered,
    packet.length ≤ bufferLen ∧ framed packet <:+: h.symbols))

/-! ## What the variables say about each other -/

structure Coherent (s : Station) : Prop where
  receiving : s.usart = .receiver → s.zbusTxlen = 0 ∧ s.zbusRxlen = 0
  sending : s.usart = .transmitter → s.zbusRxlen = 0
  stopped : s.usart = .off → s.zbusTxlen = 0 ∧ s.busBlocked = 0

theorem coherent_zbusCoreInit (buffer : Bytes) : Coherent (zbusCoreInit buffer) :=
  ⟨fun _ => ⟨rfl, rfl⟩, fun _ => rfl, nofun⟩

/-- A step that hears nothing.  It opens no frame and stops no receiver, and it leaves a frame or
a packet alone whose buffer is locked. -/
structure Quiet (s next : Station) : Prop where
  coherent : Coherent next
  recvEscapeData : next.recvEscapeData = s.recvEscapeData
  frame : next.usart = .receiver → next.busBlocked ≠ 0 →
    s.usart = .receiver ∧ s.busBlocked ≠ 0 ∧ (s.lock = some .frame →
      next.lock = some .frame ∧ next.zbusIndex = s.zbusIndex ∧ next.zbusBuf = s.zbusBuf)
  packet : next.usart = .off → s.usart = .off ∧ next.zbusRxlen = s.zbusRxlen ∧
    (s.lock = some .frame → next.lock = some .frame ∧ next.zbusBuf = s.zbusBuf)

section Quiet

variable {s next : Station}

theorem Quiet.refl (coherent : Coherent s) : Quiet s s :=
  ⟨coherent, rfl, fun listening blocked => ⟨listening, blocked, fun locked => ⟨locked, rfl, rfl⟩⟩,
    fun off => ⟨off, rfl, fun locked => ⟨locked, rfl⟩⟩⟩

/-- A transmission goes on or begins. -/
theorem Quiet.of_sending (sending : next.usart = .transmitter) (noPacket : next.zbusRxlen = 0)
    (escape : next.recvEscapeData = s.recvEscapeData) : Quiet s next where
  coherent :=
    ⟨fun listening => absurd (sending.symm.trans listening) (by decide), fun _ => noPacket,
      fun off => absurd (sending.symm.trans off) (by decide)⟩
  recvEscapeData := escape
  frame listening := absurd (sending.symm.trans listening) (by decide)
  packet off := absurd (sending.symm.trans off) (by decide)

/-- The receiver is enabled between two frames. -/
theorem Quiet.of_listening (listening : next.usart = .receiver) (notSending : next.zbusTxlen = 0)
    (noPacket : next.zbusRxlen = 0) (free : next.busBlocked = 0)
    (escape : next.recvEscapeData = s.recvEscapeData) : Quiet s next where
  coherent :=
    ⟨fun _ => ⟨notSending, noPacket⟩, fun _ => noPacket,
      fun off => absurd (listening.symm.trans off) (by decide)⟩
  recvEscapeData := escape
  frame _ blocked := absurd free blocked
  packet off := absurd (listening.symm.trans off) (by decide)

/-- The transmitter goes on, or it is done and the receiver is enabled. -/
theorem txVect_cases (s : Station) :
    (txVect s).1.recvEscapeData = s.recvEscapeData ∧
      ((txVect s).1.usart = s.usart ∧ (txVect s).1.zbusRxlen = s.zbusRxlen ∨
        (txVect s).1.usart = .receiver ∧ (txVect s).1.zbusTxlen = 0 ∧
          (txVect s).1.zbusRxlen = 0 ∧ (txVect s).1.busBlocked = 0) := by
  by_cases carry : s.sendEscapeData ≠ 0
  · rw [txVect_carry carry]
    exact ⟨rfl, .inl ⟨rfl, rfl⟩⟩
  have noCarry := not_not.mp carry
  by_cases more : s.zbusIndex < s.zbusTxlen
  · rw [txVect_data noCarry more]
    split <;> exact ⟨rfl, .inl ⟨rfl, rfl⟩⟩
  by_cases packet : s.zbusTxlen ≠ 0
  · rw [txVect_stop noCarry packet (Nat.le_of_not_lt more)]
    exact ⟨rfl, .inl ⟨rfl, rfl⟩⟩
  · rw [txVect_done noCarry (not_not.mp packet)]
    exact ⟨rfl, .inr ⟨rfl, rfl, rfl, rfl⟩⟩

theorem quiet_txVect (coherent : Coherent s) (sending : s.usart = .transmitter) :
    Quiet s (txVect s).1 := by
  obtain ⟨escape, ⟨usart, rxlen⟩ | ⟨usart, txlen, rxlen, free⟩⟩ := txVect_cases s
  · exact .of_sending (usart.trans sending) (rxlen.trans (coherent.sending sending)) escape
  · exact .of_listening usart txlen rxlen free escape

theorem quiet_zbusCorePeriodic (coherent : Coherent s) : Quiet s (zbusCorePeriodic s).1 := by
  by_cases blocked : s.busBlocked ≠ 0
  · rw [zbusCorePeriodic, if_pos blocked]
    dsimp only
    cases usart : s.usart with
    | off => exact absurd (coherent.stopped usart).2 blocked
    | receiver =>
        obtain ⟨notSending, noPacket⟩ := coherent.receiving usart
        rw [if_neg (fun restart => by omega)]
        have on : Usart.receiver ≠ .off := by decide
        exact ⟨⟨fun _ => ⟨notSending, noPacket⟩, fun _ => noPacket, fun off => absurd off on⟩, rfl,
          fun _ _ => ⟨usart, blocked, fun locked => ⟨locked, rfl, rfl⟩⟩, fun off => absurd off on⟩
    | transmitter =>
        have noPacket := coherent.sending usart
        split
        · exact .of_sending rfl noPacket rfl
        · exact .of_sending rfl noPacket rfl
  · rw [zbusCorePeriodic, if_neg blocked]
    exact .refl coherent

/-- A packet waits only while the USART is off. -/
theorem Coherent.off_of_packet (coherent : Coherent s) (packet : s.zbusRxlen ≠ 0) :
    s.usart = .off := by
  cases usart : s.usart with
  | off => rfl
  | receiver => exact absurd (coherent.receiving usart).2 packet
  | transmitter => exact absurd (coherent.sending usart) packet

theorem quiet_zbusProcess (coherent : Coherent s) : Quiet s (zbusProcess s).1 := by
  by_cases packet : s.zbusRxlen = 0
  · rw [zbusProcess, if_pos packet]
    exact .refl coherent
  · obtain ⟨notSending, free⟩ := coherent.stopped (coherent.off_of_packet packet)
    rw [zbusProcess, if_neg packet, zbusRxstart, if_neg (by omega)]
    exact .of_listening rfl notSending rfl free rfl

theorem quiet_zbusTxstart (coherent : Coherent s) (size : Nat) :
    Quiet s (zbusTxstart size s).1 := by
  by_cases busy : s.zbusTxlen ≠ 0 ∨ s.zbusRxlen ≠ 0 ∨ s.busBlocked ≠ 0
  · rw [zbusTxstart, if_pos busy]
    exact .refl coherent
  · have idle : s.zbusRxlen = 0 ∧ s.busBlocked = 0 := by omega
    rw [zbusTxstart, if_neg busy]
    dsimp only
    rw [if_neg (not_not_intro idle.2)]
    exact .of_sending rfl idle.1 rfl

/-- The other users of the buffer. -/
theorem quiet_of_owner {lock : Option Owner} {buffer : Bytes} (coherent : Coherent s)
    (other : s.lock ≠ some .frame) : Quiet s { s with lock := lock, zbusBuf := buffer } :=
  ⟨⟨coherent.receiving, coherent.sending, coherent.stopped⟩, rfl,
    fun listening blocked => ⟨listening, blocked, fun locked => absurd locked other⟩,
    fun off => ⟨off, rfl, fun locked => absurd locked other⟩⟩

theorem quiet_step (bufferLen : Nat) (coherent : Coherent s) {event : Event}
    (deaf : s.hears event = none) : Quiet s (s.step bufferLen event).1 := by
  cases event with
  | receive failed data =>
      rw [Station.step]
      split
      next listening =>
          rw [Station.hears, ite_eq_right_iff] at deaf
          cases failed with
          | false => cases deaf ⟨listening, rfl⟩
          | true =>
              rw [rxVect, if_pos rfl]
              exact .refl coherent
      next => exact .refl coherent
  | transmit =>
      rw [Station.step]
      split
      next sending => exact quiet_txVect coherent sending
      next => exact .refl coherent
  | periodic => exact quiet_zbusCorePeriodic coherent
  | process => exact quiet_zbusProcess coherent
  | txstart size => exact quiet_zbusTxstart coherent size
  | lock =>
      rw [Station.step, uipBufLock]
      split
      next free => exact quiet_of_owner coherent (by rw [free]; decide)
      next => exact .refl coherent
  | unlock =>
      rw [Station.step, uipBufUnlock]
      split
      next owner =>
          split
          · exact .refl coherent
          · exact quiet_of_owner coherent (by rw [owner]; decide)
      next => exact .refl coherent
  | write buffer =>
      rw [Station.step]
      split
      next owner => exact quiet_of_owner coherent (by rw [owner]; decide)
      next => exact .refl coherent

end Quiet

/-! ## One symbol -/

/-- What the state says of the symbols that were heard: an open frame is their end, and a packet
that waits is in them. -/
structure Framed (bufferLen : Nat) (symbols : List (Symbol UInt8)) (s : Station) : Prop where
  coherent : Coherent s
  frame : s.usart = .receiver → s.busBlocked ≠ 0 →
    s.lock = some .frame ∧ s.zbusIndex ≤ bufferLen ∧
      .start :: (contents s.zbusIndex s.zbusBuf).map .item <:+ symbols
  packet : s.usart = .off → s.zbusRxlen ≠ 0 →
    s.lock = some .frame ∧ s.zbusRxlen ≤ bufferLen ∧
      framed (contents s.zbusRxlen s.zbusBuf) <:+: symbols

/-- A start marker comes in a frame only before its content, and a byte of a frame fits. -/
def Station.Admits (bufferLen : Nat) (s : Station) : Symbol UInt8 → Prop
  | .start => s.busBlocked ≠ 0 → s.zbusIndex = 0
  | .stop => True
  | .item _ => s.busBlocked ≠ 0 → s.zbusIndex < bufferLen

instance (bufferLen : Nat) (s : Station) : DecidablePred (s.Admits bufferLen)
  | .start => inferInstanceAs (Decidable (s.busBlocked ≠ 0 → s.zbusIndex = 0))
  | .stop => inferInstanceAs (Decidable True)
  | .item _ => inferInstanceAs (Decidable (s.busBlocked ≠ 0 → s.zbusIndex < bufferLen))

section Framed

variable {bufferLen : Nat} {symbols : List (Symbol UInt8)} {s next : Station}

theorem Framed.quiet (framed : Framed bufferLen symbols s) (quiet : Quiet s next) :
    Framed bufferLen symbols next where
  coherent := quiet.coherent
  frame listening blocked := by
    obtain ⟨before, open_, kept⟩ := quiet.frame listening blocked
    obtain ⟨locked, small, suffix⟩ := framed.frame before open_
    obtain ⟨lock, index, buffer⟩ := kept locked
    exact ⟨lock, index ▸ small, by rw [index, buffer]; exact suffix⟩
  packet off waiting := by
    obtain ⟨before, rxlen, kept⟩ := quiet.packet off
    obtain ⟨locked, small, inside⟩ := framed.packet before (rxlen ▸ waiting)
    obtain ⟨lock, buffer⟩ := kept locked
    exact ⟨lock, rxlen ▸ small, by rw [rxlen, buffer]; exact inside⟩

/-- The escape flag does not matter to what was heard so far. -/
theorem Framed.escape (framed : Framed bufferLen symbols s) (escaped : Bool) :
    Framed bufferLen symbols { s with recvEscapeData := escaped } :=
  ⟨⟨framed.coherent.receiving, framed.coherent.sending, framed.coherent.stopped⟩,
    framed.frame, framed.packet⟩

/-- A symbol between two frames is not kept. -/
theorem Framed.outside (framed : Framed bufferLen symbols s) (listening : s.usart = .receiver)
    (free : s.busBlocked = 0) (symbol : Symbol UInt8) :
    Framed bufferLen (symbols ++ [symbol]) s :=
  ⟨framed.coherent, fun _ blocked => absurd free blocked,
    fun off => by rw [listening] at off; cases off⟩

/-- The lock of a start marker fails: the symbol changes nothing. -/
theorem receive_start_locked {owner : Owner} (locked : s.lock = some owner) :
    receive bufferLen .start s = s := by
  rw [receive, uipBufLock, locked]

theorem receive_start_free (free : s.lock = none) :
    receive bufferLen .start s =
      { s with lock := some .frame, zbusIndex := 0, busBlocked := 3 } := by
  rw [receive, uipBufLock, free]

theorem Coherent.receive (coherent : Coherent s) (listening : s.usart = .receiver)
    (symbol : Symbol UInt8) : Coherent (receive bufferLen symbol s) := by
  obtain ⟨notSending, noPacket⟩ := coherent.receiving listening
  have enabled : ∀ next : Station, next.usart = s.usart → next.zbusTxlen = s.zbusTxlen →
      next.zbusRxlen = s.zbusRxlen → Coherent next := fun next usart txlen rxlen =>
    ⟨fun _ => ⟨txlen.trans notSending, rxlen.trans noPacket⟩, fun _ => rxlen.trans noPacket,
      fun off => absurd (listening.symm.trans (usart.symm.trans off)) (by decide)⟩
  cases symbol with
  | start =>
      cases lock : s.lock with
      | none =>
          rw [receive_start_free lock]
          exact enabled _ rfl rfl rfl
      | some owner =>
          rw [receive_start_locked lock]
          exact coherent
  | stop =>
      rw [Zbus.receive]
      split
      · exact ⟨fun on => absurd (show Usart.off = .receiver from on) (by decide),
          fun on => absurd (show Usart.off = .transmitter from on) (by decide),
          fun _ => ⟨notSending, rfl⟩⟩
      · exact enabled _ rfl rfl rfl
  | item data =>
      rw [Zbus.receive, appendData]
      split
      · exact coherent
      · split
        · exact coherent
        · exact enabled _ rfl rfl rfl

/-- Only the stop marker of a frame turns the receiver off. -/
theorem off_of_receive (listening : s.usart = .receiver) {symbol : Symbol UInt8}
    (off : (receive bufferLen symbol s).usart = .off) :
    symbol = .stop ∧ s.busBlocked ≠ 0 ∧ (receive bufferLen symbol s).zbusRxlen = s.zbusIndex := by
  have on : s.usart ≠ .off := fun off => absurd (listening.symm.trans off) (by decide)
  cases symbol with
  | start =>
      cases lock : s.lock with
      | none =>
          rw [receive_start_free lock] at off
          exact absurd off on
      | some owner =>
          rw [receive_start_locked lock] at off
          exact absurd off on
  | stop =>
      rw [receive] at off ⊢
      by_cases blocked : s.busBlocked ≠ 0
      · rw [if_pos blocked]
        exact ⟨rfl, blocked, rfl⟩
      · rw [if_neg blocked] at off
        exact absurd off on
  | item data =>
      rw [receive, appendData] at off
      split at off
      · exact absurd off on
      · split at off <;> exact absurd off on

theorem Framed.receive_start (framed : Framed bufferLen symbols s)
    (listening : s.usart = .receiver) (admits : s.Admits bufferLen .start) :
    Framed bufferLen (symbols ++ [.start]) (receive bufferLen .start s) := by
  refine ⟨framed.coherent.receive listening _, fun _ blocked => ?_,
    fun off => by cases (off_of_receive listening off).1⟩
  cases lock : s.lock with
  | none =>
      rw [receive_start_free lock]
      exact ⟨rfl, Nat.zero_le _, List.suffix_append _ _⟩
  | some owner =>
      rw [receive_start_locked lock] at blocked ⊢
      obtain ⟨locked, _, _⟩ := framed.frame listening blocked
      rw [admits blocked]
      exact ⟨locked, Nat.zero_le _, List.suffix_append _ _⟩

theorem Framed.receive_stop (framed : Framed bufferLen symbols s)
    (listening : s.usart = .receiver) :
    Framed bufferLen (symbols ++ [.stop]) (receive bufferLen .stop s) := by
  by_cases blocked : s.busBlocked ≠ 0
  · obtain ⟨locked, small, front, whole⟩ := framed.frame listening blocked
    refine ⟨framed.coherent.receive listening _, ?_, ?_⟩
    · rw [Zbus.receive, if_pos blocked]
      exact fun on => absurd (show Usart.off = .receiver from on) (by decide)
    · rw [Zbus.receive, if_pos blocked]
      refine fun _ _ => ⟨locked, small, front, [], ?_⟩
      rw [List.append_nil, ← whole, Zbus.framed, List.append_assoc, List.cons_append]
      rfl
  · refine ⟨framed.coherent.receive listening _, ?_,
      fun off => absurd (off_of_receive listening off).2.1 blocked⟩
    rw [Zbus.receive, if_neg blocked]
    exact fun _ open_ => absurd rfl open_

theorem Framed.receive_item (framed : Framed bufferLen symbols s)
    (listening : s.usart = .receiver) {data : UInt8} (admits : s.Admits bufferLen (.item data)) :
    Framed bufferLen (symbols ++ [.item data]) (receive bufferLen (.item data) s) := by
  by_cases free : s.busBlocked = 0
  · have same : appendData bufferLen data s = s := by
      rw [appendData, if_pos free, ite_self]
    rw [Zbus.receive, same]
    exact framed.outside listening free _
  · obtain ⟨locked, _, front, whole⟩ := framed.frame listening free
    have room : s.zbusIndex < bufferLen := admits free
    refine ⟨framed.coherent.receive listening _, ?_,
      fun off => by cases (off_of_receive listening off).1⟩
    rw [Zbus.receive, appendData, if_neg (Nat.not_le.mpr room), if_neg free]
    refine fun _ _ => ⟨locked, room, front, ?_⟩
    dsimp only
    rw [contents_update, List.map_append, ← whole, List.append_assoc, List.cons_append]
    rfl

theorem receive_recvEscapeData (symbol : Symbol UInt8) (s : Station) :
    (Zbus.receive bufferLen symbol s).recvEscapeData = s.recvEscapeData := by
  cases symbol with
  | start =>
      cases lock : s.lock with
      | none => rw [receive_start_free lock]
      | some owner => rw [receive_start_locked lock]
  | stop => rw [Zbus.receive]; split <;> rfl
  | item data =>
      rw [Zbus.receive, appendData]
      split
      · rfl
      · split <;> rfl

theorem Framed.receive (framed : Framed bufferLen symbols s) (listening : s.usart = .receiver)
    {symbol : Symbol UInt8} (admits : s.Admits bufferLen symbol) :
    Framed bufferLen (symbols ++ [symbol]) (receive bufferLen symbol s) := by
  cases symbol with
  | start => exact framed.receive_start listening admits
  | stop => exact framed.receive_stop listening
  | item data => exact framed.receive_item listening admits

end Framed

/-! ## Runs -/

/-- What an event completes finds a state that handles it. -/
def History.Meets (bufferLen : Nat) (h : History) (event : Event) : Prop :=
  ∀ symbol ∈ h.station.completes event, h.station.Admits bufferLen symbol

instance (bufferLen : Nat) (h : History) (event : Event) : Decidable (h.Meets bufferLen event) :=
  inferInstanceAs (Decidable (∀ symbol ∈ h.station.completes event, h.station.Admits bufferLen symbol))

structure Tracked (bufferLen : Nat) (h : History) : Prop where
  framed : Framed bufferLen h.symbols h.station
  escaped : h.station.recvEscapeData = (zbusEscapes.scan false h.heard).1
  genuine : h.Genuine bufferLen

theorem tracked_init (bufferLen : Nat) (buffer : Bytes) :
    Tracked bufferLen (.init buffer) where
  framed := ⟨coherent_zbusCoreInit buffer, fun _ blocked => absurd rfl blocked, nofun⟩
  escaped := rfl
  genuine := nofun

section Tracked

variable {bufferLen : Nat} {h : History}

/-- A byte that is heard, symbol by symbol. -/
theorem step_of_hears (bufferLen : Nat) {s : Station} (coherent : Coherent s) {event : Event} {data : UInt8}
    (heard : s.hears event = some data) :
    s.usart = .receiver ∧ s.step bufferLen event =
      ((s.completes event).elim id (receive bufferLen)
        { s with recvEscapeData := (zbusEscapes.read s.recvEscapeData data).1 }, none) := by
  cases event with
  | receive failed byte =>
      obtain ⟨⟨listening, rfl⟩, same⟩ := Option.ite_none_right_eq_some.mp heard
      cases same
      obtain ⟨notSending, noPacket⟩ := coherent.receiving listening
      rw [Station.step, if_pos listening, rxVect_eq noPacket notSending,
        Station.completes, heard]
      exact ⟨listening, rfl⟩
  | _ => cases heard

/-- A packet of the step was waiting. -/
theorem packet_of_step {s : Station} {event : Event} {packet : List UInt8}
    (handed : (s.step bufferLen event).2 = some packet) :
    s.zbusRxlen ≠ 0 ∧ packet = contents s.zbusRxlen s.zbusBuf := by
  cases event with
  | process =>
      rw [Station.step, zbusProcess] at handed
      split at handed
      next => cases handed
      next waiting => exact ⟨waiting, (Option.some.inj handed).symm⟩
  | _ => cases handed

theorem symbols_step (bufferLen : Nat) (h : History) (event : Event) :
    (zbusEscapes.scan false (h.step bufferLen event).heard) =
      match h.station.hears event with
      | none => zbusEscapes.scan false h.heard
      | some data =>
          ((zbusEscapes.read (zbusEscapes.scan false h.heard).1 data).1,
            h.symbols ++ (zbusEscapes.read (zbusEscapes.scan false h.heard).1 data).2.toList) := by
  rw [History.step]
  cases h.station.hears event with
  | none => rw [Option.toList_none, List.append_nil]
  | some data => rw [Option.toList_some, Codes.scan_concat]; rfl

/-- What was delivered before, and what this step hands over. -/
theorem Tracked.genuine_step (tracked : Tracked bufferLen h) {event : Event}
    (grows : h.symbols <+: (h.step bufferLen event).symbols) :
    (h.step bufferLen event).Genuine bufferLen := by
  intro packet delivered
  rcases List.mem_append.mp delivered with before | now
  · obtain ⟨small, inside⟩ := tracked.genuine packet before
    exact ⟨small, inside.trans grows.isInfix⟩
  · obtain ⟨waiting, rfl⟩ := packet_of_step (Option.mem_toList.mp now)
    have off := tracked.framed.coherent.off_of_packet waiting
    obtain ⟨_, small, inside⟩ := tracked.framed.packet off waiting
    refine ⟨?_, inside.trans grows.isInfix⟩
    rwa [contents, List.length_map, List.length_range]

theorem Tracked.step (tracked : Tracked bufferLen h) {event : Event}
    (meets : h.Meets bufferLen event) : Tracked bufferLen (h.step bufferLen event) := by
  have stream := symbols_step bufferLen h event
  cases heard : h.station.hears event with
  | none =>
      rw [heard] at stream
      have quiet := quiet_step bufferLen tracked.framed.coherent heard
      have symbols : (h.step bufferLen event).symbols = h.symbols := congrArg Prod.snd stream
      refine ⟨?_, ?_, tracked.genuine_step (symbols ▸ List.prefix_rfl)⟩
      · rw [symbols]
        exact tracked.framed.quiet quiet
      · rw [stream]
        exact quiet.recvEscapeData.trans tracked.escaped
  | some data =>
      obtain ⟨listening, moved⟩ := step_of_hears bufferLen tracked.framed.coherent heard
      rw [heard, ← tracked.escaped] at stream
      have completes : h.station.completes event =
          (zbusEscapes.read h.station.recvEscapeData data).2 := by
        rw [Station.completes, heard, Option.bind_some]
      have symbols : (h.step bufferLen event).symbols =
          h.symbols ++ (h.station.completes event).toList := by
        rw [completes]
        exact congrArg Prod.snd stream
      have station : (h.step bufferLen event).station = _ := congrArg Prod.fst moved
      have framed := tracked.framed.escape (zbusEscapes.read h.station.recvEscapeData data).1
      refine ⟨?_, ?_, tracked.genuine_step (symbols ▸ List.prefix_append _ _)⟩
      · rw [symbols, station]
        cases symbol : h.station.completes event with
        | none =>
            rw [Option.toList_none, List.append_nil]
            exact framed
        | some symbol => exact framed.receive listening (meets _ ‹_›)
      · rw [stream, station]
        cases h.station.completes event with
        | none => rfl
        | some symbol => exact receive_recvEscapeData symbol _

/-- In every run in which what an event completes finds a state that handles it, every packet
that the stack was handed is a whole frame of the stream. -/
theorem genuine_of_eachMeets {bufferLen : Nat} {buffer : Bytes} {events : List Event}
    (each : EachMeets (History.step bufferLen) (History.Meets bufferLen) (.init buffer) events) :
    (events.foldl (History.step bufferLen) (.init buffer)).Genuine bufferLen :=
  (each.invariant (fun _ _ tracked meets => Tracked.step tracked meets)
    (tracked_init bufferLen buffer)).genuine

end Tracked

/-- The bytes come without an error, and the main loop looks for a packet. -/
def deliver (stream : List UInt8) : List Event := stream.map (.receive false) ++ [.process]

/-- A frame of two bytes with an escape in it. -/
theorem genuine_of_eachMeets_frame :
    ((deliver (zbusEscapes.frame [65, 92])).foldl (History.step 2) (.init fun _ => 0)).Genuine 2 :=
  genuine_of_eachMeets (by decide)

/-- Three bytes for a buffer of two, and a frame whose stop marker was lost. -/
theorem not_genuine :
    ¬ ((deliver (zbusEscapes.frame [65, 66, 67])).foldl (History.step 2)
        (.init fun _ => 0)).Genuine 2 ∧
      ¬ ((deliver ([92, 48, 65] ++ zbusEscapes.frame [66])).foldl (History.step 2)
        (.init fun _ => 0)).Genuine 2 := by
  decide

end Ethersex.Zbus

/-!
## A station that keeps listening

Over any run the receiver is enabled, a packet waits, or a transmission is on its way to enable
the receiver, as long as no frame ends without content: the packet of such a frame has the
length that stands for no packet, and the receiver stays off.
-/

namespace Ethersex.Zbus

open Ethersex.Library

/-- The receiver is enabled, a packet waits for the main loop, or the transmitter is enabled and
its interrupts lead to an enabled receiver. -/
def Station.Listens (s : Station) : Prop :=
  s.usart = .receiver ∨ s.zbusRxlen ≠ 0 ∨
    s.usart = .transmitter ∧ ∃ count, ((fun s => (txVect s).1)^[count] s).usart = .receiver

/-- The state after an event. -/
def Station.after (bufferLen : Nat) (s : Station) (event : Event) : Station :=
  (s.step bufferLen event).1

/-- A stop marker comes in a frame only after some content. -/
def Station.Fills (s : Station) (event : Event) : Prop :=
  s.completes event = some .stop → s.busBlocked ≠ 0 → s.zbusIndex ≠ 0

instance (s : Station) (event : Event) : Decidable (s.Fills event) :=
  inferInstanceAs (Decidable (s.completes event = some .stop → s.busBlocked ≠ 0 → s.zbusIndex ≠ 0))

/-! ## A transmission ends -/

/-- How many bytes a transmission has to send at most. -/
def pending (s : Station) : Nat :=
  2 * (s.zbusTxlen - s.zbusIndex) + (if s.zbusTxlen = 0 then 0 else 2) +
    if s.sendEscapeData = 0 then 0 else 1

section Transmission

variable {s : Station}

/-- An interrupt ends the transmission or brings its end closer. -/
theorem txVect_progress (sending : s.usart = .transmitter) :
    (txVect s).1.usart = .receiver ∨
      (txVect s).1.usart = .transmitter ∧ pending (txVect s).1 < pending s := by
  by_cases carry : s.sendEscapeData ≠ 0
  · rw [txVect_carry carry]
    refine .inr ⟨sending, ?_⟩
    rw [pending, pending, if_neg carry, if_pos rfl]
    exact Nat.lt_succ_self _
  have noCarry := not_not.mp carry
  by_cases more : s.zbusIndex < s.zbusTxlen
  · have positive : s.zbusTxlen ≠ 0 := by omega
    rw [txVect_data noCarry more]
    split
    · refine .inr ⟨sending, ?_⟩
      dsimp only [pending]
      rw [if_neg positive, if_pos noCarry]
      split <;> omega
    · refine .inr ⟨sending, ?_⟩
      dsimp only [pending]
      rw [if_neg positive, if_pos noCarry]
      omega
  by_cases packet : s.zbusTxlen ≠ 0
  · rw [txVect_stop noCarry packet (Nat.le_of_not_lt more)]
    refine .inr ⟨sending, ?_⟩
    dsimp only [pending]
    rw [if_neg packet, if_pos noCarry, if_pos rfl]
    split <;> omega
  · rw [txVect_done noCarry (not_not.mp packet)]
    exact .inl rfl

/-- The interrupts of a transmission enable the receiver in the end. -/
theorem transmission_ends (sending : s.usart = .transmitter) :
    ∃ count, ((fun s => (txVect s).1)^[count] s).usart = .receiver := by
  induction left : pending s using Nat.strong_induction_on generalizing s with
  | _ _ ih =>
      subst left
      rcases txVect_progress sending with done | ⟨goes, closer⟩
      · exact ⟨1, done⟩
      · obtain ⟨count, ends⟩ := ih _ closer goes rfl
        exact ⟨count + 1, ends⟩

end Transmission

/-! ## Runs -/

/-- The USART is off only while a packet waits. -/
structure Awake (s : Station) : Prop where
  coherent : Coherent s
  waiting : s.usart = .off → s.zbusRxlen ≠ 0

theorem Awake.listens {s : Station} (awake : Awake s) : s.Listens := by
  cases usart : s.usart with
  | off => exact .inr (.inl (awake.waiting usart))
  | receiver => exact .inl usart
  | transmitter => exact .inr (.inr ⟨usart, transmission_ends usart⟩)

theorem Awake.step {bufferLen : Nat} {s : Station} (awake : Awake s) {event : Event}
    (fills : s.Fills event) : Awake (s.after bufferLen event) := by
  rw [Station.after]
  cases heard : s.hears event with
  | none =>
      have quiet := quiet_step bufferLen awake.coherent heard
      refine ⟨quiet.coherent, fun off => ?_⟩
      obtain ⟨before, rxlen, _⟩ := quiet.packet off
      rw [rxlen]
      exact awake.waiting before
  | some data =>
      obtain ⟨listening, moved⟩ := step_of_hears bufferLen awake.coherent heard
      have coherent : ∀ escaped : Bool, Coherent { s with recvEscapeData := escaped } := fun _ =>
        ⟨awake.coherent.receiving, awake.coherent.sending, awake.coherent.stopped⟩
      rw [moved]
      cases completed : s.completes event with
      | none => exact ⟨coherent _, awake.waiting⟩
      | some symbol =>
          refine ⟨(coherent _).receive (by exact listening) symbol, fun off => ?_⟩
          obtain ⟨rfl, blocked, length⟩ := off_of_receive (by exact listening) off
          exact fun empty => fills completed blocked (length.symm.trans empty)

/-- In every run in which no frame ends without content, the station listens in every state
that it reaches. -/
theorem listens_of_eachMeets {bufferLen : Nat} {buffer : Bytes} {events : List Event}
    (each : EachMeets (Station.after bufferLen) Station.Fills (zbusCoreInit buffer) events) :
    (events.foldl (Station.after bufferLen) (zbusCoreInit buffer)).Listens := by
  have keeps : ∀ (s : Station) (event : Event), Awake s → s.Fills event →
      Awake (s.after bufferLen event) := fun _ _ awake fills => awake.step fills
  exact (each.invariant keeps ⟨coherent_zbusCoreInit buffer, nofun⟩).listens

/-- A packet comes and is taken, and the answer to it is on its way. -/
theorem listens_of_eachMeets_frame :
    ((deliver (zbusEscapes.frame [65]) ++ ([.txstart 1, .transmit] : List Event)).foldl
      (Station.after 2) (zbusCoreInit fun _ => 0)).Listens :=
  listens_of_eachMeets (by decide)

/-- Two markers with nothing between them turn the receiver off, and no packet waits. -/
theorem not_listens :
    ¬ ((deliver (zbusEscapes.frame [])).foldl (Station.after 2) (zbusCoreInit fun _ => 0)).Listens := by
  have usart : ((deliver (zbusEscapes.frame [])).foldl (Station.after 2)
      (zbusCoreInit fun _ => 0)).usart = .off := by decide
  have rxlen : ((deliver (zbusEscapes.frame [])).foldl (Station.after 2)
      (zbusCoreInit fun _ => 0)).zbusRxlen = 0 := by decide
  rintro (listening | waiting | ⟨sending, _⟩)
  · exact absurd (usart.symm.trans listening) (by decide)
  · exact waiting rxlen
  · exact absurd (usart.symm.trans sending) (by decide)

end Ethersex.Zbus
