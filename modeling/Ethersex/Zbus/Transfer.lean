import Mathlib
import Ethersex.Zbus.Model

/-!
# A transfer over the ZBus

One station sends packets, another one receives them.  The transmit interrupt puts a packet on
the wire as one frame, and the receive interrupt of an idle station turns the frame back into
the packet.
-/

namespace Ethersex.Zbus

open Ethersex.Library

/-- Between two packets. -/
structure Idle (s : Station) : Prop where
  usart : s.usart = .receiver
  sendEscapeData : s.sendEscapeData = 0
  recvEscapeData : s.recvEscapeData = false
  busBlocked : s.busBlocked = 0
  zbusTxlen : s.zbusTxlen = 0
  zbusRxlen : s.zbusRxlen = 0
  lock : s.lock = none

theorem idle_zbusCoreInit (buffer : Bytes) : Idle (zbusCoreInit buffer) :=
  ⟨rfl, rfl, rfl, rfl, rfl, rfl, rfl⟩

/-- Transmit interrupts until the transmitter is off, with the bytes that they send. -/
def drain : Nat → Station → Station × List UInt8
  | 0, s => (s, [])
  | fuel + 1, s =>
      if s.usart = .transmitter then
        ((drain fuel (txVect s).1).1, (txVect s).2.toList ++ (drain fuel (txVect s).1).2)
      else (s, [])

/-- The stack locks the buffer, fills it with a packet and sends it.  The bytes are what comes
on the wire. -/
def sendPacket (fuel : Nat) (payload : List UInt8) (s : Station) : Station × List UInt8 :=
  let started := zbusTxstart payload.length
    { s with zbusBuf := fun k => payload.getD k (s.zbusBuf k), lock := some .other }
  let finished := drain fuel started.1
  (finished.1, started.2.toList ++ finished.2)

/-- A byte on the wire, at a station whose receive interrupt may be enabled. -/
def hear (bufferLen : Nat) (s : Station) (data : UInt8) : Station :=
  if s.usart = .receiver then (rxVect bufferLen false data s).1 else s

/-- The stack takes the packet and has nothing to answer. -/
def takePacket (s : Station) : Station × Option (List UInt8) :=
  (uipBufUnlock (zbusProcess s).1, (zbusProcess s).2)

/-- Packets sent one after another, each taken before the next one comes: what the stack of the
receiver was handed, and both stations at the end. -/
def exchange (bufferLen fuel : Nat) :
    List (List UInt8) → Station → Station → List (Option (List UInt8)) × Station × Station
  | [], sender, receiver => ([], sender, receiver)
  | payload :: rest, sender, receiver =>
      let sent := sendPacket fuel payload sender
      let taken := takePacket (sent.2.foldl (hear bufferLen) receiver)
      let later := exchange bufferLen fuel rest sent.1 taken.1
      (taken.2 :: later.1, later.2)

/-! ## The sender -/

section Sender

variable {s : Station}

theorem drain_succ (sending : s.usart = .transmitter) (fuel : Nat) :
    drain (fuel + 1) s =
      ((drain fuel (txVect s).1).1, (txVect s).2.toList ++ (drain fuel (txVect s).1).2) := by
  rw [drain, if_pos sending]

theorem drain_of_ne (done : s.usart ≠ .transmitter) (fuel : Nat) : drain fuel s = (s, []) := by
  cases fuel with
  | zero => rfl
  | succ fuel => rw [drain, if_neg done]

theorem txVect_carry (carry : s.sendEscapeData ≠ 0) :
    txVect s = ({ s with sendEscapeData := 0 }, some s.sendEscapeData) := by
  rw [txVect, if_pos carry]

theorem txVect_data (noCarry : s.sendEscapeData = 0) (more : s.zbusIndex < s.zbusTxlen) :
    txVect s =
      if s.zbusBuf s.zbusIndex = ZBUS_ESCAPE then
        ({ s with
            sendEscapeData := s.zbusBuf s.zbusIndex, zbusIndex := s.zbusIndex + 1,
            busBlocked := 3 }, some ZBUS_ESCAPE)
      else ({ s with zbusIndex := s.zbusIndex + 1, busBlocked := 3 },
        some (s.zbusBuf s.zbusIndex)) := by
  rw [txVect, if_neg (not_not_intro noCarry), if_pos ⟨by omega, more⟩]

theorem txVect_stop (noCarry : s.sendEscapeData = 0) (sending : s.zbusTxlen ≠ 0)
    (complete : s.zbusTxlen ≤ s.zbusIndex) :
    txVect s =
      ({ s with zbusTxlen := 0, lock := none, sendEscapeData := ZBUS_STOP },
        some ZBUS_ESCAPE) := by
  rw [txVect, if_neg (not_not_intro noCarry), if_neg (fun more => by omega), if_pos sending]
  rfl

theorem txVect_done (noCarry : s.sendEscapeData = 0) (sent : s.zbusTxlen = 0) :
    txVect s =
      ({ s with busBlocked := 0, zbusTxlen := 0, zbusRxlen := 0, usart := .receiver }, none) := by
  rw [txVect, if_neg (not_not_intro noCarry), if_neg (fun more => more.1 sent),
    if_neg (not_not_intro sent)]
  rfl

/-- The stop marker, and the end of the transmission. -/
theorem drain_stop (sending : s.usart = .transmitter) (noCarry : s.sendEscapeData = 0)
    (noEscape : s.recvEscapeData = false) (packet : s.zbusTxlen ≠ 0)
    (complete : s.zbusTxlen ≤ s.zbusIndex) (fuel : Nat) :
    Idle (drain (fuel + 3) s).1 ∧ (drain (fuel + 3) s).2 = [ZBUS_ESCAPE, ZBUS_STOP] := by
  have carried : ZBUS_STOP ≠ 0 := by decide
  rw [drain_succ sending, txVect_stop noCarry packet complete, drain_succ (by exact sending),
    txVect_carry (by exact carried), drain_succ (by exact sending), txVect_done rfl rfl,
    drain_of_ne Usart.noConfusion]
  exact ⟨⟨rfl, rfl, noEscape, rfl, rfl, rfl, rfl⟩, rfl⟩

/-- The rest of a packet and the stop marker. -/
theorem drain_rest (rest : List UInt8) (sending : s.usart = .transmitter)
    (noCarry : s.sendEscapeData = 0) (noEscape : s.recvEscapeData = false)
    (packet : s.zbusTxlen ≠ 0) (length : s.zbusTxlen = s.zbusIndex + rest.length)
    (content : ∀ k (inside : k < rest.length), s.zbusBuf (s.zbusIndex + k) = rest[k])
    (fuel : Nat) (enough : 2 * rest.length + 3 ≤ fuel) :
    Idle (drain fuel s).1 ∧
      (drain fuel s).2 = zbusEscapes.quote rest ++ [ZBUS_ESCAPE, ZBUS_STOP] := by
  induction rest generalizing s fuel with
  | nil =>
      obtain ⟨fuel, rfl⟩ := Nat.exists_eq_add_of_le' enough
      exact drain_stop sending noCarry noEscape packet (Nat.le_of_eq length) fuel
  | cons data rest ih =>
      rw [List.length_cons] at length enough
      have first : s.zbusBuf s.zbusIndex = data := content 0 (Nat.succ_pos _)
      have later : ∀ k (inside : k < rest.length),
          s.zbusBuf (s.zbusIndex + 1 + k) = rest[k] := fun k inside => by
        have next := content (k + 1) (Nat.succ_lt_succ inside)
        rwa [List.getElem_cons_succ, Nat.add_comm k, ← Nat.add_assoc] at next
      obtain ⟨fuel, rfl⟩ : ∃ less, fuel = less + 2 := ⟨fuel - 2, by omega⟩
      rw [drain_succ sending, txVect_data noCarry (by omega), first, Codes.quote_cons]
      by_cases escapes : data = ZBUS_ESCAPE
      · have quoted : zbusEscapes.quoteItem data = [ZBUS_ESCAPE, ZBUS_ESCAPE] := if_pos escapes
        have carried : data ≠ 0 := by
          rw [escapes]
          decide
        rw [if_pos escapes, quoted, drain_succ (by exact sending), txVect_carry (by exact carried)]
        obtain ⟨idle, bytes⟩ := ih (s := { s with
            sendEscapeData := 0, zbusIndex := s.zbusIndex + 1, busBlocked := 3 })
          sending rfl noEscape packet (by dsimp only; omega) later fuel (by omega)
        refine ⟨idle, ?_⟩
        dsimp only
        rw [bytes, escapes]
        rfl
      · have plain : zbusEscapes.quoteItem data = [data] := if_neg escapes
        rw [if_neg escapes, plain]
        obtain ⟨idle, bytes⟩ := ih (s := { s with zbusIndex := s.zbusIndex + 1, busBlocked := 3 })
          sending noCarry noEscape packet (by dsimp only; omega) later (fuel + 1) (by omega)
        refine ⟨idle, ?_⟩
        dsimp only
        rw [bytes]
        rfl

/-- An idle station puts a packet on the wire as one frame and is idle again. -/
theorem sendPacket_frame (idle : Idle s) {payload : List UInt8} (nonempty : payload ≠ [])
    (fuel : Nat) (enough : 2 * payload.length + 4 ≤ fuel) :
    Idle (sendPacket fuel payload s).1 ∧
      (sendPacket fuel payload s).2 = zbusEscapes.frame payload := by
  have positive := List.length_pos_iff.mpr nonempty
  obtain ⟨fuel, rfl⟩ : ∃ less, fuel = less + 1 := ⟨fuel - 1, by omega⟩
  have starts : ∀ buffer : Bytes,
      zbusTxstart payload.length { s with zbusBuf := buffer, lock := some .other } =
        ({ s with
            zbusBuf := buffer, lock := some .other, zbusIndex := 0,
            zbusTxlen := payload.length, busBlocked := 3, usart := .transmitter,
            sendEscapeData := ZBUS_START }, some ZBUS_ESCAPE) := fun buffer => by
    rw [zbusTxstart, if_neg (by simp [idle.zbusTxlen, idle.zbusRxlen, idle.busBlocked])]
    dsimp only
    rw [if_neg (not_not_intro idle.busBlocked)]
    rfl
  rw [sendPacket]
  dsimp only
  have carried : ZBUS_START ≠ 0 := by decide
  rw [starts, drain_succ rfl, txVect_carry (by exact carried)]
  obtain ⟨idle, bytes⟩ := drain_rest payload
    (s := { s with
      zbusBuf := fun k => payload.getD k (s.zbusBuf k), lock := some .other, zbusIndex := 0,
      zbusTxlen := payload.length, busBlocked := 3, usart := .transmitter, sendEscapeData := 0 })
    rfl rfl idle.recvEscapeData (by dsimp only; omega) (by dsimp only; omega)
    (fun k inside => by
      dsimp only
      rw [Nat.zero_add, List.getD_eq_getElem _ _ inside]) fuel (by omega)
  refine ⟨idle, ?_⟩
  dsimp only
  rw [bytes]
  rfl

end Sender

/-! ## The receiver -/

/-- In a frame, after some bytes of its packet. -/
structure Receiving (payload : List UInt8) (s : Station) : Prop where
  usart : s.usart = .receiver
  sendEscapeData : s.sendEscapeData = 0
  recvEscapeData : s.recvEscapeData = false
  busBlocked : s.busBlocked ≠ 0
  zbusIndex : s.zbusIndex = payload.length
  zbusTxlen : s.zbusTxlen = 0
  zbusRxlen : s.zbusRxlen = 0
  content : contents payload.length s.zbusBuf = payload

theorem contents_update {count : Nat} {buffer : Bytes} (data : UInt8) :
    contents (count + 1) (Function.update buffer count data) = contents count buffer ++ [data] := by
  rw [contents, List.range_succ, List.map_append, List.map_singleton, Function.update_self]
  congr 1
  refine List.map_congr_left fun k inside => ?_
  exact Function.update_of_ne (Nat.ne_of_lt (List.mem_range.mp inside)) _ _

section Receiver

variable {bufferLen : Nat} {s : Station} {payload : List UInt8}

theorem hear_eq (listening : s.usart = .receiver) (noPacket : s.zbusRxlen = 0)
    (notSending : s.zbusTxlen = 0) (data : UInt8) :
    hear bufferLen s data =
      (zbusEscapes.read s.recvEscapeData data).2.elim id (receive bufferLen)
        { s with recvEscapeData := (zbusEscapes.read s.recvEscapeData data).1 } := by
  rw [hear, if_pos listening, rxVect_eq noPacket notSending]

/-- An escape and a code behind it. -/
theorem hear_escaped (listening : s.usart = .receiver) (noPacket : s.zbusRxlen = 0)
    (notSending : s.zbusTxlen = 0) (noEscape : s.recvEscapeData = false) {code : UInt8}
    (symbol : Symbol UInt8) (reads : zbusEscapes.read true code = (false, some symbol)) :
    [ZBUS_ESCAPE, code].foldl (hear bufferLen) s = receive bufferLen symbol s := by
  have opened : hear bufferLen s ZBUS_ESCAPE = { s with recvEscapeData := true } := by
    rw [hear_eq listening noPacket notSending, noEscape]
    rfl
  have closed : { s with recvEscapeData := false } = s := by rw [← noEscape]
  rw [List.foldl_cons, List.foldl_cons, List.foldl_nil, opened,
    hear_eq (by exact listening) (by exact noPacket) (by exact notSending)]
  dsimp only
  rw [reads, closed]
  rfl

/-- Any other byte outside of an escape. -/
theorem hear_plain (listening : s.usart = .receiver) (noPacket : s.zbusRxlen = 0)
    (notSending : s.zbusTxlen = 0) (noEscape : s.recvEscapeData = false) {data : UInt8}
    (plain : data ≠ ZBUS_ESCAPE) : hear bufferLen s data = receive bufferLen (.item data) s := by
  have closed : { s with recvEscapeData := false } = s := by rw [← noEscape]
  rw [hear_eq listening noPacket notSending, noEscape,
    show zbusEscapes.read false data = (false, some (.item data)) from if_neg plain]
  dsimp only [Option.elim]
  rw [closed]

/-- The start marker. -/
theorem hear_start (idle : Idle s) :
    Receiving [] ([ZBUS_ESCAPE, ZBUS_START].foldl (hear bufferLen) s) := by
  rw [hear_escaped idle.usart idle.zbusRxlen idle.zbusTxlen idle.recvEscapeData
    .start rfl, receive, uipBufLock, idle.lock]
  exact ⟨idle.usart, idle.sendEscapeData, idle.recvEscapeData, Nat.succ_ne_zero 2, rfl,
    idle.zbusTxlen, idle.zbusRxlen, rfl⟩

/-- A byte of the packet is appended. -/
theorem Receiving.append (receiving : Receiving payload s) (room : payload.length < bufferLen)
    (data : UInt8) : Receiving (payload ++ [data]) (receive bufferLen (.item data) s) := by
  have full : ¬ bufferLen ≤ s.zbusIndex := by rw [receiving.zbusIndex]; omega
  rw [receive, appendData, if_neg full, if_neg receiving.busBlocked]
  refine ⟨receiving.usart, receiving.sendEscapeData, receiving.recvEscapeData, ?_, ?_,
    receiving.zbusTxlen, receiving.zbusRxlen, ?_⟩
  · exact Nat.succ_ne_zero 2
  · rw [List.length_append, List.length_singleton, ← receiving.zbusIndex]
  · dsimp only
    rw [List.length_append, List.length_singleton, receiving.zbusIndex, contents_update,
      receiving.content]

/-- A byte of the packet, doubled on the wire if it is an escape. -/
theorem Receiving.item (receiving : Receiving payload s) (room : payload.length < bufferLen)
    (data : UInt8) :
    Receiving (payload ++ [data]) ((zbusEscapes.quoteItem data).foldl (hear bufferLen) s) := by
  by_cases escapes : data = ZBUS_ESCAPE
  · rw [show zbusEscapes.quoteItem data = [ZBUS_ESCAPE, ZBUS_ESCAPE] from if_pos escapes, escapes,
      hear_escaped receiving.usart receiving.zbusRxlen receiving.zbusTxlen
        receiving.recvEscapeData (.item ZBUS_ESCAPE) rfl]
    exact receiving.append room ZBUS_ESCAPE
  · rw [show zbusEscapes.quoteItem data = [data] from if_neg escapes, List.foldl_cons,
      List.foldl_nil, hear_plain receiving.usart receiving.zbusRxlen receiving.zbusTxlen
        receiving.recvEscapeData escapes]
    exact receiving.append room data

theorem Receiving.quote (receiving : Receiving payload s) {rest : List UInt8}
    (room : (payload ++ rest).length ≤ bufferLen) :
    Receiving (payload ++ rest) ((zbusEscapes.quote rest).foldl (hear bufferLen) s) := by
  induction rest generalizing payload s with
  | nil => rwa [List.append_nil]
  | cons data rest ih =>
      rw [List.length_append, List.length_cons] at room
      rw [Codes.quote_cons, List.foldl_append, List.append_cons]
      refine ih (receiving.item (by omega) data) ?_
      rw [List.length_append, List.length_append, List.length_singleton]
      omega

/-- The stop marker hands the packet over. -/
theorem Receiving.take (receiving : Receiving payload s) (nonempty : payload ≠ []) :
    Idle (takePacket ([ZBUS_ESCAPE, ZBUS_STOP].foldl (hear bufferLen) s)).1 ∧
      (takePacket ([ZBUS_ESCAPE, ZBUS_STOP].foldl (hear bufferLen) s)).2 = some payload := by
  have stopped : [ZBUS_ESCAPE, ZBUS_STOP].foldl (hear bufferLen) s =
      { s with usart := .off, zbusRxlen := s.zbusIndex, busBlocked := 0 } := by
    rw [hear_escaped receiving.usart receiving.zbusRxlen receiving.zbusTxlen
      receiving.recvEscapeData .stop rfl]
    exact if_pos receiving.busBlocked
  have waiting : s.zbusIndex ≠ 0 := by
    rw [receiving.zbusIndex]
    exact Nat.ne_of_gt (List.length_pos_iff.mpr nonempty)
  have notSending : ¬ 0 < s.zbusTxlen := by rw [receiving.zbusTxlen]; omega
  rw [stopped, takePacket, zbusProcess, if_neg waiting]
  dsimp only
  rw [zbusRxstart, if_neg notSending, uipBufUnlock, if_neg notSending]
  refine ⟨⟨rfl, receiving.sendEscapeData, receiving.recvEscapeData, rfl, receiving.zbusTxlen, rfl, rfl⟩, ?_⟩
  rw [receiving.zbusIndex, receiving.content]

/-- A frame gives its packet, and the station is idle once the packet is taken. -/
theorem takePacket_frame (idle : Idle s) (nonempty : payload ≠ [])
    (fits : payload.length ≤ bufferLen) :
    Idle (takePacket ((zbusEscapes.frame payload).foldl (hear bufferLen) s)).1 ∧
      (takePacket ((zbusEscapes.frame payload).foldl (hear bufferLen) s)).2 = some payload := by
  have parts : zbusEscapes.frame payload =
      [ZBUS_ESCAPE, ZBUS_START] ++ (zbusEscapes.quote payload ++ [ZBUS_ESCAPE, ZBUS_STOP]) := rfl
  rw [parts, List.foldl_append, List.foldl_append]
  exact (Receiving.quote (hear_start idle) fits).take nonempty

end Receiver

/-- Every packet of a session reaches the stack of the receiver as it was sent, and both
stations are idle at the end. -/
theorem exchange_delivers {bufferLen fuel : Nat} {payloads : List (List UInt8)}
    {sender receiver : Station} (senderIdle : Idle sender) (receiverIdle : Idle receiver)
    (nonempty : ∀ payload ∈ payloads, payload ≠ [])
    (fits : ∀ payload ∈ payloads, payload.length ≤ bufferLen)
    (enough : 2 * bufferLen + 4 ≤ fuel) :
    (exchange bufferLen fuel payloads sender receiver).1 = payloads.map some ∧
      Idle (exchange bufferLen fuel payloads sender receiver).2.1 ∧
      Idle (exchange bufferLen fuel payloads sender receiver).2.2 := by
  induction payloads generalizing sender receiver with
  | nil => exact ⟨rfl, senderIdle, receiverIdle⟩
  | cons payload rest ih =>
      have content := nonempty payload List.mem_cons_self
      have room := fits payload List.mem_cons_self
      obtain ⟨sent, wire⟩ := sendPacket_frame senderIdle content fuel (by omega)
      obtain ⟨taken, packet⟩ := takePacket_frame receiverIdle content room
      rw [exchange]
      dsimp only
      rw [wire, packet]
      obtain ⟨packets, idle⟩ := ih sent taken
        (fun later inside => nonempty later (List.mem_cons_of_mem _ inside))
        (fun later inside => fits later (List.mem_cons_of_mem _ inside))
      exact ⟨by rw [packets, List.map_cons], idle⟩

/-- Two packets, the first with every code of the framing in it. -/
theorem exchange_delivers_codes :
    (exchange 4 12 [[92, 48, 92, 49], [49]] (zbusCoreInit fun _ => 0)
      (zbusCoreInit fun _ => 7)).1 = [some [92, 48, 92, 49], some [49]] :=
  (@exchange_delivers 4 12 [[92, 48, 92, 49], [49]] _ _ (idle_zbusCoreInit _)
    (idle_zbusCoreInit _) (by decide) (by decide) (by decide)).1

end Ethersex.Zbus
