import Mathlib
import Ethersex.Library.Walks
import Ethersex.I2c.Model

/-!
# Requests of a client

A client sends the requests of a transaction one after the other, some of them more than once.  What is
done on the bus is what the requests ask for, as long as only requests to write that are not the last
ones are repeated, and the devices on the bus acknowledge everything.
-/

namespace Ethersex.I2c

open Library

/-! ## What is asked for -/

namespace Datagram

/-- The bytes a request to write has for the bus. -/
def data (d : Datagram) : List UInt8 := d.bytes.drop 2

/-- A request to read. -/
abbrev Reads (d : Datagram) : Prop := d.i2c_addr_rw &&& 1 = 1

/-- How many bytes a request to read gets. -/
def count (mdpl : UInt16) (d : Datagram) : Nat :=
  (if d.datalen.toNat > mdpl.toNat then mdpl.toUInt8 else d.datalen).toNat

/-- What is read for a request: all bytes but the last one of a transaction are acknowledged. -/
def receives (last : Bool) : Nat → List Op
  | 0 => []
  | left + 1 => .receive (¬(left = 0 ∧ last)) :: receives last left

/-- What a request asks for behind the start condition. -/
def transfers (mdpl : UInt16) (d : Datagram) : List Op :=
  if d.Reads then receives (d.seqnum = 0) (d.count mdpl) else d.data.map .write

/-- What a request asks for: the first one a start condition with the address, and the last one a stop
condition.  A datagram of one byte asks for nothing. -/
def wanted (mdpl : UInt16) (first : Bool) (d : Datagram) : List Op :=
  if d.uip_datalen < 2 then []
  else
    (if first then [.start, .address d.i2c_addr_rw] else []) ++ d.transfers mdpl ++
      if d.seqnum = 0 then [.stop] else []

end Datagram

/-! ## Runs -/

/-- An answer, if there is one. -/
abbrev Answer := Option (List UInt8)

/-- The server with its client, which will send the request `next` of a transaction: the last request
with its answer, what all requests asked for, the answers to repeated requests behind those to the
original ones, and whether anything was read behind a datagram. -/
structure State where
  server : Server
  stuck : Bool
  next : Nat
  last : Option (Datagram × Answer)
  expected : List Op
  answers : List (Answer × Answer)
  beyond : Bool

/-- A request; the last request once more, with something else behind it in the packet buffer; or the
server is polled. -/
inductive Event where
  | request (d : Datagram)
  | again (stale : Bytes)
  | poll

section Runs

variable (wire : Wire) (fuel : Nat) (mdpl : UInt16)

namespace State

def start (twi : Twi) : State := ⟨⟨0, 0, twi⟩, false, 1, none, twi.log, [], false⟩

def step (s : State) : Event → State
  | .request d =>
      match i2cUdpNewdata wire fuel mdpl d s.server with
      | none => { s with stuck := true }
      | some outcome =>
          { s with
            server := outcome.server
            next := if d.seqnum = 0 then 1 else s.next + 1
            last := some (d, outcome.answer)
            expected := s.expected ++ d.wanted mdpl (s.next = 1)
            beyond := s.beyond ∨ d.uip_datalen < outcome.reads }
  | .again stale =>
      match s.last with
      | none => s
      | some (d, answer) =>
          match i2cUdpNewdata wire fuel mdpl { d with stale } s.server with
          | none => { s with stuck := true }
          | some outcome =>
              { s with
                server := outcome.server
                answers := s.answers ++ [(answer, outcome.answer)]
                beyond := s.beyond ∨ d.uip_datalen < outcome.reads }
  | .poll => { s with server := i2cUdpPeriodic s.server }

/-- Each request is executed once, its repetitions get the same answer, and nothing is read behind a
datagram. -/
structure Executed (s : State) : Prop where
  running : s.stuck = false
  log : s.server.twi.log = s.expected
  same : ∀ pair ∈ s.answers, pair.1 = pair.2
  inside : s.beyond = false

end State

/-! ## What the client and the bus are to do -/

/-- The status by which an operation was successful. -/
def Op.Accepted (status : UInt8) : Op → Prop
  | .start => status &&& 0xF8 = TW_START ∨ status &&& 0xF8 = TW_REP_START
  | .address ch => status &&& 0xF8 = if ch &&& 1 = 1 then TW_MR_SLA_ACK else TW_MT_SLA_ACK
  | .write _ => status &&& 0xF8 = TW_MT_DATA_ACK
  | .receive ack => status &&& 0xF8 = if ack then TW_MR_DATA_ACK else TW_MR_DATA_NACK
  | .stop => True

instance (status : UInt8) : (op : Op) → Decidable (op.Accepted status)
  | .start => inferInstanceAs (Decidable (_ ∨ _))
  | .address _ | .write _ | .receive _ => inferInstanceAs (Decidable (_ = _))
  | .stop => isTrue trivial

/-- All operations are successful behind what was done before. -/
def Accepts : List Op → List Op → Prop
  | _, [] => True
  | log, op :: rest => op.Accepted (wire (log ++ [op])).1 ∧ Accepts (log ++ [op]) rest

instance Accepts.decidable : ∀ log ops, Decidable (Accepts wire log ops)
  | _, [] => isTrue trivial
  | log, op :: rest =>
      have := Accepts.decidable (log ++ [op]) rest
      inferInstanceAs (Decidable (_ ∧ _))

/-- A request that can be executed: it has the number of the client's next one or is the last one, it is
as long as its fields, a further one finds the connection and the bus as the first one has left them,
and the bus does what it asks for. -/
structure Request (s : State) (d : Datagram) : Prop where
  number : d.seqnum = 0 ∨ d.seqnum.toNat = s.next
  long : (if d.Reads then 3 else 2) ≤ d.uip_datalen
  short : ¬d.Reads → d.uip_datalen ≤ 257
  further : s.next ≠ 1 → s.server.last_seqnum ≠ 0 ∧
    s.server.twi.mode = if d.Reads then .receiver else .transmitter
  accepted : Accepts wire s.server.twi.log (d.wanted mdpl (s.next = 1))

/-- The only requests that come twice are those to write with a number, before the connection is reset.
Outside of transactions the client may ask for the length of a datagram. -/
def Proper (s : State) : Event → Prop
  | .request d => d.bytes = [0] ∧ s.next = 1 ∨ Request wire mdpl s d
  | .again _ => ∀ last ∈ s.last, last.1.bytes = [0] ∧ s.next = 1 ∨
      2 ≤ last.1.uip_datalen ∧ ¬last.1.Reads ∧ last.1.seqnum ≠ 0 ∧ s.server.last_seqnum ≠ 0
  | .poll => True

instance (s : State) (d : Datagram) : Decidable (Request wire mdpl s d) :=
  decidable_of_iff ((d.seqnum = 0 ∨ d.seqnum.toNat = s.next) ∧ (if d.Reads then 3 else 2) ≤ d.uip_datalen ∧
      (¬d.Reads → d.uip_datalen ≤ 257) ∧
      (s.next ≠ 1 → s.server.last_seqnum ≠ 0 ∧
        s.server.twi.mode = if d.Reads then .receiver else .transmitter) ∧
      Accepts wire s.server.twi.log (d.wanted mdpl (s.next = 1)))
    ⟨fun ⟨number, long, short, further, accepted⟩ => ⟨number, long, short, further, accepted⟩,
      fun request => ⟨request.number, request.long, request.short, request.further, request.accepted⟩⟩

instance (s : State) : (event : Event) → Decidable (Proper wire mdpl s event)
  | .request _ => inferInstanceAs (Decidable (_ ∨ _))
  | .again _ => inferInstanceAs (Decidable (∀ last ∈ s.last, _ ∨ _))
  | .poll => isTrue trivial

/-! ## The bus -/

variable {wire} {fuel} {mdpl} {d : Datagram} {t : Twi}

theorem accepts_append {first second log : List Op} :
    Accepts wire log (first ++ second) ↔ Accepts wire log first ∧ Accepts wire (log ++ first) second := by
  induction first generalizing log with
  | nil => simp [Accepts]
  | cons op first ih => simp [Accepts, ih, and_assoc]

theorem address_mode (rw : UInt8) : ((rw &&& 0xFE) >>> 1) <<< 1 ||| (rw &&& 1) = rw := by
  revert rw
  decide +kernel

theorem and_one (rw : UInt8) : rw &&& 1 = 0 ∨ rw &&& 1 = 1 := by
  revert rw
  decide +kernel

@[simp] theorem Twi.log_perform (op : Op) (mode : Mode) (t : Twi) :
    (t.perform wire op mode).log = t.log ++ [op] := rfl

@[simp] theorem Twi.mode_perform (op : Op) (mode : Mode) (t : Twi) : (t.perform wire op mode).mode = mode := rfl

@[simp] theorem Twi.status_perform (op : Op) (mode : Mode) (t : Twi) :
    (t.perform wire op mode).TW_STATUS = (wire (t.log ++ [op])).1 &&& 0xF8 := rfl

theorem i2cMasterDo_transmitter (mode : t.mode = .transmitter) (twea : Bool) :
    t.i2cMasterDo wire false twea = some (t.perform wire (.write t.TWDR) .transmitter) := by
  rw [Twi.i2cMasterDo, if_neg Bool.false_ne_true, mode]

theorem i2cMasterDo_receiver (mode : t.mode = .receiver) (twea : Bool) :
    t.i2cMasterDo wire false twea = some (t.perform wire (.receive twea) .receiver) := by
  rw [Twi.i2cMasterDo, if_neg Bool.false_ne_true, mode]

/-- The start condition and the address. -/
theorem i2cMasterSelect_spec (rw : UInt8) (accepts : Accepts wire t.log [.start, .address rw]) :
    ∃ next, t.i2cMasterSelect wire ((rw &&& 0xFE) >>> 1) (rw &&& 1) = some (next, true) ∧
      next.log = t.log ++ [.start, .address rw] ∧
      next.mode = if rw &&& 1 = 1 then .receiver else .transmitter := by
  obtain ⟨started, addressed, -⟩ := accepts
  let first : Twi := { t.perform wire .start .started with TWDR := rw }
  let next := first.perform wire (.address rw) (if rw &&& 1 = 0 then .transmitter else .receiver)
  have status : next.TW_STATUS = if rw &&& 1 = 1 then TW_MR_SLA_ACK else TW_MT_SLA_ACK := addressed
  have selected : t.i2cMasterSelect wire ((rw &&& 0xFE) >>> 1) (rw &&& 1) =
      some (next, decide (rw &&& 1 = 0 ∧ next.TW_STATUS = TW_MT_SLA_ACK ∨
        rw &&& 1 = 1 ∧ next.TW_STATUS = TW_MR_SLA_ACK)) := by
    have pass : ¬((t.perform wire .start .started).TW_STATUS ≠ TW_START ∧
        (t.perform wire .start .started).TW_STATUS ≠ TW_REP_START) := fun both =>
      started.elim both.1 both.2
    unfold Twi.i2cMasterSelect
    rw [address_mode]
    change (if (t.perform wire .start .started).TW_STATUS ≠ TW_START ∧
      (t.perform wire .start .started).TW_STATUS ≠ TW_REP_START then _ else _) = _
    rw [if_neg pass]
    rfl
  refine ⟨next, ?_, ?_, ?_⟩
  · rw [selected, status]
    obtain even | odd := and_one rw
    · simp [even]
    · simp [odd]
  · change (t.log ++ [Op.start]) ++ [Op.address rw] = _
    rw [List.append_assoc]
    rfl
  · obtain even | odd := and_one rw
    · simp [next, even]
    · simp [next, odd]

/-- Bytes of a request are written one after the other. -/
theorem transmitLoop_spec {stop : Nat} (short : stop ≤ 255) (left : Nat) {pos : UInt8} {reads : Nat}
    (place : pos.toNat + left = stop) (enough : left < fuel) (mode : t.mode = .transmitter)
    (accepts : Accepts wire t.log ((List.range' (2 + pos.toNat) left).map fun k => .write (d.read k)))
    (before : reads ≤ 2 + pos.toNat) :
    ∃ next last, transmitLoop wire d stop fuel pos reads t = some (next, UInt8.ofNat stop, last) ∧
      next.log = t.log ++ (List.range' (2 + pos.toNat) left).map (fun k => .write (d.read k)) ∧
      last ≤ 2 + stop := by
  induction left generalizing fuel pos reads t with
  | zero =>
      obtain ⟨fuel, rfl⟩ := Nat.exists_eq_succ_of_ne_zero (Nat.ne_of_gt enough)
      obtain rfl : pos.toNat = stop := place
      refine ⟨t, reads, ?_, (List.append_nil _).symm, before⟩
      rw [transmitLoop, if_neg (lt_irrefl _), UInt8.ofNat_toNat]
  | succ left ih =>
      obtain ⟨fuel, rfl⟩ := Nat.exists_eq_succ_of_ne_zero (Nat.ne_of_gt (Nat.zero_lt_of_lt enough))
      have next : (pos + 1).toNat = pos.toNat + 1 := by
        rw [UInt8.toNat_add, UInt8.toNat_one, Nat.mod_eq_of_lt (by omega)]
      rw [List.range'_succ, List.map_cons] at accepts
      obtain ⟨accepted, rest⟩ := accepts
      let t' : Twi := { t with TWDR := d.read (2 + pos.toNat) }.perform wire
        (.write (d.read (2 + pos.toNat))) .transmitter
      have range : List.range' (2 + (pos + 1).toNat) left = List.range' (2 + pos.toNat + 1) left := by
        rw [next, Nat.add_assoc]
      have rest' : Accepts wire t'.log
          ((List.range' (2 + (pos + 1).toNat) left).map fun k => .write (d.read k)) := by
        rw [range]
        exact rest
      have before' : max reads (2 + pos.toNat + 1) ≤ 2 + (pos + 1).toNat := by
        rw [next]
        omega
      obtain ⟨final, last, runs, log, reads'⟩ :=
        ih (by rw [next]; omega) (Nat.lt_of_succ_lt_succ enough) rfl rest' before'
      refine ⟨final, last, ?_, ?_, reads'⟩
      · rw [← runs, transmitLoop, if_pos (by omega)]
        let loaded : Twi := { t with TWDR := d.read (2 + pos.toNat) }
        have ready : loaded.mode = .transmitter := mode
        have does : loaded.i2cMasterDo wire false false = some t' := i2cMasterDo_transmitter ready false
        dsimp only
        rw [does]
        change (if t'.TW_STATUS ≠ TW_MT_DATA_ACK then _ else transmitLoop wire d stop fuel (pos + 1) _ t') = _
        have pass : ¬t'.TW_STATUS ≠ TW_MT_DATA_ACK := not_not.mpr accepted
        rw [if_neg pass]
      · rw [log, range, List.range'_succ, List.map_cons]
        change t.log ++ [_] ++ _ = _
        rw [List.append_assoc]
        rfl

/-- Bytes are read one after the other. -/
theorem receiveLoop_spec (last : Bool) (left : Nat) (mode : t.mode = .receiver)
    (accepts : Accepts wire t.log (Datagram.receives last left)) :
    ∃ next readdata, receiveLoop wire last left t = some (next, readdata, false) ∧
      next.log = t.log ++ Datagram.receives last left := by
  induction left generalizing t with
  | zero => exact ⟨t, [], rfl, (List.append_nil _).symm⟩
  | succ left ih =>
      obtain ⟨accepted, rest⟩ := accepts
      let t' : Twi := t.perform wire (.receive (¬(left = 0 ∧ last = true))) .receiver
      obtain ⟨final, readdata, runs, log⟩ := ih (t := t') rfl rest
      refine ⟨final, t'.TWDR :: readdata, ?_, ?_⟩
      · rw [receiveLoop]
        dsimp only
        rw [i2cMasterDo_receiver mode]
        have pass : ¬t'.TW_STATUS ≠ if left = 0 ∧ last = true then TW_MR_DATA_NACK else TW_MR_DATA_ACK := by
          refine not_not.mpr (accepted.trans ?_)
          by_cases nack : left = 0 ∧ last = true
          · rw [if_pos nack, if_neg (by simp [nack])]
          · rw [if_neg nack, if_pos (decide_eq_true nack)]
        change (if t'.TW_STATUS ≠ (if left = 0 ∧ last = true then TW_MR_DATA_NACK else TW_MR_DATA_ACK) then _
          else receiveLoop wire last left t' >>= _) = _
        rw [if_neg pass, runs]
        rfl
      · rw [log, Datagram.receives]
        change t.log ++ [_] ++ _ = _
        rw [List.append_assoc]
        rfl

/-! ## One datagram -/

theorem map_read (d : Datagram) : (List.range' 2 (d.uip_datalen - 2)).map (fun k => d.read k) = d.data := by
  unfold Datagram.data Datagram.uip_datalen
  refine List.ext_getElem (by simp) fun k _ inside => ?_
  rw [List.length_drop] at inside
  rw [List.getElem_map, List.getElem_range', Datagram.read, List.getElem_drop, Nat.one_mul,
    List.getD_eq_getElem _ _ (by omega)]

/-- What is left for the end of a request. -/
def ending (d : Datagram) : List Op := if d.seqnum = 0 then [.stop] else []

theorem log_ending (d : Datagram) (t : Twi) :
    (if d.seqnum = 0 then t.i2cMasterStop else t).log = t.log ++ ending d := by
  rw [ending]
  split_ifs
  · rfl
  · exact (List.append_nil _).symm

/-- A request to write is executed unless it has the number of the last one. -/
theorem writeRequest_spec {last_seqnum : UInt8} (fresh : last_seqnum = 0 ∨ d.seqnum ≠ last_seqnum)
    (long : 2 ≤ d.uip_datalen) (short : d.uip_datalen ≤ 257) (enough : 256 ≤ fuel)
    (mode : t.mode = .transmitter) (accepts : Accepts wire t.log (d.data.map .write)) :
    ∃ next reads, writeRequest wire fuel d last_seqnum t =
        some (next, [d.seqnum, UInt8.ofNat (d.uip_datalen - 2)], reads) ∧
      next.log = t.log ++ d.data.map .write ++ ending d ∧ reads ≤ d.uip_datalen := by
  have bytes : (List.range' (2 + UInt8.toNat 0) (d.uip_datalen - 2)).map (fun k => Op.write (d.read k)) =
      d.data.map .write := by
    rw [← map_read, List.map_map]
    rfl
  have fits : d.uip_datalen - 2 ≤ 255 := by omega
  have rounds : d.uip_datalen - 2 < fuel := by omega
  obtain ⟨next, reads, runs, log, few⟩ := transmitLoop_spec fits _ (Nat.zero_add _) rounds mode
    (by rw [bytes]; exact accepts) (le_refl 2)
  rw [bytes] at log
  refine ⟨if d.seqnum = 0 then next.i2cMasterStop else next, reads, ?_, ?_, by omega⟩
  · rw [writeRequest, if_pos fresh, runs]
    rfl
  · rw [log_ending, log]

theorem readRequest_spec (mode : t.mode = .receiver)
    (accepts : Accepts wire t.log (Datagram.receives (d.seqnum = 0) (d.count mdpl))) :
    ∃ next readdata, readRequest wire mdpl d t = some (next, d.seqnum :: readdata, false) ∧
      next.log = t.log ++ Datagram.receives (d.seqnum = 0) (d.count mdpl) ++ ending d := by
  obtain ⟨next, readdata, runs, log⟩ := receiveLoop_spec _ _ mode accepts
  refine ⟨if d.seqnum = 0 then next.i2cMasterStop else next, readdata, ?_, ?_⟩
  · rw [readRequest]
    dsimp only
    rw [← Datagram.count, runs]
    rfl
  · rw [log_ending, log]

/-- The part of a request behind the start condition. -/
theorem request_spec {last_seqnum : UInt8} (fresh : last_seqnum = 0 ∨ d.seqnum ≠ last_seqnum)
    (long : (if d.Reads then 3 else 2) ≤ d.uip_datalen) (short : ¬d.Reads → d.uip_datalen ≤ 257)
    (enough : 256 ≤ fuel) (mode : t.mode = if d.Reads then .receiver else .transmitter)
    (accepts : Accepts wire t.log (d.transfers mdpl)) :
    ∃ next answer reads, request wire fuel mdpl d last_seqnum t = some (next, answer, false, reads) ∧
      next.log = t.log ++ d.transfers mdpl ++ ending d ∧ reads ≤ d.uip_datalen ∧
      (¬d.Reads → answer = [d.seqnum, UInt8.ofNat (d.uip_datalen - 2)]) := by
  by_cases kind : d.Reads
  · rw [if_pos kind] at long mode
    rw [Datagram.transfers, if_pos kind] at accepts ⊢
    obtain ⟨next, readdata, runs, log⟩ := readRequest_spec mode accepts
    refine ⟨next, d.seqnum :: readdata, 3, ?_, log, long, absurd kind⟩
    rw [request, if_pos kind, runs]
    rfl
  · rw [if_neg kind] at long mode
    rw [Datagram.transfers, if_neg kind] at accepts ⊢
    obtain ⟨next, reads, runs, log, few⟩ := writeRequest_spec fresh long (short kind) enough mode accepts
    refine ⟨next, _, reads, ?_, log, few, fun _ => rfl⟩
    rw [request, if_neg kind, runs]
    rfl

/-- The start condition and the address stand in front of the first request only. -/
theorem select_spec {s : Server} (first : Bool) (fresh : s.last_seqnum = 0 ↔ first = true)
    (mode : first = false → s.twi.mode = if d.Reads then .receiver else .transmitter)
    (accepts : Accepts wire s.twi.log (if first then [.start, .address d.i2c_addr_rw] else [])) :
    ∃ next, select wire d s = some (next, true) ∧
      next.log = s.twi.log ++ (if first then [.start, .address d.i2c_addr_rw] else []) ∧
      next.mode = if d.Reads then .receiver else .transmitter := by
  cases first with
  | false =>
      refine ⟨s.twi, ?_, (List.append_nil _).symm, mode rfl⟩
      rw [select, if_neg (fun zero => Bool.false_ne_true (fresh.mp zero))]
  | true =>
      rw [select, if_pos (fresh.mpr rfl)]
      exact i2cMasterSelect_spec _ accepts

/-- A request is executed as a whole. -/
theorem newdata_request {s : Server} (first : Bool) (fresh : s.last_seqnum = 0 ↔ first = true)
    (other : s.last_seqnum = 0 ∨ d.seqnum ≠ s.last_seqnum)
    (long : (if d.Reads then 3 else 2) ≤ d.uip_datalen) (short : ¬d.Reads → d.uip_datalen ≤ 257)
    (enough : 256 ≤ fuel)
    (mode : first = false → s.twi.mode = if d.Reads then .receiver else .transmitter)
    (accepts : Accepts wire s.twi.log (d.wanted mdpl first)) :
    ∃ outcome, i2cUdpNewdata wire fuel mdpl d s = some outcome ∧
      outcome.server.twi.log = s.twi.log ++ d.wanted mdpl first ∧
      outcome.server.last_seqnum = d.seqnum ∧ outcome.reads ≤ d.uip_datalen ∧
      (¬d.Reads → outcome.answer = some [d.seqnum, UInt8.ofNat (d.uip_datalen - 2)]) := by
  have two : 2 ≤ d.uip_datalen := le_trans (by split_ifs <;> omega) long
  have all : d.wanted mdpl first = (if first then [.start, .address d.i2c_addr_rw] else []) ++
      (d.transfers mdpl ++ ending d) := by
    rw [Datagram.wanted, if_neg (Nat.not_lt.mpr two), List.append_assoc]
    rfl
  rw [all, accepts_append, accepts_append] at accepts
  obtain ⟨head, body, -⟩ := accepts
  obtain ⟨selected, selects, log, ready⟩ := select_spec first fresh mode head
  rw [← log] at body
  obtain ⟨next, answer, reads, runs, log', few, text⟩ := request_spec other long short enough ready body
  have whole : next.log = s.twi.log ++ d.wanted mdpl first := by
    rw [log', log, all, List.append_assoc, List.append_assoc]
  have query : ¬(d.uip_datalen = 1 ∧ d.seqnum = 0) := fun one => by omega
  have proceeds : ¬(false = true ∨ true = false) := by decide
  rw [i2cUdpNewdata, if_neg query, if_pos two, selects, Option.bind_eq_bind, Option.bind_some]
  dsimp only
  rw [runs, Option.bind_eq_bind, Option.bind_some]
  dsimp only
  rw [if_neg proceeds]
  by_cases ends : d.seqnum = 0
  · rw [if_pos ends]
    exact ⟨_, rfl, whole, ends.symm, few, fun kind => congrArg some (text kind)⟩
  · rw [if_neg ends]
    exact ⟨_, rfl, whole, rfl, few, fun kind => congrArg some (text kind)⟩

theorem newdata_query {s : Server} (query : d.bytes = [0]) :
    i2cUdpNewdata wire fuel mdpl d s = some ⟨s.resetConnection, some [0, mdpl.toUInt8], 1⟩ := by
  have one : d.uip_datalen = 1 := by rw [Datagram.uip_datalen, query]; rfl
  have zero : d.seqnum = 0 := by rw [Datagram.seqnum, Datagram.read, query]; rfl
  rw [i2cUdpNewdata, if_pos ⟨one, zero⟩, zero]
  rfl

/-- A request to write with the number of the last one is answered without being executed. -/
theorem newdata_repeated {s : Server} (long : 2 ≤ d.uip_datalen) (writes : ¬d.Reads)
    (number : d.seqnum ≠ 0) (same : s.last_seqnum = d.seqnum) :
    i2cUdpNewdata wire fuel mdpl d s =
      some ⟨⟨25, d.seqnum, s.twi⟩, some [d.seqnum, UInt8.ofNat (d.uip_datalen - 2)], 2⟩ := by
  have query : ¬(d.uip_datalen = 1 ∧ d.seqnum = 0) := fun one => number one.2
  have old : ¬(s.last_seqnum = 0 ∨ d.seqnum ≠ s.last_seqnum) := by
    rw [same]
    exact fun fresh => fresh.elim number (absurd rfl)
  have selects : select wire d s = some (s.twi, true) := by
    rw [select, if_neg (fun zero => old (.inl zero))]
  have proceeds : ¬(false = true ∨ true = false) := by decide
  have answers : request wire fuel mdpl d s.last_seqnum s.twi =
      some (s.twi, [d.seqnum, UInt8.ofNat (d.uip_datalen - 2)], false, 2) := by
    rw [request, if_neg writes, writeRequest, if_neg old]
    rfl
  rw [i2cUdpNewdata, if_neg query, if_pos long, selects, Option.bind_eq_bind, Option.bind_some]
  dsimp only
  rw [answers, Option.bind_eq_bind, Option.bind_some]
  dsimp only
  rw [if_neg proceeds, if_neg number]
  rfl

/-- Polling does nothing on the bus, and it forgets the number of the last request or keeps it. -/
theorem periodic_spec (s : Server) :
    (i2cUdpPeriodic s).twi.log = s.twi.log ∧
      ((i2cUdpPeriodic s).last_seqnum = 0 ∨ (i2cUdpPeriodic s).last_seqnum = s.last_seqnum) := by
  unfold i2cUdpPeriodic
  by_cases expires : s.timeout = 1
  · rw [if_pos expires]
    dsimp only
    split_ifs
    · exact ⟨rfl, .inl rfl⟩
    · exact ⟨rfl, .inl rfl⟩
  · rw [if_neg expires]
    dsimp only
    split_ifs
    · exact ⟨rfl, .inr rfl⟩
    · exact ⟨rfl, .inr rfl⟩

/-! ## Runs of requests -/

/-- The number of the last request is known or forgotten, and the answer to it is the one that its
repetition gets. -/
structure Inv (mdpl : UInt16) (s : State) : Prop where
  executed : s.Executed
  numbered : s.server.last_seqnum = 0 ∨ s.server.last_seqnum.toNat + 1 = s.next
  query : ∀ last ∈ s.last, last.1.bytes = [0] → last.2 = some [0, mdpl.toUInt8]
  writes : ∀ last ∈ s.last, s.server.last_seqnum ≠ 0 → ¬last.1.Reads → last.1.seqnum ≠ 0 →
    s.server.last_seqnum = last.1.seqnum ∧
      last.2 = some [last.1.seqnum, UInt8.ofNat (last.1.uip_datalen - 2)]

variable {s : State}

theorem Inv.start (twi : Twi) : Inv mdpl (State.start twi) where
  executed := ⟨rfl, rfl, fun _ among => absurd among List.not_mem_nil, rfl⟩
  numbered := .inl rfl
  query := fun last noted => absurd noted (Option.not_mem_none last)
  writes := fun last noted => absurd noted (Option.not_mem_none last)

theorem fields_stale (long : 2 ≤ d.uip_datalen) (stale : Bytes) :
    ({ d with stale } : Datagram).i2c_addr_rw = d.i2c_addr_rw ∧
      ({ d with stale } : Datagram).seqnum = d.seqnum := by
  have inside (k : Nat) (less : k < 2) : ({ d with stale } : Datagram).read k = d.read k := by
    have within : k < d.bytes.length := lt_of_lt_of_le less long
    rw [Datagram.read, Datagram.read, List.getD_eq_getElem _ _ within, List.getD_eq_getElem _ _ within]
  exact ⟨inside 1 one_lt_two, inside 0 two_pos⟩

/-- A request to read or to write. -/
theorem Inv.request (inv : Inv mdpl s) (enough : 256 ≤ fuel) (meets : Request wire mdpl s d) :
    Inv mdpl (s.step wire fuel mdpl (.request d)) := by
  obtain ⟨number, long, short, further, accepted⟩ := meets
  have two : 2 ≤ d.uip_datalen := le_trans (by split_ifs <;> omega) long
  have fresh : s.server.last_seqnum = 0 ↔ decide (s.next = 1) = true := by
    rw [decide_eq_true_iff]
    refine ⟨fun zero => by_contra fun later => (further later).1 zero, fun first => ?_⟩
    refine inv.numbered.elim id fun before => ?_
    rw [first] at before
    exact UInt8.toNat_inj.mp (Nat.succ_inj.mp before)
  have other : s.server.last_seqnum = 0 ∨ d.seqnum ≠ s.server.last_seqnum := by
    refine or_iff_not_imp_left.mpr fun busy same => ?_
    obtain zero | next := number
    · exact busy (same.symm.trans zero)
    · have before := inv.numbered.resolve_left busy
      rw [← same, next] at before
      exact Nat.succ_ne_self _ before
  obtain ⟨outcome, runs, log, kept, few, text⟩ := newdata_request (decide (s.next = 1)) fresh other
    long short enough (fun later => (further (of_decide_eq_false later)).2) accepted
  have taken : s.step wire fuel mdpl (.request d) =
      { s with
        server := outcome.server
        next := if d.seqnum = 0 then 1 else s.next + 1
        last := some (d, outcome.answer)
        expected := s.expected ++ d.wanted mdpl (s.next = 1)
        beyond := s.beyond ∨ d.uip_datalen < outcome.reads } := by
    rw [State.step, runs]
  rw [taken]
  refine ⟨⟨inv.executed.running, ?_, inv.executed.same, ?_⟩, ?_, ?_, ?_⟩
  · exact log.trans (congrArg (· ++ _) inv.executed.log)
  · simp [inv.executed.inside, few]
  · by_cases zero : d.seqnum = 0
    · exact .inl (kept.trans zero)
    · refine .inr ?_
      dsimp only
      rw [if_neg zero, kept, number.resolve_left zero]
  · rintro last noted query
    obtain rfl := Option.mem_some_iff.mp noted
    rw [Datagram.uip_datalen, query] at two
    exact absurd two (by decide)
  · rintro last noted - writes -
    obtain rfl := Option.mem_some_iff.mp noted
    exact ⟨kept, text writes⟩

/-- The client asks for the length of a datagram. -/
theorem Inv.ask (inv : Inv mdpl s) (query : d.bytes = [0]) :
    Inv mdpl (s.step wire fuel mdpl (.request d)) := by
  have one : d.uip_datalen = 1 := by rw [Datagram.uip_datalen, query]; rfl
  have zero : d.seqnum = 0 := by rw [Datagram.seqnum, Datagram.read, query]; rfl
  have taken : s.step wire fuel mdpl (.request d) =
      { s with
        server := s.server.resetConnection
        next := 1
        last := some (d, some [0, mdpl.toUInt8]) } := by
    rw [State.step, newdata_query query]
    dsimp only
    rw [if_pos zero, Datagram.wanted, one, if_pos one_lt_two, List.append_nil]
    simp
  rw [taken]
  refine ⟨⟨inv.executed.running, inv.executed.log, inv.executed.same, inv.executed.inside⟩, .inl rfl, ?_, ?_⟩
  · rintro last noted -
    rw [← Option.mem_some_iff.mp noted]
  · exact fun _ _ busy => absurd rfl busy

/-- The last request comes once more. -/
theorem Inv.again (inv : Inv mdpl s) (stale : Bytes) (meets : Proper wire mdpl s (.again stale)) :
    Inv mdpl (s.step wire fuel mdpl (.again stale)) := by
  rw [State.step]
  cases noted : s.last with
  | none => exact inv
  | some last =>
      obtain ⟨d, answer⟩ := last
      obtain ⟨query, -⟩ | ⟨long, writes, number, busy⟩ := meets _ noted
      · have one : d.uip_datalen = 1 := by
          rw [Datagram.uip_datalen, query]
          rfl
        have old := inv.query _ noted query
        dsimp only
        rw [newdata_query (d := { d with stale }) query]
        refine ⟨⟨inv.executed.running, inv.executed.log, ?_, ?_⟩, .inl rfl, ?_, ?_⟩
        · refine List.forall_mem_append.mpr ⟨inv.executed.same, ?_⟩
          exact List.forall_mem_singleton.mpr old
        · simp [inv.executed.inside, one]
        · exact fun last among => inv.query last (by rw [noted]; exact among)
        · exact fun _ _ busy => absurd rfl busy
      · obtain ⟨same, old⟩ := inv.writes _ noted busy writes number
        dsimp only at long writes number same old
        obtain ⟨rw_stale, seqnum_stale⟩ := fields_stale long stale
        dsimp only
        rw [newdata_repeated (d := { d with stale }) long (by rw [Datagram.Reads, rw_stale]; exact writes)
          (by rw [seqnum_stale]; exact number) (by rw [seqnum_stale]; exact same)]
        dsimp only
        rw [seqnum_stale]
        refine ⟨⟨inv.executed.running, inv.executed.log, ?_, ?_⟩, ?_, ?_, ?_⟩
        · refine List.forall_mem_append.mpr ⟨inv.executed.same, ?_⟩
          exact List.forall_mem_singleton.mpr old
        · simpa [inv.executed.inside] using Nat.lt_of_succ_le long
        · exact .inr (by rw [← same]; exact inv.numbered.resolve_left busy)
        · exact fun last among => inv.query last (by rw [noted]; exact among)
        · intro last among
          obtain rfl := Option.mem_some_iff.mp among
          exact fun _ _ _ => ⟨rfl, old⟩

theorem Inv.poll (inv : Inv mdpl s) : Inv mdpl (s.step wire fuel mdpl .poll) := by
  obtain ⟨log, number⟩ := periodic_spec s.server
  refine ⟨⟨inv.executed.running, log.trans inv.executed.log, inv.executed.same, inv.executed.inside⟩, ?_,
    inv.query, fun last noted busy => ?_⟩
  · refine number.elim .inl fun same => ?_
    rw [State.step, same]
    exact inv.numbered
  · have same := number.resolve_left busy
    have before : s.server.last_seqnum ≠ 0 := fun zero => busy (same.trans zero)
    rw [State.step, same]
    exact inv.writes last noted before

theorem Inv.step (inv : Inv mdpl s) (enough : 256 ≤ fuel) {event : Event}
    (meets : Proper wire mdpl s event) : Inv mdpl (s.step wire fuel mdpl event) := by
  cases event with
  | request d =>
      obtain ⟨query, -⟩ | meets := meets
      · exact inv.ask query
      · exact inv.request enough meets
  | again stale => exact inv.again stale meets
  | poll => exact inv.poll

/-- Each request is executed once, as long as only requests to write that are not the last ones are
repeated, they have the number of the server's last one, and the bus does what it is asked for. -/
theorem executed_of_proper (wire : Wire) {fuel : Nat} (mdpl : UInt16) (enough : 256 ≤ fuel) (twi : Twi)
    {events : List Event}
    (proper : EachMeets (State.step wire fuel mdpl) (Proper wire mdpl) (State.start twi) events) :
    (events.foldl (State.step wire fuel mdpl) (State.start twi)).Executed :=
  (proper.invariant (fun _ _ inv meets => inv.step enough meets) (Inv.start twi)).executed

end Runs

/-- A bus whose devices acknowledge everything. -/
def acknowledging : Wire := fun log =>
  match log.getLast? with
  | some .start => (TW_START, 0)
  | some (.address rw) => (if rw &&& 1 = 1 then TW_MR_SLA_ACK else TW_MT_SLA_ACK, 0)
  | some (.write _) => (TW_MT_DATA_ACK, 0)
  | some (.receive ack) => (if ack then TW_MR_DATA_ACK else TW_MR_DATA_NACK, 0x55)
  | some .stop | none => (TW_NO_INFO, 0)

/-- A byte is written with the first request, which comes twice, and another one with the last one. -/
theorem executed_of_proper_twoRequests :
    ([.request ⟨[1, 0x40, 7], fun _ => 0⟩, .again (fun _ => 0), .poll,
        .request ⟨[0, 0x40, 8], fun _ => 0⟩].foldl
      (State.step acknowledging 256 40) (State.start ⟨0, TW_NO_INFO, .idle, []⟩)).Executed :=
  executed_of_proper acknowledging 40 (by decide) ⟨0, TW_NO_INFO, .idle, []⟩ (by decide +kernel)

/-- The only request of a transaction comes twice, and it is executed twice. -/
theorem not_executed :
    ¬([.request ⟨[0, 0x40, 7], fun _ => 0⟩, .again (fun _ => 0)].foldl
      (State.step acknowledging 256 40) (State.start ⟨0, TW_NO_INFO, .idle, []⟩)).Executed := by
  intro executed
  have log := executed.log
  revert log
  decide +kernel

end Ethersex.I2c
