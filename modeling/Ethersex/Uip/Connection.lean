import Mathlib
import Ethersex.Library.Bytes

/-!
# Sending on a TCP connection

What uIP does with the answer of an application, for an established connection.  There is at
most one segment in flight, of which uIP keeps the length only: when it has to be sent again,
the application is asked for the data, and whatever lies in the buffer fills up the length.
-/

namespace Ethersex.Uip

open Library

/-- What an application does in a call: `uip_send`, `uip_close`, `uip_abort`, or nothing. -/
inductive Reply where
  | silent
  | send (data : List UInt8)
  | close
  | abort
  deriving DecidableEq, Repr

/-- What goes out. -/
inductive Packet where
  | nothing
  | segment (data : List UInt8)
  | fin
  | reset
  deriving DecidableEq, Repr

/-- The first bytes of the buffer, in which `data` lies in front of older ones. -/
def buffer (data : List UInt8) (stale : Bytes) (count : Nat) : List UInt8 :=
  (List.range count).map fun k => data[k]?.getD (stale k)

/-- The label `appsend`: the new length of the segment in flight, and the packet. -/
def appsend (acked : Bool) (mss : Nat) (stale : Bytes) (len : Nat) : Reply → Nat × Packet
  | .abort => (len, .reset)
  | .close => (1, .fin)
  | .silent => (len, .nothing)
  | .send data =>
      if data.length = 0 then (len, .nothing)
      else
        let len := if acked then 0 else len
        if len = 0 then
          let slen := if data.length > mss then mss else data.length
          (slen, if slen > 0 then .segment (data.take slen) else .nothing)
        else (len, .segment (buffer data stale len))

/-- The label `apprexmit`, behind the application's answer to a request to send the segment
in flight again. -/
def apprexmit (stale : Bytes) (len : Nat) : Reply → Packet
  | .send data => if data.length > 0 ∧ len > 0 then .segment (buffer data stale len) else .nothing
  | _ => .nothing

theorem buffer_eq (data : List UInt8) (stale : Bytes) : buffer data stale data.length = data := by
  refine List.ext_getElem (by simp [buffer]) fun k _ inside => ?_
  simp [buffer, inside]

/-- The buffer holds the beginning of longer data. -/
theorem buffer_eq_take {data : List UInt8} (stale : Bytes) {count : Nat} (few : count ≤ data.length) :
    buffer data stale count = data.take count := by
  refine List.ext_getElem (by simp [buffer, few]) fun k inside _ => ?_
  rw [buffer, List.length_map, List.length_range] at inside
  simp [buffer, List.getElem?_eq_getElem (inside.trans_le few)]

/-- A segment that fits is sent whole when there is none in flight. -/
theorem appsend_fits {acked : Bool} {mss len : Nat} {data : List UInt8} (stale : Bytes)
    (some : data ≠ []) (fits : data.length ≤ mss) (idle : acked = true ∨ len = 0) :
    appsend acked mss stale len (.send data) = (data.length, .segment data) := by
  have positive : data.length ≠ 0 := fun none => some (List.length_eq_zero_iff.mp none)
  have free : (if acked then 0 else len) = 0 := by
    rcases idle with rfl | rfl
    · rfl
    · exact ite_self 0
  simp only [appsend, if_neg positive, free, if_neg (Nat.not_lt.mpr fits),
    if_pos (Nat.pos_of_ne_zero positive), List.take_length, if_true]

/-- The same data are handed over again while they are in flight. -/
theorem appsend_same {data : List UInt8} (mss : Nat) (stale : Bytes) (some : data ≠ []) :
    appsend false mss stale data.length (.send data) = (data.length, .segment data) := by
  have positive : data.length ≠ 0 := fun none => some (List.length_eq_zero_iff.mp none)
  rw [appsend, if_neg positive]
  simp only [Bool.false_eq_true, if_false]
  rw [if_neg positive, buffer_eq]

/-- The same data are sent again. -/
theorem apprexmit_same {data : List UInt8} (stale : Bytes) (some : data ≠ []) :
    apprexmit stale data.length (.send data) = .segment data := by
  have positive : data.length > 0 := List.length_pos_iff.mpr some
  rw [apprexmit, if_pos ⟨positive, positive⟩, buffer_eq]

end Ethersex.Uip

/-!
## A connection and its peer

The part of a connection in which the device sends: the copies of the segment in flight, and what the
peer has taken of it.  The peer takes one copy of each segment, and acknowledges what it has taken.
-/

namespace Ethersex.Uip

open Library

inductive Status where
  | closed
  | established
  | closing
deriving DecidableEq

/-- `len` is the field of `uip_conn_t`.  `copies` are those of the segment in flight, which has been
`taken` or not, and `stream` is all that the peer has taken. -/
structure Flow where
  status : Status
  len : Nat
  copies : List (List UInt8)
  taken : Bool
  stream : List UInt8

namespace Flow

def closed : Flow := ⟨.closed, 0, [], false, []⟩

def opened : Flow := ⟨.established, 0, [], false, []⟩

/-- A packet goes out. -/
def transmit (flow : Flow) : Packet → Flow
  | .nothing => flow
  | .segment bytes => { flow with copies := flow.copies ++ [bytes] }
  | .fin => { flow with status := .closing }
  | .reset => { flow with status := .closed }

/-- The answer of the application to a call. -/
def answer (acked : Bool) (mss : Nat) (stale : Bytes) (reply : Reply) (flow : Flow) : Flow :=
  let (len, packet) := appsend acked mss stale flow.len reply
  { flow with len }.transmit packet

/-- The answer to a request to send the segment in flight again. -/
def again (stale : Bytes) (reply : Reply) (flow : Flow) : Flow :=
  flow.transmit (apprexmit stale flow.len reply)

/-- The segment in flight is acknowledged. -/
def acknowledge (flow : Flow) : Flow := { flow with len := 0, copies := [], taken := false }

/-- One of the copies reaches the peer. -/
def take (k : Nat) (flow : Flow) : Flow :=
  if flow.taken then flow
  else match flow.copies[k]? with
    | some copy => { flow with stream := flow.stream ++ copy, taken := true }
    | none => flow

/-! ## Sending from a queue -/

variable {flow : Flow} {queue : List UInt8}

/-- The segment in flight is what a queue of data begins with. -/
structure Carries (flow : Flow) (queue : List UInt8) : Prop where
  len_le : flow.len ≤ queue.length
  copies : ∀ copy ∈ flow.copies, copy = queue.take flow.len
  fresh : flow.len = 0 → flow.copies = [] ∧ flow.taken = false

/-- What the peer has not taken of the queue. -/
def rest (flow : Flow) (queue : List UInt8) : List UInt8 :=
  if flow.taken then queue.drop flow.len else queue

theorem rest_suffix (flow : Flow) (queue : List UInt8) : flow.rest queue <:+ queue := by
  rw [rest]
  split
  · exact List.drop_suffix ..
  · exact List.suffix_rfl

theorem Carries.append (carries : flow.Carries queue) (more : List UInt8) : flow.Carries (queue ++ more) where
  len_le := carries.len_le.trans (by rw [List.length_append]; exact Nat.le_add_right ..)
  copies := fun copy member => by
    rw [carries.copies copy member, List.take_append_of_le_length carries.len_le]
  fresh := carries.fresh

theorem Carries.rest_append (carries : flow.Carries queue) (more : List UInt8) :
    flow.rest (queue ++ more) = flow.rest queue ++ more := by
  rw [rest, rest]
  split
  · rw [List.drop_append_of_le_length carries.len_le]
  · rfl

theorem Carries.take (carries : flow.Carries queue) (k : Nat) : (flow.take k).Carries queue := by
  unfold Flow.take
  split
  · exact carries
  · split
    next copy found =>
      refine ⟨carries.len_le, carries.copies, fun none => ?_⟩
      rw [(carries.fresh none).1] at found
      exact absurd found.symm (Option.some_ne_none copy)
    · exact carries

/-- What the peer takes is in front of what it has not taken yet. -/
theorem Carries.stream_take (carries : flow.Carries queue) (k : Nat) :
    (flow.take k).stream ++ (flow.take k).rest queue = flow.stream ++ flow.rest queue := by
  unfold Flow.take
  split
  · rfl
  next untaken =>
    split
    next copy found =>
      rw [rest, rest, if_pos rfl, if_neg untaken, List.append_assoc,
        carries.copies copy (List.mem_of_getElem? found), List.take_append_drop]
    · rfl

theorem status_take (k : Nat) (flow : Flow) : (flow.take k).status = flow.status := by
  unfold Flow.take
  split
  · rfl
  · split <;> rfl

/-- An acknowledged segment is taken from the queue. -/
theorem acknowledge_carries (flow : Flow) (queue : List UInt8) : flow.acknowledge.Carries queue where
  len_le := Nat.zero_le _
  copies := fun _ member => absurd member List.not_mem_nil
  fresh := fun _ => ⟨rfl, rfl⟩

theorem rest_acknowledge (taken : flow.taken = true) :
    flow.acknowledge.rest (queue.drop flow.len) = flow.rest queue := by
  rw [rest, rest, if_pos taken]
  exact if_neg Bool.false_ne_true

theorem opened_carries (queue : List UInt8) : opened.Carries queue where
  len_le := Nat.zero_le _
  copies := fun _ member => absurd member List.not_mem_nil
  fresh := fun _ => ⟨rfl, rfl⟩

/-- The application sends what is in the queue. -/
def Offers (reply : Reply) (queue : List UInt8) : Prop := reply = .send queue ∨ reply = .silent ∧ queue = []

/-- A change that keeps what the peer is to get. -/
structure Continues (flow next : Flow) (queue : List UInt8) : Prop where
  carries : next.Carries queue
  rest : next.rest queue = flow.rest queue
  stream : next.stream = flow.stream
  status : next.status = flow.status

/-- The whole queue is handed over when nothing is in flight. -/
theorem Carries.answer {reply : Reply} (carries : flow.Carries queue) (idle : flow.len = 0) (acked : Bool)
    (mss : Nat) (stale : Bytes) (offers : Offers reply queue) :
    flow.Continues (flow.answer acked mss stale reply) queue := by
  obtain rfl | ⟨rfl, -⟩ := offers
  case inr => exact ⟨carries, rfl, rfl, rfl⟩
  obtain ⟨copies, taken⟩ := carries.fresh idle
  have free : (if acked then 0 else flow.len) = 0 := by rw [idle, ite_self]
  unfold Flow.answer appsend
  dsimp only
  by_cases empty : queue.length = 0
  · rw [if_pos empty]
    exact ⟨carries, rfl, rfl, rfl⟩
  rw [if_neg empty, free, if_pos rfl]
  dsimp only
  have slen : (if queue.length > mss then mss else queue.length) ≤ queue.length := by split <;> omega
  generalize (if queue.length > mss then mss else queue.length) = count at slen ⊢
  split_ifs with positive
  · refine ⟨⟨slen, fun copy member => ?_, fun none => absurd none positive.ne'⟩, ?_, rfl, rfl⟩
    · change copy ∈ flow.copies ++ [_] at member
      rw [copies, List.nil_append, List.mem_singleton] at member
      exact member
    · rw [rest, rest, taken]
      exact if_neg (taken ▸ Bool.false_ne_true)
  · refine ⟨⟨slen, fun copy member => ?_, fun _ => ⟨copies, taken⟩⟩, ?_, rfl, rfl⟩
    · change copy ∈ flow.copies at member
      rw [copies] at member
      exact absurd member List.not_mem_nil
    · rw [rest, rest, taken]
      exact if_neg (taken ▸ Bool.false_ne_true)

/-- The queue is handed over again, with more at its end perhaps. -/
theorem Carries.again {reply : Reply} (carries : flow.Carries queue) (flying : flow.len ≠ 0) (stale : Bytes)
    (offers : Offers reply queue) : flow.Continues (flow.again stale reply) queue := by
  obtain rfl | ⟨rfl, -⟩ := offers
  case inr => exact ⟨carries, rfl, rfl, rfl⟩
  have positive := Nat.pos_of_ne_zero flying
  rw [Flow.again, apprexmit, if_pos ⟨positive.trans_le carries.len_le, positive⟩,
    buffer_eq_take stale carries.len_le]
  refine ⟨⟨carries.len_le, fun copy member => ?_, fun none => absurd none flying⟩, rfl, rfl, rfl⟩
  obtain member | member := List.mem_append.mp member
  · exact carries.copies copy member
  · exact List.mem_singleton.mp member

end Flow

end Ethersex.Uip
