import Mathlib
import Ethersex.Library.Walks
import Ethersex.Uip.Connection

/-!
# Connections that the device opens

The states of a TCP connection from `uip_connect` on, and the calls of its application.  The
application is a parameter.
-/

namespace Ethersex.Uip

open Library

/-- The states of `tcpstateflags`. -/
inductive Phase where
  | synSent
  | established
  | finWait1
  | finWait2
  | closing
  | timeWait
  | lastAck
  | closed
deriving DecidableEq

/-- The peers can still send data. -/
def Phase.isOpen : Phase → Bool
  | .synSent | .established => true
  | _ => false

/-- `uip_flags` in a call of the application, with the data in the packet buffer, what is behind it, and
`uip_mss`. -/
structure Call where
  acked : Bool
  newdata : Bool
  rexmit : Bool
  poll : Bool
  closed : Bool
  aborted : Bool
  connected : Bool
  timedout : Bool
  data : List UInt8
  stale : Bytes
  mss : Nat

/-- A call without flags. -/
def Call.plain (stale : Bytes) (mss : Nat) : Call :=
  ⟨false, false, false, false, false, false, false, false, [], stale, mss⟩

/-- An application: what it makes of its state in a call, and what it does. -/
abbrev Application (σ : Type*) := Call → σ → σ × Reply

/-- A connection with the state of its application, and how many times the peer has acknowledged what the
application has sent. -/
structure Active (σ : Type*) where
  phase : Phase
  len : Nat
  mss : Nat
  app : σ
  acknowledged : Nat

/-- What happens to a connection: a SYN and ACK; another segment in sequence, which acknowledges what is
in flight or not; a reset; the timer runs out, or the connection is polled; or it is given up. -/
inductive Input where
  | synAck (mss : Nat) (stale : Bytes)
  | segment (acks : Bool) (data : List UInt8) (fin : Bool) (mss : Nat) (stale : Bytes)
  | reset (stale : Bytes)
  | timer (stale : Bytes)
  | expire (stale : Bytes)

namespace Active

variable {σ : Type*}

/-- `uip_connect`: the SYN is in flight. -/
def connect (app : σ) : Active σ := ⟨.synSent, 1, 0, app, 0⟩

section

variable (run : Application σ)

/-- A call whose answer is not looked at. -/
def notify (call : Call) (phase : Phase) (c : Active σ) : Active σ :=
  { c with
    phase
    app := (run call c.app).1 }

/-- A call with the label `appsend` behind it. -/
def respond (call : Call) (c : Active σ) : Active σ :=
  let (app, reply) := run call c.app
  let (len, packet) := appsend call.acked c.mss call.stale c.len reply
  { c with
    app
    len
    phase := match packet with
      | .fin => .finWait1
      | .reset => .closed
      | .nothing | .segment _ => c.phase }

/-- The part of `uip_process` for a segment in the state `UIP_ESTABLISHED`. -/
def receive (acks : Bool) (data : List UInt8) (fin : Bool) (mss : Nat) (stale : Bytes) (c : Active σ) :
    Active σ :=
  let acked := acks && c.len ≠ 0
  let c := if acked then
      { c with
        len := 0
        acknowledged := c.acknowledged + 1 }
    else c
  let call := { Call.plain stale mss with
    acked
    newdata := data ≠ []
    data }
  if fin then
    if c.len ≠ 0 then c
    else { c.notify run { call with closed := true } .lastAck with len := 1 }
  else if acked ∨ data ≠ [] then { c with mss }.respond run call
  else { c with mss }

def step (c : Active σ) : Input → Active σ
  | .synAck mss stale =>
      match c.phase with
      | .synSent =>
          { c with
            phase := .established
            len := 0
            mss }.respond run { Call.plain stale mss with
              connected := true
              newdata := true }
      | _ => c
  | .segment acks data fin mss stale =>
      let acked := acks && c.len ≠ 0
      let closed := { Call.plain stale c.mss with closed := true }
      match c.phase with
      | .synSent => c.notify run { Call.plain stale c.mss with aborted := true } .closed
      | .established => c.receive run acks data fin mss stale
      | .lastAck => if acked then { c.notify run closed .closed with len := 0 } else c
      | .finWait1 =>
          let c := if acked then { c with len := 0 } else c
          if fin then c.notify run closed (if acked then .timeWait else .closing)
          else if acked then { c with phase := .finWait2 }
          else c
      | .finWait2 => if fin then c.notify run closed .timeWait else c
      | .closing => if acked then { c with len := 0, phase := .timeWait } else c
      | .timeWait | .closed => c
  | .reset stale =>
      if c.phase = .closed then c
      else c.notify run { Call.plain stale c.mss with aborted := true } .closed
  | .timer stale =>
      if c.phase = .established then
        if c.len ≠ 0 then { c with app := (run { Call.plain stale c.mss with rexmit := true } c.app).1 }
        else c.respond run { Call.plain stale c.mss with poll := true }
      else c
  | .expire stale =>
      match c.phase with
      | .closed => c
      | .finWait2 | .timeWait => { c with phase := .closed }
      | _ => c.notify run { Call.plain stale c.mss with timedout := true } .closed

variable {run} {call : Call} {c : Active σ}

/-- An application that does not close the connection. -/
theorem respond_eq (stays : (run call c.app).2 = .silent ∨ ∃ data, (run call c.app).2 = .send data) :
    c.respond run call =
      { c with
        app := (run call c.app).1
        len := (appsend call.acked c.mss call.stale c.len (run call c.app).2).1 } := by
  rw [respond]
  generalize run call c.app = result at stays ⊢
  obtain ⟨app, reply⟩ := result
  obtain rfl | ⟨data, rfl⟩ := stays
  · rfl
  · unfold appsend
    dsimp only
    split_ifs <;> rfl

end

end Active

end Ethersex.Uip
