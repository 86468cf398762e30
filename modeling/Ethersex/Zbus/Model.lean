import Mathlib
import Ethersex.Library.Bytes
import Ethersex.Library.Framing

/-!
# A station on the ZBus

The half-duplex driver: the functions that the main loop calls, and the two interrupts of the
USART.  One buffer is shared with the stack and with every other interface, and a lock says who
uses it.  Each function and each interrupt runs to its end before the next one starts.
-/

namespace Ethersex.Zbus

open Ethersex.Library

def ZBUS_START : UInt8 := 48

def ZBUS_STOP : UInt8 := 49

/-- The backslash. -/
def ZBUS_ESCAPE : UInt8 := 92

/-- The codes of the ZBus as codes of a framing. -/
def zbusEscapes : Codes UInt8 where
  escape := ZBUS_ESCAPE
  start := ZBUS_START
  stop := ZBUS_STOP
  start_ne_escape := by decide
  stop_ne_escape := by decide
  stop_ne_start := by decide

/-- What the control register of the USART enables, with the interrupt that goes with it. -/
inductive Usart where
  | off
  | receiver
  | transmitter
deriving DecidableEq

/-- Who took the lock of the shared buffer: the receive interrupt for a frame, or anybody else.
The lock itself is one flag. -/
inductive Owner where
  | frame
  | other
deriving DecidableEq

/-- The variables of the driver, the buffer and its lock. -/
structure Station where
  usart : Usart
  sendEscapeData : UInt8
  recvEscapeData : Bool
  busBlocked : Nat
  zbusIndex : Nat
  zbusTxlen : Nat
  zbusRxlen : Nat
  zbusBuf : Bytes
  lock : Option Owner

/-- The first bytes of the buffer. -/
def contents (count : Nat) (buffer : Bytes) : List UInt8 := (List.range count).map buffer

/-! ## The lock -/

/-- Nothing when somebody has the lock. -/
def uipBufLock (owner : Owner) (s : Station) : Option Station :=
  match s.lock with
  | none => some { s with lock := some owner }
  | some _ => none

/-- The lock stays while a packet is being sent. -/
def uipBufUnlock (s : Station) : Station :=
  if 0 < s.zbusTxlen then s else { s with lock := none }

/-! ## The functions of the main loop

A function that writes to the data register returns the byte as well. -/

def _zbusTxstart (s : Station) : Station × Option UInt8 :=
  ({ s with busBlocked := 3, usart := .transmitter, sendEscapeData := ZBUS_START },
    some ZBUS_ESCAPE)

def zbusTxstart (size : Nat) (s : Station) : Station × Option UInt8 :=
  if s.zbusTxlen ≠ 0 ∨ s.zbusRxlen ≠ 0 ∨ s.busBlocked ≠ 0 then (s, none)
  else
    let s : Station := { s with zbusIndex := 0, zbusTxlen := size }
    if s.busBlocked ≠ 0 then (s, none) else _zbusTxstart s

def zbusRxstart (s : Station) : Station :=
  if 0 < s.zbusTxlen then s else { s with zbusRxlen := 0, usart := .receiver }

def zbusRxstop (s : Station) : Station := { s with usart := .off }

/-- The state after reset. -/
def zbusCoreInit (buffer : Bytes) : Station :=
  zbusRxstart
    { usart := .off, sendEscapeData := 0, recvEscapeData := false, busBlocked := 0,
      zbusIndex := 0, zbusTxlen := 0, zbusRxlen := 0, zbusBuf := buffer, lock := none }

def zbusCorePeriodic (s : Station) : Station × Option UInt8 :=
  if s.busBlocked ≠ 0 then
    let s : Station := { s with busBlocked := s.busBlocked - 1 }
    if s.busBlocked = 0 ∧ 0 < s.zbusTxlen then _zbusTxstart s else (s, none)
  else (s, none)

/-- Hand a received packet to the stack, which has the buffer from then on. -/
def zbusProcess (s : Station) : Station × Option (List UInt8) :=
  if s.zbusRxlen = 0 then (s, none)
  else ({ zbusRxstart s with lock := some .other }, some (contents s.zbusRxlen s.zbusBuf))

/-! ## The interrupts -/

def txVect (s : Station) : Station × Option UInt8 :=
  if s.sendEscapeData ≠ 0 then ({ s with sendEscapeData := 0 }, some s.sendEscapeData)
  else if s.zbusTxlen ≠ 0 ∧ s.zbusIndex < s.zbusTxlen then
    let data := s.zbusBuf s.zbusIndex
    if data = ZBUS_ESCAPE then
      ({ s with sendEscapeData := data, zbusIndex := s.zbusIndex + 1, busBlocked := 3 },
        some ZBUS_ESCAPE)
    else ({ s with zbusIndex := s.zbusIndex + 1, busBlocked := 3 }, some data)
  else if s.zbusTxlen ≠ 0 then
    ({ uipBufUnlock { s with zbusTxlen := 0 } with sendEscapeData := ZBUS_STOP },
      some ZBUS_ESCAPE)
  else (zbusRxstart { s with busBlocked := 0, zbusTxlen := 0 }, none)

/-- The end of the receive interrupt, for a byte of a packet. -/
def appendData (bufferLen : Nat) (data : UInt8) (s : Station) : Station :=
  if bufferLen ≤ s.zbusIndex then s
  else if s.busBlocked = 0 then s
  else
    { s with
      busBlocked := 3
      zbusBuf := Function.update s.zbusBuf s.zbusIndex data
      zbusIndex := s.zbusIndex + 1 }

/-- The receive interrupt.  `failed` is an overrun or a framing error. -/
def rxVect (bufferLen : Nat) (failed : Bool) (data : UInt8) (s : Station) :
    Station × Option UInt8 :=
  if failed then (s, none)
  else if s.zbusRxlen ≠ 0 then (s, none)
  else if s.zbusTxlen ≠ 0 then (s, none)
  else if s.recvEscapeData then
    let s : Station := { s with recvEscapeData := false }
    if data = ZBUS_START then
      match uipBufLock .frame s with
      | none => (s, none)
      | some s => ({ s with zbusIndex := 0, busBlocked := 3 }, none)
    else if data = ZBUS_STOP then
      let s : Station := if s.busBlocked ≠ 0 then { zbusRxstop s with zbusRxlen := s.zbusIndex } else s
      let s : Station := { s with busBlocked := 0 }
      if 0 < s.zbusTxlen then _zbusTxstart s else (s, none)
    else if data = ZBUS_ESCAPE then (appendData bufferLen data s, none)
    else (s, none)
  else if data = ZBUS_ESCAPE then ({ s with recvEscapeData := true }, none)
  else (appendData bufferLen data s, none)

/-! ## The receive interrupt by symbols -/

/-- What the receive interrupt does with a marker or with a byte of a packet. -/
def receive (bufferLen : Nat) (symbol : Symbol UInt8) (s : Station) : Station :=
  match symbol with
  | .start =>
      match uipBufLock .frame s with
      | none => s
      | some s => { s with zbusIndex := 0, busBlocked := 3 }
  | .stop =>
      if s.busBlocked ≠ 0 then
        { zbusRxstop s with zbusRxlen := s.zbusIndex, busBlocked := 0 }
      else { s with busBlocked := 0 }
  | .item data => appendData bufferLen data s

/-- A station that waits for bytes reads them as a framing does. -/
theorem rxVect_eq {bufferLen : Nat} {s : Station} (noPacket : s.zbusRxlen = 0)
    (notSending : s.zbusTxlen = 0) (data : UInt8) :
    rxVect bufferLen false data s =
      (((zbusEscapes.read s.recvEscapeData data).2.elim id (receive bufferLen))
        { s with recvEscapeData := (zbusEscapes.read s.recvEscapeData data).1 }, none) := by
  have marked : ∀ item, zbusEscapes.read true item =
      if item = ZBUS_START then (false, some .start)
      else if item = ZBUS_STOP then (false, some .stop)
      else if item = ZBUS_ESCAPE then (false, some (.item item))
      else (false, none) := fun _ => rfl
  have plain : ∀ item, zbusEscapes.read false item =
      if item = ZBUS_ESCAPE then (true, none) else (false, some (.item item)) := fun _ => rfl
  have free : ¬ 0 < s.zbusTxlen := by omega
  unfold rxVect
  rw [if_neg Bool.false_ne_true, if_neg (not_not_intro noPacket), if_neg (not_not_intro notSending)]
  cases escaped : s.recvEscapeData with
  | true =>
      rw [if_pos rfl, marked]
      by_cases starts : data = ZBUS_START
      · rw [if_pos starts, if_pos starts]
        dsimp only [Option.elim, receive, uipBufLock]
        cases s.lock <;> rfl
      rw [if_neg starts, if_neg starts]
      by_cases stops : data = ZBUS_STOP
      · rw [if_pos stops, if_pos stops]
        dsimp only [Option.elim, receive]
        by_cases blocked : s.busBlocked ≠ 0
        · rw [if_pos blocked, if_pos blocked]
          exact if_neg free
        · rw [if_neg blocked, if_neg blocked]
          exact if_neg free
      rw [if_neg stops, if_neg stops]
      split <;> rfl
  | false =>
      rw [if_neg Bool.false_ne_true, plain]
      by_cases escapes : data = ZBUS_ESCAPE
      · rw [if_pos escapes, if_pos escapes]
        rfl
      · rw [if_neg escapes, if_neg escapes]
        dsimp only [Option.elim, receive]
        rw [← escaped]

end Ethersex.Zbus
