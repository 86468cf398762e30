import Mathlib

/-!
# The RC5 sender and receiver

Definitions of `hardware/ir/rc5/rc5.c`, under the names of that file.

The sender is described by the levels it drives on the `RC5_SEND` pin, one per
`RC5_PULSE` delay.  The receiver is described by its two interrupt handlers.  The
timer register `TCNT0` is cleared at every accepted edge, so a handler call takes
the count it reads as an argument instead of keeping the register in the state.
-/

namespace Ethersex.Rc5

/-- `RC5_QUEUE_LENGTH` of `config.h`. -/
def rc5QueueLength : Nat := 10

/-! ## Commands -/

/-- `struct rc5_t`, given by its raw word: code in bits 0 to 5, address in bits 6
to 10, toggle bit in bit 11. -/
structure Rc5T where
  raw : UInt16
  deriving DecidableEq, Repr

namespace Rc5T

def code (command : Rc5T) : UInt16 := command.raw &&& 0x3f

def address (command : Rc5T) : UInt16 := (command.raw >>> 6) &&& 0x1f

def toggleBit (command : Rc5T) : UInt16 := (command.raw >>> 11) &&& 1

end Rc5T

/-- `struct rc5_global_t`. -/
structure Rc5Global where
  receivedCommand : Rc5T
  enabled : Bool
  newData : Bool
  halfbitcount : UInt8
  interrupts : UInt8
  tempDisable : Bool
  queue : List Rc5T
  len : UInt8
  deriving DecidableEq, Repr

/-- The globals of `rc5.c` together with the overflow interrupt enable bit
`TOIE0` and the `static` toggle of `rc5_process`. -/
structure State where
  rc5Global : Rc5Global
  tempRc5 : Rc5T
  toie0 : Bool
  processToggle : UInt16
  deriving DecidableEq, Repr

/-- The state `rc5_init` leaves behind. -/
def rc5Init : State where
  rc5Global :=
    { receivedCommand := ⟨0⟩, enabled := true, newData := false
      halfbitcount := 0, interrupts := 0, tempDisable := false
      queue := List.replicate rc5QueueLength ⟨0⟩, len := 0 }
  tempRc5 := ⟨0⟩
  toie0 := false
  processToggle := 2

/-! ## Timing -/

/-- `RC5_BIT_TICKS`.  The general case is evaluated in 32-bit unsigned arithmetic
and then truncated to eight bits. -/
def rc5BitTicks (fCpu : Nat) : UInt8 :=
  if fCpu = 20000000 then 35
  else if fCpu = 16000000 then 28
  else UInt8.ofNat (fCpu * 1800 % 2 ^ 32 / 1024 / 1000000)

/-- `RC5_HALF_BIT_TICKS`. -/
def rc5HalfBitTicks (fCpu : Nat) : UInt8 := rc5BitTicks fCpu / 2

/-- `RC5_ENVIRONMENT`. -/
def rc5Environment (fCpu : Nat) : UInt8 := rc5BitTicks fCpu / 5

/-- Whether a timer count is strictly inside the tolerance window around
`nominal` ticks.  C promotes both sides of the comparisons to `int`. -/
def inWindow (fCpu : Nat) (nominal counter : UInt8) : Bool :=
  (nominal.toNat : Int) - (rc5Environment fCpu).toNat < counter.toNat &&
    counter.toNat < nominal.toNat + (rc5Environment fCpu).toNat

/-- `received_bits` of the pin-change interrupt, or `none` for an invalid signal. -/
def receivedBits (fCpu : Nat) (counter : UInt8) : Option Nat :=
  if inWindow fCpu (rc5HalfBitTicks fCpu) counter then some 1
  else if inWindow fCpu (rc5BitTicks fCpu) counter then some 2
  else none

/-! ## Receiver -/

/-- One pass of the loop that processes a received half-bit. -/
def processHalfbit (state : State) : State :=
  let halfbitcount := state.rc5Global.halfbitcount + 1
  { state with
    rc5Global := { state.rc5Global with halfbitcount }
    tempRc5 :=
      if halfbitcount &&& 1 = 1 then
        -- interrupts which happened before this one
        ⟨(state.tempRc5.raw <<< 1) ||| (state.rc5Global.interrupts &&& 1).toUInt16⟩
      else state.tempRc5 }

/-- `ISR(RC5_INT_SIGNAL)`, entered with `TCNT0 = counter`. -/
def isrRc5IntSignal (fCpu : Nat) (counter : UInt8) (state : State) : State :=
  if state.rc5Global.enabled && !state.rc5Global.tempDisable then
    let count (state : State) : State :=
      { state with
        rc5Global := { state.rc5Global with interrupts := state.rc5Global.interrupts + 1 } }
    if state.rc5Global.interrupts = 0 then
      count { state with toie0 := true, tempRc5 := ⟨0⟩ }
    else
      match receivedBits fCpu counter with
      | some bits => count (processHalfbit^[bits] state)
      | none =>
          { state with
            rc5Global := { state.rc5Global with tempDisable := true, halfbitcount := 0 } }
  else state

/-- `ISR(TIMER0_OVF_vect)`. -/
def isrTimer0Ovf (state : State) : State :=
  let state := { state with toie0 := false }
  let deliver (state : State) : State :=
    { state with
      rc5Global := { state.rc5Global with receivedCommand := state.tempRc5, newData := true } }
  let state :=
    if state.rc5Global.halfbitcount = 26 then
      -- the last bit was a zero and ended without an edge
      deliver { state with tempRc5 := ⟨state.tempRc5.raw <<< 1⟩ }
    else if state.rc5Global.halfbitcount = 27 then deliver state
    else state
  let global := { state.rc5Global with halfbitcount := 0, interrupts := 0 }
  { state with
    rc5Global := if global.enabled then { global with tempDisable := false } else global }

/-- `rc5_process`. -/
def rc5Process (state : State) : State :=
  let global := state.rc5Global
  if global.newData then
    if state.processToggle ≠ global.receivedCommand.toggleBit then
      { state with
        rc5Global :=
          { global with
            queue := global.receivedCommand :: global.queue.take (rc5QueueLength - 1)
            len := if global.len.toNat < rc5QueueLength then global.len + 1 else global.len
            newData := false }
        processToggle := global.receivedCommand.toggleBit }
    else { state with rc5Global := { global with newData := false } }
  else state

/-- The interrupts the receiver can see. -/
inductive Interrupt where
  | edge (counter : UInt8)
  | overflow
  deriving DecidableEq, Repr

/-- Run one interrupt handler. -/
def handle (fCpu : Nat) (state : State) : Interrupt → State
  | .edge counter => isrRc5IntSignal fCpu counter state
  | .overflow => isrTimer0Ovf state

/-- Run the handlers of a sequence of interrupts. -/
def run (fCpu : Nat) (state : State) (interrupts : List Interrupt) : State :=
  interrupts.foldl (handle fCpu) state

@[simp] theorem run_nil (fCpu : Nat) (state : State) : run fCpu state [] = state := rfl

@[simp] theorem run_cons (fCpu : Nat) (state : State) (interrupt : Interrupt)
    (interrupts : List Interrupt) :
    run fCpu state (interrupt :: interrupts) =
      run fCpu (handle fCpu state interrupt) interrupts := rfl

@[simp] theorem run_append (fCpu : Nat) (state : State) (left right : List Interrupt) :
    run fCpu state (left ++ right) = run fCpu (run fCpu state left) right := by
  simp [run]

/-- The receiver waits for the first edge of a frame. -/
structure Idle (state : State) : Prop where
  enabled : state.rc5Global.enabled = true
  halfbitcount : state.rc5Global.halfbitcount = 0
  interrupts : state.rc5Global.interrupts = 0
  tempDisable : state.rc5Global.tempDisable = false

theorem idle_rc5Init : Idle rc5Init := ⟨rfl, rfl, rfl, rfl⟩

/-! ## Sender -/

/-- `rc5_send_one`: the pin is low for one pulse and then high for one. -/
def rc5SendOne : List Bool := [false, true]

/-- `rc5_send_zero`: the pin is high for one pulse and then low for one. -/
def rc5SendZero : List Bool := [true, false]

/-- The call the sender makes for one bit. -/
def rc5SendBit (bit : Bool) : List Bool := if bit then rc5SendOne else rc5SendZero

/-- Bits of `value` from `count - 1` down to zero, as the loops of `rc5_send`
test them with `_BV(i)`. -/
def bitsDown (value : UInt8) (count : Nat) : List Bool :=
  (List.range count).reverse.map fun i => value.toNat.testBit i

/-- The bits `rc5_send` transmits while its `static` toggle has the given value. -/
def rc5SendBits (toggle : Bool) (addr cmd : UInt8) : List Bool :=
  [true, true, toggle] ++ bitsDown addr 5 ++ bitsDown cmd 6

/-- Pin levels during `rc5_send`, followed by the low level it leaves behind. -/
def rc5Send (toggle : Bool) (addr cmd : UInt8) : List Bool :=
  (rc5SendBits toggle addr cmd).flatMap rc5SendBit ++ [false]

end Ethersex.Rc5
