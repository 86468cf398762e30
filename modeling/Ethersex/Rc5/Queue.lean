import Mathlib
import Ethersex.Library.Walks
import Ethersex.Rc5.Decoding

/-!
# The RC5 queue

The interrupts complete frames, and `rc5_process` puts the key presses among them into the queue.  The
queue is compared with all frames that `rc5_process` has got in the whole run.
-/

namespace Ethersex.Rc5

open Library

/-- An interrupt, or a call of `rc5_process` from the main loop. -/
inductive Event where
  | interrupt (interrupt : Interrupt)
  | process
  deriving DecidableEq, Repr

/-- The frame that a timer overflow completes. -/
def completes (state : State) : Option Rc5T :=
  if state.rc5Global.halfbitcount = 26 then some ⟨state.tempRc5.raw <<< 1⟩
  else if state.rc5Global.halfbitcount = 27 then some state.tempRc5
  else none

/-- The receiver, the frames completed so far, and those that were there at the last call of
`rc5_process`; the newest ones are the first. -/
structure History where
  state : State
  completed : List Rc5T
  seen : List Rc5T

namespace History

def start : History := ⟨rc5Init, [], []⟩

def step (fCpu : Nat) (history : History) : Event → History
  | .interrupt (.edge counter) => { history with state := handle fCpu history.state (.edge counter) }
  | .interrupt .overflow =>
      { history with
        state := handle fCpu history.state .overflow
        completed := (completes history.state).toList ++ history.completed }
  | .process =>
      { history with
        state := rc5Process history.state
        seen := history.completed }

/-- No frame is completed while another one waits. -/
def InTime (history : History) : Event → Prop
  | .interrupt .overflow => (completes history.state).isSome → history.completed = history.seen
  | _ => True

instance (history : History) : (event : Event) → Decidable (history.InTime event)
  | .interrupt .overflow => inferInstanceAs (Decidable (_ → _))
  | .interrupt (.edge _) => isTrue trivial
  | .process => isTrue trivial

end History

/-- The key presses among frames, newest first: those whose toggle bit is not that of the frame before. -/
def presses : List Rc5T → List Rc5T
  | [] => []
  | [frame] => [frame]
  | frame :: before :: frames =>
      if frame.toggleBit ≠ before.toggleBit then frame :: presses (before :: frames)
      else presses (before :: frames)

/-- The toggle bit of the newest frame, or the value that `rc5_process` starts with. -/
def lastToggle (frames : List Rc5T) : UInt16 :=
  match frames with
  | [] => 2
  | frame :: _ => frame.toggleBit

theorem Rc5T.toggleBit_ne_two (command : Rc5T) : command.toggleBit ≠ 2 := by
  intro same
  have bit := congrArg UInt16.toNat same
  rw [Rc5T.toggleBit, UInt16.toNat_and, UInt16.toNat_one, Nat.and_one_is_mod] at bit
  have two : (2 : UInt16).toNat = 2 := rfl
  omega

theorem presses_cons (frame : Rc5T) (frames : List Rc5T) :
    presses (frame :: frames) =
      if lastToggle frames ≠ frame.toggleBit then frame :: presses frames else presses frames := by
  cases frames with
  | nil => exact (if_pos frame.toggleBit_ne_two.symm).symm
  | cons before frames => exact if_congr ne_comm rfl rfl

/-- The queue holds the newest key presses. -/
structure Queued (global : Rc5Global) (frames : List Rc5T) : Prop where
  len : global.len.toNat = min (presses frames).length rc5QueueLength
  queue : global.queue.take global.len.toNat = (presses frames).take rc5QueueLength

/-- What holds between any two events. -/
structure Accounted (history : History) : Prop where
  waiting : history.completed =
    if history.state.rc5Global.newData then history.state.rc5Global.receivedCommand :: history.seen
    else history.seen
  toggle : history.state.processToggle = lastToggle history.seen
  queued : Queued history.state.rc5Global history.seen

theorem Queued.of_eq {global global' : Rc5Global} {frames : List Rc5T} (queued : Queued global frames)
    (queue : global'.queue = global.queue) (len : global'.len = global.len) : Queued global' frames := by
  constructor
  · rw [len]
    exact queued.len
  · rw [queue, len]
    exact queued.queue

/-- A press is shifted in. -/
theorem Queued.shift {global : Rc5Global} {frames : List Rc5T} (queued : Queued global frames)
    {frame : Rc5T} (press : lastToggle frames ≠ frame.toggleBit) {global' : Rc5Global}
    (queue : global'.queue = frame :: global.queue.take (rc5QueueLength - 1))
    (len : global'.len = if global.len.toNat < rc5QueueLength then global.len + 1 else global.len) :
    Queued global' (frame :: frames) := by
  have length : global'.len.toNat = min ((presses frames).length + 1) rc5QueueLength := by
    have before := queued.len
    rw [rc5QueueLength] at *
    rw [len]
    split_ifs
    · rw [UInt8.toNat_add, UInt8.toNat_one]
      omega
    · omega
  have last : global.queue.take (global'.len.toNat - 1) = (presses frames).take (rc5QueueLength - 1) := by
    have shorter := congrArg (List.take (rc5QueueLength - 1)) queued.queue
    rw [List.take_take, List.take_take, min_eq_left (Nat.sub_le _ _), queued.len] at shorter
    rw [← shorter, length]
    congr 1
    rw [rc5QueueLength]
    omega
  constructor
  · rw [length, presses_cons, if_pos press, List.length_cons]
  · obtain ⟨n, more⟩ : ∃ n, global'.len.toNat = n + 1 := by
      rw [length, rc5QueueLength]
      exact Nat.exists_eq_succ_of_ne_zero (by omega)
    rw [more, Nat.add_sub_cancel] at last
    have short : n ≤ rc5QueueLength - 1 := by
      rw [more] at length
      omega
    rw [more, queue, presses_cons, if_pos press, List.take_succ_cons, List.take_take, min_eq_left short,
      last]
    rfl

/-- A frame that repeats the last one changes nothing. -/
theorem Queued.repeat {global : Rc5Global} {frames : List Rc5T} (queued : Queued global frames)
    {frame : Rc5T} (same : ¬ lastToggle frames ≠ frame.toggleBit) : Queued global (frame :: frames) := by
  constructor
  · rw [presses_cons, if_neg same]
    exact queued.len
  · rw [presses_cons, if_neg same]
    exact queued.queue

/-! ## One event -/

/-- What `rc5_process` looks at and changes. -/
def delivery (state : State) : UInt16 × Bool × Rc5T × List Rc5T × UInt8 :=
  (state.processToggle, state.rc5Global.newData, state.rc5Global.receivedCommand, state.rc5Global.queue,
    state.rc5Global.len)

theorem delivery_processHalfbits (count : Nat) (state : State) :
    delivery (processHalfbit^[count] state) = delivery state := by
  induction count generalizing state with
  | zero => rfl
  | succ count ih => exact ih (processHalfbit state)

theorem delivery_edge (fCpu : Nat) (counter : UInt8) (state : State) :
    delivery (isrRc5IntSignal fCpu counter state) = delivery state := by
  rw [isrRc5IntSignal]
  dsimp only
  split_ifs
  · rfl
  · cases receivedBits fCpu counter with
    | none => rfl
    | some bits => exact delivery_processHalfbits bits state
  · rfl

theorem delivery_overflow (state : State) :
    delivery (isrTimer0Ovf state) =
      match completes state with
      | some frame =>
          (state.processToggle, true, frame, state.rc5Global.queue, state.rc5Global.len)
      | none => delivery state := by
  rw [isrTimer0Ovf, completes]
  dsimp only
  split_ifs <;> rfl

namespace Accounted

variable {history : History}

/-- Only the delivery counts. -/
theorem of_delivery (accounted : Accounted history) {state : State}
    (same : delivery state = delivery history.state) : Accounted { history with state } := by
  simp only [delivery, Prod.mk.injEq] at same
  obtain ⟨toggle, newData, command, queue, len⟩ := same
  constructor
  · rw [newData, command]
    exact accounted.waiting
  · rw [toggle]
    exact accounted.toggle
  · exact accounted.queued.of_eq queue len

theorem overflow (accounted : Accounted history) {fCpu : Nat}
    (inTime : history.InTime (.interrupt .overflow)) :
    Accounted (history.step fCpu (.interrupt .overflow)) := by
  have after := delivery_overflow history.state
  rw [History.step, handle]
  cases completed : completes history.state with
  | none =>
    rw [completed] at after
    exact accounted.of_delivery after
  | some frame =>
    rw [completed] at after
    simp only [delivery, Prod.mk.injEq] at after
    obtain ⟨toggle, newData, command, queue, len⟩ := after
    constructor
    · rw [newData, command, inTime (Option.isSome_of_eq_some completed)]
      rfl
    · rw [toggle]
      exact accounted.toggle
    · exact accounted.queued.of_eq queue len

theorem process (accounted : Accounted history) {fCpu : Nat} : Accounted (history.step fCpu .process) := by
  have waiting := accounted.waiting
  rw [History.step, rc5Process]
  cases fresh : history.state.rc5Global.newData with
  | false =>
    rw [fresh, if_neg Bool.false_ne_true] at waiting
    rw [waiting, if_neg Bool.false_ne_true]
    constructor
    · rw [fresh]
      rfl
    · exact accounted.toggle
    · exact accounted.queued
  | true =>
    rw [fresh, if_pos rfl] at waiting
    rw [waiting, if_pos rfl, accounted.toggle]
    by_cases press : lastToggle history.seen ≠ history.state.rc5Global.receivedCommand.toggleBit
    · rw [if_pos press]
      exact ⟨rfl, rfl, accounted.queued.shift press rfl rfl⟩
    · rw [if_neg press]
      exact ⟨rfl, not_not.mp press, (accounted.queued.repeat press).of_eq rfl rfl⟩

theorem step (accounted : Accounted history) {fCpu : Nat} (event : Event) (inTime : history.InTime event) :
    Accounted (history.step fCpu event) := by
  cases event with
  | interrupt interrupt =>
    cases interrupt with
    | edge counter => exact accounted.of_delivery (delivery_edge fCpu counter history.state)
    | overflow => exact accounted.overflow inTime
  | process => exact accounted.process

end Accounted

theorem accounted_start : Accounted .start := ⟨rfl, rfl, rfl, rfl⟩

theorem accounted_run (fCpu : Nat) {events : List Event}
    (each : EachMeets (History.step fCpu) History.InTime .start events) :
    Accounted (events.foldl (History.step fCpu) .start) :=
  each.invariant (fun _ event accounted inTime => accounted.step event inTime) accounted_start

/-- Whenever the frames are processed in time, the queue has the newest key presses, at most ten of them. -/
theorem queue_presses (fCpu : Nat) (events : List Event)
    (each : EachMeets (History.step fCpu) History.InTime .start events) :
    let history := events.foldl (History.step fCpu) .start
    history.state.rc5Global.len.toNat = min (presses history.seen).length rc5QueueLength ∧
      history.state.rc5Global.queue.take history.state.rc5Global.len.toNat =
        (presses history.seen).take rc5QueueLength :=
  ⟨(accounted_run fCpu each).queued.len, (accounted_run fCpu each).queued.queue⟩

/-- The first frame drawn in `rc5.c`, twice. -/
def pressedOnce : List Event :=
  documentedFrame.interrupts.map .interrupt ++ [.process] ++
    documentedFrame.interrupts.map .interrupt ++ [.process]

set_option maxRecDepth 4000 in
theorem queue_presses_once :
    let history := pressedOnce.foldl (History.step 20000000) .start
    history.seen.length = 2 ∧ (presses history.seen).length = 1 ∧
      history.state.rc5Global.len.toNat = min (presses history.seen).length rc5QueueLength ∧
      history.state.rc5Global.queue.take history.state.rc5Global.len.toNat =
        (presses history.seen).take rc5QueueLength :=
  ⟨by decide, by decide, queue_presses 20000000 pressedOnce (by decide)⟩

end Ethersex.Rc5
