import Mathlib

/-!
# The transmitter of a serial port

A byte is written to the data register and goes on to the shift register as soon as that is free.
When the shift register has sent its byte and there is no other one, a flag is set.
-/

namespace Ethersex.Library

/-- The two registers, the flag, the bytes that have left, and whether a byte was ever written while
the data register still held one. -/
structure Transmitter where
  data : Option UInt8
  shift : Option UInt8
  complete : Bool
  line : List UInt8
  overrun : Bool

namespace Transmitter

def idle : Transmitter := ⟨none, none, false, [], false⟩

/-- The bytes on their way. -/
def pending (t : Transmitter) : List UInt8 := t.shift.toList ++ t.data.toList

/-- A byte is written to the data register. -/
def write (ch : UInt8) (t : Transmitter) : Transmitter :=
  match t.shift, t.data with
  | none, _ => { t with shift := some ch }
  | some _, none => { t with data := some ch }
  | some _, some _ => { t with overrun := true }

/-- The byte in the shift register is out. -/
def frame (t : Transmitter) : Transmitter :=
  match t.shift, t.data with
  | none, _ => t
  | some ch, some next => { t with line := t.line ++ [ch], shift := some next, data := none }
  | some ch, none => { t with line := t.line ++ [ch], shift := none, complete := true }

/-- The flag is taken back when its interrupt is served. -/
def serve (t : Transmitter) : Transmitter := { t with complete := false }

/-- The data register is only in use behind the shift register, and the flag is set when neither is. -/
structure Sound (t : Transmitter) : Prop where
  ordered : t.shift = none → t.data = none
  finished : t.complete = true → t.shift = none

theorem idle_sound : idle.Sound := ⟨fun _ => rfl, fun _ => rfl⟩

variable {t : Transmitter}

@[simp] theorem line_serve (t : Transmitter) : t.serve.line = t.line := rfl

@[simp] theorem pending_serve (t : Transmitter) : t.serve.pending = t.pending := rfl

@[simp] theorem shift_serve (t : Transmitter) : t.serve.shift = t.shift := rfl

@[simp] theorem data_serve (t : Transmitter) : t.serve.data = t.data := rfl

@[simp] theorem overrun_serve (t : Transmitter) : t.serve.overrun = t.overrun := rfl

@[simp] theorem complete_serve (t : Transmitter) : t.serve.complete = false := rfl

theorem Sound.serve (sound : t.Sound) : t.serve.Sound :=
  ⟨sound.ordered, fun set => absurd set Bool.false_ne_true⟩

theorem line_pending_frame (sound : t.Sound) : t.frame.line ++ t.frame.pending = t.line ++ t.pending := by
  have ordered := sound.ordered
  obtain ⟨data, shift, complete, line, overrun⟩ := t
  cases shift <;> cases data <;> simp [frame, pending]

theorem Sound.frame (sound : t.Sound) : t.frame.Sound := by
  obtain ⟨ordered, finished⟩ := sound
  obtain ⟨data, shift, complete, line, overrun⟩ := t
  cases shift <;> cases data <;> constructor <;> simp_all [Transmitter.frame]

@[simp] theorem overrun_frame (t : Transmitter) : t.frame.overrun = t.overrun := by
  unfold frame
  split <;> rfl

/-- What was being sent is still being sent or has left the flag behind. -/
theorem frame_busy (busy : t.shift ≠ none) : t.frame.shift ≠ none ∨ t.frame.complete = true := by
  obtain ⟨data, shift, complete, line, overrun⟩ := t
  cases shift with
  | none => exact absurd rfl busy
  | some ch =>
      cases data with
      | none => exact .inr rfl
      | some next => exact .inl (Option.some_ne_none next)

theorem frame_idle (idle : t.shift = none) : t.frame = t := by
  rw [frame, idle]

@[simp] theorem line_write (ch : UInt8) (t : Transmitter) : (t.write ch).line = t.line := by
  unfold write
  split <;> rfl

@[simp] theorem complete_write (ch : UInt8) (t : Transmitter) : (t.write ch).complete = t.complete := by
  unfold write
  split <;> rfl

theorem shift_write (ch : UInt8) (t : Transmitter) : (t.write ch).shift ≠ none := by
  obtain ⟨data, shift, complete, line, overrun⟩ := t
  cases shift with
  | none => exact Option.some_ne_none ch
  | some other => cases data <;> exact Option.some_ne_none other

/-- A byte that is written while the data register is free goes out behind the others. -/
theorem pending_write (free : t.data = none) (ch : UInt8) : (t.write ch).pending = t.pending ++ [ch] := by
  obtain ⟨data, shift, complete, line, overrun⟩ := t
  obtain rfl : data = none := free
  cases shift <;> rfl

theorem overrun_write (free : t.data = none) (ch : UInt8) : (t.write ch).overrun = t.overrun := by
  obtain ⟨data, shift, complete, line, overrun⟩ := t
  obtain rfl : data = none := free
  cases shift <;> rfl

theorem sound_write (unset : t.complete = false) (ch : UInt8) : (t.write ch).Sound :=
  ⟨fun empty => absurd empty (shift_write ch t), fun set => by
    rw [complete_write, unset] at set
    exact absurd set Bool.false_ne_true⟩

end Transmitter

end Ethersex.Library
