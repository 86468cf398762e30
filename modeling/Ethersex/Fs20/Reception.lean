import Ethersex.Fs20.Model

/-!
# From the sender to the receiver

What the receiver hears of a transmission are the intervals between the changes of the pin.  The
first one is arbitrary, and when it happens to look like half a zero the pulses of the
synchronisation are paired one pulse too early; its final one puts that right.
-/

namespace Ethersex.Fs20

open Ethersex.Library.Biphase

/-! ## The pulses of a transmission -/

def bitDelay (bit : Bool) : Delay := if bit then .one else .zero

/-- The two pulses of each bit. -/
def pulses (bits : List Bool) : List (List Delay) :=
  bits.flatMap fun bit => [[bitDelay bit], [bitDelay bit]]

def bitActions (bit : Bool) : List Action :=
  [.set, .wait (bitDelay bit), .clear, .wait (bitDelay bit)]

theorem fs20SendBit_eq (bit : UInt8) : fs20SendBit bit = bitActions (decide (bit > 0)) := by
  by_cases positive : bit > 0
  · rw [fs20SendBit, if_pos positive, decide_eq_true positive]
    rfl
  · rw [fs20SendBit, if_neg positive, decide_eq_false positive]
    rfl

theorem fs20SendByte_eq (byte : UInt8) : fs20SendByte byte = (byteBits byte).flatMap bitActions := by
  simp only [fs20SendByte, byteBits, fs20SendBit_eq, List.flatMap_append, List.flatMap_map,
    List.flatMap_singleton]

/-- A datagram is sent bit by bit, with a zero behind it. -/
theorem fs20SendOnce_eq (housecode : UInt16) (address command : UInt8) :
    fs20SendOnce housecode address command =
      (datagramBits (housecode >>> 8).toUInt8 housecode.toUInt8 address command ++
        [false]).flatMap bitActions ++ [.wait .cmd] := by
  have sync : fs20SendSync = syncBits.flatMap bitActions := rfl
  have zero : fs20SendZero = [false].flatMap bitActions := rfl
  simp only [fs20SendOnce, sync, zero, fs20SendByte_eq, datagramBits, List.flatMap_append]

theorem intervals_bits (waits : List Delay) (bits : List Bool) (more : List Action) :
    intervals waits ((bits ++ [false]).flatMap bitActions ++ [.wait .cmd] ++ more) =
      waits :: (pulses bits ++ [[.zero]]) ++ intervals [.zero, .cmd] more := by
  induction bits generalizing waits with
  | nil => rfl
  | cons bit bits ih =>
      have rest := ih [bitDelay bit]
      simp only [List.cons_append, List.flatMap_cons, bitActions, intervals, List.nil_append,
        List.append_assoc, pulses] at rest ⊢
      rw [rest]

/-- The changes of the first repetition. -/
def firstChanges : Nat := 118

/-- The first change comes after any time, the others end the pulses of the bits. -/
theorem intervals_fs20Send (housecode : UInt16) (address command : UInt8) :
    (intervals [] (fs20Send housecode address command)).take firstChanges =
      [] :: (pulses (datagramBits (housecode >>> 8).toUInt8 housecode.toUInt8 address command) ++
        [[.zero]]) := by
  rw [fs20Send, List.replicate_succ, List.flatten_cons, fs20SendOnce_eq, intervals_bits]
  rfl

/-- A time that the receiver may measure for a wait of the sender: inside its windows, and anything
where the sender did not wait once. -/
def Fits : List Delay → UInt8 → Prop
  | [.zero], time => FS20_PULSE_ZERO time
  | [.one], time => FS20_PULSE_ONE time
  | _, _ => True

/-! ## The bits that the receiver decodes -/

/-- The bits that were decoded before an event, together with those of the event. -/
def decodeStep (fs20 : Fs20Global) (bits : List Bool) : Event → List Bool
  | .edge time =>
      if fs20.timeout = 0 ∧ fs20.received < FS20_DATAGRAM_LENGTH then
        if FS20_PULSE_ZERO time ∧ FS20_PULSE_ZERO fs20.time_old then bits ++ [false]
        else if FS20_PULSE_ONE time ∧ FS20_PULSE_ONE fs20.time_old then bits ++ [true]
        else if fs20.err > 3 then [] else bits
      else bits
  | .overflow => if fs20.received ≠ FS20_DATAGRAM_LENGTH ∨ fs20.timeout > 0 then [] else bits
  | .process => if fs20.received = FS20_DATAGRAM_LENGTH then [] else bits
  | .processTimeout => bits

def decode (fs20 : Fs20Global) (bits : List Bool) : List Event → List Bool
  | [] => bits
  | event :: rest => decode (step fs20 event) (decodeStep fs20 bits event) rest

/-- The receiver holds the bits that it decoded. -/
structure Holds (fs20 : Fs20Global) (bits : List Bool) : Prop where
  length_le : bits.length ≤ 58
  received : fs20.received.toNat = bits.length
  raw : fs20.datagram.raw.toNat = word 0 bits

/-- Two pulses of one kind never differ too much. -/
theorem difference_of_zero {x y : UInt8} (left : FS20_PULSE_ZERO x) (right : FS20_PULSE_ZERO y) :
    FS20_PULSE_DIFFERENCE x y := by
  simp only [FS20_PULSE_ZERO, FS20_PULSE_DIFFERENCE] at *
  omega

theorem difference_of_one {x y : UInt8} (left : FS20_PULSE_ONE x) (right : FS20_PULSE_ONE y) :
    FS20_PULSE_DIFFERENCE x y := by
  simp only [FS20_PULSE_ONE, FS20_PULSE_DIFFERENCE] at *
  omega

theorem zeroPair_iff {x y : UInt8} :
    FS20_PULSE_ZERO x ∧ FS20_PULSE_ZERO y ∧ FS20_PULSE_DIFFERENCE x y ↔
      FS20_PULSE_ZERO x ∧ FS20_PULSE_ZERO y :=
  ⟨fun pair => ⟨pair.1, pair.2.1⟩, fun pair => ⟨pair.1, pair.2, difference_of_zero pair.1 pair.2⟩⟩

theorem onePair_iff {x y : UInt8} :
    FS20_PULSE_ONE x ∧ FS20_PULSE_ONE y ∧ FS20_PULSE_DIFFERENCE x y ↔
      FS20_PULSE_ONE x ∧ FS20_PULSE_ONE y :=
  ⟨fun pair => ⟨pair.1, pair.2.1⟩, fun pair => ⟨pair.1, pair.2, difference_of_one pair.1 pair.2⟩⟩

variable {fs20 : Fs20Global} {bits : List Bool}

theorem Holds.none {fs20 : Fs20Global} (received : fs20.received = 0) (raw : fs20.datagram = ⟨0⟩) :
    Holds fs20 [] where
  length_le := Nat.zero_le _
  received := congrArg UInt8.toNat received
  raw := congrArg (fun dg => dg.raw.toNat) raw

theorem toNat_shift_in {raw : UInt64} (small : raw.toNat < 2 ^ 63) (bit : Bool) :
    (if bit then raw <<< 1 ||| 1 else raw <<< 1).toNat = 2 * raw.toNat + bit.toNat := by
  have shifted : (raw <<< 1).toNat = 2 * raw.toNat := by
    rw [UInt64.toNat_shiftLeft, show (1 : UInt64).toNat % 64 = 1 from rfl, Nat.shiftLeft_eq]
    omega
  cases bit with
  | false => simpa using shifted
  | true =>
      have or_one : 2 * raw.toNat ||| 1 = 2 * raw.toNat + 1 := by
        have digit := Nat.shiftLeft_add_eq_or_of_lt (show 1 < 2 ^ 1 by decide) raw.toNat
        rw [Nat.shiftLeft_eq, Nat.pow_one, Nat.mul_comm] at digit
        exact digit.symm
      rw [if_pos rfl, UInt64.toNat_or, shifted]
      exact or_one

/-- Shifting a bit in. -/
theorem Holds.push {next : Fs20Global} (holds : Holds fs20 bits)
    (listens : fs20.received < FS20_DATAGRAM_LENGTH) (bit : Bool)
    (received : next.received = fs20.received + 1)
    (raw : next.datagram.raw = if bit then fs20.datagram.raw <<< 1 ||| 1 else fs20.datagram.raw <<< 1) :
    Holds next (bits ++ [bit]) := by
  have few : bits.length < 58 := by
    rw [← holds.received]
    exact UInt8.lt_iff_toNat_lt.mp listens
  have small : fs20.datagram.raw.toNat < 2 ^ 63 := by
    rw [holds.raw]
    exact lt_of_lt_of_le (word_lt bits) (Nat.pow_le_pow_right (by decide) (by omega))
  refine ⟨?_, ?_, ?_⟩
  · rw [List.length_append, List.length_singleton]
    omega
  · rw [received, UInt8.toNat_add, holds.received, List.length_append, List.length_singleton]
    exact Nat.mod_eq_of_lt (by change bits.length + 1 < 256; omega)
  · rw [raw, toNat_shift_in small, holds.raw, word_append, word_cons, word_nil]

theorem Holds.of_eq {next : Fs20Global} (holds : Holds fs20 bits)
    (received : next.received = fs20.received) (raw : next.datagram = fs20.datagram) :
    Holds next bits :=
  ⟨holds.length_le, received ▸ holds.received, raw ▸ holds.raw⟩

theorem Holds.step (holds : Holds fs20 bits) (event : Event) :
    Holds (step fs20 event) (decodeStep fs20 bits event) := by
  cases event with
  | edge time =>
      simp only [Fs20.step, analogComp, decodeStep, zeroPair_iff, onePair_iff]
      split_ifs with listens zero one misses
      · exact holds.push listens.2 false rfl rfl
      · exact holds.push listens.2 true rfl rfl
      · exact .none rfl rfl
      · exact holds.of_eq rfl rfl
      · exact holds
  | overflow =>
      simp only [Fs20.step, timer2Ovf, decodeStep]
      split_ifs
      · exact .none rfl rfl
      · exact holds
  | process =>
      by_cases complete : fs20.received = 58
      · rw [Fs20.step, fs20Process, if_pos complete, decodeStep, FS20_DATAGRAM_LENGTH,
          if_pos complete]
        exact .none rfl rfl
      · rw [Fs20.step, fs20Process, if_neg complete, decodeStep, FS20_DATAGRAM_LENGTH,
          if_neg complete]
        exact holds
  | processTimeout =>
      simp only [Fs20.step, fs20ProcessTimeout, decodeStep]
      split_ifs
      · exact holds.of_eq rfl rfl
      · exact holds

theorem Holds.run (holds : Holds fs20 bits) (events : List Event) :
    Holds (run fs20 events) (decode fs20 bits events) := by
  induction events generalizing fs20 bits with
  | nil => exact holds
  | cons event rest ih => exact ih (holds.step event)

/-- A datagram is queued when the decoded bits are one. -/
theorem Holds.queue_fs20Process (holds : Holds fs20 bits) (wrong : ¬IsDatagram bits) :
    (fs20Process fs20).queue = fs20.queue ∧ (fs20Process fs20).len = fs20.len := by
  by_cases complete : fs20.received = 58
  · have length : bits.length = 58 := by
      rw [← holds.received, complete]
      rfl
    have refused : ¬accepted fs20.datagram := fun passes =>
      wrong ((accepted_iff length holds.raw).mp passes)
    rw [fs20Process, if_pos complete]
    simp only [if_neg refused, and_self]
  · rw [fs20Process, if_neg complete]
    exact ⟨rfl, rfl⟩

/-! ## Listening to a transmission -/

/-- The receiver in the course of a datagram. -/
def listening (queue : List Fs20Datagram) (len time_old err : UInt8) (bits : List Bool) :
    Fs20Global where
  datagram := ⟨UInt64.ofNat (word 0 bits)⟩
  received := UInt8.ofNat bits.length
  err := err
  queue := queue
  len := len
  timeout := 0
  time_old := time_old

/-- The times of the changes among some events. -/
def edgeTimes (events : List Event) : List UInt8 :=
  events.filterMap fun event =>
    match event with
    | .edge time => some time
    | _ => none

section Listening

variable {queue : List Fs20Datagram} {len time_old err time : UInt8}

theorem toNat_ofNat_length (few : bits.length ≤ 58) :
    (UInt8.ofNat bits.length).toNat = bits.length :=
  UInt8.toNat_ofNat_of_lt' (show bits.length < 256 by omega)

theorem listens (few : bits.length < 58) :
    (listening queue len time_old err bits).timeout = 0 ∧
      (listening queue len time_old err bits).received < FS20_DATAGRAM_LENGTH := by
  refine ⟨rfl, UInt8.lt_iff_toNat_lt.mpr ?_⟩
  rw [listening, toNat_ofNat_length few.le]
  exact few

/-- The receiver after one more bit. -/
theorem listening_push (bit : Bool) (few : bits.length < 58) :
    listening queue len 0 0 (bits ++ [bit]) =
      ⟨⟨if bit then UInt64.ofNat (word 0 bits) <<< 1 ||| 1 else UInt64.ofNat (word 0 bits) <<< 1⟩,
        UInt8.ofNat bits.length + 1, 0, queue, len, 0, 0⟩ := by
  have small : word 0 bits < 2 ^ 58 :=
    lt_of_lt_of_le (word_lt bits) (Nat.pow_le_pow_right (by decide) few.le)
  have raw : (UInt64.ofNat (word 0 bits)).toNat = word 0 bits :=
    UInt64.toNat_ofNat_of_lt' (show word 0 bits < 2 ^ 64 by omega)
  have shifted : UInt64.ofNat (word 0 (bits ++ [bit])) =
      if bit then UInt64.ofNat (word 0 bits) <<< 1 ||| 1 else UInt64.ofNat (word 0 bits) <<< 1 := by
    have := bit.toNat_lt
    rw [← UInt64.toNat_inj, toNat_shift_in (by omega), raw, word_append, word_cons, word_nil]
    exact UInt64.toNat_ofNat_of_lt' (show 2 * word 0 bits + bit.toNat < 2 ^ 64 by omega)
  have length : UInt8.ofNat (bits ++ [bit]).length = UInt8.ofNat bits.length + 1 := by
    rw [List.length_append, UInt8.ofNat_add]
    rfl
  rw [listening, shifted, length]

/-- A pair of pulses of a zero. -/
theorem analogComp_zero (few : bits.length < 58) (first : FS20_PULSE_ZERO time_old)
    (second : FS20_PULSE_ZERO time) :
    analogComp time (listening queue len time_old err bits) =
      listening queue len 0 0 (bits ++ [false]) := by
  refine (if_pos (listens few)).trans ((if_pos (zeroPair_iff.mpr ⟨second, first⟩)).trans ?_)
  rw [listening_push false few]
  rfl

/-- A pair of pulses of a one. -/
theorem analogComp_one (few : bits.length < 58) (first : FS20_PULSE_ONE time_old)
    (second : FS20_PULSE_ONE time) :
    analogComp time (listening queue len time_old err bits) =
      listening queue len 0 0 (bits ++ [true]) := by
  have other : ¬(FS20_PULSE_ZERO time ∧ FS20_PULSE_ZERO time_old) := by
    simp only [FS20_PULSE_ZERO, FS20_PULSE_ONE] at *
    omega
  refine (if_pos (listens few)).trans ((if_neg fun pair => other (zeroPair_iff.mp pair)).trans
    ((if_pos (onePair_iff.mpr ⟨second, first⟩)).trans ?_))
  rw [listening_push true few]
  rfl

/-- A pulse that makes no pair with the one before. -/
theorem analogComp_miss (few : bits.length < 58)
    (zero : ¬(FS20_PULSE_ZERO time ∧ FS20_PULSE_ZERO time_old))
    (one : ¬(FS20_PULSE_ONE time ∧ FS20_PULSE_ONE time_old)) (patient : err.toNat ≤ 3) :
    analogComp time (listening queue len time_old err bits) =
      listening queue len time (err + 1) bits := by
  have calm : ¬err > 3 := by
    rw [gt_iff_lt, UInt8.lt_iff_toNat_lt]
    exact not_lt.mpr patient
  exact (if_pos (listens few)).trans ((if_neg fun pair => zero (zeroPair_iff.mp pair)).trans
    ((if_neg fun pair => one (onePair_iff.mp pair)).trans (if_neg calm)))

/-- Between two pulses the main loop changes nothing. -/
theorem step_pause {event : Event} (few : bits.length < 58) (quiet : edgeTimes [event] = [])
    (runs : event ≠ .overflow) :
    step (listening queue len time_old err bits) event = listening queue len time_old err bits := by
  have waiting : (listening queue len time_old err bits).received ≠ 58 := by
    intro complete
    have few : (listening queue len time_old err bits).timeout = 0 ∧ _ := listens few
    rw [complete] at few
    exact absurd few.2 (by decide)
  cases event with
  | edge time => exact absurd quiet (List.cons_ne_nil _ _)
  | overflow => exact absurd rfl runs
  | process => exact if_neg waiting
  | processTimeout => rfl

end Listening

/-- Hearing some changes takes the receiver from one state to another, whatever the main loop does
in between. -/
def Takes (before : Fs20Global) (times : List UInt8) (after : Fs20Global) : Prop :=
  ∀ events more, .overflow ∉ events → edgeTimes events = times ++ more →
    ∃ rest, run before events = run after rest ∧ .overflow ∉ rest ∧ edgeTimes rest = more

theorem Takes.refl (fs20 : Fs20Global) : Takes fs20 [] fs20 :=
  fun events _ runs heard => ⟨events, rfl, runs, heard⟩

theorem Takes.trans {first second third : Fs20Global} {times more : List UInt8}
    (before : Takes first times second) (after : Takes second more third) :
    Takes first (times ++ more) third := by
  intro events beyond runs heard
  rw [List.append_assoc] at heard
  obtain ⟨middle, same, runs, heard⟩ := before events _ runs heard
  obtain ⟨rest, other, runs, heard⟩ := after middle _ runs heard
  exact ⟨rest, same.trans other, runs, heard⟩

section Takes

variable {queue : List Fs20Datagram} {len time_old err time : UInt8}

theorem Takes.edge (few : bits.length < 58) :
    Takes (listening queue len time_old err bits) [time]
      (analogComp time (listening queue len time_old err bits)) := by
  intro events more runs heard
  induction events with
  | nil => exact absurd heard.symm (List.cons_ne_nil _ _)
  | cons event events ih =>
      obtain ⟨first, others⟩ := not_or.mp (List.mem_cons.not.mp runs)
      cases event with
      | edge here =>
          obtain ⟨rfl, behind⟩ := List.cons.inj heard
          exact ⟨events, rfl, others, behind⟩
      | overflow => exact absurd rfl first
      | process =>
          obtain ⟨rest, same, clean, behind⟩ := ih others heard
          refine ⟨rest, Eq.trans ?_ same, clean, behind⟩
          exact congrArg (run · events) (step_pause few rfl (Ne.symm first))
      | processTimeout =>
          obtain ⟨rest, same, clean, behind⟩ := ih others heard
          refine ⟨rest, Eq.trans ?_ same, clean, behind⟩
          exact congrArg (run · events) (step_pause few rfl (Ne.symm first))

theorem not_zero_of_one {time : UInt8} (one : FS20_PULSE_ONE time) : ¬FS20_PULSE_ZERO time := by
  simp only [FS20_PULSE_ONE, FS20_PULSE_ZERO] at *
  omega

theorem fits_of_bit {bit : Bool} {time : UInt8} (fits : Fits [bitDelay bit] time) :
    bit = false ∧ FS20_PULSE_ZERO time ∨ bit = true ∧ FS20_PULSE_ONE time := by
  cases bit with
  | false => exact .inl ⟨rfl, fits⟩
  | true => exact .inr ⟨rfl, fits⟩

/-- A pulse that cannot be paired with the time before is kept for the next one. -/
theorem Takes.bit {bit : Bool} {first second : UInt8} (few : bits.length < 58)
    (patient : err.toNat ≤ 3)
    (apart : ¬(bit = false ∧ FS20_PULSE_ZERO time_old) ∧ ¬(bit = true ∧ FS20_PULSE_ONE time_old))
    (begins : Fits [bitDelay bit] first) (ends : Fits [bitDelay bit] second) :
    Takes (listening queue len time_old err bits) [first, second]
      (listening queue len 0 0 (bits ++ [bit])) := by
  have miss : analogComp first (listening queue len time_old err bits) =
      listening queue len first (err + 1) bits := by
    refine analogComp_miss few (fun pair => ?_) (fun pair => ?_) patient
    · rcases fits_of_bit begins with ⟨is, _⟩ | ⟨_, one⟩
      · exact apart.1 ⟨is, pair.2⟩
      · exact not_zero_of_one one pair.1
    · rcases fits_of_bit begins with ⟨_, zero⟩ | ⟨is, _⟩
      · exact not_zero_of_one pair.1 zero
      · exact apart.2 ⟨is, pair.2⟩
  have pair : analogComp second (listening queue len first (err + 1) bits) =
      listening queue len 0 0 (bits ++ [bit]) := by
    rcases fits_of_bit begins with ⟨rfl, zero⟩ | ⟨rfl, one⟩
    · exact analogComp_zero few zero ends
    · exact analogComp_one few one ends
  exact (miss ▸ Takes.edge few).trans (pair ▸ Takes.edge few)

/-- The two pulses of the first bit. -/
theorem fits_pulses_cons {bit : Bool} {sent : List Bool} {times : List UInt8}
    (fits : List.Forall₂ Fits (pulses (bit :: sent)) times) :
    ∃ first second more, times = first :: second :: more ∧ Fits [bitDelay bit] first ∧
      Fits [bitDelay bit] second ∧ List.Forall₂ Fits (pulses sent) more := by
  have begun : pulses (bit :: sent) = [bitDelay bit] :: [bitDelay bit] :: pulses sent := rfl
  rw [begun] at fits
  cases fits with
  | cons begins fits =>
      cases fits with
      | cons ends fits => exact ⟨_, _, _, rfl, begins, ends, fits⟩

/-- Two pulses of each bit, from a state in which no pulse is pending. -/
theorem Takes.aligned {sent : List Bool} {times : List UInt8}
    (fits : List.Forall₂ Fits (pulses sent) times) (few : bits.length + sent.length ≤ 58) :
    Takes (listening queue len 0 0 bits) times (listening queue len 0 0 (bits ++ sent)) := by
  induction sent generalizing bits times with
  | nil =>
      cases fits
      rw [List.append_nil]
      exact .refl _
  | cons bit sent ih =>
      obtain ⟨first, second, more, rfl, begins, ends, fits⟩ := fits_pulses_cons fits
      rw [List.length_cons] at few
      rw [List.append_cons bits bit sent]
      have apart : ¬(bit = false ∧ FS20_PULSE_ZERO 0) ∧ ¬(bit = true ∧ FS20_PULSE_ONE 0) :=
        ⟨fun zero => absurd zero.2 (by decide), fun one => absurd one.2 (by decide)⟩
      have here : Takes (listening queue len 0 0 bits) [first, second]
          (listening queue len 0 0 (bits ++ [bit])) := .bit (by omega) (by decide) apart begins ends
      refine here.trans (ih fits ?_)
      rw [List.length_append, List.length_singleton]
      omega

/-- Zeros whose first pulse is paired with the time before: each of them is completed by the first
pulse of the next one. -/
theorem Takes.shifted {zeros : Nat} {times : List UInt8} (pending : FS20_PULSE_ZERO time_old)
    (patient : err.toNat ≤ 1)
    (fits : List.Forall₂ Fits (pulses (List.replicate zeros false)) times)
    (few : bits.length + zeros ≤ 57) :
    ∃ time err', FS20_PULSE_ZERO time ∧ err'.toNat ≤ 1 ∧
      Takes (listening queue len time_old err bits) times
        (listening queue len time err' (bits ++ List.replicate zeros false)) := by
  induction zeros generalizing time_old err bits times with
  | zero =>
      cases fits
      rw [List.replicate_zero, List.append_nil]
      exact ⟨time_old, err, pending, patient, .refl _⟩
  | succ zeros ih =>
      obtain ⟨first, second, more, rfl, begins, ends, fits⟩ := fits_pulses_cons fits
      have length : (bits ++ [false]).length = bits.length + 1 := List.length_append
      have paired : analogComp first (listening queue len time_old err bits) =
          listening queue len 0 0 (bits ++ [false]) := analogComp_zero (by omega) pending begins
      have kept : analogComp second (listening queue len 0 0 (bits ++ [false])) =
          listening queue len second 1 (bits ++ [false]) :=
        analogComp_miss (by omega) (fun pair => absurd pair.2 (by decide))
          (fun pair => absurd pair.2 (by decide)) (by decide)
      obtain ⟨time, err', zero, calm, rest⟩ :=
        ih ends (show (1 : UInt8).toNat ≤ 1 by decide) fits
          (show (bits ++ [false]).length + zeros ≤ 57 by omega)
      refine ⟨time, err', zero, calm, ?_⟩
      rw [List.append_assoc] at rest
      have begun : Takes (listening queue len time_old err bits) [first, second]
          (listening queue len second 1 (bits ++ [false])) :=
        (paired ▸ Takes.edge (by omega)).trans (kept ▸ Takes.edge (by omega))
      exact begun.trans rest

/-- The times that fit the waits of two parts. -/
theorem fits_append {front back : List (List Delay)} {times : List UInt8}
    (fits : List.Forall₂ Fits (front ++ back) times) :
    ∃ early late, times = early ++ late ∧ List.Forall₂ Fits front early ∧
      List.Forall₂ Fits back late :=
  ⟨times.take front.length, times.drop front.length, (List.take_append_drop _ _).symm,
    (List.forall₂_take_append _ _ _ fits.flip).flip, (List.forall₂_drop_append _ _ _ fits.flip).flip⟩

/-- After the first change, whatever time it ended, the pulses of a datagram give its bits. -/
theorem Takes.datagram {hc1 hc2 address command : UInt8} {times : List UInt8} (first : UInt8)
    (fits : List.Forall₂ Fits (pulses (datagramBits hc1 hc2 address command)) times) :
    Takes (listening queue len first 1 []) times
      (listening queue len 0 0 (datagramBits hc1 hc2 address command)) := by
  obtain ⟨body, split, length⟩ : ∃ body, datagramBits hc1 hc2 address command =
      List.replicate 12 false ++ true :: body ∧ body.length = 45 := ⟨_, rfl, rfl⟩
  rw [split] at fits ⊢
  by_cases misled : FS20_PULSE_ZERO first
  · -- the one ends the shift: its first pulse pairs with no zero
    rw [pulses, List.flatMap_append] at fits
    obtain ⟨early, late, rfl, zeros, fits⟩ := fits_append fits
    obtain ⟨time, err, zero, calm, before⟩ : ∃ time err, FS20_PULSE_ZERO time ∧ err.toNat ≤ 1 ∧
        Takes (listening queue len first 1 []) early
          (listening queue len time err ([] ++ List.replicate 12 false)) :=
      Takes.shifted misled (by decide) zeros (by decide)
    obtain ⟨here, there, more, rfl, begins, ends, fits⟩ := fits_pulses_cons fits
    have one : Takes (listening queue len time err (List.replicate 12 false)) [here, there]
        (listening queue len 0 0 (List.replicate 12 false ++ [true])) := by
      refine .bit (by decide) (by omega) ⟨fun none => Bool.noConfusion none.1, fun both => ?_⟩
        begins ends
      exact not_zero_of_one both.2 zero
    have rest : Takes (listening queue len 0 0 (List.replicate 12 false ++ [true])) more
        (listening queue len 0 0 (List.replicate 12 false ++ [true] ++ body)) :=
      .aligned fits (by rw [length]; decide)
    rw [List.append_cons (List.replicate 12 false) true body]
    exact before.trans (one.trans rest)
  · obtain ⟨here, there, more, rfl, begins, ends, fits⟩ := fits_pulses_cons fits
    have zero : Takes (listening queue len first 1 []) [here, there]
        (listening queue len 0 0 ([] ++ [false])) := by
      refine .bit (by decide) (by decide) ⟨fun both => misled both.2, fun none => ?_⟩ begins ends
      exact Bool.noConfusion none.1
    have rest : Takes (listening queue len 0 0 ([] ++ [false])) more
        (listening queue len 0 0 ([] ++ [false] ++ (List.replicate 11 false ++ true :: body))) :=
      .aligned fits (by simp [length])
    exact zero.trans rest

/-! ## Queueing what was decoded -/

/-- Until the main loop looks at it, a complete datagram stays. -/
theorem step_complete {event : Event} (complete : bits.length = 58) (waits : event ≠ .process) :
    step (listening queue len time_old err bits) event = listening queue len time_old err bits := by
  have received : (listening queue len time_old err bits).received = FS20_DATAGRAM_LENGTH := by
    rw [listening, complete]
    rfl
  cases event with
  | edge time =>
      refine if_neg fun listens => ?_
      rw [received] at listens
      exact absurd listens.2 (by decide)
  | overflow =>
      refine if_neg fun reset => ?_
      rw [received] at reset
      exact absurd reset (by simp [listening])
  | process => exact absurd rfl waits
  | processTimeout => rfl

/-- An event adds one bit at most, and only the end of a datagram reaches the queue. -/
theorem step_of_few {event : Event} (few : fs20.received.toNat + (edgeTimes [event]).length < 58) :
    (step fs20 event).queue = fs20.queue ∧ (step fs20 event).len = fs20.len ∧
      (step fs20 event).received.toNat ≤ fs20.received.toNat + (edgeTimes [event]).length := by
  cases event with
  | edge time =>
      have next : (fs20.received + 1).toNat = fs20.received.toNat + 1 := by
        rw [UInt8.toNat_add]
        exact Nat.mod_eq_of_lt (show fs20.received.toNat + 1 < 256 by omega)
      simp only [step, analogComp]
      change _ ∧ _ ∧ _ ≤ _ + 1
      split_ifs <;> simp [next]
  | overflow =>
      simp only [step, timer2Ovf]
      split_ifs <;> simp
  | process =>
      have waiting : fs20.received ≠ 58 := by
        rintro complete
        rw [complete] at few
        exact absurd few (by decide)
      rw [step, fs20Process, if_neg waiting]
      exact ⟨rfl, rfl, Nat.le_add_right _ _⟩
  | processTimeout =>
      simp only [step, fs20ProcessTimeout]
      split_ifs <;> simp

/-- Too few changes leave the queue alone. -/
theorem queue_of_few {events : List Event}
    (few : fs20.received.toNat + (edgeTimes events).length < 58) :
    (run fs20 events).queue = fs20.queue ∧ (run fs20 events).len = fs20.len := by
  induction events generalizing fs20 with
  | nil => exact ⟨rfl, rfl⟩
  | cons event rest ih =>
      have split : (edgeTimes (event :: rest)).length =
          (edgeTimes [event]).length + (edgeTimes rest).length := by
        rw [← List.length_append, edgeTimes, edgeTimes, edgeTimes, ← List.filterMap_append]
        rfl
      rw [split] at few
      obtain ⟨queue, len, received⟩ :=
        step_of_few (show fs20.received.toNat + (edgeTimes [event]).length < 58 by omega)
      obtain ⟨same, equal⟩ :=
        ih (show (step fs20 event).received.toNat + (edgeTimes rest).length < 58 by omega)
      exact ⟨same.trans queue, equal.trans len⟩

theorem edgeTimes_append (events more : List Event) :
    edgeTimes (events ++ more) = edgeTimes events ++ edgeTimes more := List.filterMap_append

theorem run_append (fs20 : Fs20Global) (events more : List Event) :
    run fs20 (events ++ more) = run (run fs20 events) more := List.foldl_append

/-- Looking at a complete datagram. -/
theorem queue_fs20Process (complete : bits.length = 58) (right : IsDatagram bits) :
    (fs20Process (listening queue len time_old err bits)).queue =
        ⟨UInt64.ofNat (word 0 bits)⟩ :: queue.take (FS20_QUEUE_LENGTH - 1) ∧
      (fs20Process (listening queue len time_old err bits)).len =
        (if len.toNat < FS20_QUEUE_LENGTH then len + 1 else len) ∧
      (fs20Process (listening queue len time_old err bits)).received = 0 := by
  have received : (listening queue len time_old err bits).received = 58 := by
    rw [listening, complete]
    rfl
  have raw : (listening queue len time_old err bits).datagram.raw.toNat = word 0 bits := by
    refine UInt64.toNat_ofNat_of_lt' (lt_trans (word_lt bits) ?_)
    rw [complete]
    decide
  have passes : accepted (listening queue len time_old err bits).datagram :=
    (accepted_iff complete raw).mpr right
  rw [fs20Process, if_pos received]
  simp only [if_pos passes, and_true]
  exact ⟨rfl, rfl⟩

/-- A complete datagram is queued by the next look at it, and the few changes until then or behind
it do not matter. -/
theorem queue_of_complete {events : List Event} (complete : bits.length = 58)
    (right : IsDatagram bits) (few : (edgeTimes events).length < 58) :
    (run (listening queue len time_old err bits) (events ++ [.process])).queue =
        ⟨UInt64.ofNat (word 0 bits)⟩ :: queue.take (FS20_QUEUE_LENGTH - 1) ∧
      (run (listening queue len time_old err bits) (events ++ [.process])).len =
        (if len.toNat < FS20_QUEUE_LENGTH then len + 1 else len) := by
  obtain ⟨same, more, empty⟩ : (fs20Process (listening queue len time_old err bits)).queue = _ ∧
      (fs20Process (listening queue len time_old err bits)).len = _ ∧ _ :=
    queue_fs20Process complete right
  induction events with
  | nil => exact ⟨same, more⟩
  | cons event rest ih =>
      have split : edgeTimes (event :: rest) = edgeTimes [event] ++ edgeTimes rest :=
        edgeTimes_append [event] rest
      rw [split, List.length_append] at few
      by_cases looks : event = .process
      · rw [looks]
        have behind : (fs20Process (listening queue len time_old err bits)).received.toNat +
            (edgeTimes (rest ++ [.process])).length < 58 := by
          rw [empty, edgeTimes_append, List.length_append]
          change 0 + ((edgeTimes rest).length + 0) < 58
          omega
        obtain ⟨kept, equal⟩ := queue_of_few behind
        exact ⟨kept.trans same, equal.trans more⟩
      · have stays : step (listening queue len time_old err bits) event =
            listening queue len time_old err bits := step_complete complete looks
        rw [List.cons_append, run, List.foldl_cons, stays]
        exact ih (by omega)

/-- Before the first change nothing happens to an idle receiver. -/
theorem run_silent {events : List Event} (silent : edgeTimes events = []) :
    run (listening queue len 0 0 []) events = listening queue len 0 0 [] := by
  induction events with
  | nil => rfl
  | cons event rest ih =>
      cases event with
      | edge time => exact absurd silent (List.cons_ne_nil _ _)
      | overflow => exact ih silent
      | process => exact ih silent
      | processTimeout => exact ih silent

end Takes

/-- The receiver before any transmission. -/
def idle (queue : List Fs20Datagram) (len : UInt8) : Fs20Global := ⟨⟨0⟩, 0, 0, queue, len, 0, 0⟩

/-- A time in the middle of the window for a wait. -/
def nominal : List Delay → UInt8
  | [.one] => 90
  | _ => 50

theorem fits_nominal (waits : List Delay) : Fits waits (nominal waits) := by
  match waits with
  | [.zero] => exact (by decide : FS20_PULSE_ZERO 50)
  | [.one] => exact (by decide : FS20_PULSE_ONE 90)
  | [] => trivial
  | [.cmd] => trivial
  | .zero :: _ :: _ => trivial
  | .one :: _ :: _ => trivial
  | .cmd :: _ :: _ => trivial

theorem edgeTimes_map_edge (times : List UInt8) : edgeTimes (times.map .edge) = times := by
  induction times with
  | nil => rfl
  | cons time times ih => exact congrArg (time :: ·) ih

theorem overflow_notMem_map_edge (times : List UInt8) : .overflow ∉ times.map Event.edge := by
  intro inside
  obtain ⟨time, _, same⟩ := List.mem_map.mp inside
  cases same

end Ethersex.Fs20
