import Mathlib
import Ethersex.Ask.Air

/-!
# Frames

The sense code is locked to a frame as long as each active phase is within the limits and the timer turns
over at most once from the end of one to the end of the next.  Once it has lost a frame, it is bits short
of the whole frame for good.
-/

namespace Ethersex.Ask

/-- The ticks of a phase, as the timer counts them. -/
def counted (ticks : Nat) : Nat := ticks % 256

namespace Pulse

variable (fCpu : Nat) (before : Instant) (pulse : Pulse)

/-- The active phase of the pulse is taken for one. -/
def InLimits : Prop :=
  minTicks fCpu ≤ counted (pulse.active before) ∧ counted (pulse.active before) ≤ timeoutTicks fCpu

/-- The timer turns over at most once up to the end of the pulse. -/
def Timely : Prop := pulse.stop.overflows ≤ before.overflows + 1

def Followed : Prop := pulse.InLimits fCpu before ∧ pulse.Timely before

end Pulse

/-- The interrupts of some pulses. -/
def pulseSignals : Instant → List Pulse → List Event
  | _, [] => []
  | before, pulse :: later => signals before pulse.instants ++ pulseSignals pulse.stop later

/-- The end of the last one of some pulses. -/
def lastStop : Instant → List Pulse → Instant
  | before, [] => before
  | _, pulse :: later => lastStop pulse.stop later

/-- All samples up to `stop` are gathered. -/
structure Locked (fCpu : Nat) (samples : List Nat) (stop : Instant) (decodes : List Decode)
    (sense : Sense) : Prop extends Gathered fCpu samples sense where
  clear : sense.overflow = false
  noise : sense.lastNoiseTs = UInt8.ofNat stop.time
  tx : sense.lastTxTs = UInt8.ofNat stop.time
  kept : sense.decodes = decodes

/-- There are few bits, and there were few bits in each decode. -/
structure Lost (most : Nat) (decodes : List Decode) (sense : Sense) : Prop where
  bits : sense.askBufBits.toNat ≤ most
  few : ∃ added, sense.decodes = decodes ++ added ∧ ∀ decode ∈ added, decode.bits.toNat ≤ 40

/-! ## Lost frames -/

namespace Lost

variable {fCpu most : Nat} {decodes : List Decode} {sense : Sense}

theorem weaken (lost : Lost most decodes sense) {more : Nat} (least : most ≤ more) :
    Lost more decodes sense :=
  ⟨lost.bits.trans least, lost.few⟩

/-- A decode of few bits leaves none. -/
theorem tryDecode (lost : Lost most decodes sense) (few : most ≤ 40) :
    Lost 0 decodes (askSenseTryDecode sense) := by
  obtain ⟨added, so, each⟩ := lost.few
  obtain ⟨last, bits, next⟩ : ∃ last : Decode, last.bits = sense.askBufBits ∧
      (askSenseTryDecode sense).decodes = sense.decodes ++ [last] := ⟨_, rfl, rfl⟩
  refine ⟨le_refl 0, added ++ [last], ?_, fun decode member => ?_⟩
  · rw [next, so, List.append_assoc]
  · rcases List.mem_append.mp member with before | now
    · exact each decode before
    · rw [List.mem_singleton.mp now, bits]
      exact lost.bits.trans few

theorem vectorOverflow0 (lost : Lost most decodes sense) (few : most ≤ 40) :
    Lost most decodes (vectorOverflow0 sense) := by
  unfold Ask.vectorOverflow0
  split_ifs
  · have again : Lost most decodes { sense with overflow := false } := ⟨lost.bits, lost.few⟩
    exact (again.tryDecode few).weaken (Nat.zero_le most)
  · exact ⟨lost.bits, lost.few⟩

theorem overflows (lost : Lost most decodes sense) (few : most ≤ 40) (count : Nat) :
    Lost most decodes (Ask.vectorOverflow0^[count] sense) := by
  induction count with
  | zero => exact lost
  | succ count ih =>
    rw [Function.iterate_succ_apply']
    exact ih.vectorOverflow0 few

/-- A sample is one bit more. -/
theorem takeSample (lost : Lost most decodes sense) (few : most < 40) (sample : UInt8) :
    Lost (most + 1) decodes (takeSample fCpu sample sense) := by
  obtain ⟨-, -, -, kept, bits⟩ := takeSample_frame fCpu sample sense
  constructor
  · have held := lost.bits
    have one : (1 : UInt8).toNat = 1 := rfl
    rw [bits, UInt8.toNat_add, one]
    omega
  · rw [kept]
    exact lost.few

/-- A signal that ends no active phase. -/
theorem signal_outside (lost : Lost most decodes sense) (few : most ≤ 40) {ts : UInt8}
    (outside : ¬(minTicks fCpu ≤ (delta sense.overflow ts sense.lastNoiseTs).toNat ∧
      (delta sense.overflow ts sense.lastNoiseTs).toNat ≤ timeoutTicks fCpu)) :
    Lost most decodes (rfm12AskintSignal fCpu ts sense) := by
  rcases lt_or_ge (delta sense.overflow ts sense.lastNoiseTs).toNat (minTicks fCpu) with near | least
  · rw [rfm12AskintSignal_near near]
    exact ⟨lost.bits, lost.few⟩
  · rw [rfm12AskintSignal_late (Nat.not_le.mp fun most => outside ⟨least, most⟩)]
    split_ifs
    · have after := (lost.tryDecode few).weaken (Nat.zero_le most)
      exact ⟨after.bits, after.few⟩
    · exact ⟨lost.bits, lost.few⟩

/-- A signal is two bits more, at most. -/
theorem signal (lost : Lost most decodes sense) (few : most + 2 ≤ 40) (ts : UInt8) :
    Lost (most + 2) decodes (rfm12AskintSignal fCpu ts sense) := by
  by_cases within : minTicks fCpu ≤ (delta sense.overflow ts sense.lastNoiseTs).toNat ∧
      (delta sense.overflow ts sense.lastNoiseTs).toNat ≤ timeoutTicks fCpu
  · have pause : Lost (most + 1) decodes (if sense.askBufBits ≠ 0 then
        Ask.takeSample fCpu (delta sense.overflow sense.lastNoiseTs sense.lastTxTs) sense else sense) := by
      split_ifs
      · exact lost.takeSample (by omega) _
      · exact lost.weaken (by omega)
    have active := @takeSample fCpu _ _ _ pause (by omega) (delta sense.overflow ts sense.lastNoiseTs)
    rw [rfm12AskintSignal_active within.1 within.2]
    exact ⟨active.bits, active.few⟩
  · exact (lost.signal_outside (by omega) within).weaken (by omega)

/-- A pulse is two bits more, at most. -/
theorem pulse (lost : Lost most decodes sense) (few : most + 2 ≤ 40) {before : Instant} {pulse : Pulse}
    (heard : pulse.Heard fCpu before) (noise : sense.lastNoiseTs = UInt8.ofNat before.time) :
    Lost (most + 2) decodes (handleAll fCpu (signals before pulse.instants) sense) := by
  have turned := lost.overflows (by omega) (pulse.stop.overflows - before.overflows)
  have waiting : Lost most decodes
      { Ask.vectorOverflow0^[pulse.stop.overflows - before.overflows] sense with
        lastNoiseTs := UInt8.ofNat (pulse.lastNoise before).time } := ⟨turned.bits, turned.few⟩
  rw [handleAll_pulse heard noise]
  exact waiting.signal few _

end Lost

theorem rfm12AskintSignal_lastNoiseTs (fCpu : Nat) (ts : UInt8) (sense : Sense) :
    (rfm12AskintSignal fCpu ts sense).lastNoiseTs = ts := by
  unfold rfm12AskintSignal
  dsimp only
  split_ifs <;> rfl

/-- Once it is lost, a frame stays lost. -/
theorem Lost.pulses {fCpu most : Nat} {decodes : List Decode} {sense : Sense} {before : Instant}
    {pulses : List Pulse} (lost : Lost most decodes sense) (few : most + 2 * pulses.length ≤ 40)
    (heard : EachAfter (fun before pulse => pulse.Heard fCpu before) before pulses)
    (noise : sense.lastNoiseTs = UInt8.ofNat before.time) :
    Lost 40 decodes (handleAll fCpu (pulseSignals before pulses) sense) ∧
      (handleAll fCpu (pulseSignals before pulses) sense).lastNoiseTs =
        UInt8.ofNat (lastStop before pulses).time := by
  induction pulses generalizing before most sense with
  | nil => exact ⟨lost.weaken (by omega), noise⟩
  | cons pulse later ih =>
    rw [List.length_cons] at few
    have after := lost.pulse (by omega) heard.1 noise
    have stopped : (handleAll fCpu (signals before pulse.instants) sense).lastNoiseTs =
        UInt8.ofNat pulse.stop.time := by
      rw [handleAll_pulse heard.1 noise]
      exact rfm12AskintSignal_lastNoiseTs fCpu _ _
    rw [pulseSignals, handleAll_append]
    exact ih after (by omega) heard.2 stopped

/-! ## Locked frames -/

section Locked

variable {fCpu : Nat} {samples : List Nat} {before : Instant} {decodes : List Decode} {sense : Sense}

theorem Locked.lost (locked : Locked fCpu samples before decodes sense) :
    Lost samples.length decodes sense :=
  ⟨locked.bits.le, [], by rw [locked.kept, List.append_nil],
    fun _ member => absurd member List.not_mem_nil⟩

/-- The time since the last noise at the end of a pulse. -/
theorem Pulse.Heard.delta_active {pulse : Pulse} (heard : pulse.Heard fCpu before) (overflow : Bool) :
    delta overflow (UInt8.ofNat pulse.stop.time) (UInt8.ofNat (pulse.lastNoise before).time) =
      UInt8.ofNat (counted (pulse.active before)) := by
  rw [delta_ofNat overflow heard.2.1, ← UInt8.toNat_inj, UInt8.toNat_ofNat', UInt8.toNat_ofNat', counted,
    Nat.mod_mod]
  rfl

theorem Pulse.Heard.delta_pause {pulse : Pulse} (heard : pulse.Heard fCpu before) (overflow : Bool) :
    delta overflow (UInt8.ofNat (pulse.lastNoise before).time) (UInt8.ofNat before.time) =
      UInt8.ofNat (counted (pulse.pause before)) := by
  have order : before.time ≤ (pulse.lastNoise before).time := heard.1.follows.1
  rw [delta_ofNat overflow order, ← UInt8.toNat_inj, UInt8.toNat_ofNat', UInt8.toNat_ofNat',
    counted, Nat.mod_mod]
  rfl

theorem counted_lt (ticks : Nat) : counted ticks < 256 := Nat.mod_lt _ (by decide)

/-- A pulse that is followed is two samples more. -/
theorem Locked.next {pulse : Pulse} (locked : Locked fCpu samples before decodes sense)
    (any : samples ≠ []) (room : samples.length + 1 < 64) (heard : pulse.Heard fCpu before)
    (followed : pulse.Followed fCpu before) :
    Locked fCpu (samples ++ [counted (pulse.pause before), counted (pulse.active before)]) pulse.stop
      decodes (handleAll fCpu (signals before pulse.instants) sense) := by
  have turns : pulse.stop.overflows - before.overflows ≤ 1 := by
    have timely : pulse.stop.overflows ≤ before.overflows + 1 := followed.2
    omega
  have whole : (UInt8.ofNat (counted (pulse.active before))).toNat = counted (pulse.active before) :=
    UInt8.toNat_ofNat_of_lt' (counted_lt _)
  have bits : sense.askBufBits ≠ 0 := by
    have held := locked.bits
    have long := List.length_pos_of_ne_nil any
    intro empty
    rw [empty] at held
    have zero : (0 : UInt8).toNat = 0 := rfl
    omega
  rw [handleAll_pulse heard locked.noise, iterate_vectorOverflow0_few locked.clear turns,
    rfm12AskintSignal_active (by rw [heard.delta_active, whole]; exact followed.1.1)
      (by rw [heard.delta_active, whole]; exact followed.1.2), if_pos bits]
  dsimp only
  rw [locked.tx, heard.delta_active, heard.delta_pause]
  have waiting : Gathered fCpu samples { sense with
      lastNoiseTs := UInt8.ofNat (pulse.lastNoise before).time
      lastTxTs := UInt8.ofNat before.time
      overflow := decide (0 < pulse.stop.overflows - before.overflows) } :=
    ⟨locked.bits, locked.num, locked.least, locked.greatest, locked.limit, locked.buffer⟩
  have pause := waiting.takeSample (by omega) (counted_lt (pulse.pause before))
  have active := pause.takeSample (by rw [List.length_append]; exact room) (counted_lt (pulse.active before))
  rw [List.append_assoc] at active
  refine ⟨⟨active.bits, active.num, active.least, active.greatest, active.limit, active.buffer⟩,
    rfl, rfl, rfl, ?_⟩
  dsimp only
  rw [(takeSample_frame fCpu _ _).2.2.2.1, (takeSample_frame fCpu _ _).2.2.2.1, locked.kept]

/-- A pulse that is not followed loses the frame. -/
theorem Locked.missed {pulse : Pulse} (locked : Locked fCpu samples before decodes sense)
    (any : samples ≠ []) (few : samples.length + 1 ≤ 40) (heard : pulse.Heard fCpu before)
    (missed : ¬pulse.Followed fCpu before) :
    Lost (samples.length + 1) decodes (handleAll fCpu (signals before pulse.instants) sense) := by
  have long := List.length_pos_of_ne_nil any
  rw [handleAll_pulse heard locked.noise]
  rcases Nat.lt_or_ge (pulse.stop.overflows - before.overflows) 2 with timely | late
  · have turned := locked.lost.overflows (by omega) (pulse.stop.overflows - before.overflows)
    have waiting : Lost samples.length decodes
        { vectorOverflow0^[pulse.stop.overflows - before.overflows] sense with
          lastNoiseTs := UInt8.ofNat (pulse.lastNoise before).time } := ⟨turned.bits, turned.few⟩
    refine (waiting.signal_outside (by omega) fun within => missed ⟨?_, ?_⟩).weaken (Nat.le_succ _)
    · rw [heard.delta_active, UInt8.toNat_ofNat_of_lt' (counted_lt _)] at within
      exact within
    · rw [Pulse.Timely]
      omega
  · have bits : sense.askBufBits ≠ 0 := by
      have held := locked.bits
      intro empty
      rw [empty] at held
      have zero : (0 : UInt8).toNat = 0 := rfl
      omega
    have decoded := locked.lost.tryDecode (by omega)
    rw [iterate_vectorOverflow0_timeout locked.clear bits late]
    have waiting : Lost 0 decodes
        { askSenseTryDecode sense with
          overflow := decide (2 < pulse.stop.overflows - before.overflows)
          lastNoiseTs := UInt8.ofNat (pulse.lastNoise before).time } := ⟨decoded.bits, decoded.few⟩
    exact (waiting.signal (by omega) _).weaken (by omega)

/-- A frame stays locked as long as its pulses are followed, and is lost at the first one that is not. -/
theorem Locked.pulses {pulses : List Pulse} (locked : Locked fCpu samples before decodes sense)
    (any : samples ≠ []) (few : samples.length + 2 * pulses.length ≤ 41)
    (heard : EachAfter (fun before pulse => pulse.Heard fCpu before) before pulses) :
    (EachAfter (fun before pulse => pulse.Followed fCpu before) before pulses →
      Locked fCpu (samples ++ (lengths before pulses).map counted) (lastStop before pulses) decodes
        (handleAll fCpu (pulseSignals before pulses) sense)) ∧
    (¬EachAfter (fun before pulse => pulse.Followed fCpu before) before pulses →
      Lost 40 decodes (handleAll fCpu (pulseSignals before pulses) sense) ∧
        (handleAll fCpu (pulseSignals before pulses) sense).lastNoiseTs =
          UInt8.ofNat (lastStop before pulses).time) := by
  induction pulses generalizing before samples sense with
  | nil =>
    refine ⟨fun _ => ?_, fun missed => absurd trivial missed⟩
    rw [lengths, List.map_nil, List.append_nil]
    exact locked
  | cons pulse later ih =>
    rw [List.length_cons] at few
    rw [pulseSignals, handleAll_append]
    by_cases followed : pulse.Followed fCpu before
    · have more := locked.next any (by omega) heard.1 followed
      obtain ⟨on, off⟩ := ih more (List.append_ne_nil_of_left_ne_nil any _)
        (by rw [List.length_append, List.length_cons, List.length_singleton]; omega) heard.2
      rw [List.append_assoc] at on
      exact ⟨fun each => on each.2, fun missed => off fun rest => missed ⟨followed, rest⟩⟩
    · have lost := locked.missed any (by omega) heard.1 followed
      have stopped : (handleAll fCpu (signals before pulse.instants) sense).lastNoiseTs =
          UInt8.ofNat pulse.stop.time := by
        rw [handleAll_pulse heard.1 locked.noise]
        exact rfm12AskintSignal_lastNoiseTs fCpu _ _
      exact ⟨fun each => absurd each.1 followed,
        fun _ => lost.pulses (by omega) heard.2 stopped⟩

end Locked

end Ethersex.Ask
