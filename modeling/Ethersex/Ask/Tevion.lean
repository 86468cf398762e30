import Mathlib
import Ethersex.Ask.Bytes
import Ethersex.Ask.Frames

/-!
# Remote codes of Tevion

A frame has 41 phases, the odd ones with the transmitter on.  It is received if the sense code follows it
to the end and if the limits it compares the phases with separate the short ones from the long ones.  The
limit learnt from the first sixteen phases does not, if these are all short or all long.
-/

namespace Ethersex.Ask

/-- A frame on the air: noise since the start of the sense code, the pulses, and noise behind them, up to a
number of overflows. -/
structure Transmission where
  start : Instant
  first : Pulse
  rest : List Pulse
  tail : List Instant
  timeout : Nat

namespace Transmission

variable (fCpu : Nat) (air : Transmission)

def phases : List Nat := air.first.active air.start :: lengths air.first.stop air.rest

/-- The end of the last phase. -/
def stop : Instant := lastStop air.first.stop air.rest

def events : List Event :=
  signals air.start air.first.instants ++ pulseSignals air.first.stop air.rest ++
    signals air.stop air.tail ++
    List.replicate (air.timeout - (air.tail.getLastD air.stop).overflows) .overflow

/-- There is noise outside the active phases, and the pause behind the frame times out. -/
structure Heard : Prop where
  first : air.first.Heard fCpu air.start
  rest : EachAfter (fun before pulse => pulse.Heard fCpu before) air.first.stop air.rest
  tail : Quiet fCpu air.stop air.tail
  late : (air.tail.getLastD air.stop).overflows ≤ air.timeout
  timeout : air.stop.overflows + 2 ≤ air.timeout

/-- Each active phase is within the limits, and from the end of one to the end of the next the timer turns
over at most once. -/
def Followed : Prop :=
  air.first.InLimits fCpu air.start ∧
    EachAfter (fun before pulse => pulse.Followed fCpu before) air.first.stop air.rest

/-- When the pause times out, there are 41 bits, and they are those of the code. -/
def Received (code : Code) (sense : Sense) : Prop :=
  ∃ earlier, (handleAll fCpu air.events
    (rfm12AskSenseStart (UInt8.ofNat air.start.time) sense)).decodes =
      sense.decodes ++ earlier ++ [⟨41, some code⟩]

end Transmission

/-- A phase of some microseconds takes these ticks, or one more or less. -/
def WithinTick (fCpu us ticks : Nat) : Prop :=
  us * fCpu ≤ (ticks + 1) * 256000000 ∧ ticks * 256000000 ≤ us * fCpu + 256000000

/-- The phases are those of a sent code. -/
def Sent (fCpu : Nat) (code : Code) (delay : UInt8) (phases : List Nat) : Prop :=
  List.Forall₂ (fun sent ticks => WithinTick fCpu sent.2 ticks) ((rfm12AskTevionSend code delay).take 41)
    phases

/-- The short and the long phases of a symbol delay are inside the limits. -/
def Inside (fCpu : Nat) (delay : UInt8) : Prop :=
  minTicks fCpu * 256000000 ≤ 6 * delay.toNat * fCpu ∧
    6 * delay.toNat * fCpu ≤ defLimitTicks fCpu * 256000000 ∧
    defLimitTicks fCpu * 256000000 < 12 * delay.toNat * fCpu ∧
    12 * delay.toNat * fCpu ≤ timeoutTicks fCpu * 256000000

/-- Apart from the one of the inverse bit, the long phases are those that are longer than their limit. -/
def Separated (fCpu : Nat) (code : Code) (phases : List Nat) : Prop :=
  ∀ index < 41, index ≠ 24 →
    (phases.getD index 0 > limitAt fCpu phases index ↔ (tevionCode code).getD index 0 = 12)

instance (fCpu us ticks : Nat) : Decidable (WithinTick fCpu us ticks) :=
  inferInstanceAs (Decidable (_ ∧ _))

instance (fCpu : Nat) (code : Code) (phases : List Nat) : Decidable (Separated fCpu code phases) :=
  inferInstanceAs (Decidable (∀ index < 41, index ≠ 24 → _))

theorem Sent.length {fCpu : Nat} {code : Code} {delay : UInt8} {phases : List Nat}
    (sent : Sent fCpu code delay phases) : phases.length = 41 := by
  rw [← sent.length_eq]
  simp only [rfm12AskTevionSend, tevionCode, rfm12AskEncodeByte, List.length_take, List.length_append,
    List.length_mapIdx, List.length_map, List.length_range, List.length_singleton]
  rfl

theorem lengths_length (before : Instant) (pulses : List Pulse) :
    (lengths before pulses).length = 2 * pulses.length := by
  induction pulses generalizing before with
  | nil => rfl
  | cons pulse later ih =>
    rw [lengths, List.length_cons, List.length_cons, ih, List.length_cons]
    omega

section Runs

variable {fCpu : Nat} {air : Transmission} {code : Code}

/-- The sense code before a frame. -/
theorem rfm12AskSenseStart_lost (tcnt0 : UInt8) (sense : Sense) :
    Lost 0 sense.decodes (rfm12AskSenseStart tcnt0 sense) :=
  ⟨le_refl 0, [], (List.append_nil _).symm, fun _ member => absurd member List.not_mem_nil⟩

/-- The first active phase is the first sample. -/
theorem Transmission.locked (heard : air.Heard fCpu) (within : air.first.InLimits fCpu air.start)
    (sense : Sense) :
    Locked fCpu [counted (air.first.active air.start)] air.first.stop sense.decodes
      (handleAll fCpu (signals air.start air.first.instants)
        (rfm12AskSenseStart (UInt8.ofNat air.start.time) sense)) := by
  have whole : (UInt8.ofNat (counted (air.first.active air.start))).toNat =
      counted (air.first.active air.start) := UInt8.toNat_ofNat_of_lt' (counted_lt _)
  rw [handleAll_pulse heard.first (by rfl), iterate_vectorOverflow0_idle (by rfl),
    rfm12AskintSignal_active (by rw [heard.first.delta_active, whole]; exact within.1)
      (by rw [heard.first.delta_active, whole]; exact within.2), if_neg (by exact fun any => any rfl)]
  dsimp only
  rw [heard.first.delta_active]
  have nothing : Gathered fCpu [] { rfm12AskSenseStart (UInt8.ofNat air.start.time) sense with
      lastNoiseTs := UInt8.ofNat (air.first.lastNoise air.start).time
      overflow := (rfm12AskSenseStart (UInt8.ofNat air.start.time) sense).overflow ||
        decide (0 < air.first.stop.overflows - air.start.overflows) } := by
    refine ⟨rfl, rfl, fun any => absurd rfl any, fun any => absurd rfl any, fun many => ?_,
      fun index inside => ?_⟩
    · rw [List.length_nil] at many
      omega
    · rw [List.length_nil] at inside
      omega
  have one := nothing.takeSample (by decide) (counted_lt (air.first.active air.start))
  refine ⟨⟨one.bits, one.num, one.least, one.greatest, one.limit, one.buffer⟩, rfl, rfl, rfl, ?_⟩
  exact (takeSample_frame fCpu _ _).2.2.2.1

/-- The noise behind a frame, and its timeout. -/
theorem Transmission.handleAll_tail (heard : air.Heard fCpu) {sense : Sense}
    (noise : sense.lastNoiseTs = UInt8.ofNat air.stop.time) :
    (handleAll fCpu (List.replicate (air.timeout - (air.tail.getLastD air.stop).overflows) .overflow)
      (handleAll fCpu (signals air.stop air.tail) sense)).decodes =
        (vectorOverflow0^[air.timeout - air.stop.overflows] sense).decodes := by
  have turns : air.timeout - air.stop.overflows =
      (air.timeout - (air.tail.getLastD air.stop).overflows) +
        ((air.tail.getLastD air.stop).overflows - air.stop.overflows) := by
    have one := heard.tail.follows.2
    have two := heard.late
    omega
  rw [handleAll_quiet heard.tail noise, handleAll_replicate, iterate_vectorOverflow0_lastNoiseTs, turns,
    Function.iterate_add_apply]

/-- A frame that is not lost is decoded. -/
theorem Transmission.received_of_locked (heard : air.Heard fCpu) {samples : List Nat}
    (whole : samples.length = 41) {decodes : List Decode} {sense : Sense}
    (locked : Locked fCpu samples air.stop decodes sense) :
    (∃ earlier, (handleAll fCpu
      (List.replicate (air.timeout - (air.tail.getLastD air.stop).overflows) .overflow)
      (handleAll fCpu (signals air.stop air.tail) sense)).decodes =
        decodes ++ earlier ++ [⟨41, some code⟩]) ↔ Separated fCpu code samples := by
  have bits : sense.askBufBits = 41 := by
    rw [← UInt8.toNat_inj, locked.bits, whole]
    rfl
  have turns : 2 ≤ air.timeout - air.stop.overflows := by
    have late := heard.timeout
    omega
  have decoded : (handleAll fCpu
      (List.replicate (air.timeout - (air.tail.getLastD air.stop).overflows) .overflow)
      (handleAll fCpu (signals air.stop air.tail) sense)).decodes =
        decodes ++ [⟨41, some (askSenseDecodeTevion sense.askBuf)⟩] := by
    rw [Transmission.handleAll_tail heard locked.noise, iterate_vectorOverflow0_timeout locked.clear
      (by rw [bits]; decide) turns]
    dsimp only [askSenseTryDecode]
    rw [bits, if_pos rfl, locked.kept]
  have same : (∃ earlier, decodes ++ [(⟨41, some (askSenseDecodeTevion sense.askBuf)⟩ : Decode)] =
      decodes ++ earlier ++ [⟨41, some code⟩]) ↔ askSenseDecodeTevion sense.askBuf = code := by
    constructor
    · rintro ⟨earlier, equal⟩
      have last := (List.append_inj_right' equal rfl)
      rw [List.cons.injEq, Decode.mk.injEq, Option.some.injEq] at last
      exact last.1.2
    · intro equal
      exact ⟨[], by rw [equal, List.append_nil]⟩
  rw [decoded, same, askSenseDecodeTevion_eq_iff, Separated]
  refine forall₃_congr fun index inside _ => ?_
  rw [locked.buffer index (by omega), decide_eq_true_iff, List.getD_eq_getElem samples 0 (by omega)]

theorem Transmission.not_received_of_lost (heard : air.Heard fCpu) {decodes : List Decode} {sense : Sense}
    (lost : Lost 40 decodes sense) (noise : sense.lastNoiseTs = UInt8.ofNat air.stop.time) :
    ¬∃ earlier, (handleAll fCpu
      (List.replicate (air.timeout - (air.tail.getLastD air.stop).overflows) .overflow)
      (handleAll fCpu (signals air.stop air.tail) sense)).decodes =
        decodes ++ earlier ++ [⟨41, some code⟩] := by
  rintro ⟨earlier, equal⟩
  obtain ⟨added, so, each⟩ := (lost.overflows (le_refl 40) (air.timeout - air.stop.overflows)).few
  rw [Transmission.handleAll_tail heard noise, so, List.append_assoc, List.append_cancel_left_eq] at equal
  have member : (⟨41, some code⟩ : Decode) ∈ added := by
    rw [equal]
    exact List.mem_append_right _ (List.mem_singleton_self _)
  have small := each _ member
  exact absurd (show (41 : UInt8).toNat ≤ 40 from small) (by decide)

variable {sense : Sense}

theorem Transmission.rest_length (whole : air.phases.length = 41) : 1 + 2 * air.rest.length = 41 := by
  rw [Transmission.phases, List.length_cons, lengths_length] at whole
  omega

/-- A frame that is followed is received if its phases are separated. -/
theorem Transmission.received_of_followed (whole : air.phases.length = 41) (heard : air.Heard fCpu)
    (followed : air.Followed fCpu) :
    air.Received fCpu code sense ↔ Separated fCpu code (air.phases.map counted) := by
  have pulses := Transmission.rest_length whole
  have locked := Transmission.locked heard followed.1 sense
  have all := (locked.pulses (List.cons_ne_nil _ _)
    (by rw [List.length_singleton]; omega) heard.rest).1 followed.2
  rw [Transmission.Received, Transmission.events, handleAll_append, handleAll_append, handleAll_append]
  exact Transmission.received_of_locked heard ((List.length_map counted).trans whole) all

/-- A frame that is not followed is not received. -/
theorem Transmission.followed_of_received (whole : air.phases.length = 41) (heard : air.Heard fCpu)
    (received : air.Received fCpu code sense) : air.Followed fCpu := by
  have pulses := Transmission.rest_length whole
  rw [Transmission.Received, Transmission.events, handleAll_append, handleAll_append,
    handleAll_append] at received
  by_contra missed
  by_cases within : air.first.InLimits fCpu air.start
  · have locked := Transmission.locked heard within sense
    obtain ⟨lost, noise⟩ := (locked.pulses (List.cons_ne_nil _ _)
      (by rw [List.length_singleton]; omega) heard.rest).2 fun each => missed ⟨within, each⟩
    exact Transmission.not_received_of_lost heard lost noise received
  · have start : Lost 0 sense.decodes (handleAll fCpu (signals air.start air.first.instants)
        (rfm12AskSenseStart (UInt8.ofNat air.start.time) sense)) := by
      rw [handleAll_pulse heard.first (by rfl)]
      have turned := (rfm12AskSenseStart_lost (UInt8.ofNat air.start.time) sense).overflows (by decide)
        (air.first.stop.overflows - air.start.overflows)
      have waiting : Lost 0 sense.decodes
          { vectorOverflow0^[air.first.stop.overflows - air.start.overflows]
              (rfm12AskSenseStart (UInt8.ofNat air.start.time) sense) with
            lastNoiseTs := UInt8.ofNat (air.first.lastNoise air.start).time } := ⟨turned.bits, turned.few⟩
      refine waiting.signal_outside (by decide) fun inside => within ?_
      rw [heard.first.delta_active, UInt8.toNat_ofNat_of_lt' (counted_lt _)] at inside
      exact inside
    have stopped : (handleAll fCpu (signals air.start air.first.instants)
        (rfm12AskSenseStart (UInt8.ofNat air.start.time) sense)).lastNoiseTs =
          UInt8.ofNat air.first.stop.time := by
      rw [handleAll_pulse heard.first (by rfl)]
      exact rfm12AskintSignal_lastNoiseTs fCpu _ _
    obtain ⟨lost, noise⟩ := start.pulses (by omega) heard.rest stopped
    exact Transmission.not_received_of_lost heard lost noise received

end Runs

/-! ## Learnt limits -/

theorem lowest_le {samples : List Nat} {sample : Nat} (member : sample ∈ samples) :
    lowest samples ≤ sample := by
  induction samples using List.reverseRecOn with
  | nil => exact absurd member List.not_mem_nil
  | append_singleton before last ih =>
    rw [lowest_append]
    rcases List.mem_append.mp member with earlier | now
    · exact (min_le_left _ _).trans (ih earlier)
    · rw [List.mem_singleton.mp now]
      exact min_le_right _ _

theorem le_lowest {samples : List Nat} {bound : Nat} (small : bound ≤ 255)
    (each : ∀ sample ∈ samples, bound ≤ sample) : bound ≤ lowest samples := by
  induction samples using List.reverseRecOn with
  | nil => exact small
  | append_singleton before last ih =>
    rw [lowest_append]
    exact le_min (ih fun sample member => each sample (List.mem_append_left _ member))
      (each last (List.mem_append_right _ (List.mem_singleton_self last)))

theorem le_highest {samples : List Nat} {sample : Nat} (member : sample ∈ samples) :
    sample ≤ highest samples := by
  induction samples using List.reverseRecOn with
  | nil => exact absurd member List.not_mem_nil
  | append_singleton before last ih =>
    rw [highest_append]
    rcases List.mem_append.mp member with earlier | now
    · exact (ih earlier).trans (le_max_left _ _)
    · rw [List.mem_singleton.mp now]
      exact le_max_right _ _

theorem highest_le {samples : List Nat} {bound : Nat} (each : ∀ sample ∈ samples, sample ≤ bound) :
    highest samples ≤ bound := by
  induction samples using List.reverseRecOn with
  | nil => exact Nat.zero_le bound
  | append_singleton before last ih =>
    rw [highest_append]
    exact max_le (ih fun sample member => each sample (List.mem_append_left _ member))
      (each last (List.mem_append_right _ (List.mem_singleton_self last)))

/-- The phases of a code take `short` or `long` ticks, or one more or less. -/
def Jittered (code : Code) (short long : Nat) (phases : List Nat) : Prop :=
  ∀ index < 41, if (tevionCode code).getD index 0 = 12 then
      long ≤ phases.getD index 0 + 1 ∧ phases.getD index 0 ≤ long + 1
    else short ≤ phases.getD index 0 + 1 ∧ phases.getD index 0 ≤ short + 1

/-- With both a short and a long phase among the first sixteen, the phases are separated. -/
theorem Jittered.separated {fCpu : Nat} {code : Code} {short long : Nat} {phases : List Nat}
    (jittered : Jittered code short long phases) (length : phases.length = 41)
    (fits : short + 1 ≤ defLimitTicks fCpu ∧ defLimitTicks fCpu + 1 < long) (far : short + 5 ≤ long)
    (small : long < 255) {one other : Nat} (first : one < 16) (second : other < 16)
    (isShort : (tevionCode code).getD one 0 ≠ 12) (isLong : (tevionCode code).getD other 0 = 12) :
    Separated fCpu code phases := by
  have start (index : Nat) (inside : index < 16) : phases.getD index 0 ∈ phases.take 16 := by
    rw [List.getD_eq_getElem phases 0 (by omega)]
    exact List.mem_take_iff_getElem.mpr ⟨index, by omega, rfl⟩
  have bounds (sample : Nat) (member : sample ∈ phases.take 16) :
      short - 1 ≤ sample ∧ sample ≤ long + 1 := by
    obtain ⟨index, inside, rfl⟩ := List.mem_take_iff_getElem.mp member
    have this := jittered index (by omega)
    rw [List.getD_eq_getElem phases 0 (by omega)] at this
    split_ifs at this <;> omega
  have least : short - 1 ≤ lowest (phases.take 16) :=
    le_lowest (by omega) fun sample member => (bounds sample member).1
  have most : highest (phases.take 16) ≤ long + 1 :=
    highest_le fun sample member => (bounds sample member).2
  have low := lowest_le (start one first)
  have high := le_highest (start other second)
  have atOne := jittered one (by omega)
  have atOther := jittered other (by omega)
  rw [if_neg isShort] at atOne
  rw [if_pos isLong] at atOther
  intro index inside _
  have this := jittered index inside
  have middle : short + 1 ≤ learntLimit phases ∧ learntLimit phases + 1 < long := by
    rw [learntLimit]
    omega
  have limit : short + 1 ≤ limitAt fCpu phases index ∧ limitAt fCpu phases index + 1 < long := by
    rw [limitAt]
    split_ifs
    · exact fits
    · exact middle
  by_cases symbol : (tevionCode code).getD index 0 = 12
  · rw [if_pos symbol] at this
    exact iff_of_true (by omega) symbol
  · rw [if_neg symbol] at this
    exact iff_of_false (by omega) symbol

/-- A remote code is received exactly if the sense code follows its frame and the limits separate its
phases. -/
theorem tevion_received_iff {fCpu : Nat} {code : Code} {delay : UInt8} {air : Transmission}
    (sent : Sent fCpu code delay air.phases) (heard : air.Heard fCpu) (sense : Sense) :
    air.Received fCpu code sense ↔ air.Followed fCpu ∧ Separated fCpu code (air.phases.map counted) := by
  constructor
  · intro received
    have followed := Transmission.followed_of_received sent.length heard received
    exact ⟨followed, (Transmission.received_of_followed sent.length heard followed).mp received⟩
  · rintro ⟨followed, separated⟩
    exact (Transmission.received_of_followed sent.length heard followed).mpr separated

/-! ## Steady frames -/

/-- A pulse with noise every sixteen ticks. -/
def steadyPulse (before pause active : Nat) : Pulse where
  noise := (List.range (pause / 16 + 1)).map fun i => ⟨before + min pause (16 * (i + 1)), false⟩
  stop := ⟨before + pause + active, false⟩

def steadyPulses : Nat → List Nat → List Pulse
  | before, pause :: active :: later =>
    steadyPulse before pause active :: steadyPulses (before + pause + active) later
  | _, _ => []

/-- A frame at 16 MHz with a symbol of 99 µs. -/
def steadyTransmission (code : Code) : Transmission :=
  let ticks := (tevionCode code).map fun symbols => if symbols = 12 then 74 else 37
  let pulses := steadyPulses (256 + ticks.headD 0) ticks.tail
  let stop := lastStop ⟨256 + ticks.headD 0, false⟩ pulses
  { start := ⟨0, false⟩
    first := steadyPulse 0 256 (ticks.headD 0)
    rest := pulses
    tail := (List.range 32).map fun i => ⟨stop.time + 16 * (i + 1), false⟩
    timeout := stop.overflows + 2 }

instance (before later : Instant) : Decidable (Follows before later) :=
  inferInstanceAs (Decidable (_ ∧ _))

instance Quiet.decide (fCpu : Nat) :
    ∀ (before : Instant) (noise : List Instant), Decidable (Quiet fCpu before noise)
  | _, [] => inferInstanceAs (Decidable True)
  | before, instant :: later =>
    have : Decidable (Quiet fCpu instant later) := Quiet.decide fCpu instant later
    inferInstanceAs (Decidable (Follows before instant ∧ instant.time - before.time < minTicks fCpu ∧ _))

instance (fCpu : Nat) (before : Instant) (pulse : Pulse) : Decidable (pulse.Heard fCpu before) :=
  inferInstanceAs (Decidable (_ ∧ _))

instance (fCpu : Nat) (before : Instant) (pulse : Pulse) : Decidable (pulse.Followed fCpu before) :=
  inferInstanceAs (Decidable ((_ ∧ _) ∧ _ ≤ _))

instance EachAfter.decide {holds : Instant → Pulse → Prop}
    [each : ∀ before pulse, Decidable (holds before pulse)] :
    ∀ (before : Instant) (pulses : List Pulse), Decidable (EachAfter holds before pulses)
  | _, [] => inferInstanceAs (Decidable True)
  | before, pulse :: later =>
    have : Decidable (EachAfter holds pulse.stop later) := EachAfter.decide pulse.stop later
    inferInstanceAs (Decidable (holds before pulse ∧ EachAfter holds pulse.stop later))

instance (fCpu : Nat) (code : Code) (delay : UInt8) (phases : List Nat) :
    Decidable (Sent fCpu code delay phases) :=
  inferInstanceAs (Decidable (List.Forall₂ _ _ _))

theorem tevion_received_iff_steady :
    Sent 16000000 ⟨![18, 52, 86], ![120, 154]⟩ 99 (steadyTransmission ⟨![18, 52, 86], ![120, 154]⟩).phases ∧
      (steadyTransmission ⟨![18, 52, 86], ![120, 154]⟩).Heard 16000000 ∧
      ∀ sense, (steadyTransmission ⟨![18, 52, 86], ![120, 154]⟩).Received 16000000
        ⟨![18, 52, 86], ![120, 154]⟩ sense := by
  have sent : Sent 16000000 ⟨![18, 52, 86], ![120, 154]⟩ 99
      (steadyTransmission ⟨![18, 52, 86], ![120, 154]⟩).phases := by decide
  have heard : (steadyTransmission ⟨![18, 52, 86], ![120, 154]⟩).Heard 16000000 := by
    constructor <;> decide
  refine ⟨sent, heard, fun sense => (tevion_received_iff sent heard sense).mpr ⟨⟨?_, ?_⟩, ?_⟩⟩
  · exact ⟨by decide, by decide⟩
  · decide
  · decide

/-- A housecode of ones starts with sixteen long phases: the limit that is learnt is as long as they are. -/
theorem ones_not_received :
    Inside 16000000 99 ∧
      Sent 16000000 ⟨![255, 255, 0], ![120, 154]⟩ 99
        (steadyTransmission ⟨![255, 255, 0], ![120, 154]⟩).phases ∧
      (steadyTransmission ⟨![255, 255, 0], ![120, 154]⟩).Heard 16000000 ∧
      ∀ sense, ¬(steadyTransmission ⟨![255, 255, 0], ![120, 154]⟩).Received 16000000
        ⟨![255, 255, 0], ![120, 154]⟩ sense := by
  have sent : Sent 16000000 ⟨![255, 255, 0], ![120, 154]⟩ 99
      (steadyTransmission ⟨![255, 255, 0], ![120, 154]⟩).phases := by decide
  have heard : (steadyTransmission ⟨![255, 255, 0], ![120, 154]⟩).Heard 16000000 := by
    constructor <;> decide
  refine ⟨by unfold Inside; decide, sent, heard, fun sense received => ?_⟩
  have followed := Transmission.followed_of_received sent.length heard received
  have separated := (Transmission.received_of_followed sent.length heard followed).mp received
  exact absurd separated (by decide)

end Ethersex.Ask
