import Mathlib
import Ethersex.Dcf77.Decoding

/-!
# Arbitrary signals

What the decoder relies on when it sets the clock.  A minute gap starts a frame, but
so does a pulse that fails a check: the counter is set to 0 and then still counted up
to 1.  The clock is therefore set only after minute gaps exactly if no complete
minute directly follows such a pulse.
-/

namespace Ethersex.Dcf77

open Clock

/-- An acceptable pulse that fails the check made on it. -/
def Event.Fails (dcf : Decoder) (event : Event) : Prop :=
  event.low = true ∧ ∃ one, Fits 0x28 one event.divtime ∧ FailsCheck one dcf

/-- Every call of `clock_set_time` comes with the last of the 59 pulses of a minute that
directly follow a minute gap. -/
def SetsClockAfterGaps (behind : Nat → UInt8) (events : List Event) : Prop :=
  ∀ before event after, events = before ++ event :: after →
    ((Decoder.initial.run behind before).step behind event).2.isSome →
    ∃ earlier gap frame bits, before ++ [event] = earlier ++ gap :: frame ∧ gap.IsGap ∧
      Carries 0x28 bits frame ∧ ValidMinute bits

/-- No complete minute directly follows a pulse that fails a check. -/
def NoMinuteAfterFailure (behind : Nat → UInt8) (events : List Event) : Prop :=
  ∀ before event frame after bits, events = before ++ event :: (frame ++ after) →
    event.Fails (Decoder.initial.run behind before) → Carries 0x28 bits frame → ¬ValidMinute bits

/-! ## Frames -/

section Carries

variable {zero : UInt16} {bits : List Bool} {frame : List Event}

/-- There is no minute gap in a frame. -/
theorem Carries.not_gap (carries : Carries zero bits frame) {event : Event}
    (member : event ∈ frame) : ¬event.IsGap := by
  induction carries with
  | nil => exact absurd member List.not_mem_nil
  | glitch low short rest ih =>
      rcases List.mem_append.mp member with earlier | last
      · exact ih earlier
      · rw [List.mem_singleton.mp last]
        exact fun gap => absurd (UInt16.lt_of_lt_of_le gap.2.1 short) (by decide)
  | pause lower upper rest ih =>
      rcases List.mem_append.mp member with earlier | last
      · exact ih earlier
      · rw [List.mem_singleton.mp last]
        exact fun gap => absurd (UInt16.lt_of_lt_of_le gap.2.1 upper) (by decide)
  | pulse fits rest ih =>
      rcases List.mem_append.mp member with earlier | last
      · exact ih earlier
      · rw [List.mem_singleton.mp last]
        exact fun gap => nomatch gap.1

/-- The number of accepted pulses. -/
def pulses (events : List Event) : Nat :=
  events.countP fun event => event.low && decide (5 < event.divtime)

theorem pulses_append (first second : List Event) :
    pulses (first ++ second) = pulses first + pulses second := List.countP_append

theorem Fits.accepted {one : Bool} {divtime : UInt16} (fits : Fits 0x28 one divtime) :
    5 < divtime :=
  UInt16.lt_of_lt_of_le (by decide) (fits.bounds (by decide)).1

theorem Carries.pulses_eq (carries : Carries 0x28 bits frame) : pulses frame = bits.length := by
  induction carries with
  | nil => rfl
  | glitch low short rest ih =>
      rw [pulses_append, ih]
      simp [pulses, UInt16.not_lt.mpr short]
  | pause lower upper rest ih =>
      rw [pulses_append, ih]
      simp [pulses]
  | pulse fits rest ih =>
      rw [pulses_append, ih]
      simp [pulses, fits.accepted]

/-- A frame up to its last pulse. -/
theorem Carries.last (carries : Carries zero bits frame) {init : List Bool} {one : Bool}
    (is : bits = init ++ [one]) :
    ∃ first divtime rest, frame = first ++ ⟨true, divtime⟩ :: rest ∧ Fits zero one divtime ∧
      Carries zero init first := by
  induction carries with
  | nil => exact absurd is (by simp)
  | @glitch bits events low divtime short rest ih =>
      obtain ⟨first, last, others, split, fits, earlier⟩ := ih is
      exact ⟨first, last, others ++ [⟨low, divtime⟩], by simp [split], fits, earlier⟩
  | @pause bits events divtime lower upper rest ih =>
      obtain ⟨first, last, others, split, fits, earlier⟩ := ih is
      exact ⟨first, last, others ++ [⟨false, divtime⟩], by simp [split], fits, earlier⟩
  | @pulse bits events bit divtime fits rest ih =>
      obtain ⟨rfl, same⟩ := List.append_inj' is rfl
      obtain rfl := (List.cons.inj same).1
      exact ⟨events, divtime, [], rfl, fits, rest⟩

theorem fits_of_bounds {divtime : UInt16} (lower : 0x0B ≤ divtime) (upper : divtime ≤ 0x3F) :
    Fits 0x28 (decide (0x28 < divtime)) divtime := by
  by_cases long : 0x28 < divtime
  · rw [decide_eq_true long]
    exact ⟨by rwa [UInt16.lt_iff_toNat_lt] at long, upper⟩
  · rw [decide_eq_false long]
    exact ⟨lower, UInt16.not_lt.mp long⟩

end Carries

/-! ## Where frames come from -/

/-- The events in the current frame, if there is one, and the event in front of it. -/
def Traced (behind : Nat → UInt8) (events : List Event) : Prop :=
  (∃ bits earlier origin frame, events = earlier ++ origin :: frame ∧
      InFrame bits (Decoder.initial.run behind events) ∧ Carries 0x28 bits frame ∧
      (origin.IsGap ∨ origin.Fails (Decoder.initial.run behind earlier))) ∨
    (Decoder.initial.run behind events).sync = 0 ∨ (Decoder.initial.run behind events).sync = 60

section Traced

variable {behind : Nat → UInt8} {events : List Event}

/-- An event that the decoder skips. -/
theorem Traced.skip (traced : Traced behind events) {event : Event}
    (skips : ((Decoder.initial.run behind events).step behind event).1 =
      Decoder.initial.run behind events)
    (carries : ∀ {bits frame}, Carries 0x28 bits frame → Carries 0x28 bits (frame ++ [event])) :
    Traced behind (events ++ [event]) := by
  rw [Traced, run_snoc, skips]
  rcases traced with ⟨bits, earlier, origin, frame, split, inFrame, rest, starts⟩ | stopped
  · exact Or.inl ⟨bits, earlier, origin, frame ++ [event], by simp [split], inFrame, carries rest,
      starts⟩
  · exact Or.inr stopped

/-- An acceptable pulse. -/
theorem Traced.pulse (traced : Traced behind events) {divtime : UInt16} (lower : 0x0B ≤ divtime)
    (upper : divtime ≤ 0x3F) : Traced behind (events ++ [⟨true, divtime⟩]) := by
  have fits := fits_of_bounds lower upper
  rw [Traced, run_snoc, step_pulse lower]
  rcases traced with ⟨bits, earlier, origin, frame, split, inFrame, rest, starts⟩ | stopped
  · by_cases pass : ChecksPass (bits ++ [decide (0x28 < divtime)])
    · rcases Nat.lt_or_eq_of_le inFrame.few with short | last
      · exact Or.inl ⟨_, earlier, origin, frame ++ [⟨true, divtime⟩], by simp [split],
          (inFrame.pulse_short behind lower upper short pass).1, .pulse fits rest, starts⟩
      · exact Or.inr (Or.inr (inFrame.pulse_last behind lower upper last pass).1)
    · exact Or.inl ⟨[], events, ⟨true, divtime⟩, [], by simp,
        (inFrame.pulse_fails behind lower upper pass).1, .nil,
        Or.inr ⟨rfl, _, fits, inFrame.failsCheck_iff.mpr pass⟩⟩
  · have outside : ¬(0 < (Decoder.initial.run behind events).sync ∧
        (Decoder.initial.run behind events).sync < 60) := by
      rcases stopped with stopped | stopped <;> rw [stopped] <;> decide
    have acceptable : ¬(divtime > 0x3F ∨ divtime < 0x0B) := by
      rw [not_or, gt_iff_lt, UInt16.not_lt, UInt16.not_lt]
      exact ⟨upper, lower⟩
    simp only [Decoder.pulse, if_neg acceptable, if_neg outside]
    exact Or.inr stopped

/-- An event of unacceptable length that is no minute gap. -/
theorem Traced.stop {event : Event}
    (stops : ((Decoder.initial.run behind events).step behind event).1.sync = 0) :
    Traced behind (events ++ [event]) := by
  rw [Traced, run_snoc]
  exact Or.inr (Or.inl stops)

theorem Traced.snoc (traced : Traced behind events) (event : Event) :
    Traced behind (events ++ [event]) := by
  obtain ⟨low, divtime⟩ := event
  by_cases short : divtime ≤ 5
  · exact traced.skip (congrArg Prod.fst (step_glitch low short)) (.glitch low short)
  have long : divtime > 5 := UInt16.not_le.mp short
  cases low with
  | true =>
      by_cases acceptable : 0x0B ≤ divtime ∧ divtime ≤ 0x3F
      · exact traced.pulse acceptable.1 acceptable.2
      · have refused : divtime > 0x3F ∨ divtime < 0x0B := by
          rw [not_and_or, UInt16.not_le, UInt16.not_le] at acceptable
          exact acceptable.symm
        refine .stop ?_
        simp only [Decoder.step, if_pos long, if_true, Decoder.pulse, if_pos refused]
        rfl
  | false =>
      by_cases acceptable : 0xB8 ≤ divtime ∧ divtime ≤ 0xF8
      · exact traced.skip (congrArg Prod.fst (step_pause acceptable.1 acceptable.2))
          (.pause acceptable.1 acceptable.2)
      · by_cases gap : (Event.mk false divtime).IsGap
        · refine Or.inl ⟨[], events, _, [], by simp, ?_, .nil, Or.inl gap⟩
          rw [run_snoc]
          exact (step_gap gap).1
        · have refused : divtime > 0xF8 ∨ divtime < 0xB8 := by
            rw [not_and_or, UInt16.not_le, UInt16.not_le] at acceptable
            exact acceptable.symm
          have noGap : ¬(divtime > 0x1C0 ∧ divtime < 0x1F0) := fun inside => gap ⟨rfl, inside⟩
          refine .stop ?_
          simp only [Decoder.step, if_pos long, Bool.false_eq_true, if_false, Decoder.pause,
            if_pos refused, and_true, if_neg noGap]

theorem traced (behind : Nat → UInt8) (events : List Event) : Traced behind events := by
  induction events using List.reverseRecOn with
  | nil => exact Or.inr (Or.inl rfl)
  | append_singleton events event ih => exact ih.snoc event

end Traced

/-! ## Calls -/

section Calls

variable {behind : Nat → UInt8} {before : List Event} {event : Event}

/-- Only an acceptable pulse causes a call. -/
theorem acceptable_of_call {dcf : Decoder} (call : (dcf.step behind event).2.isSome) :
    event.low = true ∧ 0x0B ≤ event.divtime ∧ event.divtime ≤ 0x3F ∧
      0 < dcf.sync ∧ dcf.sync < 60 := by
  simp only [Decoder.step] at call
  split at call
  · split at call
    · next low =>
        by_cases refused : event.divtime > 0x3F ∨ event.divtime < 0x0B
        · simp [Decoder.pulse, refused] at call
        · simp only [Decoder.pulse, if_neg refused] at call
          rw [not_or, gt_iff_lt, UInt16.not_lt, UInt16.not_lt] at refused
          split at call
          · next inside => exact ⟨low, refused.2, refused.1, inside⟩
          · exact absurd call (by simp)
    · exact absurd call (by simp)
  · exact absurd call (by simp)

/-- While pulses are counted, there is a frame. -/
theorem frame_of_inside (inside : 0 < (Decoder.initial.run behind before).sync ∧
    (Decoder.initial.run behind before).sync < 60) :
    ∃ bits earlier origin frame, before = earlier ++ origin :: frame ∧
      InFrame bits (Decoder.initial.run behind before) ∧ Carries 0x28 bits frame ∧
      (origin.IsGap ∨ origin.Fails (Decoder.initial.run behind earlier)) := by
  rcases traced behind before with frame | stopped | stopped
  · exact frame
  · rw [stopped] at inside
    exact absurd inside (by decide)
  · rw [stopped] at inside
    exact absurd inside (by decide)

/-- A call comes with the last pulse of a minute. -/
theorem frame_of_call
    (call : ((Decoder.initial.run behind before).step behind event).2.isSome) :
    ∃ earlier origin frame bits, before ++ [event] = earlier ++ origin :: frame ∧
      (origin.IsGap ∨ origin.Fails (Decoder.initial.run behind earlier)) ∧
      Carries 0x28 bits frame ∧ ValidMinute bits := by
  obtain ⟨low, lower, upper, inside⟩ := acceptable_of_call call
  obtain ⟨bits, earlier, origin, frame, split, inFrame, carries, starts⟩ := frame_of_inside inside
  obtain ⟨_, divtime⟩ := event
  obtain rfl : _ = true := low
  rw [step_pulse lower] at call
  by_cases pass : ChecksPass (bits ++ [decide (0x28 < divtime)])
  · rcases Nat.lt_or_eq_of_le inFrame.few with short | last
    · rw [(inFrame.pulse_short behind lower upper short pass).2] at call
      exact absurd call (by simp)
    · exact ⟨earlier, origin, frame ++ [⟨true, divtime⟩], _, by simp [split], starts,
        .pulse (fits_of_bounds lower upper) carries, by simp [last], pass⟩
  · rw [(inFrame.pulse_fails behind lower upper pass).2] at call
    exact absurd call (by simp)

/-- A pulse that fails its check starts a frame. -/
theorem Event.Fails.inFrame (fails : event.Fails (Decoder.initial.run behind before)) :
    InFrame [] ((Decoder.initial.run behind before).step behind event).1 := by
  obtain ⟨low, one, fits, failsCheck⟩ := fails
  have inside : 0 < (Decoder.initial.run behind before).sync ∧
      (Decoder.initial.run behind before).sync < 60 := by
    rcases failsCheck with ⟨sync, -⟩ | ⟨sync | sync | sync, -⟩ <;> rw [sync] <;> decide
  obtain ⟨bits, -, -, -, -, inFrame, -, -⟩ := frame_of_inside inside
  obtain ⟨_, divtime⟩ := event
  obtain rfl : _ = true := low
  obtain ⟨lower, upper, rfl⟩ := fits.bounds (by decide)
  rw [step_pulse lower]
  exact (inFrame.pulse_fails behind lower upper (inFrame.failsCheck_iff.mp failsCheck)).1

/-- A minute directly behind a pulse that fails a check sets the clock. -/
theorem Event.Fails.call (fails : event.Fails (Decoder.initial.run behind before))
    {bits : List Bool} {frame : List Event} (carries : Carries 0x28 bits frame)
    (valid : ValidMinute bits) :
    ∃ first last rest, frame = first ++ last :: rest ∧ last.low = true ∧
      Carries 0x28 bits (first ++ [last]) ∧
      ((Decoder.initial.run behind (before ++ event :: first)).step behind last).2.isSome := by
  obtain ⟨length, pass⟩ := valid
  have nonempty : bits ≠ [] := List.ne_nil_of_length_pos (by omega)
  have split := (List.dropLast_concat_getLast nonempty).symm
  have short : bits.dropLast.length = 58 := by rw [List.length_dropLast, length]
  obtain ⟨first, divtime, rest, is, fits, earlier⟩ := carries.last split
  obtain ⟨lower, upper, bit⟩ := fits.bounds (by decide)
  rw [split] at pass
  obtain ⟨inFrame, -⟩ := fails.inFrame.run behind (by decide) earlier pass.of_snoc (by omega)
  refine ⟨first, ⟨true, divtime⟩, rest, is, rfl, by rw [split]; exact .pulse fits earlier, ?_⟩
  rw [step_pulse lower]
  rw [← bit] at pass
  have ran : Decoder.initial.run behind (before ++ event :: first) =
      (((Decoder.initial.run behind before).step behind event).1).run behind first := by
    simp [Decoder.run, List.foldl_append]
  rw [ran]
  exact (inFrame.pulse_last behind lower upper short pass).2

/-- A frame that follows a gap does not contain a longer one that follows a pulse. -/
theorem no_gap_behind {earlier frame first : List Event} {gap last : Event} {bits other : List Bool}
    (same : before ++ event :: (first ++ [last]) = earlier ++ gap :: frame) (is : gap.IsGap)
    (pulse : event.low = true ∧ 5 < event.divtime) (carries : Carries 0x28 bits frame)
    (inner : Carries 0x28 other (first ++ [last])) (length : bits.length ≤ other.length) : False := by
  have split : (before ++ [event]) ++ (first ++ [last]) = (earlier ++ [gap]) ++ frame := by
    simpa using same
  rcases List.append_eq_append_iff.mp split with ⟨middle, outer, rest⟩ | ⟨middle, outer, rest⟩
  · rcases List.eq_nil_or_concat' middle with rfl | ⟨front, end', rfl⟩
    · rw [List.append_nil] at outer
      obtain ⟨-, equal⟩ := List.append_inj' outer rfl
      rw [(List.cons.inj equal).1] at is
      exact absurd (pulse.1.symm.trans is.1) (by simp)
    · rw [← List.append_assoc] at outer
      obtain ⟨-, equal⟩ := List.append_inj' outer rfl
      refine inner.not_gap ?_ is
      rw [rest, (List.cons.inj equal).1]
      simp
  · have counted := carries.pulses_eq
    rw [rest, pulses_append, inner.pulses_eq] at counted
    rcases List.eq_nil_or_concat' middle with rfl | ⟨front, end', rfl⟩
    · rw [List.append_nil] at outer
      obtain ⟨-, equal⟩ := List.append_inj' outer rfl
      rw [← (List.cons.inj equal).1] at is
      exact absurd (pulse.1.symm.trans is.1) (by simp)
    · rw [← List.append_assoc] at outer
      obtain ⟨-, equal⟩ := List.append_inj' outer rfl
      rw [pulses_append, ← (List.cons.inj equal).1] at counted
      have one : pulses [event] = 1 := by simp [pulses, pulse.1, pulse.2]
      omega

theorem setsClockAfterGaps_iff (behind : Nat → UInt8) (events : List Event) :
    SetsClockAfterGaps behind events ↔ NoMinuteAfterFailure behind events := by
  constructor
  · intro sound before event frame after bits is fails carries valid
    obtain ⟨first, last, rest, split, low, whole, call⟩ := fails.call carries valid
    obtain ⟨earlier, gap, other, otherBits, same, isGap, others, otherValid⟩ :=
      sound (before ++ event :: first) last (rest ++ after) (by simp [is, split]) call
    obtain ⟨isLow, one, fits, -⟩ := fails
    refine no_gap_behind (by simpa using same) isGap ⟨isLow, fits.accepted⟩ others whole ?_
    rw [otherValid.1, valid.1]
  · intro condition before event after is call
    obtain ⟨earlier, origin, frame, bits, split, starts, carries, valid⟩ := frame_of_call call
    rcases starts with gap | fails
    · exact ⟨earlier, origin, frame, bits, split, gap, carries, valid⟩
    · refine absurd valid (condition earlier origin frame after bits ?_ fails carries)
      rw [is, List.append_cons, split]
      simp

end Calls

/-- A minute behind a minute gap sets the clock to its date, and the clock is set only
after minute gaps exactly if no complete minute directly follows a pulse that fails a
check. -/
theorem dcf77_decoding (behind : Nat → UInt8) :
    (∀ (dcf : Decoder) (minute : Minute) (gap : Event) (frame : List Event), gap.IsGap →
      Carries 33 minute.bits frame →
      dcf.calls behind (gap :: frame) =
        [clockUtc2timestamp behind minute.date (flag minute.cest)]) ∧
      ∀ events, SetsClockAfterGaps behind events ↔ NoMinuteAfterFailure behind events :=
  ⟨fun dcf minute _ _ is carries => calls_minute behind dcf minute is carries,
    setsClockAfterGaps_iff behind⟩

/-! ## Signals of nominal lengths -/

/-- Each bit as a pulse of nominal length, followed by a pause. -/
def transmit (bits : List Bool) : List Event :=
  bits.flatMap fun one => [⟨true, if one then 0x33 else 0x19⟩, ⟨false, if one then 0xCC else 0xE6⟩]

theorem carries_transmit (bits : List Bool) : Carries 33 bits (transmit bits) := by
  induction bits using List.reverseRecOn with
  | nil => exact .nil
  | append_singleton bits one ih =>
      have fits : Fits 33 one (if one then 0x33 else 0x19) := by cases one <;> decide
      have silence : 0xB8 ≤ (if one then 0xCC else 0xE6 : UInt16) ∧
          (if one then 0xCC else 0xE6 : UInt16) ≤ 0xF8 := by cases one <;> decide
      have both := (ih.pulse fits).pause silence.1 silence.2
      rw [List.append_assoc] at both
      rw [transmit, List.flatMap_append, List.flatMap_singleton]
      exact both

/-- Frames with shorter zeros are frames. -/
theorem Carries.mono {bits : List Bool} {frame : List Event} (carries : Carries 33 bits frame) :
    Carries 0x28 bits frame := by
  induction carries with
  | nil => exact .nil
  | glitch low short rest ih => exact ih.glitch low short
  | pause lower upper rest ih => exact ih.pause lower upper
  | @pulse bits events one divtime fits rest ih =>
      refine ih.pulse ?_
      cases one with
      | false => exact ⟨fits.1, UInt16.le_trans fits.2 (by decide)⟩
      | true => exact fits

def minuteGap : Event := ⟨false, 0x1DA⟩

theorem isGap_minuteGap : minuteGap.IsGap := by decide

/-- 2009-06-21 17:42 in summer time. -/
def sampleMinute : Minute where
  weather := List.replicate 17 false
  cest := true
  spare := [false, false]
  minute := 42
  hour := 17
  day := 21
  dow := 7
  month := 6
  year := 9
  weather_length := rfl
  spare_length := rfl
  minute_lt := by decide
  hour_lt := by decide
  day_in := by decide
  dow_in := by decide
  month_in := by decide
  year_lt := by decide

theorem dcf77_decoding_sample :
    Decoder.initial.calls (fun _ => 0) (minuteGap :: transmit sampleMinute.bits) = [1245598920] :=
  (dcf77_decoding fun _ => 0).1 Decoder.initial sampleMinute minuteGap _ isGap_minuteGap
    (carries_transmit _)

/-- A minute gap, 20 pulses, and a zero in the place of the start bit. -/
def brokenStart : List Event := minuteGap :: transmit (List.replicate 20 false)

/-- 21 pulses after a minute gap are counted. -/
theorem sync_brokenStart (behind : Nat → UInt8) :
    (Decoder.initial.run behind brokenStart).sync = 21 := by
  have start := (@step_gap behind Decoder.initial _ isGap_minuteGap).1
  have inFrame := (start.run behind (by decide) (carries_transmit (List.replicate 20 false))
    (checksPass_of_short (by decide)) (by decide)).1
  rw [brokenStart, Decoder.run, List.foldl_cons]
  exact (inFrame.sync_eq 21).mpr (by rw [List.length_replicate]; rfl)

theorem fails_brokenStart (behind : Nat → UInt8) :
    (Event.mk true 0x19).Fails (Decoder.initial.run behind brokenStart) :=
  ⟨rfl, false, by decide, Or.inl ⟨sync_brokenStart behind, rfl⟩⟩

/-- A minute behind a wrong start bit sets the clock, without a minute gap. -/
theorem not_setsClockAfterGaps_brokenStart (behind : Nat → UInt8) {bits : List Bool}
    {frame : List Event} (carries : Carries 0x28 bits frame) (valid : ValidMinute bits) :
    ¬SetsClockAfterGaps behind (brokenStart ++ ⟨true, 0x19⟩ :: frame) := by
  rw [setsClockAfterGaps_iff]
  intro condition
  refine condition brokenStart ⟨true, 0x19⟩ frame [] bits ?_ (fails_brokenStart behind) carries valid
  rw [List.append_nil]

theorem not_setsClockAfterGaps :
    ¬SetsClockAfterGaps (fun _ => 0)
      (brokenStart ++ ⟨true, 0x19⟩ :: transmit sampleMinute.bits) :=
  not_setsClockAfterGaps_brokenStart _ (carries_transmit _).mono (valid_bits sampleMinute)

end Ethersex.Dcf77
