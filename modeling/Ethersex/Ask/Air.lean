import Mathlib
import Ethersex.Ask.Samples

/-!
# On the air

The instants of noise around the phases of a transmitter, and the interrupts that come of them.  The
timer turns over every 256 ticks; between two instants there is an overflow for each turn.
-/

namespace Ethersex.Ask

/-- An instant of noise, in ticks.  At a turn of the timer its interrupt may be `early`: before that of
the overflow. -/
structure Instant where
  time : Nat
  early : Bool

/-- The overflows up to an instant. -/
def Instant.overflows (instant : Instant) : Nat :=
  if instant.early ∧ 256 ∣ instant.time then instant.time / 256 - 1 else instant.time / 256

/-- The interrupts of some instants, each behind the overflows since the instant before. -/
def signals : Instant → List Instant → List Event
  | _, [] => []
  | before, instant :: later =>
    List.replicate (instant.overflows - before.overflows) .overflow ++
      .signal (UInt8.ofNat instant.time) :: signals instant later

/-- Some noise, and the end of the phase behind it in which the transmitter is active. -/
structure Pulse where
  noise : List Instant
  stop : Instant

namespace Pulse

variable (before : Instant) (pulse : Pulse)

def instants : List Instant := pulse.noise ++ [pulse.stop]

/-- The last instant of noise before the transmitter is active. -/
def lastNoise : Instant := pulse.noise.getLastD before

def pause : Nat := (pulse.lastNoise before).time - before.time

def active : Nat := pulse.stop.time - (pulse.lastNoise before).time

end Pulse

/-- The lengths of the phases of some pulses, a pause and an active phase in turn. -/
def lengths : Instant → List Pulse → List Nat
  | _, [] => []
  | before, pulse :: later => pulse.pause before :: pulse.active before :: lengths pulse.stop later

/-- What holds of each pulse and of the instant it starts behind. -/
def EachAfter (holds : Instant → Pulse → Prop) : Instant → List Pulse → Prop
  | _, [] => True
  | before, pulse :: later => holds before pulse ∧ EachAfter holds pulse.stop later

/-! ## Noise -/

def Follows (before later : Instant) : Prop :=
  before.time ≤ later.time ∧ before.overflows ≤ later.overflows

/-- Noise: the instants are closer than `MIN_TICKS`. -/
def Quiet (fCpu : Nat) : Instant → List Instant → Prop
  | _, [] => True
  | before, instant :: later =>
    Follows before instant ∧ instant.time - before.time < minTicks fCpu ∧ Quiet fCpu instant later

/-- A pulse is noise and a phase without. -/
def Pulse.Heard (fCpu : Nat) (before : Instant) (pulse : Pulse) : Prop :=
  Quiet fCpu before pulse.noise ∧ Follows (pulse.lastNoise before) pulse.stop

theorem Quiet.follows {fCpu : Nat} {before : Instant} {noise : List Instant}
    (quiet : Quiet fCpu before noise) :
    Follows before (noise.getLastD before) := by
  induction noise generalizing before with
  | nil => exact ⟨le_refl _, le_refl _⟩
  | cons instant later ih =>
    obtain ⟨time, overflows⟩ := ih quiet.2.2
    rw [List.getLastD_cons]
    exact ⟨quiet.1.1.trans time, quiet.1.2.trans overflows⟩

theorem signals_append (before : Instant) (front back : List Instant) :
    signals before (front ++ back) = signals before front ++ signals (front.getLastD before) back := by
  induction front generalizing before with
  | nil => rfl
  | cons instant later ih =>
    rw [List.cons_append, signals, signals, ih instant, List.getLastD_cons, List.append_assoc]
    rfl

theorem handleAll_append (fCpu : Nat) (front back : List Event) (sense : Sense) :
    handleAll fCpu (front ++ back) sense = handleAll fCpu back (handleAll fCpu front sense) :=
  List.foldl_append

theorem handleAll_replicate (fCpu count : Nat) (sense : Sense) :
    handleAll fCpu (List.replicate count .overflow) sense = vectorOverflow0^[count] sense := by
  induction count generalizing sense with
  | zero => rfl
  | succ count ih => exact ih (vectorOverflow0 sense)

/-- The remainders of two times differ by the time between them. -/
theorem delta_ofNat (overflow : Bool) {old new : Nat} (order : old ≤ new) :
    delta overflow (UInt8.ofNat new) (UInt8.ofNat old) = UInt8.ofNat (new - old) := by
  rw [← UInt8.toNat_inj]
  unfold delta
  cases overflow with
  | false =>
    rw [if_neg Bool.false_ne_true, UInt8.toNat_sub]
    simp only [UInt8.toNat_ofNat']
    omega
  | true =>
    rw [if_pos rfl]
    simp only [UInt8.toNat_ofNat']
    omega

theorem minTicks_le_timeoutTicks (fCpu : Nat) : minTicks fCpu ≤ timeoutTicks fCpu :=
  Nat.div_le_div_right (by decide)

section Overflows

variable (sense : Sense)

theorem vectorOverflow0_lastNoiseTs (ts : UInt8) :
    vectorOverflow0 { sense with lastNoiseTs := ts } = { vectorOverflow0 sense with lastNoiseTs := ts } := by
  unfold vectorOverflow0
  dsimp only
  split_ifs <;> rfl

theorem lastNoiseTs_iterate_vectorOverflow0 (count : Nat) :
    (vectorOverflow0^[count] sense).lastNoiseTs = sense.lastNoiseTs := by
  induction count generalizing sense with
  | zero => rfl
  | succ count ih =>
    rw [Function.iterate_succ_apply, ih, vectorOverflow0]
    split_ifs <;> rfl

theorem iterate_vectorOverflow0_lastNoiseTs (count : Nat) (ts : UInt8) :
    vectorOverflow0^[count] { sense with lastNoiseTs := ts } =
      { vectorOverflow0^[count] sense with lastNoiseTs := ts } := by
  induction count generalizing sense with
  | zero => rfl
  | succ count ih =>
    rw [Function.iterate_succ_apply, vectorOverflow0_lastNoiseTs, ih, Function.iterate_succ_apply]

/-- Without bits, an overflow is only noted. -/
theorem iterate_vectorOverflow0_idle {sense : Sense} (idle : sense.askBufBits = 0) (count : Nat) :
    vectorOverflow0^[count] sense = { sense with overflow := sense.overflow || decide (0 < count) } := by
  induction count with
  | zero => simp only [Function.iterate_zero, id_eq, lt_irrefl, decide_false, Bool.or_false]
  | succ count ih =>
    rw [Function.iterate_succ_apply', ih, vectorOverflow0, if_neg fun both => both.2 idle]
    simp only [Nat.zero_lt_succ, decide_true, Bool.or_true]

/-- With bits, the first overflow is noted. -/
theorem iterate_vectorOverflow0_few {sense : Sense} (clear : sense.overflow = false) {count : Nat}
    (few : count ≤ 1) :
    vectorOverflow0^[count] sense = { sense with overflow := decide (0 < count) } := by
  interval_cases count
  · rw [show decide (0 < 0) = sense.overflow from clear.symm]
    rfl
  · rw [Function.iterate_one, vectorOverflow0, clear, if_neg fun both => Bool.false_ne_true both.1]
    rfl

/-- With bits, the second overflow is the timeout. -/
theorem iterate_vectorOverflow0_timeout {sense : Sense} (clear : sense.overflow = false)
    (bits : sense.askBufBits ≠ 0) {count : Nat} (many : 2 ≤ count) :
    vectorOverflow0^[count] sense =
      { askSenseTryDecode sense with overflow := decide (2 < count) } := by
  have first : vectorOverflow0 sense = { sense with overflow := true } := by
    rw [vectorOverflow0, if_neg fun both => Bool.false_ne_true (clear.symm.trans both.1)]
  have second : vectorOverflow0 { sense with overflow := true } =
      askSenseTryDecode { sense with overflow := false } := by
    rw [vectorOverflow0, if_pos ⟨rfl, bits⟩]
  obtain ⟨more, rfl⟩ : ∃ more, count = more + 2 := ⟨count - 2, by omega⟩
  rw [Function.iterate_add_apply, Function.iterate_succ_apply, first, Function.iterate_one, second,
    iterate_vectorOverflow0_idle (by rfl)]
  have after : decide (2 < more + 2) = decide (0 < more) := decide_eq_decide.mpr (by omega)
  rw [after]
  rfl

end Overflows

section Signals

variable {fCpu : Nat} {ts : UInt8} {sense : Sense}

/-- Noise shortly behind noise. -/
theorem rfm12AskintSignal_near (near : (delta sense.overflow ts sense.lastNoiseTs).toNat < minTicks fCpu) :
    rfm12AskintSignal fCpu ts sense = { sense with lastNoiseTs := ts } := by
  have least := minTicks_le_timeoutTicks fCpu
  have intime : ¬((delta sense.overflow ts sense.lastNoiseTs).toNat > timeoutTicks fCpu ∧
      sense.askBufBits ≠ 0) := fun late => absurd late.1 (by omega)
  simp only [rfm12AskintSignal, if_neg intime, if_pos (Or.inl near)]

/-- Noise too late. -/
theorem rfm12AskintSignal_late
    (late : (delta sense.overflow ts sense.lastNoiseTs).toNat > timeoutTicks fCpu) :
    rfm12AskintSignal fCpu ts sense =
      { (if sense.askBufBits ≠ 0 then { askSenseTryDecode sense with overflow := false } else sense) with
        lastNoiseTs := ts } := by
  simp only [rfm12AskintSignal, late, true_and, or_true, if_true]

/-- The end of an active phase. -/
theorem rfm12AskintSignal_active
    (least : minTicks fCpu ≤ (delta sense.overflow ts sense.lastNoiseTs).toNat)
    (most : (delta sense.overflow ts sense.lastNoiseTs).toNat ≤ timeoutTicks fCpu) :
    rfm12AskintSignal fCpu ts sense =
      { takeSample fCpu (delta sense.overflow ts sense.lastNoiseTs)
          (if sense.askBufBits ≠ 0 then
            takeSample fCpu (delta sense.overflow sense.lastNoiseTs sense.lastTxTs) sense else sense) with
        overflow := false
        lastNoiseTs := ts
        lastTxTs := ts } := by
  have intime : ¬((delta sense.overflow ts sense.lastNoiseTs).toNat > timeoutTicks fCpu ∧
      sense.askBufBits ≠ 0) := fun late => absurd late.1 (by omega)
  have active : ¬((delta sense.overflow ts sense.lastNoiseTs).toNat < minTicks fCpu ∨
      (delta sense.overflow ts sense.lastNoiseTs).toNat > timeoutTicks fCpu) := by omega
  simp only [rfm12AskintSignal, if_neg intime, if_neg active]

end Signals

/-- Noise is followed, and the overflows meanwhile are handled. -/
theorem handleAll_quiet {fCpu : Nat} {before : Instant} {noise : List Instant}
    (quiet : Quiet fCpu before noise) {sense : Sense}
    (heard : sense.lastNoiseTs = UInt8.ofNat before.time) :
    handleAll fCpu (signals before noise) sense =
      { vectorOverflow0^[(noise.getLastD before).overflows - before.overflows] sense with
        lastNoiseTs := UInt8.ofNat (noise.getLastD before).time } := by
  induction noise generalizing before sense with
  | nil =>
    rw [List.getLastD_nil, Nat.sub_self, ← heard]
    rfl
  | cons instant later ih =>
    obtain ⟨follows, near, rest⟩ := quiet
    have signal : rfm12AskintSignal fCpu (UInt8.ofNat instant.time)
        (vectorOverflow0^[instant.overflows - before.overflows] sense) =
        { vectorOverflow0^[instant.overflows - before.overflows] sense with
          lastNoiseTs := UInt8.ofNat instant.time } := by
      apply rfm12AskintSignal_near
      rw [lastNoiseTs_iterate_vectorOverflow0, heard, delta_ofNat _ follows.1, UInt8.toNat_ofNat']
      exact (Nat.mod_le _ _).trans_lt near
    have turns : (later.getLastD instant).overflows - before.overflows =
        ((later.getLastD instant).overflows - instant.overflows) +
          (instant.overflows - before.overflows) := by
      have one := follows.2
      have two := rest.follows.2
      omega
    rw [signals, handleAll_append, handleAll_replicate, List.getLastD_cons, turns,
      Function.iterate_add_apply]
    change handleAll fCpu (signals instant later) (rfm12AskintSignal fCpu _ _) = _
    rw [signal, ih rest rfl, iterate_vectorOverflow0_lastNoiseTs]

/-- A pulse is the overflows since the instant before it, and a signal behind its last noise. -/
theorem handleAll_pulse {fCpu : Nat} {before : Instant} {pulse : Pulse} (heard : pulse.Heard fCpu before)
    {sense : Sense} (noise : sense.lastNoiseTs = UInt8.ofNat before.time) :
    handleAll fCpu (signals before pulse.instants) sense =
      rfm12AskintSignal fCpu (UInt8.ofNat pulse.stop.time)
        { vectorOverflow0^[pulse.stop.overflows - before.overflows] sense with
          lastNoiseTs := UInt8.ofNat (pulse.lastNoise before).time } := by
  have turns : pulse.stop.overflows - before.overflows =
      (pulse.stop.overflows - (pulse.lastNoise before).overflows) +
        ((pulse.lastNoise before).overflows - before.overflows) := by
    have one := heard.1.follows.2
    have two := heard.2.2
    rw [Pulse.lastNoise] at two ⊢
    omega
  rw [Pulse.instants, signals_append, handleAll_append, handleAll_quiet heard.1 noise, signals,
    handleAll_append, handleAll_replicate, turns, Function.iterate_add_apply,
    iterate_vectorOverflow0_lastNoiseTs]
  rfl

end Ethersex.Ask
