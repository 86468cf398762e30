import Mathlib
import Ethersex.Clock.Model

/-!
# Ticks and corrections

Runs of the clock with a sync source: one-second ticks and calls of
`clock_set_time` in any order.  The invariant is the lag of the sync timestamp
behind the displayed one, which is at most five minutes.
-/

namespace Ethersex.Clock

/-- What happens to the counters. -/
inductive Event where
  | tick
  | setTime (newSyncTimestamp : UInt32)

def Event.apply (clock : Counters) : Event → Counters
  | .tick => second true clock
  | .setTime newSyncTimestamp => clockSetTime newSyncTimestamp clock

/-- No counter wraps. -/
def Event.Fits (clock : Counters) (event : Event) : Prop :=
  event = .tick →
    clock.timestamp ≤ (event.apply clock).timestamp ∧
      clock.syncTimestamp ≤ (event.apply clock).syncTimestamp

/-- The states of the clock after power-up, as long as no counter wraps. -/
inductive Reached : Counters → Prop where
  | powerUp : Reached powerUp
  | step {clock : Counters} (event : Event) (reached : Reached clock) (fits : event.Fits clock) :
      Reached (event.apply clock)

/-- The sync timestamp is at most five minutes behind the displayed time. -/
def Counters.InStep (clock : Counters) : Prop :=
  clock.syncTimestamp ≠ 0 →
    clock.syncTimestamp.toNat ≤ clock.timestamp.toNat ∧
      clock.timestamp.toNat - clock.syncTimestamp.toNat ≤ 300

/-! ## One step -/

section Steps

variable {clock : Counters}

/-- A counter that does not wrap goes up by one. -/
theorem toNat_succ {counter : UInt32} (fits : counter ≤ counter + 1) :
    (counter + 1).toNat = counter.toNat + 1 := by
  have small := counter.toNat_lt
  rw [UInt32.le_iff_toNat_le, UInt32.toNat_add, UInt32.toNat_one] at fits
  rw [UInt32.toNat_add, UInt32.toNat_one]
  omega

/-- The displayed time waits until the sync timestamp has caught up. -/
theorem second_timestamp (fits : Event.tick.Fits clock) (synced : clock.syncTimestamp ≠ 0) :
    (second true clock).timestamp.toNat =
      if clock.syncTimestamp.toNat = clock.timestamp.toNat then clock.timestamp.toNat + 1
      else clock.timestamp.toNat := by
  have small := (fits rfl).1
  by_cases equal : clock.syncTimestamp = clock.timestamp
  · rw [if_pos (congrArg UInt32.toNat equal)]
    simp only [Event.apply, second, equal, ne_eq, not_true, and_false, if_false] at small ⊢
    exact toNat_succ small
  · rw [if_neg (fun same => equal (UInt32.toNat_inj.mp same))]
    simp [second, equal, synced]

theorem second_syncTimestamp (fits : Event.tick.Fits clock) (synced : clock.syncTimestamp ≠ 0) :
    (second true clock).syncTimestamp.toNat = clock.syncTimestamp.toNat + 1 := by
  have small := (fits rfl).2
  simp only [Event.apply, second, synced, ne_eq, not_false_eq_true, if_true] at small ⊢
  exact toNat_succ small

/-- A clock without synchronisation stays without. -/
theorem second_unsynced (unsynced : clock.syncTimestamp = 0) :
    (second true clock).syncTimestamp = 0 := by
  simp [second, unsynced]

theorem Counters.InStep.second (inStep : clock.InStep) (fits : Event.tick.Fits clock) :
    (second true clock).InStep := by
  intro later
  have synced : clock.syncTimestamp ≠ 0 := fun unsynced => later (second_unsynced unsynced)
  obtain ⟨behind, close⟩ := inStep synced
  rw [second_timestamp fits synced, second_syncTimestamp fits synced]
  split <;> omega

/-- The timestamp after a correction. -/
theorem clockSetTime_timestamp (newSyncTimestamp : UInt32) (clock : Counters) :
    (clockSetTime newSyncTimestamp clock).timestamp =
      if newSyncTimestamp.toNat > clock.timestamp.toNat ∨
          clock.timestamp.toNat - newSyncTimestamp.toNat > 300 then newSyncTimestamp
      else clock.timestamp := by
  simp only [clockSetTime, gt_iff_lt, UInt32.lt_iff_toNat_lt]
  by_cases forward : clock.timestamp.toNat < newSyncTimestamp.toNat
  · rw [if_pos (Or.inl forward), if_pos (Or.inl forward)]
  · have back : newSyncTimestamp ≤ clock.timestamp := UInt32.le_iff_toNat_le.mpr (by omega)
    rw [UInt32.toNat_sub_of_le _ _ back]
    rfl

theorem inStep_setTime (newSyncTimestamp : UInt32) (clock : Counters) :
    (clockSetTime newSyncTimestamp clock).InStep := by
  intro _
  rw [clockSetTime_timestamp]
  change newSyncTimestamp.toNat ≤ _ ∧ _ - newSyncTimestamp.toNat ≤ 300
  split
  · exact ⟨le_refl _, by omega⟩
  · exact ⟨by omega, by omega⟩

/-- Only a correction by more than five minutes takes the displayed time back. -/
theorem setTime_of_backward {event : Event} (fits : event.Fits clock)
    (back : (event.apply clock).timestamp < clock.timestamp) :
    ∃ newSyncTimestamp, event = .setTime newSyncTimestamp ∧
      newSyncTimestamp.toNat + 300 < clock.timestamp.toNat := by
  cases event with
  | tick => exact absurd back (UInt32.not_lt.mpr (fits rfl).1)
  | setTime newSyncTimestamp =>
      refine ⟨newSyncTimestamp, rfl, ?_⟩
      rw [UInt32.lt_iff_toNat_lt] at back
      simp only [Event.apply, clockSetTime_timestamp] at back
      split at back <;> omega

end Steps

/-! ## Runs -/

theorem Reached.inStep {clock : Counters} (reached : Reached clock) : clock.InStep := by
  induction reached with
  | powerUp => exact fun synced => absurd rfl synced
  | @step clock event reached fits ih =>
      cases event with
      | tick => exact ih.second fits
      | setTime newSyncTimestamp => exact inStep_setTime newSyncTimestamp clock

/-- After a correction by `behind` seconds the clock waits for as many ticks. -/
theorem waits {clock : Counters} {newSyncTimestamp : UInt32} (real : newSyncTimestamp ≠ 0)
    {behind : Nat} (late : newSyncTimestamp.toNat + behind = clock.timestamp.toNat)
    (small : behind ≤ 300) (ticks : Nat)
    (fits : ∀ k < ticks,
      Event.tick.Fits ((second true)^[k] (clockSetTime newSyncTimestamp clock))) :
    ((second true)^[ticks] (clockSetTime newSyncTimestamp clock)).timestamp.toNat =
        clock.timestamp.toNat + (ticks - behind) ∧
      ((second true)^[ticks] (clockSetTime newSyncTimestamp clock)).syncTimestamp.toNat =
        newSyncTimestamp.toNat + ticks := by
  induction ticks with
  | zero =>
      refine ⟨?_, rfl⟩
      rw [Function.iterate_zero, id_eq, clockSetTime_timestamp, if_neg (by omega)]
      omega
  | succ ticks ih =>
      obtain ⟨shown, synced⟩ := ih fun k before => fits k (by omega)
      have fit := fits ticks (Nat.lt_succ_self ticks)
      have nonzero : ((second true)^[ticks]
          (clockSetTime newSyncTimestamp clock)).syncTimestamp ≠ 0 := by
        rw [Ne, ← UInt32.toNat_inj, UInt32.toNat_zero] at real ⊢
        omega
      rw [Function.iterate_succ_apply', second_timestamp fit nonzero,
        second_syncTimestamp fit nonzero, shown, synced]
      refine ⟨?_, by omega⟩
      split <;> omega

/-- The displayed time is ahead of the sync timestamp by at most five minutes, goes
back only with a correction by more, and waits for smaller ones. -/
theorem clock_corrections (clock : Counters) (reached : Reached clock) :
    clock.InStep ∧
      (∀ event : Event, event.Fits clock → (event.apply clock).timestamp < clock.timestamp →
        ∃ newSyncTimestamp, event = .setTime newSyncTimestamp ∧
          newSyncTimestamp.toNat + 300 < clock.timestamp.toNat) ∧
      ∀ (newSyncTimestamp : UInt32) (behind ticks : Nat), newSyncTimestamp ≠ 0 →
        newSyncTimestamp.toNat + behind = clock.timestamp.toNat → behind ≤ 300 →
        (∀ k < ticks,
          Event.tick.Fits ((second true)^[k] (clockSetTime newSyncTimestamp clock))) →
        ((second true)^[ticks] (clockSetTime newSyncTimestamp clock)).timestamp.toNat =
          clock.timestamp.toNat + (ticks - behind) := by
  refine ⟨reached.inStep, fun event => setTime_of_backward, ?_⟩
  intro newSyncTimestamp behind ticks real late small fits
  exact (waits real late small ticks fits).1

theorem clock_corrections_powerUp :
    (clockSetTime 1000 powerUp).InStep ∧
      ((second true)^[3] (clockSetTime 998 (clockSetTime 1000 powerUp))).timestamp.toNat = 1001 := by
  have fits : (Event.setTime 1000).Fits powerUp := fun tick => nomatch tick
  have reached : Reached (clockSetTime 1000 powerUp) := .step (.setTime 1000) .powerUp fits
  obtain ⟨inStep, -, waits⟩ := clock_corrections _ reached
  refine ⟨inStep, waits 998 2 3 (by decide) (by decide) (by decide) fun k small _ => ?_⟩
  interval_cases k <;> exact ⟨by decide, by decide⟩

/-! ## The divider -/

/-- `clock_tick` makes a one-second tick at every 51st call. -/
theorem clockTick_iterate (syncSource : Bool) (clock : Counters) (small : clock.ticks.toNat ≤ 50)
    (calls : Nat) :
    (clockTick syncSource)^[calls] clock =
      { (second syncSource)^[(clock.ticks.toNat + calls) / 51] clock with
        ticks := UInt8.ofNat ((clock.ticks.toNat + calls) % 51) } := by
  induction calls with
  | zero =>
      rw [Nat.add_zero, Nat.div_eq_of_lt (by omega), Nat.mod_eq_of_lt (by omega)]
      simp
  | succ calls ih =>
      rw [Function.iterate_succ_apply', ih]
      have ticks : (UInt8.ofNat ((clock.ticks.toNat + calls) % 51)).toNat =
          (clock.ticks.toNat + calls) % 51 := UInt8.toNat_ofNat_of_lt' (by change _ < 256; omega)
      have next : (UInt8.ofNat ((clock.ticks.toNat + calls) % 51) + 1).toNat =
          (clock.ticks.toNat + calls) % 51 + 1 := by
        rw [UInt8.toNat_add, ticks, UInt8.toNat_one]
        omega
      rw [clockTick]
      by_cases last : (clock.ticks.toNat + calls) % 51 = 50
      · rw [if_pos (by rw [gt_iff_lt, UInt8.lt_iff_toNat_lt, next, last]; decide),
          show (clock.ticks.toNat + (calls + 1)) / 51 = (clock.ticks.toNat + calls) / 51 + 1 by omega,
          show (clock.ticks.toNat + (calls + 1)) % 51 = 0 by omega, Function.iterate_succ_apply']
        rfl
      · rw [if_neg (by
            rw [gt_iff_lt, UInt8.lt_iff_toNat_lt, next, show (50 : UInt8).toNat = 50 from rfl]
            omega),
          show (clock.ticks.toNat + (calls + 1)) / 51 = (clock.ticks.toNat + calls) / 51 by omega,
          show (clock.ticks.toNat + (calls + 1)) % 51 = (clock.ticks.toNat + calls) % 51 + 1 by omega]
        simp only [Counters.mk.injEq, true_and, and_true]
        rw [← UInt8.toNat_inj, next, UInt8.toNat_ofNat_of_lt' (by change _ < 256; omega)]

end Ethersex.Clock
