import Mathlib
import Ethersex.Clock.Corrections

/-!
# The rate of the clock

Calls of `clock_tick` and `clock_set_time` in any order, on a clock without a crystal.  The divider passes
on every 51st call, so the clock counts one second for 51 calls and not for 50.
-/

namespace Ethersex.Clock

/-- A call of `clock_tick` or `clock_set_time`. -/
inductive Call where
  | tick
  | setTime (newSyncTimestamp : UInt32)
  deriving DecidableEq

def Call.apply (syncSource : Bool) (clock : Counters) : Call → Counters
  | .tick => clockTick syncSource clock
  | .setTime newSyncTimestamp => clockSetTime newSyncTimestamp clock

/-- The sync timestamp of a synchronised clock, and else the displayed time. -/
def Counters.reference (clock : Counters) : UInt32 :=
  if clock.syncTimestamp ≠ 0 then clock.syncTimestamp else clock.timestamp

/-- By how much the ticks of a run have moved the reference time. -/
def secondsCounted (syncSource : Bool) : Counters → List Call → Nat
  | _, [] => 0
  | clock, .tick :: calls =>
      ((clockTick syncSource clock).reference - clock.reference).toNat +
        secondsCounted syncSource (clockTick syncSource clock) calls
  | clock, .setTime newSyncTimestamp :: calls =>
      secondsCounted syncSource (clockSetTime newSyncTimestamp clock) calls

/-- The displayed time and the sync timestamp wrap together. -/
structure Counters.Running (syncSource : Bool) (clock : Counters) : Prop where
  ticks : clock.ticks.toNat ≤ 50
  inStep : clock.InStep
  unsynced : syncSource = false → clock.syncTimestamp = 0

namespace Counters.Running

variable {syncSource : Bool} {clock : Counters}

/-- A synchronised clock has a sync source, and its counters are equal or the displayed time is ahead. -/
theorem second_synced (running : clock.Running syncSource) (synced : clock.syncTimestamp ≠ 0) :
    second syncSource clock =
        { clock with
          timestamp := clock.timestamp + 1
          syncTimestamp := clock.timestamp + 1 } ∧ clock.syncTimestamp = clock.timestamp ∨
      second syncSource clock = { clock with syncTimestamp := clock.syncTimestamp + 1 } ∧
        clock.syncTimestamp.toNat < clock.timestamp.toNat := by
  have source : syncSource = true := by
    by_contra missing
    exact synced (running.unsynced (Bool.eq_false_of_not_eq_true missing))
  by_cases equal : clock.syncTimestamp = clock.timestamp
  · refine .inl ⟨?_, equal⟩
    rw [second, if_neg fun waits => waits.2.2 equal, if_pos synced, equal]
  · refine .inr ⟨?_, ?_⟩
    · rw [second, if_pos ⟨source, synced, equal⟩, if_pos synced]
    · have behind := (running.inStep synced).1
      have differ := UInt32.toNat_inj.not.mpr equal
      omega

theorem second_unsynced (unsynced : clock.syncTimestamp = 0) :
    second syncSource clock = { clock with timestamp := clock.timestamp + 1 } := by
  rw [second, if_neg fun waits => waits.2.1 unsynced, if_neg (not_not.mpr unsynced)]

/-- Every second counts, also where a counter wraps. -/
theorem second_reference (running : clock.Running syncSource) :
    (second syncSource clock).reference = clock.reference + 1 := by
  by_cases unsynced : clock.syncTimestamp = 0
  · rw [second_unsynced unsynced, Counters.reference, Counters.reference, if_neg (not_not.mpr unsynced),
      if_neg (not_not.mpr unsynced)]
  · rw [Counters.reference, Counters.reference, if_pos unsynced]
    obtain ⟨after, equal⟩ | ⟨after, behind⟩ := running.second_synced unsynced
    · rw [after, equal]
      exact ite_self _
    · rw [after]
      apply if_pos
      intro wrapped
      have zero := congrArg UInt32.toNat wrapped
      have small := clock.timestamp.toNat_lt
      rw [UInt32.toNat_add, UInt32.toNat_one, UInt32.toNat_zero] at zero
      omega

theorem second_inStep (running : clock.Running syncSource) : (second syncSource clock).InStep := by
  by_cases unsynced : clock.syncTimestamp = 0
  · rw [second_unsynced unsynced]
    intro synced
    exact absurd unsynced synced
  · intro synced
    obtain ⟨after, equal⟩ | ⟨after, behind⟩ := running.second_synced unsynced
    · rw [after]
      dsimp only
      omega
    · have close := (running.inStep unsynced).2
      have small := clock.timestamp.toNat_lt
      rw [after]
      dsimp only
      rw [UInt32.toNat_add, UInt32.toNat_one]
      omega

theorem second_unsynced_kept (running : clock.Running syncSource) (missing : syncSource = false) :
    (second syncSource clock).syncTimestamp = 0 := by
  rw [second_unsynced (running.unsynced missing)]
  exact running.unsynced missing

/-- A call of `clock_tick` counts a second when the divider was at fifty. -/
theorem tick (running : clock.Running syncSource) :
    (clockTick syncSource clock).Running syncSource ∧
      ((clockTick syncSource clock).reference - clock.reference).toNat =
        (clock.ticks.toNat + 1) / 51 ∧
      (clockTick syncSource clock).ticks.toNat = (clock.ticks.toNat + 1) % 51 := by
  have ticks := running.ticks
  have next : (clock.ticks + 1).toNat = clock.ticks.toNat + 1 := by
    rw [UInt8.toNat_add, UInt8.toNat_one]
    omega
  rw [clockTick]
  split_ifs with last
  · rw [gt_iff_lt, UInt8.lt_iff_toNat_lt, next, show (50 : UInt8).toNat = 50 from rfl] at last
    refine ⟨⟨Nat.zero_le 50, running.second_inStep, running.second_unsynced_kept⟩, ?_, ?_⟩
    · change ((second syncSource clock).reference - clock.reference).toNat = _
      rw [running.second_reference, add_sub_cancel_left, UInt32.toNat_one]
      omega
    · change 0 = _
      omega
  · rw [gt_iff_lt, UInt8.lt_iff_toNat_lt, next, show (50 : UInt8).toNat = 50 from rfl] at last
    refine ⟨⟨?_, running.inStep, running.unsynced⟩, ?_, ?_⟩
    · rw [next]
      omega
    · change (clock.reference - clock.reference).toNat = _
      rw [UInt32.sub_self, UInt32.toNat_zero]
      omega
    · rw [next]
      omega

theorem setTime (running : clock.Running syncSource) (source : syncSource = true)
    (newSyncTimestamp : UInt32) : (clockSetTime newSyncTimestamp clock).Running syncSource := by
  constructor
  · exact running.ticks
  · exact inStep_setTime newSyncTimestamp clock
  · intro missing
    exact absurd missing (by rw [source]; decide)

end Counters.Running

theorem running_powerUp (syncSource : Bool) : powerUp.Running syncSource := by
  constructor
  · decide
  · intro synced
    exact absurd rfl synced
  · intro _
    rfl

/-- The calls of `clock_tick` in a run. -/
def ticksOf (calls : List Call) : Nat := calls.count .tick

/-- Corrections do not disturb the divider. -/
theorem secondsCounted_eq {syncSource : Bool} {calls : List Call}
    (sources : ∀ newSyncTimestamp, .setTime newSyncTimestamp ∈ calls → syncSource = true)
    {clock : Counters} (running : clock.Running syncSource) :
    secondsCounted syncSource clock calls = (clock.ticks.toNat + ticksOf calls) / 51 := by
  induction calls generalizing clock with
  | nil =>
    have ticks := running.ticks
    rw [secondsCounted, ticksOf, List.count_nil]
    omega
  | cons call calls ih =>
    have later newSyncTimestamp (member : Call.setTime newSyncTimestamp ∈ calls) :=
      sources newSyncTimestamp (List.mem_cons_of_mem call member)
    cases call with
    | tick =>
      obtain ⟨after, advance, ticks⟩ := running.tick
      rw [secondsCounted, advance, ih later after, ticks, ticksOf, ticksOf, List.count_cons_self]
      omega
    | setTime newSyncTimestamp =>
      have source := sources newSyncTimestamp List.mem_cons_self
      rw [secondsCounted, ih later (running.setTime source newSyncTimestamp), ticksOf, ticksOf,
        List.count_cons_of_ne Call.noConfusion]
      rfl

/-- The clock loses a second with every fifty seconds. -/
theorem secondsCounted_iff (syncSource : Bool) (calls : List Call)
    (sources : ∀ newSyncTimestamp, .setTime newSyncTimestamp ∈ calls → syncSource = true) :
    secondsCounted syncSource powerUp calls = ticksOf calls / 50 ↔
      ticksOf calls / 50 ≤ ticksOf calls % 50 := by
  rw [secondsCounted_eq sources (running_powerUp syncSource)]
  change (0 + _) / 51 = _ ↔ _
  omega

/-- A correction at the start, and then fifty-one calls. -/
theorem secondsCounted_iff_synced :
    secondsCounted true powerUp (.setTime 1000 :: List.replicate 51 .tick) = 51 / 50 :=
  (secondsCounted_iff true (.setTime 1000 :: List.replicate 51 .tick) fun _ _ => rfl).mpr (by decide)

/-- Fifty calls of `clock_tick` are no second. -/
theorem fiftyTicks_short :
    secondsCounted false powerUp (List.replicate 50 .tick) ≠ ticksOf (List.replicate 50 .tick) / 50 := by
  decide

end Ethersex.Clock
