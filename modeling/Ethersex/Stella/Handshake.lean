import Ethersex.Stella.Rounds
import Ethersex.Library.Walks

/-!
# The handshake between the main loop and the interrupts

A timetable is handed over when it is complete.  The fading uses its counter as the sign that a
channel has changed, and the overflow interrupt counts the same counter down.  If it does so between
the last change and the test, the change does not reach the pins.
-/

namespace Ethersex.Stella

open Ethersex.Library

section Config

variable (c : Config)

/-! ## What is to hold -/

/-- The interrupts walk a complete timetable, whose brightnesses the next round shows.  With nothing
pending, they are the current ones. -/
structure Timely (s : State) : Prop where
  walks : ∃ brightness done rest, Walk c brightness done rest s
  rounds : s.TCNT = 255 → ∃ brightness, Shows c brightness (tick c s)
  settled : s.main = .idle → s.stella_sync = .NOTHING_NEW →
    Complete c s.stella_brightness (s.timetables s.int_table)

/-- The next tick clears the sign of the fading, and no update is requested yet. -/
def Clears (s : State) : Prop :=
  s.TCNT = 255 ∧ s.stella_fade_counter = 1 ∧ s.stella_sync ≠ .UPDATE_VALUES

/-- A channel from here on is to be faded. -/
def Fades (s : State) (i : Nat) : Prop :=
  ∃ j < c.STELLA_PINS, i ≤ j ∧ s.stella_brightness j ≠ s.stella_fade j

/-- What a tick must not find in the main loop. -/
def KeepsSign (s : State) : Main → Prop
  | .fade i => Clears s → Fades c s i
  | .testCounter => ¬Clears s
  | _ => True

/-- The sign of the fading is not cleared between the last change and the test. -/
def InTime (s : State) (event : Event) : Prop := event.isTick = true → KeepsSign c s s.main

instance (s : State) : Decidable (Clears s) := inferInstanceAs (Decidable (_ ∧ _ ∧ _))

instance (s : State) (i : Nat) : Decidable (Fades c s i) :=
  inferInstanceAs (Decidable (∃ j < c.STELLA_PINS, i ≤ j ∧ s.stella_brightness j ≠ s.stella_fade j))

instance (s : State) : ∀ main, Decidable (KeepsSign c s main)
  | .fade i => inferInstanceAs (Decidable (Clears s → Fades c s i))
  | .testCounter => inferInstanceAs (Decidable ¬Clears s)
  | .idle | .setSync | .resetCounter | .testSync | .clearTable | .sort _ => isTrue trivial

instance (s : State) (event : Event) : Decidable (InTime c s event) :=
  inferInstanceAs (Decidable (event.isTick = true → KeepsSign c s s.main))

/-! ## Invariants -/

/-- The main loop builds a timetable that is not handed over, and the one handed over is complete. -/
structure Sound (s : State) : Prop where
  walk : ∃ brightness done rest, Walk c brightness done rest s
  handed : s.stella_sync = .NEW_VALUES → ∃ brightness, Complete c brightness (s.timetables s.cal_table)
  clearing : s.main = .clearTable → s.stella_sync ≠ .NEW_VALUES
  sorting : ∀ i, s.main = .sort i → s.stella_sync ≠ .NEW_VALUES ∧
    i ≤ c.STELLA_PINS ∧ ∃ nodes, Built c s.stella_brightness i (s.timetables s.cal_table) nodes

/-- The current brightnesses are in the active timetable, in the one handed over, or to be built. -/
def Settled (s : State) : Prop :=
  match s.stella_sync with
  | .UPDATE_VALUES => True
  | .NEW_VALUES => Complete c s.stella_brightness (s.timetables s.cal_table)
  | .NOTHING_NEW => Complete c s.stella_brightness (s.timetables s.int_table)

/-- While the channels are faded, the sign says that there is something to build. -/
def Pending (s : State) : Prop :=
  match s.main with
  | .fade i => Settled c s ∨ s.stella_fade_counter ≠ 0 ∨ Fades c s i
  | .testCounter => Settled c s ∨ s.stella_fade_counter ≠ 0
  | .resetCounter => Settled c s
  | .testSync => Settled c s
  | .idle => Settled c s
  | _ => True

end Config

variable {c : Config} {s other : State}

/-! ## The main loop -/

theorem build_cal_table (s : State) (change : Timetable → Timetable) :
    (s.build change).timetables s.cal_table = change (s.timetables s.cal_table) :=
  Function.update_self ..

/-- A step that builds nothing. -/
theorem Sound.congr (sound : Sound c s) (same : SameRound s other)
    (tables : other.timetables = s.timetables)
    (sync : other.stella_sync = .NEW_VALUES → s.stella_sync = .NEW_VALUES)
    (clearing : other.main = .clearTable → other.stella_sync ≠ .NEW_VALUES)
    (sorting : ∀ i, other.main ≠ .sort i) : Sound c other where
  walk := by
    obtain ⟨brightness, done, rest, walk⟩ := sound.walk
    exact ⟨brightness, done, rest, walk.congr same⟩
  handed new := by
    rw [tables, same.cal_table]
    exact sound.handed (sync new)
  clearing := clearing
  sorting i main := absurd main (sorting i)

/-- The timetable is complete for some more channels. -/
theorem Sound.build (sound : Sound c s) (held : s.stella_sync ≠ .NEW_VALUES) {i : Nat}
    (small : i ≤ c.STELLA_PINS) {change : Timetable → Timetable} {nodes : List Nat}
    (built : Built c s.stella_brightness i (change (s.timetables s.cal_table)) nodes) :
    Sound c { s.build change with main := .sort i } := by
  obtain ⟨brightness, done, rest, walk⟩ := sound.walk
  refine ⟨⟨brightness, done, rest, walk.congr (.build walk.apart ..)⟩, fun new => absurd new held,
    fun _ => held, ?_⟩
  rintro _ ⟨⟩
  refine ⟨held, small, nodes, ?_⟩
  show Built c s.stella_brightness i ((s.build change).timetables s.cal_table) nodes
  rwa [build_cal_table]

/-- The timetable of all channels is complete. -/
theorem Sound.complete (sound : Sound c s) {i : Nat} (main : s.main = .sort i)
    (outside : ¬i < c.STELLA_PINS) : Complete c s.stella_brightness (s.timetables s.cal_table) := by
  obtain ⟨-, small, built⟩ := sound.sorting i main
  rwa [Nat.le_antisymm small (Nat.le_of_not_lt outside)] at built

/-- Outside of the sorting, the main loop neither changes a timetable nor hands one over. -/
theorem process_quiet (clear : s.main ≠ .clearTable) (sort : ∀ i, s.main ≠ .sort i) :
    (process c s).timetables = s.timetables ∧
      ((process c s).stella_sync = .NEW_VALUES → s.stella_sync = .NEW_VALUES) ∧
      ((process c s).main = .clearTable → (process c s).stella_sync ≠ .NEW_VALUES) ∧
      ∀ i, (process c s).main ≠ .sort i := by
  rw [process]
  split <;> grind

theorem Sound.process (sound : Sound c s) : Sound c (process c s) := by
  obtain ⟨brightness, done, rest, walk⟩ := sound.walk
  have taken : SameRound s (Stella.step c s .process) := .step walk.apart rfl
  have same : SameRound s (Stella.process c s) := taken
  by_cases clear : s.main = .clearTable
  · rw [Stella.process, clear]
    exact sound.build (sound.clearing clear) (Nat.zero_le _) (built_nil _)
  by_cases sort : ∃ i, s.main = .sort i
  · obtain ⟨i, main⟩ := sort
    rw [Stella.process, main] at same ⊢
    dsimp only at same ⊢
    split at same
    · next inside =>
        obtain ⟨held, -, _, built⟩ := sound.sorting i main
        obtain ⟨nodes, next⟩ := built.sortChannel inside
        rw [if_pos inside]
        exact sound.build held inside next
    · next outside =>
        rw [if_neg outside]
        exact ⟨⟨_, _, _, walk.congr same⟩, fun _ => ⟨_, sound.complete main outside⟩, by simp, by simp⟩
  · obtain ⟨tables, sync, clearing, sorting⟩ := process_quiet (c := c) clear (not_exists.mp sort)
    exact sound.congr same tables sync clearing sorting

/-- What is set from the main loop requests an update, or it changes nothing that is shown. -/
theorem set_quiet {event : Event} (sets : event.isTick = false) (other : event ≠ .process) :
    (step c s event).timetables = s.timetables ∧ (step c s event).main = s.main ∧
      ((step c s event).stella_sync = s.stella_sync ∧
          (step c s event).stella_brightness = s.stella_brightness ∨
        s.main = .idle ∧ (step c s event).stella_sync = .UPDATE_VALUES) := by
  cases event with
  | tick => cases sets
  | process => exact absurd rfl other
  | setFading =>
      rw [step]
      split <;> exact ⟨rfl, rfl, .inl ⟨rfl, rfl⟩⟩
  | setValue func =>
      rw [step, stellaSetValue]
      split
      · next idle =>
          split
          · exact ⟨rfl, rfl, .inl ⟨rfl, rfl⟩⟩
          · cases func with
            | STELLA_SET_FADE => exact ⟨rfl, rfl, .inl ⟨rfl, rfl⟩⟩
            | other => exact ⟨rfl, rfl, .inl ⟨rfl, rfl⟩⟩
            | STELLA_SET_IMMEDIATELY => exact ⟨rfl, rfl, .inr ⟨idle, rfl⟩⟩
            | STELLA_SET_FLASHY => exact ⟨rfl, rfl, .inr ⟨idle, rfl⟩⟩
            | STELLA_SET_IMMEDIATELY_RELATIVE => exact ⟨rfl, rfl, .inr ⟨idle, rfl⟩⟩
      · exact ⟨rfl, rfl, .inl ⟨rfl, rfl⟩⟩

theorem Sound.set (sound : Sound c s) {event : Event} (sets : event.isTick = false)
    (other : event ≠ .process) : Sound c (step c s event) := by
  obtain ⟨brightness, done, rest, walk⟩ := sound.walk
  have same : SameRound s (step c s event) := .step walk.apart sets
  obtain ⟨tables, main, ⟨sync, bright⟩ | ⟨idle, sync⟩⟩ := set_quiet (c := c) (s := s) sets other
  · refine ⟨⟨_, _, _, walk.congr same⟩, ?_, ?_, ?_⟩
    · rw [sync, tables, same.cal_table]
      exact sound.handed
    · rw [sync, main]
      exact sound.clearing
    · rw [sync, main, tables, same.cal_table, bright]
      exact sound.sorting
  · refine sound.congr same tables (fun new => ?_) (fun _ => ?_) fun i => ?_
    · rw [sync] at new
      cases new
    · rw [sync]
      exact Sync.noConfusion
    · rw [main, idle]
      exact Main.noConfusion

/-! ## The interrupts -/

/-- What the main loop works with is the same. -/
structure SameLoop (s other : State) : Prop where
  brightness : other.stella_brightness = s.stella_brightness
  fade : other.stella_fade = s.stella_fade
  timetables : other.timetables = s.timetables
  main : other.main = s.main

/-- A tick without an overflow has nothing to do with the main loop. -/
theorem tick_loop (inside : s.TCNT ≠ 255) :
    SameLoop s (tick c s) ∧ (tick c s).stella_fade_counter = s.stella_fade_counter ∧
      (tick c s).stella_sync = s.stella_sync ∧ (tick c s).int_table = s.int_table ∧
      (tick c s).cal_table = s.cal_table := by
  rw [tick_of_ne inside]
  split
  · rw [compare]
    split <;> exact ⟨⟨rfl, rfl, rfl, rfl⟩, rfl, rfl, rfl, rfl⟩
  · exact ⟨⟨rfl, rfl, rfl, rfl⟩, rfl, rfl, rfl, rfl⟩

/-- With an overflow, the counter is counted down, and a timetable that was handed over is taken. -/
theorem tick_overflow (last : s.TCNT = 255) :
    SameLoop s (tick c s) ∧
      (tick c s).stella_fade_counter =
        (if s.stella_fade_counter ≠ 0 then s.stella_fade_counter - 1 else 0) ∧
      (s.stella_sync = .NEW_VALUES ∧ (tick c s).stella_sync = .NOTHING_NEW ∧
          (tick c s).int_table = s.cal_table ∧ (tick c s).cal_table = s.int_table ∨
        s.stella_sync ≠ .NEW_VALUES ∧ (tick c s).stella_sync = s.stella_sync ∧
          (tick c s).int_table = s.int_table ∧ (tick c s).cal_table = s.cal_table) := by
  obtain ⟨_, _, _, same⟩ := tick_of_eq (c := c) last
  rw [same, overflow, startRound, swap]
  dsimp only
  split
  · next new => exact ⟨⟨rfl, rfl, rfl, rfl⟩, rfl, .inl ⟨new, rfl, rfl, rfl⟩⟩
  · next held => exact ⟨⟨rfl, rfl, rfl, rfl⟩, rfl, .inr ⟨held, rfl, rfl, rfl⟩⟩

theorem tick_TCNT (last : s.TCNT = 255) : (tick c s).TCNT = 0 := by
  obtain ⟨_, _, _, same⟩ := tick_of_eq (c := c) last
  rw [same, overflow, startRound, swap]
  split <;> rfl

/-- With an overflow, a round of a complete timetable starts. -/
theorem Sound.timed (sound : Sound c s) (last : s.TCNT = 255) :
    ∃ brightness nodes, Timed c brightness [] nodes (tick c s) := by
  obtain ⟨brightness, done, rest, walk⟩ := sound.walk
  obtain ⟨_, _, _, same⟩ := tick_of_eq (c := c) last
  rw [same, overflow]
  by_cases new : s.stella_sync = .NEW_VALUES
  · obtain ⟨brightness, nodes, built⟩ := sound.handed new
    rw [swap, if_pos new]
    exact ⟨brightness, nodes, timed_startRound walk.apart.symm rfl built⟩
  · rw [swap, if_neg new]
    exact ⟨brightness, done ++ rest, timed_startRound walk.apart rfl walk.built⟩

theorem Sound.walk_tick (sound : Sound c s) :
    ∃ brightness done rest, Walk c brightness done rest (tick c s) := by
  by_cases last : s.TCNT = 255
  · obtain ⟨brightness, nodes, timed⟩ := sound.timed last
    exact ⟨brightness, [], nodes, timed.toWalk⟩
  · obtain ⟨brightness, done, rest, walk⟩ := sound.walk
    have counted : Walk c brightness done rest { s with TCNT := s.TCNT + 1 } :=
      ⟨walk.apart, walk.built, walk.current⟩
    rw [tick_of_ne last]
    split
    · exact ⟨_, _, _, counted.compare⟩
    · exact ⟨_, _, _, counted⟩

theorem Sound.tick (sound : Sound c s) : Sound c (tick c s) := by
  have unchanged (loop : SameLoop s (Stella.tick c s))
      (sync : (Stella.tick c s).stella_sync = s.stella_sync)
      (cal : (Stella.tick c s).cal_table = s.cal_table) : Sound c (Stella.tick c s) := by
    refine ⟨sound.walk_tick, ?_, ?_, ?_⟩
    · rw [sync, cal, loop.timetables]
      exact sound.handed
    · rw [sync, loop.main]
      exact sound.clearing
    · rw [sync, loop.main, loop.timetables, loop.brightness, cal]
      exact sound.sorting
  by_cases last : s.TCNT = 255
  · obtain ⟨loop, -, ⟨new, sync, -⟩ | ⟨-, sync, -, cal⟩⟩ := tick_overflow (c := c) last
    · refine ⟨sound.walk_tick, fun handed => ?_, fun _ => ?_, fun i main => ?_⟩
      · rw [sync] at handed
        cases handed
      · rw [sync]
        exact Sync.noConfusion
      · exact absurd new (sound.sorting i (loop.main ▸ main)).1
    · exact unchanged loop sync cal
  · obtain ⟨loop, -, sync, -, cal⟩ := tick_loop (c := c) last
    exact unchanged loop sync cal

theorem Sound.step (sound : Sound c s) (event : Event) : Sound c (step c s event) := by
  cases event with
  | process => exact sound.process
  | tick => exact sound.tick
  | setValue => exact sound.set rfl Event.noConfusion
  | setFading => exact sound.set rfl Event.noConfusion

/-! ## Changes -/

/-- The main loop does not lose a change. -/
theorem Pending.process (pending : Pending c s) (sound : Sound c s) : Pending c (process c s) := by
  rw [Stella.process]
  cases main : s.main with
  | idle =>
      rw [Pending, main] at pending
      dsimp only
      split
      · exact .inl pending
      · exact pending
  | fade i =>
      rw [Pending, main] at pending
      dsimp only
      split
      · next inside =>
          split
          · next same =>
              rcases pending with settled | sign | ⟨j, channel, from_i, apart⟩
              · exact .inl settled
              · exact .inr (.inl sign)
              · have other : i ≠ j := by
                  rintro rfl
                  exact apart same
                exact .inr (.inr ⟨j, channel, Nat.lt_of_le_of_ne from_i other, apart⟩)
          · exact .inr (.inl (by decide : (1 : UInt8) ≠ 0))
      · next outside =>
          rcases pending with settled | sign | ⟨j, channel, from_i, -⟩
          · exact .inl settled
          · exact .inr sign
          · exact absurd (from_i.trans_lt channel) outside
  | testCounter =>
      rw [Pending, main] at pending
      dsimp only
      split
      · trivial
      · next none => exact pending.resolve_right none
  | setSync => trivial
  | resetCounter =>
      rw [Pending, main] at pending
      exact pending
  | testSync =>
      rw [Pending, main] at pending
      dsimp only
      split
      · trivial
      · exact pending
  | clearTable => trivial
  | sort i =>
      dsimp only
      split
      · trivial
      · next outside => exact sound.complete main outside

theorem Settled.congr (settled : Settled c s)
    (brightness : other.stella_brightness = s.stella_brightness)
    (tables : other.timetables = s.timetables) (sync : other.stella_sync = s.stella_sync)
    (int : other.int_table = s.int_table) (cal : other.cal_table = s.cal_table) : Settled c other := by
  rw [Settled] at settled ⊢
  rwa [sync, tables, brightness, int, cal]

/-- What is set is settled: it requests an update, or it changes nothing that is shown. -/
theorem Pending.set (pending : Pending c s) (sound : Sound c s) {event : Event}
    (sets : event.isTick = false) (other : event ≠ .process) : Pending c (step c s event) := by
  by_cases idle : s.main = .idle
  · obtain ⟨_, _, _, walk⟩ := sound.walk
    have same : SameRound s (Stella.step c s event) := .step walk.apart sets
    obtain ⟨tables, main, shown⟩ := set_quiet (c := c) (s := s) sets other
    rw [Pending, idle] at pending
    rw [Pending, main, idle]
    rcases shown with ⟨sync, bright⟩ | ⟨-, sync⟩
    · exact pending.congr bright tables sync same.int_table same.cal_table
    · rw [Settled, sync]
      trivial
  · have same : step c s event = s := by
      cases event with
      | tick => cases sets
      | process => exact absurd rfl other
      | setFading => exact if_neg idle
      | setValue => exact if_neg idle
    rwa [same]

/-- The interrupts take a timetable, but they do not change what is settled. -/
theorem Settled.tick (settled : Settled c s) : Settled c (tick c s) := by
  by_cases last : s.TCNT = 255
  · obtain ⟨loop, -, ⟨new, sync, int, -⟩ | ⟨-, sync, int, cal⟩⟩ := tick_overflow (c := c) last
    · rw [Settled, new] at settled
      rw [Settled, sync]
      rw [loop.brightness, loop.timetables, int]
      exact settled
    · exact settled.congr loop.brightness loop.timetables sync int cal
  · obtain ⟨loop, -, sync, int, cal⟩ := tick_loop (c := c) last
    exact settled.congr loop.brightness loop.timetables sync int cal

theorem Fades.congr {i : Nat} (fades : Fades c s i) (loop : SameLoop s other) : Fades c other i := by
  rw [Fades, loop.brightness, loop.fade]
  exact fades

/-- The sign stays, or there is nothing to build that is not requested. -/
theorem sign_tick (sign : s.stella_fade_counter ≠ 0) (keeps : ¬Clears s) :
    Settled c (tick c s) ∨ (tick c s).stella_fade_counter ≠ 0 := by
  by_cases last : s.TCNT = 255
  · obtain ⟨-, counter, synced⟩ := tick_overflow (c := c) last
    by_cases update : s.stella_sync = .UPDATE_VALUES
    · refine .inl (Settled.tick ?_)
      rw [Settled, update]
      trivial
    · rw [counter, if_pos sign]
      have more : s.stella_fade_counter ≠ 1 := fun one => keeps ⟨last, one, update⟩
      exact .inr (by grind)
  · rw [(tick_loop (c := c) last).2.1]
    exact .inr sign

/-- A tick that keeps the sign does not lose a change. -/
theorem Pending.tick (pending : Pending c s) (keeps : KeepsSign c s s.main) : Pending c (tick c s) := by
  have loop : SameLoop s (Stella.tick c s) := by
    by_cases last : s.TCNT = 255
    · exact (tick_overflow last).1
    · exact (tick_loop last).1
  rw [Pending, loop.main]
  cases main : s.main with
  | fade i =>
      rw [Pending, main] at pending
      rw [main] at keeps
      rcases pending with settled | sign | fades
      · exact .inl settled.tick
      · by_cases clears : Clears s
        · exact .inr (.inr ((keeps clears).congr loop))
        · exact (sign_tick sign clears).imp_right .inl
      · exact .inr (.inr (fades.congr loop))
  | testCounter =>
      rw [Pending, main] at pending
      rw [main] at keeps
      rcases pending with settled | sign
      · exact .inl settled.tick
      · exact sign_tick sign keeps
  | idle =>
      rw [Pending, main] at pending
      exact pending.tick
  | resetCounter =>
      rw [Pending, main] at pending
      exact pending.tick
  | testSync =>
      rw [Pending, main] at pending
      exact pending.tick
  | setSync => trivial
  | clearTable => trivial
  | sort i => trivial

theorem Pending.step (pending : Pending c s) (sound : Sound c s) {event : Event}
    (keeps : InTime c s event) : Pending c (step c s event) := by
  cases event with
  | process => exact pending.process sound
  | tick => exact pending.tick (keeps rfl)
  | setValue => exact pending.set sound rfl Event.noConfusion
  | setFading => exact pending.set sound rfl Event.noConfusion

/-! ## Runs -/

theorem Sound.timely (sound : Sound c s) (pending : Pending c s) : Timely c s where
  walks := sound.walk
  rounds last := by
    obtain ⟨brightness, nodes, timed⟩ := sound.timed last
    exact ⟨brightness, timed.shows (tick_TCNT last)⟩
  settled idle none := by
    rw [Pending, idle, Settled, none] at pending
    exact pending

theorem complete_off (channel : Nat → Entry) : Complete c (fun _ => 0) ⟨channel, none, 0⟩ := by
  have off (n : Nat) : schedule c (fun _ => 0) n = [] ∧ always c (fun _ => 0) n = 0 := by
    induction n with
    | zero => exact ⟨rfl, rfl⟩
    | succ n ih =>
        have below : ¬(0 : UInt8) = 255 := by decide
        exact ⟨(if_pos (.inl rfl)).trans ih.1, (if_neg below).trans ih.2⟩
  obtain ⟨times, full⟩ := off c.STELLA_PINS
  exact ⟨[], ⟨rfl, List.nodup_nil, times.symm⟩, fun _ none => absurd none List.not_mem_nil, full.symm⟩

variable (c) (fade : Nat → UInt8) (func : FadeFunc) (speed : UInt8) (entries : Bool → Nat → Entry)
  (port : BitVec 8) (count compared : UInt8)

theorem sound_stellaInit : Sound c (stellaInit fade func speed entries port count compared) := by
  obtain ⟨nodes, built⟩ := complete_off (c := c) (entries false)
  exact ⟨⟨_, [], nodes, Bool.false_ne_true, built,
    congrArg (Option.map fun k => (false, k)) built.visits.start_eq⟩, Sync.noConfusion,
    fun _ => Sync.noConfusion, fun _ => Main.noConfusion⟩

/-- As long as the sign of the fading is not cleared between the last change and the test, the pins
show complete timetables, and no change is lost. -/
theorem timely_of_eachMeets (events : List Event)
    (keeps : EachMeets (step c) (InTime c) (stellaInit fade func speed entries port count compared)
      events) :
    Timely c (events.foldl (step c) (stellaInit fade func speed entries port count compared)) := by
  have kept (state : State) (event : Event) (inv : Sound c state ∧ Pending c state)
      (keeps : InTime c state event) :
      Sound c (step c state event) ∧ Pending c (step c state event) :=
    ⟨inv.1.step event, inv.2.step inv.1 keeps⟩
  obtain ⟨sound, pending⟩ := keeps.invariant kept ⟨sound_stellaInit c .., trivial⟩
  exact sound.timely pending

/-- One channel is to be faded, and an overflow comes in between. -/
def oneChannel : Config := ⟨1, 0, by decide⟩

def dark : State := stellaInit (fun _ => 100) .normal 0 (fun _ _ => ⟨0, 0, none⟩) 0 255 0

def fading (before after : Nat) : List Event :=
  List.replicate before .process ++ .tick :: List.replicate after .process

/-- The overflow comes after the test. -/
theorem timely_of_eachMeets_tested : Timely oneChannel ((fading 7 6).foldl (step oneChannel) dark) :=
  timely_of_eachMeets oneChannel (fun _ => 100) .normal 0 (fun _ _ => ⟨0, 0, none⟩) 0 255 0 (fading 7 6)
    (by decide)

/-- The overflow comes between the change and the test, and the pin stays off. -/
theorem not_timely :
    ¬∀ (c : Config) (fade : Nat → UInt8) (func : FadeFunc) (speed : UInt8) (entries : Bool → Nat → Entry)
      (port : BitVec 8) (count compared : UInt8) (events : List Event),
      Timely c (events.foldl (step c) (stellaInit fade func speed entries port count compared)) := by
  intro always
  have timely : Timely oneChannel ((fading 5 4).foldl (step oneChannel) dark) := always ..
  obtain ⟨nodes, built⟩ := timely.settled (by decide) (by decide)
  have first := built.visits.start_eq
  rw [show (((fading 5 4).foldl (step oneChannel) dark).timetables
    ((fading 5 4).foldl (step oneChannel) dark).int_table).head = none by decide] at first
  have empty := built.entries
  rw [List.head?_eq_none_iff.mp first.symm] at empty
  exact absurd (congrArg List.length empty) (by decide)

end Ethersex.Stella
