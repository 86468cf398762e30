import Ethersex.Stella.Table

/-!
# Rounds

The interrupts follow the links of their timetable.  In a round, the moments of the entries behind
them have passed and their pins are on, together with those that are always on.  Whatever the main
loop does in between, a pin is on for as many ticks as its brightness says.
-/

namespace Ethersex.Stella

open Ethersex.Library

/-! ## What a pin shows -/

/-- With this brightness, a pin is on after so many ticks of a round. -/
def onAt (brightness : UInt8) (time : Nat) : Bool := brightness = 255 ∨ 256 ≤ time + brightness.toNat

/-- The ticks of a round in which a pin is on. -/
def shown (brightness : UInt8) : Nat := if brightness = 255 then 256 else brightness.toNat

def Event.isTick : Event → Bool
  | .tick => true
  | _ => false

/-- The ticks of a run. -/
def ticks (events : List Event) : Nat := events.countP Event.isTick

section Config

variable (c : Config)

/-- In how many ticks of a run a pin is on. -/
def onTicks (pin : Nat) : State → List Event → Nat
  | _, [] => 0
  | s, event :: rest =>
      (if event.isTick && s.STELLA_PORT.getLsbD pin then 1 else 0) + onTicks pin (step c s event) rest

/-- A timetable is complete. -/
def Complete (brightness : Nat → UInt8) (table : Timetable) : Prop :=
  ∃ nodes, Built c brightness c.STELLA_PINS table nodes

/-- The pins of the next round show these brightnesses, which are those of the active timetable. -/
structure Shows (brightness : Nat → UInt8) (s : State) : Prop where
  active : Complete c brightness (s.timetables s.int_table)
  pins : ∀ i < c.STELLA_PINS, ∀ part, ticks part < 256 →
    (part.foldl (step c) s).STELLA_PORT.getLsbD (i + c.STELLA_OFFSET) = onAt (brightness i) (ticks part)
  count : ∀ i < c.STELLA_PINS, ∀ round, ticks round = 256 →
    onTicks c (i + c.STELLA_OFFSET) s round = shown (brightness i)

/-! ## The walk -/

/-- The interrupts have left some entries of their timetable behind. -/
structure Walk (brightness : Nat → UInt8) (done rest : List Nat) (s : State) : Prop where
  apart : s.int_table ≠ s.cal_table
  built : Built c brightness c.STELLA_PINS (s.timetables s.int_table) (done ++ rest)
  current : s.current = rest.head?.map (s.int_table, ·)

/-- In a round, what is behind has passed and what is ahead is to come. -/
structure Timed (brightness : Nat → UInt8) (done rest : List Nat) (s : State) : Prop
    extends Walk c brightness done rest s where
  pins : ∀ i < c.STELLA_PINS, s.STELLA_PORT.getLsbD (i + c.STELLA_OFFSET) = true ↔
    (always c brightness c.STELLA_PINS).getLsbD (i + c.STELLA_OFFSET) = true ∨
      ∃ k ∈ done, ((s.timetables s.int_table).entry k).2.getLsbD (i + c.STELLA_OFFSET) = true
  past : ∀ k ∈ done, ((s.timetables s.int_table).entry k).1 < s.TCNT
  ahead : ∀ k ∈ rest.head?, s.OCR = ((s.timetables s.int_table).entry k).1 ∧ s.TCNT ≤ s.OCR

end Config

variable {c : Config} {brightness : Nat → UInt8} {done rest nodes : List Nat} {s other : State}

/-! ## The main loop -/

/-- What the interrupts work with is the same. -/
structure SameRound (s other : State) : Prop where
  int_table : other.int_table = s.int_table
  cal_table : other.cal_table = s.cal_table
  active : other.timetables other.int_table = s.timetables s.int_table
  current : other.current = s.current
  port : other.STELLA_PORT = s.STELLA_PORT
  count : other.TCNT = s.TCNT
  compared : other.OCR = s.OCR

theorem SameRound.build (apart : s.int_table ≠ s.cal_table) (change : Timetable → Timetable)
    (main : Main) : SameRound s { s.build change with main } :=
  ⟨rfl, rfl, Function.update_of_ne apart .., rfl, rfl, rfl, rfl⟩

/-- The main loop leaves the interrupts alone. -/
theorem SameRound.step (apart : s.int_table ≠ s.cal_table) {event : Event}
    (main : event.isTick = false) : SameRound s (step c s event) := by
  cases event with
  | tick => cases main
  | setFading =>
      rw [Stella.step]
      split <;> exact ⟨rfl, rfl, rfl, rfl, rfl, rfl, rfl⟩
  | setValue func =>
      rw [Stella.step, stellaSetValue]
      split
      · split
        · exact ⟨rfl, rfl, rfl, rfl, rfl, rfl, rfl⟩
        · cases func <;> exact ⟨rfl, rfl, rfl, rfl, rfl, rfl, rfl⟩
      · exact ⟨rfl, rfl, rfl, rfl, rfl, rfl, rfl⟩
  | process =>
      rw [Stella.step, process]
      split
      case h_7 => exact .build apart ..
      case h_8 =>
        split
        · exact .build apart ..
        · exact ⟨rfl, rfl, rfl, rfl, rfl, rfl, rfl⟩
      case h_2 =>
        split
        · split <;> exact ⟨rfl, rfl, rfl, rfl, rfl, rfl, rfl⟩
        · exact ⟨rfl, rfl, rfl, rfl, rfl, rfl, rfl⟩
      all_goals exact ⟨rfl, rfl, rfl, rfl, rfl, rfl, rfl⟩

theorem Walk.congr (walk : Walk c brightness done rest s) (same : SameRound s other) :
    Walk c brightness done rest other where
  apart := by
    rw [same.int_table, same.cal_table]
    exact walk.apart
  built := by
    rw [same.active]
    exact walk.built
  current := by
    rw [same.current, same.int_table]
    exact walk.current

theorem Timed.congr (timed : Timed c brightness done rest s) (same : SameRound s other) :
    Timed c brightness done rest other := by
  refine { timed.toWalk.congr same with pins := ?_, past := ?_, ahead := ?_ }
  · rw [same.port, same.active]
    exact timed.pins
  · rw [same.count, same.active]
    exact timed.past
  · rw [same.compared, same.count, same.active]
    exact timed.ahead

/-! ## The interrupts -/

/-- The compare interrupt leaves the current entry behind. -/
theorem Walk.compare (walk : Walk c brightness done rest s) :
    Walk c brightness (done ++ rest.take 1) (rest.drop 1) (compare s) := by
  cases rest with
  | nil =>
      have none : s.current = none := walk.current
      rw [Stella.compare, none]
      simpa using walk
  | cons k rest =>
      have here : s.current = some (s.int_table, k) := walk.current
      obtain ⟨_, -, -, behind⟩ := visits_append.mp walk.built.visits
      rw [Stella.compare, here]
      refine ⟨walk.apart, ?_, ?_⟩
      · simpa using walk.built
      · exact congrArg (Option.map _) behind.start_eq

theorem compare_TCNT (s : State) : (Stella.compare s).TCNT = s.TCNT := by
  rw [Stella.compare]
  split <;> rfl

/-- A tick without an overflow. -/
theorem tick_of_ne (inside : s.TCNT ≠ 255) :
    tick c s =
      if s.TCNT = s.OCR then Stella.compare { s with TCNT := s.TCNT + 1 }
      else { s with TCNT := s.TCNT + 1 } := by
  have positive : s.TCNT + 1 ≠ 0 := by grind
  by_cases matched : s.TCNT = s.OCR
  · rw [if_pos matched, tick, if_pos matched]
    exact if_neg (by rwa [compare_TCNT])
  · rw [if_neg matched, tick, if_neg matched]
    exact if_neg positive

/-- A tick with an overflow. -/
theorem tick_of_eq (last : s.TCNT = 255) : ∃ port current compared,
    tick c s = overflow c { s with
      TCNT := 0
      STELLA_PORT := port
      current := current
      OCR := compared } := by
  have zero : s.TCNT + 1 = 0 := by
    rw [last]
    rfl
  rw [tick, zero]
  split
  · rw [if_pos (compare_TCNT _), Stella.compare]
    split <;> exact ⟨_, _, _, rfl⟩
  · exact ⟨_, _, _, if_pos rfl⟩

/-- The moments come in the order of the links. -/
theorem Represents.ordered {table : Timetable} {n : Nat}
    (represents : Represents table (schedule c brightness n) nodes) :
    nodes.Pairwise fun k later => (table.entry k).1 < (table.entry later).1 := by
  have sorted : (schedule c brightness n).Pairwise (·.1 < ·.1) := schedule_sorted n
  rwa [← represents.entries, List.pairwise_map] at sorted

theorem toNat_succ {count : UInt8} (inside : count ≠ 255) : (count + 1).toNat = count.toNat + 1 := by
  have small := count.toNat_lt
  have other : count.toNat ≠ 255 := fun same => inside (UInt8.toNat_inj.mp same)
  rw [UInt8.toNat_add]
  change (count.toNat + 1) % 256 = _
  omega

theorem lt_succ {count : UInt8} (inside : count ≠ 255) : count < count + 1 := by
  rw [UInt8.lt_iff_toNat_lt, toNat_succ inside]
  exact Nat.lt_succ_self _

theorem succ_le_of_lt {count moment : UInt8} (less : count < moment) : count + 1 ≤ moment := by
  rw [UInt8.lt_iff_toNat_lt] at less
  have inside : count ≠ 255 := by
    rintro rfl
    exact absurd less (Nat.not_lt.mpr (Nat.le_of_lt_succ moment.toNat_lt))
  rwa [UInt8.le_iff_toNat_le, toNat_succ inside]

/-- The compare interrupt comes when the moment of the current entry has just passed. -/
theorem Timed.compare (timed : Timed c brightness done rest s) (matched : s.TCNT = s.OCR)
    (inside : s.TCNT ≠ 255) :
    Timed c brightness (done ++ rest.take 1) (rest.drop 1)
      (Stella.compare { s with TCNT := s.TCNT + 1 }) := by
  have walk : Walk c brightness done rest { s with TCNT := s.TCNT + 1 } :=
    ⟨timed.apart, timed.built, timed.current⟩
  have passed (k : Nat) (behind : k ∈ done) :
      ((s.timetables s.int_table).entry k).1 < s.TCNT + 1 :=
    Std.lt_trans (timed.past k behind) (lt_succ inside)
  have walked := walk.compare
  cases rest with
  | nil =>
      have none : s.current = none := timed.current
      rw [Stella.compare, none] at walked ⊢
      rw [List.take_nil, List.append_nil] at walked ⊢
      exact ⟨walked, timed.pins, passed, fun k first => absurd first (Option.not_mem_none k)⟩
  | cons k rest =>
      have here : s.current = some (s.int_table, k) := timed.current
      obtain ⟨same, -⟩ := timed.ahead k rfl
      rw [Stella.compare, here] at walked ⊢
      refine ⟨walked, fun i inside => ?_, ?_, fun after first => ?_⟩
      · simp only [List.take_succ_cons, List.take_zero, List.mem_append, List.mem_singleton,
          or_and_right, exists_or, exists_eq_left]
        rw [BitVec.getLsbD_or, Bool.or_eq_true, timed.pins i inside, or_assoc]
        rfl
      · rw [List.take_succ_cons, List.take_zero, List.forall_mem_append]
        refine ⟨passed, fun last behind => ?_⟩
        rw [List.mem_singleton.mp behind, ← same, ← matched]
        exact lt_succ inside
      · obtain ⟨_, -, -, behind⟩ := visits_append.mp timed.built.visits
        have linked : ((s.timetables s.int_table).channel k).next = some after :=
          behind.start_eq.trans first
        have compared : (((s.timetables s.int_table).channel k).next.elim s.OCR fun k =>
            ((s.timetables s.int_table).channel k).value) =
            ((s.timetables s.int_table).entry after).1 := by rw [linked]; rfl
        refine ⟨compared, ?_⟩
        have ordered :
            ((s.timetables s.int_table).entry k).1 < ((s.timetables s.int_table).entry after).1 :=
          (List.pairwise_cons.mp (List.pairwise_append.mp timed.built.ordered).2.1).1 after
            (List.mem_of_mem_head? first)
        rw [← same, ← matched] at ordered
        exact (succ_le_of_lt ordered).trans_eq compared.symm

/-- A tick goes on with the round. -/
theorem Timed.tick (timed : Timed c brightness done rest s) (inside : s.TCNT ≠ 255) :
    (∃ done rest, Timed c brightness done rest (tick c s)) ∧
      (Stella.tick c s).TCNT.toNat = s.TCNT.toNat + 1 := by
  rw [tick_of_ne inside]
  split
  · next matched => exact ⟨⟨_, _, timed.compare matched inside⟩, by rw [compare_TCNT, toNat_succ inside]⟩
  · next apart =>
      refine ⟨⟨done, rest, ⟨⟨timed.apart, timed.built, timed.current⟩, timed.pins, fun k passed => ?_,
        fun k first => ?_⟩⟩, toNat_succ inside⟩
      · exact Std.lt_trans (timed.past k passed) (lt_succ inside)
      · obtain ⟨same, above⟩ := timed.ahead k first
        exact ⟨same, succ_le_of_lt (Std.lt_of_le_of_ne above apart)⟩

theorem stella_portmask_neg_getLsbD {i : Nat} (inside : i < c.STELLA_PINS) :
    (stella_portmask_neg c).getLsbD (i + c.STELLA_OFFSET) = false := by
  have small : i + c.STELLA_OFFSET < 8 := by
    have := c.fits
    omega
  have included : (BitVec.ofNat 8 (2 ^ c.STELLA_PINS - 1)).getLsbD i = true := by
    rw [BitVec.getLsbD_ofNat, Nat.testBit_two_pow_sub_one, decide_eq_true inside, Bool.and_true]
    exact decide_eq_true (by omega)
  simp [stella_portmask_neg, small, included]

/-- A round starts with all entries ahead. -/
theorem timed_startRound (apart : s.int_table ≠ s.cal_table) (zero : s.TCNT = 0)
    (built : Built c brightness c.STELLA_PINS (s.timetables s.int_table) nodes) :
    Timed c brightness [] nodes (startRound c s) := by
  have first := built.visits.start_eq
  refine ⟨⟨apart, built, ?_⟩, fun i inside => ?_, fun k none => absurd none List.not_mem_nil, ?_⟩
  · exact congrArg (Option.map _) first
  · have full : (s.timetables s.int_table).portmask = always c brightness c.STELLA_PINS := built.full
    simp [startRound, full, stella_portmask_neg_getLsbD inside]
  · intro k front
    have here : (s.timetables s.int_table).head = some k := first.trans front
    have compared : (startRound c s).OCR = ((s.timetables s.int_table).entry k).1 := by
      simp [startRound, here, Timetable.entry]
    refine ⟨compared, ?_⟩
    rw [show (startRound c s).TCNT = s.TCNT from rfl, zero]
    exact UInt8.zero_le

/-! ## Pins -/

theorem toNat_moment (brightness : UInt8) : (255 - brightness).toNat = 255 - brightness.toNat :=
  UInt8.toNat_sub_of_le _ _ (UInt8.le_iff_toNat_le.mpr (Nat.le_of_lt_succ brightness.toNat_lt))

/-- All moments ahead are to come. -/
theorem Timed.le_of_mem (timed : Timed c brightness done rest s) {k : Nat} (later : k ∈ rest) :
    s.TCNT ≤ ((s.timetables s.int_table).entry k).1 := by
  cases rest with
  | nil => exact absurd later List.not_mem_nil
  | cons first rest =>
      obtain ⟨same, above⟩ := timed.ahead first rfl
      rw [same] at above
      rcases List.mem_cons.mp later with rfl | behind
      · exact above
      · have ordered := (List.pairwise_append.mp timed.built.ordered).2.1
        exact Std.le_trans above (Std.le_of_lt ((List.pairwise_cons.mp ordered).1 k behind))

/-- The pin of a channel is on when its moment has passed. -/
theorem Timed.port (timed : Timed c brightness done rest s) {i : Nat} (inside : i < c.STELLA_PINS) :
    s.STELLA_PORT.getLsbD (i + c.STELLA_OFFSET) = onAt (brightness i) s.TCNT.toNat := by
  have small : i + c.STELLA_OFFSET < 8 := by
    have := c.fits
    omega
  rw [Bool.eq_iff_iff, timed.pins i inside, always_getLsbD small, onAt, decide_eq_true_iff]
  have moment := toNat_moment (brightness i)
  have count := s.TCNT.toNat_lt
  constructor
  · rintro (⟨j, -, full, same⟩ | ⟨k, behind, pin⟩)
    · rw [Nat.add_right_cancel same] at full
      exact .inl full
    · have member : (s.timetables s.int_table).entry k ∈ schedule c brightness c.STELLA_PINS := by
        rw [← timed.built.entries]
        exact List.mem_map_of_mem (List.mem_append_left rest behind)
      obtain ⟨j, -, -, -, at_moment, same⟩ := (switches_schedule small).mp ⟨_, member, rfl, pin⟩
      rw [Nat.add_right_cancel same] at at_moment
      have passed := timed.past k behind
      rw [← at_moment, UInt8.lt_iff_toNat_lt, moment] at passed
      exact .inr (by omega)
  · intro lit
    by_cases full : brightness i = 255
    · exact .inl ⟨i, inside, full, rfl⟩
    have passed : 256 ≤ s.TCNT.toNat + (brightness i).toNat := lit.resolve_left full
    have off : brightness i ≠ 0 := by
      intro zero
      rw [zero] at passed
      exact absurd passed (Nat.not_le.mpr count)
    obtain ⟨entry, member, at_moment, pin⟩ :=
      (switches_schedule (c := c) small).mpr ⟨i, inside, off, full, rfl, rfl⟩
    rw [← timed.built.entries] at member
    obtain ⟨k, linked, rfl⟩ := List.mem_map.mp member
    refine .inr ⟨k, (List.mem_append.mp linked).resolve_right fun later => ?_, pin⟩
    have above := timed.le_of_mem later
    have bound := (brightness i).toNat_lt
    rw [at_moment, UInt8.le_iff_toNat_le, moment] at above
    omega

theorem ticks_cons (event : Event) (events : List Event) :
    ticks (event :: events) = ticks events + if event.isTick then 1 else 0 := List.countP_cons

/-- A step goes on with the round. -/
theorem Timed.step (timed : Timed c brightness done rest s) {event : Event}
    (inside : event.isTick = true → s.TCNT ≠ 255) :
    (∃ done rest, Timed c brightness done rest (step c s event)) ∧
      (Stella.step c s event).TCNT.toNat = s.TCNT.toNat + if event.isTick then 1 else 0 := by
  cases tick : event.isTick with
  | true =>
      cases event with
      | tick => exact timed.tick (inside rfl)
      | process => cases tick
      | setValue => cases tick
      | setFading => cases tick
  | false =>
      have same : SameRound s (Stella.step c s event) := .step timed.apart tick
      exact ⟨⟨done, rest, timed.congr same⟩, congrArg UInt8.toNat same.count⟩

theorem ne_of_room {events : List Event} {event : Event} (count : UInt8)
    (room : count.toNat + ticks (event :: events) < 256) (tick : event.isTick = true) : count ≠ 255 := by
  rintro rfl
  rw [ticks_cons, if_pos tick] at room
  exact absurd room (by rw [show (255 : UInt8).toNat = 255 from rfl]; omega)

/-- A part of the round that is left. -/
theorem Timed.part (timed : Timed c brightness done rest s) {events : List Event}
    (room : s.TCNT.toNat + ticks events < 256) :
    (∃ done rest, Timed c brightness done rest (events.foldl (Stella.step c) s)) ∧
      (events.foldl (Stella.step c) s).TCNT.toNat = s.TCNT.toNat + ticks events := by
  induction events generalizing s done rest with
  | nil => exact ⟨⟨done, rest, timed⟩, rfl⟩
  | cons event events ih =>
      obtain ⟨⟨_, _, next⟩, count⟩ := timed.step (ne_of_room _ room)
      rw [ticks_cons] at room ⊢
      obtain ⟨last, total⟩ := ih next (by omega)
      exact ⟨last, by rw [List.foldl_cons]; omega⟩

theorem onTicks_eq_zero (pin : Nat) {events : List Event} (none : ticks events = 0) :
    onTicks c pin s events = 0 := by
  induction events generalizing s with
  | nil => rfl
  | cons event events ih =>
      rw [ticks_cons] at none
      have main : event.isTick = false := by
        by_contra tick
        rw [if_pos (Bool.eq_true_of_not_eq_false tick)] at none
        omega
      rw [onTicks, main, ih (by omega)]
      rfl

/-- The ticks of the rest of a round in which the pin of a channel is on. -/
theorem Timed.onTicks_eq (timed : Timed c brightness done rest s) {i : Nat} (inside : i < c.STELLA_PINS)
    {events : List Event} (room : s.TCNT.toNat + ticks events ≤ 256) :
    onTicks c (i + c.STELLA_OFFSET) s events =
      (List.range' s.TCNT.toNat (ticks events)).countP (onAt (brightness i)) := by
  induction events generalizing s done rest with
  | nil => rfl
  | cons event events ih =>
      rw [onTicks, timed.port inside]
      rw [ticks_cons] at room ⊢
      by_cases last : event.isTick = true ∧ s.TCNT = 255
      · obtain ⟨tick, full⟩ := last
        rw [tick, if_pos rfl, full] at room ⊢
        have none : ticks events = 0 := by
          rw [show (255 : UInt8).toNat = 255 from rfl] at room
          omega
        rw [onTicks_eq_zero _ none, none, Nat.zero_add, List.range'_one, List.countP_singleton]
        rfl
      · have earlier : event.isTick = true → s.TCNT ≠ 255 := fun tick full => last ⟨tick, full⟩
        obtain ⟨⟨_, _, next⟩, count⟩ := timed.step earlier
        rw [ih next (by omega), count]
        cases event.isTick with
        | false => simp
        | true =>
            rw [if_pos rfl, List.range'_succ, List.countP_cons, Bool.true_and, Nat.add_comm]

theorem countP_onAt (brightness : UInt8) (time count : Nat) :
    (List.range' time count).countP (onAt brightness) =
      if brightness = 255 then count else time + count - max time (256 - brightness.toNat) := by
  induction count generalizing time with
  | zero => simp
  | succ count ih =>
      rw [List.range'_succ, List.countP_cons, ih]
      by_cases full : brightness = 255
      · simp [full, onAt]
      · simp only [full, onAt, false_or, if_false, decide_eq_true_iff]
        split <;> omega

theorem countP_onAt_round (brightness : UInt8) :
    (List.range' 0 256).countP (onAt brightness) = shown brightness := by
  have small := brightness.toNat_lt
  rw [countP_onAt, shown]
  split
  · rfl
  · omega

/-- What a round shows. -/
theorem Timed.shows (timed : Timed c brightness [] nodes s) (zero : s.TCNT = 0) :
    Shows c brightness s := by
  have start : s.TCNT.toNat = 0 := congrArg UInt8.toNat zero
  refine ⟨⟨nodes, timed.built⟩, fun i inside part short => ?_, fun i inside round full => ?_⟩
  · have room : s.TCNT.toNat + ticks part < 256 := by omega
    obtain ⟨⟨_, _, reached⟩, count⟩ := timed.part room
    rw [reached.port inside, count, start, Nat.zero_add]
  · rw [timed.onTicks_eq inside (by omega), start, full]
    exact countP_onAt_round _

end Ethersex.Stella
