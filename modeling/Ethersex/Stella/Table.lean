import Mathlib
import Ethersex.Stella.Model
import Ethersex.Library.Chain

/-!
# What a timetable says

`stella_sort` links the entries of the channels in the order of their values.  Channels with the
same value share one entry; those that are never or always on have none.
-/

namespace Ethersex.Stella

open Ethersex.Library

/-! ## Schedules -/

/-- Moments and the pins that are switched on then. -/
abbrev Schedule := List (UInt8 × BitVec 8)

/-- A moment for more pins. -/
def insertEntry (value : UInt8) (mask : BitVec 8) : Schedule → Schedule
  | [] => [(value, mask)]
  | (other, pins) :: rest =>
      if other = value then (other, pins ||| mask) :: rest
      else if other > value then (value, mask) :: (other, pins) :: rest
      else (other, pins) :: insertEntry value mask rest

section Config

variable (c : Config) (brightness : Nat → UInt8)

/-- The moments of the first channels. -/
def schedule : Nat → Schedule
  | 0 => []
  | i + 1 =>
      if brightness i = 0 ∨ brightness i = 255 then schedule i
      else insertEntry (255 - brightness i) (bit (i + c.STELLA_OFFSET)) (schedule i)

/-- Those of the first channels that are always on. -/
def always : Nat → BitVec 8
  | 0 => 0
  | i + 1 => if brightness i = 255 then always i ||| bit (i + c.STELLA_OFFSET) else always i

end Config

/-- A pin is switched on at a moment. -/
def Switches (times : Schedule) (value : UInt8) (pin : Nat) : Prop :=
  ∃ entry ∈ times, entry.1 = value ∧ entry.2.getLsbD pin = true

variable {c : Config} {brightness : Nat → UInt8} {times : Schedule}

theorem mem_insertEntry {value : UInt8} {mask : BitVec 8} {entry : UInt8 × BitVec 8}
    (member : entry ∈ insertEntry value mask times) :
    entry.1 = value ∨ ∃ old ∈ times, entry.1 = old.1 := by
  induction times with
  | nil => exact .inl (congrArg Prod.fst (List.mem_singleton.mp member))
  | cons first rest ih =>
      rw [insertEntry] at member
      split at member
      · rcases List.mem_cons.mp member with rfl | later
        · exact .inr ⟨first, List.mem_cons_self, rfl⟩
        · exact .inr ⟨entry, List.mem_cons_of_mem _ later, rfl⟩
      · split at member
        · rcases List.mem_cons.mp member with rfl | later
          · exact .inl rfl
          · exact .inr ⟨entry, later, rfl⟩
        · rcases List.mem_cons.mp member with rfl | later
          · exact .inr ⟨first, List.mem_cons_self, rfl⟩
          · exact (ih later).imp_right fun ⟨old, inside, same⟩ =>
              ⟨old, List.mem_cons_of_mem _ inside, same⟩

theorem insertEntry_sorted (sorted : times.Pairwise (·.1 < ·.1)) (value : UInt8) (mask : BitVec 8) :
    (insertEntry value mask times).Pairwise (·.1 < ·.1) := by
  induction times with
  | nil => exact List.pairwise_singleton _ _
  | cons first rest ih =>
      obtain ⟨above, sorted⟩ := List.pairwise_cons.mp sorted
      rw [insertEntry]
      split
      · exact List.pairwise_cons.mpr ⟨above, sorted⟩
      · next apart =>
          split
          · next greater =>
              refine List.pairwise_cons.mpr
                ⟨fun entry member => ?_, List.pairwise_cons.mpr ⟨above, sorted⟩⟩
              rcases List.mem_cons.mp member with rfl | later
              · exact greater
              · exact Std.lt_trans greater (above entry later)
          · next less =>
              refine List.pairwise_cons.mpr ⟨fun entry member => ?_, ih sorted⟩
              rcases mem_insertEntry member with same | ⟨old, inside, same⟩
              · rw [same]
                exact Std.lt_of_le_of_ne (Std.not_lt.mp less) apart
              · rw [same]
                exact above old inside

theorem switches_insertEntry {value moment : UInt8} {mask : BitVec 8} {pin : Nat} :
    Switches (insertEntry value mask times) moment pin ↔
      Switches times moment pin ∨ value = moment ∧ mask.getLsbD pin = true := by
  induction times with
  | nil => simp [Switches, insertEntry]
  | cons first rest ih =>
      obtain ⟨other, pins⟩ := first
      rw [insertEntry]
      split
      · next same =>
          subst same
          simp only [Switches, List.exists_mem_cons_iff, BitVec.getLsbD_or, Bool.or_eq_true]
          grind
      · split
        · simp only [Switches, List.exists_mem_cons_iff]
          grind
        · simp only [Switches, List.exists_mem_cons_iff] at ih ⊢
          rw [ih]
          grind

theorem schedule_sorted (n : Nat) : (schedule c brightness n).Pairwise (·.1 < ·.1) := by
  induction n with
  | zero => exact List.Pairwise.nil
  | succ n ih =>
      rw [schedule]
      split
      · exact ih
      · exact insertEntry_sorted ih ..

/-- The pin of a channel has its moment. -/
theorem switches_schedule {n : Nat} {moment : UInt8} {pin : Nat} (inside : pin < 8) :
    Switches (schedule c brightness n) moment pin ↔
      ∃ i < n, brightness i ≠ 0 ∧ brightness i ≠ 255 ∧ 255 - brightness i = moment ∧
        i + c.STELLA_OFFSET = pin := by
  induction n with
  | zero => simp [Switches, schedule]
  | succ n ih =>
      simp only [Nat.lt_succ_iff_lt_or_eq, or_and_right, exists_or, exists_eq_left]
      rw [schedule]
      split
      · next special =>
          rw [ih]
          grind
      · next usual =>
          rw [switches_insertEntry, ih, bit, BitVec.getLsbD_twoPow]
          grind

theorem always_getLsbD {n pin : Nat} (inside : pin < 8) :
    (always c brightness n).getLsbD pin = true ↔
      ∃ i < n, brightness i = 255 ∧ i + c.STELLA_OFFSET = pin := by
  induction n with
  | zero => simp [always]
  | succ n ih =>
      simp only [Nat.lt_succ_iff_lt_or_eq, or_and_right, exists_or, exists_eq_left]
      rw [always]
      split
      · rw [BitVec.getLsbD_or, Bool.or_eq_true, ih, bit, BitVec.getLsbD_twoPow]
        grind
      · rw [ih]
        grind

/-! ## Timetables -/

namespace Timetable

variable {table : Timetable} {k : Nat}

def next (table : Timetable) (k : Nat) : Option Nat := (table.channel k).next

/-- The moment of an entry, and its pins. -/
def entry (table : Timetable) (k : Nat) : UInt8 × BitVec 8 :=
  ((table.channel k).value, (table.channel k).portmask)

theorem next_write (table : Timetable) (k : Nat) (entry : Entry) :
    (table.write k entry).next = Function.update table.next k entry.next := by
  funext other
  by_cases same : other = k
  · simp [next, write, same]
  · simp [next, write, same]

theorem next_link (table : Timetable) (k : Nat) (link : Option Nat) :
    (table.link k link).next = Function.update table.next k link := next_write ..

theorem entry_write_of_ne {other : Nat} (apart : other ≠ k) (entry : Entry) :
    (table.write k entry).entry other = table.entry other := by
  simp [Timetable.entry, write, apart]

theorem entry_link (table : Timetable) (k : Nat) (link : Option Nat) :
    (table.link k link).entry = table.entry := by
  funext other
  by_cases same : other = k
  · simp [Timetable.entry, Timetable.link, write, same]
  · exact entry_write_of_ne same _

end Timetable

/-- The timetable links the first entries as the schedule says. -/
structure Represents (table : Timetable) (times : Schedule) (nodes : List Nat) : Prop where
  visits : Visits table.next table.head nodes none
  nodup : nodes.Nodup
  entries : nodes.map table.entry = times

/-- The entry of a new channel, in a table that does not link it. -/
structure Fresh (table : Timetable) (nodes : List Nat) (i : Nat) (value : UInt8) (mask : BitVec 8) :
    Prop where
  outside : i ∉ nodes
  entry : table.entry i = (value, mask)
  next : table.next i = none

section Loop

variable {table : Timetable} {i current : Nat} {before rest : List Nat} {value : UInt8} {mask : BitVec 8}

/-- The entry is inserted in front of the current one, which is the first or behind another one. -/
theorem insert_before (represents : Represents table times (before ++ current :: rest))
    (fresh : Fresh table (before ++ current :: rest) i value mask) :
    Represents
      (match before.getLast? with
      | none => { table.link i table.head with head := some i }
      | some last => (table.link i (table.channel last).next).link last (some i))
      (before.map table.entry ++ (value, mask) :: (current :: rest).map table.entry)
      (before ++ i :: current :: rest) := by
  rcases List.eq_nil_or_concat' before with rfl | ⟨front, last, rfl⟩
  · have nodup := List.nodup_cons.mpr ⟨fresh.outside, represents.nodup⟩
    refine ⟨?_, nodup, ?_⟩
    · show Visits (table.link i table.head).next (some i) _ none
      rw [Timetable.next_link]
      exact represents.visits.insertFront fresh.outside
    · show (i :: current :: rest).map (table.link i table.head).entry = _
      rw [Timetable.entry_link, List.map_cons, fresh.entry]
      rfl
  · have visits := represents.visits
    have nodup := represents.nodup
    have outside := fresh.outside
    rw [List.append_assoc, List.singleton_append] at visits nodup outside ⊢
    rw [List.getLast?_concat]
    refine ⟨?_, ?_, ?_⟩
    · show Visits ((table.link i (table.next last)).link last (some i)).next table.head _ none
      rw [Timetable.next_link, Timetable.next_link]
      exact visits.insertBehind nodup outside
    · have moved : (front ++ last :: i :: current :: rest).Perm
          (i :: (front ++ last :: current :: rest)) := by
        rw [← List.singleton_append, ← List.append_assoc]
        refine (@List.perm_middle _ _ (front ++ [last]) _).trans ?_
        rw [List.append_assoc, List.singleton_append]
      exact moved.nodup_iff.mpr (List.nodup_cons.mpr ⟨outside, nodup⟩)
    · show (front ++ last :: i :: current :: rest).map
        ((table.link i (table.next last)).link last (some i)).entry = _
      rw [Timetable.entry_link, Timetable.entry_link]
      simp [fresh.entry]

/-- The current entry is the last one, and the new one follows it. -/
theorem insert_last (represents : Represents table times (before ++ [current]))
    (fresh : Fresh table (before ++ [current]) i value mask) :
    Represents (table.link current (some i)) ((before ++ [current]).map table.entry ++ [(value, mask)])
      (before ++ [current, i]) := by
  have unlinked : Function.update table.next i (table.next current) = table.next := by
    obtain ⟨_, -, -, last⟩ := visits_append.mp represents.visits
    rw [show table.next current = none from last, ← fresh.next, Function.update_eq_self]
  have visits := represents.visits.insertBehind represents.nodup fresh.outside
  rw [unlinked] at visits
  refine ⟨?_, ?_, ?_⟩
  · show Visits (table.link current (some i)).next table.head _ none
    rw [Timetable.next_link]
    exact visits
  · rw [← List.singleton_append, ← List.append_assoc]
    exact represents.nodup.append (List.nodup_singleton i) (by simpa using fresh.outside)
  · rw [Timetable.entry_link, ← List.singleton_append, ← List.append_assoc, List.map_append]
    simp [fresh.entry]

/-- The current entry has the value, and its pins are joined by those of the new one. -/
theorem insert_joined (represents : Represents table times (before ++ current :: rest)) :
    Represents
      (table.write current { table.channel current with
        portmask := (table.channel current).portmask ||| mask })
      (before.map table.entry ++
        ((table.entry current).1, (table.entry current).2 ||| mask) :: rest.map table.entry)
      (before ++ current :: rest) := by
  obtain ⟨-, nodup, apart⟩ := List.nodup_append.mp represents.nodup
  rw [List.nodup_cons] at nodup
  refine ⟨?_, represents.nodup, ?_⟩
  · show Visits (table.write current _).next table.head _ none
    rw [Timetable.next_write, show Function.update table.next current (table.channel current).next =
      table.next from Function.update_eq_self ..]
    exact represents.visits
  · rw [List.map_append, List.map_cons]
    congr 1
    · exact List.map_congr_left fun k inside =>
        Timetable.entry_write_of_ne (fun same => apart k inside _ List.mem_cons_self same) _
    · congr 1
      · simp [Timetable.entry, Timetable.write]
      · exact List.map_congr_left fun k inside =>
          Timetable.entry_write_of_ne (ne_of_mem_of_not_mem inside nodup.1) _

/-- The loop inserts the entry where it belongs. -/
theorem insertLoop_represents (fuel : Nat)
    (represents : Represents table times (before ++ current :: rest))
    (fresh : Fresh table (before ++ current :: rest) i value mask) (enough : rest.length < fuel) :
    ∃ nodes, (∀ k ∈ nodes, k = i ∨ k ∈ before ++ current :: rest) ∧
      Represents (insertLoop i fuel before.getLast? (some current) table)
        (before.map table.entry ++ insertEntry value mask ((current :: rest).map table.entry)) nodes ∧
      (insertLoop i fuel before.getLast? (some current) table).portmask = table.portmask := by
  induction fuel generalizing before current rest with
  | zero => exact absurd enough (Nat.not_lt_zero _)
  | succ fuel ih =>
      have own : (table.channel i).value = value := congrArg Prod.fst fresh.entry
      have pins : (table.channel i).portmask = mask := congrArg Prod.snd fresh.entry
      have first : (table.entry current).1 = (table.channel current).value := rfl
      rw [insertLoop.eq_def, List.map_cons, insertEntry.eq_def]
      simp only [own, pins, first]
      by_cases same : (table.channel current).value = value
      · rw [if_pos same, if_pos same]
        exact ⟨_, fun k inside => .inr inside, insert_joined represents, rfl⟩
      rw [if_neg same, if_neg same]
      by_cases greater : (table.channel current).value > value
      · rw [if_pos greater, if_pos greater]
        refine ⟨_, fun k inside => ?_, insert_before represents fresh, ?_⟩
        · simp only [List.mem_append, List.mem_cons] at inside ⊢
          tauto
        · split <;> rfl
      rw [if_neg greater, if_neg greater]
      obtain ⟨_, -, -, visits⟩ := visits_append.mp represents.visits
      cases rest with
      | nil =>
          have last : (table.channel current).next = none := visits
          rw [if_pos last]
          refine ⟨before ++ [current, i], fun k inside => ?_, ?_, rfl⟩
          · simp only [List.mem_append, List.mem_cons] at inside ⊢
            tauto
          · have inserted := insert_last represents fresh
            rw [List.map_append, List.append_assoc] at inserted
            exact inserted
      | cons after rest =>
          have follows : (table.channel current).next = some after := visits.1
          rw [if_neg (by simp [follows]), follows]
          have moved : before ++ [current] ++ after :: rest = before ++ current :: after :: rest :=
            List.append_assoc ..
          have represents' : Represents table times (before ++ [current] ++ after :: rest) :=
            moved ▸ represents
          have fresh' : Fresh table (before ++ [current] ++ after :: rest) i value mask := moved ▸ fresh
          obtain ⟨nodes, inside, inserted, mask⟩ :=
            ih represents' fresh' (Nat.lt_of_succ_lt_succ enough)
          rw [List.getLast?_concat] at inserted mask
          refine ⟨nodes, moved ▸ inside, ?_, mask⟩
          rw [List.map_append, List.append_assoc] at inserted
          exact inserted

end Loop

/-! ## Sorting -/

/-- The timetable is complete for the first channels. -/
structure Built (c : Config) (brightness : Nat → UInt8) (n : Nat) (table : Timetable)
    (nodes : List Nat) : Prop extends Represents table (schedule c brightness n) nodes where
  below : ∀ k ∈ nodes, k < n
  full : table.portmask = always c brightness n

variable {table : Timetable} {nodes : List Nat}

theorem built_nil (channel : Nat → Entry) : Built c brightness 0 ⟨channel, none, 0⟩ [] where
  visits := rfl
  nodup := List.nodup_nil
  entries := rfl
  below _ none := absurd none List.not_mem_nil
  full := rfl

/-- What is not linked can be written. -/
theorem Represents.write (represents : Represents table times nodes) {i : Nat} (outside : i ∉ nodes)
    (entry : Entry) : Represents (table.write i entry) times nodes where
  visits := by
    rw [Timetable.next_write]
    exact represents.visits.update outside _
  nodup := represents.nodup
  entries := by
    rw [← represents.entries]
    exact List.map_congr_left fun k inside =>
      Timetable.entry_write_of_ne (ne_of_mem_of_not_mem inside outside) _

/-- The entry of one more channel. -/
theorem Built.sortChannel {i : Nat} (built : Built c brightness i table nodes)
    (inside : i < c.STELLA_PINS) :
    ∃ nodes, Built c brightness (i + 1) (sortChannel c i (brightness i) table) nodes := by
  have outside : i ∉ nodes := fun member => lt_irrefl _ (built.below i member)
  have weaker : ∀ k ∈ nodes, k < i + 1 := fun k member =>
    (built.below k member).trans (Nat.lt_succ_self i)
  have written := built.toRepresents.write outside
    ⟨bit (i + c.STELLA_OFFSET), 255 - brightness i, none⟩
  rw [Stella.sortChannel]
  by_cases off : brightness i = 0
  · rw [if_pos off]
    refine ⟨nodes, { written with below := weaker, entries := ?_, full := ?_ }⟩
    · rw [written.entries, schedule, if_pos (.inl off)]
    · rw [always, if_neg (by simp [off])]
      exact built.full
  rw [if_neg off]
  by_cases on : brightness i = 255
  · rw [if_pos on]
    refine ⟨nodes, ⟨⟨written.visits, written.nodup, ?_⟩, weaker, ?_⟩⟩
    · rw [schedule, if_pos (.inr on)]
      exact written.entries
    · rw [always, if_pos on, ← built.full]
      rfl
  rw [if_neg on]
  have usual : ¬(brightness i = 0 ∨ brightness i = 255) := not_or.mpr ⟨off, on⟩
  have fresh : Fresh (table.write i ⟨bit (i + c.STELLA_OFFSET), 255 - brightness i, none⟩) nodes i
      (255 - brightness i) (bit (i + c.STELLA_OFFSET)) := by
    refine ⟨outside, ?_, ?_⟩
    · simp [Timetable.entry, Timetable.write]
    · simp [Timetable.next, Timetable.write]
  have full : table.portmask = always c brightness (i + 1) := by
    rw [always, if_neg on]
    exact built.full
  cases nodes with
  | nil =>
      have first : table.head = none := built.visits
      rw [if_pos (show (table.write i _).head = none from first)]
      refine ⟨[i], ⟨⟨rfl, fresh.next⟩, List.nodup_singleton i, ?_⟩, by simp, full⟩
      have empty : schedule c brightness i = [] := built.entries.symm
      rw [schedule, if_neg usual, empty]
      exact congrArg (fun entry => [entry]) fresh.entry
  | cons current rest =>
      have first : table.head = some current := built.visits.1
      rw [if_neg (by simp [Timetable.write, first])]
      have few : (current :: rest).length ≤ i := by
        simpa using (built.nodup.subperm fun k member =>
          List.mem_range.mpr (built.below k member)).length_le
      have written' : Represents _ _ ([] ++ current :: rest) := written
      have fresh' : Fresh _ ([] ++ current :: rest) i _ _ := fresh
      obtain ⟨nodes, linked, inserted, mask⟩ :=
        insertLoop_represents c.STELLA_PINS written' fresh' ((Nat.lt_of_succ_le few).trans inside)
      rw [show (table.write i _).head = some current from first]
      refine ⟨nodes, { inserted with
        entries := ?_
        below := fun k member => ?_
        full := mask.trans full }⟩
      · rw [schedule, if_neg usual, ← written.entries]
        exact inserted.entries
      · rcases linked k member with rfl | old
        · exact Nat.lt_succ_self k
        · exact weaker k old

end Ethersex.Stella

/-!
## The sorted timetable

`stella_sort` as a whole: the moments of its timetable come in strictly increasing order, and each pin that
is dimmed is switched on at exactly one of them.
-/

namespace Ethersex.Stella

open Ethersex.Library

section Config

variable (c : Config) (brightness : Nat → UInt8)

/-- `stella_sort`. -/
def stellaSort (table : Timetable) : Timetable :=
  (List.range c.STELLA_PINS).foldl (fun table i => sortChannel c i (brightness i) table)
    { table with portmask := 0, head := none }

/-- The timetable has each dimmed channel at its moment, and those that are always on in the mask of the
port. -/
structure Sorted (times : Schedule) (portmask : BitVec 8) : Prop where
  increasing : times.Pairwise (·.1 < ·.1)
  pins : ∀ entry ∈ times, ∀ pin < 8, entry.2.getLsbD pin = true ↔
    ∃ i < c.STELLA_PINS, brightness i ≠ 0 ∧ brightness i ≠ 255 ∧ 255 - brightness i = entry.1 ∧
      i + c.STELLA_OFFSET = pin
  dimmed : ∀ i < c.STELLA_PINS, brightness i ≠ 0 → brightness i ≠ 255 →
    ∃ entry ∈ times, entry.1 = 255 - brightness i
  always : ∀ pin < 8, portmask.getLsbD pin = true ↔
    ∃ i < c.STELLA_PINS, brightness i = 255 ∧ i + c.STELLA_OFFSET = pin

end Config

variable {c : Config} {brightness : Nat → UInt8}

/-- A moment has one entry. -/
theorem switches_of_mem {times : Schedule} (increasing : times.Pairwise (·.1 < ·.1))
    {entry : UInt8 × BitVec 8} (member : entry ∈ times) (pin : Nat) :
    Switches times entry.1 pin ↔ entry.2.getLsbD pin = true := by
  have distinct : (times.map Prod.fst).Nodup :=
    List.pairwise_map.mpr (increasing.imp fun less => UInt8.ne_of_lt less)
  constructor
  · rintro ⟨other, inside, same, on⟩
    rwa [List.inj_on_of_nodup_map distinct inside member same] at on
  · intro on
    exact ⟨entry, member, rfl, on⟩

/-- The loop of `stella_sort` over the channels. -/
theorem built_range (table : Timetable) {n : Nat} (inside : n ≤ c.STELLA_PINS) :
    ∃ nodes, Built c brightness n ((List.range n).foldl
      (fun table i => sortChannel c i (brightness i) table)
      { table with portmask := 0, head := none }) nodes := by
  induction n with
  | zero => exact ⟨[], built_nil table.channel⟩
  | succ n ih =>
    obtain ⟨nodes, built⟩ := ih (Nat.le_of_succ_le inside)
    rw [List.range_succ, List.foldl_append]
    exact built.sortChannel inside

/-- Without an interruption the main loop sorts as a whole. -/
theorem process_stellaSort (s : State) (starts : s.main = .clearTable) :
    (process c)^[c.STELLA_PINS + 2] s =
      { s.build (stellaSort c s.stella_brightness) with stella_sync := .NEW_VALUES, main := .idle } := by
  have loop (n : Nat) (inside : n ≤ c.STELLA_PINS) : (process c)^[n + 1] s =
      { s.build (fun table => (List.range n).foldl
          (fun table i => sortChannel c i (s.stella_brightness i) table)
          { table with portmask := 0, head := none }) with main := .sort n } := by
    induction n with
    | zero =>
      rw [Function.iterate_one, process, starts]
      rfl
    | succ n ih =>
      rw [Function.iterate_succ_apply', ih (Nat.le_of_succ_le inside), process]
      dsimp only
      rw [if_pos (Nat.lt_of_succ_le inside)]
      simp only [State.build, Function.update_self, Function.update_idem, List.range_succ,
        List.foldl_append, List.foldl_cons, List.foldl_nil]
  rw [Function.iterate_succ_apply', loop c.STELLA_PINS le_rfl, process]
  dsimp only
  rw [if_neg (lt_irrefl _)]
  rfl

/-- The list that `stella_sort` links. -/
theorem stellaSort_sorted (c : Config) (brightness : Nat → UInt8) (table : Timetable) :
    ∃ nodes, Visits (stellaSort c brightness table).next (stellaSort c brightness table).head nodes none ∧
      Sorted c brightness (nodes.map (stellaSort c brightness table).entry)
        (stellaSort c brightness table).portmask := by
  obtain ⟨nodes, built⟩ := @built_range c brightness table _ (le_refl c.STELLA_PINS)
  have increasing : (nodes.map (stellaSort c brightness table).entry).Pairwise (·.1 < ·.1) := by
    rw [stellaSort, built.entries]
    exact schedule_sorted c.STELLA_PINS
  refine ⟨nodes, built.visits, increasing, fun entry member pin inside => ?_,
    fun i inside notOff notOn => ?_, fun pin inside => ?_⟩
  · rw [← switches_of_mem increasing member, stellaSort, built.entries, switches_schedule inside]
  · have pin : i + c.STELLA_OFFSET < 8 := by
      have fits := c.fits
      omega
    have moment : Switches (schedule c brightness c.STELLA_PINS) (255 - brightness i)
        (i + c.STELLA_OFFSET) := (switches_schedule pin).mpr ⟨i, inside, notOff, notOn, rfl, rfl⟩
    obtain ⟨entry, member, same, -⟩ := moment
    rw [stellaSort, built.entries]
    exact ⟨entry, member, same⟩
  · rw [stellaSort, built.full, always_getLsbD inside]

end Ethersex.Stella
