import Mathlib

/-!
# Software PWM

The main loop fades the channels and builds a timetable of the moments at which their pins are
switched on.  The interrupts of a timer walk a timetable, and at the start of a round they take the
new one, if there is one.

The interrupts come at the ticks of the timer, between any two steps of the main loop, and are done
before the next tick.
-/

namespace Ethersex.Stella

/-- The channels of a build, and the first pin of the port that they use. -/
structure Config where
  STELLA_PINS : Nat
  STELLA_OFFSET : Nat
  fits : STELLA_OFFSET + STELLA_PINS ≤ 8

/-! ## Timetables -/

/-- `stella_timetable_entry`. -/
structure Entry where
  portmask : BitVec 8
  value : UInt8
  next : Option Nat

/-- `stella_timetable_struct`; entries refer to each other by their channels. -/
structure Timetable where
  channel : Nat → Entry
  head : Option Nat
  portmask : BitVec 8

/-- `_BV`. -/
def bit (k : Nat) : BitVec 8 := BitVec.twoPow 8 k

/-- One entry is written. -/
def Timetable.write (table : Timetable) (k : Nat) (entry : Entry) : Timetable :=
  { table with channel := Function.update table.channel k entry }

/-- The `next` of one entry is set. -/
def Timetable.link (table : Timetable) (k : Nat) (next : Option Nat) : Timetable :=
  table.write k { table.channel k with next }

/-- The loop of `stella_sort` that inserts the entry of channel `i`, at `current` and behind `last`. -/
def insertLoop (i : Nat) : Nat → Option Nat → Option Nat → Timetable → Timetable
  | 0, _, _, table => table
  | _, _, none, table => table
  | fuel + 1, last, some current, table =>
      let value := (table.channel i).value
      if (table.channel current).value = value then
        table.write current { table.channel current with
          portmask := (table.channel current).portmask ||| (table.channel i).portmask }
      else if (table.channel current).value > value then
        match last with
        | none => { table.link i table.head with head := some i }
        | some last => (table.link i (table.channel last).next).link last (some i)
      else if (table.channel current).next = none then table.link current (some i)
      else insertLoop i fuel (some current) (table.channel current).next table

section Config

variable (c : Config)

/-- What `stella_sort` does with one channel. -/
def sortChannel (i : Nat) (brightness : UInt8) (table : Timetable) : Timetable :=
  let table := table.write i ⟨bit (i + c.STELLA_OFFSET), 255 - brightness, none⟩
  if brightness = 0 then table
  else if brightness = 255 then
    { table with portmask := table.portmask ||| bit (i + c.STELLA_OFFSET) }
  else if table.head = none then { table with head := some i }
  else insertLoop i c.STELLA_PINS none table.head table

/-! ## The state -/

inductive Sync where
  | NOTHING_NEW
  | NEW_VALUES
  | UPDATE_VALUES
deriving DecidableEq

inductive FadeFunc where
  | normal
  | flashy

/-- What comes next in the main loop.  Neighbouring statements are one step where an interrupt
between them makes no difference. -/
inductive Main where
  /-- `stella_process` was not called, or it returned. -/
  | idle
  | fade (i : Nat)
  | testCounter
  | setSync
  | resetCounter
  | testSync
  | clearTable
  | sort (i : Nat)
deriving DecidableEq

structure State where
  stella_brightness : Nat → UInt8
  stella_fade : Nat → UInt8
  stella_fade_func : FadeFunc
  stella_fade_step : UInt8
  stella_fade_counter : UInt8
  stella_sync : Sync
  timetables : Bool → Timetable
  int_table : Bool
  cal_table : Bool
  /-- The entry of the interrupts, with its table. -/
  current : Option (Bool × Nat)
  STELLA_PORT : BitVec 8
  /-- The counter of the timer. -/
  TCNT : UInt8
  /-- What it is compared with. -/
  OCR : UInt8
  main : Main

def stella_portmask_neg : BitVec 8 :=
  ~~~(BitVec.ofNat 8 (2 ^ c.STELLA_PINS - 1) <<< c.STELLA_OFFSET)

namespace State

/-- The table that the main loop builds is changed. -/
def build (s : State) (change : Timetable → Timetable) : State :=
  { s with timetables := Function.update s.timetables s.cal_table (change (s.timetables s.cal_table)) }

end State

/-! ## The main loop -/

def fadeNormal (brightness fade : UInt8) : UInt8 :=
  if brightness > fade then brightness - 1 else brightness + 1

def fadeFlashy (current target : UInt8) : UInt8 :=
  let target := if current > target then target <<< 1 else target
  if current < target then target else current

def fadeWith : FadeFunc → UInt8 → UInt8 → UInt8
  | .normal => fadeNormal
  | .flashy => fadeFlashy

/-- A step of `stella_process`. -/
def process (s : State) : State :=
  match s.main with
  | .idle => { s with main := if s.stella_fade_counter = 0 then .fade 0 else .testSync }
  | .fade i =>
      if i < c.STELLA_PINS then
        if s.stella_brightness i = s.stella_fade i then { s with main := .fade (i + 1) }
        else
          { s with
            stella_brightness := Function.update s.stella_brightness i
              (fadeWith s.stella_fade_func (s.stella_brightness i) (s.stella_fade i))
            stella_fade_counter := 1
            main := .fade (i + 1) }
      else { s with main := .testCounter }
  | .testCounter => { s with main := if s.stella_fade_counter ≠ 0 then .setSync else .resetCounter }
  | .setSync => { s with stella_sync := .UPDATE_VALUES, main := .resetCounter }
  | .resetCounter => { s with stella_fade_counter := s.stella_fade_step, main := .testSync }
  | .testSync => { s with main := if s.stella_sync = .UPDATE_VALUES then .clearTable else .idle }
  | .clearTable =>
      { s.build fun table => { table with portmask := 0, head := none } with main := .sort 0 }
  | .sort i =>
      if i < c.STELLA_PINS then
        { s.build (sortChannel c i (s.stella_brightness i)) with main := .sort (i + 1) }
      else { s with stella_sync := .NEW_VALUES, main := .idle }

/-- `stella_set_function`, and what is none of them. -/
inductive SetFunction where
  | STELLA_SET_IMMEDIATELY
  | STELLA_SET_FADE
  | STELLA_SET_FLASHY
  | STELLA_SET_IMMEDIATELY_RELATIVE
  | other

def stellaSetValue (func : SetFunction) (channel : Nat) (value : UInt8) (s : State) : State :=
  if channel ≥ c.STELLA_PINS then s
  else
    let brightness := Function.update s.stella_brightness channel
    let fade := Function.update s.stella_fade channel
    match func with
    | .STELLA_SET_IMMEDIATELY =>
        { s with
          stella_brightness := brightness value
          stella_fade := fade value
          stella_sync := .UPDATE_VALUES }
    | .STELLA_SET_FADE => { s with stella_fade := fade value }
    | .STELLA_SET_FLASHY =>
        { s with
          stella_brightness := brightness value
          stella_fade := fade 0
          stella_sync := .UPDATE_VALUES }
    | .STELLA_SET_IMMEDIATELY_RELATIVE =>
        { s with
          stella_brightness := brightness (s.stella_brightness channel + value)
          stella_fade := fade (s.stella_fade channel + value)
          stella_sync := .UPDATE_VALUES }
    | .other => s

/-! ## The interrupts -/

/-- The compare interrupt. -/
def compare (s : State) : State :=
  match s.current with
  | none => s
  | some (table, k) =>
      let entry := (s.timetables table).channel k
      { s with
        STELLA_PORT := s.STELLA_PORT ||| entry.portmask
        current := entry.next.map (table, ·)
        OCR := entry.next.elim s.OCR fun k => ((s.timetables table).channel k).value }

/-- The overflow interrupt takes the new timetable, if there is one. -/
def swap (s : State) : State :=
  if s.stella_sync = .NEW_VALUES then
    { s with
      int_table := s.cal_table
      cal_table := s.int_table
      stella_sync := .NOTHING_NEW }
  else s

/-- The rest of the overflow interrupt. -/
def startRound (s : State) : State :=
  let table := s.timetables s.int_table
  { s with
    stella_fade_counter := if s.stella_fade_counter ≠ 0 then s.stella_fade_counter - 1 else 0
    current := table.head.map (s.int_table, ·)
    STELLA_PORT := s.STELLA_PORT &&& stella_portmask_neg c ||| table.portmask
    OCR := table.head.elim s.OCR fun k => (table.channel k).value }

/-- The overflow interrupt. -/
def overflow (s : State) : State := startRound c (swap s)

/-- A tick of the timer.  A match is flagged with the tick that follows it. -/
def tick (s : State) : State :=
  let matched := s.TCNT = s.OCR
  let s := { s with TCNT := s.TCNT + 1 }
  let s := if matched then compare s else s
  if s.TCNT = 0 then overflow c s else s

/-! ## Runs -/

inductive Event where
  | process
  | setValue (func : SetFunction) (channel : Nat) (value : UInt8)
  | setFading (func : FadeFunc) (step : UInt8)
  | tick

/-- `stella_setValue` and the settings of the fading come from the main loop, when it is not in
`stella_process`. -/
def step (s : State) : Event → State
  | .process => process c s
  | .setValue func channel value => if s.main = .idle then stellaSetValue c func channel value s else s
  | .setFading func step =>
      if s.main = .idle then { s with stella_fade_func := func, stella_fade_step := step } else s
  | .tick => tick c s

/-- `stella_init`, up to its call of `stella_sort`.  The channels are to be faded to `fade`. -/
def stellaInit (fade : Nat → UInt8) (func : FadeFunc) (step : UInt8) (entries : Bool → Nat → Entry)
    (port : BitVec 8) (count compared : UInt8) : State where
  stella_brightness _ := 0
  stella_fade := fade
  stella_fade_func := func
  stella_fade_step := step
  stella_fade_counter := step
  stella_sync := .NOTHING_NEW
  timetables which := ⟨entries which, none, 0⟩
  int_table := false
  cal_table := true
  current := none
  STELLA_PORT := port
  TCNT := count
  OCR := compared
  main := .clearTable

end Config

end Ethersex.Stella
