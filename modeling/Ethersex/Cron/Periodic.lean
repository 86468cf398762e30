import Mathlib
import Ethersex.Cron.Model
import Ethersex.Cron.Edits

/-!
# The static table of cron

The jobs that are compiled in, and the function that looks at them.  Its variable `last_check` and that of
`cron_periodic` are tentative definitions, which the linker merges.
-/

namespace Ethersex.Cron

open Clock

/-- The functions in the table. -/
inductive Handler where
  | mcufClock
  | mcufModul
  | netstatSend
deriving DecidableEq

/-- `struct cron_static_event_t`. -/
structure StaticEvent where
  minute : Int8
  hour : Int8
  day : Int8
  month : Int8
  dow : Int8
  handler : Handler
  useUtc : Bool
deriving DecidableEq

/-- The member `fields` of the union. -/
def StaticEvent.fields (event : StaticEvent) : Fin 5 → Int8
  | 0 => event.minute
  | 1 => event.hour
  | 2 => event.day
  | 3 => event.month
  | 4 => event.dow

/-- A table in front of its end marker, which an index of eight bits can reach. -/
structure StaticTable where
  events : List StaticEvent
  short : events.length < 256

/-- `events`, with `MCUF_CLOCK_SUPPORT`, `MCUF_MODUL_CRON_SUPPORT` and `NETSTAT_SUPPORT` or without. -/
def staticEvents (clock modul netstat : Bool) : StaticTable where
  events :=
    (if clock then [⟨-1, -1, -1, -1, -1, .mcufClock, false⟩] else []) ++
    (if modul then [⟨-1, -1, -1, -1, -1, .mcufModul, false⟩] else []) ++
    (if netstat then [⟨-5, -1, -1, -1, -1, .netstatSend, false⟩] else [])
  short := by revert clock modul netstat; decide

/-- `cron_check_event`. -/
def cronCheckEvent (event : StaticEvent) (d : Datetime) : Bool :=
  (List.finRange 5).all fun f =>
    let field := event.fields f
    if field = -1 then true
    else if field ≥ 0 ∧ field.toInt ≠ (d.cronFields f).toNat then false
    else if field < 0 then
      let step := (-field).toUInt8
      d.cronFields f % step = 0
    else true

/-- `cron_static_periodic`, and the events whose handlers it executed. -/
def cronStaticPeriodic (cest : Bool) (table : StaticTable) (timestamp : UInt32) (cron : State) :
    Option (State × List StaticEvent) :=
  if timestamp - cron.lastCheck < 60 then some (cron, [])
  else do
    let d ← clockDatetime timestamp
    let ld ← clockLocaltime cest timestamp
    let executed := table.events.filter fun event => cronCheckEvent event (if event.useUtc then d else ld)
    some ({ cron with lastCheck := timestamp - d.sec.toUInt32 }, executed)

/-- The event matches the date of the time. -/
def StaticEvent.isDue (cest : Bool) (timestamp : UInt32) (event : StaticEvent) : Bool :=
  (dateOf cest event.useUtc timestamp).any fun date => cronCheckEvent event date

section Calls

variable {cest : Bool} {table : StaticTable} {timestamp : UInt32} {cron cron' : State}
  {executed : List StaticEvent}

theorem cronStaticPeriodic_skips (early : timestamp - cron.lastCheck < 60) :
    cronStaticPeriodic cest table timestamp cron = some (cron, []) := if_pos early

/-- A call that looks at the table. -/
theorem cronStaticPeriodic_looks (due : 60 ≤ timestamp - cron.lastCheck)
    (ran : cronStaticPeriodic cest table timestamp cron = some (cron', executed)) :
    (∃ d, clockDatetime timestamp = some d ∧
      cron' = { cron with lastCheck := timestamp - d.sec.toUInt32 }) ∧
      ∀ event ∈ table.events, event.isDue cest timestamp = true → event ∈ executed := by
  rw [cronStaticPeriodic, if_neg (UInt32.not_lt.mpr due), Option.bind_eq_bind,
    Option.bind_eq_some_iff] at ran
  obtain ⟨d, isUtc, ran⟩ := ran
  rw [Option.bind_eq_some_iff] at ran
  obtain ⟨ld, isLocal, ran⟩ := ran
  obtain ⟨rfl, rfl⟩ := Prod.mk.inj (Option.some.inj ran)
  refine ⟨⟨d, isUtc, rfl⟩, ?_⟩
  intro event member now
  have date : dateOf cest event.useUtc timestamp = some (if event.useUtc then d else ld) := by
    unfold dateOf
    split_ifs
    · exact isUtc
    · exact isLocal
  rw [StaticEvent.isDue, date, Option.any_some] at now
  exact List.mem_filter.mpr ⟨member, now⟩

end Calls

end Ethersex.Cron

/-!
## Calls of `cron_periodic` without edits

A call whose commands leave the list alone executes the jobs that are due, in the order
of the list, and counts them down.
-/

namespace Ethersex.Cron

open Clock LinkedList

/-- The list after the jobs that are due were executed. -/
def JobList.tick (date : Datetime) : JobList → JobList :=
  revise fun job => if job.2.isDue date then job.2.countDown else some job.2

/-- The jobs that are due. -/
def JobList.due (date : Datetime) (list : JobList) : List Address :=
  (list.jobs.filter fun job => job.2.isDue date).map Prod.fst

section Quiet

variable {date : Datetime} {sweep : Sweep}

/-- A pass over one job. -/
theorem Sweep.step_quiet {front back : List Job} {exec : Address} {event : Event}
    (split : sweep.list.jobs = front ++ (exec, event) :: back) (is : sweep.current = some exec) :
    (sweep.step date quiet).list.jobs = front ++ (((if event.isDue date then event.countDown
        else some event).map fun event => (exec, event)).toList ++ back) ∧
      (sweep.step date quiet).list.fresh = sweep.list.fresh ∧
      (sweep.step date quiet).current = first back none ∧
      (sweep.step date quiet).fired =
        sweep.fired ++ if event.isDue date then [exec] else [] := by
  have due := JobList.isDue_split split date
  have after := JobList.after_split split
  rw [Sweep.step, is]
  by_cases fires : event.isDue date
  · simp only [if_pos (due.mpr fires), if_pos fires]
    refine ⟨?_, rfl, after, trivial⟩
    rw [← List.append_assoc]
    exact JobList.jobs_countDown split
  · simp only [if_neg (mt due.mp fires), if_neg fires, List.append_nil]
    refine ⟨?_, trivial, after, trivial⟩
    rw [split]
    simp

/-- The passes over the rest of the list. -/
theorem Sweep.steps_quiet (back : List Job) {front : List Job}
    (split : sweep.list.jobs = front ++ back) (is : sweep.current = first back none) :
    ((Sweep.step date quiet)^[back.length] sweep).list.jobs = front ++ back.filterMap (fun job =>
        (if job.2.isDue date then job.2.countDown else some job.2).map fun event => (job.1, event)) ∧
      ((Sweep.step date quiet)^[back.length] sweep).list.fresh = sweep.list.fresh ∧
      ((Sweep.step date quiet)^[back.length] sweep).current = none ∧
      ((Sweep.step date quiet)^[back.length] sweep).fired =
        sweep.fired ++ (back.filter fun job => job.2.isDue date).map Prod.fst := by
  induction back generalizing front sweep with
  | nil => exact ⟨by simpa using split, rfl, is, by simp⟩
  | cons job back ih =>
      obtain ⟨jobs, fresh, current, fired⟩ := @step_quiet date sweep front back job.1 job.2 split is
      rw [← List.append_assoc] at jobs
      obtain ⟨jobs', fresh', current', fired'⟩ := ih jobs current
      rw [List.length_cons, Function.iterate_succ_apply]
      refine ⟨jobs'.trans ?_, fresh'.trans fresh, current', fired'.trans ?_⟩
      · rw [List.append_assoc, List.filterMap_cons]
        cases (if job.2.isDue date then job.2.countDown else some job.2) <;> simp
      · rw [fired, List.append_assoc]
        by_cases due : job.2.isDue date <;> simp [due]

theorem Sweep.run_quiet (date : Datetime) (list : JobList) :
    (Sweep.run date quiet list list.jobs.length).list = list.tick date ∧
      (Sweep.run date quiet list list.jobs.length).current = none ∧
      (Sweep.run date quiet list list.jobs.length).fired = list.due date := by
  obtain ⟨jobs, fresh, current, fired⟩ :=
    @steps_quiet date (Sweep.start list) list.jobs [] rfl rfl
  exact ⟨JobList.ext jobs fresh, current, fired⟩

/-- Once the loop has ended, more passes change nothing. -/
theorem Pass.steps_of_end {effects : Nat → List Edit} {pass : Pass} (is : pass.current = none)
    (passes : Nat) : pass.steps date effects passes = some pass := by
  induction passes with
  | zero => rfl
  | succ passes ih =>
      rw [Pass.steps, Pass.step, is]
      exact ih

end Quiet

section Calls

variable {cest : Bool} {timestamp : UInt32} {cron : State} {list : JobList}

/-- Whether the call of `cron_periodic` looks at the jobs. -/
def Checks (timestamp lastCheck : UInt32) (list : JobList) : Prop :=
  list.jobs ≠ [] ∧ 60 ≤ timestamp - lastCheck

instance (timestamp lastCheck : UInt32) (list : JobList) :
    Decidable (Checks timestamp lastCheck list) :=
  inferInstanceAs (Decidable (_ ∧ _))

theorem Represents.cronPeriodic_skips (represents : Represents cron list)
    (skips : ¬Checks timestamp cron.lastCheck list) (effects : Nat → List Edit) (passes : Nat) :
    cronPeriodic cest effects passes timestamp cron = some (cron, []) := by
  refine if_pos ?_
  rwa [Checks, not_and_or, not_not, UInt32.not_le, ← represents.linked.head_eq_none] at skips

/-- A call that looks at the jobs, whose commands leave the list alone. -/
theorem Represents.cronPeriodic (represents : Represents cron list)
    (checks : Checks timestamp cron.lastCheck list) {date : Datetime}
    (is : dateOf cest cron.useUtc timestamp = some date) {passes : Nat}
    (enough : list.jobs.length ≤ passes) :
    ∃ cron', cronPeriodic cest quiet passes timestamp cron = some (cron', list.due date) ∧
      Represents cron' (list.tick date) ∧ cron'.lastCheck = timestamp - date.sec.toUInt32 ∧
      cron'.useUtc = cron.useUtc := by
  obtain ⟨pass, ran, simulates, -, -, settings⟩ := simulates_run represents
    fun earlier (_ : earlier < list.jobs.length) => keepsNeighbours_quiet date list earlier
  obtain ⟨jobs, current, fired⟩ := Sweep.run_quiet date list
  obtain ⟨rest, rfl⟩ := Nat.exists_eq_add_of_le enough
  have ended : pass.current = none := simulates.current.trans current
  have enters : ¬(cron.head = none ∨ timestamp - cron.lastCheck < 60) := by
    rw [represents.linked.head_eq_none, not_or, UInt32.not_lt]
    exact checks
  have call : Cron.cronPeriodic cest quiet (list.jobs.length + rest) timestamp cron =
      some ({ pass.cron with lastCheck := timestamp - date.sec.toUInt32 }, list.due date) := by
    rw [Cron.cronPeriodic, if_neg enters, is]
    simp only [Option.bind_eq_bind, Option.bind_some, Pass.steps_add, ran, Pass.steps_of_end ended,
      if_pos ended, simulates.fired, fired]
  have here := simulates.represents
  rw [jobs] at here
  exact ⟨_, call, ⟨here.linked, here.fresh, here.others⟩, rfl, settings⟩

end Calls

end Ethersex.Cron
