import Mathlib
import Ethersex.Cron.Due

/-!
# Calls that come to their end

A call of `cron_periodic` whose commands edit the list, if it gets through.  Every job that is due is
executed, unless a command removes it.
-/

namespace Ethersex.Cron

open Clock LinkedList

theorem Event.isDue_fields {event other : Event} (same : event.fields = other.fields) (date : Datetime) :
    event.isDue date = other.isDue date := by
  simp only [isDue, same]

/-- Counting down changes the repetitions alone. -/
theorem JobList.countDown_fields {list : JobList} {exec : Address} {job : Job}
    (member : job ∈ (list.countDown exec).jobs) :
    ∃ before ∈ list.jobs, before.1 = job.1 ∧ before.2.fields = job.2.fields := by
  rw [JobList.countDown, jobs_revise, List.mem_filterMap] at member
  obtain ⟨before, inList, changed⟩ := member
  obtain ⟨event, counted, rfl⟩ := Option.map_eq_some_iff.mp changed
  refine ⟨before, inList, rfl, ?_⟩
  by_cases executed : before.1 = exec
  · rw [if_pos executed] at counted
    obtain ⟨-, same⟩ | ⟨-, gone⟩ | ⟨rest, same, -, -, fields⟩ := before.2.countDown_eq
    · rw [Option.some.inj (same.symm.trans counted)]
    · exact absurd (gone.symm.trans counted) (Option.some_ne_none event).symm
    · rw [← Option.some.inj (same.symm.trans counted), fields]
  · rw [if_neg executed] at counted
    rw [Option.some.inj counted]

/-- The jobs of the list keep their fields, and those that were considered and are due were executed. -/
structure Executed (date : Datetime) (list : JobList) (sweep : Sweep) : Prop where
  fields : ∀ job ∈ sweep.list.jobs, ∀ before ∈ list.jobs, before.1 = job.1 →
    before.2.fields = job.2.fields
  fired : ∀ address ∈ sweep.considered, ∀ before ∈ list.jobs, before.1 = address →
    before.2.isDue date = true → address ∈ sweep.fired

section Executed

variable {date : Datetime} {effects : Nat → List Edit} {list : JobList} {sweep : Sweep}

theorem executed_start (date : Datetime) (list : JobList) : Executed date list (Sweep.start list) where
  fields := by
    intro job member before inList same
    rw [List.inj_on_of_nodup_map list.nodup inList member same]
  fired := fun address member => absurd member List.not_mem_nil

/-- The jobs of an edited list that are not new. -/
theorem Executed.edited (executed : Executed date list sweep) (grown : list.fresh ≤ sweep.list.fresh)
    {job : Job} (member : job ∈ (sweep.edited effects).jobs) {before : Job} (inList : before ∈ list.jobs)
    (same : before.1 = job.1) : before.2.fields = job.2.fields := by
  obtain ⟨kept, new, jobs, sublist, fresh, -⟩ :=
    applyEdits_jobs (effects sweep.fired.length) sweep.list
  rw [Sweep.edited, jobs] at member
  obtain old | late := List.mem_append.mp member
  · exact executed.fields job (sublist.subset old) before inList same
  · have used := list.used before.1 (List.mem_map_of_mem inList)
    rw [same] at used
    exact absurd used (Nat.not_lt.mpr (grown.trans (fresh job late)))

theorem Executed.step (executed : Executed date list sweep) (grown : list.fresh ≤ sweep.list.fresh)
    (listed : sweep.Listed) : Executed date list (sweep.step date effects) := by
  cases is : sweep.current with
  | none =>
      rw [Sweep.step, is]
      exact executed
  | some exec =>
      have member := listed exec is
      rw [Sweep.step, is]
      by_cases due : sweep.list.IsDue date exec
      · simp only [if_pos due]
        refine ⟨?_, ?_⟩
        · intro job counted before inList same
          obtain ⟨edited, inEdited, address, fields⟩ := JobList.countDown_fields counted
          exact (executed.edited grown inEdited inList (same.trans address.symm)).trans fields
        · intro address considered before inList same now
          obtain early | last := List.mem_append.mp considered
          · exact List.mem_append_left _ (executed.fired address early before inList same now)
          · exact List.mem_append_right _ last
      · simp only [if_neg due]
        refine ⟨executed.fields, ?_⟩
        intro address considered before inList same now
        obtain early | last := List.mem_append.mp considered
        · exact executed.fired address early before inList same now
        · -- The job considered last has the fields that it had at first, and it is not due.
          obtain rfl := List.mem_singleton.mp last
          obtain ⟨⟨_, event⟩, onList, rfl⟩ := List.mem_map.mp member
          have fields := executed.fields _ onList before inList same
          rw [Event.isDue_fields fields] at now
          exact absurd ⟨event, onList, now⟩ due

theorem executed_run {passes : Nat}
    (keeps : ∀ earlier < passes, (Sweep.run date effects list earlier).Keeps date effects) :
    Executed date list (Sweep.run date effects list passes) ∧
      (Sweep.run date effects list passes).Listed ∧
      list.fresh ≤ (Sweep.run date effects list passes).list.fresh := by
  induction passes with
  | zero => exact ⟨executed_start date list, listed_start list, le_rfl⟩
  | succ passes ih =>
      obtain ⟨executed, listed, grown⟩ := ih fun earlier before => keeps earlier (Nat.lt_succ_of_lt before)
      rw [Sweep.run, Function.iterate_succ_apply']
      refine ⟨executed.step grown listed, listed.step (keeps passes (Nat.lt_succ_self passes)), ?_⟩
      exact grown.trans Sweep.fresh_le_step

end Executed

section Ended

variable {date : Datetime} {effects : Nat → List Edit} {passes : Nat} {cron : State} {list : JobList}
  {pass : Pass}

/-- A loop that ends has lost no job. -/
theorem keeps_of_ended (represents : Represents cron list)
    (ran : (Pass.start cron).steps date effects passes = some pass) (ended : pass.current = none) :
    KeepsNeighbours date effects list := by
  intro number
  induction number using Nat.strong_induction_on with
  | h number earlier =>
      by_contra loses
      obtain ⟨before, ranBefore, simulates, -, -⟩ := simulates_run represents earlier
      have further : (Pass.start cron).steps date effects (number + 2) = none := by
        rw [Pass.steps_add, ranBefore, Option.bind_some, simulates.faults loses]
      have lasting : (Pass.start cron).steps date effects (passes + (number + 2)) = some pass := by
        rw [Pass.steps_add, ran, Option.bind_some, Pass.steps_of_end ended]
      rw [Nat.add_comm, Pass.steps_add, further] at lasting
      exact absurd lasting (Option.some_ne_none pass).symm

/-- A call of `cron_periodic` that looks at the jobs and gets through. -/
theorem Represents.cronPeriodic_ended {cest : Bool} {timestamp : UInt32} {cron' : State}
    {fired : List Address} (represents : Represents cron list)
    (checks : Checks timestamp cron.lastCheck list)
    (ran : Cron.cronPeriodic cest effects passes timestamp cron = some (cron', fired)) :
    ∃ date list', dateOf cest cron.useUtc timestamp = some date ∧ Represents cron' list' ∧
      cron'.lastCheck = timestamp - date.sec.toUInt32 ∧ cron'.useUtc = cron.useUtc ∧
      ∀ job ∈ list.jobs, job.2.isDue date = true → job.1 ∈ fired ∨ job.1 ∉ list'.addresses := by
  have enters : ¬(cron.head = none ∨ timestamp - cron.lastCheck < 60) := by
    rw [represents.linked.head_eq_none, not_or, UInt32.not_lt]
    exact checks
  rw [Cron.cronPeriodic, if_neg enters, Option.bind_eq_bind, Option.bind_eq_some_iff] at ran
  obtain ⟨date, is, ran⟩ := ran
  rw [Option.bind_eq_bind, Option.bind_eq_some_iff] at ran
  obtain ⟨pass, steps, ran⟩ := ran
  have ended : pass.current = none := by
    by_contra more
    rw [if_neg more] at ran
    exact absurd ran (Option.some_ne_none _).symm
  rw [if_pos ended] at ran
  obtain ⟨rfl, rfl⟩ := Prod.mk.inj (Option.some.inj ran)
  have keeps := keeps_of_ended represents steps ended
  obtain ⟨same, ranSame, simulates, progress, settings⟩ :=
    simulates_run represents fun earlier (_ : earlier < passes) => keeps earlier
  obtain rfl := Option.some.inj (ranSame.symm.trans steps)
  obtain ⟨executed, -, -⟩ := executed_run fun earlier (_ : earlier < passes) => keeps earlier
  have represents' := simulates.represents
  refine ⟨date, _, is, ⟨represents'.linked, represents'.fresh, represents'.others⟩, rfl, settings.2, ?_⟩
  intro job member due
  rw [simulates.fired]
  have finished : (Sweep.run date effects list passes).ahead = [] :=
    Sweep.ahead_of_end (simulates.current.symm.trans ended)
  obtain considered | gone | ahead := progress.accounted job.1 (List.mem_map_of_mem member)
  · exact .inl (executed.fired job.1 considered job member rfl due)
  · exact .inr gone
  · rw [finished] at ahead
    exact absurd ahead List.not_mem_nil

end Ended

end Ethersex.Cron
