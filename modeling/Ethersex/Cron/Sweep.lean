import Mathlib
import Ethersex.Cron.Jobs

/-!
# One walk over the jobs

The loop of `cron_periodic` on job lists.  As long as no executed command removes its
own job or the job that the loop looks at next, the loop on the heap does the same;
with the first command that does, it reads a job that was freed.
-/

namespace Ethersex.Cron

open Clock LinkedList

namespace JobList

/-- The job behind `exec`. -/
def after (exec : Address) (list : JobList) : Option Address :=
  first (list.jobs.dropWhile fun job => job.1 ≠ exec).tail none

/-- `exec` is on the list, and its event matches the date. -/
def IsDue (date : Datetime) (exec : Address) (list : JobList) : Prop :=
  ∃ event, (exec, event) ∈ list.jobs ∧ event.isDue date

instance (date : Datetime) (exec : Address) (list : JobList) : Decidable (list.IsDue date exec) :=
  decidable_of_iff (∃ job ∈ list.jobs, job.1 = exec ∧ job.2.isDue date) (by
    constructor
    · rintro ⟨⟨_, event⟩, member, rfl, due⟩
      exact ⟨event, member, due⟩
    · rintro ⟨event, member, due⟩
      exact ⟨_, member, rfl, due⟩)

section Split

variable {list : JobList} {front back : List Job} {address : Address} {event : Event}

theorem dropWhile_split (split : list.jobs = front ++ (address, event) :: back) :
    list.jobs.dropWhile (fun job => job.1 ≠ address) = (address, event) :: back := by
  obtain ⟨inFront, -⟩ := ne_of_split split
  rw [split, List.dropWhile_append_of_pos fun job member => decide_eq_true (inFront job member),
    List.dropWhile_cons_of_neg (by simp)]

theorem after_split (split : list.jobs = front ++ (address, event) :: back) :
    list.after address = first back none := by
  rw [after, dropWhile_split split, List.tail_cons]

theorem isDue_split (split : list.jobs = front ++ (address, event) :: back) (date : Datetime) :
    list.IsDue date address ↔ event.isDue date := by
  constructor
  · rintro ⟨other, member, due⟩
    obtain ⟨inFront, inBack⟩ := ne_of_split split
    rw [split, List.mem_append, List.mem_cons] at member
    rcases member with member | same | member
    · exact absurd rfl (inFront _ member)
    · rwa [← (Prod.mk.inj same).2]
    · exact absurd rfl (inBack _ member)
  · intro due
    exact ⟨event, by simp [split], due⟩

end Split

end JobList

/-- The loop on a job list. -/
structure Sweep where
  list : JobList
  current : Option Address
  considered : List Address
  fired : List Address

namespace Sweep

def start (list : JobList) : Sweep := ⟨list, first list.jobs none, [], []⟩

/-- The list after the command executed next. -/
def edited (effects : Nat → List Edit) (sweep : Sweep) : JobList :=
  applyEdits (effects sweep.fired.length) sweep.list

def step (date : Datetime) (effects : Nat → List Edit) (sweep : Sweep) : Sweep :=
  match sweep.current with
  | none => sweep
  | some exec =>
      if sweep.list.IsDue date exec then
        ⟨(sweep.edited effects).countDown exec, sweep.list.after exec, sweep.considered ++ [exec],
          sweep.fired ++ [exec]⟩
      else
        { sweep with
          current := sweep.list.after exec
          considered := sweep.considered ++ [exec] }

/-- The command executed next, if there is one, removes neither its own job nor the
job behind it. -/
def Keeps (date : Datetime) (effects : Nat → List Edit) (sweep : Sweep) : Prop :=
  ∀ exec, sweep.current = some exec → sweep.list.IsDue date exec →
    exec ∈ (sweep.edited effects).addresses ∧
      ∀ next, sweep.list.after exec = some next → next ∈ (sweep.edited effects).addresses

/-- The job looked at next is on the list. -/
def Listed (sweep : Sweep) : Prop :=
  ∀ address, sweep.current = some address → address ∈ sweep.list.addresses

end Sweep

/-- The loop on the heap is where the loop on the list is. -/
structure Simulates (pass : Pass) (sweep : Sweep) : Prop where
  represents : Represents pass.cron sweep.list
  current : pass.current = sweep.current
  listed : sweep.Listed
  considered : pass.considered = sweep.considered
  fired : pass.fired = sweep.fired

theorem simulates_start {cron : State} {list : JobList} (represents : Represents cron list) :
    Simulates (Pass.start cron) (Sweep.start list) where
  represents := represents
  current := represents.linked.head
  listed := fun _ is => first_mem is
  considered := rfl
  fired := rfl

section Steps

variable {date : Datetime} {effects : Nat → List Edit} {pass : Pass} {sweep : Sweep}

/-- Counting down removes at most the executed job. -/
theorem JobList.mem_countDown {list : JobList} {exec other : Address} (different : other ≠ exec) :
    other ∈ (list.countDown exec).addresses ↔ other ∈ list.addresses := by
  simp only [addresses, JobList.countDown, jobs_revise, List.mem_map, List.mem_filterMap,
    Option.map_eq_some_iff]
  constructor
  · rintro ⟨_, ⟨job, member, event, -, rfl⟩, rfl⟩
    exact ⟨job, member, rfl⟩
  · rintro ⟨job, member, rfl⟩
    exact ⟨job, ⟨job, member, job.2, if_neg different, rfl⟩, rfl⟩

theorem JobList.after_ne {list : JobList} {exec next : Address} (member : exec ∈ list.addresses)
    (is : list.after exec = some next) : next ∈ list.addresses ∧ next ≠ exec := by
  obtain ⟨front, event, back, split⟩ := exists_split member
  rw [after_split split] at is
  obtain ⟨job, inBack, rfl⟩ := List.mem_map.mp (first_mem is)
  exact ⟨List.mem_map_of_mem (by simp [split, inBack]), (ne_of_split split).2 job inBack⟩

theorem Sweep.Listed.step (listed : sweep.Listed) (keeps : sweep.Keeps date effects) :
    (sweep.step date effects).Listed := by
  intro next found
  cases is : sweep.current with
  | none =>
      rw [Sweep.step, is] at found ⊢
      exact listed next found
  | some exec =>
      have member := listed exec is
      rw [Sweep.step, is] at found ⊢
      by_cases due : sweep.list.IsDue date exec
      · simp only [if_pos due] at found ⊢
        exact (JobList.mem_countDown (JobList.after_ne member found).2).mpr
          ((keeps exec is due).2 next found)
      · simp only [if_neg due] at found ⊢
        exact (JobList.after_ne member found).1

/-- What a pass of the loop does on the heap. -/
theorem Simulates.step_eq (simulates : Simulates pass sweep) {exec : Address}
    (is : sweep.current = some exec) :
    pass.step date effects =
      if sweep.list.IsDue date exec then
        (runEdits (effects sweep.fired.length) pass.cron).bind fun cron =>
          (countDown exec cron).map fun cron =>
            ⟨cron, sweep.list.after exec, sweep.considered ++ [exec], sweep.fired ++ [exec]⟩
      else some ⟨pass.cron, sweep.list.after exec, sweep.considered ++ [exec], sweep.fired⟩ := by
  obtain ⟨front, event, back, split⟩ := JobList.exists_split (simulates.listed exec is)
  have due := JobList.isDue_split split date
  simp only [Pass.step, simulates.current, is, simulates.represents.cell split,
    simulates.considered, simulates.fired, JobList.after_split split, Option.bind_eq_bind,
    Option.bind_some]
  by_cases fires : event.isDue date
  · rw [if_pos fires, if_pos (due.mpr fires)]
    simp only [Option.map_eq_bind, Function.comp_def]
  · rw [if_neg fires, if_neg (mt due.mp fires)]

/-- The loops stay together. -/
theorem Simulates.step (simulates : Simulates pass sweep) (keeps : sweep.Keeps date effects) :
    ∃ pass', pass.step date effects = some pass' ∧ Simulates pass' (sweep.step date effects) ∧
      SameSettings pass.cron pass'.cron := by
  cases is : sweep.current with
  | none =>
      refine ⟨pass, ?_, ?_, .refl _⟩
      · rw [Pass.step, simulates.current, is]
      · rw [Sweep.step, is]
        exact simulates
  | some exec =>
      have listed := simulates.listed.step keeps
      rw [Sweep.step, is] at listed
      rw [simulates.step_eq is, Sweep.step, is]
      by_cases due : sweep.list.IsDue date exec
      · obtain ⟨own, -⟩ := keeps exec is due
        obtain ⟨cron₁, ran, represents₁, same₁⟩ :=
          simulates.represents.edits (effects sweep.fired.length)
        obtain ⟨cron₂, counted, represents₂, same₂⟩ := represents₁.countDown own
        simp only [if_pos due, ran, Option.bind_some, counted, Option.map_some] at listed ⊢
        exact ⟨_, rfl, ⟨represents₂, rfl, listed, rfl, rfl⟩, same₁.trans same₂⟩
      · simp only [if_neg due] at listed ⊢
        exact ⟨_, rfl, ⟨simulates.represents, rfl, listed, rfl, rfl⟩, .refl _⟩

/-- Commands that leave the list alone. -/
def quiet : Nat → List Edit := fun _ => []

theorem Sweep.Listed.keeps_quiet (listed : sweep.Listed) : sweep.Keeps date quiet :=
  fun exec is _ => ⟨listed exec is, fun _ found => (JobList.after_ne (listed exec is) found).1⟩

/-- A command that removes its own job or the one behind it makes the loop read a job
that was freed. -/
theorem Simulates.faults (simulates : Simulates pass sweep) (loses : ¬sweep.Keeps date effects) :
    pass.steps date effects 2 = none := by
  simp only [Sweep.Keeps, not_forall] at loses
  obtain ⟨exec, is, due, loses⟩ := loses
  have member := simulates.listed exec is
  obtain ⟨cron₁, ran, represents₁, -⟩ :=
    simulates.represents.edits (effects sweep.fired.length)
  rw [Pass.steps, simulates.step_eq is, if_pos due, ran, Option.bind_some]
  by_cases own : exec ∈ (sweep.edited effects).addresses
  · simp only [not_and, not_forall] at loses
    obtain ⟨next, found, gone⟩ := loses own
    obtain ⟨cron₂, counted, represents₂, -⟩ := represents₁.countDown own
    have freed : cron₂.heap next = none := represents₂.others next
      (mt (JobList.mem_countDown (JobList.after_ne member found).2).mp gone)
    rw [counted, Option.map_some, Option.bind_some, Pass.steps, Pass.step]
    simp only [found, freed]
    rfl
  · rw [countDown, represents₁.others exec own]
    rfl

end Steps

end Ethersex.Cron
