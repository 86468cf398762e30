import Mathlib
import Ethersex.Cron.Sweep

/-!
# Jobs that edit the list

How far the loop of `cron_periodic` comes when the commands it executes remove and add
jobs.  It considers every job that stays on the list, unless a command removes its own
job or the one behind it.
-/

namespace Ethersex.Cron

open Clock LinkedList

/-! ## Edited lists -/

theorem Edit.apply_jobs (edit : Edit) (list : JobList) :
    ∃ kept new, (edit.apply list).jobs = kept ++ new ∧ kept.Sublist list.jobs ∧
      (∀ job ∈ new, list.fresh ≤ job.1) ∧ list.fresh ≤ (edit.apply list).fresh := by
  cases edit with
  | rm jobposition =>
      rw [Edit.apply]
      split
      · exact ⟨list.jobs, [], by simp, List.Sublist.refl _, by simp, le_rfl⟩
      next address is =>
        obtain ⟨front, event, back, split⟩ := JobList.exists_split (List.mem_of_getElem? is)
        refine ⟨front ++ back, [], by rw [JobList.jobs_erase split]; simp, ?_, by simp, le_rfl⟩
        rw [split]
        exact List.Sublist.append_left (List.sublist_cons_self _ _) _
  | rmAll => exact ⟨[], [], by simp [Edit.apply], List.nil_sublist _, by simp, le_rfl⟩
  | add event =>
      exact ⟨list.jobs, [(list.fresh, event)], rfl, List.Sublist.refl _, by simp, Nat.le_succ _⟩

/-- Edits drop jobs and append new ones. -/
theorem applyEdits_jobs (edits : List Edit) (list : JobList) :
    ∃ kept new, (applyEdits edits list).jobs = kept ++ new ∧ kept.Sublist list.jobs ∧
      (∀ job ∈ new, list.fresh ≤ job.1) ∧ list.fresh ≤ (applyEdits edits list).fresh := by
  induction edits generalizing list with
  | nil => exact ⟨list.jobs, [], by simp [applyEdits], List.Sublist.refl _, by simp, le_rfl⟩
  | cons edit edits ih =>
      obtain ⟨kept₁, new₁, jobs₁, sublist₁, fresh₁, grown₁⟩ := edit.apply_jobs list
      obtain ⟨kept₂, new₂, jobs₂, sublist₂, fresh₂, grown₂⟩ := ih (edit.apply list)
      rw [jobs₁] at sublist₂
      obtain ⟨kept, new, rfl, inKept, inNew⟩ := List.sublist_append_iff.mp sublist₂
      refine ⟨kept, new ++ new₂, jobs₂.trans (List.append_assoc _ _ _), inKept.trans sublist₁, ?_,
        grown₁.trans grown₂⟩
      intro job member
      rcases List.mem_append.mp member with old | late
      · exact fresh₁ job (inNew.subset old)
      · exact grown₁.trans (fresh₂ job late)

/-- Around a job that stays, edits drop jobs in front of it and behind it, and append
new ones. -/
theorem edited_split {list : JobList} {front back : List Job} {exec : Address} {event : Event}
    (split : list.jobs = front ++ (exec, event) :: back) {edits : List Edit}
    (stays : exec ∈ (applyEdits edits list).addresses) :
    ∃ front' back' new, (applyEdits edits list).jobs = front' ++ (exec, event) :: (back' ++ new) ∧
      front'.Sublist front ∧ back'.Sublist back ∧ ∀ job ∈ new, list.fresh ≤ job.1 := by
  obtain ⟨kept, new, jobs, sublist, fresh, -⟩ := applyEdits_jobs edits list
  obtain ⟨inFront, inBack⟩ := JobList.ne_of_split split
  have old : exec < list.fresh := list.used exec (by simp [split])
  rw [split] at sublist
  obtain ⟨front', rest, rfl, first, second⟩ := List.sublist_append_iff.mp sublist
  rcases List.sublist_cons_iff.mp second with dropped | ⟨back', rfl, third⟩
  · obtain ⟨job, member, rfl⟩ := List.mem_map.mp stays
    rw [jobs, List.append_assoc, List.mem_append, List.mem_append] at member
    rcases member with member | member | member
    · exact absurd rfl (inFront job (first.subset member))
    · exact absurd rfl (inBack job (dropped.subset member))
    · exact absurd old (Nat.not_lt.mpr (fresh job member))
  · exact ⟨front', back', new, by simp [jobs], first, third, fresh⟩

/-! ## Jobs ahead -/

/-- The addresses from the job on that the loop looks at next. -/
def Sweep.ahead (sweep : Sweep) : List Address :=
  match sweep.current with
  | none => []
  | some exec => (sweep.list.jobs.dropWhile fun job => job.1 ≠ exec).map Prod.fst

section Ahead

variable {date : Datetime} {effects : Nat → List Edit} {sweep : Sweep}

theorem Sweep.ahead_split {front back : List Job} (split : sweep.list.jobs = front ++ back)
    (is : sweep.current = first back none) : sweep.ahead = back.map Prod.fst := by
  cases back with
  | nil => rw [ahead, is]; rfl
  | cons job back =>
      have exec : sweep.current = some job.1 := is
      rw [ahead, exec]
      exact congrArg (List.map Prod.fst) (JobList.dropWhile_split split)

/-- A job behind the executed one that is on the edited list is among those kept. -/
theorem mem_kept {list : JobList} {front back front' back' new : List Job} {exec : Address}
    {event : Event} (split : list.jobs = front ++ (exec, event) :: back)
    (inFront : front'.Sublist front) (fresh : ∀ job ∈ new, list.fresh ≤ job.1)
    {events : Option Event} {address : Address} (behind : address ∈ back.map Prod.fst)
    (member : address ∈ (front' ++ (events.map fun event => (exec, event)).toList ++
      (back' ++ new)).map Prod.fst) : address ∈ back'.map Prod.fst := by
  have nodup := list.nodup
  rw [split, List.map_append, List.map_cons, List.nodup_append, List.nodup_cons] at nodup
  have old : address < list.fresh :=
    list.used address (by rw [split]; simp only [List.map_append, List.map_cons]; simp [behind])
  simp only [List.map_append, List.mem_append] at member
  rcases member with (member | member) | member | member
  · exact absurd rfl (nodup.2.2 address ((inFront.map Prod.fst).subset member) address
      (List.mem_cons_of_mem _ behind))
  · have same : address = exec := by
      cases events <;> simp_all
    exact absurd (same ▸ behind) nodup.2.1.1
  · exact member
  · obtain ⟨job, late, rfl⟩ := List.mem_map.mp member
    exact absurd old (Nat.not_lt.mpr (fresh job late))

/-- The first of some jobs is the first of those kept, if it is kept. -/
theorem first_of_sublist {next : Job} {back kept : List Job} (sublist : kept.Sublist (next :: back))
    (nodup : ((next :: back).map Prod.fst).Nodup) (stays : next.1 ∈ kept.map Prod.fst)
    (new : List Job) : first (kept ++ new) none = some next.1 := by
  rcases List.sublist_cons_iff.mp sublist with dropped | ⟨rest, rfl, -⟩
  · rw [List.map_cons, List.nodup_cons] at nodup
    exact absurd ((dropped.map Prod.fst).subset stays) nodup.1
  · rfl

/-- What is ahead after a pass of the loop. -/
theorem Sweep.ahead_step (keeps : sweep.Keeps date effects) {exec : Address}
    (is : sweep.current = some exec) (listed : exec ∈ sweep.list.addresses) :
    ∃ rest kept new, sweep.ahead = exec :: rest ∧
      (sweep.step date effects).ahead = kept ++ new ∧ kept.Sublist rest ∧
      (∀ address ∈ new, sweep.list.fresh ≤ address) ∧
      ∀ address ∈ rest, address ∈ (sweep.step date effects).list.addresses → address ∈ kept := by
  obtain ⟨front, event, back, split⟩ := JobList.exists_split listed
  have ahead : sweep.ahead = exec :: back.map Prod.fst := Sweep.ahead_split split is
  have after := JobList.after_split split
  refine ⟨back.map Prod.fst, ?_⟩
  by_cases due : sweep.list.IsDue date exec
  · have step : sweep.step date effects = ⟨(sweep.edited effects).countDown exec, first back none,
        sweep.considered ++ [exec], sweep.fired ++ [exec]⟩ := by
      rw [Sweep.step, is]
      simp only [if_pos due, after]
    obtain ⟨own, behind⟩ := keeps exec is due
    obtain ⟨front', back', new, edited, inFront, inBack, fresh⟩ := edited_split split own
    have jobs := JobList.jobs_countDown edited
    rw [step]
    cases back with
    | nil => exact ⟨[], [], ahead, rfl, List.nil_sublist _, by simp, by simp⟩
    | cons next back =>
        have counted : ∀ address ∈ (next :: back).map Prod.fst,
            address ∈ ((sweep.edited effects).countDown exec).addresses →
              address ∈ back'.map Prod.fst := by
          intro address member on
          rw [JobList.addresses, Sweep.edited, jobs] at on
          exact mem_kept split inFront fresh member on
        have found : sweep.list.after exec = some next.1 := after
        have stays : next.1 ∈ back'.map Prod.fst :=
          counted next.1 (by simp)
            ((JobList.mem_countDown (JobList.after_ne listed found).2).mpr (behind next.1 found))
        refine ⟨back'.map Prod.fst, new.map Prod.fst, ahead, ?_, inBack.map _, ?_, counted⟩
        · rw [← List.map_append]
          refine Sweep.ahead_split jobs ?_
          have nodup : ((next :: back).map Prod.fst).Nodup := by
            refine sweep.list.nodup.sublist (List.Sublist.map _ ?_)
            rw [split]
            exact (List.sublist_cons_self _ _).trans (List.sublist_append_right _ _)
          exact (first_of_sublist inBack nodup stays new).symm
        · intro address member
          obtain ⟨job, late, rfl⟩ := List.mem_map.mp member
          exact fresh job late
  · have step : sweep.step date effects =
        { sweep with current := first back none, considered := sweep.considered ++ [exec] } := by
      rw [Sweep.step, is]
      simp only [if_neg due, after]
    rw [step]
    refine ⟨back.map Prod.fst, [], ahead, ?_, List.Sublist.refl _, by simp, fun _ member _ => member⟩
    rw [List.append_nil]
    exact Sweep.ahead_split (split.trans (List.append_cons _ _ _)) rfl

theorem Sweep.considered_step {exec : Address} (is : sweep.current = some exec) :
    (sweep.step date effects).considered = sweep.considered ++ [exec] := by
  rw [Sweep.step, is]
  dsimp only
  split <;> rfl

/-- No address comes back. -/
theorem Sweep.mem_step {address : Address} (old : address < sweep.list.fresh)
    (member : address ∈ (sweep.step date effects).list.addresses) :
    address ∈ sweep.list.addresses := by
  unfold Sweep.step at member
  split at member
  · exact member
  · split at member
    · obtain ⟨kept, new, jobs, sublist, fresh, -⟩ :=
        applyEdits_jobs (effects sweep.fired.length) sweep.list
      have edited := (addresses_filterMap_sublist _ _).subset member
      rw [Sweep.edited, jobs, List.map_append, List.mem_append] at edited
      rcases edited with edited | late
      · exact (sublist.map Prod.fst).subset edited
      · obtain ⟨job, inNew, rfl⟩ := List.mem_map.mp late
        exact absurd old (Nat.not_lt.mpr (fresh job inNew))
    · exact member

theorem Sweep.fresh_le_step :
    sweep.list.fresh ≤ (sweep.step date effects).list.fresh := by
  unfold Sweep.step
  split
  · exact le_rfl
  · split
    · obtain ⟨-, -, -, -, -, grown⟩ := applyEdits_jobs (effects sweep.fired.length) sweep.list
      exact grown
    · exact le_rfl

theorem Sweep.ahead_of_end (is : sweep.current = none) : sweep.ahead = [] := by
  rw [ahead, is]

end Ahead

/-! ## The whole loop -/

/-- The loop on the list after some passes. -/
def Sweep.run (date : Datetime) (effects : Nat → List Edit) (list : JobList) (passes : Nat) :
    Sweep :=
  (Sweep.step date effects)^[passes] (Sweep.start list)

/-- No executed command removes its own job or the job behind it. -/
def KeepsNeighbours (date : Datetime) (effects : Nat → List Edit) (list : JobList) : Prop :=
  ∀ passes, (Sweep.run date effects list passes).Keeps date effects

/-- After some passes of the loop: which of the jobs that were on the list at first are
still ahead. -/
structure Progress (list : JobList) (passes : Nat) (sweep : Sweep) : Prop where
  accounted : ∀ address ∈ list.addresses,
    address ∈ sweep.considered ∨ address ∉ sweep.list.addresses ∨ address ∈ sweep.ahead
  remaining : (sweep.ahead.filter (· < list.fresh)).Sublist (list.addresses.drop passes)
  order : sweep.ahead.Pairwise fun first second => list.fresh ≤ first → list.fresh ≤ second
  grown : list.fresh ≤ sweep.list.fresh

theorem progress_start (list : JobList) : Progress list 0 (Sweep.start list) := by
  have ahead : (Sweep.start list).ahead = list.addresses := Sweep.ahead_split (List.nil_append _).symm rfl
  refine ⟨fun address member => Or.inr (Or.inr (ahead ▸ member)), ?_, ?_, le_rfl⟩
  · exact ahead ▸ List.filter_sublist
  · rw [ahead]
    refine List.pairwise_of_forall_mem_list fun first inFirst second inSecond late => ?_
    exact absurd (list.used first inFirst) (Nat.not_lt.mpr late)

section Progress

variable {date : Datetime} {effects : Nat → List Edit} {list : JobList} {passes : Nat}
  {sweep : Sweep}

theorem Progress.step (progress : Progress list passes sweep) (keeps : sweep.Keeps date effects)
    (listed : sweep.Listed) :
    Progress list (passes + 1) (sweep.step date effects) := by
  cases is : sweep.current with
  | none =>
      have same : sweep.step date effects = sweep := by rw [Sweep.step, is]
      rw [same]
      refine ⟨progress.accounted, ?_, progress.order, progress.grown⟩
      rw [Sweep.ahead_of_end is]
      exact List.nil_sublist _
  | some exec =>
      obtain ⟨rest, kept, new, ahead, after, sublist, fresh, stays⟩ :=
        Sweep.ahead_step keeps is (listed exec is)
      obtain ⟨early, order⟩ := List.pairwise_cons.mp (ahead ▸ progress.order)
      have late : ∀ address ∈ new, list.fresh ≤ address :=
        fun address member => progress.grown.trans (fresh address member)
      refine ⟨fun address member => ?_, ?_, ?_, progress.grown.trans Sweep.fresh_le_step⟩
      · rw [Sweep.considered_step is, after, List.mem_append, List.mem_append]
        have old := Nat.lt_of_lt_of_le (list.used address member) progress.grown
        rcases progress.accounted address member with before | gone | here
        · exact Or.inl (Or.inl before)
        · exact Or.inr (Or.inl (mt (Sweep.mem_step old) gone))
        · rw [ahead] at here
          rcases List.mem_cons.mp here with rfl | here
          · exact Or.inl (Or.inr (List.mem_singleton_self _))
          · by_cases on : address ∈ (sweep.step date effects).list.addresses
            · exact Or.inr (Or.inr (Or.inl (stays address here on)))
            · exact Or.inr (Or.inl on)
      · have others : new.filter (· < list.fresh) = [] :=
          List.filter_eq_nil_iff.mpr fun address member => by simpa using late address member
        rw [after, List.filter_append, others, List.append_nil]
        refine (sublist.filter _).trans ?_
        have remaining := ahead ▸ progress.remaining
        by_cases old : exec < list.fresh
        · rw [List.filter_cons_of_pos (by simpa using old)] at remaining
          rw [← List.tail_drop]
          exact remaining.tail
        · have none : rest.filter (· < list.fresh) = [] :=
            List.filter_eq_nil_iff.mpr fun address member => by
              simpa using early address member (Nat.not_lt.mp old)
          rw [none]
          exact List.nil_sublist _
      · rw [after, List.pairwise_append]
        refine ⟨order.sublist sublist, ?_, fun _ _ second member _ => late second member⟩
        exact List.pairwise_of_forall_mem_list fun _ _ second member _ => late second member

/-- Without a job that is lost, every job is considered or removed after as many passes
as there were jobs. -/
theorem Progress.done (progress : Progress list passes sweep)
    (enough : list.jobs.length ≤ passes) {address : Address} (member : address ∈ list.addresses) :
    address ∈ sweep.considered ∨ address ∉ sweep.list.addresses := by
  rcases progress.accounted address member with before | gone | here
  · exact Or.inl before
  · exact Or.inr gone
  · have remaining := progress.remaining
    rw [List.drop_eq_nil_of_le (by simpa [JobList.addresses] using enough),
      List.sublist_nil, List.filter_eq_nil_iff] at remaining
    exact absurd (list.used address member) (by simpa using remaining address here)

end Progress

/-- The loop does not touch a job that was freed, and after as many passes as there were
jobs it has considered every one of them that was not removed. -/
def Survives (date : Datetime) (effects : Nat → List Edit) (cron : State) (list : JobList) : Prop :=
  ∀ passes, ∃ pass, (Pass.start cron).steps date effects passes = some pass ∧
    (list.jobs.length ≤ passes → ∀ address ∈ list.addresses,
      address ∈ pass.considered ∨ pass.cron.heap address = none)

section Loop

variable {date : Datetime} {effects : Nat → List Edit} {cron : State} {list : JobList}

theorem Pass.steps_succ (passes : Nat) (pass : Pass) :
    pass.steps date effects (passes + 1) =
      (pass.steps date effects passes).bind (Pass.step date effects) := by
  induction passes generalizing pass with
  | zero => cases is : pass.step date effects <;> simp [Pass.steps, is]
  | succ passes ih =>
      rw [Pass.steps]
      cases is : pass.step date effects with
      | none => simp [Pass.steps, is]
      | some next =>
          rw [Option.bind_some, ih next, Pass.steps, is]
          rfl

theorem Pass.steps_add (first second : Nat) (pass : Pass) :
    pass.steps date effects (first + second) =
      (pass.steps date effects first).bind (Pass.steps date effects second) := by
  induction first generalizing pass with
  | zero => simp [Pass.steps]
  | succ first ih =>
      rw [Nat.succ_add, Pass.steps, Pass.steps, Option.bind_assoc]
      exact congrArg _ (funext ih)

/-- The loops stay together as long as no job is lost. -/
theorem simulates_run (represents : Represents cron list) {passes : Nat}
    (keeps : ∀ earlier < passes, (Sweep.run date effects list earlier).Keeps date effects) :
    ∃ pass, (Pass.start cron).steps date effects passes = some pass ∧
      Simulates pass (Sweep.run date effects list passes) ∧
      Progress list passes (Sweep.run date effects list passes) ∧ SameSettings cron pass.cron := by
  induction passes with
  | zero => exact ⟨_, rfl, simulates_start represents, progress_start list, .refl _⟩
  | succ passes ih =>
      obtain ⟨pass, ran, simulates, progress, same⟩ :=
        ih fun earlier before => keeps earlier (Nat.lt_succ_of_lt before)
      have now := keeps passes (Nat.lt_succ_self passes)
      obtain ⟨next, step, simulates', same'⟩ := simulates.step now
      rw [Sweep.run, Function.iterate_succ_apply', Pass.steps_succ, ran]
      exact ⟨next, step, simulates', progress.step now simulates.listed, same.trans same'⟩

theorem survives_iff (represents : Represents cron list) :
    Survives date effects cron list ↔ KeepsNeighbours date effects list := by
  constructor
  · intro survives
    refine fun passes => Nat.strong_induction_on passes fun passes earlier => ?_
    by_contra loses
    obtain ⟨pass, ran, simulates, -⟩ := simulates_run represents earlier
    obtain ⟨_, further, -⟩ := survives (passes + 2)
    rw [Pass.steps_add, ran, Option.bind_some, simulates.faults loses] at further
    exact nomatch further
  · intro keeps passes
    obtain ⟨pass, ran, simulates, progress, -⟩ :=
      simulates_run represents fun earlier (_ : earlier < passes) => keeps earlier
    refine ⟨pass, ran, fun enough address member => ?_⟩
    rw [simulates.considered]
    exact (progress.done enough member).imp_right (simulates.represents.others address)

end Loop

theorem listed_start (list : JobList) : (Sweep.start list).Listed := fun _ is => first_mem is

theorem keepsNeighbours_quiet (date : Datetime) (list : JobList) :
    KeepsNeighbours date quiet list := by
  have listed : ∀ passes, (Sweep.run date quiet list passes).Listed := by
    intro passes
    induction passes with
    | zero => exact listed_start list
    | succ passes ih =>
        rw [Sweep.run, Function.iterate_succ_apply']
        exact ih.step ih.keeps_quiet
  exact fun passes => (listed passes).keeps_quiet

/-- The loop is not entered, or it survives the edits. -/
def CallSurvives (cest : Bool) (effects : Nat → List Edit) (timestamp : UInt32) (cron : State)
    (list : JobList) : Prop :=
  cron.head = none ∨ timestamp - cron.lastCheck < 60 ∨
    ∃ date, dateOf cest cron.useUtc timestamp = some date ∧ Survives date effects cron list

/-- Every minute, `cron_rm 0` is executed. -/
def removeFirst : Event := ⟨-1, -1, -1, -1, -1, 0, .ecmd "cron_rm 0"⟩

/-- The state with this job alone. -/
def oneJob : State :=
  { cronInit true with
    heap := fun address => if address = 0 then some ⟨none, none, removeFirst⟩ else none
    fresh := 1
    head := some 0
    tail := some 0 }

theorem represents_oneJob : Represents oneJob (JobList.empty.append removeFirst) where
  linked := ⟨by decide, ⟨rfl, trivial⟩, rfl, rfl⟩
  fresh := rfl
  others := fun address absent => if_neg fun is => absent (by simp [JobList.append, JobList.empty, is])

end Ethersex.Cron
