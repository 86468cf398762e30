import Mathlib
import Ethersex.Cron.Model

/-!
# Job lists

What the cells on the heap stand for: a list of jobs with distinct addresses, all
handed out before.  Appending, removing and counting down refine the same operations
on that list.
-/

namespace Ethersex.Cron

open Clock LinkedList

abbrev Job := Address × Event

theorem addresses_filterMap_sublist (change : Job → Option Event) (jobs : List Job) :
    ((jobs.filterMap fun job => (change job).map fun event => (job.1, event)).map Prod.fst).Sublist
      (jobs.map Prod.fst) := by
  induction jobs with
  | nil => exact List.Sublist.refl _
  | cons job jobs ih =>
      cases is : change job with
      | none => simpa [is] using ih.cons job.1
      | some event => simpa [is] using ih.cons_cons job.1

/-- A list of jobs, and the next address. -/
@[ext] structure JobList where
  jobs : List Job
  fresh : Address
  nodup : (jobs.map Prod.fst).Nodup
  used : ∀ address ∈ jobs.map Prod.fst, address < fresh

namespace JobList

def empty : JobList := ⟨[], 0, List.nodup_nil, fun _ member => absurd member List.not_mem_nil⟩

abbrev addresses (list : JobList) : List Address := list.jobs.map Prod.fst

theorem fresh_not_mem (list : JobList) : list.fresh ∉ list.addresses :=
  fun member => Nat.lt_irrefl _ (list.used _ member)

def append (event : Event) (list : JobList) : JobList where
  jobs := list.jobs ++ [(list.fresh, event)]
  fresh := list.fresh + 1
  nodup := by
    rw [List.map_append]
    refine list.nodup.append (List.nodup_singleton _) ?_
    exact List.disjoint_singleton.mpr list.fresh_not_mem
  used := fun address member => by
    rcases List.mem_append.mp (List.map_append ▸ member) with old | new
    · exact Nat.lt_succ_of_lt (list.used address old)
    · rw [List.mem_singleton.mp new]
      exact Nat.lt_succ_self _

/-- Every job with another event, or without one: the job is dropped. -/
def revise (change : Job → Option Event) (list : JobList) : JobList where
  jobs := list.jobs.filterMap fun job => (change job).map fun event => (job.1, event)
  fresh := list.fresh
  nodup := list.nodup.sublist (addresses_filterMap_sublist change list.jobs)
  used := fun address member =>
    list.used address ((addresses_filterMap_sublist change list.jobs).subset member)

theorem jobs_revise (change : Job → Option Event) (list : JobList) :
    (list.revise change).jobs =
      list.jobs.filterMap fun job => (change job).map fun event => (job.1, event) := rfl

/-- Another event for one job, or none. -/
def set (address : Address) (new : Option Event) : JobList → JobList :=
  revise fun job => if job.1 = address then new else some job.2

def erase (address : Address) : JobList → JobList := set address none

def clear : JobList → JobList := revise fun _ => none

@[simp] theorem jobs_clear (list : JobList) : list.clear.jobs = [] := by
  simp [clear, jobs_revise]

@[simp] theorem clear_erase (address : Address) (list : JobList) :
    (list.erase address).clear = list.clear :=
  JobList.ext ((jobs_clear _).trans (jobs_clear _).symm) rfl

theorem clear_of_empty {list : JobList} (empty : list.jobs = []) : list.clear = list :=
  JobList.ext (list.jobs_clear.trans empty.symm) rfl

theorem length_le_fresh (list : JobList) : list.jobs.length ≤ list.fresh := by
  have subset : list.addresses ⊆ List.range list.fresh :=
    fun address member => List.mem_range.mpr (list.used address member)
  have := (list.nodup.subperm subset).length_le
  simpa [addresses] using this

section Split

variable {list : JobList} {front back : List Job} {address : Address} {event : Event}

/-- The other jobs have other addresses. -/
theorem ne_of_split (split : list.jobs = front ++ (address, event) :: back) :
    (∀ job ∈ front, job.1 ≠ address) ∧ ∀ job ∈ back, job.1 ≠ address := by
  have nodup := list.nodup
  rw [split, List.map_append, List.map_cons, List.nodup_middle, List.nodup_cons, List.mem_append,
    not_or] at nodup
  exact ⟨fun job member same => nodup.1.1 (List.mem_map.mpr ⟨job, member, same⟩),
    fun job member same => nodup.1.2 (List.mem_map.mpr ⟨job, member, same⟩)⟩

theorem exists_split (member : address ∈ list.addresses) :
    ∃ front event back, list.jobs = front ++ (address, event) :: back := by
  obtain ⟨job, member, is⟩ := List.mem_map.mp member
  obtain ⟨front, back, split⟩ := List.append_of_mem member
  exact ⟨front, job.2, back, by rw [split, ← is]⟩

/-- A change that is about one job. -/
theorem jobs_revise_split (split : list.jobs = front ++ (address, event) :: back)
    (change : Job → Option Event) (elsewhere : ∀ job, job.1 ≠ address → change job = some job.2) :
    (list.revise change).jobs =
      front ++ ((change (address, event)).map fun event => (address, event)).toList ++ back := by
  have same : ∀ jobs : List Job, (∀ job ∈ jobs, job.1 ≠ address) →
      jobs.filterMap (fun job => (change job).map fun event => (job.1, event)) = jobs := by
    intro jobs others
    refine Eq.trans (List.filterMap_congr fun job member => ?_) List.filterMap_some
    rw [elsewhere job (others job member)]
    rfl
  obtain ⟨inFront, inBack⟩ := ne_of_split split
  rw [jobs_revise, split, List.filterMap_append, same front inFront, List.filterMap_cons,
    same back inBack]
  cases change (address, event) <;> simp

theorem jobs_set (split : list.jobs = front ++ (address, event) :: back) (new : Event) :
    (list.set address (some new)).jobs = front ++ (address, new) :: back := by
  rw [set, jobs_revise_split split _ fun job different => if_neg different]
  simp

theorem jobs_erase (split : list.jobs = front ++ (address, event) :: back) :
    (list.erase address).jobs = front ++ back := by
  rw [erase, set, jobs_revise_split split _ fun job different => if_neg different]
  simp

theorem mem_erase {other : Address} :
    other ∈ (list.erase address).addresses ↔ other ∈ list.addresses ∧ other ≠ address := by
  simp only [addresses, erase, set, jobs_revise, List.mem_map, List.mem_filterMap, Option.map_eq_some_iff]
  constructor
  · rintro ⟨_, ⟨job, member, event, kept, rfl⟩, rfl⟩
    exact ⟨⟨job, member, rfl⟩, fun same => absurd same (by simp at kept; exact kept.1)⟩
  · rintro ⟨⟨job, member, rfl⟩, different⟩
    exact ⟨job, ⟨job, member, job.2, if_neg different, rfl⟩, rfl⟩

end Split

end JobList

/-! ## Representation -/

/-- The cells on the heap are the jobs of the list. -/
structure Represents (cron : State) (list : JobList) : Prop where
  linked : Linked cron.heap cron.head cron.tail list.jobs
  fresh : cron.fresh = list.fresh
  others : ∀ address ∉ list.addresses, cron.heap address = none

/-- The variables that do not belong to the list. -/
def SameSettings (cron other : State) : Prop :=
  other.lastCheck = cron.lastCheck ∧ other.useUtc = cron.useUtc

theorem SameSettings.refl (cron : State) : SameSettings cron cron := ⟨rfl, rfl⟩

theorem SameSettings.trans {first second third : State} (before : SameSettings first second)
    (after : SameSettings second third) : SameSettings first third :=
  ⟨after.1.trans before.1, after.2.trans before.2⟩

theorem represents_cronInit (defaultUtc : Bool) :
    Represents (cronInit defaultUtc) .empty :=
  ⟨linked_nil, rfl, fun _ _ => rfl⟩

section Represents

variable {cron : State} {list : JobList}

/-- What is stored at the address of a job. -/
theorem Represents.cell (represents : Represents cron list) {front back : List Job}
    {address : Address} {event : Event} (split : list.jobs = front ++ (address, event) :: back) :
    cron.heap address = some ⟨first back none, LinkedList.last front none, event⟩ :=
  (split ▸ represents.linked).cell

theorem Represents.isSome_iff (represents : Represents cron list) (address : Address) :
    (cron.heap address).isSome ↔ address ∈ list.addresses := by
  constructor
  · intro live
    by_contra outside
    simp [represents.others address outside] at live
  · intro member
    obtain ⟨front, event, back, split⟩ := JobList.exists_split member
    simp [represents.cell split]

/-- The heap determines the list. -/
theorem Represents.unique (represents : Represents cron list) {other : JobList}
    (again : Represents cron other) : list = other := by
  have addresses := represents.linked.walks.1.deterministic again.linked.walks.1
  refine JobList.ext ?_ (represents.fresh.symm.trans again.fresh)
  refine List.ext_getElem (by simpa using congrArg List.length addresses) fun index here there => ?_
  have same : (list.jobs[index]).1 = (other.jobs[index]).1 := by
    have mapped := List.getElem_of_eq addresses (by simpa using here)
    rwa [List.getElem_map, List.getElem_map] at mapped
  obtain ⟨cell, is, value⟩ := represents.linked.segment.mem (List.getElem_mem here)
  obtain ⟨cell', is', value'⟩ := again.linked.segment.mem (List.getElem_mem there)
  rw [same, is'] at is
  obtain rfl := Option.some.inj is
  exact Prod.ext same (value.symm.trans value')

/-! ## Finding -/

theorem walkTo_spec {heap : Heap Address Event} {before : Option Address} {nodes : List Job}
    (segment : Segment heap before nodes none) (steps : Nat) :
    walkTo heap steps (first nodes none) = some ((nodes.map Prod.fst)[steps]?) := by
  induction steps generalizing before nodes with
  | zero => cases nodes <;> rfl
  | succ steps ih =>
      cases nodes with
      | nil => rfl
      | cons node nodes =>
          rw [first_cons, walkTo, segment.1]
          exact ih segment.2

theorem Represents.cronGetjob (represents : Represents cron list) (jobposition : UInt8) :
    cronGetjob jobposition cron = some (list.addresses[jobposition.toNat]?) := by
  rw [Cron.cronGetjob, represents.linked.head]
  exact walkTo_spec represents.linked.segment jobposition.toNat

/-! ## Inserting -/

/-- The new job is appended to an empty list, and at positions that are not positive. -/
theorem Represents.cronJobinsert (represents : Represents cron list) (event : Event)
    {position : Int8} (appends : list.jobs = [] ∨ ¬0 < position) :
    ∃ cron', cronJobinsert event position cron = some cron' ∧
      Represents cron' (list.append event) ∧ SameSettings cron cron' := by
  have outside := list.fresh_not_mem
  obtain ⟨heap, link, linked, frame⟩ := Linked.append
    (represents.linked.congr fun address member => Function.update_of_ne
      (ne_of_mem_of_not_mem member outside) (some ⟨none, cron.tail, event⟩) cron.heap)
    outside (Function.update_self _ _ _)
  refine ⟨{ cron with
    heap, fresh := cron.fresh + 1, head := first (list.append event).jobs none
    tail := some list.fresh }, ?_, ⟨linked, by rw [represents.fresh]; rfl, ?_⟩, rfl, rfl⟩
  · rw [Cron.cronJobinsert, represents.fresh]
    rcases Decidable.em (list.jobs = []) with empty | nonempty
    · have head := represents.linked.head_eq_none.mpr empty
      rw [represents.linked.tail_eq_none.mpr empty] at link
      simp [cronInsert, newJob, head, represents.fresh, JobList.append, empty, ← Option.some.inj link]
    · obtain ⟨head, isHead⟩ :=
        Option.ne_none_iff_exists'.mp (mt represents.linked.head_eq_none.mp nonempty)
      obtain ⟨tail, isTail⟩ :=
        Option.ne_none_iff_exists'.mp (mt represents.linked.tail_eq_none.mp nonempty)
      have keeps : first (list.append event).jobs none = some head := by
        rw [← isHead, represents.linked.head, JobList.append, first_append]
        cases is : list.jobs with
        | nil => exact absurd is nonempty
        | cons job rest => rfl
      rw [isTail, ifSome] at link
      simp [cronInsert, newJob, isHead, isTail, represents.fresh, appends.resolve_left nonempty,
        link, keeps]
  · intro address absent
    rw [JobList.addresses, JobList.append, List.map_append, List.mem_append, not_or] at absent
    refine (frame address absent.1).trans ?_
    rw [Function.update_of_ne (by simpa using absent.2), represents.others address absent.1]

/-! ## Removing -/

theorem Represents.removeJob (represents : Represents cron list) {address : Address}
    (member : address ∈ list.addresses) :
    ∃ cron', removeJob address cron = some cron' ∧ Represents cron' (list.erase address) ∧
      SameSettings cron cron' := by
  obtain ⟨front, event, back, split⟩ := JobList.exists_split member
  have cell := represents.cell split
  have before := split ▸ represents.linked
  obtain ⟨heap₁, heap₂, write₁, same₁, write₂, same₂, linked, frame⟩ := before.erase
  rw [cell] at same₁ same₂
  have head := before.head_erase
  have tail := before.tail_erase
  rw [← JobList.jobs_erase split] at linked head tail
  refine ⟨{ cron with
    heap := Function.update heap₂ address none
    head := first (list.erase address).jobs none
    tail := LinkedList.last (list.erase address).jobs none }, ?_, ⟨linked, represents.fresh, ?_⟩,
    rfl, rfl⟩
  · simp [Cron.removeJob, cell, write₁, same₁, write₂, free, same₂, head, tail]
  · intro other absent
    rw [JobList.mem_erase, not_and_not_right] at absent
    rcases Decidable.em (other = address) with rfl | different
    · exact Function.update_self _ _ _
    · have outside : other ∉ list.addresses := fun member => different (absent member)
      refine (Function.update_of_ne different _ _).trans ?_
      rw [frame other (split ▸ outside), represents.others other outside]

/-- Without a position, every job is removed. -/
theorem Represents.removeAll (represents : Represents cron list) {passes : Nat}
    (enough : list.jobs.length ≤ passes) :
    ∃ cron', removeAll passes cron = some cron' ∧ Represents cron' list.clear ∧
      SameSettings cron cron' := by
  induction passes generalizing cron list with
  | zero =>
      have empty := List.length_eq_zero_iff.mp (Nat.le_zero.mp enough)
      exact ⟨cron, if_pos (represents.linked.head_eq_none.mpr empty),
        (JobList.clear_of_empty empty).symm ▸ represents, .refl _⟩
  | succ passes ih =>
      cases is : list.jobs with
      | nil =>
          refine ⟨cron, ?_, (JobList.clear_of_empty is).symm ▸ represents, .refl _⟩
          rw [Cron.removeAll, represents.linked.head_eq_none.mpr is]
      | cons job rest =>
          have member : job.1 ∈ list.addresses := by simp [JobList.addresses, is]
          obtain ⟨cron₁, ran, represents₁, same₁⟩ := represents.removeJob member
          have shorter : (list.erase job.1).jobs.length ≤ passes := by
            have split : list.jobs = [] ++ (job.1, job.2) :: rest := is
            rw [JobList.jobs_erase split]
            rw [is] at enough
            exact Nat.le_of_succ_le_succ enough
          obtain ⟨cron₂, others, represents₂, same₂⟩ := ih represents₁ shorter
          refine ⟨cron₂, ?_, JobList.clear_erase job.1 list ▸ represents₂, same₁.trans same₂⟩
          rw [Cron.removeAll, represents.linked.head, is, first_cons]
          exact (congrArg (·.bind (Cron.removeAll passes)) ran).trans others

/-! ## Commands -/

/-- What an edit does to the list of jobs. -/
def Edit.apply (list : JobList) : Edit → JobList
  | .rm jobposition =>
      match list.addresses[jobposition.toNat]? with
      | none => list
      | some address => list.erase address
  | .rmAll => list.clear
  | .add event => list.append event

def applyEdits (edits : List Edit) (list : JobList) : JobList := edits.foldl Edit.apply list

theorem Represents.edit (represents : Represents cron list) (edit : Edit) :
    ∃ cron', edit.run cron = some cron' ∧ Represents cron' (edit.apply list) ∧
      SameSettings cron cron' := by
  cases edit with
  | rm jobposition =>
      rw [Edit.run, represents.cronGetjob, Edit.apply]
      cases is : list.addresses[jobposition.toNat]? with
      | none => exact ⟨cron, rfl, represents, .refl _⟩
      | some address => exact represents.removeJob (List.mem_of_getElem? is)
  | rmAll =>
      refine represents.removeAll ?_
      rw [represents.fresh]
      exact list.length_le_fresh
  | add event => exact represents.cronJobinsert event (Or.inr (by decide))

theorem Represents.edits (represents : Represents cron list) (edits : List Edit) :
    ∃ cron', runEdits edits cron = some cron' ∧ Represents cron' (applyEdits edits list) ∧
      SameSettings cron cron' := by
  induction edits generalizing cron list with
  | nil => exact ⟨cron, rfl, represents, .refl _⟩
  | cons edit edits ih =>
      obtain ⟨cron₁, ran, represents₁, same₁⟩ := represents.edit edit
      obtain ⟨cron₂, others, represents₂, same₂⟩ := ih represents₁
      refine ⟨cron₂, ?_, represents₂, same₁.trans same₂⟩
      rw [runEdits, List.foldlM_cons, ran]
      exact others

/-! ## Counting down -/

/-- Writing the event of a job. -/
theorem Represents.setValue (represents : Represents cron list) {front back : List Job}
    {address : Address} {event : Event} (split : list.jobs = front ++ (address, event) :: back)
    (new : Event) :
    ∃ heap, setValue address new cron.heap = some heap ∧
      Represents { cron with heap } (list.set address (some new)) := by
  obtain ⟨heap, write, linked, frame⟩ := (split ▸ represents.linked).setValue new
  have jobs := JobList.jobs_set split new
  refine ⟨heap, write, ⟨jobs ▸ linked, represents.fresh, fun other absent => ?_⟩⟩
  have outside : other ∉ list.addresses := by
    rw [JobList.addresses, split]
    simpa [JobList.addresses, jobs] using absent
  have different : other ≠ address := by
    rintro rfl
    exact outside (by simp [JobList.addresses, split])
  exact (frame other different).trans (represents.others other outside)

end Represents

/-- The event of an executed job: it is dropped with its last repetition. -/
def Event.countDown (event : Event) : Option Event :=
  if event.repeats > 0 then
    if event.repeats - 1 = 0 then none else some { event with repeats := event.repeats - 1 }
  else some event

def JobList.countDown (exec : Address) : JobList → JobList :=
  revise fun job => if job.1 = exec then job.2.countDown else some job.2

theorem JobList.jobs_countDown {list : JobList} {front back : List Job} {exec : Address}
    {event : Event} (split : list.jobs = front ++ (exec, event) :: back) :
    (list.countDown exec).jobs =
      front ++ (event.countDown.map fun event => (exec, event)).toList ++ back := by
  rw [JobList.countDown, jobs_revise_split split _ fun job different => if_neg different,
    if_pos rfl]

theorem Represents.countDown {cron : State} {list : JobList} (represents : Represents cron list)
    {exec : Address} (member : exec ∈ list.addresses) :
    ∃ cron', countDown exec cron = some cron' ∧ Represents cron' (list.countDown exec) ∧
      SameSettings cron cron' := by
  obtain ⟨front, event, back, split⟩ := JobList.exists_split member
  have jobs := JobList.jobs_countDown split
  rw [Cron.countDown, represents.cell split]
  rcases Decidable.em (event.repeats > 0) with counts | forever
  · obtain ⟨heap, write, represents₁⟩ :=
      represents.setValue split { event with repeats := event.repeats - 1 }
    have split₁ := JobList.jobs_set split { event with repeats := event.repeats - 1 }
    rcases Decidable.em (event.repeats - 1 = 0) with last | more
    · have same : (list.set exec (some { event with repeats := event.repeats - 1 })).erase exec =
          list.countDown exec := by
        refine JobList.ext ?_ rfl
        rw [JobList.jobs_erase split₁, jobs, Event.countDown, if_pos counts, if_pos last]
        simp
      obtain ⟨cron', removed, represents₂, settings⟩ := represents₁.removeJob
        (show exec ∈ _ by simp [JobList.addresses, split₁])
      refine ⟨cron', ?_, same ▸ represents₂, settings⟩
      simp only [Option.bind_eq_bind, Option.bind_some, if_pos counts, write, if_pos last]
      exact removed
    · have same : list.set exec (some { event with repeats := event.repeats - 1 }) =
          list.countDown exec := by
        refine JobList.ext ?_ rfl
        rw [split₁, jobs, Event.countDown, if_pos counts, if_neg more]
        simp
      refine ⟨{ cron with heap }, ?_, same ▸ represents₁, .refl _⟩
      simp [counts, write, more]
  · have same : list = list.countDown exec := by
      refine JobList.ext ?_ rfl
      rw [split, jobs, Event.countDown, if_neg forever]
      simp
    exact ⟨cron, by simp [forever], same ▸ represents, .refl _⟩

end Ethersex.Cron
