import Mathlib
import Ethersex.Clock.Dates
import Ethersex.Cron.Periodic

/-!
# Runs of list operations

Insertions, removals and calls of `cron_periodic` in any order, beside the lists they are
meant to produce.  The list on the heap follows as long as jobs are appended only: an
insertion inside the list leaves out one of the four links, and one at position 0 or
behind the end goes wrong in its own way.
-/

namespace Ethersex.Cron

open Clock LinkedList

/-! ## Well-formed lists -/

/-- Both walks over the list visit the same jobs, in opposite orders. -/
structure WellFormed (cron : State) (jobs : List Address) : Prop where
  distinct : jobs.Nodup
  forward : Walk cron.heap Cell.next cron.head jobs
  backward : Walk cron.heap Cell.prev cron.tail jobs.reverse
  head_prev : ∀ job cell, cron.head = some job → cron.heap job = some cell → cell.prev = none
  tail_next : ∀ job cell, cron.tail = some job → cron.heap job = some cell → cell.next = none
  inverse : ∀ first ∈ jobs, ∀ second ∈ jobs, ∀ cell cell', cron.heap first = some cell →
    cron.heap second = some cell' → (cell.next = some second ↔ cell'.prev = some first)
  ends : cron.head = none ↔ cron.tail = none

theorem Represents.wellFormed {cron : State} {list : JobList} (represents : Represents cron list) :
    WellFormed cron list.addresses where
  distinct := list.nodup
  forward := represents.linked.walks.1
  backward := represents.linked.walks.2
  head_prev := fun _ _ is stored => represents.linked.head_prev is stored
  tail_next := fun _ _ is stored => represents.linked.tail_next is stored
  inverse := fun _ member _ member' _ _ stored stored' =>
    represents.linked.inverse stored stored' member member'
  ends := represents.linked.head_eq_none.trans represents.linked.tail_eq_none.symm

/-! ## Insertions -/

/-- The new job in front of the one at `index`, or behind all of them. -/
def JobList.insert (index : Nat) (event : Event) (list : JobList) : JobList where
  jobs := list.jobs.take index ++ (list.fresh, event) :: list.jobs.drop index
  fresh := list.fresh + 1
  nodup := by
    rw [List.map_append, List.map_cons, List.nodup_middle, ← List.map_append, List.take_append_drop]
    exact List.nodup_cons.mpr ⟨list.fresh_not_mem, list.nodup⟩
  used := fun address member => by
    rw [List.map_append, List.map_cons, List.perm_middle.mem_iff, ← List.map_append,
      List.take_append_drop] at member
    rcases List.mem_cons.mp member with new | old
    · exact Nat.lt_succ_of_le (Nat.le_of_eq new)
    · exact Nat.lt_succ_of_lt (list.used address old)

/-- Where a new job belongs: in front of the job at `position`, or behind all of them. -/
def insertIndex (position : Int8) (list : JobList) : Nat :=
  if 0 ≤ position then position.toInt.toNat else list.jobs.length

/-- Whether `cron_insert` appends the new job where it belongs. -/
def Appends (position : Int8) (list : JobList) : Prop := list.jobs = [] ∨ position < 0

theorem Appends.insert {position : Int8} {list : JobList} (appends : Appends position list)
    (event : Event) : list.insert (insertIndex position list) event = list.append event := by
  refine JobList.ext ?_ rfl
  rcases appends with empty | negative
  · simp [JobList.insert, JobList.append, empty]
  · rw [insertIndex, if_neg (by rwa [Int8.not_le])]
    simp [JobList.insert, JobList.append]

section Insertions

variable {cron cron' : State} {list : JobList} {position : Int8} {event : Event}

theorem index_pos (positive : 0 < position) : 0 < position.toInt.toNat := by
  have larger := Int8.lt_iff_toInt_lt.mp positive
  exact Int.lt_toNat.mpr (by simpa using larger)

/-- Walking forwards, a job inserted inside the list is not found. -/
theorem Represents.forward_of_insert (represents : Represents cron list) (positive : 0 < position)
    (nonempty : list.jobs ≠ []) (inserted : Cron.cronJobinsert event position cron = some cron') :
    Walk cron'.heap Cell.next cron'.head list.addresses := by
  obtain ⟨head, isHead⟩ :=
    Option.ne_none_iff_exists'.mp (mt represents.linked.head_eq_none.mp nonempty)
  have outside : ∀ address ∈ list.addresses, address ≠ cron.fresh := fun address member =>
    represents.fresh ▸ ne_of_mem_of_not_mem member list.fresh_not_mem
  have apart : ∀ address ∈ list.addresses,
      Function.update cron.heap cron.fresh (some ⟨none, none, event⟩) address = cron.heap address :=
    fun address member => Function.update_of_ne (outside address member) _ _
  simp only [Cron.cronJobinsert, cronInsert, newJob, isHead, if_pos positive, Option.bind_eq_bind,
    Option.bind_eq_some_iff, Option.some.injEq] at inserted
  obtain ⟨found, walked, job, rfl, cell, -, heap₁, write₁, heap₂, write₂, heap₃, write₃, rfl⟩ :=
    inserted
  have first : first list.jobs none = some head := represents.linked.head.symm.trans isHead
  have at' : list.addresses[position.toInt.toNat]? = some job := by
    have spec := walkTo_spec (represents.linked.congr apart).segment position.toInt.toNat
    rw [first, walked] at spec
    exact (Option.some.inj spec).symm
  have different : job ≠ head := by
    rintro rfl
    have zero : list.addresses[0]? = some job := by
      cases is : list.jobs with
      | nil => exact absurd is nonempty
      | cons node rest =>
          rw [is] at first
          simpa [JobList.addresses, is] using first
    obtain ⟨short, -⟩ := List.getElem?_eq_some_iff.mp at'
    have same := (List.getElem?_inj short list.nodup).mp (at'.trans zero.symm)
    exact absurd (index_pos positive) (by omega)
  have walk := represents.linked.walks.1
  rw [isHead] at walk
  rw [if_neg different]
  refine walk.congr fun address member => ?_
  dsimp only
  rw [setNext_of_ne write₃ (outside address member), setPrev_next write₂, setPrev_next write₁,
    apart address member]

/-- At any other position the list goes wrong. -/
theorem Represents.insert_wrong (represents : Represents cron list)
    (wrong : ¬Appends position list) (inserted : Cron.cronJobinsert event position cron = some cron') :
    ¬WellFormed cron' (list.insert (insertIndex position list) event).addresses := by
  intro wellFormed
  obtain ⟨nonempty, notNegative⟩ := not_or.mp wrong
  by_cases positive : 0 < position
  · have same := (represents.forward_of_insert positive nonempty inserted).deterministic
      wellFormed.forward
    have lengths := congrArg List.length same
    simp only [JobList.addresses, JobList.insert, List.length_map, List.length_append,
      List.length_cons, List.length_take, List.length_drop] at lengths
    omega
  · have zero : position = 0 :=
      Int8.le_antisymm (Int8.not_lt.mp positive) (Int8.not_lt.mp notNegative)
    obtain ⟨_, appended, represents', -⟩ := represents.cronJobinsert event (Or.inr positive)
    obtain rfl := Option.some.inj (inserted.symm.trans appended)
    have same := represents'.wellFormed.forward.deterministic wellFormed.forward
    cases is : list.jobs with
    | nil => exact absurd is nonempty
    | cons job rest =>
        have first : job.1 = list.fresh := by
          simp [JobList.addresses, JobList.insert, JobList.append, insertIndex, zero, is] at same
          exact same.1
        exact list.fresh_not_mem (first ▸ by simp [JobList.addresses, is])

end Insertions

/-! ## Runs -/

/-- One call.  Jobs that `cron_periodic` executes leave the list alone. -/
inductive Op where
  | insert (event : Event) (position : Int8)
  | jobrm (job : Address)
  | periodic (timestamp : UInt32)

def Op.run (cest : Bool) (cron : State) : Op → Option State
  | .insert event position => cronJobinsert event position cron
  | .jobrm job => cronJobrm (some job) cron
  | .periodic timestamp => (cronPeriodic cest quiet cron.fresh timestamp cron).map Prod.fst

def runOps (cest : Bool) (ops : List Op) (cron : State) : Option State :=
  ops.foldlM (Op.run cest) cron

/-- The list the calls are meant to produce. -/
structure Reference where
  list : JobList
  lastCheck : UInt32

/-- A call of `cron_periodic` removes the jobs executed for the last time, if it looks
at the jobs at all. -/
def Op.refer (cest useUtc : Bool) (reference : Reference) : Op → Reference
  | .insert event position =>
      { reference with
        list := reference.list.insert (insertIndex position reference.list) event }
  | .jobrm job => { reference with list := reference.list.erase job }
  | .periodic timestamp =>
      match dateOf cest useUtc timestamp with
      | none => reference
      | some date =>
          if Checks timestamp reference.lastCheck reference.list then
            ⟨reference.list.tick date, timestamp - date.sec.toUInt32⟩
          else reference

def refer (cest useUtc : Bool) (ops : List Op) : Reference :=
  ops.foldl (Op.refer cest useUtc) ⟨.empty, 0⟩

/-- The list on the heap is the one the calls are meant to produce. -/
def ListRight (cron : State) (list : JobList) : Prop :=
  WellFormed cron list.addresses ∧
    ∀ job ∈ list.jobs, ∃ cell, cron.heap job.1 = some cell ∧ cell.value = job.2

/-- The list is right after every call. -/
def RightThroughout (cest useUtc : Bool) (ops : List Op) : Prop :=
  ∀ done rest, ops = done ++ rest → ∃ cron, runOps cest done (cronInit useUtc) = some cron ∧
    ListRight cron (refer cest useUtc done).list

/-- Every call of a run is right for the list it is made on. -/
def EveryCall (cest useUtc : Bool) (holds : JobList → Op → Prop) (ops : List Op) : Prop :=
  ∀ done call rest, ops = done ++ call :: rest → holds (refer cest useUtc done).list call

/-- `cron_jobrm` is called with a member of the list. -/
def RemovesMember (list : JobList) : Op → Prop
  | .jobrm job => job ∈ list.addresses
  | _ => True

/-- A job is inserted into an empty list or at a negative position. -/
def InsertAppends (list : JobList) : Op → Prop
  | .insert _ position => Appends position list
  | _ => True

theorem dateOf_isSome (cest useUtc : Bool) (timestamp : UInt32) :
    (dateOf cest useUtc timestamp).isSome := by
  unfold dateOf clockLocaltime
  split_ifs
  · exact clockDatetime_isSome timestamp
  · obtain ⟨date, is⟩ := Option.isSome_iff_exists.mp (clockDatetime_isSome timestamp)
    rw [is]
    exact clockDatetime_isSome _
  · exact clockDatetime_isSome timestamp

section Runs

variable {cest useUtc : Bool} {ops : List Op} {cron : State} {reference : Reference}

/-- The state follows the reference. -/
def Follows (useUtc : Bool) (cron : State) (reference : Reference) : Prop :=
  Represents cron reference.list ∧ cron.lastCheck = reference.lastCheck ∧ cron.useUtc = useUtc

theorem Follows.op (follows : Follows useUtc cron reference) (op : Op)
    (member : RemovesMember reference.list op) (appends : InsertAppends reference.list op) :
    ∃ cron', op.run cest cron = some cron' ∧
      Follows useUtc cron' (op.refer cest useUtc reference) := by
  obtain ⟨represents, lastCheck, utc⟩ := follows
  cases op with
  | insert event position =>
      have fits : Appends position reference.list := appends
      obtain ⟨cron', ran, represents', same⟩ := represents.cronJobinsert event
        (fits.imp_right fun negative => Int8.not_lt.mpr (Int8.le_of_lt negative))
      refine ⟨cron', ran, ?_, same.1.trans lastCheck, same.2.trans utc⟩
      rw [Op.refer, fits.insert event]
      exact represents'
  | jobrm job =>
      obtain ⟨cron', ran, represents', same⟩ := represents.removeJob member
      exact ⟨cron', ran, represents', same.1.trans lastCheck, same.2.trans utc⟩
  | periodic timestamp =>
      obtain ⟨date, is⟩ := Option.isSome_iff_exists.mp (dateOf_isSome cest useUtc timestamp)
      rw [Op.run, Op.refer, is]
      by_cases checks : Checks timestamp reference.lastCheck reference.list
      · obtain ⟨cron', ran, represents', checked, same⟩ :=
          represents.cronPeriodic (lastCheck ▸ checks) (utc ▸ is)
            (represents.fresh ▸ reference.list.length_le_fresh)
        rw [ran]
        simp only [if_pos checks]
        exact ⟨cron', rfl, represents', checked, same.trans utc⟩
      · rw [represents.cronPeriodic_skips (lastCheck ▸ checks)]
        simp only [if_neg checks]
        exact ⟨cron, rfl, represents, lastCheck, utc⟩

theorem follows_init (useUtc : Bool) : Follows useUtc (cronInit useUtc) ⟨.empty, 0⟩ :=
  ⟨represents_cronInit useUtc, rfl, rfl⟩

theorem runOps_snoc (op : Op) (start : State) :
    runOps cest (ops ++ [op]) start = (runOps cest ops start).bind fun cron => op.run cest cron := by
  simp [runOps, List.foldlM_append]

theorem refer_snoc (op : Op) :
    refer cest useUtc (ops ++ [op]) = op.refer cest useUtc (refer cest useUtc ops) := by
  simp [refer]

theorem everyCall_nil (holds : JobList → Op → Prop) : EveryCall cest useUtc holds [] :=
  fun done call rest is => absurd is (by simp)

theorem everyCall_snoc {op : Op} {holds : JobList → Op → Prop} :
    EveryCall cest useUtc holds (ops ++ [op]) ↔
      EveryCall cest useUtc holds ops ∧ holds (refer cest useUtc ops).list op := by
  constructor
  · exact fun all => ⟨fun done call rest is => all done call (rest ++ [op]) (by simp [is]),
      all ops op [] rfl⟩
  · rintro ⟨earlier, last⟩ done call rest is
    rcases List.eq_nil_or_concat' rest with rfl | ⟨rest, other, rfl⟩
    · obtain ⟨rfl, same⟩ := List.append_inj' is rfl
      exact (List.cons.inj same).1 ▸ last
    · have longer : ops ++ [op] = (done ++ call :: rest) ++ [other] := by simpa using is
      exact earlier done call rest (List.append_inj' longer rfl).1

theorem EveryCall.front {holds : JobList → Op → Prop} {done rest : List Op}
    (all : EveryCall cest useUtc holds (done ++ rest)) : EveryCall cest useUtc holds done :=
  fun front call back is => all front call (back ++ rest) (by simp [is])

/-- Runs that append keep to the reference. -/
theorem follows_run (removes : EveryCall cest useUtc RemovesMember ops)
    (appends : EveryCall cest useUtc InsertAppends ops) :
    ∃ cron, runOps cest ops (cronInit useUtc) = some cron ∧
      Follows useUtc cron (refer cest useUtc ops) := by
  induction ops using List.reverseRecOn with
  | nil => exact ⟨_, rfl, follows_init useUtc⟩
  | append_singleton ops op ih =>
      rw [everyCall_snoc] at removes appends
      obtain ⟨cron, ran, follows⟩ := ih removes.1 appends.1
      rw [runOps_snoc, refer_snoc, ran]
      exact follows.op op removes.2 appends.2

theorem Represents.listRight {list : JobList} (represents : Represents cron list) :
    ListRight cron list :=
  ⟨represents.wellFormed, fun _ member => represents.linked.segment.mem member⟩

theorem rightThroughout_of_appends (removes : EveryCall cest useUtc RemovesMember ops)
    (appends : EveryCall cest useUtc InsertAppends ops) : RightThroughout cest useUtc ops := by
  rintro done rest rfl
  obtain ⟨cron, ran, represents, -⟩ := follows_run removes.front appends.front
  exact ⟨cron, ran, represents.listRight⟩

/-- The first insertion at another position spoils the list. -/
theorem appends_of_rightThroughout (removes : EveryCall cest useUtc RemovesMember ops)
    (right : RightThroughout cest useUtc ops) : EveryCall cest useUtc InsertAppends ops := by
  induction ops using List.reverseRecOn with
  | nil => exact everyCall_nil _
  | append_singleton ops op ih =>
      rw [everyCall_snoc] at removes ⊢
      have earlier := ih removes.1 fun done rest is => right done (rest ++ [op]) (by simp [is])
      refine ⟨earlier, ?_⟩
      obtain ⟨cron, ran, represents, -⟩ := follows_run removes.1 earlier
      obtain ⟨cron', ran', wellFormed, -⟩ := right _ [] (List.append_nil _).symm
      rw [runOps_snoc, ran, Option.bind_some] at ran'
      rw [refer_snoc] at wellFormed
      cases op with
      | insert event position =>
          by_contra wrong
          exact represents.insert_wrong wrong ran' wellFormed
      | jobrm job => trivial
      | periodic timestamp => trivial

end Runs

/-- In every run of insertions, removals of members and calls of `cron_periodic`, the list
is right after every call exactly if jobs are inserted into empty lists and at negative
positions only. -/
theorem cron_list_wellFormed (cest useUtc : Bool) (ops : List Op)
    (removes : EveryCall cest useUtc RemovesMember ops) :
    RightThroughout cest useUtc ops ↔ EveryCall cest useUtc InsertAppends ops :=
  ⟨appends_of_rightThroughout removes, rightThroughout_of_appends removes⟩

/-- Two jobs are appended, and the first one is removed. -/
theorem cron_list_wellFormed_append :
    RightThroughout true true ([] ++ [.insert removeFirst 0] ++ [.insert removeFirst (-1)] ++
      [.jobrm 0]) :=
  (cron_list_wellFormed true true _ (by
    simp only [everyCall_snoc, everyCall_nil, RemovesMember, true_and]
    decide)).mpr (by
    simp only [everyCall_snoc, everyCall_nil, InsertAppends, Appends, true_and, and_true]
    decide)

/-- A job that is inserted between two others is lost. -/
theorem insertBetween_not_right :
    ¬RightThroughout true true ([] ++ [.insert removeFirst 0] ++ [.insert removeFirst (-1)] ++
      [.insert removeFirst 1]) := by
  intro right
  have removes : EveryCall true true RemovesMember
      ([] ++ [.insert removeFirst 0] ++ [.insert removeFirst (-1)] ++ [.insert removeFirst 1]) := by
    simp only [everyCall_snoc, everyCall_nil, RemovesMember, true_and]
  have appends := (everyCall_snoc.mp (appends_of_rightThroughout removes right)).2
  exact absurd appends (by
    simp only [InsertAppends, Appends]
    decide)

end Ethersex.Cron
