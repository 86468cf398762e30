import Mathlib
import Ethersex.Cron.Runs

/-!
# When jobs fire

Runs in which `cron_periodic` is called in every minute and no job edits the list.  Every
job fires in the minutes its fields match, and in no others, until its repetitions are
used up.  With local time this ends shortly before the counter does: a converted time
that wraps has other seconds, from which the time of the next check is computed.
-/

namespace Ethersex.Cron

open Clock LinkedList

/-- The minute of a time. -/
def minuteOf (time : UInt32) : Nat := time.toNat / 60

/-- Calls of `cron_periodic` at some times, and the jobs they executed. -/
def polls (cest : Bool) : List UInt32 → State → Option (State × List (UInt32 × Address))
  | [], cron => some (cron, [])
  | time :: times, cron =>
      (cronPeriodic cest quiet cron.fresh time cron).bind fun (cron, fired) =>
        (polls cest times cron).map fun (cron, log) => (cron, fired.map (fun job => (time, job)) ++ log)

/-- The minutes in which a job was executed. -/
def firings (log : List (UInt32 × Address)) (job : Address) : List Nat :=
  (log.filter fun entry => entry.2 = job).map fun entry => minuteOf entry.1

/-- The fields of the event match the date of the minute. -/
def Event.dueIn (cest useUtc : Bool) (event : Event) (minute : Nat) : Bool :=
  (dateOf cest useUtc (UInt32.ofNat (60 * minute))).any fun date => event.isDue date

/-- The minutes from the first one on in which the event is due. -/
def Event.dueFrom (cest useUtc : Bool) (event : Event) (first count : Nat) : List Nat :=
  (List.range' first count).filter (event.dueIn cest useUtc)

/-! ## One job -/

theorem Event.isDue_congr {first second : Datetime} (event : Event)
    (same : { first with sec := 0 } = { second with sec := 0 }) :
    event.isDue first = event.isDue second := by
  simp only [Datetime.mk.injEq, true_and] at same
  have fields : first.cronFields = second.cronFields := by
    funext field
    fin_cases field <;> simp [Datetime.cronFields, same]
  rw [isDue, isDue, fields]

/-- The minutes in which the event is executed, of those in which it is due. -/
def Event.served (event : Event) (due : List Nat) : List Nat :=
  if event.repeats = 0 then due else due.take event.repeats.toNat

/-- Whether the event is still there after it was due so many times. -/
def Event.Lasts (event : Event) (due : List Nat) : Prop :=
  event.repeats = 0 ∨ due.length < event.repeats.toNat

theorem Event.countDown_eq (event : Event) :
    (event.repeats = 0 ∧ event.countDown = some event) ∨
      (event.repeats.toNat = 1 ∧ event.countDown = none) ∨
      ∃ rest : Event, event.countDown = some rest ∧ 0 < rest.repeats.toNat ∧
        event.repeats.toNat = rest.repeats.toNat + 1 ∧ rest.fields = event.fields := by
  unfold countDown
  rcases Decidable.em (event.repeats > 0) with counts | forever
  · have positive : 0 < event.repeats.toNat := by simpa using UInt8.lt_iff_toNat_lt.mp counts
    have less : (event.repeats - 1).toNat = event.repeats.toNat - 1 :=
      UInt8.toNat_sub_of_le _ _ (UInt8.le_iff_toNat_le.mpr positive)
    rw [if_pos counts]
    by_cases last : event.repeats - 1 = 0
    · rw [if_pos last]
      rw [last] at less
      exact Or.inr (Or.inl ⟨by rw [UInt8.toNat_zero] at less; omega, rfl⟩)
    · rw [if_neg last]
      refine Or.inr (Or.inr ⟨_, rfl, ?_, ?_, rfl⟩)
      · exact Nat.pos_of_ne_zero fun zero => last (UInt8.toNat_inj.mp zero)
      · simp only [less]
        omega
  · refine Or.inl ⟨?_, if_neg forever⟩
    rw [gt_iff_lt, UInt8.not_lt] at forever
    exact UInt8.toNat_inj.mp (Nat.le_zero.mp (UInt8.le_iff_toNat_le.mp forever))

section Served

variable {event rest : Event} {minute : Nat} {due : List Nat}

theorem Event.lasts_nil (event : Event) : event.Lasts [] := by
  rcases Nat.eq_zero_or_pos event.repeats.toNat with none | some
  · exact Or.inl (UInt8.toNat_inj.mp none)
  · exact Or.inr some

/-- The last repetition. -/
theorem Event.served_last (counted : event.countDown = none) :
    event.served (minute :: due) = [minute] ∧ ¬event.Lasts (minute :: due) := by
  rcases event.countDown_eq with ⟨-, is⟩ | ⟨once, -⟩ | ⟨_, is, -⟩
  · exact nomatch counted.symm.trans is
  · have different : event.repeats ≠ 0 := fun zero => by simp [zero] at once
    rw [served, if_neg different, Lasts, once]
    simp [different]
  · exact nomatch counted.symm.trans is

/-- Any other repetition. -/
theorem Event.served_more (counted : event.countDown = some rest) :
    event.served (minute :: due) = minute :: rest.served due ∧
      (event.Lasts (minute :: due) ↔ rest.Lasts due) ∧ rest.fields = event.fields := by
  rcases event.countDown_eq with ⟨forever, is⟩ | ⟨-, is⟩ | ⟨_, is, positive, more, fields⟩
  · obtain rfl := Option.some.inj (counted.symm.trans is)
    simp [served, Lasts, forever]
  · exact nomatch counted.symm.trans is
  · obtain rfl := Option.some.inj (counted.symm.trans is)
    have different : event.repeats ≠ 0 := fun zero => by simp [zero] at more
    have different' : rest.repeats ≠ 0 := fun zero => by simp [zero] at positive
    simp [served, Lasts, different, different', more, fields]

end Served

/-! ## One minute -/

/-- The conversion does not pass the end of the counter. -/
def Converts (cest useUtc : Bool) (time : UInt32) : Prop :=
  useUtc = true ∨ cest = false ∨ LocalFits time

theorem dateOf_minute {cest useUtc : Bool} {time : UInt32} (converts : Converts cest useUtc time) :
    ∃ date, dateOf cest useUtc time = some date ∧
      (∀ event : Event, event.isDue date = event.dueIn cest useUtc (minuteOf time)) ∧
      date.sec = (time % 60).toUInt8 := by
  have start : (UInt32.ofNat (60 * minuteOf time)).toNat = 60 * minuteOf time :=
    UInt32.toNat_ofNat_of_lt' (Nat.lt_of_le_of_lt (Nat.mul_div_le _ _) time.toNat_lt)
  have same : time / 60 = UInt32.ofNat (60 * minuteOf time) / 60 := by
    rw [← UInt32.toNat_inj, UInt32.toNat_div, UInt32.toNat_div, start]
    exact (Nat.mul_div_cancel_left _ (by decide)).symm
  have le : UInt32.ofNat (60 * minuteOf time) ≤ time := by
    rw [UInt32.le_iff_toNat_le, start]
    exact Nat.mul_div_le _ _
  have both : ∃ date other, dateOf cest useUtc time = some date ∧
      dateOf cest useUtc (UInt32.ofNat (60 * minuteOf time)) = some other ∧
      { date with sec := 0 } = { other with sec := 0 } ∧ date.sec = (time % 60).toUInt8 := by
    rcases converts with rfl | rfl | fits
    · exact clockDatetime_minute same
    · cases useUtc <;> exact clockDatetime_minute same
    · cases useUtc
      · cases cest
        · exact clockDatetime_minute same
        · exact clockLocaltime_minute same le fits
      · exact clockDatetime_minute same
  obtain ⟨date, other, is, is', fields, seconds⟩ := both
  refine ⟨date, is, fun event => ?_, seconds⟩
  rw [Event.dueIn, is', Option.any_some]
  exact event.isDue_congr fields

/-- A call in a minute that was not looked at before. -/
theorem Represents.newMinute {cest : Bool} {cron : State} {list : JobList} {time : UInt32}
    (represents : Represents cron list) (converts : Converts cest cron.useUtc time)
    (new : list.jobs = [] ∨ cron.lastCheck.toNat + 60 ≤ time.toNat) :
    ∃ cron' date, Cron.cronPeriodic cest quiet cron.fresh time cron = some (cron', list.due date) ∧
      Represents cron' (list.tick date) ∧ cron'.useUtc = cron.useUtc ∧
      (∀ event : Event, event.isDue date = event.dueIn cest cron.useUtc (minuteOf time)) ∧
      ((list.tick date).jobs = [] ∨ cron'.lastCheck.toNat = 60 * minuteOf time) := by
  obtain ⟨date, is, due, seconds⟩ := dateOf_minute converts
  rcases Decidable.em (list.jobs = []) with empty | nonempty
  · have jobs : (list.tick date).jobs = [] := by simp [JobList.tick, JobList.jobs_revise, empty]
    have same : list.tick date = list := JobList.ext (jobs.trans empty.symm) rfl
    have none : list.due date = [] := by simp [JobList.due, empty]
    refine ⟨cron, date, ?_, same.symm ▸ represents, rfl, due, Or.inl jobs⟩
    rw [none]
    exact represents.cronPeriodic_skips (fun checks => checks.1 empty) quiet cron.fresh
  · have later := new.resolve_left nonempty
    have sixty : (60 : UInt32).toNat = 60 := rfl
    have checks : Checks time cron.lastCheck list := by
      refine ⟨nonempty, ?_⟩
      rw [UInt32.le_iff_toNat_le, UInt32.toNat_sub_of_le _ _ (UInt32.le_iff_toNat_le.mpr (by omega))]
      omega
    obtain ⟨cron', ran, represents', lastCheck, utc⟩ :=
      represents.cronPeriodic checks is (represents.fresh ▸ list.length_le_fresh)
    refine ⟨cron', date, ran, represents', utc, due, Or.inr ?_⟩
    have second : (time % 60).toUInt8.toUInt32.toNat = time.toNat % 60 := by
      rw [UInt8.toNat_toUInt32, UInt32.toNat_toUInt8, UInt32.toNat_mod, sixty]
      omega
    rw [lastCheck, seconds, UInt32.toNat_sub_of_le _ _ (UInt32.le_iff_toNat_le.mpr (by omega)),
      second, minuteOf]
    omega

/-- A call in a minute that was looked at before. -/
theorem Represents.oldMinute {cest : Bool} {cron : State} {list : JobList} {time : UInt32}
    (represents : Represents cron list)
    (old : list.jobs = [] ∨ cron.lastCheck.toNat = 60 * minuteOf time) :
    Cron.cronPeriodic cest quiet cron.fresh time cron = some (cron, []) := by
  refine represents.cronPeriodic_skips ?_ quiet cron.fresh
  rintro ⟨nonempty, later⟩
  have start := old.resolve_left nonempty
  have sixty : (60 : UInt32).toNat = 60 := rfl
  rw [minuteOf] at start
  rw [UInt32.le_iff_toNat_le, UInt32.toNat_sub_of_le _ _ (UInt32.le_iff_toNat_le.mpr (by omega))]
    at later
  omega

/-! ## Runs -/

/-- The jobs were executed in the minutes in which they were due, as often as they
repeat. -/
structure Served (cest useUtc : Bool) (list : JobList) (minutes : List Nat) (final : JobList)
    (log : List (UInt32 × Address)) : Prop where
  fires : ∀ job ∈ list.jobs,
    firings log job.1 = job.2.served (minutes.filter (job.2.dueIn cest useUtc))
  stays : ∀ job ∈ list.jobs,
    (job.1 ∈ final.addresses ↔ job.2.Lasts (minutes.filter (job.2.dueIn cest useUtc)))
  listed : final.addresses ⊆ list.addresses
  logged : ∀ entry ∈ log, entry.2 ∈ list.addresses

section Served

variable {cest useUtc : Bool} {list final : JobList} {minutes : List Nat} {minute : Nat}
  {date : Datetime} {time : UInt32} {log : List (UInt32 × Address)}

theorem served_nil (cest useUtc : Bool) (list : JobList) : Served cest useUtc list [] list [] where
  fires := fun job _ => by simp [firings, Event.served]
  stays := fun job member => iff_of_true (List.mem_map_of_mem member) job.2.lasts_nil
  listed := List.Subset.refl _
  logged := fun entry member => absurd member List.not_mem_nil

theorem firings_append (first second : List (UInt32 × Address)) (job : Address) :
    firings (first ++ second) job = firings first job ++ firings second job := by
  simp [firings]

theorem firings_of_not_mem {job : Address} (absent : ∀ entry ∈ log, entry.2 ≠ job) :
    firings log job = [] := by
  rw [firings, List.filter_eq_nil_iff.mpr fun entry member => by simpa using absent entry member]
  rfl

/-- A job that is due is executed once. -/
theorem firings_due {job : Job} (member : job ∈ list.jobs) :
    firings ((list.due date).map fun job => (time, job)) job.1 =
      if job.2.isDue date then [minuteOf time] else [] := by
  obtain ⟨front, back, split⟩ := List.append_of_mem member
  obtain ⟨inFront, inBack⟩ := JobList.ne_of_split split
  have others : ∀ jobs : List Job, (∀ other ∈ jobs, other.1 ≠ job.1) →
      firings ((jobs.filter fun job => job.2.isDue date).map fun job => (time, job.1)) job.1 = [] :=
    fun jobs different => firings_of_not_mem fun entry inLog => by
      obtain ⟨other, due, rfl⟩ := List.mem_map.mp inLog
      exact different other (List.mem_of_mem_filter due)
  rw [JobList.due, List.map_map, Function.comp_def, split, List.filter_append, List.map_append,
    firings_append, others front inFront, List.nil_append, List.filter_cons]
  by_cases due : job.2.isDue date
  · rw [if_pos due, if_pos due, List.map_cons, ← List.singleton_append, firings_append,
      others back inBack]
    simp [firings]
  · rw [if_neg due, if_neg due, others back inBack]

theorem JobList.mem_tick {job : Job} (member : job ∈ list.jobs) {rest : Event}
    (is : (if job.2.isDue date then job.2.countDown else some job.2) = some rest) :
    (job.1, rest) ∈ (list.tick date).jobs := by
  rw [JobList.tick, jobs_revise, List.mem_filterMap]
  exact ⟨job, member, by rw [is]; rfl⟩

theorem JobList.tick_subset : (list.tick date).addresses ⊆ list.addresses :=
  (addresses_filterMap_sublist _ _).subset

theorem JobList.not_mem_tick {job : Job} (member : job ∈ list.jobs)
    (is : (if job.2.isDue date then job.2.countDown else some job.2) = none) :
    job.1 ∉ (list.tick date).addresses := by
  rw [JobList.addresses, JobList.tick, jobs_revise]
  intro still
  simp only [List.mem_map, List.mem_filterMap, Option.map_eq_some_iff] at still
  obtain ⟨_, ⟨other, inList, rest, counted, rfl⟩, same⟩ := still
  obtain rfl := List.inj_on_of_nodup_map list.nodup inList member same
  cases is.symm.trans counted

theorem Event.dueIn_congr {event rest : Event} (same : rest.fields = event.fields) :
    rest.dueIn cest useUtc = event.dueIn cest useUtc := by
  funext minute
  simp only [dueIn, isDue, same]

/-- One more minute, for one job. -/
theorem Served.job_cons (served : Served cest useUtc (list.tick date) minutes final log)
    (due : ∀ event : Event, event.isDue date = event.dueIn cest useUtc minute) {job : Job}
    (member : job ∈ list.jobs) :
    (if job.2.isDue date then [minute] else []) ++ firings log job.1 =
        job.2.served ((minute :: minutes).filter (job.2.dueIn cest useUtc)) ∧
      (job.1 ∈ final.addresses ↔
        job.2.Lasts ((minute :: minutes).filter (job.2.dueIn cest useUtc))) := by
  rw [List.filter_cons, ← due]
  by_cases fires : job.2.isDue date
  · rw [if_pos fires, if_pos fires]
    cases counted : job.2.countDown with
    | none =>
        have gone := JobList.not_mem_tick member (by rw [if_pos fires, counted])
        have quietly : firings log job.1 = [] :=
          firings_of_not_mem fun entry inLog same => gone (same ▸ served.logged entry inLog)
        obtain ⟨once, ended⟩ := Event.served_last counted
        rw [quietly, once]
        exact ⟨List.append_nil _, iff_of_false (fun still => gone (served.listed still)) ended⟩
    | some rest =>
        have still := JobList.mem_tick member (by rw [if_pos fires, counted])
        obtain ⟨more, lasts, fields⟩ := Event.served_more counted
        rw [more, lasts, ← Event.dueIn_congr fields]
        exact ⟨congrArg (minute :: ·) (served.fires _ still), served.stays _ still⟩
  · rw [if_neg fires, if_neg fires]
    have still := JobList.mem_tick member (by rw [if_neg fires])
    exact ⟨served.fires _ still, served.stays _ still⟩

/-- One more minute. -/
theorem Served.cons (served : Served cest useUtc (list.tick date) minutes final log)
    (due : ∀ event : Event, event.isDue date = event.dueIn cest useUtc minute)
    (is : minuteOf time = minute) :
    Served cest useUtc list (minute :: minutes) final
      ((list.due date).map (fun job => (time, job)) ++ log) where
  fires := fun job member => by
    rw [firings_append, firings_due member, is]
    exact (served.job_cons due member).1
  stays := fun job member => (served.job_cons due member).2
  listed := fun address member => JobList.tick_subset (served.listed member)
  logged := fun entry member => by
    rcases List.mem_append.mp member with now | later
    · obtain ⟨job, inDue, rfl⟩ := List.mem_map.mp now
      exact (List.filter_sublist.map Prod.fst).subset inDue
    · exact JobList.tick_subset (served.logged entry later)

end Served

/-- Time does not go back, and no minute is left out. -/
def EveryMinute (times : List UInt32) : Prop :=
  times.IsChain fun time next => time ≤ next ∧ minuteOf next ≤ minuteOf time + 1

section Polls

variable {cest useUtc : Bool} {cron : State} {list : JobList} {time : UInt32} {times : List UInt32}

theorem minuteOf_mono {first second : UInt32} (le : first ≤ second) :
    minuteOf first ≤ minuteOf second :=
  Nat.div_le_div_right (UInt32.le_iff_toNat_le.mp le)

theorem polls_cons {next end' : State} {fired : List Address} {log : List (UInt32 × Address)}
    (ran : cronPeriodic cest quiet cron.fresh time cron = some (next, fired))
    (rest : polls cest times next = some (end', log)) :
    polls cest (time :: times) cron = some (end', fired.map (fun job => (time, job)) ++ log) := by
  simp [polls, ran, rest]

/-- The calls after one at `time`. -/
theorem polls_after (chain : EveryMinute (time :: times))
    (converts : ∀ next ∈ times, Converts cest useUtc next)
    (represents : Represents cron list) (utc : cron.useUtc = useUtc)
    (checked : list.jobs = [] ∨ cron.lastCheck.toNat = 60 * minuteOf time) :
    minuteOf time ≤ minuteOf ((time :: times).getLast (by simp)) ∧
      ∃ end' log final, polls cest times cron = some (end', log) ∧ Represents end' final ∧
        Served cest useUtc list (List.range' (minuteOf time + 1)
          (minuteOf ((time :: times).getLast (by simp)) - minuteOf time)) final log := by
  induction times generalizing time cron list with
  | nil =>
      refine ⟨le_rfl, cron, [], list, rfl, represents, ?_⟩
      rw [List.getLast_singleton, Nat.sub_self]
      exact served_nil cest useUtc list
  | cons next times ih =>
      obtain ⟨⟨le, close⟩, chain⟩ := List.isChain_cons_cons.mp chain
      rw [List.forall_mem_cons] at converts
      rw [List.getLast_cons_cons]
      rcases Nat.lt_or_ge (minuteOf time) (minuteOf next) with new | old
      · have start : list.jobs = [] ∨ cron.lastCheck.toNat + 60 ≤ next.toNat := by
          refine checked.imp_right fun is => ?_
          have whole : 60 * minuteOf next ≤ next.toNat := Nat.mul_div_le _ _
          omega
        obtain ⟨cron₁, date, ran, represents₁, utc₁, due, checked₁⟩ :=
          represents.newMinute (utc ▸ converts.1) start
        obtain ⟨later, end', log, final, rest, represented, served⟩ :=
          ih chain converts.2 represents₁ (utc₁.trans utc) checked₁
        refine ⟨(Nat.le_of_lt new).trans later, end',
          (list.due date).map (fun job => (next, job)) ++ log, final, ?_, represented, ?_⟩
        · exact polls_cons ran rest
        · have after : minuteOf next = minuteOf time + 1 := Nat.le_antisymm close new
          have count : minuteOf ((next :: times).getLast (by simp)) - minuteOf time =
              minuteOf ((next :: times).getLast (by simp)) - minuteOf next + 1 := by
            omega
          rw [count, List.range'_succ, ← after]
          exact served.cons (utc ▸ due) rfl
      · have same : minuteOf next = minuteOf time := Nat.le_antisymm old (minuteOf_mono le)
        obtain ⟨later, end', log, final, rest, represented, served⟩ :=
          ih chain converts.2 represents utc (same ▸ checked)
        rw [same] at later served
        exact ⟨later, end', log, final, polls_cons (represents.oldMinute (same ▸ checked)) rest,
          represented, served⟩

/-- The minutes from the first call to the last one. -/
def minutesOf (time : UInt32) (times : List UInt32) : List Nat :=
  List.range' (minuteOf time)
    (minuteOf ((time :: times).getLast (List.cons_ne_nil _ _)) - minuteOf time + 1)

/-- Each job fires exactly when it is due, as often as it repeats, and is then removed. -/
def FiresWhenDue (cest : Bool) (cron : State) (list : JobList) (time : UInt32)
    (times : List UInt32) : Prop :=
  ∃ end' log final, polls cest (time :: times) cron = some (end', log) ∧ Represents end' final ∧
    Served cest cron.useUtc list (minutesOf time times) final log

/-- Jobs fire exactly when they are due, in every run in which `cron_periodic` is called
in every minute and the converted time does not pass the end of the counter. -/
theorem cron_fires_when_due (chain : EveryMinute (time :: times))
    (represents : Represents cron list) (start : cron.lastCheck.toNat + 60 ≤ time.toNat)
    (converts : ∀ next ∈ time :: times, Converts cest cron.useUtc next) :
    FiresWhenDue cest cron list time times := by
  rw [List.forall_mem_cons] at converts
  obtain ⟨cron₁, date, ran, represents₁, utc₁, due, checked₁⟩ :=
    represents.newMinute converts.1 (Or.inr start)
  obtain ⟨-, end', log, final, rest, represented, served⟩ :=
    polls_after chain converts.2 represents₁ utc₁ checked₁
  refine ⟨end', (list.due date).map (fun job => (time, job)) ++ log, final, ?_, represented, ?_⟩
  · exact polls_cons ran rest
  · rw [minutesOf, List.range'_succ]
    exact served.cons due rfl

end Polls

/-- `oneJob` with local time. -/
def localJob : State := { oneJob with useUtc := false }

theorem represents_localJob : Represents localJob (JobList.empty.append removeFirst) :=
  ⟨represents_oneJob.linked, represents_oneJob.fresh, represents_oneJob.others⟩

theorem cron_fires_when_due_localJob :
    FiresWhenDue true localJob (JobList.empty.append removeFirst) 60 [100, 130] :=
  cron_fires_when_due (by unfold EveryMinute; decide) represents_localJob (by decide) fun next member =>
    Or.inr (Or.inr (localFits_of_early (by
      simp only [List.mem_cons, List.not_mem_nil, or_false] at member
      rcases member with rfl | rfl | rfl <;> decide)))

/-- Both calls execute the job. -/
theorem polls_localJob :
    (polls true [4294963740, 4294963756] localJob).map Prod.snd =
      some [(4294963740, 0), (4294963756, 0)] := by
  decide

/-- Shortly before the counter ends, a job fires twice in one minute. -/
theorem localJob_fires_twice :
    ¬FiresWhenDue true localJob (JobList.empty.append removeFirst) 4294963740 [4294963756] := by
  rintro ⟨end', log, final, ran, -, served⟩
  have logged := polls_localJob
  rw [ran, Option.map_some, Option.some.injEq] at logged
  have fires := served.fires (0, removeFirst) (List.mem_singleton_self _)
  have twice : (firings log 0).length = 2 := by
    rw [show log = _ from logged]
    rfl
  have once : (removeFirst.served ((minutesOf 4294963740 [4294963756]).filter
      (removeFirst.dueIn true false))).length ≤ 1 := List.length_filter_le _ _
  rw [fires] at twice
  exact absurd twice (by rw [← ne_eq]; exact Nat.ne_of_lt (Nat.lt_succ_of_le once))

end Ethersex.Cron
