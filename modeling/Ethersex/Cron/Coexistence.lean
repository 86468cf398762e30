import Mathlib
import Ethersex.Library.Walks
import Ethersex.Cron.Calls
import Ethersex.Cron.Periodic

/-!
# Both tables

Runs in which `cron_periodic` and `cron_static_periodic` are called one after the other in every second,
with one variable `last_check`.  Beside it stand the two values that the functions would find in variables
of their own.
-/

namespace Ethersex.Cron

open Clock LinkedList Library

/-- Which of the functions is called first. -/
inductive Order where
  | dynamicFirst
  | staticFirst
deriving DecidableEq

/-- The state with what each of the functions has stored in `last_check` last. -/
structure Tables where
  cron : State
  ownDynamic : UInt32
  ownStatic : UInt32

def Tables.start (defaultUtc : Bool) : Tables := ⟨cronInit defaultUtc, 0, 0⟩

/-- What was executed in a second. -/
structure Outcome where
  tables : Tables
  jobs : List Address
  events : List StaticEvent

section

variable (cest : Bool) (table : StaticTable) (order : Order)

def Tables.dynamic (effects : Nat → List Edit) (passes : Nat) (time : UInt32) (tables : Tables) :
    Option (Tables × List Address) :=
  (cronPeriodic cest effects passes time tables.cron).map fun (cron, jobs) =>
    ({ tables with
        cron
        ownDynamic := if tables.cron.head = none ∨ time - tables.cron.lastCheck < 60 then tables.ownDynamic
          else cron.lastCheck }, jobs)

def Tables.static (time : UInt32) (tables : Tables) : Option (Tables × List StaticEvent) :=
  (cronStaticPeriodic cest table time tables.cron).map fun (cron, events) =>
    ({ tables with
        cron
        ownStatic := if time - tables.cron.lastCheck < 60 then tables.ownStatic else cron.lastCheck }, events)

/-- Both calls of a second.  `effects` are the edits that the executed commands make. -/
def Tables.second (effects : Nat → List Edit) (passes : Nat) (time : UInt32) (tables : Tables) :
    Option Outcome :=
  match order with
  | .dynamicFirst => do
      let (tables, jobs) ← tables.dynamic cest effects passes time
      let (tables, events) ← tables.static cest table time
      some ⟨tables, jobs, events⟩
  | .staticFirst => do
      let (tables, events) ← tables.static cest table time
      let (tables, jobs) ← tables.dynamic cest effects passes time
      some ⟨tables, jobs, events⟩

/-- Between the seconds, a user may edit the dynamic table. -/
inductive Input where
  | command (edit : Edit)
  | second (effects : Nat → List Edit) (passes : Nat) (time : UInt32)

/-- A run ends with `none` where a freed job is read. -/
def Tables.step (tables : Option Tables) (input : Input) : Option Tables :=
  tables.bind fun tables =>
    match input with
    | .command edit => (edit.run tables.cron).map fun cron => { tables with cron }
    | .second effects passes time =>
        (tables.second cest table order effects passes time).map Outcome.tables

/-- A job of the list is due. -/
def JobDue (time : UInt32) (cron : State) (job : Job) : Prop :=
  (dateOf cest cron.useUtc time).any (fun date => job.2.isDue date) = true

/-- Each table whose own check is a minute old is evaluated: every entry that matches is executed, unless a
command that is executed in the same second removes it. -/
structure Evaluated (time : UInt32) (tables : Tables) (list : JobList) (outcome : Outcome) : Prop where
  jobs : 60 ≤ time - tables.ownDynamic → ∀ job ∈ list.jobs, JobDue cest time tables.cron job →
    job.1 ∈ outcome.jobs ∨ outcome.tables.cron.heap job.1 = none
  events : 60 ≤ time - tables.ownStatic → ∀ event ∈ table.events, event.isDue cest time = true →
    event ∈ outcome.events

/-- No entry is skipped in a second because the other table was looked at. -/
def BothEvaluated (tables : Option Tables) (input : Input) : Prop :=
  ∀ now ∈ tables, ∀ list, Represents now.cron list →
    match input with
    | .command _ => True
    | .second effects passes time => ∀ outcome ∈ now.second cest table order effects passes time,
        Evaluated cest table time now list outcome

/-- A table whose own check is a minute old and that has an entry that matches is the one that passes the
check of `last_check`: this is a minute old as well, and no other call stands in front. -/
structure PassesFirst (time : UInt32) (tables : Tables) (list : JobList) : Prop where
  dynamic : 60 ≤ time - tables.ownDynamic → (∃ job ∈ list.jobs, JobDue cest time tables.cron job) →
    60 ≤ time - tables.cron.lastCheck ∧ order = .dynamicFirst
  static : 60 ≤ time - tables.ownStatic → (∃ event ∈ table.events, event.isDue cest time = true) →
    60 ≤ time - tables.cron.lastCheck ∧ (order = .staticFirst ∨ list.jobs = [])

def Undisturbed (tables : Option Tables) (input : Input) : Prop :=
  ∀ now ∈ tables, ∀ list, Represents now.cron list →
    match input with
    | .command _ => True
    | .second _ _ time => PassesFirst cest table order time now list

end

/-! ## One call -/

section Calls

variable {cest : Bool} {table : StaticTable} {order : Order} {effects : Nat → List Edit} {passes : Nat}
  {time : UInt32} {tables tables' : Tables} {list : JobList}

theorem sec_lt {timestamp : UInt32} {date : Datetime} (is : clockDatetime timestamp = some date) :
    date.sec.toUInt32 < 60 := by
  have small : timestamp.toNat % 60 < 60 := Nat.mod_lt _ (by decide)
  rw [clockDatetime_sec is, UInt32.lt_iff_toNat_lt, UInt8.toNat_toUInt32, UInt32.toNat_toUInt8,
    UInt32.toNat_mod]
  exact Nat.lt_of_le_of_lt (Nat.mod_le _ _) small

theorem dateOf_sec_lt {useUtc : Bool} {date : Datetime} (is : dateOf cest useUtc time = some date) :
    date.sec.toUInt32 < 60 := by
  cases useUtc with
  | true => exact sec_lt is
  | false =>
      cases cest with
      | true =>
          obtain ⟨utc, -, converted⟩ := Option.bind_eq_some_iff.mp is
          exact sec_lt converted
      | false => exact sec_lt is

/-- Behind a check, `last_check` is younger than a minute. -/
theorem saved_lt {seconds : UInt32} (small : seconds < 60) : time - (time - seconds) < 60 := by
  rwa [sub_sub_cancel]

/-- What a call of `cron_periodic` does: it looks at the list, or it changes nothing. -/
theorem Tables.dynamic_spec {jobs : List Address} (represents : Represents tables.cron list)
    (ran : tables.dynamic cest effects passes time = some (tables', jobs)) :
    tables'.ownStatic = tables.ownStatic ∧
      (Checks time tables.cron.lastCheck list ∧ time - tables'.cron.lastCheck < 60 ∧
          (∃ list', Represents tables'.cron list') ∧
          (∀ job ∈ list.jobs, JobDue cest time tables.cron job →
            job.1 ∈ jobs ∨ tables'.cron.heap job.1 = none) ∨
        ¬Checks time tables.cron.lastCheck list ∧ tables' = tables ∧ jobs = []) := by
  obtain ⟨⟨cron', fired⟩, call, same⟩ := Option.map_eq_some_iff.mp ran
  obtain ⟨rfl, rfl⟩ := Prod.mk.inj same
  refine ⟨rfl, ?_⟩
  by_cases checks : Checks time tables.cron.lastCheck list
  · obtain ⟨date, list', is, represents', lastCheck, -, executed⟩ :=
      represents.cronPeriodic_ended checks call
    refine .inl ⟨checks, ?_, ⟨list', represents'⟩, ?_⟩
    · dsimp only
      rw [lastCheck]
      exact saved_lt (dateOf_sec_lt is)
    · intro job member due
      rw [JobDue, is, Option.any_some] at due
      exact (executed job member due).imp id (represents'.others job.1)
  · have skips : tables.cron.head = none ∨ time - tables.cron.lastCheck < 60 := by
      rw [Checks, not_and_or, not_not, UInt32.not_le] at checks
      rw [represents.linked.head_eq_none]
      exact checks
    obtain ⟨rfl, rfl⟩ := Prod.mk.inj
      (Option.some.inj ((represents.cronPeriodic_skips checks effects passes).symm.trans call))
    refine .inr ⟨checks, ?_, rfl⟩
    rw [if_pos skips]

/-- What a call of `cron_static_periodic` does: it looks at the table, or it changes nothing. -/
theorem Tables.static_spec {events : List StaticEvent}
    (ran : tables.static cest table time = some (tables', events)) :
    tables'.ownDynamic = tables.ownDynamic ∧
      (60 ≤ time - tables.cron.lastCheck ∧ time - tables'.cron.lastCheck < 60 ∧
          (∃ lastCheck, tables'.cron = { tables.cron with lastCheck }) ∧
          (∀ event ∈ table.events, event.isDue cest time = true → event ∈ events) ∨
        time - tables.cron.lastCheck < 60 ∧ tables' = tables ∧ events = []) := by
  obtain ⟨⟨cron', executed⟩, call, same⟩ := Option.map_eq_some_iff.mp ran
  obtain ⟨rfl, rfl⟩ := Prod.mk.inj same
  refine ⟨rfl, ?_⟩
  by_cases early : time - tables.cron.lastCheck < 60
  · obtain ⟨rfl, rfl⟩ := Prod.mk.inj
      (Option.some.inj ((cronStaticPeriodic_skips early).symm.trans call))
    refine .inr ⟨early, ?_, rfl⟩
    rw [if_pos early]
  · have due := UInt32.not_lt.mp early
    obtain ⟨⟨d, is, rfl⟩, all⟩ := cronStaticPeriodic_looks due call
    exact .inl ⟨due, saved_lt (sec_lt is), ⟨_, rfl⟩, all⟩

theorem Represents.set_lastCheck {cron : State} (represents : Represents cron list) (lastCheck : UInt32) :
    Represents { cron with lastCheck } list :=
  ⟨represents.linked, represents.fresh, represents.others⟩

/-! ## One second -/

/-- A table is evaluated if it is the one that passes first, and only then. -/
theorem evaluated_iff {α : Type*} {own first : Prop} {entry executed : α → Prop}
    (looks : first → ∀ e, entry e → executed e) (skips : ¬first → ∀ e, entry e → ¬executed e) :
    (own → ∀ e, entry e → executed e) ↔ (own → (∃ e, entry e) → first) := by
  constructor
  · rintro all due ⟨e, is⟩
    by_contra later
    exact skips later e is (all due e is)
  · intro passes due e is
    exact looks (passes due ⟨e, is⟩) e is

/-- The parts of `Evaluated` and `PassesFirst` for the two tables. -/
theorem evaluated_iff_passesFirst {outcome : Outcome}
    (dynamicLooks : 60 ≤ time - tables.cron.lastCheck ∧ order = .dynamicFirst →
      ∀ job ∈ list.jobs, JobDue cest time tables.cron job →
        job.1 ∈ outcome.jobs ∨ outcome.tables.cron.heap job.1 = none)
    (dynamicSkips : ¬(60 ≤ time - tables.cron.lastCheck ∧ order = .dynamicFirst) →
      ∀ job ∈ list.jobs, ¬(job.1 ∈ outcome.jobs ∨ outcome.tables.cron.heap job.1 = none))
    (staticLooks : 60 ≤ time - tables.cron.lastCheck ∧ (order = .staticFirst ∨ list.jobs = []) →
      ∀ event ∈ table.events, event.isDue cest time = true → event ∈ outcome.events)
    (staticSkips : ¬(60 ≤ time - tables.cron.lastCheck ∧ (order = .staticFirst ∨ list.jobs = [])) →
      outcome.events = []) :
    Evaluated cest table time tables list outcome ↔ PassesFirst cest table order time tables list := by
  have jobs := @evaluated_iff Job (60 ≤ time - tables.ownDynamic) _
    (fun job => job ∈ list.jobs ∧ JobDue cest time tables.cron job) _
    (fun first job entry => dynamicLooks first job entry.1 entry.2)
    (fun later job entry => dynamicSkips later job entry.1)
  have events := @evaluated_iff StaticEvent (60 ≤ time - tables.ownStatic) _
    (fun event => event ∈ table.events ∧ event.isDue cest time = true) (· ∈ outcome.events)
    (fun first event entry => staticLooks first event entry.1 entry.2)
    (fun later event entry executed => by
      rw [staticSkips later] at executed
      exact List.not_mem_nil executed)
  constructor
  · rintro ⟨dynamic, static⟩
    exact ⟨jobs.mp fun own job entry => dynamic own job entry.1 entry.2,
      events.mp fun own event entry => static own event entry.1 entry.2⟩
  · rintro ⟨dynamic, static⟩
    exact ⟨fun own job member due => jobs.mpr dynamic own job ⟨member, due⟩,
      fun own event member due => events.mpr static own event ⟨member, due⟩⟩

/-- A job of the list was not removed. -/
theorem Represents.kept {cron : State} (represents : Represents cron list) {job : Job}
    (member : job ∈ list.jobs) : cron.heap job.1 ≠ none := by
  have live := (represents.isSome_iff job.1).mpr (List.mem_map_of_mem member)
  exact Option.isSome_iff_ne_none.mp live

/-- `cron_periodic` is called first. -/
theorem Tables.dynamicFirst_spec {outcome : Outcome} (represents : Represents tables.cron list)
    (ran : tables.second cest table .dynamicFirst effects passes time = some outcome) :
    (∃ list', Represents outcome.tables.cron list') ∧
      (Evaluated cest table time tables list outcome ↔
        PassesFirst cest table .dynamicFirst time tables list) := by
  obtain ⟨⟨middle, jobs⟩, dynamic, ran⟩ := Option.bind_eq_some_iff.mp ran
  obtain ⟨⟨last, events⟩, static, ran⟩ := Option.bind_eq_some_iff.mp ran
  obtain rfl := Option.some.inj ran
  obtain ⟨-, dynamic⟩ := Tables.dynamic_spec represents dynamic
  obtain ⟨-, static⟩ := Tables.static_spec static
  obtain ⟨⟨nonempty, due⟩, young, ⟨list', represents'⟩, executed⟩ | ⟨skips, rfl, rfl⟩ := dynamic
  · -- The list was looked at, so that the table is not.
    obtain ⟨again, -⟩ | ⟨-, rfl, rfl⟩ := static
    · exact absurd young (UInt32.not_lt.mpr again)
    · refine ⟨⟨list', represents'⟩, evaluated_iff_passesFirst (fun _ => executed) ?_ ?_ fun _ => rfl⟩
      · exact fun later => absurd ⟨due, rfl⟩ later
      · rintro ⟨-, first | empty⟩
        · exact absurd first (by decide)
        · exact absurd empty nonempty
  · obtain ⟨due, -, ⟨lastCheck, same⟩, executed⟩ | ⟨early, rfl, rfl⟩ := static
    · have empty : list.jobs = [] := by
        by_contra nonempty
        exact skips ⟨nonempty, due⟩
      refine ⟨⟨list, same ▸ represents.set_lastCheck lastCheck⟩, evaluated_iff_passesFirst ?_ ?_ ?_ ?_⟩
      · exact fun _ job member => absurd member (empty ▸ List.not_mem_nil)
      · exact fun _ job member => absurd member (empty ▸ List.not_mem_nil)
      · exact fun _ => executed
      · exact fun later => absurd ⟨due, .inr empty⟩ later
    · have closed := UInt32.not_le.mpr early
      refine ⟨⟨list, represents⟩, evaluated_iff_passesFirst ?_ ?_ ?_ fun _ => rfl⟩
      · exact fun first => absurd first.1 closed
      · exact fun _ job member missed => missed.elim List.not_mem_nil (represents.kept member)
      · exact fun first => absurd first.1 closed

/-- `cron_static_periodic` is called first. -/
theorem Tables.staticFirst_spec {outcome : Outcome} (represents : Represents tables.cron list)
    (ran : tables.second cest table .staticFirst effects passes time = some outcome) :
    (∃ list', Represents outcome.tables.cron list') ∧
      (Evaluated cest table time tables list outcome ↔
        PassesFirst cest table .staticFirst time tables list) := by
  obtain ⟨⟨middle, events⟩, static, ran⟩ := Option.bind_eq_some_iff.mp ran
  obtain ⟨⟨last, jobs⟩, dynamic, ran⟩ := Option.bind_eq_some_iff.mp ran
  obtain rfl := Option.some.inj ran
  obtain ⟨-, static⟩ := Tables.static_spec static
  have later : ¬(60 ≤ time - tables.cron.lastCheck ∧ Order.staticFirst = .dynamicFirst) :=
    fun first => absurd first.2 (by decide)
  obtain ⟨due, young, ⟨lastCheck, same⟩, executed⟩ | ⟨early, rfl, rfl⟩ := static
  · have represents' : Represents middle.cron list := same ▸ represents.set_lastCheck lastCheck
    obtain ⟨-, ⟨⟨-, again⟩, -⟩ | ⟨-, rfl, rfl⟩⟩ := Tables.dynamic_spec represents' dynamic
    · exact absurd young (UInt32.not_lt.mpr again)
    · refine ⟨⟨list, represents'⟩, evaluated_iff_passesFirst (fun first => absurd first later) ?_ ?_ ?_⟩
      · exact fun _ job member missed => missed.elim List.not_mem_nil (represents'.kept member)
      · exact fun _ => executed
      · exact fun later => absurd ⟨due, .inl rfl⟩ later
  · have closed := UInt32.not_le.mpr early
    obtain ⟨-, ⟨⟨-, again⟩, -⟩ | ⟨-, rfl, rfl⟩⟩ := Tables.dynamic_spec represents dynamic
    · exact absurd again closed
    · refine ⟨⟨list, represents⟩, evaluated_iff_passesFirst (fun first => absurd first later) ?_ ?_ ?_⟩
      · exact fun _ job member missed => missed.elim List.not_mem_nil (represents.kept member)
      · exact fun first => absurd first.1 closed
      · exact fun _ => rfl

end Calls

/-! ## Runs -/

section Runs

variable {cest : Bool} {table : StaticTable} {order : Order}

theorem Tables.second_spec {effects : Nat → List Edit} {passes : Nat} {time : UInt32} {tables : Tables}
    {list : JobList} {outcome : Outcome} (represents : Represents tables.cron list)
    (ran : tables.second cest table order effects passes time = some outcome) :
    (∃ list', Represents outcome.tables.cron list') ∧
      (Evaluated cest table time tables list outcome ↔ PassesFirst cest table order time tables list) := by
  cases order with
  | dynamicFirst => exact Tables.dynamicFirst_spec represents ran
  | staticFirst => exact Tables.staticFirst_spec represents ran

theorem step_none (inputs : List Input) :
    inputs.foldl (Tables.step cest table order) none = none := by
  induction inputs with
  | nil => rfl
  | cons input inputs ih => exact ih

theorem bothEvaluated_iff_undisturbed {now next : Tables} {input : Input} {list : JobList}
    (represents : Represents now.cron list)
    (ran : Tables.step cest table order (some now) input = some next) :
    (∃ list', Represents next.cron list') ∧
      (BothEvaluated cest table order (some now) input ↔ Undisturbed cest table order (some now) input) := by
  cases input with
  | command edit =>
      obtain ⟨cron', applied, rfl⟩ := Option.map_eq_some_iff.mp ran
      obtain ⟨cron'', applied', represents', -⟩ := represents.edit edit
      obtain rfl := Option.some.inj (applied.symm.trans applied')
      exact ⟨⟨_, represents'⟩, iff_of_true (fun _ _ _ _ => trivial) fun _ _ _ _ => trivial⟩
  | second effects passes time =>
      obtain ⟨outcome, second, rfl⟩ := Option.map_eq_some_iff.mp ran
      obtain ⟨list', iff⟩ := Tables.second_spec represents second
      refine ⟨list', ?_⟩
      constructor
      · rintro evaluated _ ⟨⟩ other represents'
        obtain rfl := represents.unique represents'
        exact iff.mp (evaluated now rfl list represents outcome second)
      · rintro undisturbed _ ⟨⟩ other represents' outcome' second'
        obtain rfl := represents.unique represents'
        obtain rfl := Option.some.inj (second.symm.trans second')
        exact iff.mpr (undisturbed now rfl list represents)

theorem eachMeets_iff {tables : Tables} {list : JobList} (represents : Represents tables.cron list)
    (inputs : List Input)
    (through : (inputs.foldl (Tables.step cest table order) (some tables)).isSome = true) :
    EachMeets (Tables.step cest table order) (BothEvaluated cest table order) (some tables) inputs ↔
      EachMeets (Tables.step cest table order) (Undisturbed cest table order) (some tables) inputs := by
  induction inputs generalizing tables list with
  | nil => exact Iff.rfl
  | cons input inputs ih =>
      rw [List.foldl_cons] at through
      cases ran : Tables.step cest table order (some tables) input with
      | none =>
          rw [ran, step_none] at through
          exact absurd through Bool.false_ne_true
      | some next =>
          rw [ran] at through
          obtain ⟨⟨list', represents'⟩, now⟩ := bothEvaluated_iff_undisturbed represents ran
          rw [EachMeets, EachMeets, ran]
          exact and_congr now (ih represents' through)

/-- In a run, no entry of a table is skipped because the other table was looked at exactly if each table
that has an entry to execute is the one that passes the common check. -/
theorem bothEvaluated_iff (defaultUtc : Bool) (inputs : List Input)
    (through : (inputs.foldl (Tables.step cest table order) (some (.start defaultUtc))).isSome = true) :
    EachMeets (Tables.step cest table order) (BothEvaluated cest table order) (some (.start defaultUtc))
        inputs ↔
      EachMeets (Tables.step cest table order) (Undisturbed cest table order) (some (.start defaultUtc))
        inputs :=
  eachMeets_iff (represents_cronInit defaultUtc) inputs through

end Runs

/-- A job for every minute. -/
def everyMinute : Event := ⟨-1, -1, -1, -1, -1, 0, .jump 0 []⟩

/-- A job in the dynamic table, and one second. -/
def oneSecond (time : UInt32) : List Input := [.command (.add everyMinute), .second quiet 5 time]

/-- `netstat_send` in the static table. -/
def netstatTable : StaticTable := staticEvents false false true

/-- In the first minute, `netstat_send` is not due. -/
theorem bothEvaluated_iff_firstMinute :
    EachMeets (Tables.step false netstatTable .dynamicFirst)
      (BothEvaluated false netstatTable .dynamicFirst) (some (.start true)) (oneSecond 60) := by
  refine (bothEvaluated_iff true (oneSecond 60) (by decide)).mpr ⟨fun _ _ _ _ => trivial, ?_, trivial⟩
  have saved : (Tables.step false netstatTable .dynamicFirst (some (.start true))
      (.command (.add everyMinute))).map (fun tables => tables.cron.lastCheck) = some 0 := by
    decide
  intro now is list represents
  have check : now.cron.lastCheck = 0 := by
    rw [Option.mem_def.mp is] at saved
    exact Option.some.inj saved
  have idle : ¬∃ event ∈ netstatTable.events, event.isDue false 60 = true := by decide
  refine ⟨fun _ _ => ⟨?_, rfl⟩, fun _ due => absurd due idle⟩
  rw [check]
  decide

/-- In the fifth minute, `netstat_send` is skipped because of the job. -/
theorem not_bothEvaluated :
    ((oneSecond 300).foldl (Tables.step false netstatTable .dynamicFirst) (some (.start true))).isSome =
        true ∧
      ¬EachMeets (Tables.step false netstatTable .dynamicFirst)
        (BothEvaluated false netstatTable .dynamicFirst) (some (.start true)) (oneSecond 300) := by
  refine ⟨by decide, ?_⟩
  rintro ⟨-, evaluated, -⟩
  obtain ⟨cron, applied, represents, -⟩ := (represents_cronInit true).edit (.add everyMinute)
  have added : Tables.step false netstatTable .dynamicFirst (some (.start true))
      (.command (.add everyMinute)) = some ⟨cron, 0, 0⟩ := by
    rw [Tables.step, Option.bind_some]
    exact Option.map_eq_some_iff.mpr ⟨cron, applied, rfl⟩
  have nothing : ((Tables.step false netstatTable .dynamicFirst (some (.start true))
      (.command (.add everyMinute))).bind fun tables =>
        (tables.second false netstatTable .dynamicFirst quiet 5 300)).map Outcome.events = some [] := by
    decide
  rw [added] at nothing evaluated
  obtain ⟨outcome, second, none_⟩ := Option.map_eq_some_iff.mp nothing
  have minute : (60 : UInt32) ≤ 300 - 0 := by decide
  have sends := (evaluated _ rfl _ represents outcome second).events minute
    ⟨-5, -1, -1, -1, -1, .netstatSend, false⟩ (by decide) (by decide)
  rw [none_] at sends
  exact List.not_mem_nil sends

end Ethersex.Cron
