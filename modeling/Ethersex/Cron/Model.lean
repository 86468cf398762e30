import Mathlib
import Ethersex.Clock.Model
import Ethersex.Library.LinkedList

/-!
# Cron

The list of jobs and the functions that edit and walk it.  A job is a cell on the
heap; its address is an identity that `malloc` never hands out again, so that a
pointer to a freed job stays recognisable.  Reading, writing or freeing a job that
was freed, and dereferencing a null pointer, yields `none`.

Commands are executed by the ecmd parser or by application code, which the model
does not know; what they do to the list is given from outside, as the edits the ecmd
commands `cron_rm` and `cron_add` make.
-/

namespace Ethersex.Cron

open Clock LinkedList

/-- The address of a job. -/
abbrev Address := Nat

/-- What is executed: `CRON_JUMP` or `CRON_ECMD`. -/
inductive Command where
  | jump (handler : UInt16) (extradata : List UInt8)
  | ecmd (ecmddata : String)
  deriving DecidableEq, Repr

/-- `struct cron_event`; `repeats` is the source's `repeat`. -/
structure Event where
  minute : Int8
  hour : Int8
  day : Int8
  month : Int8
  dayofweek : Int8
  repeats : UInt8
  cmd : Command
  deriving DecidableEq, Repr

/-- The member `fields` of the union. -/
def Event.fields (event : Event) : Fin 5 → Int8
  | 0 => event.minute
  | 1 => event.hour
  | 2 => event.day
  | 3 => event.month
  | 4 => event.dayofweek

/-- The static variables and the jobs on the heap.  `fresh` is the next address
`malloc` returns. -/
structure State where
  heap : Heap Address Event
  fresh : Address
  head : Option Address
  tail : Option Address
  lastCheck : UInt32
  useUtc : Bool

/-- `cron_init`, with `CRON_DEFAULT_UTC` or without. -/
def cronInit (defaultUtc : Bool) : State where
  heap := fun _ => none
  fresh := 0
  head := none
  tail := none
  lastCheck := 0
  useUtc := defaultUtc

/-! ## Editing the list -/

/-- Follows `next` for `steps` jobs: the loop of `cron_getjob` and of `cron_insert`. -/
def walkTo (heap : Heap Address Event) : Nat → Option Address → Option (Option Address)
  | _, none => some none
  | 0, some job => some (some job)
  | steps + 1, some job => (heap job).bind fun cell => walkTo heap steps cell.next

/-- `cron_getjob`. -/
def cronGetjob (jobposition : UInt8) (cron : State) : Option (Option Address) :=
  walkTo cron.heap jobposition.toNat cron.head

/-- `malloc` of a job and the fields of its event.  The links are set by
`cron_insert` before they are read. -/
def newJob (event : Event) (cron : State) : State :=
  { cron with
    heap := Function.update cron.heap cron.fresh (some ⟨none, none, event⟩)
    fresh := cron.fresh + 1 }

def cronInsert (newone : Address) (position : Int8) (cron : State) : Option State :=
  match cron.head with
  | none => do
      let heap ← setPrev newone none cron.heap
      let heap ← setNext newone none heap
      some { cron with heap, head := some newone, tail := some newone }
  | some head =>
      if 0 < position then do
        let found ← walkTo cron.heap position.toInt.toNat (some head)
        let job ← found
        let cell ← cron.heap job
        let heap ← setPrev newone cell.prev cron.heap
        let heap ← setPrev job (some newone) heap
        let heap ← setNext newone (some job) heap
        some { cron with heap, head := some (if job = head then newone else head) }
      else do
        let heap ← setNext newone none cron.heap
        let heap ← setPrev newone cron.tail heap
        let tail ← cron.tail
        let heap ← setNext tail (some newone) heap
        some { cron with heap, tail := some newone }

/-- `cron_jobinsert_callback` and `cron_jobinsert_ecmd`, when there is memory left. -/
def cronJobinsert (event : Event) (position : Int8) (cron : State) : Option State :=
  cronInsert cron.fresh position (newJob event cron)

/-- `cron_jobrm` of a job that is not null. -/
def removeJob (job : Address) (cron : State) : Option State := do
  let cell ← cron.heap job
  let head := if cron.head = some job then cell.next else cron.head
  let heap ← ifSome cell.prev (setNext · cell.next) cron.heap
  let cell ← heap job
  let tail := if cron.tail = some job then cell.prev else cron.tail
  let heap ← ifSome cell.next (setPrev · cell.prev) heap
  let heap ← free job heap
  some { cron with heap, head, tail }

def cronJobrm (job : Option Address) (cron : State) : Option State :=
  match job with
  | none => some cron
  | some job => removeJob job cron

/-- The loop of `cron_rm` without a position.  Each pass frees a job. -/
def removeAll : Nat → State → Option State
  | 0, cron => if cron.head = none then some cron else none
  | passes + 1, cron =>
      match cron.head with
      | none => some cron
      | some job => (removeJob job cron).bind (removeAll passes)

/-! ## Commands -/

/-- What a command does to the list: `cron_rm` with a position or without, or a
`cron_add` that gets memory.  Any other command leaves the list alone. -/
inductive Edit where
  | rm (jobposition : UInt8)
  | rmAll
  | add (event : Event)
  deriving DecidableEq, Repr

/-- No more than `fresh` jobs can be freed, so `fresh` passes are enough. -/
def Edit.run (cron : State) : Edit → Option State
  | .rm jobposition => (cronGetjob jobposition cron).bind fun job => cronJobrm job cron
  | .rmAll => removeAll cron.fresh cron
  | .add event => cronJobinsert event (-1) cron

def runEdits (edits : List Edit) (cron : State) : Option State :=
  edits.foldlM Edit.run cron

/-! ## Walking the list -/

/-- The check of one field. -/
def fieldMatches (field : Int8) (value : UInt8) : Bool :=
  if field = -1 then true
  else if field ≥ 0 ∧ field.toInt ≠ value.toNat then false
  else if field < 0 ∧ value.toNat % (-field.toInt) ≠ 0 then false
  else true

/-- The loop over the fields does not break. -/
def Event.isDue (date : Datetime) (event : Event) : Bool :=
  (List.finRange 5).all fun condition =>
    fieldMatches (event.fields condition) (date.cronFields condition)

/-- The loop of `cron_periodic`: the job it looks at next, the jobs it has looked at,
and those of them whose commands were executed. -/
structure Pass where
  cron : State
  current : Option Address
  considered : List Address
  fired : List Address

/-- The end of the loop body for an executed job: counting down its repetitions. -/
def countDown (exec : Address) (cron : State) : Option State := do
  let cell ← cron.heap exec
  if cell.value.repeats > 0 then do
    let repeats := cell.value.repeats - 1
    let heap ← setValue exec { cell.value with repeats } cron.heap
    if repeats = 0 then cronJobrm (some exec) { cron with heap } else some { cron with heap }
  else some cron

/-- The loop body.  `effects` gives the edits made by the first, second, …
executed command. -/
def Pass.step (date : Datetime) (effects : Nat → List Edit) (pass : Pass) : Option Pass :=
  match pass.current with
  | none => some pass
  | some exec => do
      let cell ← pass.cron.heap exec
      let considered := pass.considered ++ [exec]
      if cell.value.isDue date then do
        let cron ← runEdits (effects pass.fired.length) pass.cron
        let cron ← countDown exec cron
        some ⟨cron, cell.next, considered, pass.fired ++ [exec]⟩
      else some { pass with current := cell.next, considered }

/-- The first passes of the loop. -/
def Pass.steps (date : Datetime) (effects : Nat → List Edit) : Nat → Pass → Option Pass
  | 0, pass => some pass
  | passes + 1, pass => (pass.step date effects).bind (Pass.steps date effects passes)

/-- The loop before its first pass. -/
def Pass.start (cron : State) : Pass := ⟨cron, cron.head, [], []⟩

/-- The conversion `cron_periodic` uses. -/
def dateOf (cest useUtc : Bool) (timestamp : UInt32) : Option Datetime :=
  if useUtc then clockDatetime timestamp else clockLocaltime cest timestamp

/-- `cron_periodic`, with at most `passes` passes of its loop, and the jobs it executed. -/
def cronPeriodic (cest : Bool) (effects : Nat → List Edit) (passes : Nat) (timestamp : UInt32)
    (cron : State) : Option (State × List Address) :=
  if cron.head = none ∨ timestamp - cron.lastCheck < 60 then some (cron, [])
  else do
    let date ← dateOf cest cron.useUtc timestamp
    let pass ← (Pass.start cron).steps date effects passes
    if pass.current = none then
      some ({ pass.cron with lastCheck := timestamp - date.sec.toUInt32 }, pass.fired)
    else none

end Ethersex.Cron
