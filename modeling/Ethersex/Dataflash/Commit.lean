import Mathlib
import Ethersex.Dataflash.Allocation

/-!
# Commits

`fs_update_inodetable` programs a new inode table and a new root page.  With room
for both it either changes nothing that is live, or it changes the one inode and
nothing else.  A data page that was handed out before is then programmed in
place.
-/

namespace Ethersex.Dataflash

open Library

/-- The directory bytes of the root page are the same. -/
def SameDirectory (before after : Fs) : Prop :=
  ∀ k, 40 ≤ k → k < 527 →
    after.chip.flash (after.root % 4096) k = before.chip.flash (before.root % 4096) k

theorem SameDirectory.refl (fs : Fs) : SameDirectory fs fs := fun _ _ _ => rfl

theorem SameDirectory.trans {first second third : Fs} (left : SameDirectory first second)
    (right : SameDirectory second third) : SameDirectory first third :=
  fun k lower upper => (right k lower upper).trans (left k lower upper)

/-- There is room for more pages, and no page may be programmed that could not be
programmed before. -/
def Roomy (keep avoid : Nat → Prop) (count : Nat) (after : Fs) : Prop :=
  ∃ larger, (∀ page, avoid page → larger page) ∧ Room keep larger count after

theorem Roomy.weaken {keep avoid smaller : Nat → Prop} {count : Nat} {fs : Fs}
    (roomy : Roomy keep avoid count fs) (included : ∀ page, smaller page → avoid page) :
    Roomy keep smaller count fs := by
  obtain ⟨larger, grows, room⟩ := roomy
  exact ⟨larger, fun page small => grows page (included page small), room⟩

/-- A part of an operation has kept its room and the directory. -/
structure Evolves (keep avoid : Nat → Prop) (count : Nat) (before after : Fs) : Prop where
  roomy : Roomy keep avoid count after
  directory : SameDirectory before after

theorem Evolves.after {keep avoid larger : Nat → Prop} {count : Nat} {before middle after : Fs}
    (evolves : Evolves keep larger count middle after)
    (included : ∀ page, avoid page → larger page) (directory : SameDirectory before middle) :
    Evolves keep avoid count before after :=
  ⟨evolves.roomy.weaken included, directory.trans evolves.directory⟩

/-- Program a page with contents that are in `BUF1`. -/
def Fs.program (page : Nat) (content : Bytes) (fs : Fs) : Fs :=
  { fs with
    chip :=
      { fs.chip with
        flash := Function.update fs.chip.flash page content
        buf1 := content
        programs := fs.chip.programs ++ [(page, content)] } }

theorem SameDirectory.program {fs : Fs} {page : Nat} (content : Bytes)
    (notStructural : ¬Structural fs.chip.flash fs.root page) :
    SameDirectory fs (fs.program page content) := by
  intro k _ _
  have apart : fs.root % 4096 ≠ page := fun equal => notStructural (Or.inl equal.symm)
  simp only [Fs.program, Function.update_of_ne apart]

theorem Room.program {keep avoid : Nat → Prop} {count : Nat} {fs : Fs} {page : Nat}
    (room : Room keep avoid count fs) (content : Bytes)
    (notStructural : ¬Structural fs.chip.flash fs.root page) :
    Room keep avoid count (fs.program page content) :=
  room.change _ rfl rfl rfl fun other live =>
    room.live other ((live_program notStructural other).mp live)

/-- The state after a successful `fs_update_inodetable`. -/
def Fs.updated (inode : Nat) (node : InodetableNode) (table newRoot : Nat) (fs : Fs) : Fs :=
  (fs.withTable inode node table).sealed.commit newRoot

section Updated

variable {inode table newRoot : Nat} {node : InodetableNode} {fs : Fs}

theorem Fs.updated_flash (newRootIn : newRoot < 4096) :
    (fs.updated inode node table newRoot).chip.flash =
      switched fs.chip.flash fs.root inode node table newRoot fs.nextVersion := by
  simp only [Fs.updated, Fs.commit, dfBufSave, dfPages, Nat.mod_eq_of_lt newRootIn]
  rfl

@[simp] theorem Fs.updated_root : (fs.updated inode node table newRoot).root = newRoot := rfl

@[simp] theorem Fs.updated_lastFree : (fs.updated inode node table newRoot).lastFree = newRoot := rfl

@[simp] theorem Fs.updated_version :
    (fs.updated inode node table newRoot).version = fs.nextVersion := rfl

@[simp] theorem Fs.updated_buf2 :
    (fs.updated inode node table newRoot).chip.buf2 = fs.chip.buf2 := rfl

@[simp] theorem Fs.updated_heap : (fs.updated inode node table newRoot).heap = fs.heap := rfl

@[simp] theorem Fs.updated_mallocs :
    (fs.updated inode node table newRoot).mallocs = fs.mallocs + 1 := rfl

end Updated

/-- What `fs_update_inodetable` does, unless the new inode table replaces the root
page. -/
inductive UpdateOutcome (fs : Fs) (inode : Nat) (page : Option Nat) : FsStatus × Fs → Prop where
  | noTable : fs.next fs.lastFree = none → UpdateOutcome fs inode page (.badPage, fs)
  | noMemory {table : Nat} :
      fs.next fs.lastFree = some table → fs.heap fs.mallocs = none →
        UpdateOutcome fs inode page (.mem, { fs.handOut table with mallocs := fs.mallocs + 1 })
  | noRoot {table : Nat} (block : Bytes) :
      fs.next fs.lastFree = some table → fs.heap fs.mallocs = some block → fs.next table = none →
        UpdateOutcome fs inode page
          (.badPage, (fs.withTable inode (newEntry page block) table).sealed)
  | ok {table newRoot : Nat} (block : Bytes) :
      fs.next fs.lastFree = some table → fs.heap fs.mallocs = some block →
        fs.next table = some newRoot →
        UpdateOutcome fs inode page (.ok, fs.updated inode (newEntry page block) table newRoot)

theorem Fs.withTable_next (fs : Fs) (inode : Nat) (node : InodetableNode) (table : Nat) :
    (fs.withTable inode node table).next = fs.next := Fs.next_congr rfl

theorem fsUpdateInodetable_outcome {fs : Fs} (inode : Nat) (page : Option Nat)
    (apart : fs.next fs.lastFree ≠ some (fs.root % 4096)) :
    UpdateOutcome fs inode page (fsUpdateInodetable inode page fs) := by
  cases tableNext : fs.next fs.lastFree with
  | none =>
      rw [fsUpdateInodetable_of_full inode page tableNext]
      exact .noTable tableNext
  | some table =>
      have other : table ≠ fs.root % 4096 := fun equal => apart (equal ▸ tableNext)
      cases memory : fs.heap fs.mallocs with
      | none =>
          rw [fsUpdateInodetable_of_noMemory inode page tableNext memory]
          exact .noMemory tableNext memory
      | some block =>
          rw [fsUpdateInodetable_eq page tableNext memory other, fsIncrement_eq, Fs.withTable_next,
            show (fs.withTable inode (newEntry page block) table).lastFree = table from rfl]
          cases rootNext : fs.next table with
          | none => exact .noRoot block tableNext memory rootNext
          | some newRoot => exact .ok block tableNext memory rootNext

/-- What a successful `fs_update_inodetable` relies on: two more pages that are not
live. -/
structure Commits (keep avoid : Nat → Prop) (count : Nat) (fs : Fs) (inode : Nat)
    (node : InodetableNode) (table newRoot : Nat) : Prop where
  tableNext : fs.next fs.lastFree = some table
  rootNext : fs.next table = some newRoot
  tableIn : table < 4096
  rootIn : newRoot < 4096
  tableFresh : ¬avoid table
  rootFresh : ¬avoid newRoot
  apart : table ≠ newRoot
  room : Room keep (Also (Also avoid table) newRoot) count (fs.updated inode node table newRoot)

section Commit

variable {keep avoid : Nat → Prop} {count : Nat} {fs : Fs} {inode : Nat}

theorem fsNewPage_of_next {page : Nat} (found : fs.next fs.lastFree = some page) :
    fsNewPage fs = (some page, fs.handOut page) := by
  rw [fsNewPage_eq, found]

theorem fsNewPage_of_full (full : fs.next fs.lastFree = none) : fsNewPage fs = (none, fs) := by
  rw [fsNewPage_eq, full]

/-- Programming the new inode table changes nothing that is live. -/
theorem Room.withTable (room : Room keep avoid (count + 1) fs) {table : Nat}
    (found : fs.next fs.lastFree = some table) (inode : Nat) (node : InodetableNode) :
    Room keep (Also avoid table) count (fs.withTable inode node table) := by
  have handed := room.handOut found
  refine handed.change (fs.withTable inode node table) rfl rfl rfl fun page live => ?_
  exact handed.live page ((live_program (fun structural => room.notLive found structural.live) page).mp live)

/-- `fs_update_inodetable` either fails without an effect on what is live, or
commits. -/
theorem fsUpdateInodetable_cases (room : Room keep avoid (count + 2) fs) (small : inode < 4096)
    (page : Option Nat) (target : ∀ number, page = some number → number < 4096 ∧ avoid number) :
    (∃ status after, status ≠ .ok ∧ fsUpdateInodetable inode page fs = (status, after) ∧
        Evolves keep avoid count fs after) ∨
      ∃ table newRoot node,
        fsUpdateInodetable inode page fs = (.ok, fs.updated inode node table newRoot) ∧
          nodePage node = page ∧ Commits keep avoid count fs inode node table newRoot := by
  have rootLive : avoid (fs.root % 4096) := room.live _ (Or.inl rfl)
  have apart : fs.next fs.lastFree ≠ some (fs.root % 4096) :=
    fun found => room.fresh.head found rootLive
  cases result : fsUpdateInodetable inode page fs with
  | mk status after =>
      have outcome := fsUpdateInodetable_outcome inode page apart
      rw [result] at outcome
      cases outcome with
      | noTable full =>
          exact Or.inl ⟨_, _, by simp, rfl,
            ⟨⟨avoid, fun _ avoided => avoided, room.mono (by omega)⟩, SameDirectory.refl fs⟩⟩
      | @noMemory table tableNext memory =>
          have handed := room.handOut tableNext
          refine Or.inl ⟨_, _, by simp, rfl,
            ⟨⟨Also avoid table, fun _ => Or.inl, ?_⟩, SameDirectory.refl fs⟩⟩
          exact (handed.mono (Nat.le_succ count)).change _ rfl rfl rfl handed.live
      | @noRoot table block tableNext memory full =>
          have step := room.withTable tableNext inode (newEntry page block)
          have other : table ≠ fs.root % 4096 := fun equal => apart (equal ▸ tableNext)
          refine Or.inl ⟨_, _, by simp, rfl, ⟨⟨Also avoid table, fun _ => Or.inl, ?_⟩, ?_⟩⟩
          · exact (step.mono (Nat.le_succ count)).change _ rfl rfl rfl step.live
          · intro k _ _
            change Function.update fs.chip.flash table _ (fs.root % 4096) k = _
            rw [Function.update_of_ne (Ne.symm other)]
      | @ok table newRoot block tableNext memory rootNext =>
          have step := room.withTable tableNext inode (newEntry page block)
          have entry := nodePage_newEntry (fun number is => (target number is).1) block
          have tableIn := Fs.next_lt tableNext
          have rootIn := Fs.next_lt rootNext
          have tableFresh := room.fresh.head tableNext
          have rootFresh : ¬Also avoid table newRoot := (room.handOut tableNext).fresh.head rootNext
          simp only [Also, not_or] at rootFresh
          refine Or.inr ⟨table, newRoot, newEntry page block, rfl, entry, tableNext, rootNext,
            tableIn, rootIn, tableFresh, rootFresh.1, Ne.symm rootFresh.2, ?_⟩
          have again := step.handOut (show Fs.next _ _ = some newRoot by rw [Fs.withTable_next]; exact rootNext)
          refine again.change _ rfl rfl rfl fun other live => ?_
          rw [Fs.updated_flash rootIn] at live
          have notTable : ¬Live keep fs.chip.flash fs.root table := room.notLive tableNext
          have notRoot : ¬Live keep fs.chip.flash fs.root newRoot :=
            fun live => rootFresh.1 (room.live newRoot live)
          rcases live_switched small rootIn tableIn notTable notRoot (Ne.symm rootFresh.2) live with
            rfl | rfl | ⟨-, points⟩ | old
          · exact Or.inr rfl
          · exact Or.inl (Or.inr rfl)
          · rw [entry] at points
            exact Or.inl (Or.inl (target other points).2)
          · exact Or.inl (Or.inl (room.live other old))

section Facts

variable {table newRoot : Nat} {node : InodetableNode}

/-- Room before a commit, seen from its two pages. -/
theorem Commits.notLive (commits : Commits keep avoid count fs inode node table newRoot)
    {more : Nat} (room : Room keep avoid more fs) :
    ¬Live keep fs.chip.flash fs.root table ∧ ¬Live keep fs.chip.flash fs.root newRoot :=
  ⟨fun live => commits.tableFresh (room.live _ live),
    fun live => commits.rootFresh (room.live _ live)⟩

theorem Commits.sameDirectory (commits : Commits keep avoid count fs inode node table newRoot)
    (small : inode < 4096) : SameDirectory fs (fs.updated inode node table newRoot) := by
  intro k lower upper
  rw [Fs.updated_flash commits.rootIn, Fs.updated_root, Nat.mod_eq_of_lt commits.rootIn, switched,
    Function.update_self, sealRoot_of_ne _ _ upper (by omega), rootWith,
    overlay_of_ge (by omega) (by omega)]

/-- The page of the inode is the one written, the other inodes keep theirs. -/
theorem Commits.pageOf (commits : Commits keep avoid count fs inode node table newRoot)
    {more : Nat} (room : Room keep avoid more fs) (small : inode < 4096) {other : Nat}
    (otherIn : other < 4096) :
    pageOf (fs.updated inode node table newRoot).chip.flash newRoot other =
      if other = inode then nodePage node else pageOf fs.chip.flash fs.root other := by
  have fresh := commits.notLive room
  rw [Fs.updated_flash commits.rootIn]
  exact pageOf_switched small commits.rootIn commits.tableIn fresh.1 fresh.2 commits.apart otherIn

theorem Commits.dataOf (commits : Commits keep avoid count fs inode node table newRoot)
    {more : Nat} (room : Room keep avoid more fs) (small : inode < 4096) {other : Nat}
    (otherIn : other < 4096) (kept : keep other) (different : other ≠ inode) :
    dataOf (fs.updated inode node table newRoot).chip.flash newRoot other =
      dataOf fs.chip.flash fs.root other := by
  have fresh := commits.notLive room
  rw [Fs.updated_flash commits.rootIn]
  exact dataOf_switched small commits.rootIn commits.tableIn fresh.1 fresh.2 commits.apart otherIn
    kept different

/-- A page handed out before the commit is neither the root page nor a table after
it. -/
theorem Commits.notStructural (commits : Commits keep avoid count fs inode node table newRoot)
    {more : Nat} (room : Room keep avoid more fs) (small : inode < 4096) {page : Nat}
    (avoided : avoid page) (notStructural : ¬Structural fs.chip.flash fs.root page) :
    ¬Structural (fs.updated inode node table newRoot).chip.flash newRoot page := by
  have fresh := commits.notLive room
  rw [Fs.updated_flash commits.rootIn]
  intro structural
  have tableFresh : ¬Structural fs.chip.flash fs.root table := fun live => fresh.1 live.live
  have rootFresh : ¬Structural fs.chip.flash fs.root newRoot := fun live => fresh.2 live.live
  rcases live_switched small commits.rootIn commits.tableIn tableFresh rootFresh commits.apart
    structural with rfl | rfl | ⟨impossible, -⟩ | old
  · exact commits.rootFresh avoided
  · exact commits.tableFresh avoided
  · exact impossible
  · exact notStructural old

end Facts

/-- `fs_update_inodetable` succeeds if memory and pages do not run out. -/
theorem fsUpdateInodetable_ok (supplies : Supplies fs.next (count + 2) fs.lastFree)
    (memory : (fs.heap fs.mallocs).isSome) (page : Option Nat)
    (apart : fs.next fs.lastFree ≠ some (fs.root % 4096)) :
    ∃ after, fsUpdateInodetable inode page fs = (.ok, after) ∧
      Supplies after.next count after.lastFree := by
  obtain ⟨table, tableNext, rest⟩ := supplies.next_eq
  obtain ⟨newRoot, rootNext, rest⟩ := rest.next_eq
  have outcome := fsUpdateInodetable_outcome inode page apart
  generalize fsUpdateInodetable inode page fs = result at outcome
  cases outcome with
  | noTable full => simp [tableNext] at full
  | noMemory _ none => simp [none] at memory
  | noRoot _ found _ full =>
      obtain rfl := Option.some.inj (tableNext.symm.trans found)
      simp [rootNext] at full
  | @ok table' newRoot' block found _ foundRoot =>
      obtain rfl := Option.some.inj (tableNext.symm.trans found)
      obtain rfl := Option.some.inj (rootNext.symm.trans foundRoot)
      refine ⟨_, rfl, ?_⟩
      rw [show (fs.updated inode (newEntry page block) table newRoot).next = fs.next from
        Fs.next_congr rfl]
      exact rest

end Commit

end Ethersex.Dataflash
