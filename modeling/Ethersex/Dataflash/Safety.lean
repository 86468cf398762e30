import Mathlib
import Ethersex.Dataflash.Operations

/-!
# Safe allocation

`fs_new_page` never looks at the volume, only at the map that `fs_init` has filled.
An operation is safe if the pages which that map offers next, as many as the operation
asks for, are not in use when it begins: although the operation moves the root page
and the inode tables on its way, it moves them to pages it was handed out itself.
-/

namespace Ethersex.Dataflash

open Library

section Steps

variable {keep avoid : Nat → Prop} {count inode page : Nat} {fs : Fs}

/-- Programming a new root page with the same inode tables. -/
theorem Room.commit (room : Room keep avoid (count + 1) fs)
    (found : fs.next fs.lastFree = some page)
    (tables : SameTables fs.chip.buf1 (fs.chip.flash (fs.root % 4096))) :
    Room keep (Also avoid page) count (fs.sealed.commit page) := by
  have pageIn := Fs.next_lt found
  have handed := room.handOut found
  refine handed.change _ rfl rfl rfl fun other live => ?_
  have sealedTables : SameTables (sealRoot fs.nextVersion fs.chip.buf1)
      (fs.chip.flash (fs.root % 4096)) := by
    intro k lower upper
    rw [sealRoot_of_ne _ _ (by omega) (by omega), tables k lower upper]
  have moved : Live keep (Function.update fs.chip.flash page (sealRoot fs.nextVersion fs.chip.buf1))
      page other := by
    have flash : (fs.sealed.commit page).chip.flash =
        Function.update fs.chip.flash page (sealRoot fs.nextVersion fs.chip.buf1) := by
      simp only [Fs.commit, dfBufSave, dfPages, Nat.mod_eq_of_lt pageIn]
      rfl
    rw [← flash]
    exact live
  rcases live_moved sealedTables pageIn (room.notLive found) moved with old | rfl
  · exact Or.inl (room.live other old)
  · exact Or.inr rfl

/-- One step of a trace either fails without an effect on what is live, or redirects the
inode to the page handed out. -/
theorem Room.pageStep (room : Room keep avoid (count + 3) fs) (small : inode < 4096)
    (found : fs.next fs.lastFree = some page) :
    (∃ status after, status ≠ .ok ∧
        fsUpdateInodetable inode (some page) (fs.handOut page) = (status, after) ∧
        Evolves keep (Also avoid page) count (fs.handOut page) after) ∨
      ∃ table newRoot node,
        fsUpdateInodetable inode (some page) (fs.handOut page) =
            (.ok, (fs.handOut page).updated inode node table newRoot) ∧
          nodePage node = some page ∧
          Commits keep (Also avoid page) count (fs.handOut page) inode node table newRoot ∧
          ∀ content, Room keep (Also (Also (Also avoid page) table) newRoot) count
            (((fs.handOut page).updated inode node table newRoot).program page content) := by
  have pageIn := Fs.next_lt found
  have handed := room.handOut found
  have target (number : Nat) (is : some page = some number) :
      number < 4096 ∧ Also avoid page number := by
    obtain rfl := Option.some.inj is
    exact ⟨pageIn, Or.inr rfl⟩
  rcases fsUpdateInodetable_cases handed small _ target with failed | ⟨table, newRoot, node, rest⟩
  · exact Or.inl failed
  · obtain ⟨updated, entry, commits⟩ := rest
    refine Or.inr ⟨table, newRoot, node, updated, entry, commits, fun content => ?_⟩
    refine commits.room.program content ?_
    exact commits.notStructural handed small (Or.inr rfl) fun structural =>
      room.notLive found structural.live

/-- Room for three pages a step is enough. -/
theorem PageSteps.roomy {cells : List (Nat × Bytes)} {result : FsStatus × Fs} {steps : Nat}
    (trace : PageSteps steps cells fs result) (count : Nat)
    (room : Room keep avoid (count + 3 * steps) fs) : Roomy keep avoid count result.2 := by
  induction trace generalizing avoid with
  | stop status fs => exact ⟨avoid, fun _ => id, room.mono (Nat.le_add_right count _)⟩
  | @failed steps inode page status fs after small found updated bad =>
      have enough : Room keep avoid (count + 3) fs := room.mono (by omega)
      rcases enough.pageStep small found with ⟨_, _, _, same, evolves⟩ | ⟨_, _, _, same, -⟩
      · rw [updated] at same
        obtain rfl : after = _ := (Prod.ext_iff.mp same).2
        exact evolves.roomy.weaken fun _ => Or.inl
      · rw [updated] at same
        exact absurd (Prod.ext_iff.mp same).1 bad
  | @page steps inode page content cells fs after result small found updated rest ih =>
      have enough : Room keep avoid (count + 3 * steps + 3) fs := room.mono (by omega)
      rcases enough.pageStep small found with ⟨_, _, bad, same, -⟩ | ⟨table, newRoot, node, same, -, -, later⟩
      · rw [updated] at same
        exact absurd (Prod.ext_iff.mp same).1.symm bad
      · rw [updated] at same
        obtain rfl : after = _ := (Prod.ext_iff.mp same).2
        exact (ih (later content)).weaken fun _ avoided => Or.inl (Or.inl (Or.inl avoided))

end Steps

/-! ## The condition -/

/-- Going round from the page handed out last, the next pages that the map of free pages
offers, at most `count`, are distinct and none of them is to be avoided. -/
def Fs.Fresh (fs : Fs) (avoid : Nat → Prop) (count : Nat) : Prop :=
  FreshFor (nextFit 4096 (fsUsed fs)) avoid count fs.lastFree

theorem upcoming_next (fs : Fs) (count : Nat) {cursor : Nat} (inside : cursor < 4096) :
    upcoming fs.next count cursor = upcoming (nextFit 4096 (fsUsed fs)) count cursor := by
  induction count generalizing cursor with
  | zero => rw [upcoming, upcoming]
  | succ count ih =>
      rw [upcoming, upcoming, fs.next_eq_nextFit inside]
      cases found : nextFit 4096 (fsUsed fs) cursor with
      | none => rfl
      | some page =>
          have pageIn : page < 4096 := nextFit_lt (Nat.succ_pos 4095) found
          simp only
          rw [ih pageIn]

theorem Fs.Fresh.freshFor {fs : Fs} {avoid : Nat → Prop} {count : Nat}
    (fresh : fs.Fresh avoid count) (inside : fs.lastFree < 4096) :
    FreshFor fs.next avoid count fs.lastFree := by
  have same := upcoming_next fs count inside
  constructor
  · rw [same]
    exact fresh.nodup
  · rw [same]
    exact fresh.apart

/-- The number of pages an operation asks for unless it fails on the way: one for a root
page, one for an inode table, one for a page of a file. -/
def Op.demand (fs : Fs) : Op → Nat
  | create name =>
      match fs.heap fs.mallocs, seekPlace fs name (2 ^ 16) 0 0 with
      | some _, some (.place _ _) => 1
      | _, _ => 0
  | remove name =>
      match fs.heap fs.mallocs, seekLast fs name (2 ^ 16) none 0 with
      | some _, some (some _, _) => 3
      | _, _ => 0
  | write inode data offset => 3 * writePages fs inode offset data.length
  | truncate inode length => 3 * truncatePages fs inode length

/-- The directory in which a file is removed has an end. -/
def Op.DirectoryEnds (fs : Fs) : Op → Prop
  | remove _ => ∃ k ≤ fsNodesInRoot, (readNode fs k).unused = true
  | _ => True

/-- The pages an operation asks for are not in use. -/
structure Op.FindsFresh (op : Op) (fs : Fs) : Prop where
  inRange : op.InodeInRange
  ends : op.DirectoryEnds fs
  fresh : fs.Fresh (Live (fun _ => True) fs.chip.flash fs.root) (op.demand fs)

/-- No page that was handed out was in use at that time, or handed out twice. -/
structure Fs.AllocatedSafely (fs : Fs) : Prop where
  safe : ∀ alloc ∈ fs.allocs, ¬Live (fun _ => True) alloc.flash alloc.root alloc.page
  distinct : (fs.allocs.map Alloc.page).Nodup

section Safety

variable {keep avoid : Nat → Prop} {count : Nat} {fs : Fs}

theorem Roomy.allocatedSafely (roomy : Roomy (fun _ => True) avoid count fs) :
    fs.AllocatedSafely := by
  obtain ⟨larger, -, room⟩ := roomy
  exact ⟨room.safe, room.distinct⟩

/-- An operation begins with room for the fresh pages. -/
theorem Room.begun (inside : fs.lastFree < 4096)
    (fresh : fs.Fresh (Live keep fs.chip.flash fs.root) count) :
    Room keep (Live keep fs.chip.flash fs.root) count fs.begun where
  fresh := fresh.freshFor inside
  live _ := id
  handed alloc member := by simp [Fs.begun] at member
  safe alloc member := by simp [Fs.begun] at member
  distinct := List.nodup_nil

/-- `fs_increment` hands out one page. -/
theorem Room.increment (room : Room (fun _ => True) avoid (count + 1) fs) :
    (fsIncrement fs).2.AllocatedSafely := by
  rw [fsIncrement_eq]
  cases found : fs.next fs.lastFree with
  | none => exact ⟨room.safe, room.distinct⟩
  | some page =>
      have handed := room.handOut found
      exact ⟨handed.safe, handed.distinct⟩

theorem fsCreate_safe {name : List UInt8} {result : FsStatus × Fs}
    (created : fsCreate name fs.begun = some result) (inside : fs.lastFree < 4096)
    (fresh : fs.Fresh (Live (fun _ => True) fs.chip.flash fs.root) (Op.demand fs (.create name))) :
    result.2.AllocatedSafely := by
  rcases fsCreate_cases created with ⟨status, -, rfl⟩ | ⟨page, index, max, memory, sought, rfl⟩
  · exact ⟨fun alloc member => by simp [Fs.allocated, Fs.begun] at member, List.nodup_nil⟩
  · have demand : Op.demand fs (.create name) = 0 + 1 := by
      obtain ⟨block, found⟩ := Option.isSome_iff_exists.mp memory
      rw [Op.demand, show fs.heap fs.mallocs = some block from found,
        @seekPlace_congr fs fs.begun rfl rfl, sought]
    rw [demand] at fresh
    have room := Room.begun inside fresh
    have prepared : Room (fun _ => True) _ (0 + 1) (fs.begun.allocated.prepared page) :=
      room.change _ rfl rfl rfl room.live
    exact prepared.increment

theorem fsRemove_safe {name : List UInt8} {result : FsStatus × Fs}
    (removed : fsRemove name fs.begun = some result) (inside : fs.lastFree < 4096)
    (ends : Op.DirectoryEnds fs (.remove name))
    (fresh : fs.Fresh (Live (fun _ => True) fs.chip.flash fs.root) (Op.demand fs (.remove name))) :
    result.2.AllocatedSafely := by
  rcases fsRemove_cases removed with
    ⟨status, -, rfl⟩ | ⟨page, index, max, inode, memory, sought, header, rfl⟩
  · exact ⟨fun alloc member => by simp [Fs.allocated, Fs.begun] at member, List.nodup_nil⟩
  · have demand : Op.demand fs (.remove name) = 2 + 1 := by
      obtain ⟨block, found⟩ := Option.isSome_iff_exists.mp memory
      rw [Op.demand, show fs.heap fs.mallocs = some block from found,
        @seekLast_congr fs fs.begun rfl rfl, sought]
    rw [demand] at fresh
    have room := Room.begun inside fresh
    have prepared : Room (fun _ => True) _ (2 + 1) (fs.begun.allocated.prepared page) :=
      room.change _ rfl rfl rfl room.live
    obtain ⟨unused, small, marked⟩ := ends
    have fits : max ≤ 60 := (seekLast_max sought (Nat.zero_le _) (by
      rw [show fsNodesInRoot = 60 from rfl] at small; omega) marked).trans small
    have enough : Room (fun _ => True) _ (0 + 1) (fs.begun.allocated.prepared page) :=
      prepared.mono (by decide)
    have increment := enough.increment
    split
    · next middle incremented =>
        rw [fsIncrement_eq] at incremented
        cases found : (fs.begun.allocated.prepared page).next (fs.begun.allocated.prepared page).lastFree with
        | none => simp [found] at incremented
        | some root =>
            simp only [found] at incremented
            obtain rfl := (Prod.ext_iff.mp incremented).2
            have later := prepared.commit found fun k _ upper => header fits k upper
            rcases fsUpdateInodetable_cases later inode.isLt none (by simp) with
              ⟨_, after, _, same, evolves⟩ | ⟨table, newRoot, node, same, -, commits⟩
            · rw [same]
              exact evolves.roomy.allocatedSafely
            · rw [same]
              exact ⟨commits.room.safe, commits.room.distinct⟩
    · exact increment

/-- An operation that finds fresh pages allocates safely. -/
theorem Op.FindsFresh.allocatedSafely {op : Op} {after : Fs} {status : FsStatus}
    (finds : op.FindsFresh fs) (inside : fs.lastFree < 4096)
    (ran : op.run fs.begun = some (status, after)) : after.AllocatedSafely := by
  have steps {pages : Nat} {cells : List (Nat × Bytes)} {result : FsStatus × Fs}
      (fresh : fs.Fresh (Live (fun _ => True) fs.chip.flash fs.root) (3 * pages))
      (trace : PageSteps pages cells fs.begun result) : result.2.AllocatedSafely :=
    (trace.roomy 0 (by rw [Nat.zero_add]; exact Room.begun inside fresh)).allocatedSafely
  cases op with
  | create name => exact fsCreate_safe ran inside finds.fresh
  | remove name => exact fsRemove_safe ran inside finds.ends finds.fresh
  | write inode data offset =>
      obtain ⟨cells, trace⟩ := fsWrite_steps fs.begun data offset finds.inRange
      rw [Option.some.inj ran, @writePages_congr fs.begun fs rfl rfl] at trace
      exact steps finds.fresh trace
  | truncate inode length =>
      obtain ⟨cells, trace⟩ := fsTruncate_steps fs.begun length finds.inRange
      rw [Option.some.inj ran, @truncatePages_congr fs.begun fs rfl rfl] at trace
      exact steps finds.fresh trace

end Safety

/-! ## The cursor at start-up -/

section Init

variable {fs : Fs}

theorem scanPage_lastFree (fs : Fs) (p : Nat) : (scanPage fs p).lastFree = fs.lastFree := by
  simp only [scanPage]
  split
  · split <;> rfl
  · rfl

theorem scanPages_lastFree (fs : Fs) (pages : List Nat) :
    (pages.foldl scanPage fs).lastFree = fs.lastFree := by
  induction pages generalizing fs with
  | nil => rfl
  | cons page pages ih => rw [List.foldl_cons, ih, scanPage_lastFree]

theorem fsFormat_lastFree (fs : Fs) : (fsFormat fs).2.lastFree = fs.lastFree := by
  simp only [fsFormat, malloc]
  split
  · next found => rw [(Prod.ext_iff.mp found).2.symm]
  · next first =>
      obtain rfl := (Prod.ext_iff.mp first).2
      split
      · next found => rw [(Prod.ext_iff.mp found).2.symm]
      · next second =>
          obtain rfl := (Prod.ext_iff.mp second).2
          split
          · next found => rw [(Prod.ext_iff.mp found).2.symm]
          · next third =>
              obtain rfl := (Prod.ext_iff.mp third).2
              rfl

theorem fsScan_lastFree (fs : Fs) : (fsScan fs).2.lastFree = fs.lastFree := by
  simp only [fsScan, malloc]
  split
  · next found => rw [(Prod.ext_iff.mp found).2.symm]
  · next found =>
      obtain rfl := (Prod.ext_iff.mp found).2
      split
      · exact scanPages_lastFree _ _
      · rw [fsFormat_lastFree, scanPages_lastFree]

theorem markTables_lastFree (fs : Fs) (tables : List Nat) :
    (tables.foldl (fun fs i => fsMarkUsed (fsInodetable fs i) fs) fs).lastFree = fs.lastFree := by
  induction tables generalizing fs with
  | nil => rfl
  | cons i tables ih =>
      rw [List.foldl_cons, ih]
      rfl

theorem markChain_lastFree {steps : Nat} {page : Option Nat} {fs after : Fs}
    (marked : markChain steps page fs = some after) : after.lastFree = fs.lastFree := by
  induction steps generalizing page fs with
  | zero =>
      cases page with
      | none => rw [← Option.some.inj marked]
      | some page => simp [markChain] at marked
  | succ steps ih =>
      cases page with
      | none => rw [← Option.some.inj marked]
      | some page =>
          simp only [markChain] at marked
          split at marked
          · rw [← Option.some.inj marked]
            rfl
          · rw [ih marked]
            rfl

theorem markFiles_lastFree {count index : Nat} {fs after : Fs}
    (marked : markFiles count index fs = some after) : after.lastFree = fs.lastFree := by
  induction count generalizing index fs with
  | zero => rw [← Option.some.inj marked]
  | succ count ih =>
      simp only [markFiles] at marked
      split at marked
      · exact ih marked
      · obtain ⟨middle, chain, rest⟩ := Option.bind_eq_some_iff.mp marked
        rw [ih rest, markChain_lastFree chain]

theorem markFiles_malloc_lastFree {fs after : Fs} {count : Nat} {status : FsStatus}
    (marked : (match malloc fs with
      | (none, fs) => some (FsStatus.mem, fs)
      | (some _, fs) => (markFiles count 0 fs).map (FsStatus.ok, ·)) = some (status, after)) :
    after.lastFree = fs.lastFree := by
  rw [malloc] at marked
  cases memory : fs.heap fs.mallocs with
  | none =>
      simp only [memory] at marked
      obtain rfl := (Prod.ext_iff.mp (Option.some.inj marked)).2
      rfl
  | some block =>
      simp only [memory] at marked
      obtain ⟨final, files, same⟩ := Option.map_eq_some_iff.mp marked
      obtain rfl : final = after := (Prod.ext_iff.mp same).2
      rw [markFiles_lastFree files]

/-- `fs_init` starts the search for free pages at page 0. -/
theorem fsInit_lastFree {chip : Chip} {heap : Nat → Option Bytes} {status : FsStatus} {fs : Fs}
    (started : fsInit chip heap = some (status, fs)) : fs.lastFree = 0 := by
  have scanned := fsScan_lastFree (Fs.initial chip heap)
  rw [fsInit_eq] at started
  generalize fsScan (Fs.initial chip heap) = result at started scanned
  obtain ⟨scanStatus, middle⟩ := result
  have begin : middle.lastFree = 0 := scanned
  cases scanStatus with
  | ok =>
      have tables := markTables_lastFree (fsMarkUsed middle.root middle) (List.range 16)
      exact (markFiles_malloc_lastFree started).trans (tables.trans begin)
  | _ =>
      obtain rfl := (Prod.ext_iff.mp (Option.some.inj started)).2
      exact begin

end Init

/-! ## Runs -/

section Examples

variable {chip : Chip} {heap : Nat → Option Bytes} {start : Fs}
  {rootBlock inodeBlock nodeBlock : Bytes}

/-- The first file created on a blank device gets page 17 as its root page. -/
theorem Boots.create (boots : Boots chip heap start rootBlock inodeBlock nodeBlock)
    {block : Bytes} (memory : start.heap start.mallocs = some block) (name : List UInt8) :
    ∃ after, Op.run (.create name) start.begun = some (.ok, after) ∧
      after.allocs = [⟨start.chip.flash, 0, 17⟩] := by
  have holds : start.begun.Holds [] := boots.holds
  obtain ⟨node, page, created, -⟩ := @fsCreate_of_absent start.begun [] name _ holds memory
    (by simp) (Nat.zero_le 59)
  have next : (start.begun.allocated.prepared page).next
      (start.begun.allocated.prepared page).lastFree = some 17 := by
    rw [@Fs.next_congr (start.begun.allocated.prepared page) start rfl,
      show (start.begun.allocated.prepared page).lastFree = 0 from boots.lastFree]
    exact boots.next_zero
  rw [fsIncrement_eq, next] at created
  refine ⟨(start.begun.allocated.prepared page).sealed.commit 17, ?_, ?_⟩
  · rw [Op.run, created]
  · change [Alloc.mk start.chip.flash start.root 17] = _
    rw [boots.root]

/-- The pages in use after start-up, when `BUF1` marks the last inodes as unused. -/
theorem Boots.live (boots : Boots chip heap start rootBlock inodeBlock nodeBlock)
    (unused : nodePage (InodetableNode.decode fun k => chip.buf1 (525 + k)) = none) {page : Nat}
    (live : Live (fun _ => True) start.chip.flash start.root page) : page ≤ 16 := by
  rcases live with rfl | ⟨tableid, small, rfl⟩ | ⟨inode, small, -, found⟩
  · rw [boots.root]
    exact Nat.zero_le _
  · rw [boots.tableOf small]
    omega
  · by_cases last : inode % 256 = 255
    · rw [boots.pageOf_last _ small last, unused] at found
      simp at found
    · rw [boots.pageOf small last] at found
      simp at found

/-- The first page handed out is fresh. -/
theorem Boots.fresh (boots : Boots chip heap start rootBlock inodeBlock nodeBlock)
    (unused : nodePage (InodetableNode.decode fun k => chip.buf1 (525 + k)) = none) :
    start.Fresh (Live (fun _ => True) start.chip.flash start.root) 1 := by
  have next : nextFit 4096 (fsUsed start) start.lastFree = some 17 := by
    rw [boots.lastFree, ← start.next_eq_nextFit (Nat.succ_pos 4095)]
    exact boots.next_zero
  have ahead : upcoming (nextFit 4096 (fsUsed start)) 1 start.lastFree = [17] := by
    rw [upcoming_succ next, upcoming]
  constructor
  · rw [ahead]
    exact List.nodup_singleton _
  · rw [ahead]
    intro page member live
    have low := boots.live unused live
    rw [List.mem_singleton.mp member] at low
    exact absurd low (by decide)

end Examples

/-- A blank device whose buffers hold ones. -/
def erasedChip : Chip := ⟨fun _ _ => 0xff, fun _ => 0xff, fun _ => 0xff, []⟩

/-- A blank device on which `BUF1` holds, where the last inode of each table will be, an
inode in page 17. -/
def leftoverChip : Chip :=
  ⟨fun _ _ => 0xff, fun k => if k = 525 then 16 else 1, fun _ => 0xff, []⟩

end Ethersex.Dataflash
