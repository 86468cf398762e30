import Mathlib
import Ethersex.Library.NextFit
import Ethersex.Dataflash.Volume

/-!
# Allocating pages

`fs_new_page` hands out pages in the order of their numbers, going round, and
skips only those that `fs_init` found in use.  `Room` says that the next pages are
not live and have not been handed out before in the same operation.  It is kept
by every step of every operation, as long as the operation does not ask for more
pages.

The steps themselves are stated as equations between states: `fsIncrement_eq` and
`fsUpdateInodetable_eq`.
-/

namespace Ethersex.Dataflash

open Library

/-- The page `fs_new_page` returns when `cursor` is the page returned last. -/
def Fs.next (fs : Fs) (cursor : Nat) : Option Nat :=
  let page := seekPage (fsUsed fs) cursor dfPages ((cursor + 1) % dfPages)
  if page = cursor then none else some page

/-- Record that a page has been handed out. -/
def Fs.handOut (page : Nat) (fs : Fs) : Fs :=
  { fs with lastFree := page, allocs := fs.allocs ++ [⟨fs.chip.flash, fs.root, page⟩] }

theorem fsNewPage_eq (fs : Fs) :
    fsNewPage fs =
      match fs.next fs.lastFree with
      | none => (none, fs)
      | some page => (some page, fs.handOut page) := by
  rw [fsNewPage, Fs.next]
  split <;> simp_all [Fs.handOut]

theorem seekPage_lt (used : Nat → Bool) (lastFree : Nat) {steps page : Nat} (small : page < 4096) :
    seekPage used lastFree steps page < 4096 := by
  induction steps generalizing page with
  | zero => exact small
  | succ steps ih =>
      rw [seekPage]
      split
      · exact ih (Nat.mod_lt _ (by decide))
      · exact small

theorem Fs.next_lt {fs : Fs} {cursor page : Nat} (found : fs.next cursor = some page) :
    page < 4096 := by
  simp only [Fs.next] at found
  split at found
  · simp at found
  · rw [← Option.some.inj found]
    exact seekPage_lt _ _ (Nat.mod_lt _ (by decide))

/-- The search of `fs_new_page` is next fit on the map of free pages. -/
theorem seekPage_eq (used : Nat → Bool) {cursor : Nat} (inside : cursor < 4096) {count : Nat}
    (small : count ≤ 4095) :
    seekPage used cursor (count + 1) ((cursor + 4096 - count) % 4096) =
      (((List.range count).map fun k => (cursor + 4096 - count + k) % 4096).find?
        fun page => !used page).getD cursor := by
  induction count with
  | zero =>
      have back : (cursor + 4096 - 0) % 4096 = cursor := by omega
      rw [back, seekPage, if_neg (by simp)]
      rfl
  | succ count ih =>
      have away : (cursor + 4096 - (count + 1)) % 4096 ≠ cursor := by omega
      have step : ((cursor + 4096 - (count + 1)) % 4096 + 1) % dfPages =
          (cursor + 4096 - count) % 4096 := by
        rw [dfPages]
        omega
      have shift : (fun k => (cursor + 4096 - (count + 1) + k) % 4096) ∘ Nat.succ =
          fun k => (cursor + 4096 - count + k) % 4096 := by
        funext k
        rw [Function.comp_apply]
        congr 1
        omega
      rw [seekPage, List.range_succ_eq_map, List.map_cons, List.map_map, shift, List.find?_cons,
        Nat.add_zero, step]
      cases marked : used ((cursor + 4096 - (count + 1)) % 4096) with
      | false => simp
      | true =>
          rw [if_pos ⟨rfl, away⟩]
          exact ih (by omega)

theorem Fs.next_eq_nextFit (fs : Fs) {cursor : Nat} (inside : cursor < 4096) :
    fs.next cursor = nextFit 4096 (fsUsed fs) cursor := by
  have search := seekPage_eq (fsUsed fs) inside (le_refl 4095)
  rw [show cursor + 4096 - 4095 = cursor + 1 by omega] at search
  have result : seekPage (fsUsed fs) cursor dfPages ((cursor + 1) % dfPages) =
      (nextFit 4096 (fsUsed fs) cursor).getD cursor := search
  simp only [Fs.next, result]
  cases found : nextFit 4096 (fsUsed fs) cursor with
  | none => simp
  | some page =>
      have other : page ≠ cursor := by
        rintro rfl
        exact nextFit_ne inside found
      simp [other]

/-- The map of free pages is in `BUF2`. -/
theorem Fs.next_congr {fs other : Fs} (same : fs.chip.buf2 = other.chip.buf2) :
    fs.next = other.next := by
  have used : fsUsed fs = fsUsed other := by
    funext page
    have read : dfBufRead fs.chip .buf2 (page / 8) = dfBufRead other.chip .buf2 (page / 8) := by
      rw [dfBufRead, dfBufRead, Chip.buffer, Chip.buffer, same]
    rw [fsUsed, fsUsed, read]
  funext cursor
  rw [Fs.next, Fs.next, used]

/-! ## The steps of a commit -/

/-- The version `fs_increment` writes. -/
def Fs.nextVersion (fs : Fs) : Nat := (fs.version + 1) % 2 ^ 32

/-- Count the version up and seal the page in `BUF1`. -/
def Fs.sealed (fs : Fs) : Fs :=
  { fs with
    version := fs.nextVersion
    chip := { fs.chip with buf1 := sealRoot fs.nextVersion fs.chip.buf1 } }

/-- Program the page in `BUF1` to a new page and make that the root page. -/
def Fs.commit (page : Nat) (fs : Fs) : Fs :=
  { fs.handOut page with chip := dfBufSave .buf1 page fs.chip, root := page }

theorem fsIncrement_eq (fs : Fs) :
    fsIncrement fs =
      match fs.next fs.lastFree with
      | none => (.badPage, fs.sealed)
      | some page => (.ok, fs.sealed.commit page) := by
  have next : Fs.next { fs with
      version := fs.nextVersion
      chip := { fs.chip with buf1 := sealRoot fs.nextVersion fs.chip.buf1 } } = fs.next :=
    Fs.next_congr rfl
  simp only [fsIncrement]
  rw [show (fs.version + 1) % 2 ^ 32 = fs.nextVersion from rfl, increment_buffer, fsNewPage_eq, next]
  cases fs.next fs.lastFree <;> rfl

/-- The entry `fs_update_inodetable` writes, in a block from `malloc`. -/
def newEntry (page : Option Nat) (block : Bytes) : InodetableNode :=
  match page with
  | none => { InodetableNode.decode block with unused := true }
  | some page => { InodetableNode.decode block with unused := false, page := Fin.ofNat 4096 page }

theorem nodePage_newEntry {page : Option Nat} (small : ∀ number, page = some number → number < 4096)
    (block : Bytes) : nodePage (newEntry page block) = page := by
  cases page with
  | none => rfl
  | some number =>
      simp only [nodePage, newEntry, Bool.false_eq_true, if_false, Fin.val_ofNat]
      rw [Nat.mod_eq_of_lt (small number rfl)]

/-- Program a new inode table and prepare the new root page in `BUF1`. -/
def Fs.withTable (inode : Nat) (node : InodetableNode) (table : Nat) (fs : Fs) : Fs :=
  let content := tableWith fs.chip.flash fs.root inode node
  { fs.handOut table with
    mallocs := fs.mallocs + 1
    chip :=
      { flash := Function.update fs.chip.flash table content
        buf1 := rootWith (fs.chip.flash (fs.root % 4096)) inode table
        buf2 := fs.chip.buf2
        programs := fs.chip.programs ++ [(table, content)] } }

theorem fsUpdateInodetable_eq {fs : Fs} {inode table : Nat} {block : Bytes} (page : Option Nat)
    (found : fs.next fs.lastFree = some table) (memory : fs.heap fs.mallocs = some block)
    (apart : table ≠ fs.root % 4096) :
    fsUpdateInodetable inode page fs =
      fsIncrement (fs.withTable inode (newEntry page block) table) := by
  have tableIn := Nat.mod_eq_of_lt (Fs.next_lt found)
  rw [fsUpdateInodetable, fsNewPage_eq, found]
  simp only [malloc, Fs.handOut, memory]
  congr 1
  simp only [Fs.withTable, Fs.handOut, tableWith, rootWith, newEntry, dfBufLoad, dfBufWrite,
    dfBufSave, Chip.setBuffer, Chip.buffer, dfPages, dfPagesize, fsDataOffset, fsInodesPerTable,
    fsRootnodeInodetableOffset, tableIn, Function.update_of_ne (Ne.symm apart)]
  cases page <;> rfl

theorem fsUpdateInodetable_of_full {fs : Fs} (inode : Nat) (page : Option Nat)
    (full : fs.next fs.lastFree = none) : fsUpdateInodetable inode page fs = (.badPage, fs) := by
  rw [fsUpdateInodetable, fsNewPage_eq, full]

theorem fsUpdateInodetable_of_noMemory {fs : Fs} {table : Nat} (inode : Nat) (page : Option Nat)
    (found : fs.next fs.lastFree = some table) (memory : fs.heap fs.mallocs = none) :
    fsUpdateInodetable inode page fs =
      (.mem, { fs.handOut table with mallocs := fs.mallocs + 1 }) := by
  rw [fsUpdateInodetable, fsNewPage_eq, found]
  simp only [malloc, Fs.handOut, memory]

/-! ## Room for an operation -/

/-- The next pages are safe to program, and so were the pages handed out so far.
`avoid` covers what is live and what has been handed out. -/
structure Room (keep avoid : Nat → Prop) (count : Nat) (fs : Fs) : Prop where
  fresh : FreshFor fs.next avoid count fs.lastFree
  live : ∀ page, Live keep fs.chip.flash fs.root page → avoid page
  handed : ∀ alloc ∈ fs.allocs, avoid alloc.page
  safe : ∀ alloc ∈ fs.allocs, ¬Live keep alloc.flash alloc.root alloc.page
  distinct : (fs.allocs.map Alloc.page).Nodup

/-- The avoided pages and one more. -/
def Also (avoid : Nat → Prop) (page other : Nat) : Prop := avoid other ∨ other = page

section Room

variable {keep avoid : Nat → Prop} {count : Nat} {fs : Fs} {page : Nat}

theorem Room.mono {smaller : Nat} (room : Room keep avoid count fs) (small : smaller ≤ count) :
    Room keep avoid smaller fs :=
  { room with fresh := room.fresh.mono small }

theorem Room.notLive (room : Room keep avoid (count + 1) fs)
    (found : fs.next fs.lastFree = some page) : ¬Live keep fs.chip.flash fs.root page :=
  fun live => room.fresh.head found (room.live page live)

/-- The next page is not avoided, and avoiding it from now on leaves room for the
rest. -/
theorem Room.handOut (room : Room keep avoid (count + 1) fs)
    (found : fs.next fs.lastFree = some page) : Room keep (Also avoid page) count (fs.handOut page) where
  fresh := room.fresh.tail found
  live other live := Or.inl (room.live other live)
  handed alloc member := by
    rcases List.mem_append.mp member with old | new
    · exact Or.inl (room.handed alloc old)
    · rw [List.mem_singleton.mp new]
      exact Or.inr rfl
  safe alloc member := by
    rcases List.mem_append.mp member with old | new
    · exact room.safe alloc old
    · rw [List.mem_singleton.mp new]
      exact room.notLive found
  distinct := by
    simp only [Fs.handOut, List.map_append, List.map_cons, List.map_nil]
    refine List.nodup_append.mpr ⟨room.distinct, List.nodup_singleton _, ?_⟩
    intro other member same equal
    obtain ⟨alloc, allocIn, rfl⟩ := List.mem_map.mp member
    rw [List.mem_singleton.mp equal]
    rintro rfl
    exact room.fresh.head found (room.handed alloc allocIn)

/-- A change of the chip and the root that makes only avoided pages live. -/
theorem Room.change (room : Room keep avoid count fs) (next : Fs)
    (buf2 : next.chip.buf2 = fs.chip.buf2) (cursor : next.lastFree = fs.lastFree)
    (allocs : next.allocs = fs.allocs)
    (live : ∀ page, Live keep next.chip.flash next.root page → avoid page) :
    Room keep avoid count next where
  fresh := by
    rw [Fs.next_congr buf2, cursor]
    exact room.fresh
  live := live
  handed := by
    rw [allocs]
    exact room.handed
  safe := by
    rw [allocs]
    exact room.safe
  distinct := by
    rw [allocs]
    exact room.distinct

end Room

end Ethersex.Dataflash
