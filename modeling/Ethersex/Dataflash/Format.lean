import Mathlib
import Ethersex.Dataflash.Lookup

/-!
# Formatting

`fs_format` on a device with arbitrary contents, and what the next `fs_init` finds.  The scan takes the
newest root page whose checksum is right; the formatted one is the newest, unless its version wraps
around.  The inode tables are written two bytes short of their last entry, so that these entries come
from what `BUF1` held before.
-/

namespace Ethersex.Dataflash

open Library

/-! ## The scan -/

/-- A page with the header of a root page. -/
def rootLike (page : Bytes) : Bool :=
  let header := FsPage.decode (readFrom 528 0 page)
  !header.unused && header.root

/-- The version of a root page whose checksum is right. -/
def rootVersion (page : Bytes) : Option Nat :=
  if rootLike page ∧ pageCrc page = page 527 then some (decode32 (readFrom 528 4 page)) else none

/-- What `BUF1` holds after the first `count` pages have been scanned. -/
def scanBuffer (chip : Chip) : Nat → Bytes
  | 0 => chip.buf1
  | count + 1 => if rootLike (chip.flash count) then chip.flash count else scanBuffer chip count

/-- The state after the first `count` pages have been scanned. -/
structure Scanned (start : Fs) (count : Nat) (fs : Fs) : Prop where
  chip : fs.chip = { start.chip with buf1 := scanBuffer start.chip count }
  heap : fs.heap = start.heap
  mallocs : fs.mallocs = start.mallocs
  newest : ∀ p < count, ∀ version, rootVersion (start.chip.flash p) = some version → version ≤ fs.version
  found : fs.version = start.version ∧ fs.root = start.root ∨
    start.version < fs.version ∧ fs.root < count ∧
      rootVersion (start.chip.flash fs.root) = some fs.version ∧
      ∀ p < fs.root, ∀ version, rootVersion (start.chip.flash p) = some version → version < fs.version

/-- One page of the scan. -/
theorem scanPage_eq (fs : Fs) {p : Nat} (small : p < 4096) :
    scanPage fs p =
      if rootLike (fs.chip.flash p) then
        let loaded := { fs with chip := { fs.chip with buf1 := fs.chip.flash p } }
        match rootVersion (fs.chip.flash p) with
        | some version => if version > fs.version then { loaded with version, root := p } else loaded
        | none => loaded
      else fs := by
  have page : fs.chip.flash (p % dfPages) = fs.chip.flash p := by rw [dfPages, Nat.mod_eq_of_lt small]
  have crc : fsCrc (dfBufLoad .buf1 p fs.chip) .buf1 0 fsStructureOffset fsCrcLength =
      pageCrc (fs.chip.flash p) := by
    refine fsCrc_congr (fun k inside => ?_) (by decide)
    simp only [dfBufLoad, Chip.setBuffer, page]
  have last : dfFlashRead (dfBufLoad .buf1 p fs.chip) p fsCrcOffset 0 = fs.chip.flash p 527 := by
    simp only [dfFlashRead, dfBufLoad, Chip.setBuffer, page]
    rfl
  have version : dfFlashRead (dfBufLoad .buf1 p fs.chip) p versionOffset =
      readFrom 528 4 (fs.chip.flash p) := by
    simp only [dfFlashRead, dfBufLoad, Chip.setBuffer, page]
    rfl
  have header : readPage fs p = FsPage.decode (readFrom 528 0 (fs.chip.flash p)) := by
    simp only [readPage, dfFlashRead, page]
    rfl
  have loaded : dfBufLoad .buf1 p fs.chip = { fs.chip with buf1 := fs.chip.flash p } := by
    simp only [dfBufLoad, Chip.setBuffer, page]
  have like : (rootLike (fs.chip.flash p) = true) ↔
      ((readPage fs p).unused = false ∧ (readPage fs p).root = true) := by
    simp only [rootLike, header, Bool.and_eq_true, Bool.not_eq_true']
  rw [loaded] at crc last version
  simp only [scanPage, loaded, crc, last, version]
  by_cases root : rootLike (fs.chip.flash p) = true
  · rw [if_pos root, if_pos (like.mp root)]
    by_cases valid : pageCrc (fs.chip.flash p) = fs.chip.flash p 527
    · simp only [rootVersion, root, valid, and_self, if_true, true_and]
    · simp only [rootVersion, root, valid, and_false, if_false, false_and]
  · rw [if_neg root, if_neg fun both => root (like.mpr both)]

theorem rootVersion_rootLike {page : Bytes} {version : Nat} (is : rootVersion page = some version) :
    rootLike page = true := by
  unfold rootVersion at is
  split_ifs at is with both
  exact both.1

theorem Scanned.step {start fs : Fs} {count : Nat} (scanned : Scanned start count fs)
    (small : count < 4096) :
    Scanned start (count + 1) (scanPage fs count) := by
  have flash : fs.chip.flash = start.chip.flash := by rw [scanned.chip]
  have newest (version : Nat) (least : fs.version ≤ version) (last : ∀ other,
      rootVersion (start.chip.flash count) = some other → other ≤ version) :
      ∀ p < count + 1, ∀ other, rootVersion (start.chip.flash p) = some other → other ≤ version := by
    intro p inside other is
    obtain before | rfl := Nat.lt_succ_iff_lt_or_eq.mp inside
    · exact (scanned.newest p before other is).trans least
    · exact last other is
  have found : fs.version = start.version ∧ fs.root = start.root ∨
      start.version < fs.version ∧ fs.root < count + 1 ∧
        rootVersion (start.chip.flash fs.root) = some fs.version ∧
        ∀ p < fs.root, ∀ version,
          rootVersion (start.chip.flash p) = some version → version < fs.version :=
    scanned.found.imp id fun ⟨newer, inside, is⟩ => ⟨newer, Nat.lt_succ_of_lt inside, is⟩
  rw [scanPage_eq fs small, flash]
  by_cases root : rootLike (start.chip.flash count) = true
  · have loaded : { fs.chip with buf1 := start.chip.flash count } =
        { start.chip with buf1 := scanBuffer start.chip (count + 1) } := by
      rw [scanned.chip, scanBuffer, if_pos root]
    rw [if_pos root]
    dsimp only
    cases is : rootVersion (start.chip.flash count) with
    | none =>
        exact ⟨loaded, scanned.heap, scanned.mallocs,
          newest _ le_rfl fun other same => absurd (is.symm.trans same) (by simp), found⟩
    | some version =>
        dsimp only
        split_ifs with newer
        · refine ⟨loaded, scanned.heap, scanned.mallocs, newest _ newer.le fun other same => ?_,
            .inr ⟨?_, Nat.lt_succ_self count, is, ?_⟩⟩
          · rw [is] at same
            exact (Option.some.inj same).ge
          · exact Nat.lt_of_le_of_lt (scanned.found.elim (fun old => old.1.ge) fun new => new.1.le) newer
          · intro p before other same
            exact Nat.lt_of_le_of_lt (scanned.newest p before other same) newer
        · refine ⟨loaded, scanned.heap, scanned.mallocs, newest _ le_rfl fun other same => ?_, found⟩
          rw [is] at same
          exact (Option.some.inj same) ▸ Nat.not_lt.mp newer
  · rw [if_neg root]
    refine ⟨?_, scanned.heap, scanned.mallocs, newest _ le_rfl fun other is => ?_, found⟩
    · rw [scanned.chip, scanBuffer, if_neg root]
    · exact absurd (rootVersion_rootLike is) root

/-- The scan finds the newest root page. -/
theorem scanned_all (start : Fs) {count : Nat} (small : count ≤ 4096) :
    Scanned start count ((List.range count).foldl scanPage start) := by
  induction count with
  | zero => exact ⟨rfl, rfl, rfl, fun p inside => absurd inside (Nat.not_lt_zero p), .inl ⟨rfl, rfl⟩⟩
  | succ count ih =>
      rw [List.range_succ, List.foldl_append]
      exact (ih (Nat.le_of_succ_le small)).step small

/-! ## Formatting any device -/

/-- The version `fs_format` gives its root page. -/
def Fs.formatVersion (fs : Fs) : Nat := if fs.version > 0 then (fs.version + 1) % 2 ^ 32 else 1

/-- The structure at the beginning of a root page with this version. -/
def versionHeader (version : Nat) (block : Bytes) : Bytes := fun k =>
  if 4 ≤ k ∧ k < 8 then encode32 version (k - 4) else formatHeader block k

theorem fillNodes_congr (node : FsNode) (count : Nat) {left right : Bytes} {k : Nat}
    (same : left k = right k) : fillNodes node count left k = fillNodes node count right k := by
  induction count with
  | zero => exact same
  | succ count ih =>
      rw [fillNodes_succ, fillNodes_succ, putNode, putNode, overlay, overlay]
      exact if_congr Iff.rfl rfl ih

/-- The root page of `fs_format` is the one of a blank device but for the version. -/
theorem sealRoot_formatRoot (version : Nat) (rootBlock nodeBlock table : Bytes) :
    withCrc (fillNodes (formatNode nodeBlock) 60
        (overlay 528 0 40 (versionHeader version rootBlock) table)) =
      sealRoot version (formatRoot rootBlock nodeBlock table) := by
  have behind {k : Nat} (lower : 40 ≤ k) :
      fillNodes (formatNode nodeBlock) 60 (overlay 528 0 40 (versionHeader version rootBlock) table) k =
        fillNodes (formatNode nodeBlock) 60 (overlay 528 0 40 (formatHeader rootBlock) table) k := by
    apply fillNodes_congr
    rw [overlay_of_ge (by decide) lower, overlay_of_ge (by decide) lower]
  have below : AgreeTo 527
      (withCrc (fillNodes (formatNode nodeBlock) 60
        (overlay 528 0 40 (versionHeader version rootBlock) table)))
      (sealRoot version (formatRoot rootBlock nodeBlock table)) := by
    intro k small
    rw [withCrc_of_lt _ small, sealRoot_apply _ _ small, formatRoot, withCrc_of_lt _ small]
    by_cases header : k < 40
    · have start (data : Bytes) : overlay 528 0 40 data table k = data k := by
        rw [overlay_apply (by decide), if_pos (by omega), Nat.sub_zero]
      rw [fillNodes_of_lt _ _ le_rfl header, fillNodes_of_lt _ _ le_rfl header, start, start]
      rfl
    · rw [behind (Nat.not_lt.mp header), if_neg (by omega)]
  funext k
  obtain small | rfl | large := Nat.lt_trichotomy k 527
  · exact below k small
  · rw [sealRoot_crc, ← pageCrc_congr below, withCrc, overlay_apply (by decide), if_pos (by decide)]
    exact pageCrc_congr fun k small => (withCrc_of_lt _ small).symm
  · have outside : 40 ≤ k := by omega
    rw [withCrc, overlay_of_ge (by decide) large, behind outside]
    simp only [sealRoot]
    rw [overlay_of_ge (by decide) large, overlay_of_ge (by decide) outside, formatRoot, withCrc,
      overlay_of_ge (by decide) large]

/-- The state after `fs_format`. -/
def Fs.reformatted (rootBlock inodeBlock nodeBlock : Bytes) (fs : Fs) : Fs :=
  let table := formatTable inodeBlock fs.chip.buf1
  let root := sealRoot fs.formatVersion (formatRoot rootBlock nodeBlock table)
  { fs with
    root := 0
    version := fs.formatVersion
    mallocs := fs.mallocs + 3
    chip :=
      { flash := formatFlash fs.chip.flash root table
        buf1 := root
        buf2 := fs.chip.buf2
        programs :=
          fs.chip.programs ++ (List.range 16).map (fun i => (i + 1, table)) ++ [(0, root)] } }

theorem fsFormat_reformatted {fs : Fs} {rootBlock inodeBlock nodeBlock : Bytes}
    (first : fs.heap fs.mallocs = some rootBlock)
    (second : fs.heap (fs.mallocs + 1) = some inodeBlock)
    (third : fs.heap (fs.mallocs + 2) = some nodeBlock) :
    fsFormat fs = (.ok, fs.reformatted rootBlock inodeBlock nodeBlock) := by
  have later : fs.mallocs + 1 + 1 = fs.mallocs + 2 := rfl
  have nodes : fsNodesInRoot = 60 := rfl
  have saved (page : Bytes) : Function.update
      (fun p => if 1 ≤ p ∧ p ≤ 16 then formatTable inodeBlock fs.chip.buf1 else fs.chip.flash p)
      0 page = formatFlash fs.chip.flash page (formatTable inodeBlock fs.chip.buf1) := by
    funext p
    rw [Function.update_apply, formatFlash]
    by_cases first : p = 0
    · rw [if_pos first, if_pos first]
    · rw [if_neg first, if_neg first]
      exact if_congr (by omega) rfl rfl
  have header : (fun k => if k < sizeofPage then
        FsPage.encode { FsPage.decode rootBlock with root := true, eof := true, unused := false } k
      else if k < fsRootnodeInodetableOffset then encode32 fs.formatVersion (k - versionOffset)
      else encode16 ((k - fsRootnodeInodetableOffset) / 2 + 1) (k % 2)) =
      versionHeader fs.formatVersion rootBlock := by
    funext k
    by_cases head : k < sizeofPage
    · have small : k < 4 := head
      rw [if_pos head, versionHeader, if_neg (by omega)]
      exact (if_pos small).symm
    · by_cases middle : k < fsRootnodeInodetableOffset
      · rw [if_neg head, if_pos middle, versionHeader, if_pos ⟨Nat.not_lt.mp head, middle⟩]
        rfl
      · rw [if_neg head, if_neg middle, versionHeader, if_neg fun both => middle both.2]
        exact ((if_neg head).trans (if_neg middle)).symm
  have version : (if fs.version > 0 then (fs.version + 1) % 2 ^ 32 else 1) = fs.formatVersion := rfl
  simp only [fsFormat, malloc, first, second, later, third, version, header, foldl_save _ (le_refl 16),
    nodes, foldl_writeNode, writeCrc_eq, Fs.reformatted, ← sealRoot_formatRoot]
  simp only [dfBufSave, Chip.buffer, dfBufWrite, Chip.setBuffer, dfPages, Nat.zero_mod]
  rw [← saved]
  rfl

/-! ## The formatted device -/

section Pages

variable {version : Nat} {rootBlock inodeBlock nodeBlock buf1 table : Bytes} {flash : Nat → Bytes}

theorem rootLike_encode {page : Bytes} {header : FsPage} (agree : ∀ k < 4, page k = header.encode k) :
    rootLike page = (!header.unused && header.root) := by
  have bytes : AgreeTo 4 (readFrom 528 0 page) header.encode := fun k small => by
    rw [readFrom_apply (by omega), Nat.zero_add]
    exact agree k small
  simp only [rootLike, FsPage.decode_congr bytes, FsPage.decode_encode]

/-- The formatted root page is valid. -/
theorem rootVersion_sealRoot (small : version < 2 ^ 32) :
    rootVersion (sealRoot version (formatRoot rootBlock nodeBlock table)) = some version := by
  have like : rootLike (sealRoot version (formatRoot rootBlock nodeBlock table)) = true := by
    refine @rootLike_encode _ { FsPage.decode rootBlock with root := true, eof := true, unused := false }
      fun k small => ?_
    rw [sealRoot_of_ne _ _ (by omega) (.inl small), formatRoot_of_lt (by omega)]
    exact if_pos small
  rw [rootVersion, if_pos ⟨like, (sealRoot_crc _ _).symm⟩, sealRoot_version _ small]

/-- An inode table is no root page. -/
theorem rootVersion_formatTable : rootVersion (formatTable inodeBlock buf1) = none := by
  have like : rootLike (formatTable inodeBlock buf1) = false := by
    refine @rootLike_encode _
      { FsPage.decode inodeBlock with root := false, eof := true, unused := false, nextInode := 0x0fff }
      fun k small => ?_
    rw [formatTable, overlay_of_lt (by decide) (by omega), overlay_apply (by decide), if_pos (by omega)]
    rfl
  rw [rootVersion, like]
  rfl

/-- The formatted directory is empty. -/
theorem sealRoot_lists :
    Lists (sealRoot version (formatRoot rootBlock nodeBlock (formatTable inodeBlock buf1))) [] :=
  formatRoot_lists.congr fun _ lower upper => sealRoot_of_ne _ _ upper (.inr (by omega))

theorem tableOf_reformatted {tableid : Nat} (small : tableid < 16) :
    tableOf (formatFlash flash (sealRoot version (formatRoot rootBlock nodeBlock table)) table) 0
      tableid = tableid + 1 := by
  have same := @tableOf_formatted rootBlock nodeBlock flash table tableid small
  have stored : AgreeTo 2
      (readFrom 528 (8 + tableid * 2) (sealRoot version (formatRoot rootBlock nodeBlock table)))
      (readFrom 528 (8 + tableid * 2) (formatRoot rootBlock nodeBlock table)) :=
    readFrom_sealRoot _ _ _ _ (by omega) (.inr (by omega))
  exact (decode16_congr stored).trans same

/-- The entry at the end of every inode table, from what `BUF1` held. -/
def lastEntry (buf1 : Bytes) : InodetableNode := .decode fun k => buf1 (525 + k)

/-- The pages of the inodes. -/
theorem pageOf_reformatted {inode : Nat} (small : inode < 4096) :
    pageOf (formatFlash flash
        (sealRoot version (formatRoot rootBlock nodeBlock (formatTable inodeBlock buf1)))
        (formatTable inodeBlock buf1)) 0 inode =
      if inode % 256 = 255 then nodePage (lastEntry buf1) else none := by
  have slot : inode / 256 < 16 := by omega
  have page : formatFlash flash
      (sealRoot version (formatRoot rootBlock nodeBlock (formatTable inodeBlock buf1)))
      (formatTable inodeBlock buf1) ((inode / 256 + 1) % 4096) = formatTable inodeBlock buf1 := by
    rw [Nat.mod_eq_of_lt (by omega), formatFlash, if_neg (by omega), if_pos (by omega)]
  rw [pageOf, entryOf, tableOf_reformatted slot, page]
  change nodePage _ = _
  by_cases last : inode % 256 = 255
  · have entry : InodetableNode.decode (readFrom 528 (15 + 255 * 2) (formatTable inodeBlock buf1)) =
        lastEntry buf1 := by
      refine InodetableNode.decode_congr fun k inside => ?_
      rw [readFrom_apply (by omega), formatTable, overlay_of_ge (by decide) (by omega),
        overlay_of_ge (by decide) (by omega)]
    rw [if_pos last, last, entry]
  · rw [if_neg last]
    exact if_pos (formatTable_unused (by omega))

end Pages

/-! ## Starting again -/

/-- `fs_init` has not found a newer root page. -/
def Fs.Newest (fs : Fs) : Prop :=
  ∀ p < 4096, ∀ version, rootVersion (fs.chip.flash p) = some version → version ≤ fs.version

/-- Whatever the buffers and the heap hold, the next `fs_init` finds the root page of this state without
formatting, an empty directory, and all inodes free. -/
def Fs.StartsFresh (fs : Fs) : Prop :=
  ∀ chip heap, chip.flash = fs.chip.flash → (heap 0).isSome → (heap 1).isSome →
    ∃ after, fsInit chip heap = some (.ok, after) ∧ after.root = fs.root ∧ after.version = fs.version ∧
      after.chip.flash = fs.chip.flash ∧ after.Holds [] ∧ ∀ inode < 4096, fsPage after inode = none

section Starting

variable {chip : Chip} {heap : Nat → Option Bytes} {fs : Fs}

theorem markTables_map (fs : Fs) (tables : List Nat) :
    ∃ map, tables.foldl (fun fs i => fsMarkUsed (fsInodetable fs i) fs) fs = fs.withMap map := by
  induction tables generalizing fs with
  | nil => exact ⟨fs.chip.buf2, rfl⟩
  | cons i tables ih => exact ih (fsMarkUsed (fsInodetable fs i) fs)

theorem markChain_map {steps : Nat} {page : Option Nat} {fs after : Fs}
    (marked : markChain steps page fs = some after) : ∃ map, after = fs.withMap map := by
  induction steps generalizing page fs with
  | zero =>
      cases page with
      | none => exact ⟨fs.chip.buf2, (Option.some.inj marked).symm⟩
      | some page => exact absurd marked (by simp [markChain])
  | succ steps ih =>
      cases page with
      | none => exact ⟨fs.chip.buf2, (Option.some.inj marked).symm⟩
      | some page =>
          rw [markChain] at marked
          split_ifs at marked with last
          · exact ⟨_, (Option.some.inj marked).symm⟩
          · obtain ⟨map, is⟩ := ih marked
            exact ⟨map, is⟩

theorem markFiles_map {count index : Nat} {fs after : Fs}
    (marked : markFiles count index fs = some after) :
    ∃ map, after = fs.withMap map := by
  induction count generalizing index fs with
  | zero => exact ⟨fs.chip.buf2, (Option.some.inj marked).symm⟩
  | succ count ih =>
      rw [markFiles] at marked
      split_ifs at marked with unused
      · exact ih marked
      · obtain ⟨middle, chain, rest⟩ := Option.bind_eq_some_iff.mp marked
        obtain ⟨_, rfl⟩ := markChain_map chain
        obtain ⟨map, is⟩ := ih rest
        exact ⟨map, is⟩

/-- Behind the scan `fs_init` changes the map of free pages only. -/
theorem fsInit_scanned (started : fsInit chip heap = some (.ok, fs)) :
    ∃ scanned map, fsScan (Fs.initial chip heap) = (.ok, scanned) ∧
      fs = { scanned.withMap map with mallocs := scanned.mallocs + 1 } := by
  rw [fsInit_eq] at started
  split at started
  · next scanned scan =>
      obtain ⟨map, marked⟩ := markTables_map (fsMarkUsed scanned.root scanned) (List.range 16)
      simp only [marked, malloc] at started
      split at started
      · exact absurd started (by simp)
      · next memory =>
          obtain ⟨final, files, same⟩ := Option.map_eq_some_iff.mp started
          obtain ⟨files', is⟩ := markFiles_map files
          obtain rfl : final = fs := (Prod.ext_iff.mp same).2
          refine ⟨scanned, files', scan, ?_⟩
          obtain ⟨-, rfl⟩ := Prod.mk.inj memory
          exact is
  · next failed scan =>
      exact absurd (Option.some.inj started) (scan fs)

/-- The state in which the pages are scanned. -/
def Fs.scanStart (chip : Chip) (heap : Nat → Option Bytes) : Fs :=
  { Fs.initial chip heap with mallocs := 1 }

theorem fsScan_eq (memory : (heap 0).isSome) :
    fsScan (Fs.initial chip heap) =
      if ((List.range dfPages).foldl scanPage (Fs.scanStart chip heap)).version ≥ 1 then
        (.ok, (List.range dfPages).foldl scanPage (Fs.scanStart chip heap))
      else fsFormat ((List.range dfPages).foldl scanPage (Fs.scanStart chip heap)) := by
  obtain ⟨block, memory⟩ := Option.isSome_iff_exists.mp memory
  have found : (Fs.initial chip heap).heap (Fs.initial chip heap).mallocs = some block := memory
  simp only [fsScan, malloc, found]
  rfl

/-- The first of the newest root pages. -/
structure NewestRoot (flash : Nat → Bytes) (root version : Nat) : Prop where
  inside : root < 4096
  valid : rootVersion (flash root) = some version
  positive : 1 ≤ version
  newest : ∀ p < 4096, ∀ other, rootVersion (flash p) = some other → other ≤ version
  first : ∀ p < root, ∀ other, rootVersion (flash p) = some other → other < version

/-- The scan ends with the newest root page, and leaves the map of free pages as it is. -/
theorem fsScan_finds {root version : Nat} (newest : NewestRoot chip.flash root version)
    (memory : (heap 0).isSome) :
    ∃ fs, fsScan (Fs.initial chip heap) = (.ok, fs) ∧ fs.root = root ∧ fs.version = version ∧
      fs.chip.flash = chip.flash ∧ fs.chip.buf2 = (Fs.initial chip heap).chip.buf2 ∧
      fs.heap = heap ∧ fs.mallocs = 1 := by
  have scanned := @scanned_all (Fs.scanStart chip heap) dfPages (by decide)
  rw [fsScan_eq memory]
  generalize (List.range dfPages).foldl scanPage (Fs.scanStart chip heap) = fs at scanned
  have least : version ≤ fs.version := scanned.newest root newest.inside version newest.valid
  have found : fs.root = root ∧ fs.version = version := by
    obtain ⟨old, -⟩ | ⟨-, inside, is, before⟩ := scanned.found
    · have unset : fs.version = 0 := old
      exact absurd (newest.positive.trans least) (by omega)
    · have same := (newest.newest fs.root inside fs.version is).antisymm least
      obtain early | equal | late := Nat.lt_trichotomy fs.root root
      · exact absurd (newest.first fs.root early fs.version is) (by omega)
      · exact ⟨equal, same⟩
      · exact absurd (before root late version newest.valid) (by omega)
  refine ⟨fs, if_pos (newest.positive.trans least), found.1, found.2, ?_, ?_, scanned.heap,
    scanned.mallocs⟩
  · rw [scanned.chip]
    rfl
  · rw [scanned.chip]
    rfl

/-- `fs_init` then succeeds, if the directory is empty. -/
theorem fsInit_finds {version : Nat} (root : rootVersion (chip.flash 0) = some version)
    (positive : 1 ≤ version)
    (older : ∀ p < 4096, ∀ other, rootVersion (chip.flash p) = some other → other ≤ version)
    (empty : Lists (chip.flash 0) []) (memory : (heap 0).isSome) (memory' : (heap 1).isSome) :
    ∃ fs, fsInit chip heap = some (.ok, fs) ∧ fs.root = 0 ∧ fs.version = version ∧
      fs.chip.flash = chip.flash := by
  have top : NewestRoot chip.flash 0 version :=
    ⟨by decide, root, positive, older, fun p before => absurd before (Nat.not_lt_zero p)⟩
  obtain ⟨scanned, scan, first, newest, flash, -, same, mallocs⟩ := fsScan_finds top memory
  obtain ⟨map, marked⟩ := markTables_map (fsMarkUsed scanned.root scanned) (List.range 16)
  obtain ⟨block, found⟩ := Option.isSome_iff_exists.mp memory'
  let final : Fs := { scanned.withMap map with mallocs := scanned.mallocs + 1 }
  have files : markFiles fsNodesInRoot 0 final = some final := by
    refine markFiles_of_unused fun k _ upper => ?_
    have read : readNode final k = nodeAt (chip.flash 0) k := by
      rw [readNode_eq, show final.chip.flash = chip.flash from flash, show final.root = 0 from first]
    rw [read]
    exact empty.marker k (Nat.zero_le k) (by rw [Nat.zero_add] at upper; exact upper.le)
  refine ⟨final, ?_, first, newest, flash⟩
  have memory : malloc ((fsMarkUsed scanned.root scanned).withMap map) = (some block, final) := by
    refine Prod.ext ?_ rfl
    change scanned.heap scanned.mallocs = some block
    rw [same, mallocs, found]
  rw [fsInit_eq, scan]
  simp only [marked, memory, files]
  rfl

/-! ### Versions -/

theorem Fs.formatVersion_lt (fs : Fs) : fs.formatVersion < 2 ^ 32 := by
  unfold Fs.formatVersion
  split_ifs
  · exact Nat.mod_lt _ (by decide)
  · decide

theorem Fs.formatVersion_eq {fs : Fs} (small : fs.version + 1 < 2 ^ 32) :
    fs.formatVersion = fs.version + 1 := by
  unfold Fs.formatVersion
  split_ifs with positive
  · exact Nat.mod_eq_of_lt small
  · omega

theorem rootVersion_reformatted (fs : Fs) (rootBlock inodeBlock nodeBlock : Bytes) (p : Nat) :
    rootVersion ((fs.reformatted rootBlock inodeBlock nodeBlock).chip.flash p) =
      if p = 0 then some fs.formatVersion
      else if p ≤ 16 then none else rootVersion (fs.chip.flash p) := by
  change rootVersion (formatFlash _ _ _ p) = _
  rw [formatFlash]
  split_ifs
  · exact rootVersion_sealRoot fs.formatVersion_lt
  · exact rootVersion_formatTable
  · rfl

theorem Fs.Newest.reformatted {fs : Fs} (newest : fs.Newest) (small : fs.version + 1 < 2 ^ 32)
    (rootBlock inodeBlock nodeBlock : Bytes) :
    (fs.reformatted rootBlock inodeBlock nodeBlock).Newest := by
  intro p inside version is
  rw [rootVersion_reformatted] at is
  change version ≤ fs.formatVersion
  split_ifs at is
  · exact (Option.some.inj is).ge
  · rw [formatVersion_eq small]
    exact (newest p inside version is).trans (Nat.le_succ _)

theorem rootVersion_lt {page : Bytes} {version : Nat} (is : rootVersion page = some version) :
    version < 2 ^ 32 := by
  unfold rootVersion at is
  split_ifs at is
  obtain rfl := Option.some.inj is
  rw [decode32]
  have first := (readFrom 528 4 page 0).toNat_lt
  have second := (readFrom 528 4 page 1).toNat_lt
  have third := (readFrom 528 4 page 2).toNat_lt
  have fourth := (readFrom 528 4 page 3).toNat_lt
  omega

/-- What a successful scan has found or made. -/
theorem fsScan_ok {scanned : Fs} (scan : fsScan (Fs.initial chip heap) = (.ok, scanned)) :
    ∃ found, Scanned (Fs.scanStart chip heap) dfPages found ∧
      (1 ≤ found.version ∧ scanned = found ∨
        found.version = 0 ∧ ∃ rootBlock inodeBlock nodeBlock,
          scanned = found.reformatted rootBlock inodeBlock nodeBlock) := by
  have memory : (heap 0).isSome := by
    by_contra none
    rw [Option.not_isSome_iff_eq_none] at none
    have missing : (Fs.initial chip heap).heap (Fs.initial chip heap).mallocs = Option.none := none
    simp only [fsScan, malloc, missing] at scan
    exact absurd (Prod.mk.inj scan).1 (by decide)
  have all := @scanned_all (Fs.scanStart chip heap) dfPages (by decide)
  rw [fsScan_eq memory] at scan
  generalize (List.range dfPages).foldl scanPage (Fs.scanStart chip heap) = found at all scan
  refine ⟨found, all, ?_⟩
  split_ifs at scan with positive
  · exact .inl ⟨positive, (Prod.mk.inj scan).2.symm⟩
  · obtain ⟨rootBlock, inodeBlock, nodeBlock, first, second, third⟩ :=
      fsFormat_memory (congrArg Prod.fst scan)
    rw [fsFormat_reformatted first second third] at scan
    exact .inr ⟨Nat.lt_one_iff.mp (Nat.not_le.mp positive), _, _, _, (Prod.mk.inj scan).2.symm⟩

/-- After a successful `fs_init` there is no newer root page. -/
theorem fsInit_newest (started : fsInit chip heap = some (.ok, fs)) :
    fs.Newest ∧ 1 ≤ fs.version ∧ fs.version < 2 ^ 32 := by
  obtain ⟨scanned, map, scan, rfl⟩ := fsInit_scanned started
  obtain ⟨found, all, outcome⟩ := fsScan_ok scan
  have newest : found.Newest := by
    intro p inside version is
    rw [all.chip] at is
    exact all.newest p inside version is
  change scanned.Newest ∧ 1 ≤ scanned.version ∧ scanned.version < 2 ^ 32
  obtain ⟨positive, rfl⟩ | ⟨zero, rootBlock, inodeBlock, nodeBlock, rfl⟩ := outcome
  · refine ⟨newest, positive, ?_⟩
    obtain ⟨old, -⟩ | ⟨-, -, is, -⟩ := all.found
    · rw [old]
      exact (by decide : 0 < 2 ^ 32)
    · exact rootVersion_lt is
  · have small : found.version + 1 < 2 ^ 32 := by rw [zero]; decide
    have version : (found.reformatted rootBlock inodeBlock nodeBlock).version = 1 := by
      change found.formatVersion = 1
      rw [Fs.formatVersion_eq small, zero]
    rw [version]
    exact ⟨newest.reformatted small _ _ _, le_rfl, by decide⟩

end Starting

/-! ## The result -/

/-- An inode table formatted from this buffer has no used inode. -/
def Erases (buf1 : Bytes) : Prop := (lastEntry buf1).unused = true

/-- The buffers and the heap do not count. -/
theorem startsFresh_congr {left right : Fs} (flash : left.chip.flash = right.chip.flash)
    (root : left.root = right.root) (version : left.version = right.version) :
    left.StartsFresh ↔ right.StartsFresh := by
  rw [Fs.StartsFresh, Fs.StartsFresh, flash, root, version]

/-- The version of the root page that `fs_format` writes has not wrapped around, and no root page that
stays is newer. -/
def Fs.TopsRoots (fs : Fs) : Prop :=
  1 ≤ fs.formatVersion ∧ ∀ p, 16 < p → p < 4096 → ∀ version,
    rootVersion (fs.chip.flash p) = some version → version ≤ fs.formatVersion

/-- After a successful `fs_init` only the wrap counts. -/
theorem topsRoots_iff {fs : Fs} (newest : fs.Newest) (bound : fs.version < 2 ^ 32) :
    fs.TopsRoots ↔ fs.version + 1 < 2 ^ 32 := by
  constructor
  · rintro ⟨positive, -⟩
    by_contra large
    have wraps : fs.version + 1 = 2 ^ 32 := by omega
    rw [Fs.formatVersion, if_pos (by omega), wraps, Nat.mod_self] at positive
    omega
  · intro small
    rw [Fs.TopsRoots, Fs.formatVersion_eq small]
    refine ⟨Nat.succ_pos _, fun p _ inside version is => ?_⟩
    exact (newest p inside version is).trans (Nat.le_succ _)

/-- `fs_format` leaves a device that starts fresh if and only if its root page is the newest and `BUF1`
ended in an unused inode. -/
theorem startsFresh_reformatted (fs : Fs) (rootBlock inodeBlock nodeBlock : Bytes) :
    (fs.reformatted rootBlock inodeBlock nodeBlock).StartsFresh ↔
      Erases fs.chip.buf1 ∧ fs.TopsRoots := by
  have versions := rootVersion_reformatted fs rootBlock inodeBlock nodeBlock
  constructor
  · intro fresh
    obtain ⟨after, started, root, version, flash, -, free⟩ :=
      fresh (fs.reformatted rootBlock inodeBlock nodeBlock).chip zeroHeap rfl rfl rfl
    obtain ⟨newest, positive, -⟩ := fsInit_newest started
    have value : after.version = fs.formatVersion := version
    refine ⟨?_, value ▸ positive, fun p behind inside other is => ?_⟩
    · have last := free 255 (by decide)
      rw [fsPage_eq, flash, root] at last
      have entry := @pageOf_reformatted fs.formatVersion rootBlock inodeBlock nodeBlock fs.chip.buf1
        fs.chip.flash 255 (by decide)
      rw [if_pos (by decide)] at entry
      have none : nodePage (lastEntry fs.chip.buf1) = none := entry.symm.trans last
      rw [nodePage] at none
      split_ifs at none with unused
      exact unused
    · have kept := versions p
      rw [if_neg (by omega), if_neg (by omega), is, ← flash] at kept
      exact value ▸ newest p inside other kept
  · rintro ⟨erases, positive, top⟩ chip heap flash memory memory'
    have root : rootVersion (chip.flash 0) = some fs.formatVersion := by
      rw [flash, versions, if_pos rfl]
    have older (p : Nat) (inside : p < 4096) (other : Nat)
        (is : rootVersion (chip.flash p) = some other) : other ≤ fs.formatVersion := by
      rw [flash, versions] at is
      split_ifs at is
      · exact (Option.some.inj is).ge
      · exact top p (by omega) inside other is
    have empty : Lists (chip.flash 0) [] := by
      rw [flash]
      exact sealRoot_lists
    obtain ⟨after, started, first, version, same⟩ :=
      fsInit_finds root positive older empty memory memory'
    refine ⟨after, started, first, version, same.trans flash, ?_, fun inode inside => ?_⟩
    · rw [Fs.Holds, same, first]
      exact empty
    · rw [fsPage_eq, same, flash, first]
      refine (pageOf_reformatted inside).trans ?_
      split_ifs
      · exact if_pos erases
      · rfl

theorem scanBuffer_congr {left right : Chip} (flash : left.flash = right.flash)
    (buf1 : left.buf1 = right.buf1)
    (count : Nat) : scanBuffer left count = scanBuffer right count := by
  induction count with
  | zero => exact buf1
  | succ count ih => rw [scanBuffer, scanBuffer, flash, ih]

/-- A device that an `fs_init` without a root page, or an `fs_format` after an `fs_init`, has formatted
starts fresh if and only if `BUF1` ended in an unused inode when formatting began, and the new root page
is the newest.  After a successful `fs_init` it is, unless the version wraps around. -/
theorem format_starts_fresh {chip : Chip} {heap : Nat → Option Bytes} {status : FsStatus} {fs : Fs}
    (started : fsInit chip heap = some (status, fs)) :
    (status = .ok → (∀ p < dfPages, ∀ version, rootVersion (chip.flash p) = some version → version = 0) →
      (fs.StartsFresh ↔ Erases (scanBuffer chip dfPages))) ∧
    (∀ after, fsFormat fs = (.ok, after) →
      (after.StartsFresh ↔ Erases fs.chip.buf1 ∧ fs.TopsRoots)) ∧
    (status = .ok → (fs.TopsRoots ↔ fs.version + 1 < 2 ^ 32)) := by
  refine ⟨fun ok rootless => ?_, fun after format => ?_, fun ok => ?_⟩
  · subst ok
    obtain ⟨scanned, map, scan, rfl⟩ := fsInit_scanned started
    obtain ⟨found, all, outcome⟩ := fsScan_ok scan
    have zero : found.version = 0 := by
      obtain ⟨old, -⟩ | ⟨-, inside, is, -⟩ := all.found
      · exact old
      · exact rootless _ inside _ is
    obtain ⟨positive, -⟩ | ⟨-, rootBlock, inodeBlock, nodeBlock, rfl⟩ := outcome
    · omega
    · have newest : found.Newest := by
        intro p inside version is
        rw [all.chip] at is
        exact all.newest p inside version is
      have tops : found.TopsRoots := by
        rw [topsRoots_iff newest (by rw [zero]; decide), zero]
        decide
      have buffer : found.chip.buf1 = scanBuffer chip dfPages := by
        have same : scanBuffer (Fs.scanStart chip heap).chip dfPages = scanBuffer chip dfPages :=
          @scanBuffer_congr (Fs.scanStart chip heap).chip chip rfl rfl dfPages
        exact (congrArg Chip.buf1 all.chip).trans same
      have result := startsFresh_reformatted found rootBlock inodeBlock nodeBlock
      rw [buffer, and_iff_left tops] at result
      refine Iff.trans ?_ result
      exact startsFresh_congr rfl rfl rfl
  · obtain ⟨rootBlock, inodeBlock, nodeBlock, first, second, third⟩ :=
      fsFormat_memory (congrArg Prod.fst format)
    rw [fsFormat_reformatted first second third] at format
    obtain rfl := (Prod.mk.inj format).2
    exact startsFresh_reformatted fs rootBlock inodeBlock nodeBlock
  · subst ok
    obtain ⟨newest, -, bound⟩ := fsInit_newest started
    exact topsRoots_iff newest bound

theorem rootLike_erased (p : Nat) : rootLike (blankChip.flash p) = false := by
  rw [rootLike, blankChip_blank.header]
  rfl

theorem rootVersion_erased (p : Nat) : rootVersion (blankChip.flash p) = none := by
  rw [rootVersion, rootLike_erased]
  rfl

theorem format_starts_fresh_blank :
    ∃ fs, fsInit blankChip zeroHeap = some (.ok, fs) ∧
      (fs.StartsFresh ↔ Erases (scanBuffer blankChip dfPages)) := by
  obtain ⟨fs, started, -⟩ := fsInit_boots blankChip zeroHeap blankChip_blank rfl rfl rfl rfl rfl
  refine ⟨fs, started, (format_starts_fresh started).1 rfl fun p _ version is => ?_⟩
  rw [rootVersion_erased] at is
  exact absurd is (by simp)

/-- On an erased flash, with zeros in `BUF1`, the last inode of each table is in use. -/
theorem blank_not_fresh :
    ∃ fs, fsInit blankChip zeroHeap = some (.ok, fs) ∧ (∀ p, rootVersion (blankChip.flash p) = none) ∧
      fsPage fs 255 = some 0 ∧ ¬fs.StartsFresh := by
  obtain ⟨fs, started, boots⟩ := fsInit_boots blankChip zeroHeap blankChip_blank rfl rfl rfl rfl rfl
  have used : fsPage fs 255 = some 0 := (boots.pageOf_last 255 (by decide) rfl).trans rfl
  refine ⟨fs, started, rootVersion_erased, used, fun fresh => ?_⟩
  obtain ⟨after, -, root, -, flash, -, free⟩ := fresh fs.chip zeroHeap rfl rfl rfl
  have last := free 255 (by decide)
  rw [fsPage_eq, flash, root, ← fsPage_eq, used] at last
  exact absurd last (by simp)

end Ethersex.Dataflash
