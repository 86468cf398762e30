import Mathlib
import Ethersex.Library.Walks
import Ethersex.Dataflash.Operations
import Ethersex.Dataflash.Format

/-!
# Mounting an image

`fs_init` fills the map of free pages with ones while it still knows nothing about the
flash, and then clears the bits of the root page, of the inode tables, and of the pages
that it meets on its way along each file.  The scan in between loads pages into the
other buffer of the chip.
-/

namespace Ethersex.Dataflash

open Library

/-! ## Files as walks -/

/-- The page behind a page of a file. -/
def pageAfter (flash : Nat → Bytes) (root page : Nat) : Option Nat :=
  let header := headerOf (flash (page % 4096))
  if header.eof then none else pageOf flash root header.nextInode

/-- The page of a file a number of pages behind its first one. -/
def filePage (flash : Nat → Bytes) (root inode : Nat) (steps : Nat) : Option Nat :=
  walk (pageAfter flash root) (pageOf flash root inode) steps

/-- The walk along a file does not come back to a page. -/
def AcyclicFile (flash : Nat → Bytes) (root inode : Nat) : Prop :=
  Acyclic (pageAfter flash root) (pageOf flash root inode)

/-- A well-formed image: the newest valid root page, the inode tables it points to, a
directory with an end marker, and files that do not run in circles. -/
structure Image (flash : Nat → Bytes) (root : Nat) (entries : List FsNode) : Prop where
  newest : ∃ version, NewestRoot flash root version
  tables : ∀ tableid < 16, tableOf flash root tableid < 4096
  lists : Lists (flash root) entries
  acyclic : ∀ entry ∈ entries, AcyclicFile flash root entry.inode

/-- The pages an image occupies. -/
def Occupied (flash : Nat → Bytes) (root : Nat) (entries : List FsNode) (page : Nat) : Prop :=
  page = root ∨ (∃ tableid < 16, page = tableOf flash root tableid) ∨
    ∃ entry ∈ entries, ∃ steps, filePage flash root entry.inode steps = some page

theorem filePage_lt {flash : Nat → Bytes} {root inode steps page : Nat}
    (found : filePage flash root inode steps = some page) : page < 4096 := by
  refine walk_invariant (fun first => pageOf_lt) (fun before after _ step => ?_) found
  rw [pageAfter] at step
  split_ifs at step
  exact pageOf_lt step

/-- A file that does not run in circles ends within the number of pages of the chip. -/
theorem AcyclicFile.ends {flash : Nat → Bytes} {root inode : Nat}
    (acyclic : AcyclicFile flash root inode) : filePage flash root inode 4096 = none := by
  have ends := Acyclic.ends acyclic fun steps page found => Finset.mem_range.mpr (filePage_lt found)
  rwa [Finset.card_range] at ends

/-! ## Marking -/

section Marking

variable {fs : Fs}

theorem markChain_none (steps : Nat) (fs : Fs) : markChain steps none fs = some fs := by
  cases steps <;> rfl

/-- The pages of a file are marked, if it ends within the steps. -/
theorem markChain_spec {steps : Nat} {start : Option Nat}
    (ended : walk (pageAfter fs.chip.flash fs.root) start steps = none)
    (inside : ∀ k page, walk (pageAfter fs.chip.flash fs.root) start k = some page → page < 4096) :
    ∃ map, markChain steps start fs = some (fs.withMap map) ∧
      ∀ other < 4096, fsUsed (fs.withMap map) other = true ↔
        fsUsed fs other = true ∨ ∃ k, walk (pageAfter fs.chip.flash fs.root) start k = some other := by
  induction steps generalizing start fs with
  | zero =>
      obtain rfl : start = none := ended
      exact ⟨fs.chip.buf2, rfl, fun other _ => by simp [Fs.withMap, walk_none]⟩
  | succ steps ih =>
      cases start with
      | none => exact ⟨fs.chip.buf2, rfl, fun other _ => by simp [Fs.withMap, walk_none]⟩
      | some page =>
          obtain ⟨map, marked, used⟩ := fsMarkUsed_spec fs page (inside 0 page rfl)
          have behind (k : Nat) : walk (pageAfter fs.chip.flash fs.root) (some page) (k + 1) =
              walk (pageAfter fs.chip.flash fs.root) (pageAfter fs.chip.flash fs.root page) k := rfl
          obtain ⟨final, chain, usedLater⟩ := @ih (fs.withMap map)
            (pageAfter fs.chip.flash fs.root page) ended fun k other found => inside (k + 1) other found
          refine ⟨final, ?_, fun other small => ?_⟩
          · have header : readPage (fs.withMap map) page = headerOf (fs.chip.flash (page % 4096)) := rfl
            rw [pageAfter] at chain
            simp only [markChain, marked, header]
            split_ifs at chain ⊢ with last
            · rw [markChain_none] at chain
              exact chain
            · exact chain
          · rw [show fs.withMap final = (fs.withMap map).withMap final from rfl, usedLater other small,
              used other small, or_assoc]
            refine or_congr_right ⟨?_, ?_⟩
            · rintro (rfl | ⟨k, found⟩)
              · exact ⟨0, rfl⟩
              · exact ⟨k + 1, found⟩
            · rintro ⟨k, found⟩
              cases k with
              | zero => exact .inl (Option.some.inj found).symm
              | succ k => exact .inr ⟨k, found⟩

/-- The pages of the files from an index on are marked. -/
theorem markFiles_spec {count index : Nat}
    (acyclic : ∀ k, index ≤ k → k < index + count → (readNode fs k).unused = false →
      AcyclicFile fs.chip.flash fs.root (readNode fs k).inode) :
    ∃ map, markFiles count index fs = some (fs.withMap map) ∧
      ∀ other < 4096, fsUsed (fs.withMap map) other = true ↔
        fsUsed fs other = true ∨ ∃ k, index ≤ k ∧ k < index + count ∧ (readNode fs k).unused = false ∧
          ∃ steps, filePage fs.chip.flash fs.root (readNode fs k).inode steps = some other := by
  induction count generalizing index fs with
  | zero =>
      refine ⟨fs.chip.buf2, rfl, fun other _ => ⟨.inl, ?_⟩⟩
      rintro (used | ⟨k, lower, upper, -⟩)
      · exact used
      · exact absurd lower (Nat.not_le.mpr upper)
  | succ count ih =>
      have split (holds : Nat → Prop) : (∃ k, index ≤ k ∧ k < index + (count + 1) ∧ holds k) ↔
          holds index ∨ ∃ k, index + 1 ≤ k ∧ k < index + 1 + count ∧ holds k := by
        constructor
        · rintro ⟨k, lower, upper, is⟩
          obtain rfl | later := Nat.eq_or_lt_of_le lower
          · exact .inl is
          · exact .inr ⟨k, later, by omega, is⟩
        · rintro (is | ⟨k, lower, upper, is⟩)
          · exact ⟨index, le_rfl, by omega, is⟩
          · exact ⟨k, by omega, by omega, is⟩
      cases used : (readNode fs index).unused with
      | true =>
          obtain ⟨map, marked, all⟩ := @ih fs (index + 1) fun k lower upper =>
            acyclic k (by omega) (by omega)
          refine ⟨map, ?_, fun other small => ?_⟩
          · simp only [markFiles, used, if_true]
            exact marked
          · rw [all other small, split]
            simp only [used, Bool.true_eq_false, false_and, false_or]
      | false =>
          obtain ⟨map, chain, file⟩ := @markChain_spec fs (dfPages + 1)
            (pageOf fs.chip.flash fs.root (readNode fs index).inode)
            (walk_ended (Nat.le_succ 4096) (acyclic index le_rfl (by omega) used).ends)
            fun k page => filePage_lt
          obtain ⟨final, marked, all⟩ := @ih (fs.withMap map) (index + 1) fun k lower upper =>
            acyclic k (by omega) (by omega)
          refine ⟨final, ?_, fun other small => ?_⟩
          · simp only [markFiles, used, Bool.false_eq_true, if_false]
            rw [show fsPage fs (readNode fs index).inode =
              pageOf fs.chip.flash fs.root (readNode fs index).inode from rfl, chain, Option.bind_some]
            exact marked
          · rw [show fs.withMap final = (fs.withMap map).withMap final from rfl, all other small,
              file other small, split, or_assoc]
            simp only [used, true_and]
            rfl

end Marking

/-! ## The map after the start -/

section Starting

variable {chip : Chip} {heap : Nat → Option Bytes} {root : Nat} {entries : List FsNode}

/-- The slots in use are the entries of the directory. -/
theorem Lists.exists_slot {page : Bytes} (lists : Lists page entries) (holds : FsNode → Prop) :
    (∃ k, 0 ≤ k ∧ k < 0 + fsNodesInRoot ∧ (nodeAt page k).unused = false ∧ holds (nodeAt page k)) ↔
      ∃ entry ∈ entries, holds entry := by
  constructor
  · rintro ⟨k, -, upper, used, is⟩
    have small : k < entries.length := by
      by_contra late
      have marker := lists.marker k (Nat.not_lt.mp late) (by rw [Nat.zero_add] at upper; exact upper.le)
      rw [used] at marker
      exact absurd marker (by decide)
    have same := lists.entry k entries[k] (List.getElem?_eq_getElem small)
    exact ⟨entries[k], List.getElem_mem small, same ▸ is⟩
  · rintro ⟨entry, member, is⟩
    obtain ⟨k, small, rfl⟩ := List.getElem_of_mem member
    have same := lists.entry k entries[k] (List.getElem?_eq_getElem small)
    have room := lists.room
    refine ⟨k, Nat.zero_le k, ?_, ?_, ?_⟩
    · rw [Nat.zero_add]
      exact Nat.lt_of_lt_of_le small room
    · rw [same]
      exact lists.used _ member
    · rw [same]
      exact is

/-- What `fs_init` makes of a well-formed image. -/
structure Mounted (chip : Chip) (root : Nat) (entries : List FsNode) (fs : Fs) : Prop where
  rootPage : fs.root = root
  flash : fs.chip.flash = chip.flash
  holds : fs.Holds entries
  used : ∀ page < 4096, fsUsed fs page = true ↔ Occupied chip.flash root entries page

/-- The root page and the inode tables of an image are marked behind the scan. -/
theorem Image.markRoot (image : Image chip.flash root entries) {fs : Fs} (same : fs.root = root)
    (flash : fs.chip.flash = chip.flash) (map : fs.chip.buf2 = (Fs.initial chip heap).chip.buf2) :
    ∃ map,
      (List.range 16).foldl (fun fs i => fsMarkUsed (fsInodetable fs i) fs) (fsMarkUsed fs.root fs) =
        fs.withMap map ∧
      ∀ page < 4096, fsUsed (fs.withMap map) page = true ↔
        page = root ∨ ∃ i < 16, page = tableOf chip.flash root i := by
  obtain ⟨version, newest⟩ := image.newest
  have tables (i : Nat) : fsInodetable fs i = tableOf chip.flash root i := by
    rw [fsInodetable_eq, flash, same]
  obtain ⟨map, marked, used⟩ := @markRoot_spec fs (same ▸ newest.inside)
    (fun i small => by
      rw [tables]
      exact image.tables i small)
    fun page small => by
      refine Eq.trans ?_ (Fs.initial_unused chip heap small)
      rw [fsUsed, dfBufRead, Chip.buffer, map]
      rfl
  refine ⟨map, marked, fun page small => ?_⟩
  rw [used page small, same]
  simp only [tables]

/-- The files of an image are marked in the map of the root page and the tables. -/
theorem Image.markFiles (image : Image chip.flash root entries) {fs : Fs} (same : fs.root = root)
    (flash : fs.chip.flash = chip.flash) :
    ∃ map, Dataflash.markFiles fsNodesInRoot 0 fs = some (fs.withMap map) ∧
      ∀ page < 4096, fsUsed (fs.withMap map) page = true ↔
        fsUsed fs page = true ∨
          ∃ entry ∈ entries, ∃ steps, filePage chip.flash root entry.inode steps = some page := by
  obtain ⟨version, newest⟩ := image.newest
  have slots := image.lists.exists_slot
  have node (k : Nat) : readNode fs k = nodeAt (chip.flash root) k := by
    rw [readNode_eq, flash, same, Nat.mod_eq_of_lt newest.inside]
  obtain ⟨map, marked, used⟩ := @markFiles_spec fs fsNodesInRoot 0 fun k lower upper used => by
    obtain ⟨entry, member, is⟩ := (slots (· = readNode fs k)).mp
      ⟨k, lower, upper, node k ▸ used, (node k).symm⟩
    rw [flash, same, ← is]
    exact image.acyclic entry member
  refine ⟨map, marked, fun page small => ?_⟩
  rw [used page small, ← slots fun entry => ∃ steps, filePage chip.flash root entry.inode steps = some page]
  simp only [node, flash, same]

/-- With memory for its two blocks `fs_init` succeeds. -/
theorem Image.mounts (image : Image chip.flash root entries) (first : (heap 0).isSome)
    (second : (heap 1).isSome) :
    ∃ fs, fsInit chip heap = some (.ok, fs) ∧ Mounted chip root entries fs := by
  obtain ⟨version, newest⟩ := image.newest
  obtain ⟨scanned, scan, rfl, -, flash, map, same, mallocs⟩ := fsScan_finds newest first
  obtain ⟨block, found⟩ := Option.isSome_iff_exists.mp second
  obtain ⟨tables, tablesMarked, tablesUsed⟩ := image.markRoot rfl flash map
  let counted : Fs := { scanned.withMap tables with mallocs := scanned.mallocs + 1 }
  obtain ⟨final, filesMarked, used⟩ := @Image.markFiles chip _ entries image counted rfl flash
  have memory : malloc (scanned.withMap tables) = (some block, counted) := by
    refine Prod.ext ?_ rfl
    change scanned.heap scanned.mallocs = some block
    rw [same, mallocs, found]
  refine ⟨counted.withMap final, ?_, rfl, flash, ?_, fun page small => ?_⟩
  · rw [fsInit_eq, scan]
    simp only [tablesMarked, memory, filesMarked]
    rfl
  · rw [Fs.Holds, show (counted.withMap final).chip.flash = chip.flash from flash]
    change Lists (chip.flash (scanned.root % 4096)) entries
    rw [Nat.mod_eq_of_lt newest.inside]
    exact image.lists
  · rw [used page small, Occupied, ← or_assoc]
    exact or_congr_left (tablesUsed page small)

/-- `fs_init` succeeds on a well-formed image only if there is memory. -/
theorem Image.memory (image : Image chip.flash root entries) {fs : Fs}
    (started : fsInit chip heap = some (.ok, fs)) : (heap 0).isSome ∧ (heap 1).isSome := by
  obtain ⟨version, newest⟩ := image.newest
  cases first : heap 0 with
  | none =>
      have scan : fsScan (Fs.initial chip heap) = (.mem, Fs.scanStart chip heap) := by
        have missing : (Fs.initial chip heap).heap (Fs.initial chip heap).mallocs = none := first
        simp only [fsScan, malloc, missing]
        rfl
      rw [fsInit_eq, scan] at started
      exact absurd started (by simp)
  | some block =>
      refine ⟨rfl, ?_⟩
      obtain ⟨scanned, scan, rfl, -, flash, map, same, mallocs⟩ :=
        fsScan_finds newest (Option.isSome_of_eq_some first)
      obtain ⟨tables, tablesMarked, -⟩ := image.markRoot rfl flash map
      have memory : malloc (scanned.withMap tables) =
          (heap 1, { scanned.withMap tables with mallocs := scanned.mallocs + 1 }) := by
        refine Prod.ext ?_ rfl
        change scanned.heap scanned.mallocs = heap 1
        rw [same, mallocs]
      rw [fsInit_eq, scan] at started
      simp only [tablesMarked, memory] at started
      cases second : heap 1 with
      | none =>
          rw [second] at started
          exact absurd started (by simp)
      | some block => rfl

/-- After `fs_init` the map of free pages is the one of the image: used are the root
page, the inode tables and the pages of the files in the directory, and no other. -/
theorem fsInit_rebuilds_map (image : Image chip.flash root entries) :
    ((heap 0).isSome → (heap 1).isSome → ∃ fs, fsInit chip heap = some (.ok, fs)) ∧
      ∀ fs, fsInit chip heap = some (.ok, fs) → Mounted chip root entries fs := by
  refine ⟨fun first second => ?_, fun fs started => ?_⟩
  · obtain ⟨fs, mounted, -⟩ := image.mounts first second
    exact ⟨fs, mounted⟩
  · obtain ⟨first, second⟩ := image.memory started
    obtain ⟨other, mounted, is⟩ := image.mounts first second
    rw [started] at mounted
    obtain rfl : fs = other := (Prod.ext_iff.mp (Option.some.inj mounted)).2
    exact is

end Starting

/-! ### A file of two pages -/

/-- The directory entry of the file. -/
def singleEntry : FsNode := ⟨false, true, (false, false), 0, fun _ => 97⟩

/-- The tables of a formatted device whose buffers hold zeros. -/
def erasedTable : Bytes := formatTable (fun _ => 0) fun _ => 0

/-- A root page with one file. -/
def singleRoot : Bytes :=
  sealRoot 1 (putNode singleEntry 0 (formatRoot (fun _ => 0) (fun _ => 0) erasedTable))

/-- A file system with one file, which fills page 17 and ends in page 18. -/
def singleFlash : Nat → Bytes := fun page =>
  if page = 0 then singleRoot
  else if page = 1 then
    overlay 528 15 2 (InodetableNode.encode ⟨false, (false, false, false), 17⟩)
      (overlay 528 17 2 (InodetableNode.encode ⟨false, (false, false, false), 18⟩) erasedTable)
  else if page ≤ 16 then erasedTable
  else if page = 17 then FsPage.encode ⟨false, false, false, false, 1, 512⟩
  else if page = 18 then FsPage.encode ⟨false, false, true, false, 4095, 100⟩
  else fun _ => 0xff

theorem rootVersion_singleRoot : rootVersion singleRoot = some 1 := by
  rw [rootVersion, if_pos ⟨by decide, (sealRoot_crc _ _).symm⟩]
  exact congrArg some (sealRoot_version _ (by decide))

theorem rootLike_singleFlash {p : Nat} (later : p ≠ 0) : rootLike (singleFlash p) = false := by
  by_cases early : p < 19
  · have all : ∀ p < 19, p ≠ 0 → rootLike (singleFlash p) = false := by decide
    exact all p early later
  · have erased : singleFlash p = fun _ => 0xff := by
      rw [singleFlash, if_neg later, if_neg (by omega), if_neg (by omega), if_neg (by omega),
        if_neg (by omega)]
    rw [erased]
    decide

theorem singleRoot_node {index : Nat} (small : index ≤ 60) :
    (nodeAt singleRoot index).unused = if index = 0 then false else true := by
  rw [singleRoot, nodeAt_unused_congr small fun k lower upper =>
    sealRoot_of_ne _ _ (by omega) (.inr (by omega)), nodeAt_putNode _ _ (by decide) small]
  split_ifs
  · rfl
  · exact formatRoot_lists.marker index (Nat.zero_le index) small

theorem singleRoot_lists : Lists singleRoot [singleEntry] where
  entry index entry found := by
    obtain ⟨rfl, rfl⟩ : index = 0 ∧ singleEntry = entry := by
      cases index with
      | zero => exact ⟨rfl, Option.some.inj found⟩
      | succ index => exact absurd found (by simp)
    rw [singleRoot, nodeAt_congr (by decide) fun k lower upper =>
      sealRoot_of_ne _ _ (by omega) (.inr (by omega)), nodeAt_putNode _ _ (by decide) (by decide),
      if_pos rfl]
  used entry member := by
    rw [List.mem_singleton.mp member]
    rfl
  marker index lower upper := by
    have later : index ≠ 0 := Nat.ne_of_gt lower
    rw [singleRoot_node upper, if_neg later]
  room := by decide

theorem singleFlash_newest : NewestRoot singleFlash 0 1 where
  inside := by decide
  valid := rootVersion_singleRoot
  positive := le_rfl
  newest p _ other is := by
    by_cases first : p = 0
    · rw [first, show singleFlash 0 = singleRoot from rfl, rootVersion_singleRoot] at is
      exact (Option.some.inj is).ge
    · exact absurd (rootVersion_rootLike is) (by rw [rootLike_singleFlash first]; decide)
  first p before := absurd before (Nat.not_lt_zero p)

theorem singleFlash_acyclic : AcyclicFile singleFlash 0 0 := by
  have pages : walk (pageAfter singleFlash 0) (pageOf singleFlash 0 0) 0 = some 17 ∧
      walk (pageAfter singleFlash 0) (pageOf singleFlash 0 0) 1 = some 18 ∧
      walk (pageAfter singleFlash 0) (pageOf singleFlash 0 0) 2 = none := by decide
  have early (k page : Nat)
      (found : walk (pageAfter singleFlash 0) (pageOf singleFlash 0 0) k = some page) :
      k = page - 17 ∧ 17 ≤ page := by
    have small : k < 2 := by
      by_contra late
      rw [walk_ended (Nat.not_lt.mp late) pages.2.2] at found
      exact absurd found (by simp)
    interval_cases k
    · rw [pages.1] at found
      cases found
      decide
    · rw [pages.2.1] at found
      cases found
      decide
  intro i j page first second
  rw [(early i page first).1, (early j page second).1]

theorem singleFlash_image : Image singleFlash 0 [singleEntry] where
  newest := ⟨1, singleFlash_newest⟩
  tables := by decide
  lists := singleRoot_lists
  acyclic entry member := by
    rw [List.mem_singleton.mp member]
    exact singleFlash_acyclic

/-- The chip with this file system. -/
def singleChip : Chip := ⟨singleFlash, fun _ => 0, fun _ => 0, []⟩

/-- Both pages of the file are in use. -/
theorem fsInit_rebuilds_map_single :
    ∃ fs, fsInit singleChip zeroHeap = some (.ok, fs) ∧ fsUsed fs 17 = true ∧ fsUsed fs 18 = true := by
  obtain ⟨mounts, mounted⟩ :=
    @fsInit_rebuilds_map singleChip zeroHeap 0 [singleEntry] singleFlash_image
  obtain ⟨fs, started⟩ := mounts rfl rfl
  have used := (mounted fs started).used
  refine ⟨fs, started, (used 17 (by decide)).mpr ?_, (used 18 (by decide)).mpr ?_⟩
  · exact .inr (.inr ⟨singleEntry, List.mem_singleton_self _, 0, by decide⟩)
  · exact .inr (.inr ⟨singleEntry, List.mem_singleton_self _, 1, by decide⟩)

end Ethersex.Dataflash
