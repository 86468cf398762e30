import Mathlib
import Ethersex.Dataflash.Directory

/-!
# Start-up on a blank device

`fs_init` finds no root page on an erased flash and formats it.  The inode tables
are filled two bytes short of their last entry, so what the last inode of each
table points to depends on what `BUF1` held at power-up.
-/

namespace Ethersex.Dataflash

open Library

/-- Every byte of the flash is erased. -/
def Chip.Blank (chip : Chip) : Prop := ∀ page k, chip.flash page k = 0xff

/-! ## The formatted pages -/

/-- The inode table `fs_format` writes over the contents of `BUF1`. -/
def formatTable (block buf1 : Bytes) : Bytes :=
  let header : FsPage :=
    { FsPage.decode block with root := false, eof := true, unused := false, nextInode := 0x0fff }
  overlay 528 15 509 (fun _ => 0xff) (overlay 528 0 4 header.encode buf1)

/-- The structure `fs_format` writes to the beginning of the root page. -/
def formatHeader (block : Bytes) : Bytes :=
  let header : FsPage := { FsPage.decode block with root := true, eof := true, unused := false }
  fun k =>
    if k < 4 then header.encode k
    else if k < 8 then encode32 1 (k - 4)
    else encode16 ((k - 8) / 2 + 1) (k % 2)

/-- The unused directory entry of `fs_format`. -/
def formatNode (block : Bytes) : FsNode :=
  let node : FsNode :=
    { FsNode.decode block with
      unused := true
      inode := 0
      file := false
      reserved := (false, false) }
  { node with name := Function.update node.name 0 0 }

/-- A page with its checksum. -/
def withCrc (page : Bytes) : Bytes := overlay 528 527 1 (fun _ => pageCrc page) page

theorem withCrc_of_lt (page : Bytes) {k : Nat} (small : k < 527) : withCrc page k = page k :=
  overlay_of_lt (by decide) small

theorem writeCrc_eq (chip : Chip) : writeCrc chip = { chip with buf1 := withCrc chip.buf1 } := by
  have crc : fsCrc chip .buf1 0 0 527 = pageCrc chip.buf1 :=
    fsCrc_congr (fun _ _ => rfl) (by decide)
  simp only [writeCrc, dfBufWrite, Chip.setBuffer, Chip.buffer, withCrc, fsStructureOffset,
    fsCrcOffset, fsCrcLength, dfPagesize, Nat.reduceSub, crc]

/-- Fill the first `count` directory entries with one node. -/
def fillNodes (node : FsNode) (count : Nat) (page : Bytes) : Bytes :=
  (List.range count).foldl (fun page i => putNode node i page) page

theorem fillNodes_succ (node : FsNode) (count : Nat) (page : Bytes) :
    fillNodes node (count + 1) page = putNode node count (fillNodes node count page) := by
  rw [fillNodes, List.range_succ, List.foldl_append]
  rfl

theorem fillNodes_nodeAt (node : FsNode) (page : Bytes) {count k : Nat} (fits : count ≤ 60)
    (small : k ≤ 60) :
    nodeAt (fillNodes node count page) k = if k < count then node else nodeAt page k := by
  induction count with
  | zero => rfl
  | succ count ih =>
      rw [fillNodes_succ, nodeAt_putNode _ _ (by omega) small, ih (by omega)]
      by_cases last : k = count
      · rw [if_pos last, if_pos (by omega)]
      · rw [if_neg last]
        exact if_congr (by omega) rfl rfl

theorem fillNodes_of_lt (node : FsNode) (page : Bytes) {count k : Nat} (fits : count ≤ 60)
    (before : k < 40) : fillNodes node count page k = page k := by
  induction count with
  | zero => rfl
  | succ count ih => rw [fillNodes_succ, putNode_of_lt _ _ (by omega) before, ih (by omega)]

theorem foldl_writeNode (node : FsNode) (chip : Chip) (count : Nat) :
    (List.range count).foldl (fun chip i => writeNode node i chip) chip =
      { chip with buf1 := fillNodes node count chip.buf1 } := by
  induction count with
  | zero => rfl
  | succ count ih =>
      rw [List.range_succ, List.foldl_append, ih, fillNodes_succ]
      rfl

/-- The root page of `fs_format`, made from the table in `BUF1`. -/
def formatRoot (rootBlock nodeBlock table : Bytes) : Bytes :=
  withCrc (fillNodes (formatNode nodeBlock) 60 (overlay 528 0 40 (formatHeader rootBlock) table))

theorem foldl_save (chip : Chip) {count : Nat} (fits : count ≤ 16) :
    (List.range count).foldl (fun chip i => dfBufSave .buf1 (i + 1) chip) chip =
      { chip with
        flash := fun page => if 1 ≤ page ∧ page ≤ count then chip.buf1 else chip.flash page
        programs := chip.programs ++ (List.range count).map fun i => (i + 1, chip.buf1) } := by
  induction count with
  | zero =>
      have nothing : (fun page => if 1 ≤ page ∧ page ≤ 0 then chip.buf1 else chip.flash page) =
          chip.flash := funext fun page => if_neg (by omega)
      rw [nothing]
      simp
  | succ count ih =>
      rw [List.range_succ, List.foldl_append, ih (by omega), List.map_append]
      simp only [List.foldl_cons, List.foldl_nil, dfBufSave, Chip.buffer, dfPages,
        Nat.mod_eq_of_lt (show count + 1 < 4096 by omega), Chip.mk.injEq, List.append_assoc]
      refine ⟨?_, trivial, trivial, rfl⟩
      funext page
      rw [Function.update_apply]
      by_cases last : page = count + 1
      · rw [if_pos last, if_pos (by omega)]
      · rw [if_neg last]
        exact if_congr (by omega) rfl rfl

/-! ## Formatting -/

/-- The flash after `fs_format`. -/
def formatFlash (flash : Nat → Bytes) (root table : Bytes) : Nat → Bytes := fun page =>
  if page = 0 then root else if page ≤ 16 then table else flash page

/-- The state after `fs_format` when the memory does not run out. -/
def formatted (rootBlock inodeBlock nodeBlock : Bytes) (fs : Fs) : Fs :=
  let table := formatTable inodeBlock fs.chip.buf1
  let root := formatRoot rootBlock nodeBlock table
  { fs with
    root := 0
    version := 1
    mallocs := fs.mallocs + 3
    chip :=
      { flash := formatFlash fs.chip.flash root table
        buf1 := root
        buf2 := fs.chip.buf2
        programs :=
          fs.chip.programs ++ (List.range 16).map (fun i => (i + 1, table)) ++ [(0, root)] } }

theorem fsFormat_eq {fs : Fs} {rootBlock inodeBlock nodeBlock : Bytes} (fresh : fs.version = 0)
    (first : fs.heap fs.mallocs = some rootBlock)
    (second : fs.heap (fs.mallocs + 1) = some inodeBlock)
    (third : fs.heap (fs.mallocs + 2) = some nodeBlock) :
    fsFormat fs = (.ok, formatted rootBlock inodeBlock nodeBlock fs) := by
  have later : fs.mallocs + 1 + 1 = fs.mallocs + 2 := rfl
  have nodes : fsNodesInRoot = 60 := rfl
  have saved (page : Bytes) : Function.update
      (fun p => if 1 ≤ p ∧ p ≤ 16 then formatTable inodeBlock fs.chip.buf1 else fs.chip.flash p)
      0 page = formatFlash fs.chip.flash page (formatTable inodeBlock fs.chip.buf1) := by
    funext p
    rw [Function.update_apply, formatFlash]
    by_cases first : p = 0
    · rw [if_pos first, if_pos first]
    · rw [if_neg first, if_neg first]
      exact if_congr (by omega) rfl rfl
  simp only [fsFormat, malloc, first, second, later, third, fresh, gt_iff_lt, Nat.lt_irrefl, if_false,
    foldl_save _ (le_refl 16), nodes, foldl_writeNode, writeCrc_eq, formatted]
  simp only [dfBufSave, Chip.buffer, dfBufWrite, Chip.setBuffer, dfPages, Nat.zero_mod]
  rw [← saved]
  rfl

section Formatted

variable {rootBlock inodeBlock nodeBlock buf1 : Bytes} {flash : Nat → Bytes}

theorem formatTable_erased {k : Nat} (lower : 15 ≤ k) (upper : k < 524) :
    formatTable inodeBlock buf1 k = 0xff := by
  rw [formatTable, overlay_apply (by decide), if_pos (by omega)]

/-- All inodes of a table but the last are unused. -/
theorem formatTable_unused {slot : Nat} (small : slot < 255) :
    (InodetableNode.decode (readFrom 528 (15 + slot * 2) (formatTable inodeBlock buf1))).unused =
      true := by
  have flags : readFrom 528 (15 + slot * 2) (formatTable inodeBlock buf1) 0 = 0xff := by
    rw [readFrom_apply (by omega)]
    exact formatTable_erased (by omega) (by omega)
  simp only [InodetableNode.decode, FlagWord.decode, flags]
  rfl

theorem formatRoot_of_lt {table : Bytes} {k : Nat} (small : k < 40) :
    formatRoot rootBlock nodeBlock table k = formatHeader rootBlock k := by
  rw [formatRoot, withCrc_of_lt _ (by omega), fillNodes_of_lt _ _ (le_refl 60) small,
    overlay_apply (by decide), if_pos (by omega), Nat.sub_zero]

theorem formatRoot_lists :
    Lists (formatRoot rootBlock nodeBlock (formatTable inodeBlock buf1)) [] where
  entry index entry found := by simp at found
  used entry member := by simp at member
  marker index _ small := by
    rw [formatRoot, nodeAt_unused_congr small fun k lower upper => withCrc_of_lt _ (by omega),
      fillNodes_nodeAt _ _ (le_refl 60) small]
    split
    · rfl
    · have flags : readFrom 528 (40 + index * 8)
          (overlay 528 0 40 (formatHeader rootBlock) (formatTable inodeBlock buf1)) 0 = 0xff := by
        rw [readFrom_apply (by omega), overlay_of_ge (by decide) (by omega)]
        exact formatTable_erased (by omega) (by omega)
      simp only [nodeAt, FsNode.decode, FlagWord.decode, flags]
      rfl
  room := Nat.zero_le _

theorem tableOf_formatted (flash : Nat → Bytes) {table : Bytes} {tableid : Nat} (small : tableid < 16) :
    tableOf (formatFlash flash (formatRoot rootBlock nodeBlock table) table) 0 tableid =
      tableid + 1 := by
  have stored : AgreeTo 2 (readFrom 528 (8 + tableid * 2) (formatRoot rootBlock nodeBlock table))
      (encode16 (tableid + 1)) := by
    intro k inside
    rw [readFrom_apply (by omega), formatRoot_of_lt (by omega), formatHeader]
    simp only
    rw [if_neg (by omega), if_neg (by omega), show (8 + tableid * 2 + k - 8) / 2 = tableid by omega,
      show (8 + tableid * 2 + k) % 2 = k by omega]
  rw [tableOf]
  change decode16 (readFrom 528 (8 + tableid * 2) (formatRoot rootBlock nodeBlock table)) = _
  rw [decode16_congr stored, decode16_encode16 (by omega)]

end Formatted

/-! ## The whole start-up -/

theorem Chip.Blank.header {chip : Chip} (blank : chip.Blank) (page : Nat) :
    FsPage.decode (readFrom 528 0 (chip.flash page)) = ⟨true, true, true, true, 4095, 65535⟩ := by
  have erased : AgreeTo 4 (readFrom 528 0 (chip.flash page))
      (FsPage.encode ⟨true, true, true, true, 4095, 65535⟩) := by
    intro k small
    rw [readFrom, blank]
    interval_cases k <;> rfl
  rw [FsPage.decode_congr erased, FsPage.decode_encode]

theorem scanPages_blank {fs : Fs} (blank : fs.chip.Blank) (pages : List Nat) :
    pages.foldl scanPage fs = fs := by
  induction pages with
  | nil => rfl
  | cons page pages ih =>
      have unused : (readPage fs page).unused = true :=
        congrArg FsPage.unused (blank.header (page % dfPages))
      have skip : scanPage fs page = fs := by
        rw [scanPage]
        exact if_neg (by simp [unused])
      rw [List.foldl_cons, skip, ih]

/-! ### The map of free pages -/

theorem bit_toNat {i : Nat} (small : i < 8) : ((1 : UInt8) <<< UInt8.ofNat i).toNat = 2 ^ i := by
  interval_cases i <;> rfl

theorem bit_clear_iff (b : UInt8) {i : Nat} (small : i < 8) :
    b &&& (1 <<< UInt8.ofNat i) = 0 ↔ b.toNat.testBit i = false := by
  rw [← UInt8.toNat_inj, UInt8.toNat_and, bit_toNat small, Nat.and_two_pow]
  cases b.toNat.testBit i <;> simp

theorem testBit_clear (b : UInt8) {i j : Nat} (small : i < 8) (inside : j < 8) :
    (b &&& ~~~(1 <<< UInt8.ofNat i)).toNat.testBit j = (b.toNat.testBit j && decide (i ≠ j)) := by
  have bound : 2 ^ i < 2 ^ 8 := Nat.pow_lt_pow_right (by decide) small
  rw [UInt8.toNat_and, UInt8.toNat_not, bit_toNat small, Nat.testBit_and,
    show UInt8.size - 1 - 2 ^ i = 2 ^ 8 - (2 ^ i + 1) by simp [UInt8.size],
    Nat.testBit_two_pow_sub_succ bound, Nat.testBit_two_pow]
  simp [inside]

/-- Another map of free pages. -/
def Fs.withMap (map : Bytes) (fs : Fs) : Fs := { fs with chip := { fs.chip with buf2 := map } }

theorem fsUsed_iff (fs : Fs) {page : Nat} (small : page < 4096) :
    fsUsed fs page = true ↔ (fs.chip.buf2 (page / 8)).toNat.testBit (page % 8) = false := by
  rw [fsUsed, decide_eq_true_iff, dfBufRead, dfPagesize, readFrom_apply (by omega),
    bit_clear_iff _ (Nat.mod_lt _ (by decide))]
  rfl

/-- `fs_mark_used` marks the one page. -/
theorem fsMarkUsed_spec (fs : Fs) (page : Nat) (small : page < 4096) :
    ∃ map, fsMarkUsed page fs = fs.withMap map ∧
      ∀ other < 4096, fsUsed (fs.withMap map) other = true ↔
        fsUsed fs other = true ∨ other = page := by
  refine ⟨_, rfl, fun other inside => ?_⟩
  rw [fsUsed_iff _ inside, fsUsed_iff _ inside]
  simp only [Fs.withMap, Chip.buffer, dfBufRead, dfPagesize, Bool.false_eq_true, if_false]
  rw [overlay_apply (by omega), readFrom_apply (by omega), Nat.add_zero]
  by_cases sameByte : other / 8 = page / 8
  · rw [if_pos (by omega), testBit_clear _ (Nat.mod_lt _ (by decide)) (Nat.mod_lt _ (by decide)),
      sameByte, Bool.and_eq_false_iff, decide_eq_false_iff_not]
    have bit : ¬page % 8 ≠ other % 8 ↔ other = page := by omega
    rw [bit, Nat.add_zero]
  · have other_ne : other ≠ page := by
      rintro rfl
      exact sameByte rfl
    rw [if_neg (by omega)]
    simp [other_ne]

theorem markTables_spec (fs : Fs) (tables : List Nat)
    (inside : ∀ i ∈ tables, fsInodetable fs i < 4096) :
    ∃ map, tables.foldl (fun fs i => fsMarkUsed (fsInodetable fs i) fs) fs = fs.withMap map ∧
      ∀ other < 4096, fsUsed (fs.withMap map) other = true ↔
        fsUsed fs other = true ∨ ∃ i ∈ tables, other = fsInodetable fs i := by
  induction tables generalizing fs with
  | nil => exact ⟨fs.chip.buf2, rfl, fun other _ => by simp [Fs.withMap]⟩
  | cons i tables ih =>
      obtain ⟨map, marked, used⟩ := fsMarkUsed_spec fs _ (inside i List.mem_cons_self)
      obtain ⟨final, folded, usedLater⟩ := ih (fs.withMap map) fun j member =>
        inside j (List.mem_cons_of_mem i member)
      refine ⟨final, ?_, fun other small => ?_⟩
      · rw [List.foldl_cons, marked, folded]
        rfl
      · rw [show fs.withMap final = (fs.withMap map).withMap final from rfl, usedLater other small,
          used other small]
        simp only [List.mem_cons, exists_eq_or_imp]
        rw [or_assoc]
        rfl

theorem markFiles_of_unused {fs : Fs} {count index : Nat}
    (unused : ∀ k, index ≤ k → k < index + count → (readNode fs k).unused = true) :
    markFiles count index fs = some fs := by
  induction count generalizing index with
  | zero => rfl
  | succ count ih =>
      simp only [markFiles]
      rw [if_pos (unused index (le_refl _) (by omega))]
      exact ih fun k lower upper => unused k (by omega) (by omega)

/-! ### The result -/

/-- The file system that `fs_init` makes of a blank device. -/
structure Boots (chip : Chip) (heap : Nat → Option Bytes) (fs : Fs)
    (rootBlock inodeBlock nodeBlock : Bytes) : Prop where
  root : fs.root = 0
  version : fs.version = 1
  lastFree : fs.lastFree = 0
  allocs : fs.allocs = []
  heap : fs.heap = heap
  flash : fs.chip.flash =
    formatFlash chip.flash (formatRoot rootBlock nodeBlock (formatTable inodeBlock chip.buf1))
      (formatTable inodeBlock chip.buf1)
  used : ∀ page < 4096, fsUsed fs page = true ↔ page ≤ 16

theorem fsScan_blank {fs : Fs} {block : Bytes} (blank : fs.chip.Blank)
    (memory : fs.heap fs.mallocs = some block) :
    fsScan fs = fsFormat { fs with version := 0, mallocs := fs.mallocs + 1 } := by
  simp only [fsScan, malloc, memory]
  rw [@scanPages_blank { fs with version := 0, mallocs := fs.mallocs + 1 } blank,
    if_neg (by simp)]

/-- `fs_format` succeeds only if the memory does not run out. -/
theorem fsFormat_memory {fs : Fs} (succeeded : (fsFormat fs).1 = .ok) :
    ∃ first second third, fs.heap fs.mallocs = some first ∧
      fs.heap (fs.mallocs + 1) = some second ∧ fs.heap (fs.mallocs + 2) = some third := by
  have later : fs.mallocs + 1 + 1 = fs.mallocs + 2 := rfl
  cases first : fs.heap fs.mallocs with
  | none => simp [fsFormat, malloc, first] at succeeded
  | some rootBlock =>
      cases second : fs.heap (fs.mallocs + 1) with
      | none => simp [fsFormat, malloc, first, second] at succeeded
      | some inodeBlock =>
          cases third : fs.heap (fs.mallocs + 2) with
          | none => simp [fsFormat, malloc, first, second, later, third] at succeeded
          | some nodeBlock => exact ⟨_, _, _, rfl, rfl, rfl⟩

/-- The state in which `fs_init` starts to scan. -/
def Fs.initial (chip : Chip) (heap : Nat → Option Bytes) : Fs where
  chip := dfBufWrite .buf2 (fun _ => 0xff) 0 dfPagesize chip
  root := 0
  version := 0
  lastFree := 0
  heap := heap
  mallocs := 0
  allocs := []

theorem Fs.initial_unused (chip : Chip) (heap : Nat → Option Bytes) {page : Nat}
    (small : page < 4096) : fsUsed (Fs.initial chip heap) page = false := by
  rw [Bool.eq_false_iff, ne_eq, fsUsed_iff _ small]
  change ¬(overlay 528 0 528 (fun _ => 0xff) chip.buf2 (page / 8)).toNat.testBit _ = false
  rw [overlay_apply (by decide), if_pos (by omega)]
  have bit : page % 8 < 8 := Nat.mod_lt _ (by decide)
  interval_cases page % 8 <;> decide

theorem fsInit_eq (chip : Chip) (heap : Nat → Option Bytes) :
    fsInit chip heap =
      match fsScan (Fs.initial chip heap) with
      | (.ok, fs) =>
          let fs := fsMarkUsed fs.root fs
          let fs := (List.range 16).foldl (fun fs i => fsMarkUsed (fsInodetable fs i) fs) fs
          match malloc fs with
          | (none, fs) => some (.mem, fs)
          | (some _, fs) => (markFiles fsNodesInRoot 0 fs).map (.ok, ·)
      | failed => some failed := rfl

/-- The state after the scan of a blank device. -/
def Fs.scanned (chip : Chip) (heap : Nat → Option Bytes) (rootBlock inodeBlock nodeBlock : Bytes) :
    Fs :=
  formatted rootBlock inodeBlock nodeBlock { Fs.initial chip heap with mallocs := 1 }

/-- In an empty map the root page and the inode tables are marked. -/
theorem markRoot_spec {fs : Fs} (root : fs.root < 4096)
    (tables : ∀ i < 16, fsInodetable fs i < 4096)
    (unused : ∀ page < 4096, fsUsed fs page = false) :
    ∃ map,
      (List.range 16).foldl (fun fs i => fsMarkUsed (fsInodetable fs i) fs) (fsMarkUsed fs.root fs) =
        fs.withMap map ∧
      ∀ page < 4096, fsUsed (fs.withMap map) page = true ↔
        page = fs.root ∨ ∃ i < 16, page = fsInodetable fs i := by
  obtain ⟨rootMap, rootMarked, rootUsed⟩ := fsMarkUsed_spec fs fs.root root
  have same (i : Nat) : fsInodetable (fs.withMap rootMap) i = fsInodetable fs i := rfl
  obtain ⟨map, marked, used⟩ := markTables_spec (fs.withMap rootMap) (List.range 16)
    fun i member => by
      rw [same]
      exact tables i (List.mem_range.mp member)
  refine ⟨map, by rw [rootMarked, marked]; rfl, fun page small => ?_⟩
  rw [show fs.withMap map = (fs.withMap rootMap).withMap map from rfl, used page small,
    rootUsed page small, unused page small]
  simp only [same, List.mem_range, Bool.false_eq_true, false_or]

/-- The root page and the inode tables of a blank device are marked. -/
theorem markUsed_scanned (chip : Chip) (heap : Nat → Option Bytes)
    (rootBlock inodeBlock nodeBlock : Bytes) :
    ∃ map,
      (List.range 16).foldl (fun fs i => fsMarkUsed (fsInodetable fs i) fs)
          (fsMarkUsed 0 (Fs.scanned chip heap rootBlock inodeBlock nodeBlock)) =
        (Fs.scanned chip heap rootBlock inodeBlock nodeBlock).withMap map ∧
      ∀ page < 4096,
        fsUsed ((Fs.scanned chip heap rootBlock inodeBlock nodeBlock).withMap map) page = true ↔
          page ≤ 16 := by
  set done := Fs.scanned chip heap rootBlock inodeBlock nodeBlock
  have tables (i : Nat) (small : i < 16) : fsInodetable done i = i + 1 :=
    tableOf_formatted chip.flash small
  obtain ⟨map, marked, used⟩ := @markRoot_spec done (Nat.succ_pos 4095)
    (fun i small => by rw [tables i small]; omega) fun page => Fs.initial_unused chip heap
  refine ⟨map, marked, fun page small => ?_⟩
  rw [used page small]
  constructor
  · rintro (rfl | ⟨i, inside, rfl⟩)
    · exact Nat.zero_le _
    · rw [tables i inside]
      omega
  · intro low
    rcases Nat.eq_zero_or_pos page with rfl | positive
    · exact Or.inl rfl
    · refine Or.inr ⟨page - 1, by omega, ?_⟩
      rw [tables (page - 1) (by omega)]
      omega

/-- `fs_init` formats a blank device. -/
theorem fsInit_boots (chip : Chip) (heap : Nat → Option Bytes) (blank : chip.Blank)
    {scanBlock rootBlock inodeBlock nodeBlock block : Bytes} (zeroth : heap 0 = some scanBlock)
    (first : heap 1 = some rootBlock) (second : heap 2 = some inodeBlock)
    (third : heap 3 = some nodeBlock) (fourth : heap 4 = some block) :
    ∃ fs, fsInit chip heap = some (.ok, fs) ∧
      Boots chip heap fs rootBlock inodeBlock nodeBlock := by
  obtain ⟨map, marked, used⟩ := markUsed_scanned chip heap rootBlock inodeBlock nodeBlock
  have scan : fsScan (Fs.initial chip heap) =
      (.ok, Fs.scanned chip heap rootBlock inodeBlock nodeBlock) :=
    (fsScan_blank blank zeroth).trans (fsFormat_eq rfl first second third)
  set done := Fs.scanned chip heap rootBlock inodeBlock nodeBlock
  let final : Fs := { done.withMap map with mallocs := 5 }
  have memory : malloc (done.withMap map) = (some block, final) := Prod.ext fourth rfl
  have files : markFiles fsNodesInRoot 0 final = some final := by
    refine markFiles_of_unused fun k _ upper => ?_
    exact formatRoot_lists.marker k (Nat.zero_le k) (by rw [Nat.zero_add] at upper; exact upper.le)
  refine ⟨final, ?_, rfl, rfl, rfl, rfl, rfl, rfl, used⟩
  rw [fsInit_eq, scan]
  simp only
  rw [show done.root = 0 from rfl, marked, memory]
  simp only
  rw [files]
  rfl

/-- Whenever `fs_init` succeeds on a blank device, it has formatted it. -/
theorem fsInit_blank {chip : Chip} {heap : Nat → Option Bytes} {fs : Fs} (blank : chip.Blank)
    (started : fsInit chip heap = some (.ok, fs)) :
    ∃ rootBlock inodeBlock nodeBlock, Boots chip heap fs rootBlock inodeBlock nodeBlock := by
  have scanned : (fsScan (Fs.initial chip heap)).1 = .ok := by
    rw [fsInit_eq] at started
    split at started
    · next scan => rw [scan]
    · next failed =>
        rw [Option.some.inj started]
  have zeroth : ∃ block, heap 0 = some block := by
    cases memory : heap 0 with
    | none => simp [fsScan, malloc, Fs.initial, memory] at scanned
    | some block => exact ⟨block, rfl⟩
  obtain ⟨scanBlock, zeroth⟩ := zeroth
  rw [fsScan_blank blank zeroth] at scanned
  obtain ⟨rootBlock, inodeBlock, nodeBlock, first, second, third⟩ := fsFormat_memory scanned
  cases fourth : heap 4 with
  | none =>
      obtain ⟨map, marked, -⟩ := markUsed_scanned chip heap rootBlock inodeBlock nodeBlock
      have scan : fsScan (Fs.initial chip heap) =
          (.ok, Fs.scanned chip heap rootBlock inodeBlock nodeBlock) :=
        (fsScan_blank blank zeroth).trans (fsFormat_eq rfl first second third)
      set done := Fs.scanned chip heap rootBlock inodeBlock nodeBlock
      have memory : malloc (done.withMap map) = (none, { done.withMap map with mallocs := 5 }) :=
        Prod.ext fourth rfl
      rw [fsInit_eq, scan] at started
      simp only at started
      rw [show done.root = 0 from rfl, marked, memory] at started
      simp at started
  | some block =>
      obtain ⟨other, booted, boots⟩ := fsInit_boots _ _ blank zeroth first second third fourth
      rw [booted] at started
      obtain rfl : other = fs := (Prod.ext_iff.mp (Option.some.inj started)).2
      exact ⟨_, _, _, boots⟩

/-- A blank device whose buffers hold zeros. -/
def blankChip : Chip := ⟨fun _ _ => 0xff, fun _ => 0, fun _ => 0, []⟩

/-- A heap that never runs out, of blocks of zeros. -/
def zeroHeap : Nat → Option Bytes := fun _ => some fun _ => 0

theorem blankChip_blank : blankChip.Blank := fun _ _ => rfl

section Boots

variable {chip : Chip} {heap : Nat → Option Bytes} {fs : Fs}
  {rootBlock inodeBlock nodeBlock : Bytes}

theorem Boots.rootPage (boots : Boots chip heap fs rootBlock inodeBlock nodeBlock) :
    fs.chip.flash 0 = formatRoot rootBlock nodeBlock (formatTable inodeBlock chip.buf1) := by
  rw [boots.flash]
  rfl

theorem Boots.tablePage (boots : Boots chip heap fs rootBlock inodeBlock nodeBlock) {page : Nat}
    (lower : 1 ≤ page) (upper : page ≤ 16) :
    fs.chip.flash page = formatTable inodeBlock chip.buf1 := by
  rw [boots.flash, formatFlash, if_neg (by omega), if_pos upper]

theorem Boots.tableOf (boots : Boots chip heap fs rootBlock inodeBlock nodeBlock) {tableid : Nat}
    (small : tableid < 16) : tableOf fs.chip.flash fs.root tableid = tableid + 1 := by
  rw [boots.flash, boots.root]
  exact tableOf_formatted _ small

/-- A blank device has an empty directory. -/
theorem Boots.holds (boots : Boots chip heap fs rootBlock inodeBlock nodeBlock) : fs.Holds [] := by
  rw [Fs.Holds, boots.root, Nat.zero_mod, boots.rootPage]
  exact formatRoot_lists

/-- The inodes are unused, but for the last one of each table. -/
theorem Boots.pageOf (boots : Boots chip heap fs rootBlock inodeBlock nodeBlock) {inode : Nat}
    (small : inode < 4096) (notLast : inode % 256 ≠ 255) :
    pageOf fs.chip.flash fs.root inode = none := by
  have table : fs.chip.flash (Dataflash.tableOf fs.chip.flash fs.root (inode / 256) % 4096) =
      formatTable inodeBlock chip.buf1 := by
    rw [boots.tableOf (by omega), Nat.mod_eq_of_lt (by omega)]
    exact boots.tablePage (by omega) (by omega)
  rw [Dataflash.pageOf, entryOf, table, if_pos]
  exact formatTable_unused (by omega)

/-- What the last inode of a table points to comes from the contents of `BUF1`. -/
theorem Boots.pageOf_last (boots : Boots chip heap fs rootBlock inodeBlock nodeBlock) (inode : Nat)
    (small : inode < 4096) (last : inode % 256 = 255) :
    Dataflash.pageOf fs.chip.flash fs.root inode =
      nodePage (InodetableNode.decode fun k => chip.buf1 (525 + k)) := by
  have table : fs.chip.flash (Dataflash.tableOf fs.chip.flash fs.root (inode / 256) % 4096) =
      formatTable inodeBlock chip.buf1 := by
    rw [boots.tableOf (by omega), Nat.mod_eq_of_lt (by omega)]
    exact boots.tablePage (by omega) (by omega)
  have entry : entryOf fs.chip.flash fs.root inode =
      InodetableNode.decode fun k => chip.buf1 (525 + k) := by
    rw [entryOf, table]
    refine InodetableNode.decode_congr fun k inside => ?_
    rw [readFrom_apply (by omega), last, formatTable, overlay_of_ge (by decide) (by omega),
      overlay_of_ge (by decide) (by omega)]
  rw [Dataflash.pageOf, entry]
  rfl

/-- Behind the inode tables the pages are handed out one after the other. -/
theorem Boots.next_eq (boots : Boots chip heap fs rootBlock inodeBlock nodeBlock) {cursor : Nat}
    (lower : 16 ≤ cursor) (upper : cursor < 4095) : fs.next cursor = some (cursor + 1) := by
  have unused : fsUsed fs (cursor + 1) = false := by
    rw [Bool.eq_false_iff, ne_eq, boots.used _ (by omega)]
    omega
  have found := nextFit_eq 4096 (fsUsed fs) cursor 0
    (by decide) (fun k before => absurd before (Nat.not_lt_zero k))
    (by rw [Nat.add_zero, Nat.mod_eq_of_lt (by omega)]; exact unused)
  rw [fs.next_eq_nextFit (by omega), found, Nat.add_zero, Nat.mod_eq_of_lt (by omega)]

/-- The first page handed out is the one behind the inode tables. -/
theorem Boots.next_zero (boots : Boots chip heap fs rootBlock inodeBlock nodeBlock) :
    fs.next 0 = some 17 := by
  have unused : fsUsed fs 17 = false := by
    rw [Bool.eq_false_iff, ne_eq, boots.used _ (by omega)]
    omega
  have found := nextFit_eq 4096 (fsUsed fs) 0 16
    (by decide) (fun k before => by
      rw [Nat.mod_eq_of_lt (by omega), boots.used _ (by omega)]
      omega) unused
  rw [fs.next_eq_nextFit (Nat.succ_pos 4095), found]

/-- A page is always found, because the map stays as it is and most pages are
free. -/
theorem Boots.next (boots : Boots chip heap fs rootBlock inodeBlock nodeBlock) {cursor : Nat}
    (inside : cursor < 4096) : ∃ page, fs.next cursor = some page := by
  have unused (page : Nat) (small : page < 4096) (free : 16 < page) : fsUsed fs page = false := by
    rw [Bool.eq_false_iff, ne_eq, boots.used page small]
    omega
  rw [fs.next_eq_nextFit inside]
  by_cases first : cursor = 17
  · exact nextFit_isSome inside 18 (by decide) (by omega) (unused 18 (by decide) (by decide))
  · exact nextFit_isSome inside 17 (by decide) (Ne.symm first)
      (unused 17 (by decide) (by decide))

end Boots

end Ethersex.Dataflash
