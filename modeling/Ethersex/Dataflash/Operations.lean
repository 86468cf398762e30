import Mathlib
import Ethersex.Dataflash.Boot

/-!
# The operations, page by page

`fs_write` and `fs_truncate` replace one page after another: each step takes a page
from the allocator, commits an inode table and a root page that point to it, and
programs it last.  `PageSteps` is the trace of these steps.  What a property of states
needs in order to survive an operation is stated for one step and carried along the
trace.
-/

namespace Ethersex.Dataflash

open Library

/-! ## One page of a file -/

theorem overlay_zero (size offset : Nat) (data memory : Bytes) :
    overlay size offset 0 data memory = memory := by
  funext k
  simp [overlay]

/-- A page with a new header and `count` new bytes of data at an offset. -/
def pageWith (header : FsPage) (offset count : Nat) (buf old : Bytes) : Bytes :=
  overlay 528 (15 + offset) count buf (overlay 528 0 4 header.encode old)

/-- The header of a page. -/
def headerOf (page : Bytes) : FsPage := .decode (readFrom 528 0 page)

theorem headerOf_pageWith {header : FsPage} {offset count : Nat} {buf old : Bytes}
    (fits : offset + count ≤ 512) : headerOf (pageWith header offset count buf old) = header := by
  have kept : AgreeTo 4 (readFrom 528 0 (pageWith header offset count buf old)) header.encode := by
    intro k small
    rw [readFrom_apply (by omega), pageWith, overlay_of_lt (by omega) (by omega), overlay_apply (by decide),
      if_pos (by omega), Nat.zero_add, Nat.sub_zero]
  rw [headerOf, FsPage.decode_congr kept, FsPage.decode_encode]

theorem readPage_eq (fs : Fs) (page : Nat) : readPage fs page = headerOf (fs.chip.flash (page % 4096)) :=
  rfl

/-- The header `fs_write` gives to a page that it fills up. -/
def fullHeader (old : FsPage) (next : Fin 4096) : FsPage :=
  { old with unused := false, eof := false, root := false, size := field16 512, nextInode := next }

/-- The header `fs_write` gives to the page in which it ends. -/
def lastHeader (old : FsPage) (eof : Bool) (filled : Nat) : FsPage :=
  { old with
    unused := false
    eof := eof || old.eof
    root := false
    size := if eof ∨ filled > old.size then field16 filled else old.size }

/-- The header of a page that a new file fills up. -/
def newFullHeader (header : FsPage) (next : Fin 4096) : FsPage :=
  { header with eof := false, root := false, nextInode := next, size := field16 512 }

/-- The header of the last page of a new file. -/
def newLastHeader (header : FsPage) (filled : Nat) : FsPage :=
  { header with eof := true, size := field16 filled, root := false }

/-- The header `fs_truncate` gives to the page in which the file ends now. -/
def cutHeader (old : FsPage) (filled : Nat) : FsPage :=
  { old with size := field16 filled, eof := true }

/-! ## Traces -/

/-- The steps of an operation that programs at most `count` pages of files.  The list
holds the inodes it has redirected with the contents of their new pages. -/
inductive PageSteps : (count : Nat) → List (Nat × Bytes) → Fs → FsStatus × Fs → Prop where
  | stop {count : Nat} (status : FsStatus) (fs : Fs) : PageSteps count [] fs (status, fs)
  | failed {count inode page : Nat} {status : FsStatus} {fs after : Fs} :
      inode < 4096 → fs.next fs.lastFree = some page →
        fsUpdateInodetable inode (some page) (fs.handOut page) = (status, after) → status ≠ .ok →
          PageSteps (count + 1) [] fs (status, after)
  | page {count inode page : Nat} {content : Bytes} {cells : List (Nat × Bytes)} {fs after : Fs}
      {result : FsStatus × Fs} :
      inode < 4096 → fs.next fs.lastFree = some page →
        fsUpdateInodetable inode (some page) (fs.handOut page) = (.ok, after) →
          PageSteps count cells (after.program page content) result →
            PageSteps (count + 1) ((inode, content) :: cells) fs result

theorem PageSteps.mono {count larger : Nat} {cells : List (Nat × Bytes)} {fs : Fs}
    {result : FsStatus × Fs} (steps : PageSteps count cells fs result) (small : count ≤ larger) :
    PageSteps larger cells fs result := by
  induction steps generalizing larger with
  | stop status fs => exact .stop status fs
  | failed inodeIn found updated bad =>
      obtain ⟨larger, rfl⟩ : ∃ more, larger = more + 1 := ⟨larger - 1, by omega⟩
      exact .failed inodeIn found updated bad
  | page inodeIn found updated rest ih =>
      obtain ⟨larger, rfl⟩ : ∃ more, larger = more + 1 := ⟨larger - 1, by omega⟩
      exact .page inodeIn found updated (ih (by omega))

/-! ### `fs_write` -/

section Write

variable {fs after : Fs} {buf : Bytes} {inode oldPage offset length page : Nat} {eof : Bool}
  {header : FsPage}

theorem writeOver_of_full (full : fs.next fs.lastFree = none) :
    writeOver buf inode oldPage eof offset length fs = (.badPage, fs) := by
  rw [writeOver, fsNewPage_of_full full]

theorem writeOver_of_failed {status : FsStatus} (found : fs.next fs.lastFree = some page)
    (updated : fsUpdateInodetable inode (some page) (fs.handOut page) = (status, after))
    (bad : status ≠ .ok) :
    writeOver buf inode oldPage eof offset length fs = (status, after) := by
  rw [writeOver, fsNewPage_of_next found]
  simp only [updated]
  cases status <;> first | rfl | exact absurd rfl bad

/-- One iteration of the loop of `fs_write` for a file with data. -/
theorem writeOver_of_page (found : fs.next fs.lastFree = some page)
    (updated : fsUpdateInodetable inode (some page) (fs.handOut page) = (.ok, after))
    (inside : offset ≤ 512) :
    writeOver buf inode oldPage eof offset length fs =
      if 512 < length + offset then
        let next := field12 (fsNewInode after)
        writeOver buf next
          (if (readPage after oldPage).eof then oldPage
            else (fsPage after (readPage after oldPage).nextInode).getD noPage)
          (eof || (readPage after oldPage).eof) 0 (length - (512 - offset))
          (after.program page (pageWith (fullHeader (readPage after oldPage) next) offset (512 - offset)
            buf (after.chip.flash (oldPage % 4096))))
      else
        (.ok, after.program page
          (pageWith (lastHeader (readPage after oldPage) eof (length + offset)) offset length buf
            (after.chip.flash (oldPage % 4096)))) := by
  have pageIn := Nat.mod_eq_of_lt (Fs.next_lt found)
  have saved (header : FsPage) (count : Nat) :
      dfBufSave .buf1 page (dfBufWrite .buf1 buf (fsDataOffset + offset) count
        (dfBufWrite .buf1 header.encode fsStructureOffset sizeofPage
          (dfBufLoad .buf1 oldPage after.chip))) =
        (after.program page (pageWith header offset count buf
          (after.chip.flash (oldPage % 4096)))).chip := by
    simp only [dfBufSave, Fs.program, dfPages, pageIn]
    rfl
  -- Writing no bytes at all is the branch that the source skips.
  have filled (count : Nat) (chip : Chip) :
      (if count ≠ 0 then dfBufWrite .buf1 buf (fsDataOffset + offset) count chip else chip) =
        dfBufWrite .buf1 buf (fsDataOffset + offset) count chip := by
    split
    · rfl
    · next zero =>
        rw [not_not.mp zero, dfBufWrite, overlay_zero]
        rfl
  rw [writeOver, fsNewPage_of_next found]
  simp only [updated]
  by_cases more : 512 < length + offset
  · rw [if_pos (show length + offset > fsDatasize from more), if_pos more,
      if_pos (show length - (fsDatasize - offset) > 0 by simp only [fsDatasize]; omega)]
    simp only [filled]
    rw [saved]
    rfl
  · rw [if_neg (show ¬length + offset > fsDatasize from more), if_neg more, saved]
    rfl

/-- The number of pages that so many bytes take from an offset on, at least one. -/
def pagesFor (offset length : Nat) : Nat := (offset + length - 1) / 512 + 1

theorem writeOver_steps (small : inode < 4096) (inside : offset ≤ 512) :
    ∃ cells, PageSteps (pagesFor offset length) cells fs
      (writeOver buf inode oldPage eof offset length fs) := by
  generalize enough : pagesFor offset length = count
  induction count generalizing inode oldPage eof offset length fs with
  | zero => simp [pagesFor] at enough
  | succ count ih =>
      cases found : fs.next fs.lastFree with
      | none => exact ⟨[], by rw [writeOver_of_full found]; exact .stop _ _⟩
      | some page =>
          cases updated : fsUpdateInodetable inode (some page) (fs.handOut page) with
          | mk status after =>
              by_cases good : status = .ok
              · subst good
                rw [writeOver_of_page found updated inside]
                split
                · next more =>
                    have rest : pagesFor 0 (length - (512 - offset)) = count := by
                      simp only [pagesFor] at enough ⊢
                      omega
                    obtain ⟨cells, steps⟩ := ih (Fin.isLt _) (Nat.zero_le _) rest
                    exact ⟨_, .page small found updated steps⟩
                · exact ⟨_, .page small found updated (.stop _ _)⟩
              · rw [writeOver_of_failed found updated good]
                exact ⟨[], .failed small found updated good⟩

theorem writeNew_of_full (full : fs.next fs.lastFree = none) :
    writeNew buf header inode length fs = (.badPage, fs) := by
  rw [writeNew, fsNewPage_of_full full]

theorem writeNew_of_failed {status : FsStatus} (found : fs.next fs.lastFree = some page)
    (updated : fsUpdateInodetable inode (some page) (fs.handOut page) = (status, after))
    (bad : status ≠ .ok) : writeNew buf header inode length fs = (status, after) := by
  rw [writeNew, fsNewPage_of_next found]
  simp only [updated]
  cases status <;> first | rfl | exact absurd rfl bad

/-- One iteration of the loop of `fs_write` for a file without data. -/
theorem writeNew_of_page (found : fs.next fs.lastFree = some page)
    (updated : fsUpdateInodetable inode (some page) (fs.handOut page) = (.ok, after)) :
    writeNew buf header inode length fs =
      if 512 < length then
        let next := field12 (fsNewInode after)
        writeNew buf (newFullHeader header next) next (length - 512)
          (after.program page (pageWith (newFullHeader header next) 0 512 buf after.chip.buf1))
      else
        (.ok, after.program page (pageWith (newLastHeader header length) 0 length buf after.chip.buf1)) := by
  have pageIn := Nat.mod_eq_of_lt (Fs.next_lt found)
  have saved (header : FsPage) (count : Nat) :
      dfBufSave .buf1 page (dfBufWrite .buf1 buf fsDataOffset count
        (dfBufWrite .buf1 header.encode fsStructureOffset sizeofPage after.chip)) =
        (after.program page (pageWith header 0 count buf after.chip.buf1)).chip := by
    simp only [dfBufSave, Fs.program, dfPages, pageIn]
    rfl
  rw [writeNew, fsNewPage_of_next found]
  simp only [updated]
  by_cases more : 512 < length
  · rw [if_pos (show length > fsDatasize from more), if_pos more]
    simp only [saved]
    rfl
  · rw [if_neg (show ¬length > fsDatasize from more), if_neg more, saved]
    rfl

theorem writeNew_steps (small : inode < 4096) :
    ∃ cells, PageSteps (pagesFor 0 length) cells fs (writeNew buf header inode length fs) := by
  generalize enough : pagesFor 0 length = count
  induction count generalizing inode header length fs with
  | zero => simp [pagesFor] at enough
  | succ count ih =>
      cases found : fs.next fs.lastFree with
      | none => exact ⟨[], by rw [writeNew_of_full found]; exact .stop _ _⟩
      | some page =>
          cases updated : fsUpdateInodetable inode (some page) (fs.handOut page) with
          | mk status after =>
              by_cases good : status = .ok
              · subst good
                rw [writeNew_of_page found updated]
                split
                · next more =>
                    have rest : pagesFor 0 (length - 512) = count := by
                      simp only [pagesFor] at enough ⊢
                      omega
                    obtain ⟨cells, steps⟩ := ih (Fin.isLt _) rest
                    exact ⟨_, .page small found updated steps⟩
                · exact ⟨_, .page small found updated (.stop _ _)⟩
              · rw [writeNew_of_failed found updated good]
                exact ⟨[], .failed small found updated good⟩

/-- The offset in the page at which `fs_write` arrives: a multiple of 512 other than zero
is the end of a page. -/
def seekOffset (offset : Nat) : Nat := if offset = 0 then 0 else (offset - 1) % 512 + 1

theorem seekWrite_bounds {found : Nat × Nat × Nat} (small : inode < 4096)
    (sought : seekWrite fs inode page offset = .ok found) :
    found.1 < 4096 ∧ found.2.2 = seekOffset offset := by
  induction offset using Nat.strong_induction_on generalizing inode page with
  | h offset ih =>
      rw [seekWrite] at sought
      by_cases beyond : offset > fsDatasize
      · have large : 512 < offset := beyond
        rw [if_pos beyond] at sought
        simp only at sought
        split at sought
        · simp at sought
        · obtain ⟨inodeIn, rest⟩ := ih (offset - fsDatasize)
            (by simp only [fsDatasize]; omega) (Fin.isLt _) sought
          refine ⟨inodeIn, rest.trans ?_⟩
          rw [seekOffset, seekOffset, fsDatasize, if_neg (by omega), if_neg (by omega)]
          omega
      · have within : offset ≤ 512 := Nat.le_of_not_lt beyond
        rw [if_neg beyond] at sought
        obtain rfl := Except.ok.inj sought
        refine ⟨small, ?_⟩
        simp only [seekOffset]
        split <;> omega

/-- The number of pages `fs_write` replaces unless it fails on the way. -/
def writePages (fs : Fs) (inode offset length : Nat) : Nat :=
  match fsPage fs inode with
  | some page =>
      match seekWrite fs inode page offset with
      | .error _ => 0
      | .ok _ => pagesFor (seekOffset offset) length
  | none => if offset ≠ 0 then 0 else pagesFor 0 length

theorem fsWrite_steps (fs : Fs) (data : List UInt8) (offset : Nat) (small : inode < 4096) :
    ∃ cells, PageSteps (writePages fs inode offset data.length) cells fs
      (fsWrite inode data offset fs) := by
  simp only [fsWrite, writePages]
  cases target : fsPage fs inode with
  | some page =>
      simp only
      cases sought : seekWrite fs inode page offset with
      | error status => exact ⟨[], .stop _ _⟩
      | ok found =>
          obtain ⟨inodeIn, arrived⟩ := seekWrite_bounds small sought
          obtain ⟨inode, oldPage, rest⟩ := found
          simp only at inodeIn arrived ⊢
          subst arrived
          refine writeOver_steps inodeIn ?_
          simp only [seekOffset]
          split <;> omega
  | none =>
      simp only
      by_cases zero : offset = 0
      · rw [if_neg (not_not.mpr zero), if_neg (not_not.mpr zero)]
        exact writeNew_steps small
      · rw [if_pos zero, if_pos zero]
        exact ⟨[], .stop _ _⟩

end Write

/-! ### `fs_truncate` -/

theorem seekTruncate_bounds {fs : Fs} {inode page length : Nat} {found : Nat × Nat × Nat}
    (small : inode < 4096) (sought : seekTruncate fs inode page length = .ok found) :
    found.1 < 4096 := by
  induction length using Nat.strong_induction_on generalizing inode page with
  | h length ih =>
      rw [seekTruncate] at sought
      by_cases beyond : length > fsDatasize
      · have large : 512 < length := beyond
        rw [if_pos beyond] at sought
        simp only at sought
        split at sought
        · simp at sought
        · split at sought
          · simp at sought
          · exact ih (length - fsDatasize) (by simp only [fsDatasize]; omega) (Fin.isLt _) sought
      · rw [if_neg beyond] at sought
        obtain rfl := Except.ok.inj sought
        exact small

/-- The page that `fs_truncate` replaces. -/
theorem fsTruncate_of_page {fs after : Fs} {inode length first target page filled newPage : Nat}
    (start : fsPage fs inode = some first)
    (sought : seekTruncate fs inode first length = .ok (target, page, filled))
    (shorter : filled < (readPage fs page).size) (found : fs.next fs.lastFree = some newPage)
    (updated : fsUpdateInodetable target (some newPage) (fs.handOut newPage) = (.ok, after)) :
    fsTruncate inode length fs =
      (.ok, after.program newPage (pageWith (cutHeader (readPage after page) filled) 0 0 (fun _ => 0)
        (after.chip.flash (page % 4096)))) := by
  have pageIn := Nat.mod_eq_of_lt (Fs.next_lt found)
  rw [fsTruncate, start]
  simp only [sought]
  rw [if_neg (by omega), if_neg (by omega), fsNewPage_of_next found]
  simp only [updated, pageWith, overlay_zero, dfBufSave, dfPages, pageIn]
  rfl

theorem fsTruncate_of_failed {fs after : Fs} {status : FsStatus}
    {inode length first target page filled newPage : Nat} (start : fsPage fs inode = some first)
    (sought : seekTruncate fs inode first length = .ok (target, page, filled))
    (shorter : filled < (readPage fs page).size) (found : fs.next fs.lastFree = some newPage)
    (updated : fsUpdateInodetable target (some newPage) (fs.handOut newPage) = (status, after))
    (bad : status ≠ .ok) : fsTruncate inode length fs = (status, after) := by
  rw [fsTruncate, start]
  simp only [sought]
  rw [if_neg (by omega), if_neg (by omega), fsNewPage_of_next found]
  simp only [updated]
  cases status <;> first | rfl | exact absurd rfl bad

/-- The number of pages `fs_truncate` replaces unless it fails on the way. -/
def truncatePages (fs : Fs) (inode length : Nat) : Nat :=
  match fsPage fs inode with
  | none => 0
  | some page =>
      match seekTruncate fs inode page length with
      | .error _ => 0
      | .ok (_, page, length) => if length < (readPage fs page).size then 1 else 0

theorem fsTruncate_steps (fs : Fs) {inode : Nat} (length : Nat) (small : inode < 4096) :
    ∃ cells, PageSteps (truncatePages fs inode length) cells fs (fsTruncate inode length fs) := by
  rw [truncatePages]
  cases start : fsPage fs inode with
  | none => exact ⟨[], by rw [fsTruncate, start]; exact .stop _ _⟩
  | some first =>
      simp only
      cases sought : seekTruncate fs inode first length with
      | error status =>
          exact ⟨[], by rw [fsTruncate, start]; simp only [sought]; exact .stop _ _⟩
      | ok result =>
          have inodeIn := seekTruncate_bounds small sought
          obtain ⟨target, page, filled⟩ := result
          simp only
          rcases Nat.lt_or_ge filled (readPage fs page).size with shorter | longer
          · rw [if_pos shorter]
            cases found : fs.next fs.lastFree with
            | none =>
                refine ⟨[], ?_⟩
                rw [fsTruncate, start]
                simp only [sought]
                rw [if_neg (by omega), if_neg (by omega), fsNewPage_of_full found]
                exact .stop _ _
            | some newPage =>
                cases updated : fsUpdateInodetable target (some newPage) (fs.handOut newPage) with
                | mk status after =>
                    by_cases good : status = .ok
                    · subst good
                      rw [fsTruncate_of_page start sought shorter found updated]
                      exact ⟨_, .page inodeIn found updated (.stop _ _)⟩
                    · rw [fsTruncate_of_failed start sought shorter found updated good]
                      exact ⟨[], .failed inodeIn found updated good⟩
          · refine ⟨[], ?_⟩
            rw [if_neg (Nat.not_lt.mpr longer), fsTruncate, start]
            simp only [sought]
            by_cases more : filled > (readPage fs page).size
            · rw [if_pos more]
              exact .stop _ _
            · rw [if_neg more, if_pos (by omega)]
              exact .stop _ _

/-! ### `fs_create` and `fs_remove` -/

theorem moveUp_eq (fs : Fs) (count index : Nat) (chip : Chip) :
    ∃ page, moveUp fs count index chip = { chip with buf1 := page } := by
  induction count generalizing index chip with
  | zero => exact ⟨chip.buf1, rfl⟩
  | succ count ih =>
      obtain ⟨page, moved⟩ := ih (index + 1) (writeNode (readNode fs index) (index + 1) chip)
      exact ⟨page, moved⟩

theorem moveDown_eq (fs : Fs) (count index : Nat) (node : FsNode) (chip : Chip) :
    ∃ last page, moveDown fs count index node chip = (last, { chip with buf1 := page }) := by
  induction count generalizing index node chip with
  | zero => exact ⟨node, chip.buf1, rfl⟩
  | succ count ih =>
      obtain ⟨last, page, moved⟩ := ih (index + 1) (readNode fs (index + 1))
        (writeNode (readNode fs (index + 1)) index chip)
      exact ⟨last, page, moved⟩

/-- The searches read the directory only. -/
theorem seekPlace_congr {fs other : Fs} (chip : fs.chip = other.chip) (root : fs.root = other.root)
    (name : List UInt8) (steps index i : Nat) :
    seekPlace fs name steps index i = seekPlace other name steps index i := by
  have read : readNode fs = readNode other := by
    funext k
    rw [readNode, readNode, chip, root]
  induction steps generalizing index i with
  | zero => rw [seekPlace, seekPlace]
  | succ steps ih => simp only [seekPlace, read, ih]

theorem seekLast_congr {fs other : Fs} (chip : fs.chip = other.chip) (root : fs.root = other.root)
    (name : List UInt8) (steps i : Nat) (found : Option (Nat × Nat)) :
    seekLast fs name steps found i = seekLast other name steps found i := by
  have read : readNode fs = readNode other := by
    funext k
    rw [readNode, readNode, chip, root]
  induction steps generalizing found i with
  | zero => rw [seekLast, seekLast]
  | succ steps ih => simp only [seekLast, read, ih]

theorem readPage_congr {fs other : Fs} (chip : fs.chip = other.chip) :
    readPage fs = readPage other := by
  funext page
  rw [readPage, readPage, chip]

theorem fsPage_congr {fs other : Fs} (chip : fs.chip = other.chip) (root : fs.root = other.root) :
    fsPage fs = fsPage other := by
  funext inode
  rw [fsPage_eq, fsPage_eq, chip, root]

theorem writePages_congr {fs other : Fs} (chip : fs.chip = other.chip) (root : fs.root = other.root)
    (inode offset length : Nat) :
    writePages fs inode offset length = writePages other inode offset length := by
  have seek (inode page offset : Nat) :
      seekWrite fs inode page offset = seekWrite other inode page offset := by
    induction offset using Nat.strong_induction_on generalizing inode page with
    | h offset ih =>
        rw [seekWrite, seekWrite, readPage_congr chip, fsPage_congr chip root]
        split
        · next beyond =>
            simp only [ih (offset - fsDatasize) (by simp only [fsDatasize] at beyond ⊢; omega)]
        · rfl
  simp only [writePages, fsPage_congr chip root, seek]

theorem truncatePages_congr {fs other : Fs} (chip : fs.chip = other.chip)
    (root : fs.root = other.root) (inode length : Nat) :
    truncatePages fs inode length = truncatePages other inode length := by
  have seek (inode page length : Nat) :
      seekTruncate fs inode page length = seekTruncate other inode page length := by
    induction length using Nat.strong_induction_on generalizing inode page with
    | h length ih =>
        rw [seekTruncate, seekTruncate, readPage_congr chip, fsPage_congr chip root]
        split
        · next beyond =>
            simp only [ih (length - fsDatasize) (by simp only [fsDatasize] at beyond ⊢; omega)]
        · rfl
  simp only [truncatePages, fsPage_congr chip root, readPage_congr chip, seek]

section Cases

variable {fs : Fs} {name : List UInt8} {result : FsStatus × Fs}

/-- `fs_create` fails without an effect, or ends with `fs_increment`. -/
theorem fsCreate_cases (created : fsCreate name fs = some result) :
    (∃ status, status ≠ .ok ∧ result = (status, fs.allocated)) ∨
      ∃ page index max, (fs.heap fs.mallocs).isSome = true ∧
        seekPlace fs name (2 ^ 16) 0 0 = some (.place index max) ∧
        result = fsIncrement (fs.allocated.prepared page) := by
  rw [fsCreate] at created
  simp only [malloc] at created
  cases memory : fs.heap fs.mallocs with
  | none =>
      simp only [memory] at created
      exact Or.inl ⟨.mem, by simp, (Option.some.inj created).symm⟩
  | some block =>
      simp only [memory, Option.map_eq_some_iff] at created
      obtain ⟨place, sought, rfl⟩ := created
      cases place with
      | duplicate => exact Or.inl ⟨.duplicate, by simp, rfl⟩
      | place index max =>
          simp only
          split
          · exact Or.inl ⟨.badInode, by simp, rfl⟩
          · have original : seekPlace fs name (2 ^ 16) 0 0 = some (.place index max) := by
              rw [@seekPlace_congr fs fs.allocated rfl rfl]
              exact sought
            obtain ⟨page, moved⟩ := moveUp_eq fs.allocated (max - index) index
              (writeNode
                { readNode fs.allocated max with
                  name := fun i => strncpy (cString name) i
                  unused := false
                  file := true
                  inode := field12 (fsNewInode fs.allocated) } index
                (dfBufLoad .buf1 fs.root fs.chip))
            exact Or.inr ⟨page, index, max, rfl, original,
              congrArg (fun chip => fsIncrement { fs.allocated with chip }) moved⟩

theorem seekLast_inode {steps i max : Nat} {found last : Option (Nat × Nat)}
    (sought : seekLast fs name steps found i = some (last, max))
    (small : ∀ pair ∈ found, pair.2 < 4096) : ∀ pair ∈ last, pair.2 < 4096 := by
  induction steps generalizing found i with
  | zero => simp [seekLast] at sought
  | succ steps ih =>
      simp only [seekLast] at sought
      split at sought
      · obtain ⟨rfl, -⟩ := Prod.ext_iff.mp (Option.some.inj sought)
        exact small
      · refine ih sought fun pair member => ?_
        split at member
        · rw [Option.mem_some_iff] at member
          rw [← member]
          exact Fin.isLt _
        · exact small pair member

/-- The search of `fs_remove` stops at the first unused node. -/
theorem seekLast_max {steps i max unused : Nat} {found last : Option (Nat × Nat)}
    (sought : seekLast fs name steps found i = some (last, max)) (before : i ≤ unused)
    (small : unused < 2 ^ 16) (marked : (readNode fs unused).unused = true) : max ≤ unused := by
  induction steps generalizing found i with
  | zero => simp [seekLast] at sought
  | succ steps ih =>
      simp only [seekLast] at sought
      split at sought
      · obtain ⟨-, rfl⟩ := Prod.ext_iff.mp (Option.some.inj sought)
        exact before
      · next used =>
          have other : i ≠ unused := by
            rintro rfl
            exact used marked
          rw [Nat.mod_eq_of_lt (by omega)] at sought
          exact ih sought (by omega)

/-- `fs_remove` fails without an effect, or is `fs_increment` and
`fs_update_inodetable`. -/
theorem fsRemove_cases (removed : fsRemove name fs = some result) :
    (∃ status, status ≠ .ok ∧ result = (status, fs.allocated)) ∨
      ∃ (page : Bytes) (index max : Nat) (inode : Fin 4096), (fs.heap fs.mallocs).isSome = true ∧
        seekLast fs name (2 ^ 16) none 0 = some (some (index, inode.val), max) ∧
        (max ≤ 60 → ∀ k < 40, page k = fs.chip.flash (fs.root % 4096) k) ∧
        result =
          match fsIncrement (fs.allocated.prepared page) with
          | (.ok, fs) => fsUpdateInodetable inode none fs
          | failed => failed := by
  rw [fsRemove] at removed
  simp only [malloc] at removed
  cases memory : fs.heap fs.mallocs with
  | none =>
      simp only [memory] at removed
      exact Or.inl ⟨.mem, by simp, (Option.some.inj removed).symm⟩
  | some block =>
      simp only [memory, Option.map_eq_some_iff] at removed
      obtain ⟨⟨found, max⟩, sought, rfl⟩ := removed
      have small := seekLast_inode sought (by simp)
      have original : seekLast fs name (2 ^ 16) none 0 = some (found, max) := by
        rw [@seekLast_congr fs fs.allocated rfl rfl]
        exact sought
      cases found with
      | none => exact Or.inl ⟨.noSuchFile, by simp, rfl⟩
      | some pair =>
          obtain ⟨index, inode⟩ := pair
          simp only
          split
          · exact Or.inl ⟨.noSuchFile, by simp, rfl⟩
          · next found =>
              obtain ⟨last, page, moved⟩ := moveDown_eq fs.allocated (max - 1 - index) index
                (readNode fs.allocated max) (dfBufLoad .buf1 fs.root fs.chip)
              have header (fits : max ≤ 60) (k : Nat) (before : k < 40) :
                  putNode { last with unused := true } (max - 1) page k =
                    fs.chip.flash (fs.root % 4096) k := by
                obtain ⟨page', moved', -, kept⟩ := moveDown_spec fs.allocated
                  (max - 1 - index) index (by omega)
                  (readNode fs.allocated max) (dfBufLoad .buf1 fs.root fs.chip)
                have same := (Prod.ext_iff.mp (moved.symm.trans moved')).2
                rw [putNode_of_lt _ _ (by omega) before, show page = page' from congrArg Chip.buf1 same,
                  kept k before]
                rfl
              simp only [Fs.allocated] at moved
              rw [moved]
              exact Or.inr ⟨putNode { last with unused := true } (max - 1) page, index, max,
                ⟨inode, small (index, inode) rfl⟩, rfl, original, header, rfl⟩

end Cases

/-! ## What every operation leaves alone -/

/-- The map of free pages and the heap stay, and the cursor stays on a page. -/
structure Continues (before after : Fs) : Prop where
  map : after.chip.buf2 = before.chip.buf2
  heap : after.heap = before.heap
  cursor : before.lastFree < 4096 → after.lastFree < 4096

namespace Continues

variable {fs middle after : Fs}

theorem refl (fs : Fs) : Continues fs fs := ⟨rfl, rfl, id⟩

theorem trans (first : Continues fs middle) (second : Continues middle after) :
    Continues fs after :=
  ⟨second.map.trans first.map, second.heap.trans first.heap, second.cursor ∘ first.cursor⟩

theorem newPage (fs : Fs) : Continues fs (fsNewPage fs).2 := by
  rw [fsNewPage_eq]
  cases found : fs.next fs.lastFree with
  | none => exact refl fs
  | some page => exact ⟨rfl, rfl, fun _ => Fs.next_lt found⟩

theorem increment (fs : Fs) : Continues fs (fsIncrement fs).2 := by
  rw [fsIncrement_eq]
  cases found : fs.next fs.lastFree with
  | none => exact ⟨rfl, rfl, id⟩
  | some page => exact ⟨rfl, rfl, fun _ => Fs.next_lt found⟩

theorem updateInodetable (inode : Nat) (page : Option Nat) (fs : Fs) :
    Continues fs (fsUpdateInodetable inode page fs).2 := by
  have handed := newPage fs
  rw [fsUpdateInodetable]
  cases found : fsNewPage fs with
  | mk newPage middle =>
      rw [found] at handed
      cases newPage with
      | none => exact handed
      | some newPage =>
          cases memory : malloc middle with
          | mk block later =>
              have allocated : Continues middle later := by
                rw [← show (malloc middle).2 = later by rw [memory]]
                exact ⟨rfl, rfl, id⟩
              simp only [memory]
              cases block with
              | none => exact handed.trans allocated
              | some block =>
                  refine (handed.trans allocated).trans ?_
                  refine trans ?_ (increment _)
                  exact ⟨rfl, rfl, id⟩

end Continues

theorem PageSteps.continues {count : Nat} {cells : List (Nat × Bytes)} {fs : Fs}
    {result : FsStatus × Fs} (steps : PageSteps count cells fs result) : Continues fs result.2 := by
  have updates {fs after : Fs} {inode page : Nat} {status : FsStatus}
      (found : fs.next fs.lastFree = some page)
      (updated : fsUpdateInodetable inode (some page) (fs.handOut page) = (status, after)) :
      Continues fs after := by
    have handed : Continues fs (fs.handOut page) := ⟨rfl, rfl, fun _ => Fs.next_lt found⟩
    have later := Continues.updateInodetable inode (some page) (fs.handOut page)
    rw [updated] at later
    exact handed.trans later
  induction steps with
  | stop status fs => exact .refl fs
  | failed inodeIn found updated bad => exact updates found updated
  | @page count inode page content cells fs after result inodeIn found updated rest ih =>
      have programmed : Continues after (after.program page content) := ⟨rfl, rfl, id⟩
      exact (updates found updated).trans (programmed.trans ih)

/-! ## Runs -/

/-- A call that changes the file system. -/
inductive Op where
  | create (name : List UInt8)
  | remove (name : List UInt8)
  | write (inode : Nat) (data : List UInt8) (offset : Nat)
  | truncate (inode length : Nat)

def Op.run : Op → Fs → Option (FsStatus × Fs)
  | create name, fs => fsCreate name fs
  | remove name, fs => fsRemove name fs
  | write inode data offset, fs => some (fsWrite inode data offset fs)
  | truncate inode length, fs => some (fsTruncate inode length fs)

/-- The file system at the beginning of an operation that has allocated nothing yet. -/
def Fs.begun (fs : Fs) : Fs := { fs with allocs := [] }

/-- The states that operations lead to if each of them meets a condition on the state in
which it begins. -/
inductive Run (meets : Op → Fs → Prop) (start : Fs) : Fs → Prop where
  | start : Run meets start start
  | step {fs after : Fs} {status : FsStatus} (op : Op) :
      Run meets start fs → meets op fs → op.run fs.begun = some (status, after) →
        Run meets start after

/-- The file accessed is one of the 4096 inodes of the tables. -/
def Op.InodeInRange : Op → Prop
  | create _ | remove _ => True
  | write inode _ _ | truncate inode _ => inode < 4096

theorem Op.continues (op : Op) (inRange : op.InodeInRange) {fs after : Fs} {status : FsStatus}
    (ran : op.run fs.begun = some (status, after)) : Continues fs after := by
  have begun : Continues fs fs.begun := ⟨rfl, rfl, id⟩
  have prepared (page : Bytes) : Continues fs (fs.begun.allocated.prepared page) := ⟨rfl, rfl, id⟩
  cases op with
  | create name =>
      rcases fsCreate_cases ran with ⟨_, _, same⟩ | ⟨page, _, _, _, _, result⟩
      · obtain rfl : after = fs.begun.allocated := (Prod.ext_iff.mp same).2
        exact ⟨rfl, rfl, id⟩
      · rw [show after = (fsIncrement (fs.begun.allocated.prepared page)).2 by rw [← result]]
        exact (prepared page).trans (.increment _)
  | remove name =>
      rcases fsRemove_cases ran with ⟨_, _, same⟩ | ⟨page, _, _, inode, _, _, _, result⟩
      · obtain rfl : after = fs.begun.allocated := (Prod.ext_iff.mp same).2
        exact ⟨rfl, rfl, id⟩
      · have increment := Continues.increment (fs.begun.allocated.prepared page)
        have first := (prepared page).trans increment
        split at result
        · next middle incremented =>
            rw [incremented] at first
            have later := Continues.updateInodetable inode none middle
            rw [← result] at later
            exact first.trans later
        · rw [← result] at first
          exact first
  | write inode data offset =>
      obtain ⟨cells, steps⟩ := fsWrite_steps fs.begun data offset inRange
      rw [Option.some.inj ran] at steps
      exact begun.trans steps.continues
  | truncate inode length =>
      obtain ⟨cells, steps⟩ := fsTruncate_steps fs.begun length inRange
      rw [Option.some.inj ran] at steps
      exact begun.trans steps.continues

theorem Run.continues {meets : Op → Fs → Prop} {start fs : Fs}
    (inRange : ∀ op fs, meets op fs → op.InodeInRange) (run : Run meets start fs) :
    Continues start fs := by
  induction run with
  | start => exact .refl start
  | step op run meet ran ih => exact ih.trans (Op.continues op (inRange op _ meet) ran)

end Ethersex.Dataflash
