import Mathlib
import Ethersex.Dataflash.Fs

/-!
# Volumes

What the file system holds is determined by the flash and the root page: the root
page holds the directory and points to the inode tables, these point to the data
pages.  This module describes how the two copy-on-write steps change it, namely
programming a page that is not in use and switching to a new root page.
-/

namespace Ethersex.Dataflash

open Library

/-! ## Views of a volume -/

/-- The page of an inode table, as stored in the root page. -/
def tableOf (flash : Nat → Bytes) (root tableid : Nat) : Nat :=
  decode16 (readFrom 528 (8 + tableid * 2) (flash (root % 4096)))

/-- The inode table entry of an inode. -/
def entryOf (flash : Nat → Bytes) (root inode : Nat) : InodetableNode :=
  .decode (readFrom 528 (15 + inode % 256 * 2) (flash (tableOf flash root (inode / 256) % 4096)))

/-- The page of an inode. -/
def pageOf (flash : Nat → Bytes) (root inode : Nat) : Option Nat :=
  if (entryOf flash root inode).unused then none else some (entryOf flash root inode).page

/-- The contents of the page of an inode. -/
def dataOf (flash : Nat → Bytes) (root inode : Nat) : Option Bytes :=
  (pageOf flash root inode).map flash

theorem fsInodetable_eq (fs : Fs) (tableid : Nat) :
    fsInodetable fs tableid = tableOf fs.chip.flash fs.root tableid := rfl

theorem inodeNode_eq (fs : Fs) (inode : Nat) :
    inodeNode fs inode = entryOf fs.chip.flash fs.root inode := rfl

theorem fsPage_eq (fs : Fs) (inode : Nat) : fsPage fs inode = pageOf fs.chip.flash fs.root inode :=
  rfl

/-- The pages a volume needs: the root page, the inode tables, and the pages of
the inodes in question. -/
def Live (keep : Nat → Prop) (flash : Nat → Bytes) (root page : Nat) : Prop :=
  page = root % 4096 ∨ (∃ tableid < 16, page = tableOf flash root tableid % 4096) ∨
    ∃ inode < 4096, keep inode ∧ pageOf flash root inode = some page

/-- The root page and the inode tables. -/
abbrev Structural : (flash : Nat → Bytes) → (root page : Nat) → Prop := Live fun _ => False

theorem Structural.live {keep : Nat → Prop} {flash : Nat → Bytes} {root page : Nat}
    (structural : Structural flash root page) : Live keep flash root page := by
  rcases structural with rfl | table | ⟨_, _, impossible, _⟩
  · exact Or.inl rfl
  · exact Or.inr (Or.inl table)
  · exact impossible.elim

section Frame

variable {keep : Nat → Prop} {flash : Nat → Bytes} {root inode : Nat}

theorem pageOf_eq_some {page : Nat} :
    pageOf flash root inode = some page ↔
      (entryOf flash root inode).unused = false ∧ (entryOf flash root inode).page.val = page := by
  rw [pageOf]
  split <;> simp_all

theorem pageOf_lt {page : Nat} (found : pageOf flash root inode = some page) : page < 4096 := by
  rw [← (pageOf_eq_some.mp found).2]
  exact Fin.isLt _

/-- A page that is not live can be programmed without effect on the tables. -/
theorem entryOf_program {page : Nat} {content : Bytes} (notLive : ¬Live keep flash root page)
    (small : inode < 4096) :
    entryOf (Function.update flash page content) root inode = entryOf flash root inode := by
  have rootKept : root % 4096 ≠ page := fun equal => notLive (Or.inl equal.symm)
  have table (tableid : Nat) : tableOf (Function.update flash page content) root tableid =
      tableOf flash root tableid := by
    rw [tableOf, Function.update_of_ne rootKept, tableOf]
  have tableKept : tableOf flash root (inode / 256) % 4096 ≠ page := fun equal =>
    notLive (Or.inr (Or.inl ⟨inode / 256, by omega, equal.symm⟩))
  rw [entryOf, table, Function.update_of_ne tableKept, entryOf]

theorem tableOf_program {page : Nat} {content : Bytes} (notLive : ¬Live keep flash root page)
    (tableid : Nat) :
    tableOf (Function.update flash page content) root tableid = tableOf flash root tableid := by
  have rootKept : root % 4096 ≠ page := fun equal => notLive (Or.inl equal.symm)
  rw [tableOf, Function.update_of_ne rootKept, tableOf]

theorem pageOf_program {page : Nat} {content : Bytes} (notLive : ¬Live keep flash root page)
    (small : inode < 4096) :
    pageOf (Function.update flash page content) root inode = pageOf flash root inode := by
  rw [pageOf, entryOf_program notLive small, pageOf]

theorem dataOf_program {page : Nat} {content : Bytes} (notLive : ¬Live keep flash root page)
    (small : inode < 4096) (kept : keep inode) :
    dataOf (Function.update flash page content) root inode = dataOf flash root inode := by
  rw [dataOf, pageOf_program notLive small, dataOf]
  cases found : pageOf flash root inode with
  | none => rfl
  | some other =>
      have apart : other ≠ page := by
        rintro rfl
        exact notLive (Or.inr (Or.inr ⟨inode, small, kept, found⟩))
      rw [Option.map_some, Option.map_some, Function.update_of_ne apart]

/-- Programming a page other than the root page and the tables changes what is in it
only. -/
theorem live_program {page : Nat} {content : Bytes} (notStructural : ¬Structural flash root page)
    (other : Nat) :
    Live keep (Function.update flash page content) root other ↔ Live keep flash root other := by
  rw [Live, Live]
  refine or_congr Iff.rfl (or_congr ?_ ?_)
  · simp only [tableOf_program notStructural]
  · refine exists_congr fun inode => and_congr_right fun small => ?_
    rw [pageOf_program notStructural small]

/-- A page that only one inode points to. -/
theorem dataOf_program_of_owner {page owner : Nat} {content : Bytes}
    (notStructural : ¬Structural flash root page) (small : inode < 4096)
    (owned : pageOf flash root inode = some page → inode = owner)
    (owns : pageOf flash root owner = some page) :
    dataOf (Function.update flash page content) root inode =
      if inode = owner then some content else dataOf flash root inode := by
  rw [dataOf, pageOf_program notStructural small, dataOf]
  split
  · next same => rw [same, owns, Option.map_some, Function.update_self]
  · next different =>
      cases found : pageOf flash root inode with
      | none => rfl
      | some other =>
          have apart : other ≠ page := by
            rintro rfl
            exact different (owned found)
          rw [Option.map_some, Option.map_some, Function.update_of_ne apart]

end Frame

/-! ## A new root page -/

/-- The checksum of a page. -/
def pageCrc (page : Bytes) : UInt8 := fsCrc ⟨fun _ => page, page, page, []⟩ .buf1 0 0 527

/-- What `fs_increment` makes of the page in `BUF1`. -/
def sealRoot (version : Nat) (page : Bytes) : Bytes :=
  let page := overlay 528 0 40 (overlay 40 4 4 (encode32 version) (readFrom 528 0 page)) page
  overlay 528 527 1 (fun _ => pageCrc page) page

theorem fsCrc_congr {left right : Chip} {crc : UInt8} {offset length : Nat}
    (agree : ∀ k < offset + length, left.buf1 k = right.buf1 k) (fits : offset + length ≤ 528) :
    fsCrc left .buf1 crc offset length = fsCrc right .buf1 crc offset length := by
  induction length generalizing crc offset with
  | zero => rfl
  | succ length ih =>
      have first : dfBufRead left .buf1 offset 0 = dfBufRead right .buf1 offset 0 := by
        simp only [dfBufRead, Chip.buffer, dfPagesize]
        rw [readFrom_apply (by omega), readFrom_apply (by omega), agree _ (by omega)]
      rw [fsCrc, fsCrc, first]
      exact ih (fun k small => agree k (by omega)) (by omega)

theorem pageCrc_congr {left right : Bytes} (agree : AgreeTo 527 left right) :
    pageCrc left = pageCrc right :=
  fsCrc_congr (fun k small => agree k (by omega)) (by decide)

theorem sealRoot_apply (version : Nat) (page : Bytes) {k : Nat} (small : k < 527) :
    sealRoot version page k = if 4 ≤ k ∧ k < 8 then encode32 version (k - 4) else page k := by
  simp only [sealRoot]
  rw [overlay_of_lt (by decide) small, overlay_apply (by decide)]
  by_cases header : k < 40
  · rw [if_pos (by omega), overlay_apply (by decide), Nat.sub_zero]
    by_cases field : 4 ≤ k ∧ k < 8
    · rw [if_pos (by omega), if_pos field]
    · rw [if_neg (by omega), if_neg field, readFrom_apply (by omega), Nat.zero_add]
  · rw [if_neg (by omega), if_neg (by omega)]

/-- Sealing changes the version and the checksum only. -/
theorem sealRoot_of_ne (version : Nat) (page : Bytes) {k : Nat} (small : k < 527)
    (outside : k < 4 ∨ 8 ≤ k) : sealRoot version page k = page k := by
  rw [sealRoot_apply version page small, if_neg (by omega)]

theorem sealRoot_crc (version : Nat) (page : Bytes) :
    sealRoot version page 527 = pageCrc (sealRoot version page) := by
  simp only [sealRoot]
  rw [overlay_apply (by decide), if_pos (by decide)]
  refine pageCrc_congr fun k small => ?_
  rw [overlay_of_lt (by decide) small]

theorem sealRoot_version {version : Nat} (page : Bytes) (small : version < 2 ^ 32) :
    decode32 (readFrom 528 4 (sealRoot version page)) = version := by
  rw [@decode32_congr _ (encode32 version), decode32_encode32 small]
  intro k inside
  rw [readFrom_apply (by omega), sealRoot_apply version page (by omega), if_pos (by omega),
    Nat.add_sub_cancel_left]

/-- Reading a part of a sealed page that is not affected. -/
theorem readFrom_sealRoot (version : Nat) (page : Bytes) (offset length : Nat)
    (fits : offset + length ≤ 527) (outside : offset + length ≤ 4 ∨ 8 ≤ offset) :
    AgreeTo length (readFrom 528 offset (sealRoot version page)) (readFrom 528 offset page) := by
  intro k small
  rw [readFrom_apply (by omega), readFrom_apply (by omega),
    sealRoot_of_ne version page (by omega) (by omega)]

/-- The effect of `fs_increment` on the page in `BUF1`. -/
theorem increment_buffer (chip : Chip) (version : Nat) :
    writeCrc (dfBufWrite .buf1
      (overlay sizeofRoot versionOffset 4 (encode32 version) (dfBufRead chip .buf1 fsStructureOffset))
      fsStructureOffset sizeofRoot chip) = { chip with buf1 := sealRoot version chip.buf1 } := by
  have crc (page : Bytes) : fsCrc { chip with buf1 := page } .buf1 0 0 527 = pageCrc page :=
    fsCrc_congr (fun _ _ => rfl) (by decide)
  simp only [writeCrc, dfBufWrite, dfBufRead, Chip.setBuffer, Chip.buffer, sealRoot, sizeofRoot,
    versionOffset, fsStructureOffset, fsCrcOffset, fsCrcLength, dfPagesize, Nat.reduceSub, crc]

/-! ## Moving the root page -/

section Moved

variable {keep : Nat → Prop} {flash : Nat → Bytes} {root newRoot : Nat} {content : Bytes}

/-- A root page with the same inode tables. -/
def SameTables (left right : Bytes) : Prop := ∀ k, 8 ≤ k → k < 40 → left k = right k

theorem tableOf_moved (tables : SameTables content (flash (root % 4096)))
    (newRootIn : newRoot < 4096) {tableid : Nat} (tableidIn : tableid < 16) :
    tableOf (Function.update flash newRoot content) newRoot tableid = tableOf flash root tableid := by
  rw [tableOf, Nat.mod_eq_of_lt newRootIn, Function.update_self, tableOf]
  refine decode16_congr fun k small => ?_
  rw [readFrom_apply (by omega), readFrom_apply (by omega), tables _ (by omega) (by omega)]

theorem entryOf_moved (tables : SameTables content (flash (root % 4096)))
    (newRootIn : newRoot < 4096) (fresh : ¬Live keep flash root newRoot) {inode : Nat}
    (small : inode < 4096) :
    entryOf (Function.update flash newRoot content) newRoot inode = entryOf flash root inode := by
  rw [entryOf, tableOf_moved tables newRootIn (by omega), Function.update_of_ne, entryOf]
  intro equal
  exact fresh (Or.inr (Or.inl ⟨inode / 256, by omega, equal.symm⟩))

theorem pageOf_moved (tables : SameTables content (flash (root % 4096)))
    (newRootIn : newRoot < 4096) (fresh : ¬Live keep flash root newRoot) {inode : Nat}
    (small : inode < 4096) :
    pageOf (Function.update flash newRoot content) newRoot inode = pageOf flash root inode := by
  rw [pageOf, entryOf_moved tables newRootIn fresh small, pageOf]

theorem dataOf_moved (tables : SameTables content (flash (root % 4096)))
    (newRootIn : newRoot < 4096) (fresh : ¬Live keep flash root newRoot) {inode : Nat}
    (small : inode < 4096) (kept : keep inode) :
    dataOf (Function.update flash newRoot content) newRoot inode = dataOf flash root inode := by
  rw [dataOf, pageOf_moved tables newRootIn fresh small, dataOf]
  cases found : pageOf flash root inode with
  | none => rfl
  | some page =>
      have apart : page ≠ newRoot := by
        rintro rfl
        exact fresh (Or.inr (Or.inr ⟨inode, small, kept, found⟩))
      rw [Option.map_some, Option.map_some, Function.update_of_ne apart]

theorem live_moved (tables : SameTables content (flash (root % 4096)))
    (newRootIn : newRoot < 4096) (fresh : ¬Live keep flash root newRoot) {page : Nat}
    (live : Live keep (Function.update flash newRoot content) newRoot page) :
    Live keep flash root page ∨ page = newRoot := by
  rcases live with rfl | ⟨tableid, tableidIn, rfl⟩ | ⟨inode, small, kept, found⟩
  · exact Or.inr (Nat.mod_eq_of_lt newRootIn)
  · rw [tableOf_moved tables newRootIn tableidIn]
    exact Or.inl (Or.inr (Or.inl ⟨tableid, tableidIn, rfl⟩))
  · rw [pageOf_moved tables newRootIn fresh small] at found
    exact Or.inl (Or.inr (Or.inr ⟨inode, small, kept, found⟩))

end Moved

/-! ## Changing an inode -/

/-- The inode table of an inode with a new entry for it. -/
def tableWith (flash : Nat → Bytes) (root inode : Nat) (node : InodetableNode) : Bytes :=
  overlay 528 (15 + inode % 256 * 2) 2 node.encode (flash (tableOf flash root (inode / 256) % 4096))

/-- The root page with a new page for the table of an inode. -/
def rootWith (page : Bytes) (inode table : Nat) : Bytes :=
  overlay 528 (8 + inode / 256 * 2) 2 (encode16 table) page

section Switch

variable {keep : Nat → Prop} {flash : Nat → Bytes} {root inode table newRoot version : Nat}
  {node : InodetableNode}

/-- The flash after `fs_update_inodetable`. -/
def switched (flash : Nat → Bytes) (root inode : Nat) (node : InodetableNode)
    (table newRoot version : Nat) : Nat → Bytes :=
  Function.update (Function.update flash table (tableWith flash root inode node)) newRoot
    (sealRoot version (rootWith (flash (root % 4096)) inode table))

theorem tableOf_switched (small : inode < 4096) (newRootIn : newRoot < 4096)
    (tableIn : table < 4096) {tableid : Nat} (tableidIn : tableid < 16) :
    tableOf (switched flash root inode node table newRoot version) newRoot tableid =
      if tableid = inode / 256 then table else tableOf flash root tableid := by
  rw [tableOf, Nat.mod_eq_of_lt newRootIn, switched, Function.update_self,
    decode16_congr (readFrom_sealRoot version _ _ 2 (by omega) (by omega)), rootWith]
  split
  · next same =>
      subst same
      rw [decode16_congr (readFrom_overlay (by omega)), decode16_encode16 (by omega)]
  · next other =>
      rw [decode16_congr (readFrom_overlay_of_disjoint (by omega) (by omega) (by omega)), tableOf]

/-- The entry of the inode changes, all others stay. -/
theorem entryOf_switched (small : inode < 4096) (newRootIn : newRoot < 4096)
    (tableIn : table < 4096) (tableFresh : ¬Live keep flash root table)
    (rootFresh : ¬Live keep flash root newRoot) (apart : table ≠ newRoot) {other : Nat}
    (otherIn : other < 4096) :
    entryOf (switched flash root inode node table newRoot version) newRoot other =
      if other = inode then node else entryOf flash root other := by
  rw [entryOf, tableOf_switched small newRootIn tableIn (by omega)]
  by_cases sameTable : other / 256 = inode / 256
  · rw [if_pos sameTable, Nat.mod_eq_of_lt tableIn, switched, Function.update_of_ne apart,
      Function.update_self, tableWith]
    by_cases same : other = inode
    · rw [if_pos same, same, InodetableNode.decode_congr (readFrom_overlay (by omega)),
        InodetableNode.decode_encode]
    · rw [if_neg same, InodetableNode.decode_congr
        (readFrom_overlay_of_disjoint (by omega) (by omega) (by omega)), entryOf, sameTable]
  · have tableLive : Live keep flash root (tableOf flash root (other / 256) % 4096) :=
      Or.inr (Or.inl ⟨other / 256, by omega, rfl⟩)
    have notRoot : tableOf flash root (other / 256) % 4096 ≠ newRoot := by
      intro equal
      exact rootFresh (equal ▸ tableLive)
    have notTable : tableOf flash root (other / 256) % 4096 ≠ table := by
      intro equal
      exact tableFresh (equal ▸ tableLive)
    rw [if_neg sameTable, if_neg (by rintro rfl; exact sameTable rfl), switched,
      Function.update_of_ne notRoot, Function.update_of_ne notTable, entryOf]

/-- The page of an entry that is written for an inode. -/
def nodePage (node : InodetableNode) : Option Nat :=
  if node.unused then none else some node.page

theorem pageOf_switched (small : inode < 4096) (newRootIn : newRoot < 4096)
    (tableIn : table < 4096) (tableFresh : ¬Live keep flash root table)
    (rootFresh : ¬Live keep flash root newRoot) (apart : table ≠ newRoot) {other : Nat}
    (otherIn : other < 4096) :
    pageOf (switched flash root inode node table newRoot version) newRoot other =
      if other = inode then nodePage node else pageOf flash root other := by
  rw [pageOf, entryOf_switched small newRootIn tableIn tableFresh rootFresh apart otherIn]
  split
  · rfl
  · rw [pageOf]

/-- Only the new pages become live. -/
theorem live_switched (small : inode < 4096) (newRootIn : newRoot < 4096)
    (tableIn : table < 4096) (tableFresh : ¬Live keep flash root table)
    (rootFresh : ¬Live keep flash root newRoot) (apart : table ≠ newRoot) {page : Nat}
    (live : Live keep (switched flash root inode node table newRoot version) newRoot page) :
    page = newRoot ∨ page = table ∨ (keep inode ∧ nodePage node = some page) ∨
      Live keep flash root page := by
  rcases live with rfl | ⟨tableid, tableidIn, rfl⟩ | ⟨other, otherIn, kept, found⟩
  · exact Or.inl (Nat.mod_eq_of_lt newRootIn)
  · rw [tableOf_switched small newRootIn tableIn tableidIn]
    split
    · exact Or.inr (Or.inl (Nat.mod_eq_of_lt tableIn))
    · exact Or.inr (Or.inr (Or.inr (Or.inr (Or.inl ⟨tableid, tableidIn, rfl⟩))))
  · rw [pageOf_switched small newRootIn tableIn tableFresh rootFresh apart otherIn] at found
    split at found
    · next same => exact Or.inr (Or.inr (Or.inl ⟨same ▸ kept, found⟩))
    · exact Or.inr (Or.inr (Or.inr (Or.inr (Or.inr ⟨other, otherIn, kept, found⟩))))

/-- The data of the other inodes stays. -/
theorem dataOf_switched (small : inode < 4096) (newRootIn : newRoot < 4096)
    (tableIn : table < 4096) (tableFresh : ¬Live keep flash root table)
    (rootFresh : ¬Live keep flash root newRoot) (apart : table ≠ newRoot) {other : Nat}
    (otherIn : other < 4096) (kept : keep other) (different : other ≠ inode) :
    dataOf (switched flash root inode node table newRoot version) newRoot other =
      dataOf flash root other := by
  rw [dataOf, pageOf_switched small newRootIn tableIn tableFresh rootFresh apart otherIn,
    if_neg different, dataOf]
  cases found : pageOf flash root other with
  | none => rfl
  | some page =>
      have live : Live keep flash root page := Or.inr (Or.inr ⟨other, otherIn, kept, found⟩)
      have notRoot : page ≠ newRoot := by
        rintro rfl
        exact rootFresh live
      have notTable : page ≠ table := by
        rintro rfl
        exact tableFresh live
      rw [Option.map_some, Option.map_some, switched, Function.update_of_ne notRoot,
        Function.update_of_ne notTable]

end Switch

end Ethersex.Dataflash
