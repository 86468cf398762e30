import Mathlib
import Ethersex.Dataflash.Filling
import Ethersex.Vfs.Seek

/-!
# Reading files from the beginning to the end

`fs_size` adds up the sizes of the pages of a file; `vfs_df_read` divides the offset by the size of a full page.
They agree on chains of full pages that end.  The calls that change files keep all chains so, except that
removing a file cuts those that lead to its inode.
-/

namespace Ethersex.Vfs

open Dataflash Library

/-! ## The calls -/

/-- `vfs_df_read`, for an offset that is not negative: what it returns, the handle and the memory. -/
def vfsDfRead (steps : Nat) (fs : Fs) (handle : DfHandle) (memory : Bytes) (length : Nat) :
    Option (Nat × DfHandle × Bytes) :=
  (fsRead fs steps handle.inode memory handle.offset.toNat length).map fun result =>
    let ret := vfsSize result.1
    (ret, if ret > 0 then { handle with offset := fsSizeT (handle.offset + ret) } else handle, result.2)

/-- Reads of the given sizes, one after the other, until one of them returns 0: what the others have
returned altogether.  `none` if none of them does. -/
def readToEnd (steps : Nat) (fs : Fs) : (lengths : List Nat) → DfHandle → Bytes → Option Nat
  | [], _, _ => none
  | length :: lengths, handle, memory =>
      match vfsDfRead steps fs handle memory length with
      | none => none
      | some (0, _, _) => some 0
      | some (ret, handle, memory) => (readToEnd steps fs lengths handle memory).map (ret + ·)

/-- Following `next_inode` from an inode to a page with `eof`, over pages of size 512. -/
inductive Follows (fs : Fs) : Nat → List Nat → Prop where
  | last {inode page : Nat} :
      fsPage fs inode = some page → (readPage fs page).eof = true → Follows fs inode [inode]
  | link {inode page : Nat} {inodes : List Nat} :
      fsPage fs inode = some page → (readPage fs page).eof = false →
        ((readPage fs page).size : Nat) = 512 → Follows fs (readPage fs page).nextInode inodes →
          Follows fs inode (inode :: inodes)

/-- The chain of a file ends without coming back to an inode, and `fs_size` is what the reads deliver. -/
structure WellChained (fs : Fs) (inode : Nat) : Prop where
  chain : ∃ inodes, Follows fs inode inodes ∧ inodes.Nodup
  size : ∃ size : Nat,
    ((fs.heap fs.mallocs).isSome → ∀ steps ≥ 4096, ∃ after, fsSize steps inode fs = some ((size : Int), after)) ∧
    ∀ steps ≥ 4096, ∀ lengths memory, (∀ length ∈ lengths, 0 < length ∧ length < 2 ^ 31) →
      (∀ total, readToEnd steps fs lengths ⟨inode, 0⟩ memory = some total → total = size) ∧
        (size < lengths.length → (readToEnd steps fs lengths ⟨inode, 0⟩ memory).isSome)

/-! ## Files -/

section Files

variable {fs : Fs} {inode steps : Nat} {inodes : List Nat} {content : List UInt8}

theorem Follows.of_file (file : FileAt fsDatasize fs.extents inode inodes) : Follows fs inode inodes := by
  induction file with
  | last held ends _ =>
      obtain ⟨-, page, found, -⟩ := Fs.extents_eq_some.mp held
      refine .last found ?_
      rw [Fs.eof_of_page held found, ends, Option.isNone_none]
  | link held names full _ ih =>
      obtain ⟨-, page, found, -⟩ := Fs.extents_eq_some.mp held
      refine .link found ?_ ?_ ?_
      · rw [Fs.eof_of_page held found, names, Option.isNone_some]
      · rw [Fs.size_of_page held found, full]
        rfl
      · rw [Fs.next_of_page held found names]
        exact ih

/-- A file fits into the inodes there are. -/
theorem length_content_le (contents : fs.Contents inode inodes content) : content.length ≤ 512 * 4096 := by
  cases contents with
  | unwritten => exact Nat.zero_le _
  | written file =>
      exact file.length_fileData_le.trans (Nat.mul_le_mul_left 512 (length_inodes_le file))

/-- What `fs_read` returns. -/
theorem fsRead_value (contents : fs.Contents inode inodes content) (enough : 4096 ≤ steps) {length : Nat}
    (positive : 0 < length) (offset : Nat) (memory : Bytes) :
    ∃ after, fsRead fs steps inode memory offset length =
      some (((min length (content.length - offset) : Nat) : Int), after) := by
  obtain ⟨exactly, beyond⟩ := @contents.read _ _ _ offset _ _ _ enough positive
  by_cases overruns : Overruns content offset length
  · obtain ⟨page, result⟩ := beyond overruns
    have inside := overruns.2
    rw [Nat.min_eq_left (show length ≤ content.length - offset by omega)]
    exact ⟨_, result memory⟩
  · rw [← List.length_drop, ← List.length_take]
    exact ⟨_, exactly overruns memory⟩

/-- `vfs_df_read` returns as many bytes, and advances by as many. -/
theorem vfsDfRead_eq (contents : fs.Contents inode inodes content) (enough : 4096 ≤ steps) {length : Nat}
    (positive : 0 < length) {offset : Nat} (inside : offset ≤ content.length) (memory : Bytes) :
    ∃ after, vfsDfRead steps fs ⟨inode, offset⟩ memory length =
      some (min length (content.length - offset),
        ⟨inode, ((offset + min length (content.length - offset) : Nat) : Int)⟩, after) := by
  obtain ⟨after, result⟩ := fsRead_value contents enough positive offset memory
  have bound := length_content_le contents
  refine ⟨after, ?_⟩
  have ret : vfsSize ((min length (content.length - offset) : Nat) : Int) = min length (content.length - offset) := by
    rw [vfsSize, Int.emod_eq_of_lt (by omega) (by omega), Int.toNat_natCast]
  rw [vfsDfRead, Int.toNat_natCast, result, Option.map_some]
  dsimp only
  rw [ret]
  split_ifs with reads
  · rw [fsSizeT_of_small (by omega) (by omega), Nat.cast_add]
  · rw [show min length (content.length - offset) = 0 by omega, Nat.add_zero]

/-- Reads from an offset on either do not come to the end of the file, or deliver all that is left of it. -/
theorem readToEnd_cases (contents : fs.Contents inode inodes content) (enough : 4096 ≤ steps)
    {lengths : List Nat} (positive : ∀ length ∈ lengths, 0 < length) {offset : Nat}
    (inside : offset ≤ content.length) (memory : Bytes) :
    readToEnd steps fs lengths ⟨inode, offset⟩ memory = some (content.length - offset) ∨
      (readToEnd steps fs lengths ⟨inode, offset⟩ memory = none ∧
        lengths.length ≤ content.length - offset) := by
  induction lengths generalizing offset memory with
  | nil => exact .inr ⟨rfl, Nat.zero_le _⟩
  | cons length lengths ih =>
      rw [List.forall_mem_cons] at positive
      obtain ⟨after, result⟩ := vfsDfRead_eq contents enough positive.1 inside memory
      rw [readToEnd, result]
      cases delivered : min length (content.length - offset) with
      | zero =>
          refine .inl ?_
          simp only
          rw [show content.length - offset = 0 by omega]
      | succ ret =>
          simp only
          rcases @ih positive.2 (offset + (ret + 1)) (by omega) after with total | ⟨short, few⟩
          · refine .inl ?_
            rw [total, Option.map_some, show ret + 1 + (content.length - (offset + (ret + 1))) =
              content.length - offset by omega]
          · refine .inr ⟨?_, ?_⟩
            · rw [short, Option.map_none]
            · rw [List.length_cons]
              omega

/-- A file is well chained. -/
theorem WellChained.of_file (file : FileAt fsDatasize fs.extents inode inodes) : WellChained fs inode where
  chain := ⟨inodes, .of_file file, file.nodup⟩
  size := by
    have contents : fs.Contents inode inodes (fileData fs.extents inodes) := .written file
    refine ⟨(fileData fs.extents inodes).length, fun memory steps enough => ⟨_, contents.size enough memory⟩,
      fun steps enough lengths memory positive => ?_⟩
    have total := readToEnd_cases contents enough (fun length member => (positive length member).1)
      (Nat.zero_le _) memory
    rw [Nat.sub_zero, Nat.cast_zero] at total
    refine ⟨fun sum reached => ?_, fun many => ?_⟩
    · rcases total with all | ⟨short, -⟩
      · exact Option.some.inj (reached.symm.trans all)
      · exact absurd (reached.symm.trans short) (by simp)
    · rcases total with all | ⟨-, few⟩
      · rw [all]
        rfl
      · omega

/-- An inode in use that is proper begins a file. -/
theorem WellChained.of_proper (proper : fs.Proper inode) (used : (fsPage fs inode).isSome) :
    WellChained fs inode := by
  obtain ⟨inodes, content, contents⟩ := proper
  cases contents with
  | unwritten unused =>
      rw [unused] at used
      exact absurd used Bool.false_ne_true
  | written file => exact .of_file file

end Files

/-! ## The result -/

/-- In every run from a blank device in which each call meets the condition and returns `FS_OK`, the chains of
all files with pages end, and `fs_size` is what reading delivers. -/
theorem files_wellChained {chip : Chip} {heap : Nat → Option Bytes} {start fs : Fs} (blank : chip.Blank)
    (started : fsInit chip heap = some (.ok, start)) (served : Served Op.KeepsChains start fs) {index : Nat}
    (listed : fs.Listed index) (used : (fsPage fs (readNode fs index).inode).isSome) :
    WellChained fs (readNode fs index).inode := by
  obtain ⟨entries, sound⟩ := served.sound blank started
  obtain ⟨read, -⟩ := sound.holds.readNode (List.getElem?_eq_getElem (listed.inside sound.holds))
  rw [read] at used ⊢
  exact .of_proper (sound.proper _ (List.getElem_mem (listed.inside sound.holds))) used

theorem files_wellChained_twoPages :
    ∃ start fs, fsInit erasedChip zeroHeap = some (.ok, start) ∧ Served Op.KeepsChains start fs ∧
      fs.Listed 0 ∧ WellChained fs (readNode fs 0).inode := by
  obtain ⟨start, fs, node, started, served, pages⟩ := exists_twoPages
  have listed : fs.Listed 0 := .of_lt pages.holds Nat.one_pos
  obtain ⟨page, found⟩ := exists_page pages.file
  have used : (fsPage fs (readNode fs 0).inode).isSome := by
    rw [(pages.holds.readNode rfl).1, pages.inode, found]
    rfl
  exact ⟨start, fs, started, served, listed, files_wellChained (fun _ _ => rfl) started served listed used⟩

/-! ## A chain that is cut -/

/-- No chain goes through an inode that is not in use. -/
theorem not_follows_of_cut {fs : Fs} {inode next : Nat} {extent : Extent Nat UInt8} {inodes : List Nat}
    (held : fs.extents inode = some extent) (names : extent.next = some next) (cut : fsPage fs next = none) :
    ¬Follows fs inode inodes := by
  intro follows
  cases follows with
  | last found ends =>
      rw [Fs.eof_of_page held found, names, Option.isNone_some] at ends
      exact absurd ends Bool.false_ne_true
  | link found _ _ later =>
      rw [Fs.next_of_page held found names] at later
      cases later with
      | last found => exact absurd (cut.symm.trans found) (by simp)
      | link found => exact absurd (cut.symm.trans found) (by simp)

/-- A second file is created while the first one has one page.  Then the first one grows, and its second page
gets the inode of the second file, which is removed. -/
theorem removed_file_cuts_chain :
    ∃ start fs index, fsInit erasedChip zeroHeap = some (.ok, start) ∧ Served (fun _ _ => True) start fs ∧
      fs.Listed index ∧ (fsPage fs (readNode fs index).inode).isSome ∧
      ¬WellChained fs (readNode fs index).inode := by
  obtain ⟨start, started, boots⟩ :=
    fsInit_boots erasedChip zeroHeap (fun _ _ => rfl) rfl rfl rfl rfl rfl
  have erased : nodePage (InodetableNode.decode fun k => erasedChip.buf1 (525 + k)) = none := by decide
  have filling := boots.filling erased fun _ => rfl
  have pages := boots.pages erased
  have new : ((field12 (fsNewInode start) : Fin 4096) : Nat) = 0 := by
    rw [fsNewInode_of_first (Nat.succ_pos 4095) (by rw [pages]) fun k before => absurd before (Nat.not_lt_zero k)]
    rfl
  -- The first file, with one byte under inode 0.
  obtain ⟨-, -, first, index, node, created, filling, same, inside, text, inode, holds⟩ :=
    filling.created [97] (by decide) boots.holds (by simp) (Nat.zero_le 59)
  rw [← inode] at new
  obtain rfl : index = 0 := Nat.le_zero.mp inside
  have unused : fsPage first 0 = none := by
    rw [← Fs.pages_eq_none (Nat.succ_pos 4095), same, pages]
  obtain ⟨-, second, written, filling, holds, rewrites⟩ := filling.written [0]
    (.unwritten unused) (Nat.succ_pos 4095) holds (by decide) (Nat.le_add_left 1 _)
  have file : FileAt fsDatasize second.extents 0 [0] := rewrites.file
  have others (other : Nat) (different : other ≠ 0) : second.pages other = none :=
    (rewrites.frame other different List.not_mem_nil).trans ((congrFun same other).trans (congrFun pages other))
  have used : second.pages 0 ≠ none := used_of_file file List.mem_cons_self
  -- The second file, which gets inode 1.
  obtain ⟨-, -, third, index, node', created', filling, same', inside, text', inode', holds⟩ :=
    filling.created [99] (by decide) holds (by
      rw [List.insertIdx_zero, List.map_singleton, text]
      decide) (by simp)
  have new' : (node'.inode : Nat) = 1 := by
    rw [inode', @fsNewInode_of_first _ 1 (by decide) (others 1 (by decide)) fun k before => ?_]
    · rfl
    · rw [Nat.lt_one_iff.mp before]
      exact used
  have contents := (Fs.Contents.written file).congr (Nat.succ_pos 4095) same'
  have spare : (third.spare 0).take 1 = [1] :=
    Fs.spare_take_one (by decide) ((congrFun same' 1).trans (others 1 (by decide))) (by decide)
      fun k before _ => Nat.lt_one_iff.mp before
  -- The first file grows.
  have two : pagesFor 0 (List.replicate 600 (0 : UInt8)).length = 2 := by
    rw [List.length_replicate]
    rfl
  have enough : 2 ≤ (third.spare 0).length + 1 := by
    have length := congrArg List.length spare
    rw [List.length_take, List.length_singleton] at length
    omega
  obtain ⟨-, fourth, written', filling, holds, rewrites⟩ := filling.written
    (List.replicate 600 0) contents (Nat.succ_pos 4095) holds (by rw [two]; decide)
    (by rw [two]; exact enough)
  rw [two, spare] at rewrites
  have grown : FileAt fsDatasize fourth.extents 0 [0, 1] := rewrites.file
  -- The second file is removed, and its inode given up.
  have present : stored [99] ∈ ((([] : List FsNode).insertIdx 0 node).insertIdx index node').map FsNode.text :=
    List.mem_map.mpr ⟨node', (List.mem_insertIdx inside).mpr (.inl rfl), text'⟩
  obtain ⟨last, place, entry, removed, -, is, entryText, pages', holds'⟩ :=
    filling.removed (by rw [two]; decide) holds present
  have member : node ∈ (([] : List FsNode).insertIdx 0 node).insertIdx index node' :=
    (List.mem_insertIdx inside).mpr (.inr List.mem_cons_self)
  have other : node.text ≠ entry.text := by
    rw [text, entryText]
    decide
  have gone : entry = node' := by
    rcases (List.mem_insertIdx inside).mp (List.mem_of_getElem? is) with new | old
    · exact new
    · rw [List.insertIdx_zero, List.mem_singleton] at old
      exact absurd (congrArg FsNode.text old).symm other
  rw [gone, new'] at pages'
  obtain ⟨position, bound, here⟩ := List.getElem_of_mem member
  have kept : node ∈ ((([] : List FsNode).insertIdx 0 node).insertIdx index node').eraseIdx place := by
    refine List.mem_eraseIdx_iff_getElem.mpr ⟨position, bound, ?_, here⟩
    rintro rfl
    rw [List.getElem?_eq_getElem bound, here] at is
    exact other (congrArg FsNode.text (Option.some.inj is))
  obtain ⟨position, bound, here⟩ := List.getElem_of_mem kept
  have read : ((readNode last position).inode : Nat) = 0 := by
    rw [(holds'.readNode (List.getElem?_eq_getElem bound)).1, here, new]
  have served : Served (fun _ _ => True) start last :=
    ((((Served.start.step _ trivial created).step _ trivial written).step _ trivial created').step _ trivial
      written').step _ trivial removed
  have cut : fsPage last 1 = none := by
    rw [← Fs.pages_eq_none (by decide), pages', Function.update_self]
  have held : last.extents 0 = fourth.extents 0 := by
    rw [Fs.extents, Fs.extents, pages', Function.update_of_ne (by decide)]
  refine ⟨start, last, position, started, served, .of_lt holds' bound, ?_, ?_⟩
  · rw [read, Option.isSome_iff_ne_none, ne_eq, ← Fs.pages_eq_none (Nat.succ_pos 4095), pages',
      Function.update_of_ne (by decide)]
    exact used_of_file grown List.mem_cons_self
  · rw [read]
    rintro ⟨⟨inodes, follows, -⟩, -⟩
    cases grown with
    | link found names _ later =>
        obtain ⟨rest, same⟩ := later.eq_cons
        obtain rfl := (List.cons.inj same).1
        exact not_follows_of_cut (held.trans found) names cut follows

end Ethersex.Vfs
