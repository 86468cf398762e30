import Mathlib
import Ethersex.Dataflash.Filling

/-!
# What reading and truncating a file should do

`fs_read` should deliver what is in the file from the offset on, as much of it as fits, and touch nothing else.
`fs_truncate` should leave the first bytes of the file, and all other files alone.  Both have a slip: a read
within one page copies as many bytes too many as the offset in the page is, and a length that fills a page
is taken for the length of the file.
-/

namespace Ethersex.Dataflash

open Library

/-! ## Reading -/

/-- A read of a part of the content into memory. -/
structure ReadsExactly (content : List UInt8) (offset length : Nat) (memory : Bytes) (ret : Int)
    (after : Bytes) : Prop where
  value : ret = ((min length (content.length - offset) : Nat) : Int)
  bytes : ∀ k < min length (content.length - offset), content[offset + k]? = some (after k)
  frame : ∀ k ≥ min length (content.length - offset), after k = memory k

section Read

variable {fs : Fs} {inode steps offset length : Nat} {inodes : List Nat} {content : List UInt8}

theorem readsExactly_deliver (content : List UInt8) (offset length : Nat) (memory : Bytes) :
    ReadsExactly content offset length memory (((content.drop offset).take length).length : Int)
      (deliver ((content.drop offset).take length) 0 memory) := by
  have size : ((content.drop offset).take length).length = min length (content.length - offset) := by
    rw [List.length_take, List.length_drop]
  refine ⟨by rw [size], fun k inside => ?_, fun k outside => ?_⟩
  · rw [deliver, if_pos (Nat.zero_le k), Nat.sub_zero, List.getD_eq_getElem _ _ (by omega), List.getElem_take,
      List.getElem_drop, List.getElem?_eq_getElem]
  · rw [deliver, if_pos (Nat.zero_le k), Nat.sub_zero, List.getD_eq_default _ _ (by omega)]

/-- A read that overruns overwrites the byte behind those that were asked for, with the same value whatever it
was. -/
theorem Overruns.not_exact (overruns : Overruns content offset length)
    (contents : fs.Contents inode inodes content) (enough : 4096 ≤ steps) (positive : 0 < length) :
    ¬∀ memory, ∃ ret after, fsRead fs steps inode memory offset length = some (ret, after) ∧
      ReadsExactly content offset length memory ret after := by
  intro reads
  obtain ⟨page, copies⟩ := (contents.read enough positive).2 overruns
  have unaligned := overruns.1
  have inside := overruns.2
  obtain ⟨ret, after, result, exactly⟩ := reads fun _ =>
    dfFlashRead fs.chip page (fsDataOffset + offset % 512) length + 1
  have copied := (Prod.mk.inj (Option.some.inj ((copies _).symm.trans result))).2
  have same := exactly.frame length (by omega)
  rw [← copied, copyOut, if_pos ⟨Nat.zero_le _, by omega⟩, Nat.sub_zero] at same
  exact absurd same (by simp)

/-- `fs_read` reads exactly if and only if it begins at the start of a page, or does not end in the page, and in
the file, in which it begins. -/
theorem fsRead_exact_iff (contents : fs.Contents inode inodes content) (enough : 4096 ≤ steps)
    (positive : 0 < length) :
    (∀ memory, ∃ ret after, fsRead fs steps inode memory offset length = some (ret, after) ∧
      ReadsExactly content offset length memory ret after) ↔
      offset % 512 = 0 ∨ min content.length (512 * (offset / 512 + 1)) < offset + length := by
  have fits : (offset % 512 = 0 ∨ min content.length (512 * (offset / 512 + 1)) < offset + length) ↔
      ¬Overruns content offset length := by
    rw [Overruns, not_and_or, not_not, Nat.not_le]
  rw [fits]
  constructor
  · intro exactly overruns
    exact overruns.not_exact contents enough positive exactly
  · intro aligned memory
    exact ⟨_, _, (contents.read enough positive).1 aligned memory,
      readsExactly_deliver content offset length memory⟩

theorem fsRead_exact_iff_twoPages :
    ∃ fs : Fs, fs.Contents 0 [0, 1] (List.replicate 600 0) ∧
      ((∀ memory, ∃ ret after, fsRead fs 4096 0 memory 0 600 = some (ret, after) ∧
        ReadsExactly (List.replicate 600 0) 0 600 memory ret after) ↔
        0 % 512 = 0 ∨ min (List.replicate 600 (0 : UInt8)).length (512 * (0 / 512 + 1)) < 0 + 600) := by
  obtain ⟨-, fs, node, -, -, pages⟩ := exists_twoPages
  have contents := pages.contents
  rw [(pages.holds.readNode rfl).1, pages.inode] at contents
  exact ⟨fs, contents, fsRead_exact_iff contents (Nat.le_refl 4096) (by decide)⟩

/-- Reading one byte from offset 1 on. -/
theorem fsRead_overruns :
    ∃ start fs, fsInit erasedChip zeroHeap = some (.ok, start) ∧ Served Op.KeepsChains start fs ∧
      fs.Listed 0 ∧ fs.Contents (readNode fs 0).inode [0, 1] (List.replicate 600 0) ∧
      ¬∀ memory, ∃ ret after, fsRead fs 4096 (readNode fs 0).inode memory 1 1 = some (ret, after) ∧
        ReadsExactly (List.replicate 600 0) 1 1 memory ret after := by
  obtain ⟨start, fs, node, started, served, pages⟩ := exists_twoPages
  have overruns : Overruns (List.replicate 600 (0 : UInt8)) 1 1 := by
    rw [Overruns, List.length_replicate]
    decide
  exact ⟨start, fs, started, served, .of_lt pages.holds Nat.one_pos, pages.contents,
    overruns.not_exact pages.contents (Nat.le_refl 4096) Nat.one_pos⟩

end Read

/-! ## Truncating -/

/-- The file of an entry is cut down to a length.  The directory and the other files are as before. -/
structure TruncatesTo (fs after : Fs) (own : Nat) (content : List UInt8) (length : Nat) : Prop where
  content : ∃ inodes, after.Contents (readNode fs own).inode inodes (content.take length)
  size : ∀ steps ≥ 4096, (after.heap after.mallocs).isSome →
    ∃ later, fsSize steps (readNode fs own).inode after = some ((length : Int), later)
  directory : SameDirectory fs after
  others : ∀ other, fs.Listed other → other ≠ own → ∀ inodes kept,
    fs.Contents (readNode fs other).inode inodes kept →
      ∃ changed, after.Contents (readNode fs other).inode changed kept

/-- No other file goes through the inode of the page in which the file is cut. -/
def Fs.CutsAlone (fs : Fs) (own : Nat) (inodes : List Nat) (length : Nat) : Prop :=
  ∀ other, fs.Listed other → other ≠ own → ∀ others kept,
    fs.Contents (readNode fs other).inode others kept →
      ∀ target, inodes[length / 512]? = some target → target ∉ others

section Truncate

variable {fs after : Fs} {own length target : Nat} {inodes others : List Nat} {content kept : List UInt8}

/-- Contents of the right length are what `fs_size` says. -/
theorem TruncatesTo.of_contents (short : length ≤ content.length)
    (contents : ∃ inodes, after.Contents (readNode fs own).inode inodes (content.take length))
    (directory : SameDirectory fs after)
    (rest : ∀ other, fs.Listed other → other ≠ own → ∀ inodes kept,
      fs.Contents (readNode fs other).inode inodes kept →
        ∃ changed, after.Contents (readNode fs other).inode changed kept) :
    TruncatesTo fs after own content length := by
  refine ⟨contents, fun steps enough memory => ?_, directory, rest⟩
  obtain ⟨inodes, contents⟩ := contents
  have size := contents.size enough memory
  rw [List.length_take, Nat.min_eq_left short] at size
  exact ⟨_, size⟩

/-- A file that is cut in a page of another one cuts that one as well. -/
theorem Rewrites.cuts_other {extent : Extent Nat UInt8} {filled : Nat}
    (rewrites : Rewrites fs after target [] [] 0 (extent.data.take filled) [])
    (held : fs.extents target = some extent) (shorter : filled < extent.data.length) {inode : Nat}
    (contents : fs.Contents inode others kept) (through : target ∈ others) {changed : List Nat} :
    ¬after.Contents inode changed kept := by
  intro same
  cases contents with
  | unwritten => exact absurd through List.not_mem_nil
  | written file =>
      obtain ⟨front, rest, rfl⟩ := List.append_of_mem through
      obtain ⟨file', data⟩ := rewrites.cut file
      have lengths := congrArg List.length ((Fs.Contents.written file').unique same).2
      rw [data, fileData_append, fileData_cons held, List.length_append, List.length_append,
        List.length_append, List.length_take, Nat.min_eq_left shorter.le] at lengths
      omega

/-- `fs_truncate` leaves the first bytes if and only if the new length is the old one, zero, or not a multiple of
the size of a page, and no other file goes through the page in which the file is cut.  Beyond the end of a file
it changes nothing. -/
theorem fsTruncate_prefix_iff (contents : fs.Contents (readNode fs own).inode inodes content)
    (inside : fs.lastFree < 4096) (finds : (Op.truncate (readNode fs own).inode length).FindsFresh fs) :
    (length ≤ content.length → ∀ after, fsTruncate (readNode fs own).inode length fs.begun = (.ok, after) →
      (TruncatesTo fs after own content length ↔
        (length = content.length ∨ length = 0 ∨ length % 512 ≠ 0) ∧
          (length < content.length → fs.CutsAlone own inodes length))) ∧
    (content.length < length → content ≠ [] →
      fsTruncate (readNode fs own).inode length fs.begun = (.badSeek, fs.begun)) := by
  have small : ((readNode fs own).inode : Nat) < 4096 := Fin.isLt _
  -- A call without effect is right only if the length is the old one.
  have unchanged (short : length ≤ content.length) :
      TruncatesTo fs fs.begun own content length ↔ length = content.length := by
    constructor
    · rintro ⟨⟨others, taken⟩, -, -, -⟩
      have lengths := congrArg List.length (taken.unique (contents.congr small rfl)).2
      rw [List.length_take] at lengths
      omega
    · intro same
      refine .of_contents short ⟨inodes, ?_⟩ (.refl fs) fun other _ _ others kept held =>
        ⟨others, held.congr (Fin.isLt _) rfl⟩
      rw [same, List.take_length]
      exact contents.congr small rfl
  cases contents with
  | unwritten unused =>
      have same : fsTruncate (readNode fs own).inode length fs.begun = (.ok, fs.begun) := by
        rw [fsTruncate, show fsPage fs.begun (readNode fs own).inode = none from unused]
      refine ⟨fun short after done => ?_, fun _ empty => absurd rfl empty⟩
      rw [same] at done
      obtain rfl : fs.begun = after := (Prod.ext_iff.mp done).2
      have zero : length = 0 := Nat.le_zero.mp short
      exact (unchanged short).trans ⟨fun equal => ⟨.inl equal, fun less => absurd equal less.ne⟩,
        fun _ => zero⟩
  | written file =>
      have begun : FileAt fsDatasize fs.begun.extents (readNode fs own).inode inodes := file
      obtain ⟨beyond, stops, cuts⟩ := fsTruncate_file begun (finds.truncateRoom inside)
      refine ⟨fun short after done => ?_, fun longer _ => beyond longer⟩
      by_cases stop : length = (fileData fs.extents inodes).length ∨ length % 512 = 0 ∧ 0 < length
      · rw [stops short stop] at done
        obtain rfl : fs.begun = after := (Prod.ext_iff.mp done).2
        refine (unchanged short).trans ⟨fun equal => ⟨.inl equal, fun less => absurd equal less.ne⟩, ?_⟩
        rintro ⟨keeps, -⟩
        omega
      · rw [not_or] at stop
        have less : length < (fileData fs.extents inodes).length := Nat.lt_of_le_of_ne short stop.1
        obtain ⟨front, target, rest, extent, rfl, position, held, shorter, taken, rewrites⟩ :=
          cuts less (by omega)
        have rewrites := (rewrites after done).of_begun
        have there : (front ++ target :: rest)[length / 512]? = some target := by
          rw [← position, List.getElem?_append_right le_rfl, Nat.sub_self]
          rfl
        constructor
        · rintro ⟨-, -, -, kept⟩
          refine ⟨by omega, fun _ other listed different others content held' target' is through => ?_⟩
          obtain rfl := Option.some.inj (there.symm.trans is)
          obtain ⟨changed, same⟩ := kept other listed different others content held'
          exact rewrites.cuts_other held shorter held' through same
        · rintro ⟨-, alone⟩
          refine .of_contents short ?_ (fsTruncate_sameDirectory inside finds done)
            fun other listed different others kept held' => ⟨others, ?_⟩
          · obtain ⟨file', data⟩ := rewrites.cut file
            have first : (fileData fs.extents (front ++ target :: rest)).take length =
                fileData fs.extents front ++ extent.data.take (length % 512) := taken
            rw [first, ← data]
            exact ⟨_, .written file'⟩
          · have apart := alone less other listed different others kept held' target there
            refine rewrites.contents (fun new member => absurd member List.not_mem_nil) (Fin.isLt _) held'
              apart fun empty => ⟨?_, List.not_mem_nil⟩
            rintro same
            cases held' with
            | unwritten unused =>
                obtain ⟨-, page, found, -⟩ := Fs.extents_eq_some.mp held
                rw [same] at unused
                exact absurd (unused.symm.trans found) (by simp)
            | written file' =>
                obtain ⟨_, other⟩ := file'.eq_cons
                exact absurd (empty.symm.trans other) (by simp)

theorem truncatePages_le_one (fs : Fs) (inode length : Nat) : truncatePages fs inode length ≤ 1 := by
  rw [truncatePages]
  split
  · exact Nat.zero_le 1
  · split
    · exact Nat.zero_le 1
    · split_ifs
      · exact le_rfl
      · exact Nat.zero_le 1

/-- Truncating finds fresh pages on a device that is not filled. -/
theorem Fs.Filling.truncates {top : Nat} (filling : fs.Filling top) (space : top + 3 < 4096) {inode : Nat}
    (small : inode < 4096) : (Op.truncate inode length).FindsFresh fs := by
  refine filling.findsFresh small trivial ?_
  rw [Op.demand]
  have few := truncatePages_le_one fs inode length
  omega

theorem fsTruncate_prefix_iff_twoPages :
    ∃ fs : Fs, fs.Contents (readNode fs 0).inode [0, 1] (List.replicate 600 0) ∧
      ∀ after, fsTruncate (readNode fs 0).inode 100 fs.begun = (.ok, after) →
        (TruncatesTo fs after 0 (List.replicate 600 0) 100 ↔
          (100 = (List.replicate 600 (0 : UInt8)).length ∨ 100 = 0 ∨ 100 % 512 ≠ 0) ∧
            (100 < (List.replicate 600 (0 : UInt8)).length → fs.CutsAlone 0 [0, 1] 100)) := by
  obtain ⟨-, fs, node, -, -, pages⟩ := exists_twoPages
  have finds : (Op.truncate (readNode fs 0).inode 100).FindsFresh fs :=
    pages.filling.truncates (by decide) (Fin.isLt _)
  exact ⟨fs, pages.contents, (fsTruncate_prefix_iff pages.contents pages.filling.cursor finds).1
    (by rw [List.length_replicate]; decide)⟩

/-- Truncating 600 bytes to the 512 of the first page returns `FS_OK` without an effect. -/
theorem fsTruncate_keeps_full_page :
    ∃ start fs, fsInit erasedChip zeroHeap = some (.ok, start) ∧ Served Op.KeepsChains start fs ∧
      fs.Listed 0 ∧ fs.Contents (readNode fs 0).inode [0, 1] (List.replicate 600 0) ∧
      fsTruncate (readNode fs 0).inode 512 fs.begun = (.ok, fs.begun) ∧
      ¬TruncatesTo fs fs.begun 0 (List.replicate 600 0) 512 := by
  obtain ⟨start, fs, node, started, served, pages⟩ := exists_twoPages
  have contents := pages.contents
  have begun : fs.begun.Contents (readNode fs 0).inode [0, 1] (List.replicate 600 0) :=
    contents.congr (Fin.isLt _) rfl
  have finds : (Op.truncate (readNode fs 0).inode 512).FindsFresh fs :=
    pages.filling.truncates (by decide) (Fin.isLt _)
  refine ⟨start, fs, started, served, .of_lt pages.holds Nat.one_pos, contents, ?_, ?_⟩
  · have file : FileAt fsDatasize fs.begun.extents (readNode fs 0).inode [0, 1] := by
      rw [(pages.holds.readNode rfl).1, pages.inode]
      exact pages.file
    have data : fileData fs.begun.extents [0, 1] = List.replicate 600 0 := pages.data
    have stops := (fsTruncate_file file (finds.truncateRoom pages.filling.cursor)).2.1
    rw [data, List.length_replicate] at stops
    exact stops (by decide) (.inr ⟨by decide, by decide⟩)
  · rintro ⟨⟨inodes, taken⟩, -, -, -⟩
    have lengths := congrArg List.length (taken.unique begun).2
    rw [List.length_take, List.length_replicate] at lengths
    exact absurd lengths (by decide)

end Truncate

end Ethersex.Dataflash
