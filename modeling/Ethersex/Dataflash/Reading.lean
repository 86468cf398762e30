import Mathlib
import Ethersex.Dataflash.Store

/-!
# The contents of files

A page holds a part of a file and names the inode of the next part.  Reading follows the parts.  The
read that ends in the page it begins in asks the chip for more bytes than it needs, unless it begins at the
start of the page.
-/

namespace Ethersex.Dataflash

open Library

/-- The data of a page, as many as it is filled with. -/
def body (page : Bytes) (size : Nat) : List UInt8 := (List.range size).map fun k => page (15 + k)

/-- The part of a file that a page holds. -/
def extentOf (page : Bytes) : Extent Nat UInt8 where
  next := if (headerOf page).eof then none else some (headerOf page).nextInode
  data := body page (headerOf page).size

/-- The parts of files, by their inodes. -/
def Fs.extents (fs : Fs) (inode : Nat) : Option (Extent Nat UInt8) := (fs.pages inode).map extentOf

/-- The file that begins at an inode: its inodes, and what it contains.  A file that was never written has
no pages; otherwise all its pages are full but the last one. -/
inductive Fs.Contents (fs : Fs) (inode : Nat) : List Nat → List UInt8 → Prop where
  | unwritten : fsPage fs inode = none → fs.Contents inode [] []
  | written {inodes : List Nat} :
      FileAt fsDatasize fs.extents inode inodes → fs.Contents inode inodes (fileData fs.extents inodes)

section Extents

variable {fs : Fs} {inode page : Nat} {extent : Extent Nat UInt8}

@[simp] theorem extentOf_length (content : Bytes) :
    (extentOf content).data.length = (headerOf content).size := by
  rw [extentOf, body, List.length_map, List.length_range]

theorem Fs.extents_eq_some :
    fs.extents inode = some extent ↔
      inode < 4096 ∧ ∃ page, fsPage fs inode = some page ∧ extentOf (fs.chip.flash page) = extent := by
  rw [Fs.extents, Option.map_eq_some_iff]
  constructor
  · rintro ⟨content, held, rfl⟩
    obtain ⟨small, page, found, rfl⟩ := Fs.pages_eq_some.mp held
    exact ⟨small, page, found, rfl⟩
  · rintro ⟨small, page, found, rfl⟩
    exact ⟨_, Fs.pages_eq_some.mpr ⟨small, page, found, rfl⟩, rfl⟩

/-- The page of an inode has its part of the file. -/
theorem Fs.extents_of_page (held : fs.extents inode = some extent) (found : fsPage fs inode = some page) :
    extentOf (fs.chip.flash page) = extent := by
  obtain ⟨-, other, found', same⟩ := Fs.extents_eq_some.mp held
  obtain rfl := Option.some.inj (found.symm.trans found')
  exact same

theorem Fs.size_of_page (held : fs.extents inode = some extent) (found : fsPage fs inode = some page) :
    (readPage fs page).size = extent.data.length := by
  rw [readPage_of_page found, ← Fs.extents_of_page held found, extentOf_length]

theorem Fs.eof_of_page (held : fs.extents inode = some extent) (found : fsPage fs inode = some page) :
    (readPage fs page).eof = extent.next.isNone := by
  rw [readPage_of_page found, ← Fs.extents_of_page held found, extentOf]
  cases (headerOf (fs.chip.flash page)).eof <;> rfl

theorem Fs.next_of_page (held : fs.extents inode = some extent) (found : fsPage fs inode = some page)
    {next : Nat} (names : extent.next = some next) : ((readPage fs page).nextInode : Nat) = next := by
  rw [← Fs.extents_of_page held found, extentOf] at names
  rw [readPage_of_page found]
  dsimp only at names
  split_ifs at names
  exact Option.some.inj names

/-- The inode of each part has a page. -/
theorem exists_page {capacity : Nat} {inodes : List Nat}
    (file : FileAt capacity fs.extents inode inodes) : ∃ page, fsPage fs inode = some page := by
  obtain ⟨rest, rfl⟩ := file.eq_cons
  obtain ⟨extent, held⟩ := Option.isSome_iff_exists.mp (file.isSome inode (List.mem_cons_self))
  obtain ⟨-, page, found, -⟩ := Fs.extents_eq_some.mp held
  exact ⟨page, found⟩

end Extents

/-! ## Memory -/

/-- Some bytes in memory, at a position. -/
def deliver (bytes : List UInt8) (position : Nat) (memory : Bytes) : Bytes := fun k =>
  if position ≤ k then bytes.getD (k - position) (memory k) else memory k

theorem deliver_nil (position : Nat) (memory : Bytes) : deliver [] position memory = memory := by
  funext k
  rw [deliver, List.getD_nil, ite_self]

theorem deliver_append (first second : List UInt8) (position : Nat) (memory : Bytes) :
    deliver second (position + first.length) (deliver first position memory) =
      deliver (first ++ second) position memory := by
  funext k
  simp only [deliver]
  by_cases start : position ≤ k
  · rw [if_pos start, if_pos start]
    by_cases behind : position + first.length ≤ k
    · rw [if_pos behind, List.getD_append_right _ _ _ _ (by omega), List.getD_eq_default first _ (by omega),
        Nat.sub_sub]
    · rw [if_neg behind, List.getD_append _ _ _ _ (by omega)]
  · rw [if_neg start, if_neg (by omega), if_neg start]

/-- Copying out of a page within the part that it holds. -/
theorem copyOut_eq {fs : Fs} {inode page : Nat} {extent : Extent Nat UInt8}
    (held : fs.extents inode = some extent) (found : fsPage fs inode = some page)
    (fits : extent.data.length ≤ fsDatasize) {offset count : Nat}
    (inside : offset + count ≤ extent.data.length) (position : Nat) (memory : Bytes) :
    copyOut fs page (fsDataOffset + offset) count position memory =
      deliver ((extent.data.drop offset).take count) position memory := by
  have small := fsPage_lt found
  have size : fsDatasize = 512 := rfl
  have taken : ((extent.data.drop offset).take count).length = count := by
    rw [List.length_take, List.length_drop]
    omega
  funext k
  rw [copyOut, deliver]
  by_cases start : position ≤ k
  · rw [if_pos start]
    by_cases before : k < position + count
    · have within : k - position < count := by omega
      have byte : (dfFlashRead fs.chip page (fsDataOffset + offset)) (k - position) =
          fs.chip.flash page (fsDataOffset + (offset + (k - position))) := by
        have header : fsDataOffset = 15 := rfl
        have whole : dfPagesize = 528 := rfl
        rw [dfFlashRead, show page % dfPages = page from Nat.mod_eq_of_lt small,
          readFrom_apply (by omega), Nat.add_assoc]
      rw [if_pos ⟨start, before⟩, byte, List.getD_eq_getElem _ _ (by omega), List.getElem_take,
        List.getElem_drop]
      have same := Fs.extents_of_page held found
      subst same
      simp only [extentOf, body, List.getElem_map, List.getElem_range]
      rfl
    · rw [if_neg fun both => before both.2, List.getD_eq_default _ _ (by omega)]
  · rw [if_neg start, if_neg fun both => start both.1]

/-! ## Following a file -/

section Reading

variable {fs : Fs} {inode page : Nat} {inodes : List Nat}

/-- What the copy loop of `fs_read` delivers, if it begins at the start of a page or does not end in the page
it begins in. -/
theorem readLoop_file (file : FileAt fsDatasize fs.extents inode inodes) {offset length steps : Nat}
    (found : fsPage fs inode = some page) (enough : inodes.length ≤ steps)
    (inside : offset ≤ (readPage fs page).size)
    (beyond : offset = 0 ∨ (readPage fs page).size < length + offset) (position : Nat) (memory : Bytes) :
    readLoop fs steps page offset length position memory =
      some ((position : Int) + (((fileData fs.extents inodes).drop offset).take length).length,
        deliver (((fileData fs.extents inodes).drop offset).take length) position memory) := by
  induction file generalizing page offset length steps position memory with
  | @last key extent held ends fits =>
    obtain ⟨steps, rfl⟩ : ∃ fewer, steps = fewer + 1 :=
      ⟨steps - 1, (Nat.sub_add_cancel (List.length_pos_of_ne_nil (List.cons_ne_nil key []) |>.trans_le enough)).symm⟩
    have size := Fs.size_of_page held found
    have eof : (readPage fs page).eof = true := by rw [Fs.eof_of_page held found, ends, Option.isNone_none]
    have whole : fileData fs.extents [key] = extent.data := by
      rw [fileData_cons held, fileData, List.flatMap_nil, List.append_nil]
    rw [size] at inside beyond
    rw [readLoop, whole]
    dsimp only
    rw [size]
    by_cases within : length + offset ≤ extent.data.length
    · obtain rfl := beyond.resolve_right (by omega)
      rw [if_pos within, copyOut_eq held found fits (by omega), List.drop_zero, List.length_take,
        Nat.min_eq_left (by omega), Nat.add_zero]
    · have rest : (extent.data.drop offset).length = extent.data.length - offset := List.length_drop
      rw [if_neg within, if_pos eof, copyOut_eq held found fits (by omega),
        List.take_of_length_le rest.le, List.take_of_length_le (by omega), rest]
  | @link key next keys extent held names full later ih =>
    obtain ⟨steps, rfl⟩ : ∃ fewer, steps = fewer + 1 :=
      ⟨steps - 1, (Nat.sub_add_cancel (List.length_pos_of_ne_nil (List.cons_ne_nil key _) |>.trans_le enough)).symm⟩
    rw [List.length_cons] at enough
    have size := Fs.size_of_page held found
    have eof : (readPage fs page).eof = false := by rw [Fs.eof_of_page held found, names, Option.isNone_some]
    have named := Fs.next_of_page held found names
    obtain ⟨nextPage, nextFound⟩ := exists_page later
    rw [size] at inside beyond
    rw [readLoop, fileData_cons held, List.drop_append_of_le_length inside]
    dsimp only
    rw [size]
    have rest : (extent.data.drop offset).length = extent.data.length - offset := List.length_drop
    by_cases within : length + offset ≤ extent.data.length
    · obtain rfl := beyond.resolve_right (by omega)
      rw [if_pos within, copyOut_eq held found full.le (by omega), List.drop_zero,
        List.take_append_of_le_length (by omega), List.length_take, Nat.min_eq_left (by omega), Nat.add_zero]
    · have copied : (extent.data.drop offset).take (fsDatasize - offset) = extent.data.drop offset :=
        List.take_of_length_le (by omega)
      have taken : (extent.data.drop offset ++ fileData fs.extents keys).take length =
          extent.data.drop offset ++
            (fileData fs.extents keys).take (length - (extent.data.length - offset)) := by
        rw [List.take_append, List.take_of_length_le (by omega), rest]
      rw [if_neg within, eof, if_neg Bool.false_ne_true, copyOut_eq held found full.le (by omega), copied,
        named, nextFound]
      dsimp only
      rw [ih nextFound (by omega) (Nat.zero_le _) (.inl rfl), List.drop_zero, taken, List.length_append, rest,
        ← deliver_append, rest, Nat.cast_add, Nat.cast_add, Int.add_assoc]

/-- A read that ends in the page it begins in copies `offset` bytes more. -/
theorem readLoop_within {extent : Extent Nat UInt8} (held : fs.extents inode = some extent)
    (found : fsPage fs inode = some page) {offset length steps : Nat} (enough : 0 < steps)
    (within : length + offset ≤ extent.data.length) (position : Nat) (memory : Bytes) :
    readLoop fs steps page offset length position memory =
      some ((position : Int) + length,
        copyOut fs page (fsDataOffset + offset) (length + offset) position memory) := by
  obtain ⟨steps, rfl⟩ : ∃ fewer, steps = fewer + 1 := ⟨steps - 1, by omega⟩
  rw [readLoop]
  dsimp only
  rw [Fs.size_of_page held found, if_pos within]

/-- The seek loop of `fs_read` finds the part with the offset, unless the file ends before. -/
theorem seekRead_file (file : FileAt fsDatasize fs.extents inode inodes) (offset : Nat)
    (found : fsPage fs inode = some page) :
    (seekRead fs page offset = .error 0 ∧ (fileData fs.extents inodes).length ≤ offset) ∨
      ∃ target rest targetPage front, FileAt fsDatasize fs.extents target rest ∧
        fsPage fs target = some targetPage ∧ rest.length ≤ inodes.length ∧
        seekRead fs page offset = .ok (targetPage, offset % 512) ∧
        fileData fs.extents inodes = front ++ fileData fs.extents rest ∧
        front.length = 512 * (offset / 512) := by
  have size : fsDatasize = 512 := rfl
  induction file generalizing page offset with
  | @last key extent held ends fits =>
    rcases Nat.lt_or_ge offset 512 with inside | beyond
    · refine .inr ⟨key, [key], page, [], .last held ends fits, found, le_refl _, ?_, rfl, ?_⟩
      · rw [seekRead, if_neg (by omega), Nat.mod_eq_of_lt inside]
      · rw [Nat.div_eq_of_lt inside]
        rfl
    · have eof : (readPage fs page).eof = true := by
        rw [Fs.eof_of_page held found, ends, Option.isNone_none]
      refine .inl ⟨?_, ?_⟩
      · rw [seekRead, if_pos (by omega)]
        dsimp only
        rw [if_pos eof]
      · rw [fileData_cons held, fileData, List.flatMap_nil, List.append_nil]
        omega
  | @link key next keys extent held names full later ih =>
    rcases Nat.lt_or_ge offset 512 with inside | beyond
    · refine .inr ⟨key, key :: keys, page, [], .link held names full later, found, le_refl _, ?_, rfl, ?_⟩
      · rw [seekRead, if_neg (by omega), Nat.mod_eq_of_lt inside]
      · rw [Nat.div_eq_of_lt inside]
        rfl
    · have eof : (readPage fs page).eof = false := by
        rw [Fs.eof_of_page held found, names, Option.isNone_some]
      obtain ⟨nextPage, nextFound⟩ := exists_page later
      have step : seekRead fs page offset = seekRead fs nextPage (offset - 512) := by
        rw [seekRead, if_pos (by omega)]
        dsimp only
        rw [eof, if_neg Bool.false_ne_true, Fs.next_of_page held found names, nextFound]
        rfl
      rw [step, fileData_cons held, List.length_append, full]
      rcases ih (offset - 512) nextFound with ⟨ended, short⟩ | ⟨target, rest, targetPage, front, file', found',
        shorter, reached, split, length⟩
      · exact .inl ⟨ended, by omega⟩
      · refine .inr ⟨target, rest, targetPage, extent.data ++ front, file', found',
          shorter.trans (Nat.le_succ _), ?_, ?_, ?_⟩
        · rw [reached, ← Nat.mod_eq_sub_mod beyond]
        · rw [split, List.append_assoc]
        · rw [List.length_append, full, length]
          omega

/-- The inodes of a file are distinct and in the tables. -/
theorem length_inodes_le (file : FileAt fsDatasize fs.extents inode inodes) : inodes.length ≤ 4096 := by
  have inside : inodes.toFinset ⊆ Finset.range 4096 := by
    intro key member
    obtain ⟨extent, held⟩ := Option.isSome_iff_exists.mp (file.isSome key (List.mem_toFinset.mp member))
    exact Finset.mem_range.mpr (Fs.extents_eq_some.mp held).1
  have card := Finset.card_le_card inside
  rwa [List.toFinset_card_of_nodup file.nodup, Finset.card_range] at card

end Reading

/-! ## Reading from a file -/

/-- The read begins behind the start of a page and ends in the same page. -/
def Overruns (content : List UInt8) (offset length : Nat) : Prop :=
  offset % 512 ≠ 0 ∧ offset + length ≤ min content.length (512 * (offset / 512 + 1))

section Contents

variable {fs : Fs} {inode steps offset length : Nat} {inodes : List Nat} {content : List UInt8}

/-- What `fs_read` does with a file. -/
theorem Fs.Contents.read (contents : fs.Contents inode inodes content) (enough : 4096 ≤ steps)
    (positive : 0 < length) :
    (¬Overruns content offset length → ∀ memory, fsRead fs steps inode memory offset length =
      some ((((content.drop offset).take length).length : Int),
        deliver ((content.drop offset).take length) 0 memory)) ∧
    (Overruns content offset length → ∃ page, ∀ memory, fsRead fs steps inode memory offset length =
      some ((length : Int),
        copyOut fs page (fsDataOffset + offset % 512) (length + offset % 512) 0 memory)) := by
  have nothing (memory : Bytes) (short : content.length ≤ offset) :
      (((content.drop offset).take length).length : Int) = 0 ∧
        deliver ((content.drop offset).take length) 0 memory = memory := by
    rw [List.drop_eq_nil_of_le short, List.take_nil]
    exact ⟨rfl, deliver_nil 0 memory⟩
  cases contents with
  | unwritten unused =>
      refine ⟨fun _ memory => ?_, fun overruns => ?_⟩
      · obtain ⟨none, same⟩ := nothing memory (Nat.zero_le offset)
        rw [fsRead, unused, none, same]
      · exact absurd overruns.2 (by simp only [List.length_nil]; omega)
  | written file =>
      obtain ⟨page, found⟩ := exists_page file
      obtain ⟨ended, short⟩ | ⟨target, rest, targetPage, front, later, targetFound, fewer, reached, split,
        frontLength⟩ := seekRead_file file offset found
      · refine ⟨fun _ memory => ?_, fun overruns => ?_⟩
        · obtain ⟨none, same⟩ := nothing memory short
          rw [fsRead, found]
          dsimp only
          rw [ended, none, same]
        · obtain ⟨-, inside⟩ := overruns
          exact absurd (inside.trans (Nat.min_le_left _ _)) (by omega)
      · obtain ⟨extent, held, size⟩ := later.first
        rw [show fsDatasize = 512 from rfl] at size
        have fits : rest.length ≤ steps := (length_inodes_le later).trans enough
        have pageSize : ((readPage fs targetPage).size : Nat) = min 512 (fileData fs.extents rest).length :=
          (Fs.size_of_page held targetFound).trans size
        have wanted : (fileData fs.extents inodes).drop offset =
            (fileData fs.extents rest).drop (offset % 512) := by
          have position : offset = front.length + offset % 512 := by
            rw [frontLength]
            exact (Nat.div_add_mod offset 512).symm
          rw [split, position, List.drop_length_add_append, ← position]
        have total : (fileData fs.extents inodes).length =
            512 * (offset / 512) + (fileData fs.extents rest).length := by
          rw [split, List.length_append, frontLength]
        refine ⟨fun within memory => ?_, fun overruns => ⟨targetPage, fun memory => ?_⟩⟩
        · rw [fsRead, found]
          dsimp only
          rw [reached]
          dsimp only
          split_ifs with behind
          · have short : (fileData fs.extents inodes).length ≤ offset := by omega
            obtain ⟨none, same⟩ := nothing memory short
            rw [none, same]
          · rw [wanted, readLoop_file later targetFound fits (by omega) ?_, Nat.cast_zero, Int.zero_add]
            by_contra none
            rw [not_or] at none
            exact within ⟨none.1, by omega⟩
        · obtain ⟨unaligned, inside⟩ := overruns
          rw [fsRead, found]
          dsimp only
          rw [reached]
          dsimp only
          rw [if_neg (by omega), readLoop_within held targetFound (by omega) (by omega), Nat.cast_zero,
            Int.zero_add]

end Contents

/-! ## The size of a file -/

section Size

variable {fs : Fs} {inode steps : Nat} {inodes : List Nat} {content : List UInt8}

/-- The loop of `fs_size` adds up the parts. -/
theorem sizeLoop_file (file : FileAt fsDatasize fs.extents inode inodes) (enough : inodes.length ≤ steps)
    (size : Nat) :
    sizeLoop fs steps inode size = some ((size : Int) + (fileData fs.extents inodes).length) := by
  induction file generalizing steps size with
  | @last key extent held ends _ =>
      obtain ⟨steps, rfl⟩ : ∃ fewer, steps = fewer + 1 :=
        ⟨steps - 1, (Nat.sub_add_cancel enough).symm⟩
      obtain ⟨-, page, found, -⟩ := Fs.extents_eq_some.mp held
      have eof : (readPage fs page).eof = true := by
        rw [Fs.eof_of_page held found, ends, Option.isNone_none]
      rw [sizeLoop, found]
      dsimp only
      rw [if_pos eof, Fs.size_of_page held found, fileData_cons held, fileData, List.flatMap_nil,
        List.append_nil]
  | @link key next keys extent held names full later ih =>
      obtain ⟨steps, rfl⟩ : ∃ fewer, steps = fewer + 1 :=
        ⟨steps - 1, (Nat.sub_add_cancel (Nat.one_le_of_lt enough)).symm⟩
      obtain ⟨-, page, found, -⟩ := Fs.extents_eq_some.mp held
      have eof : (readPage fs page).eof = false := by
        rw [Fs.eof_of_page held found, names, Option.isNone_some]
      rw [sizeLoop, found]
      dsimp only
      rw [eof, if_neg Bool.false_ne_true, Fs.next_of_page held found names, Fs.size_of_page held found,
        ih (Nat.le_of_succ_le_succ enough), fileData_cons held, List.length_append, Nat.cast_add,
        Nat.cast_add, Int.add_assoc]

/-- `fs_size` is the length of the file, if there is memory for its block. -/
theorem Fs.Contents.size (contents : fs.Contents inode inodes content) (enough : 4096 ≤ steps)
    (memory : (fs.heap fs.mallocs).isSome) :
    fsSize steps inode fs = some ((content.length : Int), { fs with mallocs := fs.mallocs + 1 }) := by
  obtain ⟨block, found⟩ := Option.isSome_iff_exists.mp memory
  rw [fsSize, malloc, found]
  dsimp only
  cases contents with
  | unwritten unused =>
      obtain ⟨steps, rfl⟩ : ∃ fewer, steps = fewer + 1 := ⟨steps - 1, by omega⟩
      rw [sizeLoop, show fsPage { fs with mallocs := fs.mallocs + 1 } inode = none from unused]
      rfl
  | written file =>
      have same : FileAt fsDatasize { fs with mallocs := fs.mallocs + 1 : Fs }.extents inode inodes := file
      rw [sizeLoop_file same ((length_inodes_le file).trans enough), Nat.cast_zero, Int.zero_add]
      rfl

/-- A file has one content. -/
theorem Fs.Contents.unique (contents : fs.Contents inode inodes content) {others : List Nat}
    {other : List UInt8} (again : fs.Contents inode others other) : inodes = others ∧ content = other := by
  cases contents with
  | unwritten unused =>
      cases again with
      | unwritten => exact ⟨rfl, rfl⟩
      | written file =>
          obtain ⟨page, found⟩ := exists_page file
          exact absurd (unused.symm.trans found) (by simp)
  | written file =>
      cases again with
      | unwritten unused =>
          obtain ⟨page, found⟩ := exists_page file
          exact absurd (unused.symm.trans found) (by simp)
      | written file' =>
          obtain rfl := file.deterministic file'
          exact ⟨rfl, rfl⟩

end Size

end Ethersex.Dataflash
