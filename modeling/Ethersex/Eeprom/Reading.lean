import Mathlib
import Ethersex.Library.Walks
import Ethersex.Eeprom.Laws

/-!
# What a read delivers

A read at a page boundary follows the pages to the end of the file.  One that begins inside a page takes
the end of that page for the end of the file, and one in a file without pages reads the superblock.
-/

namespace Ethersex.Eeprom

open Library

/-- The bytes of a file with these data pages. -/
def pagesContent (eeprom : Device) (pages : List Nat) : List UInt8 :=
  contents dataSize (blocks eeprom pages)

/-- What a read should deliver, and where it should leave the handle. -/
def ReadLaw (eeprom : Device) (file : Nat) (content : List UInt8) (offset size : Nat) : Prop :=
  ∀ behind, vfsEepromRead behind ⟨file, offset⟩ size eeprom =
    ((content.drop offset).take size, ⟨file, offset + min size (content.length - offset)⟩)

/-- The read begins at a page boundary, or comes to an end, or to that of the file, in its page. -/
def StaysInPage (content : List UInt8) (offset size : Nat) : Prop :=
  offset % dataSize = 0 ∨ min (offset + size) content.length ≤ dataSize * (offset / dataSize + 1)

instance (content : List UInt8) (offset size : Nat) : Decidable (StaysInPage content offset size) :=
  inferInstanceAs (Decidable (_ ∨ _))

/-! ## The loops -/

section Loops

variable {eeprom : Device} {behind : Bytes} {start page : Nat} {pages front rest : List Nat}

theorem length_copyFrom (behind page : Bytes) (offset count : Nat) :
    (copyFrom behind page offset count).length = count := by
  rw [copyFrom, List.length_map, List.length_range]

/-- The handle counts what is delivered. -/
theorem copyPages_offset {passes offset remaining : Nat} (small : offset < 65536) :
    (copyPages behind eeprom passes start offset remaining).2 =
      (offset + (copyPages behind eeprom passes start offset remaining).1.length) % 65536 := by
  induction passes generalizing start offset remaining with
  | zero => exact (Nat.mod_eq_of_lt small).symm
  | succ passes ih =>
    by_cases done : remaining = 0
    · simp only [copyPages, if_pos done, List.length_nil, Nat.add_zero]
      exact (Nat.mod_eq_of_lt small).symm
    · simp only [copyPages, if_neg done]
      generalize (if remaining < dataSize then remaining else dataSize) = count
      split_ifs
      · simp only [length_copyFrom]
      · simp only [List.length_append, length_copyFrom]
        rw [ih (Nat.mod_lt _ (by decide)), Nat.mod_add_mod, Nat.add_assoc]

/-- Skipping the pages in front. -/
theorem skipTo_spec (starts : Starts (fun page => nextPage (eeprom page)) 0 start (front ++ rest))
    (small : ∀ page ∈ front, page < pageCount) :
    Starts (fun page => nextPage (eeprom page)) 0 (skipTo eeprom front.length start) rest := by
  induction front generalizing start with
  | nil => exact starts
  | cons page front ih =>
    obtain ⟨rfl, -, chain⟩ := starts
    rw [List.forall_mem_cons] at small
    rw [List.length_cons, skipTo, readPage_of_lt small.1]
    exact ih chain.starts small.2

/-- Bytes from inside a page. -/
theorem copyFrom_eq_drop {page : Bytes} {offset count : Nat} (inside : offset ≤ pageLen page)
    (fits : pageLen page ≤ dataSize) (enough : count ≤ pageLen page - offset) :
    copyFrom behind page (4 + offset) count = ((block page).used.drop offset).take count := by
  have length : (block page).used.length = pageLen page := by rw [Block.length_used, block_fill]
  apply List.ext_getElem
  · rw [length_copyFrom, List.length_take, List.length_drop, length, Nat.min_eq_left enough]
  · intro k left right
    rw [length_copyFrom] at left
    have place : 4 + (offset + k) < pageSize := by
      unfold pageSize
      unfold dataSize at fits
      omega
    simp only [copyFrom, Block.used, block, List.getElem_map, List.getElem_range, List.getElem_take,
      List.getElem_drop, Nat.add_assoc, if_pos place]

/-- Reading from inside a page. -/
theorem copyPages_inside {offset size : Nat} (small : start < pageCount)
    (fits : pageLen (eeprom start) ≤ dataSize) (inside : offset % dataSize ≤ pageLen (eeprom start))
    (unaligned : offset % dataSize ≠ 0) :
    (copyPages behind eeprom size start offset size).1 =
      ((block (eeprom start)).used.drop (offset % dataSize)).take size := by
  cases size with
  | zero => rfl
  | succ size =>
    have count : (if size + 1 < dataSize then size + 1 else dataSize) = min (size + 1) dataSize := by
      split_ifs <;> omega
    simp only [copyPages, if_neg (Nat.succ_ne_zero size), readPage_of_lt small, count]
    by_cases ends : offset % dataSize + min (size + 1) dataSize > pageLen (eeprom start)
    · have left : (pageLen (eeprom start) + 256 - offset % dataSize) % 256 =
          pageLen (eeprom start) - offset % dataSize := by
        unfold dataSize at *
        omega
      rw [if_pos ends, left, copyFrom_eq_drop inside fits le_rfl]
      rw [List.take_of_length_le, List.take_of_length_le]
      · rw [List.length_drop, Block.length_used, block_fill]
        unfold dataSize at *
        omega
      · rw [List.length_drop, Block.length_used, block_fill]
    · have whole : min (size + 1) dataSize = size + 1 := by
        unfold dataSize at *
        omega
      rw [if_neg ends, whole, Nat.sub_self]
      simp only [copyPages_none, List.append_nil]
      rw [whole] at ends
      exact copyFrom_eq_drop inside fits (by omega)

end Loops

/-! ## One read -/

section Read

variable {eeprom : Device} {layout : Layout} {file offset : Nat}

/-- The page that holds an offset, and what a read from there delivers. -/
theorem Sound.read_split (sound : Sound eeprom layout) (member : file ∈ layout.files)
    (written : layout.chain file ≠ [])
    (inside : offset ≤ (pagesContent eeprom (layout.chain file)).length) (size : Nat) :
    ∃ page rest, page < pageCount ∧ pageLen (eeprom page) ≤ dataSize ∧
      offset % dataSize ≤ pageLen (eeprom page) ∧
      (pagesContent eeprom (layout.chain file)).drop offset =
        (pagesContent eeprom (page :: rest)).drop (offset % dataSize) ∧
      ∀ behind, (vfsEepromRead behind ⟨file, offset⟩ size eeprom).1 =
        if offset % dataSize = 0 then (pagesContent eeprom (page :: rest)).take size
        else ((block (eeprom page)).used.drop (offset % dataSize)).take size := by
  have small := sound.mem_lt member
  have fits := sound.fits file member
  have short := sound.shortEnd file member
  have few := sound.length_lt (sound.distinctPages file member)
    fun page inChain => Layout.uses_page member inChain
  have chain := (sound.dataChain file member).starts
  rw [List.forall_mem_cons] at small
  obtain ⟨full, first, later, whole, length, all, within⟩ := contents_split (by decide)
    (by rwa [ne_eq, blocks, List.map_eq_nil_iff]) fits short inside
  obtain ⟨front, pages, split, rfl, tail⟩ := List.map_eq_append_iff.mp whole
  obtain ⟨page, rest, rfl, rfl, rfl⟩ := List.map_eq_cons_iff.mp tail
  rw [List.length_map] at length
  rw [split] at small chain few
  rw [whole] at fits
  rw [split, blocks_append, blocks_cons, shortEnd_append (List.cons_ne_nil _ _), ← blocks_cons] at short
  have smallFront page (inFront : page ∈ front) := small.2 page (List.mem_append_left _ inFront)
  have smallRest other (inRest : other ∈ page :: rest) := small.2 other (List.mem_append_right _ inRest)
  have fitsRest block (inRest : block ∈ blocks eeprom (page :: rest)) :=
    fits block (List.mem_append_right _ inRest)
  have starts := skipTo_spec chain smallFront
  rw [length] at starts
  refine ⟨page, rest, smallRest page List.mem_cons_self, fitsRest _ List.mem_cons_self, within, ?_, ?_⟩
  · have front : (List.flatMap Block.used (front.map fun page => block (eeprom page))).length =
        offset / dataSize * dataSize := by rw [all.length, List.length_map, length]
    rw [pagesContent, whole, contents_append all, List.drop_append, List.drop_of_length_le,
      List.nil_append, front]
    · congr 1
      have parts := Nat.div_add_mod' offset dataSize
      omega
    · rw [front]
      exact Nat.div_mul_le_self offset dataSize
  · intro behind
    simp only [vfsEepromRead, readPage_of_lt small.1]
    by_cases aligned : offset % dataSize = 0
    · rw [if_pos aligned]
      refine copyPages_spec starts smallRest (List.cons_ne_nil _ _) fitsRest short le_rfl aligned ?_
      have parts := Nat.div_add_mod offset dataSize
      rw [List.length_append, length] at few
      unfold dataSize pageCount at *
      omega
    · rw [if_neg aligned, starts.1]
      exact copyPages_inside (smallRest page List.mem_cons_self) (fitsRest _ List.mem_cons_self) within
        aligned

/-- The handle counts what was delivered. -/
theorem vfsEepromRead_counts (behind : Bytes) (eeprom : Device) (file size : Nat) (small : offset < 65536) :
    (vfsEepromRead behind ⟨file, offset⟩ size eeprom).2 =
      ⟨file, (offset + (vfsEepromRead behind ⟨file, offset⟩ size eeprom).1.length) % 65536⟩ := by
  simp only [vfsEepromRead, Handle.mk.injEq, true_and]
  exact copyPages_offset small

theorem vfsEepromRead_zero (behind : Bytes) :
    vfsEepromRead behind ⟨file, offset⟩ 0 eeprom = ([], ⟨file, offset⟩) := rfl

/-- Only the bytes count. -/
theorem Sound.readLaw_iff_bytes (sound : Sound eeprom layout) (member : file ∈ layout.files) {size : Nat}
    (inside : offset ≤ (pagesContent eeprom (layout.chain file)).length) :
    ReadLaw eeprom file (pagesContent eeprom (layout.chain file)) offset size ↔
      ∀ behind, (vfsEepromRead behind ⟨file, offset⟩ size eeprom).1 =
        ((pagesContent eeprom (layout.chain file)).drop offset).take size := by
  have small : (pagesContent eeprom (layout.chain file)).length < 65536 :=
    sound.offset_lt member (le_of_eq (congrArg List.length (sound.fileContents_eq member).symm))
  constructor
  · intro law behind
    rw [law behind]
  · intro bytes behind
    have counts := vfsEepromRead_counts behind eeprom file size (Nat.lt_of_le_of_lt inside small)
    rw [bytes behind, List.length_take, List.length_drop, Nat.mod_eq_of_lt (by omega)] at counts
    rw [← bytes behind, ← counts]

/-- Without data pages the superblock is read, where at least one byte is in use. -/
theorem Sound.not_readLaw_nil (sound : Sound eeprom layout) (member : file ∈ layout.files)
    (unwritten : layout.chain file = []) {size : Nat} (some : size ≠ 0) :
    ¬ReadLaw eeprom file (pagesContent eeprom (layout.chain file)) 0 size := by
  intro law
  obtain ⟨rest, rfl⟩ := Nat.exists_eq_succ_of_ne_zero some
  have fill := sound.superblock_pageLen (List.ne_nil_of_mem member)
  have ends : nextPage (eeprom file) = 0 := by
    have chain := sound.dataChain file member
    rwa [unwritten] at chain
  have read := congrArg Prod.fst (law fun _ => 0)
  rw [unwritten, pagesContent, blocks_nil, contents_nil, List.drop_nil, List.take_nil,
    vfsEepromRead_start _ _ (sound.used_lt file (Layout.uses_file member)), ends] at read
  have length := congrArg List.length read
  simp only [copyPages, if_neg some, readPage_of_lt (show 0 < pageCount by decide), fill] at length
  have positive : 0 < if rest + 1 < dataSize then rest + 1 else dataSize := by
    unfold dataSize
    split_ifs <;> omega
  generalize (if rest + 1 < dataSize then rest + 1 else dataSize) = count at length positive
  split_ifs at length
  · rw [length_copyFrom] at length
    cases length
  · rw [List.length_append, length_copyFrom, List.length_nil] at length
    omega

/-- Only a full page is followed by more. -/
theorem pagesContent_cons (eeprom : Device) (page : Nat) (rest : List Nat) :
    ∃ more, pagesContent eeprom (page :: rest) = (block (eeprom page)).used ++ more ∧
      (more ≠ [] → dataSize ≤ pageLen (eeprom page)) := by
  rw [pagesContent, blocks_cons, contents]
  split_ifs with short
  · exact ⟨[], (List.append_nil _).symm, fun some => absurd rfl some⟩
  · exact ⟨_, rfl, fun _ => Nat.le_of_not_lt short⟩

/-- In its first page a read is exact. -/
theorem Sound.readLaw_iff_staysInPage (sound : Sound eeprom layout) (member : file ∈ layout.files)
    (written : layout.chain file ≠ [])
    (inside : offset ≤ (pagesContent eeprom (layout.chain file)).length) {size : Nat} :
    ReadLaw eeprom file (pagesContent eeprom (layout.chain file)) offset size ↔
      size = 0 ∨ StaysInPage (pagesContent eeprom (layout.chain file)) offset size := by
  rw [sound.readLaw_iff_bytes member inside]
  obtain ⟨page, rest, -, fits, within, content, reads⟩ := sound.read_split member written inside size
  simp only [reads, forall_const]
  have length := congrArg List.length content
  rw [List.length_drop, List.length_drop] at length
  rw [content, StaysInPage]
  by_cases aligned : offset % dataSize = 0
  · rw [if_pos aligned, aligned, List.drop_zero]
    exact iff_of_true rfl (.inr (.inl rfl))
  · rw [if_neg aligned, or_iff_right aligned]
    obtain ⟨more, split, full⟩ := pagesContent_cons eeprom page rest
    have used : (block (eeprom page)).used.length = pageLen (eeprom page) := by
      rw [Block.length_used, block_fill]
    rw [split, List.length_append, used] at length
    rw [split, List.drop_append_of_le_length (used ▸ within)]
    constructor
    · intro same
      have lengths := congrArg List.length same
      rw [List.length_take, List.length_take, List.length_append, List.length_drop, used] at lengths
      by_cases none : more = []
      · subst none
        rw [List.length_nil] at length
        right
        unfold dataSize at *
        omega
      · have fill := full none
        have positive := List.length_pos_of_ne_nil none
        unfold dataSize at *
        omega
    · intro stays
      by_cases none : more = []
      · rw [none, List.append_nil]
      · have fill := full none
        have positive := List.length_pos_of_ne_nil none
        rw [List.take_append_of_le_length]
        rw [List.length_drop, used]
        unfold dataSize at *
        omega

end Read

/-- The read has a page to read, and nothing to read behind its first page unless it begins with that. -/
def ReadsWell (pages : List Nat) (content : List UInt8) (offset size : Nat) : Prop :=
  size = 0 ∨ pages ≠ [] ∧ StaysInPage content offset size

theorem readLaw_iff {s : State} (reached : Reached s) {file : Nat} (isFile : IsFile s.eeprom file)
    {pages : List Nat} (dataPages : DataPages s.eeprom file pages) {offset : Nat}
    (inside : offset ≤ (pagesContent s.eeprom pages).length) (size : Nat) :
    ReadLaw s.eeprom file (pagesContent s.eeprom pages) offset size ↔
      ReadsWell pages (pagesContent s.eeprom pages) offset size := by
  obtain ⟨layout, good⟩ := reached.good
  have sound := good.sound
  have member := sound.toStructured.isFile.mp isFile
  obtain rfl := (sound.dataChain file member).deterministic dataPages
  by_cases written : layout.chain file = []
  · rw [ReadsWell, or_iff_left (fun both => both.1 written)]
    rw [written] at inside
    obtain rfl := Nat.le_zero.mp inside
    constructor
    · intro law
      by_contra some
      exact sound.not_readLaw_nil member written some law
    · rintro rfl behind
      rw [vfsEepromRead_zero, List.take_zero, Nat.zero_min]
  · rw [ReadsWell, and_iff_right written]
    exact sound.readLaw_iff_staysInPage member written inside

/-- Reads on one handle, one after the other. -/
def readInTurn (behind : Bytes) (eeprom : Device) : Handle → List Nat → List UInt8
  | _, [] => []
  | handle, size :: sizes =>
      let (bytes, handle) := vfsEepromRead behind handle size eeprom
      bytes ++ readInTurn behind eeprom handle sizes

/-- Chunks that are read well are those of the file. -/
theorem readInTurn_eq {s : State} (reached : Reached s) {file : Nat} (isFile : IsFile s.eeprom file)
    {pages : List Nat} (dataPages : DataPages s.eeprom file pages) {offset : Nat}
    (inside : offset ≤ (pagesContent s.eeprom pages).length) {behind : Bytes} {sizes : List Nat}
    (each : EachMeets (fun handle size => (vfsEepromRead behind handle size s.eeprom).2)
      (fun handle size => ReadsWell pages (pagesContent s.eeprom pages) handle.offset size)
      ⟨file, offset⟩ sizes) :
    readInTurn behind s.eeprom ⟨file, offset⟩ sizes =
      ((pagesContent s.eeprom pages).drop offset).take sizes.sum := by
  induction sizes generalizing offset with
  | nil => rfl
  | cons size sizes ih =>
    obtain ⟨well, each⟩ := each
    have law := (readLaw_iff reached isFile dataPages inside size).mpr well behind
    dsimp only at each
    rw [law] at each
    rw [readInTurn, law]
    dsimp only
    rw [ih (by omega) each, List.sum_cons, List.take_add, List.drop_drop]
    congr 2
    rcases Nat.le_total size ((pagesContent s.eeprom pages).length - offset) with less | more
    · rw [Nat.min_eq_left less]
    · rw [List.drop_of_length_le, List.drop_of_length_le]
      · omega
      · omega

/-- The read law. -/
theorem eeprom_read_law {s : State} (reached : Reached s) {file : Nat} (isFile : IsFile s.eeprom file)
    {pages : List Nat} (dataPages : DataPages s.eeprom file pages) :
    (∀ offset ≤ (pagesContent s.eeprom pages).length, ∀ size,
      (ReadLaw s.eeprom file (pagesContent s.eeprom pages) offset size ↔
        ReadsWell pages (pagesContent s.eeprom pages) offset size)) ∧
      ∀ behind sizes, EachMeets (fun handle size => (vfsEepromRead behind handle size s.eeprom).2)
          (fun handle size => ReadsWell pages (pagesContent s.eeprom pages) handle.offset size)
          ⟨file, 0⟩ sizes →
        readInTurn behind s.eeprom ⟨file, 0⟩ sizes = (pagesContent s.eeprom pages).take sizes.sum := by
  constructor
  · intro offset inside size
    exact readLaw_iff reached isFile dataPages inside size
  · intro behind sizes each
    exact readInTurn_eq reached isFile dataPages (Nat.zero_le _) each

theorem eeprom_read_law_twoBytes :
    ∃ s, run twoBytes ⟨format fun _ _ => 0, []⟩ = some s ∧
      ReadLaw s.eeprom 1 (pagesContent s.eeprom [2]) 1 5 := by
  obtain ⟨s, runs, isFile, pages, content, -⟩ := twoBytes_spec
  obtain ⟨layout, good⟩ := (Reached.run (.format _) runs).good
  have member := good.sound.toStructured.isFile.mp isFile
  have bytes : pagesContent s.eeprom [2] = [1, 2] := by
    rw [pagesContent, ← (good.sound.dataChain 1 member).deterministic pages,
      ← good.sound.fileContents_eq member, content]
  obtain ⟨law, -⟩ := eeprom_read_law (Reached.run (.format _) runs) isFile pages
  refine ⟨s, runs, (law 1 ?_ 5).mpr (.inr ⟨List.cons_ne_nil _ _, ?_⟩)⟩
  · rw [bytes]
    decide
  · rw [bytes]
    decide

/-- A byte of the superblock is read from a file that was only created. -/
theorem emptyFile_read :
    ∃ s, run twoFiles ⟨format fun _ _ => 0, []⟩ = some s ∧ IsFile s.eeprom 2 ∧
      DataPages s.eeprom 2 [] ∧ ¬ReadLaw s.eeprom 2 (pagesContent s.eeprom []) 0 1 := by
  obtain ⟨s, runs, -, -, layout, sound, files, -, second⟩ := twoFiles_spec
  have member : 2 ∈ layout.files := by
    rw [files]
    exact List.mem_cons_of_mem _ List.mem_cons_self
  have chain := sound.dataChain 2 member
  have law := sound.not_readLaw_nil member second Nat.one_ne_zero
  rw [second] at chain law
  exact ⟨s, runs, sound.toStructured.isFile.mpr member, chain, law⟩

end Ethersex.Eeprom
