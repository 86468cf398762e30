import Mathlib
import Ethersex.Eeprom.Edits

/-!
# Writing to files

The last loop of a write, which overwrites the data pages of the file from the one it
begins at, and the whole call: what it appends, where it begins, and that the EEPROM stays
sound.
-/

namespace Ethersex.Eeprom

open Library

/-! ## Overwriting pages -/

section Overwrite

variable {eeprom : Device} {page offset : Nat} {data : List UInt8}

/-- One pass of the last loop of a write. -/
def storeBlock (page offset count : Nat) (data : List UInt8) (eeprom : Device) : Device :=
  writeSlice page 3 1 (fun _ => UInt8.ofNat (offset + count))
    (writeSlice page (4 + offset) count (cString data) eeprom)

theorem storeBlock_of_outside (small : page < pageCount) {count : Nat}
    (fits : offset + count ≤ dataSize) {other k : Nat} (outside : other ≠ page ∨ k < 3) :
    storeBlock page offset count data eeprom other k = eeprom other k := by
  have inside : 4 + offset + count ≤ pageSize := by
    unfold dataSize at fits
    unfold pageSize
    omega
  rw [storeBlock, writeSlice_apply_of_outside small (by decide) (outside.imp_right Or.inl),
    writeSlice_apply_of_outside small inside (outside.imp_right fun before => Or.inl (by omega))]

theorem block_storeBlock (small : page < pageCount) {count : Nat} (fits : offset + count ≤ dataSize) :
    block (storeBlock page offset count data eeprom page) =
      (block (eeprom page)).store offset count data := by
  have inside : 4 + offset + count ≤ pageSize := by
    unfold dataSize at fits
    unfold pageSize
    omega
  have fill : pageLen (storeBlock page offset count data eeprom page) = offset + count := by
    have byte : storeBlock page offset count data eeprom page 3 = UInt8.ofNat (offset + count) :=
      writeSlice_apply small (by decide) (show 0 < 1 by decide)
    unfold dataSize at fits
    rw [pageLen, byte, UInt8.toNat_ofNat']
    omega
  have bytes : ∀ k, storeBlock page offset count data eeprom page (4 + k) =
      if offset ≤ k ∧ k < offset + count then data.getD (k - offset) default
      else eeprom page (4 + k) := by
    intro k
    rw [storeBlock, writeSlice_apply_of_outside small (by decide) (Or.inr (Or.inr (by omega)))]
    split_ifs with within
    · have position : 4 + k = 4 + offset + (k - offset) := by omega
      rw [position, writeSlice_apply small inside (by omega)]
      rfl
    · exact writeSlice_apply_of_outside small inside (Or.inr (by omega))
  rw [block, fill]
  exact congrArg (Block.mk _) (funext bytes)

/-- The last loop of a write overwrites the data pages. -/
theorem writePages_spec {start passes : Nat} {pages : List Nat}
    (starts : Starts (fun page => nextPage (eeprom page)) 0 start pages) (distinct : pages.Nodup)
    (small : ∀ page ∈ pages, page < pageCount) (inside : offset < dataSize)
    (room : offset + data.length ≤ dataSize * pages.length) (enough : data.length ≤ passes) :
    (∀ page k, page ∉ pages ∨ k < 3 →
        writePages passes start offset data eeprom page k = eeprom page k) ∧
      blocks (writePages passes start offset data eeprom) pages =
        overwrite dataSize offset data (blocks eeprom pages) := by
  induction pages generalizing start eeprom offset data passes with
  | nil =>
      have none : data = [] := List.length_eq_zero_iff.mp (by
        rw [List.length_nil, Nat.mul_zero] at room
        omega)
      subst none
      cases passes <;> exact ⟨fun _ _ _ => rfl, rfl⟩
  | cons page rest ih =>
      obtain ⟨rfl, nonzero, chain⟩ := starts
      by_cases none : data = []
      · subst none
        rw [overwrite_nil]
        cases passes <;> exact ⟨fun _ _ _ => rfl, rfl⟩
      rw [List.nodup_cons] at distinct
      rw [List.forall_mem_cons] at small
      have positive : 0 < data.length := List.length_pos_iff.mpr none
      obtain ⟨passes, rfl⟩ := Nat.exists_eq_succ_of_ne_zero (Nat.ne_of_gt (Nat.lt_of_lt_of_le
        positive enough))
      have count : (if data.length + offset > dataSize then dataSize - offset else data.length) =
          min data.length (dataSize - offset) := by
        split_ifs <;> omega
      have left : data.drop (min data.length (dataSize - offset)) = data.drop (dataSize - offset) := by
        rcases Nat.le_total data.length (dataSize - offset) with all | part
        · rw [Nat.min_eq_left all, List.drop_length, List.drop_of_length_le all]
        · rw [Nat.min_eq_right part]
      have fits : offset + min data.length (dataSize - offset) ≤ dataSize := by omega
      have unfolded : writePages (passes + 1) start offset data eeprom =
          writePages passes (nextPage (eeprom start)) 0 (data.drop (dataSize - offset))
            (storeBlock start offset (min data.length (dataSize - offset)) data eeprom) := by
        rw [writePages, if_neg none]
        simp only [count, left, readPage_of_lt small.1]
        rfl
      have apart : ∀ page ∈ rest, page ≠ start := fun page member is => distinct.1 (is ▸ member)
      have later : Starts (fun page => nextPage
          (storeBlock start offset (min data.length (dataSize - offset)) data eeprom page)) 0
          (nextPage (eeprom start)) rest := by
        refine chain.starts.congr fun page member => ?_
        have same (k : Nat) := @storeBlock_of_outside eeprom start offset data small.1 _ fits page k
          (Or.inl (apart page member))
        exact nextPage_congr (same 1) (same 2)
      rw [List.length_cons, Nat.mul_succ] at room
      obtain ⟨others, written⟩ := ih later distinct.2 small.2 (by decide)
        (show 0 + (data.drop (dataSize - offset)).length ≤ _ by
          rw [List.length_drop]
          omega)
        (show (data.drop (dataSize - offset)).length ≤ passes by
          rw [List.length_drop]
          omega)
      rw [Nat.succ_eq_add_one, unfolded]
      refine ⟨fun page k outside => ?_, ?_⟩
      · rw [others page k (outside.imp_left List.not_mem_of_not_mem_cons)]
        exact storeBlock_of_outside small.1 fits (outside.imp_left List.ne_of_not_mem_cons)
      · have first : block (writePages passes (nextPage (eeprom start)) 0 (data.drop (dataSize - offset))
            (storeBlock start offset (min data.length (dataSize - offset)) data eeprom) start) =
            (block (eeprom start)).store offset (min data.length (dataSize - offset)) data := by
          rw [← block_storeBlock small.1 fits]
          exact block_congr fun k _ => others start k (Or.inl distinct.1)
        have rest' : blocks (storeBlock start offset (min data.length (dataSize - offset)) data eeprom)
            rest = blocks eeprom rest := by
          refine blocks_congr fun page member k _ => ?_
          exact storeBlock_of_outside small.1 fits (Or.inl (apart page member))
        rw [blocks_cons, first, written, rest', blocks_cons, overwrite, if_neg none]

end Overwrite

/-- Other data in the pages of one file. -/
theorem Sound.overwrite {eeprom eeprom' : Device} {layout : Layout} {file : Nat}
    (sound : Sound eeprom layout) (member : file ∈ layout.files)
    (same : ∀ page k, page ∉ layout.chain file ∨ k < 3 → eeprom' page k = eeprom page k)
    (fits : ∀ block ∈ blocks eeprom' (layout.chain file), block.fill ≤ dataSize)
    (short : ShortEnd dataSize (blocks eeprom' (layout.chain file))) : Sound eeprom' layout := by
  have others : ∀ other ∈ layout.files, other ≠ file →
      blocks eeprom' (layout.chain other) = blocks eeprom (layout.chain other) := by
    refine fun other member' different => blocks_congr fun page inChain k _ => ?_
    exact same page k (Or.inl fun inFile => different
      (sound.apart other member' file member page inChain inFile))
  have structured : Structured eeprom' layout := by
    refine sound.toStructured.congr (fun page => same page 0 (Or.inr (by decide)))
      (fun page isFile => ?_) fun page => ?_
    · have outside : page ∉ layout.chain file := by
        intro inChain
        rcases List.mem_cons.mp isFile with zero | isFile
        · exact (sound.dataChain file member).ne_null page inChain zero
        · exact sound.outside file member page inChain isFile
      have byte (k : Nat) := same page k (Or.inl outside)
      exact nextFile_congr (byte 3) (byte 4)
    · have byte (k : Nat) (before : k < 3) := same page k (Or.inr before)
      exact nextPage_congr (byte 1 (by decide)) (byte 2 (by decide))
  exact
    { structured with
      fits := fun other member' => by
        rcases eq_or_ne other file with rfl | different
        · exact fits
        · rw [others other member' different]
          exact sound.fits other member'
      shortEnd := fun other member' => by
        rcases eq_or_ne other file with rfl | different
        · exact short
        · rw [others other member' different]
          exact sound.shortEnd other member'
      first := sound.first }

/-! ## The whole call -/

section Write

variable {eeprom : Device} {layout : Layout} {file offset : Nat} {data : List UInt8}

/-- The number of pages a file needs for what is written to it. -/
def pagesNeeded (offset count : Nat) : Nat := (offset + count) / dataSize + 1

/-- The last page of a file has room. -/
theorem Sound.last_lt (sound : Sound eeprom layout) (member : file ∈ layout.files)
    (written : layout.chain file ≠ []) :
    pageLen (eeprom (lastNode file (layout.chain file))) < dataSize := by
  refine sound.shortEnd file member (block (eeprom (lastNode file (layout.chain file)))) ?_
  rw [lastNode_eq_getLast written, blocks, List.getLast?_map, List.getLast?_eq_some_getLast written]
  rfl

/-- A page with room in it is one where a write can begin. -/
theorem WritesAt.grown {eeprom' : Device} {layout' : Layout} {new : List Nat} {skip writePage : Nat}
    (writes : WritesAt eeprom skip (layout.chain file) writePage) (member : file ∈ layout.files)
    (structured : Structured eeprom layout) (grown : Grown eeprom layout eeprom' layout' file new) :
    WritesAt eeprom' skip (layout'.chain file) writePage := by
  have same : ∀ page ∈ layout.chain file, pageLen (eeprom' page) = pageLen (eeprom page) := by
    intro page inChain
    have absent := grown.not_mem structured (Layout.uses_page member inChain)
    rw [pageLen, pageLen, grown.kept page 3 absent (Or.inr le_rfl)]
  obtain ⟨front, rest, split, full, within, stops⟩ := writes
  rw [split] at same
  refine ⟨front, rest ++ new, ?_, fun page inFront => ?_, within, ?_⟩
  · rw [grown.chain, split, List.append_assoc, List.cons_append]
  · rw [same page (List.mem_append_left _ inFront)]
    exact full page inFront
  · rwa [same writePage (List.mem_append_right _ List.mem_cons_self)]

/-- How a write begins: the pages it appends, whether these are enough, and if so, at
which page it goes on. -/
theorem Sound.vfsEepromWrite (sound : Sound eeprom layout) (member : file ∈ layout.files)
    (small : offset < 65536) (bound : data.length < 65536) :
    ∃ eeprom' layout' new, Grown eeprom layout eeprom' layout' file new ∧
      ((new.length = pagesNeeded offset data.length - (layout.chain file).length ∧
          ∃ writePage, WritesAt eeprom' (offset / dataSize) (layout'.chain file) writePage ∧
            vfsEepromWrite ⟨file, offset⟩ data eeprom =
              some (writePages data.length writePage (offset % dataSize) data eeprom',
                ⟨file, (offset + data.length) % 65536⟩, data.length)) ∨
        new.length < pagesNeeded offset data.length - (layout.chain file).length ∧
          (∀ page < pageCount, ¬isFree eeprom' page) ∧
          (vfsEepromWrite ⟨file, offset⟩ data eeprom = some (eeprom', ⟨file, offset⟩, 0) ∨
            lastNode file (layout'.chain file) + 1 = pageCount ∧
              vfsEepromWrite ⟨file, offset⟩ data eeprom = none)) := by
  have inside := sound.mem_lt member
  rw [List.forall_mem_cons] at inside
  have short := sound.length_lt (sound.distinctPages file member)
    fun page inChain => Layout.uses_page member inChain
  obtain ⟨found, skip, target⟩ := skipPages_spec (sound.dataChain file member).starts inside.2
    (Nat.le_of_lt short) (offset / dataSize) 0 file
  have needed : ((offset + data.length) / dataSize + 1) % 65536 = pagesNeeded offset data.length := by
    refine Nat.mod_eq_of_lt ?_
    unfold dataSize
    omega
  obtain ⟨eeprom', layout', new, grown, outcome⟩ := sound.allocPages member
    (pagesNeeded offset data.length - (layout.chain file).length)
    (if lastNode file (layout.chain file) = file then 0 else found)
  have call : ∀ writePage, Eeprom.allocPages
      (pagesNeeded offset data.length - (layout.chain file).length)
      (lastNode file (layout.chain file))
      (if lastNode file (layout.chain file) = file then 0 else found) eeprom =
        some (.done eeprom' writePage) → Eeprom.vfsEepromWrite ⟨file, offset⟩ data eeprom =
          some (writePages data.length writePage (offset % dataSize) data eeprom',
            ⟨file, (offset + data.length) % 65536⟩, data.length) := by
    intro writePage done
    rw [Eeprom.vfsEepromWrite]
    simp only [readPage_of_lt inside.1, skip, needed, done, Option.bind_eq_bind, Option.bind_some,
      Nat.zero_add]
  refine ⟨eeprom', layout', new, grown, outcome.imp (fun done => ⟨done.1, ?_⟩)
    fun full => ⟨full.1, full.2.1, full.2.2.imp (fun result => ?_) fun none => ⟨none.1, ?_⟩⟩⟩
  · obtain ⟨length, done⟩ := done
    refine ⟨_, ?_, call _ done⟩
    by_cases unwritten : layout.chain file = []
    · rw [unwritten, lastNode_nil, if_pos rfl, if_pos rfl]
      rw [unwritten, List.length_nil, Nat.sub_zero] at length
      obtain ⟨first, rest, rfl⟩ := List.exists_cons_of_length_eq_add_one length
      refine ⟨[], rest, by rw [grown.chain, unwritten]; rfl,
        fun _ absent => absurd absent List.not_mem_nil, Nat.zero_le _, Or.inr ?_⟩
      rw [List.headD_cons, grown.empty first List.mem_cons_self]
      decide
    · have lastMem : lastNode file (layout.chain file) ∈ layout.chain file :=
        lastNode_mem_of_ne_nil unwritten
      have different : lastNode file (layout.chain file) ≠ file := fun is =>
        sound.outside file member _ lastMem (by rwa [is])
      rw [if_neg different]
      rcases target with ⟨-, full⟩ | writes
      · exact absurd (sound.last_lt member unwritten) (full _ lastMem)
      · have nonzero : found ≠ 0 := by
          obtain ⟨front, rest, split, -⟩ := writes
          refine (sound.dataChain file member).ne_null found ?_
          rw [split]
          exact List.mem_append_right _ List.mem_cons_self
        rw [if_neg nonzero]
        exact writes.grown member sound.toStructured grown
  · rw [Eeprom.vfsEepromWrite]
    simp only [readPage_of_lt inside.1, skip, needed, result, Option.bind_eq_bind, Option.bind_some,
      Nat.zero_add]
  · rw [Eeprom.vfsEepromWrite]
    simp only [readPage_of_lt inside.1, skip, needed, none.2, Option.bind_eq_bind, Option.bind_some,
      Option.bind_none, Nat.zero_add]

/-- What is written ends inside the pages of the file. -/
theorem room_behind {pages front rest : List Nat} {writePage : Nat}
    (split : pages = front ++ writePage :: rest) (within : front.length ≤ offset / dataSize)
    (enough : pagesNeeded offset data.length ≤ pages.length) :
    offset % dataSize + data.length < dataSize * (writePage :: rest).length := by
  have length : pages.length = front.length + (rest.length + 1) := by
    rw [split, List.length_append, List.length_cons]
  rw [List.length_cons]
  unfold pagesNeeded dataSize at *
  omega

/-- A write whose pages are there leaves a sound EEPROM behind. -/
theorem Sound.writePages (sound : Sound eeprom layout) (member : file ∈ layout.files)
    {writePage : Nat} {front rest : List Nat} (split : layout.chain file = front ++ writePage :: rest)
    (within : front.length ≤ offset / dataSize)
    (enough : pagesNeeded offset data.length ≤ (layout.chain file).length) :
    (∀ page k, page ∉ layout.chain file ∨ k < 3 →
        writePages data.length writePage (offset % dataSize) data eeprom page k = eeprom page k) ∧
      blocks (writePages data.length writePage (offset % dataSize) data eeprom) (layout.chain file) =
        blocks eeprom front ++
          Library.overwrite dataSize (offset % dataSize) data (blocks eeprom (writePage :: rest)) ∧
      Sound (writePages data.length writePage (offset % dataSize) data eeprom) layout := by
  have chain := sound.dataChain file member
  have distinct := sound.distinctPages file member
  have inside := sound.mem_lt member
  have fits := sound.fits file member
  have short := sound.shortEnd file member
  have room := room_behind split within enough
  rw [split] at chain distinct inside fits short
  rw [blocks_append] at fits short
  rw [List.forall_mem_append] at fits
  rw [blocks_cons, shortEnd_append (List.cons_ne_nil _ _), ← blocks_cons] at short
  have starts : Starts (fun page => nextPage (eeprom page)) 0 writePage (writePage :: rest) :=
    ⟨rfl, chain.drop.2⟩
  obtain ⟨others, written⟩ := writePages_spec starts (List.nodup_append.mp distinct).2.1
    (fun page member' => inside page (List.mem_cons_of_mem _ (List.mem_append_right _ member')))
    (Nat.mod_lt offset (by decide)) (Nat.le_of_lt room) (le_refl data.length)
  generalize Eeprom.writePages data.length writePage (offset % dataSize) data eeprom = eeprom' at *
  have same : ∀ page k, page ∉ layout.chain file ∨ k < 3 → eeprom' page k = eeprom page k := by
    refine fun page k outside => others page k (outside.imp_left fun absent inRest => absent ?_)
    rw [split]
    exact List.mem_append_right _ inRest
  have front' : blocks eeprom' front = blocks eeprom front := by
    refine blocks_congr fun page inFront k _ => others page k (Or.inl fun inRest => ?_)
    exact (List.nodup_append.mp distinct).2.2 page inFront page inRest rfl
  have after : blocks eeprom' (layout.chain file) = blocks eeprom front ++
      Library.overwrite dataSize (offset % dataSize) data (blocks eeprom (writePage :: rest)) := by
    rw [split, blocks_append, front', written]
  refine ⟨same, after, sound.overwrite member same ?_ ?_⟩
  · rw [after, List.forall_mem_append]
    exact ⟨fits.1, overwrite_fits (Nat.le_of_lt (Nat.mod_lt offset (by decide))) fits.2⟩
  · rw [after, shortEnd_append]
    · refine short.overwrite ?_
      rwa [length_blocks]
    · rw [← List.length_pos_iff, length_overwrite, length_blocks]
      exact Nat.succ_pos _

end Write

end Ethersex.Eeprom
