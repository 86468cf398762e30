import Mathlib
import Ethersex.Eeprom.Runs

/-!
# What a write does to files

A write that succeeds puts its data where they belong, but it also sets the fill of the
last page it touches to the end of the data, so that a file that went on in that page ends
there, and one that had ended in front of a page boundary goes on with what lies behind it.
A write for which there are not enough pages keeps those it has appended.
-/

namespace Ethersex.Eeprom

open Library

/-! ## Reading a file -/

/-- The bytes that a read of the whole file delivers. -/
def fileContents (eeprom : Device) (file : Nat) : List UInt8 :=
  (vfsEepromRead (fun _ => 0) ⟨file, 0⟩ ((vfsEepromFilesize ⟨file, 0⟩ eeprom).getD 0) eeprom).1

/-- Reading from the start delivers `content`, however much is asked for. -/
def Delivers (eeprom : Device) (file : Nat) (content : List UInt8) : Prop :=
  ∀ behind size, (vfsEepromRead behind ⟨file, 0⟩ size eeprom).1 = content.take size

section Reading

variable {eeprom : Device} {layout : Layout} {file : Nat}

theorem vfsEepromRead_start (behind : Bytes) (size : Nat) (inside : file < pageCount) :
    (vfsEepromRead behind ⟨file, 0⟩ size eeprom).1 =
      (copyPages behind eeprom size (nextPage (eeprom file)) 0 size).1 := by
  simp only [vfsEepromRead, readPage_of_lt inside, Nat.zero_div, skipTo]

/-- A file that was written to. -/
theorem Sound.read_start (sound : Sound eeprom layout) (member : file ∈ layout.files)
    (written : layout.chain file ≠ []) :
    Delivers eeprom file (contents dataSize (blocks eeprom (layout.chain file))) := by
  have inside := sound.mem_lt member
  rw [List.forall_mem_cons] at inside
  have short := sound.length_lt (sound.distinctPages file member)
    fun page inChain => Layout.uses_page member inChain
  intro behind size
  rw [vfsEepromRead_start behind size inside.1]
  refine copyPages_spec (sound.dataChain file member).starts inside.2 written
    (sound.fits file member) (sound.shortEnd file member) (le_refl size) rfl ?_
  unfold dataSize
  unfold pageCount at short
  omega

theorem Sound.fileContents_eq (sound : Sound eeprom layout) (member : file ∈ layout.files) :
    fileContents eeprom file = contents dataSize (blocks eeprom (layout.chain file)) := by
  rw [fileContents, sound.filesize member, Option.getD_some]
  by_cases written : layout.chain file = []
  · rw [written, blocks_nil, contents_nil, List.length_nil, vfsEepromRead_start _ _
      (sound.used_lt file (Layout.uses_file member)), copyPages_none]
  · rw [sound.read_start member written, List.take_length]

theorem Sound.delivers_iff (sound : Sound eeprom layout) (member : file ∈ layout.files)
    (written : layout.chain file ≠ []) {content : List UInt8} :
    Delivers eeprom file content ↔
      contents dataSize (blocks eeprom (layout.chain file)) = content := by
  have delivers := sound.read_start member written
  constructor
  · intro other
    have same (size : Nat) := (delivers (fun _ => 0) size).symm.trans (other (fun _ => 0) size)
    have all := same ((contents dataSize (blocks eeprom (layout.chain file))).length + content.length)
    rwa [List.take_of_length_le (Nat.le_add_right _ _),
      List.take_of_length_le (Nat.le_add_left _ _)] at all
  · rintro rfl
    exact delivers

/-- The superblock, taken for a data page. -/
theorem Sound.superblock_pageLen (sound : Sound eeprom layout) (nonempty : layout.files ≠ []) :
    pageLen (eeprom 0) = 1 := by
  have first : nextFile (eeprom 0) = 1 := by
    have list := sound.fileList
    obtain ⟨head, rest, is⟩ := List.exists_cons_of_ne_nil nonempty
    have one := sound.first.resolve_left nonempty
    rw [is] at list one
    exact list.1.trans (Option.some.inj one)
  have := (eeprom 0 3).toNat_lt
  have := (eeprom 0 4).toNat_lt
  rw [nextFile, decode16] at first
  simp only [Nat.add_zero, Nat.reduceAdd] at first
  rw [pageLen]
  omega

/-- A file without data pages reads as the page of the superblock. -/
theorem Sound.not_delivers_nil (sound : Sound eeprom layout) (member : file ∈ layout.files)
    (unwritten : layout.chain file = []) : ¬Delivers eeprom file [] := by
  intro delivers
  have fill := sound.superblock_pageLen (List.ne_nil_of_mem member)
  have ends : nextPage (eeprom file) = 0 := by
    have chain := sound.dataChain file member
    rwa [unwritten] at chain
  have read := delivers (fun _ => 0) 1
  rw [vfsEepromRead_start _ _ (sound.used_lt file (Layout.uses_file member)), ends] at read
  simp [copyPages, readPage, fill, dataSize, copyFrom] at read

end Reading

/-! ## Writing to a file -/

/-- The page is on the list of files. -/
def IsFile (eeprom : Device) (file : Nat) : Prop :=
  ∃ files, Chain (fun page => nextFile (eeprom page)) 0 0 files ∧ file ∈ files

/-- The data pages of a file. -/
def DataPages (eeprom : Device) (file : Nat) (pages : List Nat) : Prop :=
  Chain (fun page => nextPage (eeprom page)) 0 file pages

theorem Structured.isFile {eeprom : Device} {layout : Layout} (structured : Structured eeprom layout)
    {file : Nat} : IsFile eeprom file ↔ file ∈ layout.files := by
  constructor
  · rintro ⟨files, list, member⟩
    rwa [structured.fileList.deterministic list]
  · exact fun member => ⟨layout.files, structured.fileList, member⟩

/-- What a write that succeeds should have done. -/
structure WriteLaw (eeprom : Device) (file offset : Nat) (data : List UInt8) (eeprom' : Device)
    (handle' : Handle) : Prop where
  delivers : Delivers eeprom' file ((fileContents eeprom file).take offset ++ data ++
    (fileContents eeprom file).drop (offset + data.length))
  advances : handle' = ⟨file, offset + data.length⟩
  others : ∀ other, IsFile eeprom other → other ≠ file →
    fileContents eeprom' other = fileContents eeprom other ∧
      vfsEepromFilesize ⟨other, 0⟩ eeprom' = vfsEepromFilesize ⟨other, 0⟩ eeprom

/-- Nothing of the file lies behind the data in the last page written, and nothing else
does in the next one. -/
def EndsCleanly (eeprom : Device) (file : Nat) (pages : List Nat) (ends : Nat) : Prop :=
  (¬dataSize ∣ ends → (fileContents eeprom file).length ≤ ends) ∧
    (dataSize ∣ ends → (fileContents eeprom file).length < ends →
      ∀ page ∈ pages[ends / dataSize]?, pageLen (eeprom page) = 0)

section Writing

variable {eeprom eeprom' : Device} {layout layout' : Layout} {file offset writePage : Nat}
  {data : List UInt8} {new : List Nat}

/-- The write begins in the page that holds its offset. -/
theorem WritesAt.front_length {pages front rest : List Nat}
    (split : pages = front ++ writePage :: rest) (within : front.length ≤ offset / dataSize)
    (stops : front.length = offset / dataSize ∨ pageLen (eeprom writePage) < dataSize)
    (fits : ∀ block ∈ blocks eeprom pages, block.fill ≤ dataSize)
    (short : ShortEnd dataSize (blocks eeprom pages))
    (inside : offset ≤ (contents dataSize (blocks eeprom pages)).length) :
    front.length = offset / dataSize := by
  refine stops.elim id fun room => ?_
  by_contra different
  have nonempty : blocks eeprom pages ≠ [] := by
    rw [split, blocks_append, blocks_cons]
    exact List.append_ne_nil_of_right_ne_nil _ (List.cons_ne_nil _ _)
  obtain ⟨full, behind, tail, is, length, all, -⟩ :=
    contents_split (by decide) nonempty fits short inside
  have before : front.length < full.length := by omega
  have here : (blocks eeprom pages)[front.length]? = some (block (eeprom writePage)) := by
    simp [split, blocks]
  rw [is, List.getElem?_append_left before] at here
  have filled := all _ (List.mem_of_getElem? here)
  rw [block_fill] at filled
  omega

/-- What a write whose pages are there does to the file. -/
theorem Sound.blocks_writePages (sound : Sound eeprom layout) (member : file ∈ layout.files)
    (writes : WritesAt eeprom (offset / dataSize) (layout.chain file) writePage)
    (enough : pagesNeeded offset data.length ≤ (layout.chain file).length)
    (inside : offset ≤ (contents dataSize (blocks eeprom (layout.chain file))).length) :
    (∀ page k, page ∉ layout.chain file ∨ k < 3 →
        Eeprom.writePages data.length writePage (offset % dataSize) data eeprom page k =
          eeprom page k) ∧
      blocks (Eeprom.writePages data.length writePage (offset % dataSize) data eeprom)
          (layout.chain file) =
        overwriteAt dataSize offset data (blocks eeprom (layout.chain file)) ∧
      Sound (Eeprom.writePages data.length writePage (offset % dataSize) data eeprom) layout := by
  obtain ⟨front, rest, split, -, within, stops⟩ := writes
  obtain ⟨same, written, sound'⟩ := sound.writePages member split within enough
  have length := WritesAt.front_length split within stops (sound.fits file member)
    (sound.shortEnd file member) inside
  refine ⟨same, written.trans ?_, sound'⟩
  rw [split, blocks_append, overwriteAt_append (by rwa [length_blocks])]

/-- Appending pages does not change what a file holds. -/
theorem Grown.contents_eq (grown : Grown eeprom layout eeprom' layout' file new)
    (sound : Sound eeprom layout) {other : Nat} (member : other ∈ layout.files) :
    contents dataSize (blocks eeprom' (layout'.chain other)) =
      contents dataSize (blocks eeprom (layout.chain other)) := by
  have old := grown.blocks_eq sound.toStructured
    (fun page inChain => Layout.uses_page member inChain)
  rcases eq_or_ne other file with rfl | different
  · rw [grown.chain, blocks_append, old]
    refine contents_append_empty (sound.shortEnd other member) fun block isNew => ?_
    obtain ⟨page, inNew, rfl⟩ := List.mem_map.mp isNew
    exact grown.empty page inNew
  · rw [grown.chains other member different, old]

/-- The page of a file at which the data end. -/
theorem Grown.page_at (grown : Grown eeprom layout eeprom' layout' file new)
    (sound : Sound eeprom layout) (member : file ∈ layout.files) (index : Nat) :
    (∀ block ∈ (blocks eeprom' (layout'.chain file))[index]?, block.fill = 0) ↔
      ∀ page ∈ (layout.chain file)[index]?, pageLen (eeprom page) = 0 := by
  have old := grown.blocks_eq sound.toStructured
    (fun page inChain => Layout.uses_page member inChain)
  rw [grown.chain, blocks_append, old]
  rcases Nat.lt_or_ge index (layout.chain file).length with inside | behind
  · rw [List.getElem?_append_left (by rwa [length_blocks]), blocks, List.getElem?_map]
    simp only [Option.mem_map, forall_exists_index, and_imp, forall_apply_eq_imp_iff₂, block_fill]
  · rw [List.getElem?_append_right (by rwa [length_blocks]), List.getElem?_eq_none behind]
    refine iff_of_true (fun block is => ?_) fun _ absent => absurd absent (Option.not_mem_none _)
    obtain ⟨page, inNew, rfl⟩ := List.mem_map.mp (List.mem_of_getElem? is)
    exact grown.empty page inNew

/-- A write that has found or appended the pages it needs. -/
theorem Grown.writeLaw_iff (grown : Grown eeprom layout eeprom' layout' file new)
    (sound : Sound eeprom layout) (member : file ∈ layout.files)
    (enough : pagesNeeded offset data.length ≤ (layout'.chain file).length)
    (writes : WritesAt eeprom' (offset / dataSize) (layout'.chain file) writePage)
    (inside : offset ≤ (fileContents eeprom file).length) :
    WriteLaw eeprom file offset data
        (writePages data.length writePage (offset % dataSize) data eeprom')
        ⟨file, (offset + data.length) % 65536⟩ ↔
      (data ≠ [] → EndsCleanly eeprom file (layout.chain file) (offset + data.length)) := by
  have member' : file ∈ layout'.files := grown.files ▸ member
  have content : contents dataSize (blocks eeprom' (layout'.chain file)) = fileContents eeprom file := by
    rw [grown.contents_eq sound member, sound.fileContents_eq member]
  obtain ⟨same, written, sound'⟩ := grown.sound.blocks_writePages member' writes enough
    (by rwa [content])
  have short := sound'.length_lt (sound'.distinctPages file member')
    fun page inChain => Layout.uses_page member' inChain
  have nonempty : layout'.chain file ≠ [] := by
    intro none
    rw [none] at enough
    exact absurd enough (Nat.not_succ_le_zero _)
  have advances : (offset + data.length) % 65536 = offset + data.length := by
    refine Nat.mod_eq_of_lt ?_
    unfold pagesNeeded dataSize at enough
    unfold pageCount at short
    omega
  have others : ∀ other, IsFile eeprom other → other ≠ file →
      contents dataSize (blocks (writePages data.length writePage (offset % dataSize) data eeprom')
        (layout'.chain other)) = contents dataSize (blocks eeprom (layout.chain other)) := by
    intro other isFile different
    have old := sound.toStructured.isFile.mp isFile
    rw [← grown.contents_eq sound old]
    refine congrArg _ (blocks_congr fun page inChain k _ => same page k (Or.inl fun inFile => ?_))
    exact different (grown.sound.apart other (grown.files ▸ old) file member' page inChain inFile)
  have whole : WriteLaw eeprom file offset data
        (writePages data.length writePage (offset % dataSize) data eeprom')
        ⟨file, (offset + data.length) % 65536⟩ ↔
      contents dataSize (overwriteAt dataSize offset data (blocks eeprom' (layout'.chain file))) =
        (fileContents eeprom file).take offset ++ data ++
          (fileContents eeprom file).drop (offset + data.length) := by
    rw [← written, ← sound'.delivers_iff member' nonempty]
    refine ⟨fun law => law.delivers, fun delivers => ⟨delivers, by rw [advances], ?_⟩⟩
    intro other isFile different
    have old := sound.toStructured.isFile.mp isFile
    have listed : other ∈ layout'.files := grown.files ▸ old
    rw [sound'.fileContents_eq listed, sound'.filesize listed, sound.fileContents_eq old,
      sound.filesize old, others other isFile different]
    exact ⟨rfl, rfl⟩
  rw [whole]
  by_cases nothing : data = []
  · subst nothing
    rw [overwriteAt, overwrite_nil, List.take_append_drop, content, List.append_nil,
      List.length_nil, Nat.add_zero, List.take_append_drop]
    exact iff_of_true rfl fun some => absurd rfl some
  · have room : offset + data.length ≤ dataSize * (blocks eeprom' (layout'.chain file)).length := by
      rw [length_blocks]
      unfold pagesNeeded dataSize at enough
      unfold dataSize
      omega
    have law := overwriteAt_eq_iff (by decide) (by rwa [ne_eq, blocks, List.map_eq_nil_iff])
      (grown.sound.fits file member') (grown.sound.shortEnd file member')
      (show offset ≤ _ by rwa [content]) nothing room
    rw [content, grown.page_at sound member] at law
    rw [law, EndsCleanly]
    exact ⟨fun cleanly _ => cleanly, fun cleanly => cleanly nothing⟩

end Writing

theorem Sound.offset_lt {eeprom : Device} {layout : Layout} (sound : Sound eeprom layout)
    {file offset : Nat} (member : file ∈ layout.files)
    (inside : offset ≤ (fileContents eeprom file).length) : offset < 65536 := by
  have short := sound.length_lt (sound.distinctPages file member)
    fun page inChain => Layout.uses_page member inChain
  have length := length_contents_le (sound.fits file member)
  rw [← sound.fileContents_eq member, length_blocks] at length
  unfold dataSize at length
  unfold pageCount at short
  omega

/-- A write does not look for a page if the file has one at its offset. -/
theorem Sound.pagesNeeded_le {eeprom : Device} {layout : Layout} (sound : Sound eeprom layout)
    {file offset : Nat} (member : file ∈ layout.files) (written : layout.chain file ≠ [])
    (inside : offset ≤ (fileContents eeprom file).length) :
    pagesNeeded offset 0 ≤ (layout.chain file).length := by
  rw [sound.fileContents_eq member] at inside
  obtain ⟨full, block, rest, is, length, -⟩ := contents_split (by decide)
    (by rwa [ne_eq, blocks, List.map_eq_nil_iff]) (sound.fits file member)
    (sound.shortEnd file member) inside
  have pages := congrArg List.length is
  rw [length_blocks, List.length_append, List.length_cons, length] at pages
  change offset / dataSize + 1 ≤ _
  omega

/-- The condition under which a write that succeeds has done what it should: it has data,
and the file does not go on in the last page they touch, nor is there something else behind
a page that they fill; or it has none, and the file has a page or gets one. -/
def WritesCleanly (eeprom : Device) (file : Nat) (pages : List Nat) (offset : Nat)
    (data : List UInt8) : Prop :=
  (data = [] → pages ≠ [] ∨ ∃ page < pageCount, isFree eeprom page) ∧
    (data ≠ [] → EndsCleanly eeprom file pages (offset + data.length))

/-- The write law. -/
theorem eeprom_write_law {s : State} (reached : Reached s) {file : Nat} (isFile : IsFile s.eeprom file)
    {pages : List Nat} (dataPages : DataPages s.eeprom file pages) {offset : Nat}
    (inside : offset ≤ (fileContents s.eeprom file).length) (data : Buffer) {eeprom' : Device}
    {handle' : Handle} (returns : vfsEepromWrite ⟨file, offset⟩ data.val s.eeprom =
      some (eeprom', handle', data.val.length)) :
    WriteLaw s.eeprom file offset data.val eeprom' handle' ↔
      WritesCleanly s.eeprom file pages offset data.val := by
  obtain ⟨layout, sound, -⟩ := reached.good
  have member := sound.toStructured.isFile.mp isFile
  obtain rfl := (sound.dataChain file member).deterministic dataPages
  obtain ⟨eeprom₁, layout₁, new, grown, ⟨length, writePage, writes, call⟩ |
    ⟨less, full, call | ⟨-, call⟩⟩⟩ :=
    sound.vfsEepromWrite member (sound.offset_lt member inside) data.property
  · rw [call, Option.some.injEq, Prod.mk.injEq, Prod.mk.injEq] at returns
    obtain ⟨rfl, rfl, -⟩ := returns
    have enough : pagesNeeded offset data.val.length ≤ (layout₁.chain file).length := by
      rw [grown.chain, List.length_append, length]
      omega
    rw [grown.writeLaw_iff sound member enough writes inside, WritesCleanly]
    refine (and_iff_right fun _ => ?_).symm
    by_contra nothing
    rw [not_or, not_not] at nothing
    rw [nothing.1, List.length_nil, Nat.sub_zero] at length
    obtain ⟨page, rest, rfl⟩ := List.exists_cons_of_length_eq_add_one length
    exact nothing.2 ⟨page, grown.free page List.mem_cons_self⟩
  · -- Only a write without data can report its length when there are not enough pages.
    rw [call, Option.some.injEq, Prod.mk.injEq, Prod.mk.injEq] at returns
    obtain ⟨rfl, rfl, none⟩ := returns
    have empty : data.val = [] := List.length_eq_zero_iff.mp none.symm
    have unwritten : layout.chain file = [] := by
      by_contra written
      have enough := sound.pagesNeeded_le member written inside
      rw [empty, List.length_nil] at less
      omega
    have nothing : fileContents s.eeprom file = [] := by
      rw [sound.fileContents_eq member, unwritten, blocks_nil, contents_nil]
    have start : offset = 0 := by
      rw [nothing] at inside
      exact Nat.le_zero.mp inside
    have noPages : new = [] := by
      rw [empty, unwritten, start] at less
      exact List.length_eq_zero_iff.mp (Nat.lt_one_iff.mp less)
    subst noPages
    refine iff_of_false (fun law => ?_) fun cleanly => ?_
    · have delivers := law.delivers
      rw [empty, nothing, List.take_nil, List.drop_nil] at delivers
      refine grown.sound.not_delivers_nil (grown.files ▸ member) ?_ delivers
      rw [grown.chain, unwritten, List.append_nil]
    · rcases cleanly.1 empty with written | ⟨page, small, free⟩
      · exact written unwritten
      · refine full page small ?_
        rwa [isFree_congr small (grown.kept page 0 List.not_mem_nil (Or.inl rfl))]
  · exact nomatch call.symm.trans returns

/-- A file of two bytes. -/
def twoBytes : List Op := [.create [97] true, .write 0 ⟨[1, 2], by decide⟩]

theorem twoBytes_spec :
    ∃ s, run twoBytes ⟨format fun _ _ => 0, []⟩ = some s ∧ IsFile s.eeprom 1 ∧
      DataPages s.eeprom 1 [2] ∧ fileContents s.eeprom 1 = [1, 2] ∧
      (∃ eeprom', vfsEepromWrite ⟨1, 2⟩ [3] s.eeprom = some (eeprom', ⟨1, 3⟩, 1)) ∧
      ∃ eeprom', vfsEepromWrite ⟨1, 0⟩ [3] s.eeprom = some (eeprom', ⟨1, 1⟩, 1) ∧
        (vfsEepromRead (fun _ => 0) ⟨1, 0⟩ 2 eeprom').1 = [3] := by
  have facts : (run twoBytes ⟨format fun _ _ => 0, []⟩).any fun s =>
      nextFile (s.eeprom 0) = 1 ∧ nextFile (s.eeprom 1) = 0 ∧ nextPage (s.eeprom 1) = 2 ∧
        nextPage (s.eeprom 2) = 0 ∧ fileContents s.eeprom 1 = [1, 2] ∧
        ((vfsEepromWrite ⟨1, 2⟩ [3] s.eeprom).any fun result => result.2 = (⟨1, 3⟩, 1)) ∧
        (vfsEepromWrite ⟨1, 0⟩ [3] s.eeprom).any fun result => result.2 = (⟨1, 1⟩, 1) ∧
          (vfsEepromRead (fun _ => 0) ⟨1, 0⟩ 2 result.1).1 = [3] := by
    decide +kernel
  obtain ⟨s, runs, facts⟩ := Option.any_eq_true .. |>.mp facts
  obtain ⟨file, ends, page, pageEnds, content, behind, front⟩ := of_decide_eq_true facts
  obtain ⟨⟨eeprom', _⟩, call, is⟩ := Option.any_eq_true .. |>.mp behind
  obtain ⟨⟨eeprom₂, _⟩, call₂, is₂⟩ := Option.any_eq_true .. |>.mp front
  obtain rfl := of_decide_eq_true is
  obtain ⟨rfl, read⟩ := of_decide_eq_true is₂
  exact ⟨s, runs, ⟨[1], ⟨file, by decide, ends⟩, List.mem_singleton_self _⟩,
    ⟨page, by decide, pageEnds⟩, content, ⟨eeprom', call⟩, eeprom₂, call₂, read⟩

/-- Overwriting the first of two bytes drops the second one. -/
theorem overwrite_not_writeLaw :
    ∃ s, run twoBytes ⟨format fun _ _ => 0, []⟩ = some s ∧ IsFile s.eeprom 1 ∧
      fileContents s.eeprom 1 = [1, 2] ∧ ∃ eeprom' handle',
        vfsEepromWrite ⟨1, 0⟩ [3] s.eeprom = some (eeprom', handle', 1) ∧
          ¬WriteLaw s.eeprom 1 0 [3] eeprom' handle' := by
  obtain ⟨s, runs, isFile, -, content, -, eeprom', call, read⟩ := twoBytes_spec
  refine ⟨s, runs, isFile, content, eeprom', ⟨1, 1⟩, call, fun law => ?_⟩
  have delivers := law.delivers (fun _ => 0) 2
  rw [read, content] at delivers
  exact absurd delivers (by decide)

theorem eeprom_write_law_append :
    ∃ s, run twoBytes ⟨format fun _ _ => 0, []⟩ = some s ∧ ∃ eeprom' handle',
      vfsEepromWrite ⟨1, 2⟩ [3] s.eeprom = some (eeprom', handle', 1) ∧
        WriteLaw s.eeprom 1 2 [3] eeprom' handle' := by
  obtain ⟨s, runs, isFile, pages, content, ⟨eeprom', call⟩, -⟩ := twoBytes_spec
  refine ⟨s, runs, eeprom', ⟨1, 3⟩, call, (eeprom_write_law (Reached.run (.format _) runs) isFile
    pages (content ▸ by decide) ⟨[3], by decide⟩ call).mpr ⟨nofun, fun _ => ⟨fun _ => ?_, ?_⟩⟩⟩
  · rw [content]
    decide
  · exact fun divides => absurd divides (by decide)

/-! ## Too few pages -/

/-- The number of free pages. -/
def freePages (eeprom : Device) : Nat :=
  ((Finset.range pageCount).filter fun page => isFree eeprom page).card

/-- What a write that fails for lack of pages should leave alone. -/
structure FailureLaw (eeprom : Device) (handle : Handle) (eeprom' : Device) (handle' : Handle) :
    Prop where
  contents : fileContents eeprom' handle.filePage = fileContents eeprom handle.filePage
  size : vfsEepromFilesize handle' eeprom' = vfsEepromFilesize handle eeprom
  offset : handle'.offset = handle.offset
  free : freePages eeprom' = freePages eeprom

theorem Grown.isFree_iff {eeprom eeprom' : Device} {layout layout' : Layout} {file page : Nat}
    {new : List Nat} (grown : Grown eeprom layout eeprom' layout' file new)
    (member : file ∈ layout.files) (small : page < pageCount) :
    isFree eeprom' page ↔ isFree eeprom page ∧ page ∉ new := by
  by_cases isNew : page ∈ new
  · refine iff_of_false (fun free => ?_) fun both => both.2 isNew
    refine ((grown.sound.isFree_iff small).mp free).2 (Layout.uses_page (grown.files ▸ member) ?_)
    rw [grown.chain]
    exact List.mem_append_right _ isNew
  · rw [isFree_congr small (grown.kept page 0 isNew (Or.inl rfl))]
    exact (and_iff_left isNew).symm

/-- Every page that was appended is one less. -/
theorem Grown.freePages_add {eeprom eeprom' : Device} {layout layout' : Layout} {file : Nat}
    {new : List Nat} (grown : Grown eeprom layout eeprom' layout' file new)
    (member : file ∈ layout.files) : freePages eeprom' + new.length = freePages eeprom := by
  have distinct : new.Nodup := by
    have all := grown.sound.distinctPages file (grown.files ▸ member)
    rw [grown.chain] at all
    exact (List.nodup_append.mp all).2.1
  have split : (Finset.range pageCount).filter (fun page => isFree eeprom page) =
      (Finset.range pageCount).filter (fun page => isFree eeprom' page) ∪ new.toFinset := by
    ext page
    rw [Finset.mem_union, Finset.mem_filter, Finset.mem_filter, List.mem_toFinset, Finset.mem_range]
    constructor
    · rintro ⟨small, free⟩
      rw [grown.isFree_iff member small]
      tauto
    · rintro (⟨small, free⟩ | isNew)
      · exact ⟨small, ((grown.isFree_iff member small).mp free).1⟩
      · exact grown.free page isNew
  have disjoint : Disjoint ((Finset.range pageCount).filter fun page => isFree eeprom' page)
      new.toFinset := by
    rw [Finset.disjoint_left]
    intro page inside isNew
    rw [Finset.mem_filter, Finset.mem_range] at inside
    exact ((grown.isFree_iff member inside.1).mp inside.2).2 (List.mem_toFinset.mp isNew)
  rw [freePages, freePages, split, Finset.card_union_of_disjoint disjoint,
    List.toFinset_card_of_nodup distinct]

/-- A write that has run out of pages. -/
theorem Grown.failureLaw_iff {eeprom eeprom' : Device} {layout layout' : Layout} {file : Nat}
    {new : List Nat} (grown : Grown eeprom layout eeprom' layout' file new)
    (sound : Sound eeprom layout) (member : file ∈ layout.files)
    (full : ∀ page < pageCount, ¬isFree eeprom' page) (offset : Nat) :
    FailureLaw eeprom ⟨file, offset⟩ eeprom' ⟨file, offset⟩ ↔
      ∀ page < pageCount, ¬isFree eeprom page := by
  have member' : file ∈ layout'.files := grown.files ▸ member
  have content := grown.contents_eq sound member
  have count := grown.freePages_add member
  have whole : FailureLaw eeprom ⟨file, offset⟩ eeprom' ⟨file, offset⟩ ↔ new = [] := by
    rw [← List.length_eq_zero_iff]
    constructor
    · intro law
      have same := law.free
      omega
    · refine fun none => ⟨?_, ?_, rfl, by omega⟩
      · rw [grown.sound.fileContents_eq member', sound.fileContents_eq member, content]
      · rw [grown.sound.filesize member', sound.filesize member, content]
  rw [whole]
  constructor
  · rintro rfl page small free
    exact full page small ((grown.isFree_iff member small).mpr ⟨free, List.not_mem_nil⟩)
  · intro none
    rw [List.eq_nil_iff_forall_not_mem]
    exact fun page isNew => none page (grown.free page isNew).1 (grown.free page isNew).2

/-- A write that reports that no page was left. -/
theorem eeprom_out_of_space {s : State} (reached : Reached s) {file : Nat}
    (isFile : IsFile s.eeprom file) (offset : UInt16) {data : Buffer} (some : data.val ≠ [])
    {eeprom' : Device} {handle' : Handle}
    (fails : vfsEepromWrite ⟨file, offset.toNat⟩ data.val s.eeprom = .some (eeprom', handle', 0)) :
    FailureLaw s.eeprom ⟨file, offset.toNat⟩ eeprom' handle' ↔
      ∀ page < pageCount, ¬isFree s.eeprom page := by
  obtain ⟨layout, sound, -⟩ := reached.good
  have member := sound.toStructured.isFile.mp isFile
  obtain ⟨eeprom₁, layout₁, new, grown, ⟨-, writePage, -, call⟩ | ⟨-, full, call | ⟨-, call⟩⟩⟩ :=
    sound.vfsEepromWrite member offset.toNat_lt data.property
  · rw [call, Option.some.injEq, Prod.mk.injEq, Prod.mk.injEq] at fails
    exact absurd (List.length_eq_zero_iff.mp fails.2.2) some
  · rw [call, Option.some.injEq, Prod.mk.injEq, Prod.mk.injEq] at fails
    obtain ⟨rfl, rfl, -⟩ := fails
    exact grown.failureLaw_iff sound member full offset.toNat
  · exact nomatch call.symm.trans fails

/-! ## Runs into these cases -/

/-- Two files, of which the first one has a page. -/
def twoFiles : List Op := [.create [97] true, .create [98] true, .write 0 ⟨[0], by decide⟩]

/-- A buffer full of zeros. -/
def zeros (count : Nat) (small : count < 65536) : Buffer :=
  ⟨List.replicate count 0, List.length_replicate.trans_lt small⟩

@[simp] theorem length_zeros (count : Nat) (small : count < 65536) :
    (zeros count small).val.length = count := List.length_replicate

/-- The second file takes all the other pages, and the first one gives back its own. -/
def onePageLeft (data : Buffer) : List Op := [.write 1 data, .create [97] true]

theorem run_append (ops later : List Op) (s : State) :
    run (ops ++ later) s = (run ops s).bind (run later) := List.foldlM_append ..

theorem twoFiles_spec :
    ∃ s, run twoFiles ⟨format fun _ _ => 0, []⟩ = some s ∧ s.handles = [⟨1, 1⟩, ⟨2, 0⟩] ∧
      filename (s.eeprom 1) = [97] ∧ ∃ layout, Sound s.eeprom layout ∧ layout.files = [1, 2] ∧
        layout.chain 1 = [3] ∧ layout.chain 2 = [] := by
  have facts : (run twoFiles ⟨format fun _ _ => 0, []⟩).any fun s =>
      s.handles = [⟨1, 1⟩, ⟨2, 0⟩] ∧ filename (s.eeprom 1) = [97] ∧ nextFile (s.eeprom 0) = 1 ∧
        nextFile (s.eeprom 1) = 2 ∧ nextFile (s.eeprom 2) = 0 ∧ nextPage (s.eeprom 1) = 3 ∧
        nextPage (s.eeprom 3) = 0 ∧ nextPage (s.eeprom 2) = 0 := by
    decide +kernel
  obtain ⟨s, runs, facts⟩ := Option.any_eq_true .. |>.mp facts
  obtain ⟨handles, name, first, second, ends, page, pageEnds, none⟩ := of_decide_eq_true facts
  obtain ⟨layout, sound, -⟩ := (Reached.run (.format _) runs).good
  have files : layout.files = [1, 2] :=
    sound.fileList.deterministic ⟨first, by decide, second, by decide, ends⟩
  refine ⟨s, runs, handles, name, layout, sound, files, ?_, ?_⟩
  · exact (sound.dataChain 1 (by simp [files])).deterministic ⟨page, by decide, pageEnds⟩
  · exact (sound.dataChain 2 (by simp [files])).deterministic none

/-- With the pages of both files all pages but those of the second file are known. -/
theorem freePages_twoFiles {eeprom : Device} {layout : Layout} (sound : Sound eeprom layout)
    (files : layout.files = [1, 2]) (first : layout.chain 1 = [3]) (second : layout.chain 2 = []) :
    freePages eeprom = 508 := by
  have uses : ∀ page, layout.Uses page ↔ page = 1 ∨ page = 2 ∨ page = 3 := by
    intro page
    simp [Layout.Uses, files, first, second, or_assoc]
  have free : (Finset.range pageCount).filter (fun page => isFree eeprom page) =
      Finset.Ioo 3 pageCount := by
    ext page
    rw [Finset.mem_filter, Finset.mem_range, Finset.mem_Ioo, and_comm]
    refine and_congr_left fun small => ?_
    rw [sound.isFree_iff small, uses]
    omega
  rw [freePages, free, Nat.card_Ioo]
  rfl

theorem freePages_eq_zero {eeprom : Device} :
    freePages eeprom = 0 ↔ ∀ page < pageCount, ¬isFree eeprom page := by
  simp only [freePages, Finset.card_eq_zero, Finset.filter_eq_empty_iff, Finset.mem_range]

/-- The first file on the list is found by its name. -/
theorem Structured.findFile_first {eeprom : Device} {layout : Layout}
    (structured : Structured eeprom layout) {file : Nat} {rest : List Nat}
    (files : layout.files = file :: rest) {name : List UInt8} (named : filename (eeprom file) = name) :
    vfsEepromFindFile eeprom (some name) = some file := by
  have list := structured.fileList
  rw [files] at list
  have member : file ∈ layout.files := files ▸ List.mem_cons_self
  have small := structured.used_lt file (Layout.uses_file member)
  have first : nextFile (readPage eeprom 0) = file := by
    rw [readPage_of_lt (by decide)]
    exact list.1
  rw [vfsEepromFindFile, first, show pageCount = 511 + 1 from rfl, walkFiles, if_neg list.2.1]
  simp only [readPage_of_lt small, structured.fileMagic file member, named, ne_eq, not_true_eq_false,
    if_false, if_true]

/-- The second file takes all pages, and the first one gives back its own. -/
theorem onePageLeft_spec {data : Buffer} (size : data.val.length = 62991) {s : State} (handles : s.handles = [⟨1, 1⟩, ⟨2, 0⟩])
    (name : filename (s.eeprom 1) = [97]) {layout : Layout} (sound : Sound s.eeprom layout)
    (files : layout.files = [1, 2]) (first : layout.chain 1 = [3]) (second : layout.chain 2 = []) :
    ∃ s', run (onePageLeft data) s = some s' ∧ ∃ layout', Sound s'.eeprom layout' ∧
      layout'.files = [1, 2] ∧ layout'.chain 1 = [] ∧ isFree s'.eeprom 3 ∧
      ∀ page < pageCount, isFree s'.eeprom page → page = 3 := by
  have member : 2 ∈ layout.files := by simp [files]
  have free := freePages_twoFiles sound files first second
  obtain ⟨eeprom₁, layout₁, new, grown, outcome⟩ := sound.vfsEepromWrite member
    (show 0 < 65536 by decide) data.property
  have files₁ : layout₁.files = [1, 2] := grown.files.trans files
  have member₁ : 1 ∈ layout₁.files := by simp [files₁]
  have member₂ : 2 ∈ layout₁.files := by simp [files₁]
  have count := grown.freePages_add member
  rw [free] at count
  rw [size, second, List.length_nil, show pagesNeeded 0 62991 - 0 = 508 from rfl] at outcome
  obtain ⟨length, writePage, writes, call⟩ | ⟨less, full, -⟩ := outcome
  · obtain ⟨front, rest, split, -, within, -⟩ := writes
    have enough : pagesNeeded 0 data.val.length ≤ (layout₁.chain 2).length := by
      rw [grown.chain, second, List.nil_append, length, size]
      decide
    obtain ⟨same, -, sound₂⟩ := grown.sound.writePages member₂ split within enough
    rw [size] at same sound₂
    generalize writePages 62991 writePage (0 % dataSize) data.val eeprom₁ =
      eeprom₂ at call same sound₂
    have full : ∀ page < pageCount, ¬isFree eeprom₂ page := by
      intro page small
      rw [isFree_congr small (same page 0 (Or.inr (by decide)))]
      exact freePages_eq_zero.mp (by omega) page small
    have name₂ : filename (eeprom₂ 1) = [97] := by
      rw [← name]
      refine fieldText_congr fun k _ => ?_
      have apart : 1 ∉ layout₁.chain 2 := fun inChain =>
        grown.sound.outside 2 member₂ 1 inChain member₁
      have old : 1 ∉ new := grown.not_mem sound.toStructured (Layout.uses_file (by simp [files]))
      exact (same 1 (5 + k) (Or.inl apart)).trans (grown.kept 1 (5 + k) old (Or.inr (by omega)))
    have found := sound₂.toStructured.findFile_first files₁ name₂
    obtain ⟨eeprom₃, again, sound₃, -⟩ := sound₂.create_again found member₁ true
    have uses : ∀ page, layout₁.Uses page → page = 3 ∨ (layout₁.rechain 1 []).Uses page := by
      rintro page (isFile | ⟨file, member', inChain⟩)
      · exact Or.inr (Layout.uses_file isFile)
      · rcases eq_or_ne file 1 with rfl | different
        · rw [grown.chains 1 (by simp [files]) (by decide), first] at inChain
          exact Or.inl (List.mem_singleton.mp inChain)
        · refine Or.inr (Layout.uses_page member' ?_)
          rwa [Layout.rechain_of_ne different]
    have third : 3 ∈ layout₁.chain 1 := by
      rw [grown.chains 1 (by simp [files]) (by decide), first]
      exact List.mem_singleton_self _
    refine ⟨⟨eeprom₃, [⟨1, 1⟩, ⟨2, 62991⟩, ⟨1, 0⟩]⟩, ?_, _, sound₃, files₁, Layout.rechain_self .., ?_, ?_⟩
    · simp only [run, onePageLeft, List.foldlM_cons, List.foldlM_nil, step, handles]
      simp [call, again]
    · refine (sound₃.isFree_iff (by decide)).mpr ⟨by decide, ?_⟩
      rintro (isFile | ⟨file, member', inChain⟩)
      · exact grown.sound.outside 1 member₁ 3 third isFile
      · rcases Layout.mem_rechain inChain with ⟨-, new⟩ | ⟨different, old⟩
        · exact absurd new List.not_mem_nil
        · exact different (grown.sound.apart file member' 1 member₁ 3 old third)
    · intro page small free
      obtain ⟨nonzero, unused⟩ := (sound₃.isFree_iff small).mp free
      by_contra different
      refine full page small ((sound₂.isFree_iff small).mpr ⟨nonzero, fun used => ?_⟩)
      exact (uses page used).elim different unused
  · have none := freePages_eq_zero.mpr full
    omega

/-- Writing more than the EEPROM can hold to the first file takes the last page and fails. -/
theorem write_fails :
    ∃ s, run (twoFiles ++ onePageLeft (zeros 62991 (by decide))) ⟨format fun _ _ => 0, []⟩ = some s ∧ IsFile s.eeprom 1 ∧
      isFree s.eeprom 3 ∧ ∃ eeprom', vfsEepromWrite ⟨1, 0⟩ (zeros 65535 (by decide)).val s.eeprom =
        some (eeprom', ⟨1, 0⟩, 0) ∧ ¬FailureLaw s.eeprom ⟨1, 0⟩ eeprom' ⟨1, 0⟩ := by
  obtain ⟨s₁, runs₁, handles, name, layout₁, sound₁, files₁, first₁, second₁⟩ := twoFiles_spec
  obtain ⟨s, runs, layout, sound, files, first, third, only⟩ :=
    onePageLeft_spec (length_zeros 62991 (by decide)) handles name sound₁ files₁ first₁ second₁
  have member : 1 ∈ layout.files := by simp [files]
  refine ⟨s, by rw [run_append, runs₁, Option.bind_some, runs], sound.toStructured.isFile.mpr member,
    third, ?_⟩
  obtain ⟨eeprom', layout', new, grown, outcome⟩ := sound.vfsEepromWrite member
    (show 0 < 65536 by decide) (zeros 65535 (by decide)).property
  have chain : layout'.chain 1 = new := by rw [grown.chain, first, List.nil_append]
  have member' : 1 ∈ layout'.files := grown.files ▸ member
  rcases outcome with ⟨length, -⟩ | ⟨-, full, call | ⟨last, -⟩⟩
  · have short := grown.sound.length_lt (grown.sound.distinctPages 1 member')
      fun page inChain => Layout.uses_page member' inChain
    rw [chain, length, first, length_zeros] at short
    exact absurd short (by decide)
  · refine ⟨eeprom', call, fun law => ?_⟩
    exact (grown.failureLaw_iff sound member full 0).mp law 3 (by decide) third
  · have inside : ∀ page ∈ 1 :: new, page = 1 ∨ page = 3 :=
      List.forall_mem_cons.mpr ⟨Or.inl rfl, fun page isNew =>
        Or.inr (only page (grown.free page isNew).1 (grown.free page isNew).2)⟩
    rw [chain] at last
    rcases inside _ (lastNode_mem 1 new) with is | is <;> rw [is] at last <;>
      exact absurd last (by decide)

/-- The write that fails keeps the page that was free. -/
theorem failed_write_keeps_page :
    ∃ s, run (twoFiles ++ onePageLeft (zeros 62991 (by decide))) ⟨format fun _ _ => 0, []⟩ = some s ∧ IsFile s.eeprom 1 ∧
      ∃ eeprom', vfsEepromWrite ⟨1, 0⟩ (zeros 65535 (by decide)).val s.eeprom =
        some (eeprom', ⟨1, 0⟩, 0) ∧ ¬FailureLaw s.eeprom ⟨1, 0⟩ eeprom' ⟨1, 0⟩ := by
  obtain ⟨s, runs, isFile, -, eeprom', call, law⟩ := write_fails
  exact ⟨s, runs, isFile, eeprom', call, law⟩

theorem eeprom_out_of_space_onePage :
    ∃ s, run (twoFiles ++ onePageLeft (zeros 62991 (by decide))) ⟨format fun _ _ => 0, []⟩ = some s ∧
      ∃ eeprom' handle', vfsEepromWrite ⟨1, 0⟩ (zeros 65535 (by decide)).val s.eeprom =
          some (eeprom', handle', 0) ∧
        (FailureLaw s.eeprom ⟨1, 0⟩ eeprom' handle' ↔ ∀ page < pageCount, ¬isFree s.eeprom page) := by
  obtain ⟨s, runs, isFile, -, eeprom', call, -⟩ := write_fails
  have some : (zeros 65535 (by decide)).val ≠ [] := by
    rw [← List.length_pos_iff, length_zeros]
    decide
  exact ⟨s, runs, eeprom', ⟨1, 0⟩, call,
    eeprom_out_of_space (Reached.run (.format _) runs) isFile 0 some call⟩

end Ethersex.Eeprom
