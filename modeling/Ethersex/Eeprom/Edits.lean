import Mathlib
import Ethersex.Eeprom.Walks

/-!
# Edits of the layout

What creating a file, releasing its pages and appending a page to it do to the layout.
In each case the links and the magics are changed one after the other; here they are
compared when all of them have been written.
-/

namespace Ethersex.Eeprom

open Library

/-! ## The chain of one file -/

/-- The layout in which the file has these data pages. -/
def Layout.rechain (layout : Layout) (file : Nat) (pages : List Nat) : Layout where
  files := layout.files
  chain := Function.update layout.chain file pages

section Rechain

variable {eeprom eeprom' : Device} {layout : Layout} {file other page : Nat} {pages : List Nat}

@[simp] theorem Layout.rechain_files (layout : Layout) (file : Nat) (pages : List Nat) :
    (layout.rechain file pages).files = layout.files := rfl

@[simp] theorem Layout.rechain_self (layout : Layout) (file : Nat) (pages : List Nat) :
    (layout.rechain file pages).chain file = pages := Function.update_self ..

theorem Layout.rechain_of_ne (different : other ≠ file) :
    (layout.rechain file pages).chain other = layout.chain other := Function.update_of_ne different ..

/-- A page of a layout is one of the new pages, or an old one. -/
theorem Layout.mem_rechain (inChain : page ∈ (layout.rechain file pages).chain other) :
    other = file ∧ page ∈ pages ∨ other ≠ file ∧ page ∈ layout.chain other := by
  rcases eq_or_ne other file with rfl | different
  · rw [Layout.rechain_self] at inChain
    exact Or.inl ⟨rfl, inChain⟩
  · rw [Layout.rechain_of_ne different] at inChain
    exact Or.inr ⟨different, inChain⟩

/-- Giving a file other pages, which are free or its own. -/
theorem Structured.rechain (structured : Structured eeprom layout) (member : file ∈ layout.files)
    (chain : Chain (fun page => nextPage (eeprom' page)) 0 file pages) (distinct : pages.Nodup)
    (own : ∀ page ∈ pages, page ∈ layout.chain file ∨ ¬layout.Uses page)
    (small : ∀ page ∈ pages, page < pageCount)
    (magic : ∀ page ∈ pages, eeprom' page 0 = magicData)
    (released : ∀ page ∈ layout.chain file, page ∉ pages → isFree eeprom' page)
    (same : ∀ page, page ∉ pages → page ∉ layout.chain file → eeprom' page 0 = eeprom page 0)
    (fileLinks : ∀ page ∈ 0 :: layout.files, nextFile (eeprom' page) = nextFile (eeprom page))
    (links : ∀ other ∈ layout.files, other ≠ file → ∀ page ∈ other :: layout.chain other,
      nextPage (eeprom' page) = nextPage (eeprom page)) :
    Structured eeprom' (layout.rechain file pages) := by
  have mixed : ∀ other ∈ layout.files, other ≠ file → ∀ page ∈ layout.chain other, page ∉ pages := by
    intro other member' different page inChain inPages
    rcases own page inPages with before | unused
    · exact different (structured.apart other member' file member page inChain before)
    · exact unused (Layout.uses_page member' inChain)
  have filePage : ∀ page ∈ layout.files, page ∉ pages ∧ page ∉ layout.chain file := by
    refine fun page isFile => ⟨fun inPages => ?_, fun inChain =>
      structured.outside file member page inChain isFile⟩
    rcases own page inPages with before | unused
    · exact structured.outside file member page before isFile
    · exact unused (Layout.uses_file isFile)
  refine
    { superblock := ?_
      fileList := structured.fileList.congr fileLinks
      dataChain := fun other member' => ?_
      distinctFiles := structured.distinctFiles
      distinctPages := fun other member' => ?_
      apart := fun first member₁ second member₂ page in₁ in₂ => ?_
      outside := fun other member' page inChain isFile => ?_
      used_lt := ?_
      fileMagic := fun other member' => ?_
      dataMagic := fun other member' page inChain => ?_
      others := fun page positive inside unused => ?_ }
  · rw [same 0 (fun inPages => chain.ne_null 0 inPages rfl) fun inChain =>
      (structured.dataChain file member).ne_null 0 inChain rfl]
    exact structured.superblock
  · rcases eq_or_ne other file with rfl | different
    · rwa [Layout.rechain_self]
    · rw [Layout.rechain_of_ne different]
      exact (structured.dataChain other member').congr (links other member' different)
  · rcases eq_or_ne other file with rfl | different
    · rwa [Layout.rechain_self]
    · rw [Layout.rechain_of_ne different]
      exact structured.distinctPages other member'
  · rcases Layout.mem_rechain in₁ with ⟨rfl, new₁⟩ | ⟨different₁, old₁⟩ <;>
      rcases Layout.mem_rechain in₂ with ⟨rfl, new₂⟩ | ⟨different₂, old₂⟩
    · rfl
    · exact absurd new₁ (mixed second member₂ different₂ page old₂)
    · exact absurd new₂ (mixed first member₁ different₁ page old₁)
    · exact structured.apart first member₁ second member₂ page old₁ old₂
  · rcases Layout.mem_rechain inChain with ⟨rfl, new⟩ | ⟨-, old⟩
    · exact (filePage page isFile).1 new
    · exact structured.outside other member' page old isFile
  · rintro page (isFile | ⟨other, member', inChain⟩)
    · exact structured.used_lt page (Layout.uses_file isFile)
    · rcases Layout.mem_rechain inChain with ⟨rfl, new⟩ | ⟨-, old⟩
      · exact small page new
      · exact structured.used_lt page (Layout.uses_page member' old)
  · rw [same other (filePage other member').1 (filePage other member').2]
    exact structured.fileMagic other member'
  · rcases Layout.mem_rechain inChain with ⟨rfl, new⟩ | ⟨different, old⟩
    · exact magic page new
    · rw [same page (mixed other member' different page old) fun inOld =>
        different (structured.apart other member' file member page old inOld)]
      exact structured.dataMagic other member' page old
  · have notNew : page ∉ pages := fun new =>
      unused (Layout.uses_page member (by rwa [Layout.rechain_self]))
    by_cases inOld : page ∈ layout.chain file
    · exact released page inOld notNew
    · rw [isFree_congr inside (same page notNew inOld)]
      refine structured.others page positive inside ?_
      rintro (isFile | ⟨other, member', inChain⟩)
      · exact unused (Layout.uses_file isFile)
      · rcases eq_or_ne other file with rfl | different
        · exact inOld inChain
        · exact unused (Layout.uses_page member' (by rwa [Layout.rechain_of_ne different]))

end Rechain

/-! ## Sound layouts -/

/-- A structured EEPROM whose data pages make up files: no page holds more than it can,
and the last one is not full. -/
structure Sound (eeprom : Device) (layout : Layout) : Prop extends Structured eeprom layout where
  fits : ∀ file ∈ layout.files, ∀ block ∈ blocks eeprom (layout.chain file), block.fill ≤ dataSize
  shortEnd : ∀ file ∈ layout.files, ShortEnd dataSize (blocks eeprom (layout.chain file))
  first : layout.files = [] ∨ layout.files.head? = some 1

theorem blocks_congr {eeprom eeprom' : Device} {pages : List Nat}
    (same : ∀ page ∈ pages, ∀ k, 3 ≤ k → eeprom' page k = eeprom page k) :
    blocks eeprom' pages = blocks eeprom pages :=
  List.map_congr_left fun page member => block_congr (same page member)

/-- Other pages for a file, whose data make up a file again. -/
theorem Sound.rechain {eeprom eeprom' : Device} {layout : Layout} {file : Nat} {pages : List Nat}
    (sound : Sound eeprom layout) (structured : Structured eeprom' (layout.rechain file pages))
    (fits : ∀ block ∈ blocks eeprom' pages, block.fill ≤ dataSize)
    (short : ShortEnd dataSize (blocks eeprom' pages))
    (others : ∀ other ∈ layout.files, other ≠ file →
      blocks eeprom' (layout.chain other) = blocks eeprom (layout.chain other)) :
    Sound eeprom' (layout.rechain file pages) :=
  { structured with
    fits := fun other member => by
      rcases eq_or_ne other file with rfl | different
      · rwa [Layout.rechain_self]
      · rw [Layout.rechain_of_ne different, others other member different]
        exact sound.fits other member
    shortEnd := fun other member => by
      rcases eq_or_ne other file with rfl | different
      · rwa [Layout.rechain_self]
      · rw [Layout.rechain_of_ne different, others other member different]
        exact sound.shortEnd other member
    first := sound.first }

/-! ## Appending pages -/

/-- The pages `new`, which were free, were appended to a file; they are empty, and the
rest of the EEPROM is as before but for one link. -/
structure Grown (eeprom : Device) (layout : Layout) (eeprom' : Device) (layout' : Layout)
    (file : Nat) (new : List Nat) : Prop where
  sound : Sound eeprom' layout'
  files : layout'.files = layout.files
  chain : layout'.chain file = layout.chain file ++ new
  chains : ∀ other ∈ layout.files, other ≠ file → layout'.chain other = layout.chain other
  kept : ∀ page k, page ∉ new → k = 0 ∨ 3 ≤ k → eeprom' page k = eeprom page k
  empty : ∀ page ∈ new, pageLen (eeprom' page) = 0
  free : ∀ page ∈ new, page < pageCount ∧ isFree eeprom page

theorem Grown.refl {eeprom : Device} {layout : Layout} (sound : Sound eeprom layout) (file : Nat) :
    Grown eeprom layout eeprom layout file [] where
  sound := sound
  files := rfl
  chain := (List.append_nil _).symm
  chains := fun _ _ _ => rfl
  kept := fun _ _ _ _ => rfl
  empty := fun _ => nofun
  free := fun _ => nofun

section Append

variable {eeprom : Device} {layout : Layout} {file new : Nat}

/-- The device after one pass of the second loop of a write. -/
def appendPage (last new : Nat) (eeprom : Device) : Device :=
  writeSlice last 1 2 (encode16 new) (writeSlice new 0 4 newDataHeader eeprom)

section Bytes

variable {last : Nat}

theorem appendPage_of_ne (small : new < pageCount) (small' : last < pageCount) {page k : Nat}
    (different : page ≠ new) (other : page ≠ last ∨ k < 1 ∨ 3 ≤ k) :
    appendPage last new eeprom page k = eeprom page k := by
  rw [appendPage, writeSlice_apply_of_outside small' (by decide) other,
    writeSlice_of_ne small different]

theorem appendPage_new (small : new < pageCount) (small' : last < pageCount) (apart : new ≠ last)
    {k : Nat} (inside : k < 4) : appendPage last new eeprom new k = newDataHeader k := by
  rw [appendPage, writeSlice_of_ne small' apart, ← Nat.zero_add k]
  exact (writeSlice_apply small (by decide) inside).trans (by rw [Nat.zero_add])

theorem nextPage_appendPage (small : new < pageCount) (small' : last < pageCount) :
    nextPage (appendPage last new eeprom last) = new :=
  nextPage_writeSlice small' (Nat.lt_trans small (by decide))

end Bytes

/-- Appending a free page to a file. -/
theorem Sound.appendPage (sound : Sound eeprom layout) (member : file ∈ layout.files)
    (small : new < pageCount) (free : isFree eeprom new) :
    Grown eeprom layout (appendPage (lastNode file (layout.chain file)) new eeprom)
      (layout.rechain file (layout.chain file ++ [new])) file [new] := by
  obtain ⟨nonzero, unused⟩ := (sound.isFree_iff small).mp free
  have lastMem := lastNode_mem file (layout.chain file)
  have small' := sound.mem_lt member _ lastMem
  have fresh : ∀ page, layout.Uses page → page ≠ new := fun page uses is => unused (is ▸ uses)
  have apart : new ≠ lastNode file (layout.chain file) :=
    (fresh _ (Layout.uses_mem member _ lastMem)).symm
  have kept : ∀ page k, page ∉ [new] → k = 0 ∨ 3 ≤ k →
      Eeprom.appendPage (lastNode file (layout.chain file)) new eeprom page k = eeprom page k := by
    intro page k absent inside
    refine appendPage_of_ne small small' (List.ne_of_not_mem_cons absent) (Or.inr ?_)
    omega
  have links : ∀ page, layout.Uses page → page ≠ lastNode file (layout.chain file) →
      nextPage (Eeprom.appendPage (lastNode file (layout.chain file)) new eeprom page) =
        nextPage (eeprom page) := by
    intro page uses different
    have same (k : Nat) := @appendPage_of_ne eeprom new _ small small' page k (fresh page uses)
      (Or.inl different)
    exact nextPage_congr (same 1) (same 2)
  have data : ∀ page, layout.Uses page → ∀ k, 3 ≤ k →
      Eeprom.appendPage (lastNode file (layout.chain file)) new eeprom page k = eeprom page k :=
    fun page uses k inside => kept page k (mt List.mem_singleton.mp (fresh page uses)) (Or.inr inside)
  have zero : Eeprom.appendPage (lastNode file (layout.chain file)) new eeprom new 3 = 0 :=
    appendPage_new small small' apart (by decide)
  have filled : blocks (Eeprom.appendPage (lastNode file (layout.chain file)) new eeprom)
      (layout.chain file) = blocks eeprom (layout.chain file) :=
    blocks_congr fun page inChain => data page (Layout.uses_page member inChain)
  have empty : pageLen (Eeprom.appendPage (lastNode file (layout.chain file)) new eeprom new) = 0 := by
    rw [pageLen, zero]
    rfl
  refine
    { sound := sound.rechain (sound.toStructured.rechain member ?_ ?_ ?_ ?_ ?_ ?_ ?_ ?_ ?_) ?_ ?_ ?_
      files := rfl
      chain := layout.rechain_self file _
      chains := fun other _ different => Layout.rechain_of_ne different
      kept := kept
      empty := List.forall_mem_singleton.mpr empty
      free := List.forall_mem_singleton.mpr ⟨small, free⟩ }
  · refine (sound.dataChain file member).append nonzero (fun page inFile different => ?_)
      (nextPage_appendPage small small') ?_ (sound.nodup member)
    · exact links page (Layout.uses_mem member page inFile) different
    · simp only [nextPage, decode16, appendPage_new small small' apart, Nat.reduceAdd,
        Nat.reduceLT, newDataHeader]
      rfl
  · refine List.nodup_append_comm.mp (List.nodup_cons.mpr ⟨fun inChain => ?_, ?_⟩)
    · exact unused (Layout.uses_page member inChain)
    · exact sound.distinctPages file member
  · refine List.forall_mem_append.mpr ⟨fun page inChain => Or.inl inChain, ?_⟩
    exact List.forall_mem_singleton.mpr (Or.inr unused)
  · refine List.forall_mem_append.mpr ⟨fun page inChain => ?_, List.forall_mem_singleton.mpr small⟩
    exact sound.used_lt page (Layout.uses_page member inChain)
  · refine List.forall_mem_append.mpr ⟨fun page inChain => ?_, List.forall_mem_singleton.mpr ?_⟩
    · rw [kept page 0 (mt List.mem_singleton.mp (fresh page (Layout.uses_page member inChain)))
        (Or.inl rfl)]
      exact sound.dataMagic file member page inChain
    · exact appendPage_new small small' apart (by decide)
  · exact fun page inChain absent => absurd (List.mem_append_left _ inChain) absent
  · exact fun page absent _ => kept page 0 (fun is => absent (List.mem_append_right _ is)) (Or.inl rfl)
  · refine List.forall_mem_cons.mpr ⟨?_, fun page isFile => ?_⟩
    · have same (k : Nat) (inside : 3 ≤ k) :=
        kept 0 k (mt List.mem_singleton.mp nonzero.symm) (Or.inr inside)
      exact nextFile_congr (same 3 (by decide)) (same 4 (by decide))
    · have same := data page (Layout.uses_file isFile)
      exact nextFile_congr (same 3 (by decide)) (same 4 (by decide))
  · intro other member' different page inOther
    refine links page (Layout.uses_mem member' page inOther) fun is => ?_
    exact sound.separate member member' different _ lastMem (is ▸ inOther)
  · rw [blocks_append, filled, List.forall_mem_append]
    exact ⟨sound.fits file member, List.forall_mem_singleton.mpr (empty.le.trans (Nat.zero_le _))⟩
  · intro block last
    rw [blocks_append, blocks_cons, blocks_nil, List.getLast?_concat] at last
    rw [← Option.some.inj last, block_fill, empty]
    decide
  · exact fun other member' _ => blocks_congr fun page inChain =>
      data page (Layout.uses_page member' inChain)

end Append

theorem Grown.trans {eeprom eeprom₁ eeprom₂ : Device} {layout layout₁ layout₂ : Layout} {file : Nat}
    {new₁ new₂ : List Nat} (first : Grown eeprom layout eeprom₁ layout₁ file new₁)
    (second : Grown eeprom₁ layout₁ eeprom₂ layout₂ file new₂) (member : file ∈ layout.files) :
    Grown eeprom layout eeprom₂ layout₂ file (new₁ ++ new₂) := by
  have apart : ∀ page ∈ new₁, page ∉ new₂ := by
    intro page in₁ in₂
    obtain ⟨small, free⟩ := second.free page in₂
    refine ((first.sound.isFree_iff small).mp free).2
      (Layout.uses_page (first.files ▸ member) ?_)
    rw [first.chain]
    exact List.mem_append_right _ in₁
  refine
    { sound := second.sound
      files := second.files.trans first.files
      chain := by rw [second.chain, first.chain, List.append_assoc]
      chains := fun other member' different => ?_
      kept := fun page k absent inside => ?_
      empty := List.forall_mem_append.mpr ⟨fun page in₁ => ?_, second.empty⟩
      free := List.forall_mem_append.mpr ⟨first.free, fun page in₂ => ?_⟩ }
  · rw [second.chains other (first.files ▸ member') different, first.chains other member' different]
  · rw [List.mem_append, not_or] at absent
    rw [second.kept page k absent.2 inside, first.kept page k absent.1 inside]
  · rw [← first.empty page in₁, pageLen, pageLen, second.kept page 3 (apart page in₁) (Or.inr le_rfl)]
  · obtain ⟨small, free⟩ := second.free page in₂
    rw [isFree_congr small (first.kept page 0 (fun in₁ => apart page in₁ in₂) (Or.inl rfl))] at free
    exact ⟨small, free⟩

/-- Pages that were in use before are none of the new ones. -/
theorem Grown.not_mem {eeprom eeprom' : Device} {layout layout' : Layout} {file page : Nat}
    {new : List Nat} (grown : Grown eeprom layout eeprom' layout' file new)
    (structured : Structured eeprom layout) (uses : layout.Uses page) : page ∉ new := by
  intro inNew
  obtain ⟨small, free⟩ := grown.free page inNew
  exact ((structured.isFree_iff small).mp free).2 uses

/-- What the pages hold that were in use before. -/
theorem Grown.blocks_eq {eeprom eeprom' : Device} {layout layout' : Layout} {file : Nat}
    {new pages : List Nat} (grown : Grown eeprom layout eeprom' layout' file new)
    (structured : Structured eeprom layout) (uses : ∀ page ∈ pages, layout.Uses page) :
    blocks eeprom' pages = blocks eeprom pages :=
  blocks_congr fun page member k inside =>
    grown.kept page k (grown.not_mem structured (uses page member)) (Or.inr inside)

/-- The second loop of a write appends pages until it has enough of them, or until there
are no more; then it gives up, unless it searches from behind the last page on. -/
theorem Sound.allocPages {eeprom : Device} {layout : Layout} {file : Nat}
    (sound : Sound eeprom layout) (member : file ∈ layout.files) (needed writePage : Nat) :
    ∃ eeprom' layout' new, Grown eeprom layout eeprom' layout' file new ∧
      (new.length = needed ∧ allocPages needed (lastNode file (layout.chain file)) writePage eeprom =
          some (.done eeprom' (if writePage = 0 then new.headD 0 else writePage)) ∨
        new.length < needed ∧ (∀ page < pageCount, ¬isFree eeprom' page) ∧
          (allocPages needed (lastNode file (layout.chain file)) writePage eeprom =
              some (.full eeprom') ∨
            lastNode file (layout'.chain file) + 1 = pageCount ∧
              allocPages needed (lastNode file (layout.chain file)) writePage eeprom = none)) := by
  induction needed generalizing eeprom layout writePage with
  | zero =>
      refine ⟨eeprom, layout, [], Grown.refl sound file, Or.inl ⟨rfl, ?_⟩⟩
      rw [Eeprom.allocPages, List.headD_nil]
      split_ifs with none
      · rw [none]
      · rfl
  | succ needed ih =>
      have small := sound.mem_lt member _ (lastNode_mem file (layout.chain file))
      rw [Eeprom.allocPages]
      rcases findFreePage_spec sound.superblock (Nat.succ_le_of_lt small) with
        ⟨node, found, nonzero, inside, free⟩ | ⟨nothing, search⟩
      · have step := sound.appendPage member inside free
        obtain ⟨eeprom', layout', new, grown, outcome⟩ :=
          ih step.sound (step.files ▸ member) (if writePage = 0 then node else writePage)
        refine ⟨eeprom', layout', node :: new, step.trans grown member, ?_⟩
        have target : (if (if writePage = 0 then node else writePage) = 0 then new.headD 0
            else if writePage = 0 then node else writePage) =
            if writePage = 0 then (node :: new).headD 0 else writePage := by
          by_cases unknown : writePage = 0
          · simp only [unknown, if_true, nonzero, if_false, List.headD_cons]
          · simp only [unknown, if_false]
        have last : lastNode file (layout.chain file ++ [node]) = node := lastNode_append ..
        rw [Layout.rechain_self, last, target] at outcome
        simp only [found, Option.bind_eq_bind, Option.bind_some, nonzero, if_false]
        rw [List.length_cons]
        exact outcome.imp (fun done => ⟨congrArg _ done.1, done.2⟩)
          fun full => ⟨Nat.succ_lt_succ full.1, full.2⟩
      · refine ⟨eeprom, layout, [], Grown.refl sound file, Or.inr ⟨Nat.succ_pos _, nothing, ?_⟩⟩
        rcases search with zero | ⟨behind, none⟩
        · simp only [zero, Option.bind_eq_bind, Option.bind_some, if_true, true_or]
        · simp only [none, Option.bind_eq_bind, Option.bind_none]
          exact Or.inr ⟨behind, trivial⟩

/-! ## Creating files -/

section Create

variable {eeprom : Device} {layout : Layout} {inode next : Nat} {name : List UInt8}

theorem nextPage_newFilePage : nextPage (newFilePage next name) = 0 := rfl

theorem nextFile_newFilePage (small : next < 65536) : nextFile (newFilePage next name) = next := by
  have bytes : AgreeTo 2 (fun k => newFilePage next name (3 + k)) (encode16 next) := by
    intro k inside
    change newFilePage next name (3 + k) = _
    rw [newFilePage, if_neg (by omega), if_pos (by omega), Nat.add_sub_cancel_left]
  rw [nextFile, decode16_congr bytes, decode16_encode16 small]

/-- The layout with another file behind the last one. -/
def Layout.addFile (layout : Layout) (inode : Nat) : Layout where
  files := layout.files ++ [inode]
  chain := Function.update layout.chain inode []

@[simp] theorem Layout.addFile_self (layout : Layout) (inode : Nat) :
    (layout.addFile inode).chain inode = [] := Function.update_self ..

theorem Layout.addFile_of_ne {file : Nat} (different : file ≠ inode) :
    (layout.addFile inode).chain file = layout.chain file := Function.update_of_ne different ..

theorem Layout.mem_addFile {file page : Nat} (member : file ∈ (layout.addFile inode).files)
    (inChain : page ∈ (layout.addFile inode).chain file) :
    file ≠ inode ∧ file ∈ layout.files ∧ page ∈ layout.chain file := by
  rcases eq_or_ne file inode with rfl | different
  · rw [Layout.addFile_self] at inChain
    exact absurd inChain List.not_mem_nil
  · rw [Layout.addFile_of_ne different] at inChain
    refine ⟨different, (List.mem_append.mp member).resolve_right fun is => ?_, inChain⟩
    exact different (List.mem_singleton.mp is)

/-- Writing a whole page. -/
theorem writePage_self (small : inode < pageCount) {k : Nat} (inside : k < pageSize)
    (page : Bytes) : writeSlice inode 0 pageSize page eeprom inode k = page k := by
  rw [← Nat.zero_add k]
  exact (writeSlice_apply small (by decide) inside).trans (by rw [Nat.zero_add])

theorem Layout.mem_files_of_ne {file : Nat} (member : file ∈ (layout.addFile inode).files)
    (different : file ≠ inode) : file ∈ layout.files :=
  (List.mem_append.mp member).resolve_right fun is => different (List.mem_singleton.mp is)

/-- The last file was linked to the page `inode`, which was written as an empty file. -/
structure AddsFile (eeprom : Device) (layout : Layout) (inode : Nat) (eeprom' : Device) : Prop where
  kept : ∀ page k, page ≠ inode → page ≠ lastNode 0 layout.files ∨ k < 3 ∨ 5 ≤ k →
    eeprom' page k = eeprom page k
  link : nextFile (eeprom' (lastNode 0 layout.files)) = inode
  magic : eeprom' inode 0 = magicFile
  noPage : nextPage (eeprom' inode) = 0
  noFile : nextFile (eeprom' inode) = 0

theorem Sound.lastNode_lt (sound : Sound eeprom layout) : lastNode 0 layout.files < pageCount := by
  rcases List.mem_cons.mp (lastNode_mem 0 layout.files) with zero | isFile
  · rw [zero]
    decide
  · exact sound.used_lt _ (Layout.uses_file isFile)

/-- What the two writes of a new file do. -/
theorem Sound.addsFile (sound : Sound eeprom layout) (small : inode < pageCount)
    (apart : lastNode 0 layout.files ≠ inode) :
    AddsFile eeprom layout inode (writeSlice inode 0 pageSize (newFilePage 0 name)
      (writeSlice (lastNode 0 layout.files) 3 2 (encode16 inode) eeprom)) := by
  have self (k : Nat) (within : k < pageSize) :=
    @writePage_self (writeSlice (lastNode 0 layout.files) 3 2 (encode16 inode) eeprom) inode small k
      within (newFilePage 0 name)
  constructor
  · intro page k different outside
    rw [writeSlice_of_ne small different]
    exact writeSlice_apply_of_outside sound.lastNode_lt (by decide) outside
  · rw [writeSlice_of_ne small apart]
    exact nextFile_writeSlice sound.lastNode_lt (Nat.lt_trans small (by decide))
  · exact self 0 (by decide)
  · exact (nextPage_congr (self 1 (by decide)) (self 2 (by decide))).trans nextPage_newFilePage
  · exact (nextFile_congr (self 3 (by decide)) (self 4 (by decide))).trans
      (nextFile_newFilePage (by decide))

section AddsFile

variable {eeprom' : Device} (adds : AddsFile eeprom layout inode eeprom')

include adds

theorem AddsFile.magic_kept {page : Nat} (different : page ≠ inode) :
    eeprom' page 0 = eeprom page 0 :=
  adds.kept page 0 different (Or.inr (Or.inl (by decide)))

theorem AddsFile.link_kept {page : Nat} (different : page ≠ inode) :
    nextPage (eeprom' page) = nextPage (eeprom page) :=
  nextPage_congr (adds.kept page 1 different (Or.inr (Or.inl (by decide))))
    (adds.kept page 2 different (Or.inr (Or.inl (by decide))))

/-- The data of the files is not touched. -/
theorem AddsFile.blocks_kept (sound : Sound eeprom layout) (unused : ¬layout.Uses inode) {file : Nat}
    (member : file ∈ layout.files) :
    blocks eeprom' (layout.chain file) = blocks eeprom (layout.chain file) := by
  refine blocks_congr fun page inChain k _ => ?_
  refine adds.kept page k (fun is => unused (is ▸ Layout.uses_page member inChain)) (Or.inl fun is => ?_)
  rcases List.mem_cons.mp (lastNode_mem 0 layout.files) with zero | isFile
  · exact (sound.dataChain file member).ne_null page inChain (is.trans zero)
  · exact sound.outside file member page inChain (is ▸ isFile)

theorem AddsFile.structured (sound : Sound eeprom layout) (small : inode < pageCount)
    (nonzero : inode ≠ 0) (unused : ¬layout.Uses inode) :
    Structured eeprom' (layout.addFile inode) := by
  have fresh : ∀ page, layout.Uses page → page ≠ inode := fun page uses is => unused (is ▸ uses)
  have fresh' : ∀ page ∈ 0 :: layout.files, page ≠ inode :=
    List.forall_mem_cons.mpr ⟨nonzero.symm, fun page isFile => fresh page (Layout.uses_file isFile)⟩
  refine
    { superblock := (adds.magic_kept nonzero.symm).trans sound.superblock
      fileList := ?_
      dataChain := fun file member => ?_
      distinctFiles := ?_
      distinctPages := fun file member => ?_
      apart := fun first member₁ second member₂ page in₁ in₂ => ?_
      outside := fun file member page inChain isFile => ?_
      used_lt := ?_
      fileMagic := fun file member => ?_
      dataMagic := fun file member page inChain => ?_
      others := fun page positive within notUsed => ?_ }
  · refine sound.fileList.append nonzero (fun page isFile different => ?_) adds.link adds.noFile ?_
    · have same (k : Nat) := adds.kept page k (fresh' page isFile) (Or.inl different)
      exact nextFile_congr (same 3) (same 4)
    · exact List.nodup_cons.mpr ⟨fun isFile => sound.fileList.ne_null 0 isFile rfl,
        sound.distinctFiles⟩
  · rcases eq_or_ne file inode with rfl | different
    · rw [Layout.addFile_self]
      exact adds.noPage
    · have member := Layout.mem_files_of_ne member different
      rw [Layout.addFile_of_ne different]
      exact (sound.dataChain file member).congr fun page inFile =>
        adds.link_kept (fresh page (Layout.uses_mem member page inFile))
  · refine List.nodup_append_comm.mp (List.nodup_cons.mpr ⟨fun isFile => ?_, sound.distinctFiles⟩)
    exact unused (Layout.uses_file isFile)
  · rcases eq_or_ne file inode with rfl | different
    · rw [Layout.addFile_self]
      exact List.nodup_nil
    · rw [Layout.addFile_of_ne different]
      exact sound.distinctPages file (Layout.mem_files_of_ne member different)
  · obtain ⟨-, isFile₁, old₁⟩ := Layout.mem_addFile member₁ in₁
    obtain ⟨-, isFile₂, old₂⟩ := Layout.mem_addFile member₂ in₂
    exact sound.apart first isFile₁ second isFile₂ page old₁ old₂
  · obtain ⟨-, member', inOld⟩ := Layout.mem_addFile member inChain
    rcases eq_or_ne page inode with rfl | different
    · exact unused (Layout.uses_page member' inOld)
    · exact sound.outside file member' page inOld (Layout.mem_files_of_ne isFile different)
  · rintro page (isFile | ⟨file, member, inChain⟩)
    · rcases eq_or_ne page inode with rfl | different
      · exact small
      · exact sound.used_lt page (Layout.uses_file (Layout.mem_files_of_ne isFile different))
    · obtain ⟨-, member, inChain⟩ := Layout.mem_addFile member inChain
      exact sound.used_lt page (Layout.uses_page member inChain)
  · rcases eq_or_ne file inode with rfl | different
    · exact adds.magic
    · exact (adds.magic_kept different).trans
        (sound.fileMagic file (Layout.mem_files_of_ne member different))
  · obtain ⟨-, member, inChain⟩ := Layout.mem_addFile member inChain
    rw [adds.magic_kept (fresh page (Layout.uses_page member inChain))]
    exact sound.dataMagic file member page inChain
  · have different : page ≠ inode := fun is =>
      notUsed (Layout.uses_file (is ▸ List.mem_append_right _ (List.mem_singleton_self _)))
    rw [isFree_congr within (adds.magic_kept different)]
    refine sound.others page positive within ?_
    rintro (isFile | ⟨file, member, inChain⟩)
    · exact notUsed (Layout.uses_file (List.mem_append_left _ isFile))
    · refine notUsed (Layout.uses_page (List.mem_append_left _ member) ?_)
      rwa [Layout.addFile_of_ne (fresh file (Layout.uses_file member))]

end AddsFile

/-- A new file behind the last one. -/
theorem Sound.addFile (sound : Sound eeprom layout) (small : inode < pageCount)
    (free : isFree eeprom inode) (first : layout.files = [] → inode = 1) :
    Sound (writeSlice inode 0 pageSize (newFilePage 0 name)
      (writeSlice (lastNode 0 layout.files) 3 2 (encode16 inode) eeprom)) (layout.addFile inode) := by
  obtain ⟨nonzero, unused⟩ := (sound.isFree_iff small).mp free
  have apart : lastNode 0 layout.files ≠ inode := fun is => by
    rcases List.mem_cons.mp (lastNode_mem 0 layout.files) with zero | isFile
    · exact nonzero (is.symm.trans zero)
    · exact unused (Layout.uses_file (is ▸ isFile))
  have adds := @Sound.addsFile eeprom layout inode name sound small apart
  refine
    { adds.structured sound small nonzero unused with
      fits := fun file member => ?_
      shortEnd := fun file member => ?_
      first := Or.inr ?_ }
  · rcases eq_or_ne file inode with rfl | different
    · rw [Layout.addFile_self]
      exact fun _ => nofun
    · have isFile := Layout.mem_files_of_ne member different
      rw [Layout.addFile_of_ne different, adds.blocks_kept sound unused isFile]
      exact sound.fits file isFile
  · rcases eq_or_ne file inode with rfl | different
    · rw [Layout.addFile_self]
      exact fun _ => nofun
    · have isFile := Layout.mem_files_of_ne member different
      rw [Layout.addFile_of_ne different, adds.blocks_kept sound unused isFile]
      exact sound.shortEnd file isFile
  · rcases sound.first with none | some
    · rw [Layout.addFile, none, first none]
      rfl
    · rw [Layout.addFile, List.head?_append, some]
      rfl

/-- A file whose data pages are released. -/
theorem Sound.recreate (sound : Sound eeprom layout) (member : inode ∈ layout.files)
    {cleared : Device}
    (kept : ∀ page k, page ∉ layout.chain inode ∨ 4 ≤ k → cleared page k = eeprom page k)
    (zeros : ∀ page ∈ layout.chain inode, ∀ k < 4, cleared page k = 0) :
    Sound (writeSlice inode 0 pageSize (newFilePage (nextFile (eeprom inode)) name) cleared)
      (layout.rechain inode []) := by
  have small := sound.used_lt inode (Layout.uses_file member)
  have self (k : Nat) (inside : k < pageSize) :=
    @writePage_self cleared inode small k inside (newFilePage (nextFile (eeprom inode)) name)
  have others (page k : Nat) (different : page ≠ inode) (apart : page ∉ layout.chain inode) :
      writeSlice inode 0 pageSize (newFilePage (nextFile (eeprom inode)) name) cleared page k =
        eeprom page k := by
    rw [writeSlice_of_ne small different, kept page k (Or.inl apart)]
  have separate : ∀ other ∈ layout.files, other ≠ inode → ∀ page ∈ other :: layout.chain other,
      page ≠ inode ∧ page ∉ layout.chain inode := by
    intro other member' different page inOther
    have apart : page ∉ inode :: layout.chain inode :=
      fun inFile => sound.separate member member' different page inFile inOther
    exact ⟨List.ne_of_not_mem_cons apart, List.not_mem_of_not_mem_cons apart⟩
  have zero : 0 ≠ inode ∧ 0 ∉ layout.chain inode :=
    ⟨(sound.fileList.ne_null inode member).symm, fun inChain =>
      (sound.dataChain inode member).ne_null 0 inChain rfl⟩
  have fits : nextFile (eeprom inode) < 65536 := decode16_lt _
  refine sound.rechain (sound.toStructured.rechain member ?_ List.nodup_nil (fun _ => nofun)
    (fun _ => nofun) (fun _ => nofun) ?_ ?_ ?_ ?_) (fun _ => nofun) (fun _ => nofun) ?_
  · exact (nextPage_congr (self 1 (by decide)) (self 2 (by decide))).trans nextPage_newFilePage
  · intro page inChain _
    have inside := sound.used_lt page (Layout.uses_page member inChain)
    have different : page ≠ inode := fun is =>
      sound.outside inode member page inChain (is ▸ member)
    have byte : writeSlice inode 0 pageSize (newFilePage (nextFile (eeprom inode)) name) cleared
        page 0 = 0 := by
      rw [writeSlice_of_ne small different, zeros page inChain 0 (by decide)]
    simp only [isFree, readPage_of_lt inside, byte]
    decide
  · intro page _ apart
    rcases eq_or_ne page inode with rfl | different
    · rw [self 0 (by decide), sound.fileMagic page member]
      rfl
    · exact others page 0 different apart
  · refine List.forall_mem_cons.mpr ⟨?_, fun page isFile => ?_⟩
    · have same (k : Nat) := others 0 k zero.1 zero.2
      exact nextFile_congr (same 3) (same 4)
    · rcases eq_or_ne page inode with rfl | different
      · exact (nextFile_congr (self 3 (by decide)) (self 4 (by decide))).trans
          (nextFile_newFilePage fits)
      · have apart := separate page isFile different page List.mem_cons_self
        have same (k : Nat) := others page k apart.1 apart.2
        exact nextFile_congr (same 3) (same 4)
  · intro other member' different page inOther
    have apart := separate other member' different page inOther
    have same (k : Nat) := others page k apart.1 apart.2
    exact nextPage_congr (same 1) (same 2)
  · intro other member' different
    refine blocks_congr fun page inChain k _ => ?_
    have apart := separate other member' different page (List.mem_cons_of_mem _ inChain)
    exact others page k apart.1 apart.2

end Create

end Ethersex.Eeprom
