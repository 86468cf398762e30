import Mathlib
import Ethersex.Eeprom.Model
import Ethersex.Library.Chain

/-!
# The layout of the EEPROM

Which pages are file pages, and which data pages belong to each of them.  The layout is
determined by the links; what is stated of it is that the lists are finite and disjoint,
that every page on them carries the magic of its role, and that all others are free.
-/

namespace Ethersex.Eeprom

open Library

/-! ## Bytes and fields -/

section Fields

variable {eeprom : Device} {page offset count : Nat} {data : Bytes}

theorem readPage_of_lt (small : page < pageCount) : readPage eeprom page = eeprom page := by
  rw [readPage, Nat.mod_eq_of_lt small]

theorem writeSlice_of_lt (small : page < pageCount) :
    writeSlice page offset count data eeprom =
      Function.update eeprom page (overlay pageSize offset count data (eeprom page)) := by
  rw [writeSlice, Nat.mod_eq_of_lt small]

theorem writeSlice_of_ne (small : page < pageCount) {other : Nat} (different : other ≠ page) :
    writeSlice page offset count data eeprom other = eeprom other := by
  rw [writeSlice_of_lt small, Function.update_of_ne different]

theorem writeSlice_self (small : page < pageCount) :
    writeSlice page offset count data eeprom page =
      overlay pageSize offset count data (eeprom page) := by
  rw [writeSlice_of_lt small, Function.update_self]

/-- A byte that is not written. -/
theorem writeSlice_apply_of_outside (small : page < pageCount) (fits : offset + count ≤ pageSize)
    {other k : Nat} (outside : other ≠ page ∨ k < offset ∨ offset + count ≤ k) :
    writeSlice page offset count data eeprom other k = eeprom other k := by
  rcases eq_or_ne other page with rfl | different
  · rw [writeSlice_self small]
    rcases outside.resolve_left (not_not_intro rfl) with before | behind
    · exact overlay_of_lt fits before
    · exact overlay_of_ge fits behind
  · rw [writeSlice_of_ne small different]

/-- A byte that is written. -/
theorem writeSlice_apply (small : page < pageCount) (fits : offset + count ≤ pageSize) {k : Nat}
    (inside : k < count) :
    writeSlice page offset count data eeprom page (offset + k) = data k := by
  rw [writeSlice_self small]
  exact overlay_add fits inside

theorem nextPage_congr {left right : Bytes} (one : left 1 = right 1) (two : left 2 = right 2) :
    nextPage left = nextPage right := by
  simp only [nextPage, decode16, one, two]

theorem nextFile_congr {left right : Bytes} (three : left 3 = right 3) (four : left 4 = right 4) :
    nextFile left = nextFile right := by
  simp only [nextFile, decode16, three, four]

theorem nextPage_writeSlice (small : page < pageCount) {value : Nat} (fits : value < 65536) :
    nextPage (writeSlice page 1 2 (encode16 value) eeprom page) = value := by
  have bytes : AgreeTo 2 (fun k => writeSlice page 1 2 (encode16 value) eeprom page (1 + k))
      (encode16 value) := fun k inside => writeSlice_apply small (by decide) inside
  rw [nextPage, decode16_congr bytes, decode16_encode16 fits]

theorem nextFile_writeSlice (small : page < pageCount) {value : Nat} (fits : value < 65536) :
    nextFile (writeSlice page 3 2 (encode16 value) eeprom page) = value := by
  have bytes : AgreeTo 2 (fun k => writeSlice page 3 2 (encode16 value) eeprom page (3 + k))
      (encode16 value) := fun k inside => writeSlice_apply small (by decide) inside
  rw [nextFile, decode16_congr bytes, decode16_encode16 fits]

theorem isFree_congr {other : Device} (small : page < pageCount)
    (same : other page 0 = eeprom page 0) : isFree other page = isFree eeprom page := by
  simp only [isFree, readPage_of_lt small, same]

end Fields

/-! ## Layouts -/

/-- The file pages in the order of their list, and the data pages of each. -/
structure Layout where
  files : List Nat
  chain : Nat → List Nat

/-- The page is a file page or a data page. -/
def Layout.Uses (layout : Layout) (page : Nat) : Prop :=
  page ∈ layout.files ∨ ∃ file ∈ layout.files, page ∈ layout.chain file

/-- The lists on the EEPROM are those of the layout. -/
structure Structured (eeprom : Device) (layout : Layout) : Prop where
  superblock : eeprom 0 0 = magicSuperblock
  fileList : Chain (fun page => nextFile (eeprom page)) 0 0 layout.files
  dataChain : ∀ file ∈ layout.files,
    Chain (fun page => nextPage (eeprom page)) 0 file (layout.chain file)
  distinctFiles : layout.files.Nodup
  distinctPages : ∀ file ∈ layout.files, (layout.chain file).Nodup
  apart : ∀ file ∈ layout.files, ∀ other ∈ layout.files, ∀ page,
    page ∈ layout.chain file → page ∈ layout.chain other → file = other
  outside : ∀ file ∈ layout.files, ∀ page ∈ layout.chain file, page ∉ layout.files
  used_lt : ∀ page, layout.Uses page → page < pageCount
  fileMagic : ∀ file ∈ layout.files, eeprom file 0 = magicFile
  dataMagic : ∀ file ∈ layout.files, ∀ page ∈ layout.chain file, eeprom page 0 = magicData
  others : ∀ page, 0 < page → page < pageCount → ¬layout.Uses page → isFree eeprom page

section Structured

variable {eeprom : Device} {layout : Layout} {file page : Nat}

theorem Layout.uses_file (member : file ∈ layout.files) : layout.Uses file := Or.inl member

theorem Layout.uses_page (member : file ∈ layout.files) (inChain : page ∈ layout.chain file) :
    layout.Uses page := Or.inr ⟨file, member, inChain⟩

theorem Structured.uses_pos (structured : Structured eeprom layout) (uses : layout.Uses page) :
    0 < page := by
  rcases uses with member | ⟨file, member, inChain⟩
  · exact Nat.pos_of_ne_zero (structured.fileList.ne_null page member)
  · exact Nat.pos_of_ne_zero ((structured.dataChain file member).ne_null page inChain)

/-- The free pages are those that are not used. -/
theorem Structured.isFree_iff (structured : Structured eeprom layout) (small : page < pageCount) :
    isFree eeprom page ↔ page ≠ 0 ∧ ¬layout.Uses page := by
  constructor
  · intro free
    simp only [isFree, readPage_of_lt small, decide_eq_true_eq] at free
    refine ⟨fun zero => free.1 (zero ▸ structured.superblock), ?_⟩
    rintro (member | ⟨file, member, inChain⟩)
    · exact free.2.1 (structured.fileMagic page member)
    · exact free.2.2 (structured.dataMagic file member page inChain)
  · rintro ⟨nonzero, unused⟩
    exact structured.others page (Nat.pos_of_ne_zero nonzero) small unused

/-- The pages of a file, with the file page in front. -/
theorem Structured.nodup (structured : Structured eeprom layout) (member : file ∈ layout.files) :
    (file :: layout.chain file).Nodup :=
  List.nodup_cons.mpr ⟨fun inChain => structured.outside file member file inChain member,
    structured.distinctPages file member⟩

/-- Different files have no page in common. -/
theorem Structured.separate (structured : Structured eeprom layout) {other : Nat}
    (member : file ∈ layout.files) (member' : other ∈ layout.files) (different : other ≠ file) :
    ∀ page ∈ file :: layout.chain file, page ∉ other :: layout.chain other := by
  intro page inFile inOther
  rcases List.mem_cons.mp inFile with rfl | inChain <;> rcases List.mem_cons.mp inOther with rfl | inChain'
  · exact different rfl
  · exact structured.outside other member' page inChain' member
  · exact structured.outside file member page inChain member'
  · exact different (structured.apart other member' file member page inChain' inChain)

theorem Layout.uses_mem (member : file ∈ layout.files) :
    ∀ page ∈ file :: layout.chain file, layout.Uses page :=
  List.forall_mem_cons.mpr ⟨Layout.uses_file member, fun _ inChain => Layout.uses_page member inChain⟩

theorem Structured.mem_lt (structured : Structured eeprom layout) (member : file ∈ layout.files) :
    ∀ page ∈ file :: layout.chain file, page < pageCount :=
  List.forall_mem_cons.mpr ⟨structured.used_lt file (Layout.uses_file member),
    fun page inChain => structured.used_lt page (Layout.uses_page member inChain)⟩

/-- Lists of used pages are short. -/
theorem Structured.length_lt (structured : Structured eeprom layout) {pages : List Nat}
    (nodup : pages.Nodup) (uses : ∀ page ∈ pages, layout.Uses page) : pages.length < pageCount := by
  have inside : ∀ page ∈ 0 :: pages, page ∈ List.range pageCount := by
    refine List.forall_mem_cons.mpr ⟨List.mem_range.mpr (by decide), fun page member => ?_⟩
    exact List.mem_range.mpr (structured.used_lt page (uses page member))
  have zero : 0 ∉ pages := fun member =>
    absurd (structured.uses_pos (uses 0 member)) (Nat.lt_irrefl 0)
  have short := ((List.nodup_cons.mpr ⟨zero, nodup⟩).subperm inside).length_le
  rwa [List.length_cons, List.length_range] at short

/-- A change that leaves all links and magics alone. -/
theorem Structured.congr (structured : Structured eeprom layout) {other : Device}
    (magic : ∀ page, other page 0 = eeprom page 0)
    (files : ∀ page ∈ 0 :: layout.files, nextFile (other page) = nextFile (eeprom page))
    (links : ∀ page, nextPage (other page) = nextPage (eeprom page)) : Structured other layout :=
  { structured with
    superblock := (magic 0).trans structured.superblock
    fileList := structured.fileList.congr files
    dataChain := fun file member => (structured.dataChain file member).congr fun page _ => links page
    fileMagic := fun file member => (magic file).trans (structured.fileMagic file member)
    dataMagic := fun file member page inChain =>
      (magic page).trans (structured.dataMagic file member page inChain)
    others := fun page positive small unused =>
      (isFree_congr small (magic page)).trans (structured.others page positive small unused) }

end Structured

end Ethersex.Eeprom
