import Mathlib
import Ethersex.Eeprom.Layout
import Ethersex.Library.Blocks

/-!
# Walks over the lists

Every loop that follows links ends on a structured EEPROM.  The search for a free page is
no such loop: it runs over all pages, and if it begins at the number behind the last page
while none is free, it does not come back to where it began.
-/

namespace Ethersex.Eeprom

open Library

/-! ## Free pages -/

section Search

variable {eeprom : Device} {suggested tmp passes : Nat}

theorem following_lt (tmp : Nat) : following tmp < pageCount := by
  unfold following pageCount
  split <;> omega

/-- What the search finds is free. -/
theorem searchFree_spec (superblock : eeprom 0 0 = magicSuperblock) {found : Nat}
    (small : tmp ≤ pageCount) (search : searchFree eeprom suggested passes tmp = some found) :
    found = 0 ∨ found < pageCount ∧ isFree eeprom found := by
  induction passes generalizing tmp with
  | zero => exact nomatch search
  | succ passes ih =>
      rw [searchFree] at search
      by_cases free : isFree eeprom tmp
      · rw [if_pos free] at search
        obtain rfl := Option.some.inj search
        rcases Nat.lt_or_eq_of_le small with inside | rfl
        · exact Or.inr ⟨inside, free⟩
        · simp [isFree, readPage, superblock] at free
      · rw [if_neg free] at search
        by_cases back : following tmp = suggested
        · rw [if_pos back] at search
          exact Or.inl (Option.some.inj search).symm
        · rw [if_neg back] at search
          exact ih (Nat.le_of_lt (following_lt tmp)) search

/-- The pages the search has seen before it comes to `tmp`. -/
def Seen (suggested tmp page : Nat) : Prop :=
  if suggested ≤ tmp then suggested ≤ page ∧ page < tmp else suggested ≤ page ∨ page < tmp

/-- A search that finds nothing, or does not end, has seen every page. -/
theorem searchFree_nothing (small : tmp < pageCount)
    (superblock : eeprom 0 0 = magicSuperblock)
    (seen : ∀ page < pageCount, Seen suggested tmp page → ¬isFree eeprom page)
    (enough : suggested = pageCount → tmp + passes = pageCount)
    (search : searchFree eeprom suggested passes tmp = some 0 ∨
      suggested = pageCount ∧ searchFree eeprom suggested passes tmp = none) :
    ∀ page < pageCount, ¬isFree eeprom page := by
  induction passes generalizing tmp with
  | zero =>
      rcases search with search | ⟨behind, -⟩
      · cases search
      · exact absurd (enough behind) (by omega)
  | succ passes ih =>
      rw [searchFree] at search
      have used : ¬isFree eeprom tmp := by
        intro free
        rw [if_pos free] at search
        rcases search with zero | ⟨-, none⟩
        · obtain rfl := Option.some.inj zero
          simp [isFree, readPage, superblock] at free
        · cases none
      rw [if_neg used] at search
      have seen' : ∀ page < pageCount, Seen suggested tmp page ∨ page = tmp → ¬isFree eeprom page := by
        rintro page inside (before | rfl)
        · exact seen page inside before
        · exact used
      by_cases last : following tmp = suggested ∨ suggested = pageCount ∧ tmp + 1 = pageCount
      · refine fun page inside => seen' page inside ?_
        unfold Seen
        unfold following pageCount at *
        split_ifs at * <;> omega
      · rw [not_or] at last
        rw [if_neg last.1] at search
        refine ih (following_lt tmp) (fun page inside before => seen' page inside ?_) ?_ search
        · unfold Seen at *
          unfold following pageCount at *
          split_ifs at * <;> omega
        · intro behind
          have := enough behind
          unfold following pageCount at *
          split_ifs at * <;> omega

/-- From a page on, the search always ends. -/
theorem searchFree_isSome (start : suggested < pageCount) (small : tmp < pageCount)
    (enough : (if suggested ≤ tmp then pageCount - tmp + suggested else suggested - tmp) ≤ passes) :
    (searchFree eeprom suggested passes tmp).isSome := by
  induction passes generalizing tmp with
  | zero =>
      unfold pageCount at *
      split_ifs at enough <;> omega
  | succ passes ih =>
      rw [searchFree]
      split_ifs with free back
      · rfl
      · rfl
      · refine ih (following_lt tmp) ?_
        unfold following pageCount at *
        split_ifs at * <;> omega

/-- Page 512 is page 0, from which the search goes on. -/
theorem searchFree_behind (superblock : eeprom 0 0 = magicSuperblock) :
    vfsEepromFindFreePage eeprom pageCount = searchFree eeprom pageCount pageCount 0 := by
  have used : ¬isFree eeprom pageCount := by simp [isFree, readPage, superblock]
  rw [vfsEepromFindFreePage, searchFree, if_neg used, if_neg (by decide)]
  rfl

theorem findFreePage_nothing (superblock : eeprom 0 0 = magicSuperblock)
    (start : suggested ≤ pageCount)
    (search : vfsEepromFindFreePage eeprom suggested = some 0 ∨
      suggested = pageCount ∧ vfsEepromFindFreePage eeprom suggested = none) :
    ∀ page < pageCount, ¬isFree eeprom page := by
  rcases Nat.lt_or_eq_of_le start with inside | rfl
  · refine searchFree_nothing inside superblock (fun page _ before => ?_)
      (fun behind => absurd behind (Nat.ne_of_lt inside)) search
    rw [Seen, if_pos le_rfl] at before
    omega
  · rw [searchFree_behind superblock] at search
    refine searchFree_nothing (by decide) superblock (fun page inside before => ?_)
      (fun _ => Nat.zero_add _) search
    rw [Seen, if_neg (by decide)] at before
    omega

/-- The free-page search delivers a free page, if there is one, and 0 if not; it does not
end if it begins behind the last page and there is none. -/
theorem findFreePage_spec (superblock : eeprom 0 0 = magicSuperblock) (start : suggested ≤ pageCount) :
    (∃ found, vfsEepromFindFreePage eeprom suggested = some found ∧ found ≠ 0 ∧
        found < pageCount ∧ isFree eeprom found) ∨
      (∀ page < pageCount, ¬isFree eeprom page) ∧
        (vfsEepromFindFreePage eeprom suggested = some 0 ∨
          suggested = pageCount ∧ vfsEepromFindFreePage eeprom suggested = none) := by
  cases search : vfsEepromFindFreePage eeprom suggested with
  | none =>
      have behind : suggested = pageCount := by
        by_contra inside
        have inside := Nat.lt_of_le_of_ne start inside
        have some := @searchFree_isSome eeprom suggested suggested (pageCount + 1) inside inside (by
          rw [if_pos le_rfl]
          omega)
        rw [vfsEepromFindFreePage] at search
        rw [search] at some
        exact nomatch some
      exact Or.inr ⟨findFreePage_nothing superblock start (Or.inr ⟨behind, search⟩),
        Or.inr ⟨behind, rfl⟩⟩
  | some found =>
      rcases searchFree_spec superblock start search with rfl | ⟨inside, free⟩
      · exact Or.inr ⟨findFreePage_nothing superblock start (Or.inl search), Or.inl rfl⟩
      · refine Or.inl ⟨found, rfl, ?_, inside, free⟩
        rintro rfl
        simp [isFree, readPage, superblock] at free

end Search

/-! ## Files -/

section Walks

variable {eeprom : Device} {layout : Layout} {origin : Nat} {nodes : List Nat}

/-- Going through a list of file pages. -/
theorem walkFiles_spec (name : Option (List UInt8))
    (chain : Chain (fun page => nextFile (eeprom page)) 0 origin nodes)
    (files : ∀ file ∈ nodes, file < pageCount ∧ eeprom file 0 = magicFile) {passes : Nat}
    (enough : nodes.length ≤ passes) :
    ∃ inode, walkFiles eeprom name passes (nextFile (eeprom origin)) = some inode ∧
      (inode = 0 ∨ inode ∈ nodes) ∧
      (name = none → inode = if nodes = [] then 0 else lastNode origin nodes) := by
  induction nodes generalizing origin passes with
  | nil =>
      have ends : nextFile (eeprom origin) = 0 := chain
      refine ⟨0, ?_, Or.inl rfl, fun _ => rfl⟩
      cases passes <;> simp [walkFiles, ends]
  | cons node rest ih =>
      obtain ⟨is, nonzero, chain⟩ := chain
      rw [List.forall_mem_cons] at files
      obtain ⟨⟨small, magic⟩, files⟩ := files
      obtain ⟨passes, rfl⟩ := Nat.exists_eq_succ_of_ne_zero (Nat.ne_of_gt (Nat.lt_of_lt_of_le
        (Nat.succ_pos _) enough))
      obtain ⟨inode, later, listed, last⟩ := ih chain files (Nat.le_of_succ_le_succ enough)
      rw [show nextFile (eeprom origin) = node from is, walkFiles, if_neg nonzero]
      simp only [readPage_of_lt small, magic, ne_eq, not_true_eq_false, if_false]
      by_cases found : name = some (filename (eeprom node))
      · rw [if_pos found]
        exact ⟨node, rfl, Or.inr List.mem_cons_self, fun none => nomatch none.symm.trans found⟩
      rw [if_neg found]
      by_cases ends : name = none ∧ nextFile (eeprom node) = 0
      · rw [if_pos ends]
        refine ⟨node, rfl, Or.inr List.mem_cons_self, fun _ => ?_⟩
        cases rest with
        | nil => rfl
        | cons next rest => exact absurd (chain.1.symm.trans ends.2) chain.2.1
      · rw [if_neg ends]
        refine ⟨inode, later, listed.imp_right (List.mem_cons_of_mem node), fun none => ?_⟩
        rw [if_neg (List.cons_ne_nil _ _), lastNode_cons, last none]
        cases rest with
        | nil => exact absurd ⟨none, chain⟩ ends
        | cons next rest => rfl

theorem Structured.findFile (structured : Structured eeprom layout) (name : Option (List UInt8)) :
    ∃ inode, vfsEepromFindFile eeprom name = some inode ∧ (inode = 0 ∨ inode ∈ layout.files) ∧
      (name = none → inode = lastNode 0 layout.files) := by
  have short := structured.length_lt structured.distinctFiles fun file member =>
    Layout.uses_file member
  obtain ⟨inode, walk, listed, last⟩ := walkFiles_spec name structured.fileList
    (fun file member => ⟨structured.used_lt file (Layout.uses_file member),
      structured.fileMagic file member⟩) (Nat.le_of_lt short)
  refine ⟨inode, walk, listed, fun none => ?_⟩
  rw [last none]
  split_ifs with empty
  · rw [empty]
    rfl
  · rfl

end Walks

/-! ## Data pages -/

/-- The data in a data page. -/
def block (page : Bytes) : Block UInt8 := ⟨pageLen page, fun k => page (4 + k)⟩

/-- The data pages of a file. -/
def blocks (eeprom : Device) (pages : List Nat) : List (Block UInt8) :=
  pages.map fun page => block (eeprom page)

theorem block_congr {left right : Bytes} (same : ∀ k, 3 ≤ k → left k = right k) :
    block left = block right := by
  simp only [block, pageLen, same 3 (le_refl 3), same _ (Nat.le_add_right_of_le (Nat.le_succ 3))]

@[simp] theorem blocks_nil (eeprom : Device) : blocks eeprom [] = [] := rfl

@[simp] theorem blocks_cons (eeprom : Device) (page : Nat) (pages : List Nat) :
    blocks eeprom (page :: pages) = block (eeprom page) :: blocks eeprom pages := rfl

@[simp] theorem blocks_append (eeprom : Device) (front pages : List Nat) :
    blocks eeprom (front ++ pages) = blocks eeprom front ++ blocks eeprom pages :=
  List.map_append

@[simp] theorem length_blocks (eeprom : Device) (pages : List Nat) :
    (blocks eeprom pages).length = pages.length := List.length_map _

@[simp] theorem block_fill (page : Bytes) : (block page).fill = pageLen page := rfl

section Pages

variable {eeprom : Device} {start : Nat} {pages : List Nat} {passes : Nat}

/-- Releasing the pages of a file. -/
theorem clearPages_spec (starts : Starts (fun page => nextPage (eeprom page)) 0 start pages)
    (distinct : pages.Nodup) (small : ∀ page ∈ pages, page < pageCount)
    (enough : pages.length ≤ passes) :
    ∃ eeprom', clearPages passes start eeprom = some eeprom' ∧
      (∀ page k, page ∉ pages ∨ 4 ≤ k → eeprom' page k = eeprom page k) ∧
      ∀ page ∈ pages, ∀ k < 4, eeprom' page k = 0 := by
  induction pages generalizing start eeprom passes with
  | nil =>
      obtain rfl : start = 0 := starts
      refine ⟨eeprom, ?_, fun _ _ _ => rfl, fun _ => nofun⟩
      cases passes <;> rfl
  | cons page rest ih =>
      obtain ⟨rfl, nonzero, chain⟩ := starts
      rw [List.nodup_cons] at distinct
      rw [List.forall_mem_cons] at small
      obtain ⟨passes, rfl⟩ := Nat.exists_eq_succ_of_ne_zero (Nat.ne_of_gt (Nat.lt_of_lt_of_le
        (Nat.succ_pos _) enough))
      have later : Starts (fun page => nextPage (writeSlice start 0 4 (fun _ => 0) eeprom page)) 0
          (nextPage (eeprom start)) rest := by
        refine chain.starts.congr fun page member => ?_
        rw [writeSlice_of_ne small.1 fun is => distinct.1 (is ▸ member)]
      obtain ⟨eeprom', clears, others, cleared⟩ :=
        ih later distinct.2 small.2 (Nat.le_of_succ_le_succ enough)
      refine ⟨eeprom', ?_, fun page k apart => ?_, ?_⟩
      · rw [clearPages, if_neg nonzero, readPage_of_lt small.1, clears]
      · rw [others page k (apart.imp_left List.not_mem_of_not_mem_cons)]
        exact writeSlice_apply_of_outside small.1 (by decide)
          (apart.imp List.ne_of_not_mem_cons Or.inr)
      · refine List.forall_mem_cons.mpr ⟨fun k inside => ?_, cleared⟩
        rw [others start k (Or.inl distinct.1), ← Nat.zero_add k]
        exact writeSlice_apply small.1 (by decide) inside

/-- Adding up the fills. -/
theorem sumPages_spec (starts : Starts (fun page => nextPage (eeprom page)) 0 start pages)
    (small : ∀ page ∈ pages, page < pageCount) (enough : pages.length ≤ passes) (size : Nat) :
    sumPages eeprom passes start size =
      some (size + (contents dataSize (blocks eeprom pages)).length) := by
  induction pages generalizing start passes size with
  | nil =>
      obtain rfl : start = 0 := starts
      cases passes <;> rfl
  | cons page rest ih =>
      obtain ⟨rfl, nonzero, chain⟩ := starts
      rw [List.forall_mem_cons] at small
      obtain ⟨passes, rfl⟩ := Nat.exists_eq_succ_of_ne_zero (Nat.ne_of_gt (Nat.lt_of_lt_of_le
        (Nat.succ_pos _) enough))
      simp only [sumPages, if_neg nonzero, readPage_of_lt small.1]
      rw [blocks_cons, contents, block_fill]
      split_ifs with short
      · rw [Block.length_used, block_fill]
      · rw [ih chain.starts small.2 (Nat.le_of_succ_le_succ enough), List.length_append,
          Block.length_used, block_fill, Nat.add_assoc]

/-- Once the page to write to is known, the first loop of a write only counts. -/
theorem skipPages_rest (starts : Starts (fun page => nextPage (eeprom page)) 0 start pages)
    (small : ∀ page ∈ pages, page < pageCount) (enough : pages.length ≤ passes)
    (skip allocated last : Nat) {writePage : Nat} (known : writePage ≠ 0) :
    skipPages eeprom passes start skip ⟨allocated, last, writePage⟩ =
      some ⟨allocated + pages.length, lastNode last pages, writePage⟩ := by
  induction pages generalizing start passes allocated last with
  | nil =>
      obtain rfl : start = 0 := starts
      cases passes <;> rfl
  | cons page rest ih =>
      obtain ⟨rfl, nonzero, chain⟩ := starts
      rw [List.forall_mem_cons] at small
      obtain ⟨passes, rfl⟩ := Nat.exists_eq_succ_of_ne_zero (Nat.ne_of_gt (Nat.lt_of_lt_of_le
        (Nat.succ_pos _) enough))
      simp only [skipPages, if_neg nonzero, readPage_of_lt small.1, known, false_and, if_false]
      rw [ih chain.starts small.2 (Nat.le_of_succ_le_succ enough), List.length_cons, lastNode_cons,
        Nat.add_assoc, Nat.add_comm 1]

/-- The page at which a write begins: the first one that is not full, but none behind the
one that holds the offset. -/
def WritesAt (eeprom : Device) (skip : Nat) (pages : List Nat) (writePage : Nat) : Prop :=
  ∃ front rest, pages = front ++ writePage :: rest ∧
    (∀ page ∈ front, ¬pageLen (eeprom page) < dataSize) ∧ front.length ≤ skip ∧
    (front.length = skip ∨ pageLen (eeprom writePage) < dataSize)

/-- The first loop of a write. -/
theorem skipPages_spec (starts : Starts (fun page => nextPage (eeprom page)) 0 start pages)
    (small : ∀ page ∈ pages, page < pageCount) (enough : pages.length ≤ passes)
    (skip allocated last : Nat) :
    ∃ writePage, skipPages eeprom passes start skip ⟨allocated, last, 0⟩ =
        some ⟨allocated + pages.length, lastNode last pages, writePage⟩ ∧
      (writePage = 0 ∧ (∀ page ∈ pages, ¬pageLen (eeprom page) < dataSize) ∨
        WritesAt eeprom skip pages writePage) := by
  induction pages generalizing start passes skip allocated last with
  | nil =>
      obtain rfl : start = 0 := starts
      refine ⟨0, ?_, Or.inl ⟨rfl, fun _ => nofun⟩⟩
      cases passes <;> rfl
  | cons page rest ih =>
      obtain ⟨rfl, nonzero, chain⟩ := starts
      rw [List.forall_mem_cons] at small
      obtain ⟨passes, rfl⟩ := Nat.exists_eq_succ_of_ne_zero (Nat.ne_of_gt (Nat.lt_of_lt_of_le
        (Nat.succ_pos _) enough))
      have enough := Nat.le_of_succ_le_succ enough
      simp only [skipPages, if_neg nonzero, readPage_of_lt small.1, true_and, if_true]
      have count : allocated + 1 + rest.length = allocated + (start :: rest).length := by
        rw [List.length_cons, Nat.add_assoc, Nat.add_comm 1]
      by_cases here : skip = 0 ∨ pageLen (eeprom start) < dataSize
      · rw [if_pos here]
        refine ⟨start, ?_, Or.inr ⟨[], rest, rfl, fun _ => nofun, Nat.zero_le _, ?_⟩⟩
        · rw [skipPages_rest chain.starts small.2 enough _ _ _ nonzero, count, lastNode_cons]
        · exact here.imp_left Eq.symm
      · rw [if_neg here]
        rw [not_or] at here
        obtain ⟨writePage, walk, full | ⟨front, behind, rfl, full, within, stops⟩⟩ :=
          ih chain.starts small.2 enough (skip - 1) (allocated + 1) start
        · rw [count] at walk
          exact ⟨writePage, walk, Or.inl ⟨full.1, List.forall_mem_cons.mpr ⟨here.2, full.2⟩⟩⟩
        · rw [count] at walk
          refine ⟨writePage, walk, Or.inr ⟨start :: front, behind, rfl,
            List.forall_mem_cons.mpr ⟨here.2, full⟩, ?_, stops.imp_left ?_⟩⟩
          · rw [List.length_cons]
            omega
          · rw [List.length_cons]
            omega

end Pages

/-! ## Reading -/

section Reading

variable {eeprom : Device} {behind : Bytes} {start : Nat} {pages : List Nat} {passes remaining : Nat}

/-- The first bytes of a page. -/
theorem copyFrom_eq_take (page : Bytes) {count : Nat} (inside : count ≤ pageLen page)
    (fits : count ≤ dataSize) : copyFrom behind page (4 + 0) count = (block page).used.take count := by
  rw [Block.used, ← List.map_take, List.take_range, block_fill, Nat.min_eq_left inside]
  refine List.map_congr_left fun k member => ?_
  rw [List.mem_range] at member
  rw [if_pos]
  · rfl
  · simp only [dataSize, pageSize] at *
    omega

theorem copyPages_none (passes start offset : Nat) :
    (copyPages behind eeprom passes start offset 0).1 = [] := by
  cases passes <;> rfl

/-- Reading from the beginning of a page on. -/
theorem copyPages_spec (starts : Starts (fun page => nextPage (eeprom page)) 0 start pages)
    (small : ∀ page ∈ pages, page < pageCount) (some : pages ≠ [])
    (fits : ∀ block ∈ blocks eeprom pages, block.fill ≤ dataSize)
    (short : ShortEnd dataSize (blocks eeprom pages)) (enough : remaining ≤ passes) {offset : Nat}
    (aligned : offset % dataSize = 0) (room : offset + dataSize * pages.length < 65536) :
    (copyPages behind eeprom passes start offset remaining).1 =
      (contents dataSize (blocks eeprom pages)).take remaining := by
  induction pages generalizing start passes offset remaining with
  | nil => exact absurd rfl some
  | cons page rest ih =>
      obtain ⟨rfl, nonzero, chain⟩ := starts
      rw [List.forall_mem_cons] at small
      rw [blocks_cons, List.forall_mem_cons, block_fill] at fits
      rcases Nat.eq_zero_or_pos remaining with rfl | positive
      · rw [copyPages_none, List.take_zero]
      obtain ⟨passes, rfl⟩ := Nat.exists_eq_succ_of_ne_zero (Nat.ne_of_gt (Nat.lt_of_lt_of_le
        positive enough))
      rw [List.length_cons, Nat.mul_succ] at room
      have count : (if remaining < dataSize then remaining else dataSize) = min remaining dataSize := by
        split_ifs <;> omega
      simp only [copyPages, if_neg (Nat.ne_of_gt positive), readPage_of_lt small.1, aligned,
        Nat.zero_add, Nat.sub_zero, count, blocks_cons]
      by_cases ends : min remaining dataSize > pageLen (eeprom start)
      · have below : pageLen (eeprom start) < dataSize := by omega
        have reduced : (pageLen (eeprom start) + 256) % 256 = pageLen (eeprom start) := by
          rw [Nat.add_mod_right, Nat.mod_eq_of_lt (Nat.lt_trans below (by decide))]
        rw [if_pos ends, contents_of_lt (by exact below), reduced,
          copyFrom_eq_take _ (le_refl _) (Nat.le_of_lt below), List.take_of_length_le,
          List.take_of_length_le]
        · rw [Block.length_used, block_fill]
          omega
        · rw [Block.length_used, block_fill]
      · rw [if_neg ends]
        have inside : min remaining dataSize ≤ pageLen (eeprom start) := Nat.le_of_not_lt ends
        simp only [copyFrom_eq_take _ inside (Nat.min_le_right _ _)]
        rcases Nat.lt_or_ge dataSize remaining with beyond | within
        · have full : ¬(block (eeprom start)).fill < dataSize := by
            rw [block_fill]
            omega
          have more : blocks eeprom rest ≠ [] := short.ne_nil full
          have is : pageLen (eeprom start) = dataSize :=
            Nat.le_antisymm fits.1 (Nat.le_of_not_lt full)
          have next : (offset + dataSize) % 65536 = offset + dataSize := Nat.mod_eq_of_lt (by omega)
          have size : 0 < dataSize := by decide
          have later := ih chain.starts small.2 (fun none => more (by rw [none, blocks_nil])) fits.2
            (short.tail more) (show remaining - dataSize ≤ passes by omega)
            (show (offset + dataSize) % dataSize = 0 by rw [Nat.add_mod_right, aligned]) (by omega)
          have length : (block (eeprom start)).used.length = dataSize := by
            rw [Block.length_used, block_fill, is]
          rw [Nat.min_eq_right (Nat.le_of_lt beyond), next, later, contents, if_neg full,
            List.take_append, length, List.take_of_length_le (Nat.le_of_eq length),
            List.take_of_length_le (length.le.trans (Nat.le_of_lt beyond))]
        · rw [Nat.min_eq_left within, Nat.sub_self, copyPages_none, List.append_nil, take_contents]
          rw [block_fill]
          omega

end Reading

end Ethersex.Eeprom
