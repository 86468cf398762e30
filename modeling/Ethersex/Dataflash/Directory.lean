import Mathlib
import Ethersex.Dataflash.Commit

/-!
# The directory

The directory is a packed array of nodes in the root page, sorted by name and
ended by unused nodes.  `fs_create` and `fs_remove` shift it by reading the old
root page and writing the page in `BUF1`; here their effect is an insertion into
and a deletion from a list.
-/

namespace Ethersex.Dataflash

open Library

/-! ## Nodes of a page -/

/-- The node at an index of a root page. -/
def nodeAt (page : Bytes) (index : Nat) : FsNode := .decode (readFrom 528 (40 + index * 8) page)

/-- A root page with another node at an index. -/
def putNode (node : FsNode) (index : Nat) (page : Bytes) : Bytes :=
  overlay 528 (40 + index * 8) 8 node.encode page

/-- The name of a node. -/
def FsNode.text (node : FsNode) : List UInt8 := fieldText 6 node.nameBytes

theorem readNode_eq (fs : Fs) (index : Nat) :
    readNode fs index = nodeAt (fs.chip.flash (fs.root % 4096)) index := rfl

theorem writeNode_eq (node : FsNode) (index : Nat) (chip : Chip) :
    writeNode node index chip = { chip with buf1 := putNode node index chip.buf1 } := rfl

/-- The last index for which a node fits into a page is 60; the last byte of that
node is the checksum. -/
theorem nodeAt_congr {left right : Bytes} {index : Nat} (small : index ≤ 60)
    (agree : ∀ k, 40 + index * 8 ≤ k → k < 48 + index * 8 → left k = right k) :
    nodeAt left index = nodeAt right index := by
  refine FsNode.decode_congr fun k inside => ?_
  rw [readFrom_apply (by omega), readFrom_apply (by omega)]
  exact agree _ (by omega) (by omega)

theorem nodeAt_unused_congr {left right : Bytes} {index : Nat} (small : index ≤ 60)
    (agree : ∀ k, 40 + index * 8 ≤ k → k < 42 + index * 8 → left k = right k) :
    (nodeAt left index).unused = (nodeAt right index).unused := by
  simp only [nodeAt, FsNode.decode]
  rw [@FlagWord.decode_congr _ (readFrom 528 (40 + index * 8) right)]
  intro k inside
  rw [readFrom_apply (by omega), readFrom_apply (by omega)]
  exact agree _ (by omega) (by omega)

theorem nodeAt_putNode (node : FsNode) (page : Bytes) {index k : Nat} (small : index ≤ 60)
    (inside : k ≤ 60) :
    nodeAt (putNode node index page) k = if k = index then node else nodeAt page k := by
  split
  · next same =>
      rw [same, nodeAt, putNode, FsNode.decode_congr (readFrom_overlay (by omega)),
        FsNode.decode_encode]
  · next other =>
      exact FsNode.decode_congr
        (readFrom_overlay_of_disjoint (by omega) (by omega) (by omega))

theorem putNode_of_lt (node : FsNode) (page : Bytes) {index k : Nat} (small : index ≤ 60)
    (before : k < 40) : putNode node index page k = page k :=
  overlay_of_lt (by omega) (by omega)

/-- A root page holds the entries and nothing else. -/
structure Lists (page : Bytes) (entries : List FsNode) : Prop where
  entry : ∀ (index : Nat) (entry : FsNode), entries[index]? = some entry →
    nodeAt page index = entry
  used : ∀ entry ∈ entries, entry.unused = false
  marker : ∀ index, entries.length ≤ index → index ≤ 60 → (nodeAt page index).unused = true
  room : entries.length ≤ 60

/-- The directory bytes determine the entries. -/
theorem Lists.congr {left right : Bytes} {entries : List FsNode} (lists : Lists left entries)
    (agree : ∀ k, 40 ≤ k → k < 527 → right k = left k) : Lists right entries where
  entry index entry found := by
    have small : index < entries.length := (List.getElem?_eq_some_iff.mp found).1
    have room := lists.room
    rw [← lists.entry index entry found]
    exact nodeAt_congr (by omega) fun k lower upper => agree k (by omega) (by omega)
  used := lists.used
  marker index lower upper := by
    rw [← lists.marker index lower upper]
    exact nodeAt_unused_congr upper fun k lower upper => agree k (by omega) (by omega)
  room := lists.room

/-- The file system has these directory entries. -/
def Fs.Holds (fs : Fs) (entries : List FsNode) : Prop :=
  Lists (fs.chip.flash (fs.root % 4096)) entries

theorem SameDirectory.holds {before after : Fs} (same : SameDirectory before after)
    {entries : List FsNode} (holds : before.Holds entries) : after.Holds entries :=
  Lists.congr holds same

theorem Fs.Holds.readNode {fs : Fs} {entries : List FsNode} (holds : fs.Holds entries)
    {index : Nat} {entry : FsNode} (found : entries[index]? = some entry) :
    readNode fs index = entry ∧ entry.unused = false :=
  ⟨holds.entry index entry found, holds.used entry (List.mem_of_getElem? found)⟩

/-! ## Searching -/

section Search

variable {fs : Fs} {entries : List FsNode} {name : List UInt8}

/-- The text a name is stored and compared as. -/
def stored (name : List UInt8) : List UInt8 := fieldText 6 (cString name)

theorem strncmp_name (node : FsNode) (name : List UInt8) :
    (strncmp node.nameBytes (cString name) fsFilename = 0 ↔ node.text = stored name) ∧
      (strncmp node.nameBytes (cString name) fsFilename < 0 ↔ node.text < stored name) :=
  ⟨strncmp_eq_zero_iff _ _ _, strncmp_neg_iff _ _ _⟩

/-- The search of `fs_create` stops at an entry with the name, or counts the
smaller ones up to the end marker. -/
theorem seekPlace_spec (holds : fs.Holds entries) (name : List UInt8) (steps index i : Nat)
    (inside : i ≤ entries.length) (enough : entries.length - i < steps) :
    seekPlace fs name steps index i =
      some (if stored name ∈ (entries.drop i).map FsNode.text then .duplicate
        else .place (index + ((entries.drop i).map FsNode.text).countP (· < stored name))
          entries.length) := by
  induction steps generalizing index i with
  | zero => omega
  | succ steps ih =>
      have room := holds.room
      rcases Nat.lt_or_ge i entries.length with more | done
      · have found := List.getElem?_eq_getElem more
        obtain ⟨read, used⟩ := holds.readNode found
        have compare := strncmp_name entries[i] name
        rw [List.drop_eq_getElem_cons more, List.map_cons, List.countP_cons, seekPlace, read, used]
        simp only [List.mem_cons, Bool.false_eq_true, if_false, compare.1, compare.2]
        by_cases same : entries[i].text = stored name
        · rw [if_pos same, if_pos (Or.inl same.symm)]
        · rw [if_neg same, Nat.mod_eq_of_lt (by omega), ih _ _ (by omega) (by omega)]
          by_cases later : stored name ∈ (entries.drop (i + 1)).map FsNode.text
          · rw [if_pos later, if_pos (Or.inr later)]
          · have absent : ¬(stored name = entries[i].text ∨
                stored name ∈ (entries.drop (i + 1)).map FsNode.text) := by
              rintro (equal | there)
              · exact same equal.symm
              · exact later there
            rw [if_neg later, if_neg absent]
            by_cases smaller : entries[i].text < stored name
            · simp only [smaller, if_true, decide_true]
              congr 2
              omega
            · simp only [smaller, if_false, decide_false]
              rfl
      · have last : i = entries.length := by omega
        have marked := holds.marker i (by omega) (by omega)
        rw [seekPlace, readNode_eq, marked, last, List.drop_length]
        rfl

/-- The search of `fs_remove` stops at the end marker, with the last entry that has
the name. -/
theorem seekLast_spec (holds : fs.Holds entries) (name : List UInt8) (steps : Nat)
    (found : Option (Nat × Nat)) (i : Nat) (inside : i ≤ entries.length) (enough : entries.length - i < steps) :
    ∃ result, seekLast fs name steps found i = some (result, entries.length) ∧
      ((stored name ∉ (entries.drop i).map FsNode.text ∧ result = found) ∨
        ∃ index entry, i ≤ index ∧ entries[index]? = some entry ∧ entry.text = stored name ∧
          result = some (index, entry.inode.val)) := by
  induction steps generalizing found i with
  | zero => omega
  | succ steps ih =>
      have room := holds.room
      rcases Nat.lt_or_ge i entries.length with more | done
      · have here := List.getElem?_eq_getElem more
        obtain ⟨read, used⟩ := holds.readNode here
        have compare := strncmp_name entries[i] name
        obtain ⟨result, search, outcome⟩ := ih
          (if entries[i].text = stored name then some (i, entries[i].inode.val) else found) (i + 1)
          (by omega) (by omega)
        refine ⟨result, ?_, ?_⟩
        · rw [seekLast, read, used]
          simp only [Bool.false_eq_true, if_false, compare.1]
          rw [Nat.mod_eq_of_lt (by omega), search]
        · rcases outcome with ⟨absent, kept⟩ | ⟨index, entry, later, is, same, kept⟩
          · by_cases same : entries[i].text = stored name
            · rw [if_pos same] at kept
              exact Or.inr ⟨i, entries[i], le_refl i, here, same, kept⟩
            · rw [if_neg same] at kept
              refine Or.inl ⟨?_, kept⟩
              rw [List.drop_eq_getElem_cons more, List.map_cons, List.mem_cons]
              rintro (equal | there)
              · exact same equal.symm
              · exact absent there
          · exact Or.inr ⟨index, entry, by omega, is, same, kept⟩
      · have last : i = entries.length := by omega
        have marked := holds.marker i (by omega) (by omega)
        refine ⟨found, ?_, Or.inl ⟨?_, rfl⟩⟩
        · rw [seekLast, readNode_eq, marked, last]
          rfl
        · rw [last, List.drop_length]
          simp

end Search

/-! ## Shifting -/

/-- The entries moved up are those of the old root page. -/
theorem moveUp_spec (fs : Fs) (count index : Nat) (fits : index + count ≤ 60) (chip : Chip) :
    ∃ page, moveUp fs count index chip = { chip with buf1 := page } ∧
      (∀ k ≤ 60, nodeAt page k =
        if index < k ∧ k ≤ index + count then readNode fs (k - 1) else nodeAt chip.buf1 k) ∧
      ∀ k < 40, page k = chip.buf1 k := by
  induction count generalizing index chip with
  | zero =>
      refine ⟨chip.buf1, rfl, fun k _ => ?_, fun _ _ => rfl⟩
      rw [if_neg (by omega)]
  | succ count ih =>
      obtain ⟨page, moved, nodes, header⟩ :=
        ih (index + 1) (by omega) (writeNode (readNode fs index) (index + 1) chip)
      refine ⟨page, moved, fun k inside => ?_, fun k small => ?_⟩
      · rw [nodes k inside, writeNode_eq]
        simp only
        rw [nodeAt_putNode _ _ (by omega) inside]
        by_cases later : index + 1 < k ∧ k ≤ index + 1 + count
        · rw [if_pos later, if_pos (by omega)]
        · rw [if_neg later]
          by_cases first : k = index + 1
          · rw [if_pos first, if_pos (by omega), first, Nat.add_sub_cancel]
          · rw [if_neg first, if_neg (by omega)]
      · rw [header k small, writeNode_eq]
        exact putNode_of_lt _ _ (by omega) small

/-- The entries moved down are those of the old root page. -/
theorem moveDown_spec (fs : Fs) (count index : Nat) (fits : index + count ≤ 60) (node : FsNode)
    (chip : Chip) :
    ∃ page, moveDown fs count index node chip =
        (if count = 0 then node else readNode fs (index + count), { chip with buf1 := page }) ∧
      (∀ k ≤ 60, nodeAt page k =
        if index ≤ k ∧ k < index + count then readNode fs (k + 1) else nodeAt chip.buf1 k) ∧
      ∀ k < 40, page k = chip.buf1 k := by
  induction count generalizing index node chip with
  | zero =>
      refine ⟨chip.buf1, rfl, fun k _ => ?_, fun _ _ => rfl⟩
      rw [if_neg (by omega)]
  | succ count ih =>
      obtain ⟨page, moved, nodes, header⟩ :=
        ih (index + 1) (by omega) (readNode fs (index + 1))
          (writeNode (readNode fs (index + 1)) index chip)
      refine ⟨page, ?_, fun k inside => ?_, fun k small => ?_⟩
      · rw [moveDown, moved, if_neg (Nat.succ_ne_zero count)]
        by_cases none : count = 0
        · rw [if_pos none, none]
          rfl
        · rw [if_neg none, Nat.add_assoc, Nat.add_comm 1 count]
          rfl
      · rw [nodes k inside, writeNode_eq]
        simp only
        rw [nodeAt_putNode _ _ (by omega) inside]
        by_cases later : index + 1 ≤ k ∧ k < index + 1 + count
        · rw [if_pos later, if_pos (by omega)]
        · rw [if_neg later]
          by_cases first : k = index
          · rw [if_pos first, if_pos (by omega), first]
          · rw [if_neg first, if_neg (by omega)]
      · rw [header k small, writeNode_eq]
        exact putNode_of_lt _ _ (by omega) small

/-! ## Insertion and deletion in a page -/

section Pages

variable {page content : Bytes} {entries : List FsNode}

/-- The page `fs_create` builds. -/
theorem Lists.insert (lists : Lists page entries) {node : FsNode} (used : node.unused = false)
    (space : entries.length ≤ 59) {index : Nat} (inside : index ≤ entries.length)
    (nodes : ∀ k ≤ 60, nodeAt content k =
      if index < k ∧ k ≤ entries.length then nodeAt page (k - 1)
      else if k = index then node else nodeAt page k) :
    Lists content (entries.insertIdx index node) where
  entry k entry found := by
    have bound := (List.getElem?_eq_some_iff.mp found).1
    rw [List.length_insertIdx_of_le_length inside] at bound
    rw [nodes k (by omega)]
    rw [List.getElem?_insertIdx] at found
    rcases lt_trichotomy k index with before | same | after
    · rw [if_pos before] at found
      rw [if_neg (by omega), if_neg (by omega)]
      exact lists.entry k entry found
    · rw [if_neg (by omega), if_pos same, if_pos (by omega)] at found
      rw [if_neg (by omega), if_pos same]
      exact Option.some.inj found
    · rw [if_neg (by omega), if_neg (by omega)] at found
      rw [if_pos ⟨after, by omega⟩]
      exact lists.entry (k - 1) entry found
  used entry member := by
    rcases List.eq_or_mem_of_mem_insertIdx member with rfl | old
    · exact used
    · exact lists.used entry old
  marker k lower upper := by
    rw [List.length_insertIdx_of_le_length inside] at lower
    rw [nodes k upper, if_neg (by omega), if_neg (by omega)]
    exact lists.marker k (by omega) upper
  room := by
    rw [List.length_insertIdx_of_le_length inside]
    omega

/-- The page `fs_remove` builds. -/
theorem Lists.erase (lists : Lists page entries) (node : FsNode) (unused : node.unused = true)
    {index : Nat} (inside : index < entries.length)
    (nodes : ∀ k ≤ 60, nodeAt content k =
      if k = entries.length - 1 then node
      else if index ≤ k ∧ k < entries.length - 1 then nodeAt page (k + 1) else nodeAt page k) :
    Lists content (entries.eraseIdx index) where
  entry k entry found := by
    have room := lists.room
    have bound := (List.getElem?_eq_some_iff.mp found).1
    rw [List.length_eraseIdx_of_lt inside] at bound
    rw [nodes k (by omega), if_neg (by omega)]
    rw [List.getElem?_eraseIdx] at found
    split at found
    · next before =>
        rw [if_neg (by omega)]
        exact lists.entry k entry found
    · next after =>
        rw [if_pos (by omega)]
        exact lists.entry (k + 1) entry found
  used entry member := lists.used entry ((List.eraseIdx_sublist entries index).subset member)
  marker k lower upper := by
    rw [List.length_eraseIdx_of_lt inside] at lower
    rw [nodes k upper]
    by_cases last : k = entries.length - 1
    · rw [if_pos last]
      exact unused
    · rw [if_neg last, if_neg (by omega)]
      exact lists.marker k (by omega) upper
  room := by
    rw [List.length_eraseIdx_of_lt inside]
    have := lists.room
    omega

end Pages

/-! ## The operations -/

section Operations

variable {fs : Fs} {entries : List FsNode} {name : List UInt8} {block : Bytes}

/-- The state after a `malloc`. -/
def Fs.allocated (fs : Fs) : Fs := { fs with mallocs := fs.mallocs + 1 }

/-- The state with a page in `BUF1`. -/
def Fs.prepared (page : Bytes) (fs : Fs) : Fs := { fs with chip := { fs.chip with buf1 := page } }

theorem FsNode.text_of_name {node : FsNode}
    (named : node.name = fun i : Fin 6 => strncpy (cString name) i) : node.text = stored name := by
  rw [FsNode.text, stored, ← fieldText_strncpy (cString name)]
  refine fieldText_congr fun k small => ?_
  simp only [FsNode.nameBytes]
  rw [dif_pos small, named]

theorem fsCreate_of_noMemory (memory : fs.heap fs.mallocs = none) :
    fsCreate name fs = some (.mem, fs.allocated) := by
  simp only [fsCreate, malloc, memory]
  rfl

theorem fsCreate_of_present (holds : fs.Holds entries) (memory : fs.heap fs.mallocs = some block)
    (present : stored name ∈ entries.map FsNode.text) :
    fsCreate name fs = some (.duplicate, fs.allocated) := by
  have allocated : fs.allocated.Holds entries := holds
  have search := seekPlace_spec allocated name (2 ^ 16) 0 0 (Nat.zero_le _)
    (by have := holds.room; omega)
  rw [List.drop_zero, if_pos present] at search
  simp only [fsCreate, malloc, memory]
  change (seekPlace fs.allocated name _ _ _).map _ = _
  rw [search]
  rfl

/-- A new name is put into the page, and the rest is `fs_increment`.  This includes a
name for which there is no room. -/
theorem fsCreate_inserts (holds : fs.Holds entries) (memory : fs.heap fs.mallocs = some block)
    (absent : stored name ∉ entries.map FsNode.text) :
    ∃ node page,
      fsCreate name fs = some (fsIncrement (fs.allocated.prepared page)) ∧
        node.text = stored name ∧ node.unused = false ∧ node.inode = field12 (fsNewInode fs) ∧
        (∀ k ≤ 60, nodeAt page k =
          if (entries.map FsNode.text).countP (· < stored name) < k ∧ k ≤ entries.length then
            nodeAt (fs.chip.flash (fs.root % 4096)) (k - 1)
          else if k = (entries.map FsNode.text).countP (· < stored name) then node
          else nodeAt (fs.chip.flash (fs.root % 4096)) k) ∧
        ∀ k < 40, page k = fs.chip.flash (fs.root % 4096) k := by
  have allocated : fs.allocated.Holds entries := holds
  have search := seekPlace_spec allocated name (2 ^ 16) 0 0 (Nat.zero_le _)
    (by have := holds.room; omega)
  rw [List.drop_zero, if_neg absent, Nat.zero_add] at search
  set index := (entries.map FsNode.text).countP (· < stored name)
  have room := holds.room
  have inside : index ≤ entries.length := by
    rw [← List.length_map FsNode.text]
    exact List.countP_le_length
  let node : FsNode :=
    { readNode fs.allocated entries.length with
      name := fun i => strncpy (cString name) i
      unused := false
      file := true
      inode := field12 (fsNewInode fs.allocated) }
  have real : ¬node.inode.val = 0xffff := by
    have := node.inode.isLt
    omega
  let loaded : Chip := dfBufLoad .buf1 fs.root fs.chip
  obtain ⟨page, moved, nodes, header⟩ := moveUp_spec fs.allocated
    (entries.length - index) index (by omega) (writeNode node index loaded)
  refine ⟨node, page, ?_, FsNode.text_of_name rfl, rfl, rfl, ?_, ?_⟩
  · simp only [fsCreate, malloc, memory]
    change (seekPlace fs.allocated name _ _ _).map _ = _
    rw [search, Option.map_some]
    change some (if node.inode.val = 0xffff then _ else
      fsIncrement { fs.allocated with
        chip := moveUp fs.allocated _ index (writeNode node index loaded) }) = _
    rw [if_neg real, moved]
    rfl
  · intro k small
    rw [nodes k small, writeNode_eq]
    by_cases later : index < k ∧ k ≤ entries.length
    · rw [if_pos (by omega), if_pos later]
      rfl
    · rw [if_neg (by omega), if_neg later]
      exact nodeAt_putNode _ _ (by omega) small
  · intro k small
    rw [header k small, writeNode_eq]
    exact putNode_of_lt _ _ (by omega) small

/-- With room for it, a new name is inserted into the list of entries. -/
theorem fsCreate_of_absent (holds : fs.Holds entries) (memory : fs.heap fs.mallocs = some block)
    (absent : stored name ∉ entries.map FsNode.text) (space : entries.length ≤ 59) :
    ∃ node page,
      fsCreate name fs = some (fsIncrement (fs.allocated.prepared page)) ∧
        node.text = stored name ∧ node.inode = field12 (fsNewInode fs) ∧
        Lists page (entries.insertIdx ((entries.map FsNode.text).countP (· < stored name)) node) ∧
        (∀ k < 40, page k = fs.chip.flash (fs.root % 4096) k) ∧
        ∀ k ≤ 60, entries.length < k → nodeAt page k = readNode fs k := by
  obtain ⟨node, page, created, text, used, inode, nodes, header⟩ := fsCreate_inserts holds memory absent
  have inside : (entries.map FsNode.text).countP (· < stored name) ≤ entries.length := by
    rw [← List.length_map FsNode.text]
    exact List.countP_le_length
  refine ⟨node, page, created, text, inode, holds.insert used space inside nodes, header, ?_⟩
  intro k small behind
  rw [nodes k small, if_neg (by omega), if_neg (by omega)]
  rfl

theorem fsRemove_of_noMemory (memory : fs.heap fs.mallocs = none) :
    fsRemove name fs = some (.mem, fs.allocated) := by
  simp only [fsRemove, malloc, memory]
  rfl

theorem fsRemove_of_absent (holds : fs.Holds entries) (memory : fs.heap fs.mallocs = some block)
    (absent : stored name ∉ entries.map FsNode.text) :
    fsRemove name fs = some (.noSuchFile, fs.allocated) := by
  have allocated : fs.allocated.Holds entries := holds
  obtain ⟨result, search, outcome⟩ := seekLast_spec allocated name (2 ^ 16) none 0
    (Nat.zero_le _) (by have := holds.room; omega)
  rw [List.drop_zero] at outcome
  have nothing : result = none := by
    rcases outcome with ⟨-, none⟩ | ⟨index, entry, -, is, same, -⟩
    · exact none
    · exact absurd (List.mem_map.mpr ⟨entry, List.mem_of_getElem? is, same⟩) absent
  simp only [fsRemove, malloc, memory]
  change (seekLast fs.allocated name _ _ _).map _ = _
  rw [search, nothing]
  rfl

/-- The node that `fs_remove` leaves behind the entries: the one it has read last. -/
def Fs.leftover (fs : Fs) (length index : Nat) : FsNode :=
  { readNode fs (if index + 1 = length then length else length - 1) with unused := true }

/-- An entry with the name is deleted, and its inode is given up after
`fs_increment`. -/
theorem fsRemove_of_present (holds : fs.Holds entries) (memory : fs.heap fs.mallocs = some block)
    (present : stored name ∈ entries.map FsNode.text) :
    ∃ index entry page,
      entries[index]? = some entry ∧ entry.text = stored name ∧
        fsRemove name fs = some
          (match fsIncrement (fs.allocated.prepared page) with
          | (.ok, fs) => fsUpdateInodetable entry.inode none fs
          | failed => failed) ∧
        Lists page (entries.eraseIdx index) ∧
        (∀ k < 40, page k = fs.chip.flash (fs.root % 4096) k) ∧
        nodeAt page (entries.length - 1) = fs.leftover entries.length index ∧
        ∀ k ≤ 60, entries.length ≤ k → nodeAt page k = readNode fs k := by
  have allocated : fs.allocated.Holds entries := holds
  obtain ⟨result, search, outcome⟩ := seekLast_spec allocated name (2 ^ 16) none 0
    (Nat.zero_le _) (by have := holds.room; omega)
  rw [List.drop_zero] at outcome
  rcases outcome with ⟨absent, -⟩ | ⟨index, entry, -, is, same, found⟩
  · exact absurd present absent
  have inside := (List.getElem?_eq_some_iff.mp is).1
  have room := holds.room
  obtain ⟨shifted, moved, nodes, header⟩ := moveDown_spec fs.allocated
    (entries.length - 1 - index) index (by omega)
    (readNode fs.allocated entries.length) (dfBufLoad .buf1 fs.root fs.chip)
  have last : (if entries.length - 1 - index = 0 then readNode fs.allocated entries.length
      else readNode fs.allocated (index + (entries.length - 1 - index))) =
      readNode fs (if index + 1 = entries.length then entries.length else entries.length - 1) := by
    by_cases end_ : index + 1 = entries.length
    · rw [if_pos (by omega), if_pos end_]
      rfl
    · rw [if_neg (by omega), if_neg end_, Nat.add_sub_cancel' (by omega)]
      rfl
  rw [last] at moved
  refine ⟨index, entry, putNode (fs.leftover entries.length index) (entries.length - 1) shifted, is, same,
    ?_, holds.erase (fs.leftover entries.length index) rfl inside ?_, ?_, ?_, ?_⟩
  · simp only [fsRemove, malloc, memory]
    change (seekLast fs.allocated name _ _ _).map _ = _
    rw [search, found, Option.map_some]
    simp only
    rw [if_neg (by omega)]
    simp only [Fs.allocated] at moved
    rw [moved]
    rfl
  · intro k small
    rw [nodeAt_putNode _ _ (by omega) small]
    by_cases end_ : k = entries.length - 1
    · rw [if_pos end_, if_pos end_]
    · rw [if_neg end_, if_neg end_, nodes k small]
      by_cases shift : index ≤ k ∧ k < entries.length - 1
      · rw [if_pos (by omega), if_pos shift]
        rfl
      · rw [if_neg (by omega), if_neg shift]
        rfl
  · intro k small
    rw [putNode_of_lt _ _ (by omega) small, header k small]
    rfl
  · rw [nodeAt_putNode _ _ (by omega) (by omega), if_pos rfl]
  · intro k small behind
    rw [nodeAt_putNode _ _ (by omega) small, if_neg (by omega), nodes k small, if_neg (by omega)]
    rfl

/-- The page in `BUF1` becomes the root page. -/
theorem Fs.commit_holds (page : Nat) (lists : Lists fs.chip.buf1 entries) :
    (fs.sealed.commit page).Holds entries := by
  refine lists.congr fun k lower upper => ?_
  change Function.update fs.chip.flash (page % 4096) _ (page % 4096) k = _
  rw [Function.update_self]
  exact sealRoot_of_ne _ _ upper (by omega)

theorem Fs.commit_readNode (page : Nat) {index : Nat} (small : index < 60) :
    readNode (fs.sealed.commit page) index = nodeAt fs.chip.buf1 index := by
  refine nodeAt_congr small.le fun k lower upper => ?_
  change Function.update fs.chip.flash (page % 4096) _ (page % 4096) k = _
  rw [Function.update_self]
  exact sealRoot_of_ne _ _ (by omega) (by omega)

theorem SameDirectory.readNode {before after : Fs} (same : SameDirectory before after) {index : Nat}
    (small : index < 60) : readNode after index = readNode before index :=
  nodeAt_congr small.le fun k lower upper => same k (by omega) (by omega)

/-- `fs_update_inodetable` keeps the directory, unless the table replaces the root
page. -/
theorem UpdateOutcome.sameDirectory {inode : Nat} {page : Option Nat} {result : FsStatus × Fs}
    (outcome : UpdateOutcome fs inode page result) (small : inode < 4096)
    (apart : fs.next fs.lastFree ≠ some (fs.root % 4096)) : SameDirectory fs result.2 := by
  cases outcome with
  | noTable full => exact SameDirectory.refl fs
  | noMemory tableNext memory => exact SameDirectory.refl fs
  | @noRoot table block tableNext memory full =>
      have other : table ≠ fs.root % 4096 := fun equal => apart (equal ▸ tableNext)
      intro k _ _
      change Function.update fs.chip.flash table _ (fs.root % 4096) k = _
      rw [Function.update_of_ne (Ne.symm other)]
  | @ok table newRoot block tableNext memory rootNext =>
      have rootIn := Fs.next_lt rootNext
      have slot : inode / 256 < 16 := Nat.div_lt_of_lt_mul small
      intro k lower upper
      rw [Fs.updated_flash rootIn, Fs.updated_root, Nat.mod_eq_of_lt rootIn, switched,
        Function.update_self, sealRoot_of_ne _ _ upper (by omega), rootWith,
        overlay_of_ge (by omega) (by omega)]

end Operations

end Ethersex.Dataflash
