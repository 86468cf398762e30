import Mathlib
import Ethersex.Dataflash.Boot

/-!
# The directory as a set of names

From a blank device on, any sequence of `fs_create` and `fs_remove` calls keeps the
directory a sorted array without duplicates.  It stands for a finite set of names,
and the two calls insert into it and erase from it.
-/

namespace Ethersex.Dataflash

open Library

/-! ## Texts -/

theorem fieldText_length (count : Nat) (field : Bytes) : (fieldText count field).length ≤ count := by
  induction count generalizing field with
  | zero => exact le_refl 0
  | succ count ih =>
      rw [fieldText]
      split
      · exact Nat.zero_le _
      · rw [List.length_cons]
        exact Nat.succ_le_succ (ih _)

theorem fieldText_nonzero {count : Nat} {field : Bytes} {ch : UInt8}
    (member : ch ∈ fieldText count field) : ch ≠ 0 := by
  induction count generalizing field with
  | zero => simp [fieldText] at member
  | succ count ih =>
      rw [fieldText] at member
      split at member
      · simp at member
      · next nonzero =>
          rcases List.mem_cons.mp member with rfl | later
          · exact nonzero
          · exact ih later

/-- A text that was stored is stored as itself. -/
theorem stored_text (node : FsNode) : stored node.text = node.text := by
  have terminated : ∀ ch ∈ node.text, ch ≠ 0 := fun ch => fieldText_nonzero
  rw [stored, fieldText_cString terminated]
  exact List.take_of_length_le (fieldText_length 6 _)

/-- The terminator `fs_list` adds. -/
theorem fieldText_terminated (count : Nat) (field : Bytes) :
    fieldText (count + 1) (fun k => if k < count then field k else 0) = fieldText count field := by
  induction count generalizing field with
  | zero => rfl
  | succ count ih =>
      rw [fieldText, if_pos (Nat.succ_pos count)]
      simp only [Nat.add_lt_add_iff_right]
      rw [ih fun k => field (k + 1)]
      rfl

/-! ## Reading the directory -/

section Reading

variable {fs : Fs} {entries : List FsNode}

theorem fsList_eq {block : Bytes} (memory : fs.heap fs.mallocs = some block) (index : Nat) :
    fsList index fs =
      (if (readNode fs index).unused then .eof else .ok,
        fun k => if k < 6 then strncpy (readNode fs index).nameBytes k else 0, fs.allocated) := by
  simp only [fsList, malloc, memory]
  rfl

theorem fsList_of_entry (holds : fs.Holds entries) {index : Nat} {entry : FsNode} {block : Bytes}
    (memory : fs.heap fs.mallocs = some block) (found : entries[index]? = some entry) :
    ∃ buf, fsList index fs = (.ok, buf, fs.allocated) ∧ fieldText 7 buf = entry.text := by
  obtain ⟨read, used⟩ := holds.readNode found
  refine ⟨fun k => if k < 6 then strncpy entry.nameBytes k else 0, ?_,
    (fieldText_terminated 6 _).trans (fieldText_strncpy _ _)⟩
  rw [fsList_eq memory, read, used, if_neg (by simp)]

theorem fsList_of_end (holds : fs.Holds entries) {block : Bytes}
    (memory : fs.heap fs.mallocs = some block) :
    ∃ buf, fsList entries.length fs = (.eof, buf, fs.allocated) := by
  have marked : (readNode fs entries.length).unused = true :=
    holds.marker _ (le_refl _) holds.room
  exact ⟨_, by rw [fsList_eq memory, marked, if_pos rfl]⟩

/-- The search of `fs_get_inode` stops at the first entry with the name. -/
theorem seekName_spec (holds : fs.Holds entries) {file : List UInt8} {steps i index : Nat}
    {entry : FsNode} (found : entries[index]? = some entry) (same : entry.text = stored file)
    (first : ∀ k other, i ≤ k → k < index → entries[k]? = some other → other.text ≠ stored file)
    (inside : i ≤ index) (enough : index - i < steps) :
    seekName fs file steps i = some (some entry.inode.val) := by
  induction steps generalizing i with
  | zero => omega
  | succ steps ih =>
      have room := holds.room
      have bound := (List.getElem?_eq_some_iff.mp found).1
      rcases Nat.lt_or_eq_of_le inside with before | rfl
      · have here := List.getElem?_eq_getElem (show i < entries.length by omega)
        obtain ⟨read, used⟩ := holds.readNode here
        have different := first i entries[i] (le_refl i) before here
        simp only [seekName, read]
        rw [if_neg (fun equal => different ((strncmp_name _ _).1.mp equal)), used,
          if_neg (by simp), Nat.mod_eq_of_lt (by omega)]
        exact ih (fun k other lower => first k other (by omega)) (by omega) (by omega)
      · obtain ⟨read, -⟩ := holds.readNode found
        simp only [seekName, read]
        rw [if_pos ((strncmp_name _ _).1.mpr same)]

/-- `fs_get_inode` finds the entry with the name when names are distinct. -/
theorem fsGetInode_spec (holds : fs.Holds entries) (sorted : (entries.map FsNode.text).Pairwise (· < ·))
    {file : List UInt8} {entry : FsNode} (member : entry ∈ entries)
    (same : entry.text = stored file) : fsGetInode fs file = some (some entry.inode.val) := by
  obtain ⟨index, inside, rfl⟩ := List.getElem_of_mem member
  have room := holds.room
  refine seekName_spec holds (List.getElem?_eq_getElem inside) same ?_ (Nat.zero_le _) (by omega)
  intro k other _ before found equal
  obtain ⟨bound, rfl⟩ := List.getElem?_eq_some_iff.mp found
  have smaller := List.pairwise_iff_getElem.mp sorted k index (by simpa using bound)
    (by simpa using inside) before
  rw [List.getElem_map, List.getElem_map, equal, same] at smaller
  exact Std.lt_irrefl smaller

end Reading

/-! ## Calls -/

/-- A call that changes the directory. -/
inductive DirCall where
  | create (name : List UInt8)
  | remove (name : List UInt8)

namespace DirCall

def run : DirCall → Fs → Option (FsStatus × Fs)
  | create name => fsCreate name
  | remove name => fsRemove name

def name : DirCall → List UInt8
  | create name => name
  | remove name => name

/-- The set of names after a call.  A call that gets no memory has no effect. -/
def after (fs : Fs) (names : Finset (List UInt8)) : DirCall → Finset (List UInt8)
  | create name => if (fs.heap fs.mallocs).isSome then insert (stored name) names else names
  | remove name => if (fs.heap fs.mallocs).isSome then names.erase (stored name) else names

/-- The status of a call.  `fs_remove` can run out of memory after it has removed the
entry. -/
def Reports (fs : Fs) (names : Finset (List UInt8)) : DirCall → FsStatus → Prop
  | create name, status =>
      status =
        if (fs.heap fs.mallocs).isNone then .mem
        else if stored name ∈ names then .duplicate else .ok
  | remove name, status =>
      if (fs.heap fs.mallocs).isNone then status = .mem
      else if stored name ∈ names then
        status = .ok ∨ (status = .mem ∧ (fs.heap (fs.mallocs + 1)).isNone)
      else status = .noSuchFile

end DirCall

/-- The directory of a file system that has run since `start`. -/
structure Tracks (start fs : Fs) (entries : List FsNode) : Prop where
  map : fs.chip.buf2 = start.chip.buf2
  cursor : fs.lastFree < 4096
  holds : fs.Holds entries
  sorted : (entries.map FsNode.text).Pairwise (· < ·)

section Tracks

variable {start fs : Fs} {entries : List FsNode} {name : List UInt8} {block : Bytes}

/-- A page is found from every cursor. -/
def Fs.Endless (fs : Fs) : Prop := ∀ cursor < 4096, ∃ page, fs.next cursor = some page

theorem Tracks.next (tracks : Tracks start fs entries) (endless : start.Endless) {cursor : Nat}
    (inside : cursor < 4096) : ∃ page, fs.next cursor = some page := by
  rw [Fs.next_congr tracks.map]
  exact endless cursor inside

theorem Tracks.allocated (tracks : Tracks start fs entries) : Tracks start fs.allocated entries :=
  ⟨tracks.map, tracks.cursor, tracks.holds, tracks.sorted⟩

/-- `fs_increment` makes the page in `BUF1` the directory. -/
theorem Tracks.increment (tracks : Tracks start fs entries) (endless : start.Endless)
    {page : Bytes} {changed : List FsNode} (lists : Lists page changed)
    (sorted : (changed.map FsNode.text).Pairwise (· < ·)) :
    ∃ root, fsIncrement (fs.allocated.prepared page) =
        (.ok, (fs.allocated.prepared page).sealed.commit root) ∧
      Tracks start ((fs.allocated.prepared page).sealed.commit root) changed := by
  obtain ⟨root, found⟩ := tracks.next endless tracks.cursor
  have prepared : (fs.allocated.prepared page).next (fs.allocated.prepared page).lastFree =
      some root := found
  refine ⟨root, ?_, tracks.map, Fs.next_lt found, Fs.commit_holds root lists, sorted⟩
  rw [fsIncrement_eq, prepared]

theorem Tracks.create (tracks : Tracks start fs entries) (endless : start.Endless)
    (memory : fs.heap fs.mallocs = some block) (absent : stored name ∉ entries.map FsNode.text)
    (space : entries.length ≤ 59) :
    ∃ index node after, index ≤ entries.length ∧ node.text = stored name ∧
      fsCreate name fs = some (.ok, after) ∧ Tracks start after (entries.insertIdx index node) ∧
      ∀ k < 60, entries.length < k → readNode after k = readNode fs k := by
  obtain ⟨node, page, created, text, -, lists, -, behind⟩ :=
    fsCreate_of_absent tracks.holds memory absent space
  have inside : (entries.map FsNode.text).countP (· < stored name) ≤ entries.length := by
    rw [← List.length_map FsNode.text]
    exact List.countP_le_length
  have sorted : ((entries.insertIdx ((entries.map FsNode.text).countP (· < stored name)) node).map
      FsNode.text).Pairwise (· < ·) := by
    rw [List.map_insertIdx, text]
    exact pairwise_insertIdx_countP tracks.sorted absent
  obtain ⟨root, increment, later⟩ := tracks.increment endless lists sorted
  refine ⟨_, node, _, inside, text, by rw [created, increment], later, fun k small lower => ?_⟩
  exact (Fs.commit_readNode root small).trans (behind k small.le lower)

theorem Tracks.remove (tracks : Tracks start fs entries) (endless : start.Endless)
    (memory : fs.heap fs.mallocs = some block) (present : stored name ∈ entries.map FsNode.text) :
    ∃ index entry status after, entries[index]? = some entry ∧ entry.text = stored name ∧
      fsRemove name fs = some (status, after) ∧ Tracks start after (entries.eraseIdx index) ∧
      (status = .ok ∨ (status = .mem ∧ (fs.heap (fs.mallocs + 1)).isNone)) ∧
      readNode after (entries.length - 1) = fs.leftover entries.length index ∧
      ∀ k < 60, entries.length ≤ k → readNode after k = readNode fs k := by
  obtain ⟨index, entry, page, found, text, removed, lists, -, leftover, behind⟩ :=
    fsRemove_of_present tracks.holds memory present
  have sorted : ((entries.eraseIdx index).map FsNode.text).Pairwise (· < ·) :=
    tracks.sorted.sublist ((List.eraseIdx_sublist entries index).map _)
  obtain ⟨root, increment, later⟩ := tracks.increment endless lists sorted
  set middle := (fs.allocated.prepared page).sealed.commit root
  have rootIn : root < 4096 := later.cursor
  have apart : middle.next middle.lastFree ≠ some (middle.root % 4096) := by
    rw [show middle.lastFree = root from rfl, show middle.root = root from rfl,
      Nat.mod_eq_of_lt rootIn, Fs.next_eq_nextFit _ rootIn]
    exact nextFit_ne rootIn
  have outcome := fsUpdateInodetable_outcome entry.inode none apart
  have directory := outcome.sameDirectory entry.inode.isLt apart
  rw [increment] at removed
  change fsRemove name fs = some (fsUpdateInodetable entry.inode none middle) at removed
  generalize fsUpdateInodetable entry.inode none middle = result at outcome removed directory
  have holds := directory.holds later.holds
  have nodes {k : Nat} (small : k < 60) : readNode result.2 k = nodeAt page k :=
    (directory.readNode small).trans (Fs.commit_readNode root small)
  have room := tracks.holds.room
  have inside := (List.getElem?_eq_some_iff.mp found).1
  refine ⟨index, entry, result.1, result.2, found, text, removed, ?_, ?_,
    (nodes (by omega)).trans leftover, fun k small lower => (nodes small).trans (behind k small.le lower)⟩
  · cases outcome with
    | noTable full => exact ⟨later.map, later.cursor, holds, sorted⟩
    | noMemory tableNext memory => exact ⟨later.map, Fs.next_lt tableNext, holds, sorted⟩
    | noRoot block tableNext memory full =>
        exact ⟨later.map, Fs.next_lt tableNext, holds, sorted⟩
    | ok block tableNext memory rootNext =>
        exact ⟨later.map, Fs.next_lt rootNext, holds, sorted⟩
  · cases outcome with
    | noTable full =>
        obtain ⟨page, found⟩ := later.next endless later.cursor
        simp [found] at full
    | noMemory tableNext memory =>
        have failed : fs.heap (fs.mallocs + 1) = none := memory
        exact Or.inr ⟨rfl, by rw [failed]; rfl⟩
    | noRoot block tableNext memory full =>
        obtain ⟨page, found⟩ := later.next endless (Fs.next_lt tableNext)
        simp [found] at full
    | ok block tableNext memory rootNext => exact Or.inl rfl

end Tracks

/-! ## Sets of names -/

section Sets

variable {entries : List FsNode} {index : Nat} {node : FsNode}

/-- The names of the entries. -/
def namesOf (entries : List FsNode) : Finset (List UInt8) := (entries.map FsNode.text).toFinset

theorem mem_namesOf {text : List UInt8} :
    text ∈ namesOf entries ↔ ∃ entry ∈ entries, entry.text = text := by
  rw [namesOf, List.mem_toFinset, List.mem_map]

theorem namesOf_card (sorted : (entries.map FsNode.text).Pairwise (· < ·)) :
    (namesOf entries).card = entries.length := by
  have distinct : (entries.map FsNode.text).Nodup := by
    refine List.Pairwise.imp (fun {left right} smaller equal => ?_) sorted
    exact Std.lt_irrefl (equal ▸ smaller)
  rw [namesOf, List.toFinset_card_of_nodup distinct, List.length_map]

theorem namesOf_insertIdx (inside : index ≤ entries.length) :
    namesOf (entries.insertIdx index node) = insert node.text (namesOf entries) := by
  ext text
  simp only [mem_namesOf, Finset.mem_insert, List.mem_insertIdx inside, exists_eq_or_imp]
  rw [eq_comm]

theorem namesOf_eraseIdx (sorted : (entries.map FsNode.text).Pairwise (· < ·))
    (found : entries[index]? = some node) :
    namesOf (entries.eraseIdx index) = (namesOf entries).erase node.text := by
  obtain ⟨inside, rfl⟩ := List.getElem?_eq_some_iff.mp found
  have distinct (k : Nat) (bound : k < entries.length) (other : k ≠ index) :
      entries[k].text ≠ entries[index].text := by
    have ordered := List.pairwise_iff_getElem.mp sorted
    simp only [List.length_map, List.getElem_map] at ordered
    intro equal
    rcases Nat.lt_or_gt_of_ne other with before | after
    · exact Std.lt_irrefl (equal ▸ ordered k index bound inside before)
    · exact Std.lt_irrefl (equal ▸ ordered index k inside bound after)
  ext text
  simp only [mem_namesOf, Finset.mem_erase, List.mem_eraseIdx_iff_getElem]
  constructor
  · rintro ⟨_, ⟨k, bound, other, rfl⟩, rfl⟩
    exact ⟨distinct k bound other, _, List.getElem_mem bound, rfl⟩
  · rintro ⟨different, entry, member, rfl⟩
    obtain ⟨k, bound, rfl⟩ := List.getElem_of_mem member
    refine ⟨_, ⟨k, bound, ?_, rfl⟩, rfl⟩
    rintro rfl
    exact different rfl

end Sets

/-- Every call gives a result and has its effect on the set of names; the entries with
other names stay. -/
theorem Tracks.call {start fs : Fs} {entries : List FsNode} (tracks : Tracks start fs entries)
    (endless : start.Endless) (call : DirCall)
    (space : (call.after fs (namesOf entries)).card ≤ fsNodesInRoot - 1) :
    ∃ status after changed, call.run fs = some (status, after) ∧ Tracks start after changed ∧
      namesOf changed = call.after fs (namesOf entries) ∧
      call.Reports fs (namesOf entries) status ∧
      ∀ entry ∈ entries, entry.text ≠ stored call.name → entry ∈ changed := by
  have listed (name : List UInt8) :
      stored name ∈ entries.map FsNode.text ↔ stored name ∈ namesOf entries := by
    rw [namesOf, List.mem_toFinset]
  cases call with
  | create name =>
      cases memory : fs.heap fs.mallocs with
      | none =>
          exact ⟨_, _, entries, fsCreate_of_noMemory memory, tracks.allocated,
            by simp [DirCall.after, memory], by simp [DirCall.Reports, memory],
            fun entry member _ => member⟩
      | some block =>
          by_cases present : stored name ∈ namesOf entries
          · exact ⟨_, _, entries, fsCreate_of_present tracks.holds memory ((listed name).mpr present),
              tracks.allocated, by simp [DirCall.after, memory, present],
              by simp [DirCall.Reports, memory, present], fun entry member _ => member⟩
          · simp only [DirCall.after, memory, Option.isSome_some, if_true] at space
            rw [Finset.card_insert_of_notMem present, namesOf_card tracks.sorted] at space
            have room : entries.length ≤ 59 := Nat.le_of_succ_le space
            obtain ⟨index, node, after, inside, text, created, later, -⟩ :=
              tracks.create endless memory (fun member => present ((listed name).mp member)) room
            refine ⟨_, after, _, created, later, ?_, by simp [DirCall.Reports, memory, present], ?_⟩
            · rw [namesOf_insertIdx inside, text]
              simp [DirCall.after, memory]
            · exact fun entry member _ => (List.mem_insertIdx inside).mpr (Or.inr member)
  | remove name =>
      cases memory : fs.heap fs.mallocs with
      | none =>
          exact ⟨_, _, entries, fsRemove_of_noMemory memory, tracks.allocated,
            by simp [DirCall.after, memory], by simp [DirCall.Reports, memory],
            fun entry member _ => member⟩
      | some block =>
          by_cases present : stored name ∈ namesOf entries
          · obtain ⟨index, gone, status, after, found, text, removed, later, reports, -⟩ :=
              tracks.remove endless memory ((listed name).mpr present)
            refine ⟨status, after, _, removed, later, ?_, ?_, fun entry member different => ?_⟩
            · rw [namesOf_eraseIdx tracks.sorted found, text]
              simp [DirCall.after, memory]
            · simpa [DirCall.Reports, memory, present] using reports
            · obtain ⟨k, bound, rfl⟩ := List.getElem_of_mem member
              refine List.mem_eraseIdx_iff_getElem.mpr ⟨k, bound, ?_, rfl⟩
              rintro rfl
              have same := (List.getElem?_eq_some_iff.mp found).2
              exact different (by rw [same, text]; rfl)
          · exact ⟨_, _, entries,
              fsRemove_of_absent tracks.holds memory (fun member => present ((listed name).mp member)),
              tracks.allocated, by simp [DirCall.after, memory, Finset.erase_eq_of_notMem present],
              by simp [DirCall.Reports, memory, present], fun entry member _ => member⟩

/-! ## Runs -/

/-- The states that calls lead to, each with its set of names.  No call leaves more names
than `FS_NODES_IN_ROOT - 1`. -/
inductive Reached (start : Fs) : Fs → Finset (List UInt8) → Prop where
  | start : Reached start start ∅
  | call {fs after : Fs} {names : Finset (List UInt8)} {status : FsStatus} (call : DirCall) :
      Reached start fs names → (call.after fs names).card ≤ fsNodesInRoot - 1 →
        call.run fs = some (status, after) → Reached start after (call.after fs names)

theorem Reached.tracks {start fs : Fs} {names : Finset (List UInt8)} (endless : start.Endless)
    (empty : Tracks start start []) (reached : Reached start fs names) :
    ∃ entries, Tracks start fs entries ∧ namesOf entries = names := by
  induction reached with
  | start => exact ⟨[], empty, rfl⟩
  | call call reached space ran ih =>
      obtain ⟨entries, tracks, rfl⟩ := ih
      obtain ⟨status, after, changed, result, later, names, -⟩ := tracks.call endless call space
      rw [ran] at result
      obtain rfl := (Prod.ext_iff.mp (Option.some.inj result)).2
      exact ⟨changed, later, names⟩

/-- `fs_list` delivers these names one by one, and then `FS_EOF`. -/
def Fs.Enumerates (fs : Fs) (list : List (List UInt8)) : Prop :=
  (∀ index name, list[index]? = some name →
    ∃ buf, fsList index fs = (.ok, buf, fs.allocated) ∧ fieldText 7 buf = name) ∧
  ∃ buf, fsList list.length fs = (.eof, buf, fs.allocated)

theorem Tracks.enumerates {start fs : Fs} {entries : List FsNode} {block : Bytes}
    (tracks : Tracks start fs entries) (memory : fs.heap fs.mallocs = some block) :
    fs.Enumerates (entries.map FsNode.text) := by
  refine ⟨fun index name found => ?_, ?_⟩
  · rw [List.getElem?_map, Option.map_eq_some_iff] at found
    obtain ⟨entry, found, rfl⟩ := found
    exact fsList_of_entry tracks.holds memory found
  · rw [List.length_map]
    exact fsList_of_end tracks.holds memory

theorem Boots.tracks {chip : Chip} {heap : Nat → Option Bytes} {fs : Fs}
    {rootBlock inodeBlock nodeBlock : Bytes}
    (boots : Boots chip heap fs rootBlock inodeBlock nodeBlock) : Tracks fs fs [] :=
  ⟨rfl, by rw [boots.lastFree]; exact Nat.succ_pos 4095, boots.holds, List.Pairwise.nil⟩

/-- From a blank device on, the directory is the set of the names created and not
removed since: `fs_list` enumerates it in the order of `strncmp`, and the next call
reports and does what it would do to the set and keeps the inodes of the other
entries. -/
theorem directory_refines_names {chip : Chip} {heap : Nat → Option Bytes} {start fs : Fs}
    {names : Finset (List UInt8)} (blank : chip.Blank)
    (started : fsInit chip heap = some (.ok, start)) (reached : Reached start fs names) :
    (∃ list : List (List UInt8),
      list.Pairwise (fun left right => strncmp (cString left) (cString right) fsFilename < 0) ∧
      list.toFinset = names ∧ ((fs.heap fs.mallocs).isSome → fs.Enumerates list)) ∧
    ∀ call : DirCall, (call.after fs names).card ≤ fsNodesInRoot - 1 →
      ∃ status after, call.run fs = some (status, after) ∧ call.Reports fs names status ∧
        ∀ file, stored file ∈ names → stored file ≠ stored call.name →
          ∃ inode, fsGetInode fs file = some (some inode) ∧
            fsGetInode after file = some (some inode) := by
  obtain ⟨rootBlock, inodeBlock, nodeBlock, boots⟩ := fsInit_blank blank started
  have endless : start.Endless := fun cursor inside => boots.next inside
  obtain ⟨entries, tracks, rfl⟩ := reached.tracks endless boots.tracks
  refine ⟨⟨entries.map FsNode.text, ?_, rfl, fun memory => ?_⟩, fun call space => ?_⟩
  · refine List.pairwise_map.mpr ((List.pairwise_map.mp tracks.sorted).imp fun smaller => ?_)
    rw [strncmp_neg_iff]
    change stored _ < stored _
    rw [stored_text, stored_text]
    exact smaller
  · obtain ⟨block, found⟩ := Option.isSome_iff_exists.mp memory
    exact tracks.enumerates found
  · obtain ⟨status, after, changed, ran, later, -, reports, kept⟩ := tracks.call endless call space
    refine ⟨status, after, ran, reports, fun file member different => ?_⟩
    obtain ⟨entry, listed, text⟩ := mem_namesOf.mp member
    exact ⟨entry.inode, fsGetInode_spec tracks.holds tracks.sorted listed text,
      fsGetInode_spec later.holds later.sorted (kept entry listed (text ▸ different)) text⟩

theorem directory_refines_names_of_create :
    ∃ start fs, fsInit blankChip zeroHeap = some (.ok, start) ∧
      fsCreate [97] start = some (.ok, fs) ∧
      ∃ list, list.toFinset = {[97]} ∧ ((fs.heap fs.mallocs).isSome → fs.Enumerates list) := by
  obtain ⟨start, started, boots⟩ := fsInit_boots blankChip zeroHeap blankChip_blank rfl rfl rfl rfl rfl
  have memory : (start.heap start.mallocs).isSome = true := by
    rw [boots.heap]
    rfl
  have names : (DirCall.create [97]).after start ∅ = {[97]} := by
    simp only [DirCall.after, memory, if_true]
    rfl
  have space : ((DirCall.create [97]).after start ∅).card ≤ fsNodesInRoot - 1 := by
    rw [names]
    decide
  obtain ⟨status, fs, ran, reports, -⟩ :=
    (directory_refines_names blankChip_blank started Reached.start).2 (.create [97]) space
  obtain rfl : status = .ok := by
    simpa [DirCall.Reports, Option.isNone_eq_false_iff.mpr memory] using reports
  have reached := Reached.call (.create [97]) Reached.start space ran
  rw [names] at reached
  obtain ⟨list, -, same, enumerates⟩ :=
    (directory_refines_names blankChip_blank started reached).1
  exact ⟨start, fs, started, ran, list, same, enumerates⟩

end Ethersex.Dataflash
