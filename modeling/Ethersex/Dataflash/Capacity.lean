import Mathlib
import Ethersex.Dataflash.Names
import Ethersex.Dataflash.Safety

/-!
# The capacity of the directory

`FS_NODES_IN_ROOT` entries fit into the root page.  `fs_create` does not check this:
the search for the end of the directory finds the remaining bytes of the page unused
and puts one entry more there, on the checksum.  As long as that does not happen and
the root page is not handed out, every operation leaves a directory that reads back as
it was written.
-/

namespace Ethersex.Dataflash

open Library

/-! ## Operations on files -/

section Steps

variable {fs : Fs}

/-- An operation on a file keeps the directory, unless the root page is among the pages
it asks for. -/
theorem PageSteps.sameDirectory {cells : List (Nat × Bytes)} {result : FsStatus × Fs} {steps : Nat}
    (trace : PageSteps steps cells fs result)
    (fresh : FreshFor fs.next (· = fs.root % 4096) (3 * steps) fs.lastFree) :
    SameDirectory fs result.2 := by
  induction trace with
  | stop status fs => exact .refl fs
  | @failed steps inode page status fs after small found updated bad =>
      have enough : FreshFor fs.next (· = fs.root % 4096) (2 + 1) fs.lastFree := fresh.mono (by omega)
      have handed := enough.tail found
      have apart : (fs.handOut page).next (fs.handOut page).lastFree ≠
          some ((fs.handOut page).root % 4096) := fun next => handed.head next (Or.inl rfl)
      have outcome := fsUpdateInodetable_outcome inode (some page) apart
      rw [updated] at outcome
      exact outcome.sameDirectory small apart
  | @page steps inode page content cells fs after result small found updated rest ih =>
      have enough : FreshFor fs.next (· = fs.root % 4096) (3 * steps + 2 + 1) fs.lastFree :=
        fresh.mono (by omega)
      have handed := enough.tail found
      have apart : (fs.handOut page).next (fs.handOut page).lastFree ≠
          some ((fs.handOut page).root % 4096) := fun next => handed.head next (Or.inl rfl)
      have outcome := fsUpdateInodetable_outcome inode (some page) apart
      rw [updated] at outcome
      have first : SameDirectory (fs.handOut page) after := outcome.sameDirectory small apart
      cases outcome with
      | @ok table newRoot block tableNext memory rootNext =>
          have tableFound : fs.next page = some table := tableNext
          have rootFound : fs.next table = some newRoot := rootNext
          have tableFresh := handed.tail tableFound
          have rootFresh := tableFresh.tail rootFound
          have rootIn := Fs.next_lt rootNext
          have other : newRoot ≠ page := by
            rintro rfl
            exact tableFresh.head rootNext (Or.inl (Or.inr rfl))
          have second : SameDirectory ((fs.handOut page).updated inode (newEntry (some page) block) table
              newRoot) (((fs.handOut page).updated inode (newEntry (some page) block) table
              newRoot).program page content) := by
            intro k _ _
            simp only [Fs.program, Fs.updated_root, Nat.mod_eq_of_lt rootIn,
              Function.update_of_ne other]
          refine first.trans (second.trans (ih ?_))
          refine FreshFor.weaken rootFresh fun item equal => Or.inr ?_
          rw [equal]
          exact Nat.mod_eq_of_lt rootIn

end Steps

/-! ## The condition -/

/-- A new name has room: it is in the directory already, or one of the
`FS_NODES_IN_ROOT` nodes is unused. -/
def Fs.HasRoomFor (fs : Fs) (name : List UInt8) : Prop :=
  (fs.heap fs.mallocs).isNone ∨
    (∃ k < fsNodesInRoot, strncmp (readNode fs k).nameBytes (cString name) fsFilename = 0) ∨
    ∃ k < fsNodesInRoot, (readNode fs k).unused = true

/-- There is room for the name that is created, and the root page is not among the pages
that an operation on a file asks for. -/
def Op.KeepsDirectory (op : Op) (fs : Fs) : Prop :=
  match op with
  | create name => fs.HasRoomFor name
  | remove _ => True
  | write inode data offset =>
      inode < 4096 ∧ fs.Fresh (· = fs.root % 4096) (Op.demand fs (.write inode data offset))
  | truncate inode length =>
      inode < 4096 ∧ fs.Fresh (· = fs.root % 4096) (Op.demand fs (.truncate inode length))

section Keeps

variable {fs : Fs} {entries : List FsNode} {name : List UInt8}

/-- A create without an effect, or one that adds exactly the new entry. -/
structure Creates (fs : Fs) (entries : List FsNode) (name : List UInt8) (status : FsStatus)
    (after : Fs) : Prop where
  failed : status ≠ .ok → after.chip.flash = fs.chip.flash ∧ after.root = fs.root
  done : status = .ok → ∃ index node, index ≤ entries.length ∧ node.text = stored name ∧
    node.inode = field12 (fsNewInode fs) ∧ after.Holds (entries.insertIdx index node) ∧
    fsRootnodeNodetableOffset + (entries.insertIdx index node).length * sizeofNode ≤ fsCrcOffset

theorem Creates.holds {status : FsStatus} {after : Fs} (holds : fs.Holds entries)
    (creates : Creates fs entries name status after) : ∃ changed, after.Holds changed := by
  by_cases good : status = .ok
  · obtain ⟨index, node, -, -, -, later, -⟩ := creates.done good
    exact ⟨_, later⟩
  · obtain ⟨flash, root⟩ := creates.failed good
    refine ⟨entries, ?_⟩
    rw [Fs.Holds, flash, root]
    exact holds

/-- A name without an entry has room only if there are fewer than `FS_NODES_IN_ROOT`
entries. -/
theorem Fs.HasRoomFor.length (room : fs.HasRoomFor name) (holds : fs.Holds entries) {block : Bytes}
    (memory : fs.heap fs.mallocs = some block) (absent : stored name ∉ entries.map FsNode.text) :
    entries.length ≤ 59 := by
  have bound := holds.room
  by_contra full
  have all (k : Nat) (small : k < fsNodesInRoot) : k < entries.length := by
    rw [show fsNodesInRoot = 60 from rfl] at small
    omega
  rcases room with none | ⟨k, small, same⟩ | ⟨k, small, unused⟩
  · simp [memory] at none
  · obtain ⟨read, -⟩ := holds.readNode (List.getElem?_eq_getElem (all k small))
    rw [read, (strncmp_name _ _).1] at same
    exact absent (List.mem_map.mpr ⟨_, List.getElem_mem _, same⟩)
  · obtain ⟨read, used⟩ := holds.readNode (List.getElem?_eq_getElem (all k small))
    rw [read, used] at unused
    exact absurd unused (by simp)

theorem fsCreate_creates (holds : fs.Holds entries) (room : fs.HasRoomFor name) :
    ∃ status after, fsCreate name fs.begun = some (status, after) ∧
      Creates fs entries name status after := by
  have unchanged (status : FsStatus) (bad : status ≠ .ok) :
      Creates fs entries name status fs.begun.allocated :=
    ⟨fun _ => ⟨rfl, rfl⟩, fun good => absurd good bad⟩
  cases memory : fs.heap fs.mallocs with
  | none => exact ⟨_, _, @fsCreate_of_noMemory fs.begun _ memory, unchanged _ (by simp)⟩
  | some block =>
      by_cases present : stored name ∈ entries.map FsNode.text
      · exact ⟨_, _, @fsCreate_of_present fs.begun _ _ _ holds memory present, unchanged _ (by simp)⟩
      · have space := room.length holds memory present
        obtain ⟨node, page, created, text, inode, lists, -⟩ :=
          @fsCreate_of_absent fs.begun _ _ _ holds memory present space
        rw [fsIncrement_eq] at created
        cases found : (fs.begun.allocated.prepared page).next
            (fs.begun.allocated.prepared page).lastFree with
        | none =>
            rw [found] at created
            exact ⟨_, _, created, fun _ => ⟨rfl, rfl⟩, fun good => absurd good (by simp)⟩
        | some root =>
            rw [found] at created
            refine ⟨_, _, created, fun bad => absurd rfl bad, fun _ => ⟨_, node, ?_, text, inode,
              Fs.commit_holds root lists, ?_⟩⟩
            · rw [← List.length_map FsNode.text]
              exact List.countP_le_length
            · have room := lists.room
              simp only [fsRootnodeNodetableOffset, sizeofNode, fsCrcOffset, dfPagesize]
              omega

theorem fsRemove_holds (holds : fs.Holds entries) {status : FsStatus} {after : Fs}
    (removed : fsRemove name fs.begun = some (status, after)) : ∃ changed, after.Holds changed := by
  cases memory : fs.heap fs.mallocs with
  | none =>
      rw [@fsRemove_of_noMemory fs.begun _ memory] at removed
      obtain rfl := (Prod.ext_iff.mp (Option.some.inj removed)).2
      exact ⟨entries, holds⟩
  | some block =>
      by_cases present : stored name ∈ entries.map FsNode.text
      · obtain ⟨index, entry, page, -, -, result, lists, -⟩ :=
          @fsRemove_of_present fs.begun _ _ _ holds memory present
        rw [removed, fsIncrement_eq] at result
        cases found : (fs.begun.allocated.prepared page).next
            (fs.begun.allocated.prepared page).lastFree with
        | none =>
            rw [found] at result
            obtain rfl := (Prod.ext_iff.mp (Option.some.inj result)).2
            exact ⟨entries, holds⟩
        | some root =>
            rw [found] at result
            have rootIn := Fs.next_lt found
            set middle := (fs.begun.allocated.prepared page).sealed.commit root
            have apart : middle.next middle.lastFree ≠ some (middle.root % 4096) := by
              rw [show middle.lastFree = root from rfl, show middle.root = root from rfl,
                Nat.mod_eq_of_lt rootIn, Fs.next_eq_nextFit _ rootIn]
              exact nextFit_ne rootIn
            have outcome := fsUpdateInodetable_outcome entry.inode none apart
            have later : middle.Holds _ := Fs.commit_holds root lists
            have directory := outcome.sameDirectory entry.inode.isLt apart
            have same : after = (fsUpdateInodetable entry.inode none middle).2 :=
              (Prod.ext_iff.mp (Option.some.inj result)).2
            rw [same]
            exact ⟨_, directory.holds later⟩
      · rw [@fsRemove_of_absent fs.begun _ _ _ holds memory present] at removed
        obtain rfl := (Prod.ext_iff.mp (Option.some.inj removed)).2
        exact ⟨entries, holds⟩

/-- An operation that meets the condition leaves a directory. -/
theorem Op.KeepsDirectory.holds {op : Op} (keeps : op.KeepsDirectory fs) (holds : fs.Holds entries)
    (inside : fs.lastFree < 4096) {status : FsStatus} {after : Fs}
    (ran : op.run fs.begun = some (status, after)) : ∃ changed, after.Holds changed := by
  have begun : fs.begun.Holds entries := holds
  cases op with
  | create name =>
      obtain ⟨_, _, created, creates⟩ := fsCreate_creates holds keeps
      rw [Op.run, created] at ran
      obtain rfl := (Prod.ext_iff.mp (Option.some.inj ran)).2
      exact creates.holds holds
  | remove name => exact fsRemove_holds holds ran
  | write inode data offset =>
      obtain ⟨cells, trace⟩ := fsWrite_steps fs.begun data offset keeps.1
      rw [Option.some.inj ran, @writePages_congr fs.begun fs rfl rfl] at trace
      exact ⟨entries, (trace.sameDirectory (keeps.2.freshFor inside)).holds begun⟩
  | truncate inode length =>
      obtain ⟨cells, trace⟩ := fsTruncate_steps fs.begun length keeps.1
      rw [Option.some.inj ran, @truncatePages_congr fs.begun fs rfl rfl] at trace
      exact ⟨entries, (trace.sameDirectory (keeps.2.freshFor inside)).holds begun⟩

end Keeps

/-! ## Runs -/

theorem Op.KeepsDirectory.inRange {op : Op} {fs : Fs} (keeps : op.KeepsDirectory fs) :
    op.InodeInRange := by
  cases op with
  | create name => trivial
  | remove name => trivial
  | write inode data offset => exact keeps.1
  | truncate inode length => exact keeps.1

/-- In every run from a blank device in which each operation meets the condition, the
directory has at most `FS_NODES_IN_ROOT` entries, and the next `fs_create` either fails
and leaves the flash as it is, or adds an entry that is in front of the checksum. -/
theorem directory_capacity {chip : Chip} {heap : Nat → Option Bytes} {start fs : Fs}
    (blank : chip.Blank) (started : fsInit chip heap = some (.ok, start))
    (run : Run Op.KeepsDirectory start fs) :
    ∃ entries, fs.Holds entries ∧ entries.length ≤ fsNodesInRoot ∧
      ∀ name, (Op.create name).KeepsDirectory fs →
        ∃ status after, (Op.create name).run fs.begun = some (status, after) ∧
          Creates fs entries name status after := by
  obtain ⟨rootBlock, inodeBlock, nodeBlock, boots⟩ := fsInit_blank blank started
  have begin : start.lastFree < 4096 := by
    rw [boots.lastFree]
    exact Nat.succ_pos 4095
  have held : ∃ entries, fs.Holds entries := by
    induction run with
    | start => exact ⟨[], boots.holds⟩
    | step op run keeps ran ih =>
        obtain ⟨entries, holds⟩ := ih
        have continued := run.continues fun op fs meets => meets.inRange
        exact keeps.holds holds (continued.cursor begin) ran
  obtain ⟨entries, holds⟩ := held
  exact ⟨entries, holds, holds.room, fun name keeps => fsCreate_creates holds keeps⟩

theorem directory_capacity_blank :
    ∃ start, fsInit blankChip zeroHeap = some (.ok, start) ∧
      ∃ status after, (Op.create [97]).run start.begun = some (status, after) ∧
        ∃ entries, Creates start entries [97] status after := by
  obtain ⟨start, started, boots⟩ := fsInit_boots blankChip zeroHeap blankChip_blank rfl rfl rfl rfl rfl
  obtain ⟨entries, -, -, creates⟩ := directory_capacity blankChip_blank started .start
  have room : (Op.create [97]).KeepsDirectory start :=
    Or.inr (Or.inr ⟨0, by decide, boots.holds.marker 0 (Nat.zero_le 0) (Nat.zero_le 60)⟩)
  obtain ⟨status, after, ran, result⟩ := creates [97] room
  exact ⟨start, started, status, after, ran, entries, result⟩

/-! ## One entry too many -/

/-- One-letter names. -/
def letter (k : Nat) : List UInt8 := [UInt8.ofNat (k + 1)]

theorem stored_letter {k : Nat} (small : k < 255) : stored (letter k) = letter k := by
  have nonzero : UInt8.ofNat (k + 1) ≠ 0 := by
    intro equal
    have value := congrArg UInt8.toNat equal
    rw [UInt8.toNat_ofNat_of_lt' (by change _ < 256; omega)] at value
    simp at value
  rw [stored, fieldText_cString (by simpa [letter] using nonzero)]
  rfl

theorem letter_injective {k j : Nat} (small : k < 255) (other : j < 255)
    (equal : letter k = letter j) : k = j := by
  have head := congrArg UInt8.toNat (List.cons.inj equal).1
  rw [UInt8.toNat_ofNat_of_lt' (by change _ < 256; omega),
    UInt8.toNat_ofNat_of_lt' (by change _ < 256; omega)] at head
  omega

/-- Creating files one after the other. -/
theorem Boots.fill {heap : Nat → Option Bytes} {chip : Chip} {start : Fs}
    {rootBlock inodeBlock nodeBlock : Bytes}
    (boots : Boots chip heap start rootBlock inodeBlock nodeBlock)
    (memory : ∀ n, (heap n).isSome = true) {count : Nat} (small : count ≤ 60) :
    ∃ fs entries, Run (fun _ _ => True) start fs ∧ Tracks start fs entries ∧ fs.heap = heap ∧
      entries.length = count ∧ ∀ entry ∈ entries, ∃ k < count, entry.text = letter k := by
  induction count with
  | zero => exact ⟨start, [], .start, boots.tracks, boots.heap, rfl, by simp⟩
  | succ count ih =>
      obtain ⟨fs, entries, run, tracks, sameHeap, length, names⟩ := ih (by omega)
      have begun : Tracks start fs.begun entries := ⟨tracks.map, tracks.cursor, tracks.holds, tracks.sorted⟩
      obtain ⟨block, found⟩ := Option.isSome_iff_exists.mp (memory fs.mallocs)
      have absent : stored (letter count) ∉ entries.map FsNode.text := by
        intro present
        obtain ⟨entry, member, text⟩ := List.mem_map.mp present
        obtain ⟨k, before, name⟩ := names entry member
        rw [stored_letter (by omega), name] at text
        exact absurd (letter_injective (by omega) (by omega) text) (by omega)
      obtain ⟨index, node, after, inside, text, created, later, -⟩ :=
        begun.create (fun cursor inside => boots.next inside) (by rw [← sameHeap] at found; exact found)
          absent (by omega)
      have ran : (Op.create (letter count)).run fs.begun = some (.ok, after) := created
      have continued := Op.continues (.create (letter count)) trivial ran
      refine ⟨after, _, run.step _ trivial ran, later, continued.heap.trans sameHeap, ?_, ?_⟩
      · rw [List.length_insertIdx_of_le_length inside, length]
      · intro entry member
        rcases (List.mem_insertIdx inside).mp member with rfl | old
        · exact ⟨count, by omega, text.trans (stored_letter (by omega))⟩
        · obtain ⟨k, before, name⟩ := names entry old
          exact ⟨k, by omega, name⟩

/-- After `FS_NODES_IN_ROOT` files one more is created, and the directory has
`FS_NODES_IN_ROOT + 1` entries. -/
theorem directory_overflows :
    ∃ start fs after, fsInit blankChip zeroHeap = some (.ok, start) ∧
      Run (fun _ _ => True) start fs ∧ (∃ entries, fs.Holds entries ∧ entries.length = fsNodesInRoot) ∧
      (Op.create (letter 60)).run fs.begun = some (.ok, after) ∧
      ∀ k ≤ fsNodesInRoot, (readNode after k).unused = false := by
  obtain ⟨start, started, boots⟩ := fsInit_boots blankChip zeroHeap blankChip_blank rfl rfl rfl rfl rfl
  obtain ⟨fs, entries, run, tracks, sameHeap, length, names⟩ :=
    boots.fill (fun _ => rfl) (le_refl 60)
  have absent : stored (letter 60) ∉ entries.map FsNode.text := by
    intro present
    obtain ⟨entry, member, text⟩ := List.mem_map.mp present
    obtain ⟨k, before, name⟩ := names entry member
    rw [stored_letter (by omega), name] at text
    exact absurd (letter_injective (by omega) (by omega) text) (by omega)
  have memory : fs.begun.heap fs.begun.mallocs = some fun _ => 0 := by
    rw [show fs.begun.heap = zeroHeap from sameHeap]
    rfl
  obtain ⟨node, page, created, -, used, -, nodes, -⟩ :=
    @fsCreate_inserts fs.begun _ _ _ tracks.holds memory absent
  obtain ⟨root, found⟩ := tracks.next (fun cursor inside => boots.next inside) tracks.cursor
  have next : (fs.begun.allocated.prepared page).next (fs.begun.allocated.prepared page).lastFree =
      some root := found
  rw [fsIncrement_eq, next] at created
  refine ⟨start, fs, _, started, run, ⟨entries, tracks.holds, length⟩, created, fun k small => ?_⟩
  have bound : k ≤ 60 := small
  have inside : (entries.map FsNode.text).countP (· < stored (letter 60)) ≤ entries.length := by
    rw [← List.length_map FsNode.text]
    exact List.countP_le_length
  have old (j : Nat) (before : j < entries.length) :
      (nodeAt (fs.chip.flash (fs.root % 4096)) j).unused = false := by
    rw [tracks.holds.entry j entries[j] (List.getElem?_eq_getElem before)]
    exact tracks.holds.used _ (List.getElem_mem before)
  have written : ((fs.begun.allocated.prepared page).sealed.commit root).chip.flash (root % 4096) =
      sealRoot (fs.begun.allocated.prepared page).nextVersion page := by
    change Function.update fs.chip.flash (root % 4096) _ (root % 4096) = _
    rw [Function.update_self]
    rfl
  rw [readNode_eq, show ((fs.begun.allocated.prepared page).sealed.commit root).root = root from rfl,
    written, nodeAt_unused_congr bound fun j lower upper => sealRoot_of_ne _ _ (by omega) (by omega),
    nodes k bound]
  split
  · exact old (k - 1) (by omega)
  · split
    · exact used
    · exact old k (by omega)

end Ethersex.Dataflash
