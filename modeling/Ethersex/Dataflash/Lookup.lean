import Mathlib
import Ethersex.Dataflash.Capacity

/-!
# Looking up a name

`fs_get_inode` compares a node with the name before it looks whether the node is in use, so that it
also finds the name that the end marker of the directory still holds.  This module says when the
lookup agrees with the listing, and what the unused nodes hold after a sequence of calls.
-/

namespace Ethersex.Dataflash

open Library

/-! ## The listing -/

section Listing

variable (fs : Fs) (name : List UInt8)

/-- The indices at which `fs_list` finds an entry before it reports `FS_EOF` for the first time. -/
def Fs.Listed (index : Nat) : Prop := ∀ k ≤ index, (readNode fs k).unused = false

/-- The node holds the name, on the first `FS_FILENAME` characters. -/
abbrev Fs.Names (index : Nat) : Prop :=
  strncmp (readNode fs index).nameBytes (cString name) fsFilename = 0

/-- The listing has the name. -/
def Fs.ListsName : Prop := ∃ index, fs.Listed index ∧ fs.Names name index

/-- The node at which the listing ends. -/
def Fs.EndsAt (stop : Nat) : Prop :=
  (readNode fs stop).unused = true ∧ ∀ k < stop, (readNode fs k).unused = false

/-- `fs_get_inode` returns `0xffff` exactly for the names that are not listed, and otherwise the inode
of the entry. -/
def Fs.LookupAgrees : Prop :=
  (fsGetInode fs name = some none ↔ ¬fs.ListsName name) ∧
    ∀ index, fs.Listed index → fs.Names name index →
      fsGetInode fs name = some (some (readNode fs index).inode.val)

/-- The node that ends the listing does not hold the name, unless an entry does. -/
def Fs.EndClear : Prop := ∀ stop, fs.EndsAt stop → fs.Names name stop → fs.ListsName name

/-- The listing has an end or the name, and no two different inodes for the name. -/
structure Fs.Orderly : Prop where
  ends : fs.ListsName name ∨ ∃ stop, fs.EndsAt stop
  unique : ∀ index other, fs.Listed index → fs.Listed other → fs.Names name index →
    fs.Names name other → (readNode fs index).inode = (readNode fs other).inode

end Listing

section Search

variable {fs : Fs} {name : List UInt8}

theorem Fs.Listed.lt {index stop : Nat} (listed : fs.Listed index) (ends : fs.EndsAt stop) :
    index < stop := by
  by_contra behind
  have used := listed stop (Nat.not_lt.mp behind)
  rw [ends.1] at used
  exact absurd used (by decide)

theorem Fs.EndsAt.unique {stop other : Nat} (ends : fs.EndsAt stop) (ends' : fs.EndsAt other) :
    stop = other := by
  obtain before | same | behind := Nat.lt_trichotomy stop other
  · exact absurd (ends'.2 stop before) (by rw [ends.1]; decide)
  · exact same
  · exact absurd (ends.2 other behind) (by rw [ends'.1]; decide)

/-- Behind the page the nodes begin anew. -/
theorem readNode_add (fs : Fs) (index : Nat) : readNode fs (index + 66) = readNode fs index := by
  have bytes : readFrom 528 (40 + (index + 66) * 8) (fs.chip.flash (fs.root % 4096)) =
      readFrom 528 (40 + index * 8) (fs.chip.flash (fs.root % 4096)) := by
    funext k
    rw [readFrom, readFrom]
    congr 1
    omega
  rw [readNode_eq, readNode_eq, nodeAt, nodeAt, bytes]

/-- The search stops at the first node that is unused or holds the name. -/
theorem seekName_stops {steps i stop : Nat} (lower : i ≤ stop) (enough : stop < i + steps)
    (small : stop < 2 ^ 16) (passed : ∀ k, i ≤ k → k < stop →
      (readNode fs k).unused = false ∧ ¬fs.Names name k)
    (stops : (readNode fs stop).unused = true ∨ fs.Names name stop) :
    seekName fs name steps i =
      if fs.Names name stop then some (some (readNode fs stop).inode.val) else some none := by
  induction steps generalizing i with
  | zero => omega
  | succ steps ih =>
      rw [seekName]
      obtain rfl | before := Nat.eq_or_lt_of_le lower
      · by_cases same : fs.Names name i
        · rw [if_pos same, if_pos same]
        · rw [if_neg same, if_neg same, if_pos (stops.resolve_right same)]
      · obtain ⟨used, other⟩ := passed i le_rfl before
        rw [Nat.mod_eq_of_lt (by omega), if_neg other, if_neg (by rw [used]; decide)]
        exact ih before (by omega) fun k above => passed k (by omega)

/-- Without such a node it does not end. -/
theorem seekName_runs (passed : ∀ k, (readNode fs k).unused = false ∧ ¬fs.Names name k) (steps i : Nat) :
    seekName fs name steps i = none := by
  induction steps generalizing i with
  | zero => rfl
  | succ steps ih =>
      obtain ⟨used, other⟩ := passed i
      rw [seekName, if_neg other, if_neg (by rw [used]; decide)]
      exact ih _

/-- What the lookup finds at the node where its search stops. -/
theorem fsGetInode_stops {stop : Nat}
    (passed : ∀ k < stop, (readNode fs k).unused = false ∧ ¬fs.Names name k)
    (stops : (readNode fs stop).unused = true ∨ fs.Names name stop) :
    fsGetInode fs name =
      if fs.Names name stop then some (some (readNode fs stop).inode.val) else some none := by
  have small : stop < 66 := by
    by_contra far
    have back := readNode_add fs (stop - 66)
    rw [Nat.sub_add_cancel (Nat.not_lt.mp far)] at back
    obtain ⟨used, other⟩ := passed (stop - 66) (by omega)
    rw [Fs.Names, back] at stops
    rw [used] at stops
    exact stops.elim (by simp) other
  exact seekName_stops (Nat.zero_le stop) (by omega) (by omega) (fun k _ => passed k) stops

/-- The search stops at an entry. -/
theorem lookupAgrees_of_entry {stop : Nat}
    (result : fsGetInode fs name = some (some (readNode fs stop).inode.val))
    (listed : fs.Listed stop) (named : fs.Names name stop) :
    fs.LookupAgrees name ↔ fs.Orderly name ∧ fs.EndClear name := by
  constructor
  · rintro ⟨-, agrees⟩
    refine ⟨⟨.inl ⟨stop, listed, named⟩, ?_⟩, fun _ _ _ => ⟨stop, listed, named⟩⟩
    intro index other listed listed' named named'
    have same := (agrees index listed named).symm.trans (agrees other listed' named')
    rw [Option.some.injEq, Option.some.injEq] at same
    exact Fin.ext same
  · rintro ⟨orderly, -⟩
    refine ⟨iff_of_false (by rw [result]; simp) (not_not_intro ⟨stop, listed, named⟩), ?_⟩
    intro index listed' named'
    rw [result, orderly.unique stop index listed listed' named named']

/-- The search stops at the end marker. -/
theorem lookupAgrees_of_end {stop : Nat}
    (result : fsGetInode fs name =
      if fs.Names name stop then some (some (readNode fs stop).inode.val) else some none)
    (ends : fs.EndsAt stop) (absent : ¬fs.ListsName name) :
    fs.LookupAgrees name ↔ fs.Orderly name ∧ fs.EndClear name := by
  constructor
  · rintro ⟨agrees, -⟩
    have missing := agrees.mpr absent
    refine ⟨⟨.inr ⟨stop, ends⟩, fun index _ listed _ named => absurd ⟨index, listed, named⟩ absent⟩, ?_⟩
    intro other ends' named
    obtain rfl := ends.unique ends'
    rw [result, if_pos named] at missing
    exact absurd missing (by simp)
  · rintro ⟨-, clear⟩
    have other : ¬fs.Names name stop := fun named => absent (clear stop ends named)
    refine ⟨iff_of_true (by rw [result, if_neg other]) absent, ?_⟩
    exact fun index listed named => absurd ⟨index, listed, named⟩ absent

/-- The lookup agrees with the listing if and only if the listing has an end or the name, the end
marker does not hold a name that is not listed, and the name has one inode. -/
theorem lookupAgrees_iff (fs : Fs) (name : List UInt8) :
    fs.LookupAgrees name ↔ fs.Orderly name ∧ fs.EndClear name := by
  by_cases found : ∃ stop, (readNode fs stop).unused = true ∨ fs.Names name stop
  · obtain ⟨stop, stops, first⟩ : ∃ stop, ((readNode fs stop).unused = true ∨ fs.Names name stop) ∧
        ∀ k < stop, (readNode fs k).unused = false ∧ ¬fs.Names name k := by
      refine ⟨Nat.find found, Nat.find_spec found, fun k before => ?_⟩
      have passed := Nat.find_min found before
      rwa [not_or, Bool.not_eq_true] at passed
    have result := fsGetInode_stops first stops
    cases used : (readNode fs stop).unused with
    | false =>
        have named := stops.resolve_left (by rw [used]; decide)
        have listed : fs.Listed stop := fun k upper =>
          (Nat.eq_or_lt_of_le upper).elim (fun same => same ▸ used) fun before => (first k before).1
        rw [if_pos named] at result
        exact lookupAgrees_of_entry result listed named
    | true =>
        have ends : fs.EndsAt stop := ⟨used, fun k before => (first k before).1⟩
        refine lookupAgrees_of_end result ends ?_
        rintro ⟨index, listed, named⟩
        exact (first index (listed.lt ends)).2 named
  · have passed (k : Nat) : (readNode fs k).unused = false ∧ ¬fs.Names name k := by
      have other := not_exists.mp found k
      rwa [not_or, Bool.not_eq_true] at other
    have result : fsGetInode fs name = none := seekName_runs passed _ _
    have absent : ¬fs.ListsName name := fun ⟨index, _, named⟩ => (passed index).2 named
    constructor
    · rintro ⟨agrees, -⟩
      rw [agrees.mpr absent] at result
      exact absurd result (by simp)
    · rintro ⟨⟨lists | ⟨stop, ends⟩, -⟩, -⟩
      · exact absurd lists absent
      · exact absurd ends.1 (by rw [(passed stop).1]; decide)

end Search

/-! ## Directories with room -/

/-- A file is created or removed, and a new name finds one of the `FS_NODES_IN_ROOT` nodes unused. -/
def Op.HasRoom (op : Op) (fs : Fs) : Prop :=
  match op with
  | create name => fs.HasRoomFor name
  | remove _ => True
  | write _ _ _ | truncate _ _ => False

section Tracks

variable {start fs : Fs} {entries : List FsNode} {name : List UInt8}

theorem Tracks.begun (tracks : Tracks start fs entries) : Tracks start fs.begun entries :=
  ⟨tracks.map, tracks.cursor, tracks.holds, tracks.sorted⟩

theorem Tracks.endsAt (tracks : Tracks start fs entries) : fs.EndsAt entries.length := by
  refine ⟨tracks.holds.marker _ le_rfl tracks.holds.room, fun k before => ?_⟩
  obtain ⟨read, used⟩ := tracks.holds.readNode (List.getElem?_eq_getElem before)
  rw [read, used]

theorem Tracks.names_iff (tracks : Tracks start fs entries) {index : Nat}
    (inside : index < entries.length) : fs.Names name index ↔ entries[index].text = stored name := by
  obtain ⟨read, -⟩ := tracks.holds.readNode (List.getElem?_eq_getElem inside)
  rw [Fs.Names, read, (strncmp_name _ _).1]

theorem Tracks.listsName_iff (tracks : Tracks start fs entries) :
    fs.ListsName name ↔ stored name ∈ entries.map FsNode.text := by
  rw [List.mem_map]
  constructor
  · rintro ⟨index, listed, named⟩
    have inside := listed.lt tracks.endsAt
    exact ⟨entries[index], List.getElem_mem inside, (tracks.names_iff inside).mp named⟩
  · rintro ⟨entry, member, text⟩
    obtain ⟨index, inside, rfl⟩ := List.getElem_of_mem member
    exact ⟨index, fun k upper => tracks.endsAt.2 k (Nat.lt_of_le_of_lt upper inside),
      (tracks.names_iff inside).mpr text⟩

theorem Tracks.text_injective (tracks : Tracks start fs entries) {index other : Nat}
    (inside : index < entries.length) (inside' : other < entries.length)
    (same : entries[index].text = entries[other].text) : index = other := by
  have ordered := List.pairwise_iff_getElem.mp tracks.sorted
  simp only [List.length_map, List.getElem_map] at ordered
  obtain before | equal | behind := Nat.lt_trichotomy index other
  · exact absurd (ordered index other inside inside' before) (same ▸ Std.lt_irrefl)
  · exact equal
  · exact absurd (ordered other index inside' inside behind) (same ▸ Std.lt_irrefl)

theorem Tracks.orderly (tracks : Tracks start fs entries) (name : List UInt8) : fs.Orderly name where
  ends := .inr ⟨_, tracks.endsAt⟩
  unique index other listed listed' named named' := by
    have inside := listed.lt tracks.endsAt
    have inside' := listed'.lt tracks.endsAt
    have same := ((tracks.names_iff inside).mp named).trans ((tracks.names_iff inside').mp named').symm
    obtain rfl := tracks.text_injective inside inside' same
    rfl

/-- A create or a remove leaves such a directory. -/
theorem Tracks.op (tracks : Tracks start fs entries) (endless : start.Endless) {op : Op}
    (room : op.HasRoom fs) {status : FsStatus} {after : Fs}
    (ran : op.run fs.begun = some (status, after)) :
    ∃ changed, Tracks start after changed := by
  have begun := tracks.begun
  cases op with
  | create name =>
      change fsCreate name fs.begun = _ at ran
      cases memory : fs.heap fs.mallocs with
      | none =>
          rw [@fsCreate_of_noMemory fs.begun _ memory] at ran
          obtain rfl := (Prod.ext_iff.mp (Option.some.inj ran)).2
          exact ⟨entries, begun.allocated⟩
      | some block =>
          by_cases present : stored name ∈ entries.map FsNode.text
          · rw [@fsCreate_of_present fs.begun _ _ _ begun.holds memory present] at ran
            obtain rfl := (Prod.ext_iff.mp (Option.some.inj ran)).2
            exact ⟨entries, begun.allocated⟩
          · obtain ⟨_, _, _, -, -, created, later, -⟩ :=
              begun.create endless memory present (Fs.HasRoomFor.length room tracks.holds memory present)
            rw [created] at ran
            obtain rfl := (Prod.ext_iff.mp (Option.some.inj ran)).2
            exact ⟨_, later⟩
  | remove name =>
      change fsRemove name fs.begun = _ at ran
      cases memory : fs.heap fs.mallocs with
      | none =>
          rw [@fsRemove_of_noMemory fs.begun _ memory] at ran
          obtain rfl := (Prod.ext_iff.mp (Option.some.inj ran)).2
          exact ⟨entries, begun.allocated⟩
      | some block =>
          by_cases present : stored name ∈ entries.map FsNode.text
          · obtain ⟨_, _, _, _, -, -, removed, later, -⟩ := begun.remove endless memory present
            rw [removed] at ran
            obtain rfl := (Prod.ext_iff.mp (Option.some.inj ran)).2
            exact ⟨_, later⟩
          · rw [@fsRemove_of_absent fs.begun _ _ _ begun.holds memory present] at ran
            obtain rfl := (Prod.ext_iff.mp (Option.some.inj ran)).2
            exact ⟨entries, begun.allocated⟩
  | write inode data offset => exact room.elim
  | truncate inode length => exact room.elim

theorem Run.tracks (empty : Tracks start start []) (endless : start.Endless)
    (run : Run Op.HasRoom start fs) : ∃ entries, Tracks start fs entries := by
  induction run with
  | start => exact ⟨[], empty⟩
  | step op run room ran ih =>
      obtain ⟨entries, tracks⟩ := ih
      exact tracks.op endless room ran

/-- A name without an entry is found if and only if the end marker holds it. -/
theorem Tracks.getInode_absent (tracks : Tracks start fs entries)
    (absent : stored name ∉ entries.map FsNode.text) :
    fsGetInode fs name = some none ↔ ¬fs.Names name entries.length := by
  have result := @fsGetInode_stops fs name entries.length (fun k before => ?_) (.inl tracks.endsAt.1)
  · rw [result]
    split_ifs with named
    · exact iff_of_false (by simp) (not_not_intro named)
    · exact iff_of_true rfl named
  · refine ⟨tracks.endsAt.2 k before, fun named => absent ?_⟩
    exact List.mem_map.mpr ⟨entries[k], List.getElem_mem before, (tracks.names_iff before).mp named⟩

/-- A removed file is still found if and only if its entry was the last one and the end marker behind
it held the name as well. -/
theorem Tracks.getInode_removed (tracks : Tracks start fs entries) (endless : start.Endless)
    {block : Bytes} (memory : fs.heap fs.mallocs = some block) {index : Nat}
    (inside : index < entries.length)
    (text : entries[index].text = stored name) {status : FsStatus} {after : Fs}
    (removed : fsRemove name fs = some (status, after)) :
    fsGetInode after name = some none ↔
      ¬(index + 1 = entries.length ∧ fs.Names name entries.length) := by
  have present : stored name ∈ entries.map FsNode.text :=
    List.mem_map.mpr ⟨entries[index], List.getElem_mem inside, text⟩
  obtain ⟨gone, entry, status', after', found, text', result, later, -, leftover, -⟩ :=
    tracks.remove endless memory present
  rw [removed] at result
  obtain ⟨-, rfl⟩ := Prod.ext_iff.mp (Option.some.inj result)
  obtain ⟨bound, rfl⟩ := List.getElem?_eq_some_iff.mp found
  obtain rfl := tracks.text_injective inside bound (text.trans text'.symm)
  have absent : stored name ∉ (entries.eraseIdx index).map FsNode.text := by
    intro member
    obtain ⟨other, member, same⟩ := List.mem_map.mp member
    obtain ⟨k, inside', apart, rfl⟩ := List.mem_eraseIdx_iff_getElem.mp member
    exact apart (tracks.text_injective inside' inside (same.trans text.symm))
  rw [later.getInode_absent absent, List.length_eraseIdx_of_lt inside, Fs.Names, leftover]
  refine not_congr ?_
  change strncmp (readNode fs _).nameBytes _ _ = 0 ↔ _
  by_cases last : index + 1 = entries.length
  · rw [if_pos last]
    exact (and_iff_right last).symm
  · rw [if_neg last]
    have lower : entries.length - 1 < entries.length := by omega
    refine iff_of_false (fun named => ?_) fun both => last both.1
    have same := tracks.text_injective lower inside (((tracks.names_iff lower).mp named).trans text.symm)
    omega

end Tracks

/-! ## The lookup -/

end Ethersex.Dataflash
