import Mathlib
import Ethersex.Library.Extents
import Ethersex.Dataflash.Capacity

/-!
# The pages of the inodes

An inode names the page that is in use for it, so that a volume is a map from inodes to the
contents of pages.  A commit of `fs_update_inodetable` changes this map in one place; the steps
of a trace change it one after the other.  All of this is so only while the pages that are
handed out are not in use.
-/

namespace Ethersex.Dataflash

open Library

/-- The contents of the page of each inode in use. -/
def Fs.pages (fs : Fs) (inode : Nat) : Option Bytes :=
  if inode < 4096 then dataOf fs.chip.flash fs.root inode else none

section Views

variable {fs other : Fs} {inode page : Nat} {content : Bytes}

theorem Fs.pages_eq_some :
    fs.pages inode = some content ↔
      inode < 4096 ∧ ∃ page, fsPage fs inode = some page ∧ fs.chip.flash page = content := by
  rw [Fs.pages]
  split_ifs with small
  · rw [dataOf, Option.map_eq_some_iff, fsPage_eq]
    simp only [small, true_and]
  · simp [small]

theorem Fs.pages_eq_none (small : inode < 4096) : fs.pages inode = none ↔ fsPage fs inode = none := by
  rw [Fs.pages, if_pos small, dataOf, Option.map_eq_none_iff, fsPage_eq]

theorem fsPage_lt (found : fsPage fs inode = some page) : page < 4096 := pageOf_lt found

theorem readPage_of_page (found : fsPage fs inode = some page) :
    readPage fs page = headerOf (fs.chip.flash page) := by
  rw [readPage_eq, Nat.mod_eq_of_lt (fsPage_lt found)]

/-- The first inode that is not in use. -/
theorem fsNewInode_eq (fs : Fs) :
    fsNewInode fs = (List.range 4096).find? fun inode => (fs.pages inode).isNone := by
  rw [fsNewInode, show fsRootnodeInodetableSize * fsInodesPerTable = 4096 from rfl]
  refine List.find?_congr fun inode member => ?_
  have small := List.mem_range.mp member
  rw [Fs.pages, if_pos small, dataOf, Option.isNone_map, pageOf, inodeNode_eq]
  cases (entryOf fs.chip.flash fs.root inode).unused <;> rfl

theorem fsNewInode_congr (same : ∀ inode < 4096, fsPage fs inode = fsPage other inode) :
    fsNewInode fs = fsNewInode other := by
  rw [fsNewInode_eq, fsNewInode_eq]
  refine List.find?_congr fun inode member => ?_
  have small := List.mem_range.mp member
  rw [Fs.pages, Fs.pages, if_pos small, if_pos small, dataOf, dataOf, Option.isNone_map,
    Option.isNone_map, ← fsPage_eq, ← fsPage_eq, same inode small]

/-- The inodes not in use, other than one. -/
def Fs.spare (fs : Fs) (inode : Nat) : List Nat :=
  (List.range 4096).filter fun other => (fs.pages other).isNone && other != inode

theorem Fs.mem_spare {other : Nat} :
    other ∈ fs.spare inode ↔ other < 4096 ∧ fs.pages other = none ∧ other ≠ inode := by
  rw [Fs.spare, List.mem_filter, List.mem_range]
  simp only [Bool.and_eq_true, Option.isNone_iff_eq_none, bne_iff_ne]

theorem Fs.spare_nodup (fs : Fs) (inode : Nat) : (fs.spare inode).Nodup :=
  List.nodup_range.filter _

/-- The spare inodes are the same for all inodes in use. -/
theorem Fs.spare_of_used {target : Nat} (used : fs.pages inode ≠ none) (usedToo : fs.pages target ≠ none) :
    fs.spare inode = fs.spare target := by
  refine List.filter_congr fun number _ => ?_
  have same (key : Nat) (held : fs.pages key ≠ none) :
      ((fs.pages number).isNone && number != key) = (fs.pages number).isNone := by
    by_cases is : number = key
    · rw [is, Option.isNone_eq_false_iff.mpr (Option.isSome_iff_ne_none.mpr held), Bool.false_and]
    · rw [bne_iff_ne.mpr is, Bool.and_true]
  rw [same inode used, same target usedToo]

/-- Once an inode is in use, the next new one is the first of the others that were not. -/
theorem fsNewInode_of_put (put : other.pages = Function.update fs.pages inode (some content)) :
    fsNewInode other = (fs.spare inode).head? := by
  rw [fsNewInode_eq, Fs.spare, List.head?_filter]
  refine List.find?_congr fun number _ => ?_
  rw [put]
  by_cases same : number = inode
  · rw [same, Function.update_self]
    simp
  · rw [Function.update_of_ne same]
    simp [same]

/-- Taking the first spare inode leaves the others. -/
theorem Fs.spare_of_put (put : other.pages = Function.update fs.pages inode (some content)) {first : Nat}
    {rest : List Nat} (spare : fs.spare inode = first :: rest) : other.spare first = rest := by
  have nodup := fs.spare_nodup inode
  rw [spare, List.nodup_cons] at nodup
  have only : other.spare first = (fs.spare inode).filter (· != first) := by
    rw [Fs.spare, Fs.spare, List.filter_filter]
    refine List.filter_congr fun number _ => ?_
    rw [put]
    by_cases same : number = inode
    · rw [same, Function.update_self]
      simp
    · rw [Function.update_of_ne same, bne_iff_ne.mpr same, Bool.and_true, Bool.and_comm]
  rw [only, spare, List.filter_cons_of_neg (by simp), List.filter_eq_self]
  intro number member
  rw [bne_iff_ne]
  rintro rfl
  exact nodup.1 member

end Views

/-! ## One step -/

/-- The pages to be avoided are as before. -/
def KeepsPages (avoid : Nat → Prop) (before after : Fs) : Prop :=
  ∀ page, avoid page → after.chip.flash page = before.chip.flash page

section Steps

variable {avoid : Nat → Prop} {count inode page : Nat} {fs after : Fs} {status : FsStatus}

theorem KeepsPages.refl (avoid : Nat → Prop) (fs : Fs) : KeepsPages avoid fs fs := fun _ _ => rfl

theorem KeepsPages.trans {larger : Nat → Prop} {middle : Fs} (first : KeepsPages avoid fs middle)
    (second : KeepsPages larger middle after) (grows : ∀ page, avoid page → larger page) :
    KeepsPages avoid fs after :=
  fun page avoided => (second page (grows page avoided)).trans (first page avoided)

/-- A commit changes the entry of its inode. -/
theorem Commits.pages {node : InodetableNode} {table newRoot more : Nat}
    (commits : Commits (fun _ => True) avoid count fs inode node table newRoot)
    (room : Room (fun _ => True) avoid more fs) (small : inode < 4096) {other : Nat}
    (different : other ≠ inode) :
    (fs.updated inode node table newRoot).pages other = fs.pages other := by
  rw [Fs.pages, Fs.pages]
  split_ifs with otherIn
  · exact commits.dataOf room small otherIn trivial different
  · rfl

theorem Commits.keepsPages {node : InodetableNode} {table newRoot : Nat}
    (commits : Commits (fun _ => True) avoid count fs inode node table newRoot) :
    KeepsPages avoid fs (fs.updated inode node table newRoot) := by
  intro page avoided
  rw [Fs.updated_flash commits.rootIn, switched, Function.update_of_ne, Function.update_of_ne]
  · exact fun is => commits.tableFresh (is ▸ avoided)
  · exact fun is => commits.rootFresh (is ▸ avoided)

/-- A commit that fails changes no entry. -/
theorem UpdateOutcome.pages {target : Option Nat}
    (outcome : UpdateOutcome fs inode target (status, after)) (bad : status ≠ .ok)
    (room : Room (fun _ => True) avoid (count + 1) fs) :
    after.pages = fs.pages ∧ KeepsPages avoid fs after := by
  cases outcome with
  | noTable full => exact ⟨rfl, .refl _ _⟩
  | noMemory tableNext memory => exact ⟨rfl, .refl _ _⟩
  | @noRoot table block tableNext memory full =>
      have notLive := room.notLive tableNext
      refine ⟨funext fun other => ?_, fun page avoided => ?_⟩
      · rw [Fs.pages, Fs.pages]
        split_ifs with otherIn
        · exact dataOf_program notLive otherIn trivial
        · rfl
      · have apart : page ≠ table := fun is => room.fresh.head tableNext (is ▸ avoided)
        exact Function.update_of_ne apart _ _
  | ok => exact absurd rfl bad

/-- An inode was given a new page, which is programmed with contents that do not matter for where the
inodes lead. -/
structure PutsPage (avoid : Nat → Prop) (fs after : Fs) (inode page : Nat) (content : Bytes) : Prop where
  pages : (after.program page content).pages = Function.update fs.pages inode (some content)
  keeps : KeepsPages avoid fs (after.program page content)
  before : KeepsPages avoid fs after
  inodes : ∀ other < 4096, fsPage after other = fsPage (after.program page content) other

/-- Programming a page that was handed out for the inode. -/
theorem Room.pages_step (room : Room (fun _ => True) avoid (count + 3) fs) (small : inode < 4096)
    (found : fs.next fs.lastFree = some page)
    (updated : fsUpdateInodetable inode (some page) (fs.handOut page) = (.ok, after))
    (content : Bytes) :
    PutsPage avoid fs after inode page content ∧
      ∃ table newRoot, Room (fun _ => True) (Also (Also (Also avoid page) table) newRoot) count
        (after.program page content) := by
  have handed := room.handOut found
  rcases room.pageStep small found with ⟨status, _, bad, same, -⟩ | ⟨table, newRoot, node, same, rest⟩
  · rw [updated] at same
    exact absurd (Prod.ext_iff.mp same).1.symm bad
  · rw [updated] at same
    obtain rfl := (Prod.ext_iff.mp same).2
    obtain ⟨entry, commits, later⟩ := rest
    have pageOf_eq {other : Nat} (otherIn : other < 4096) := commits.pageOf handed small otherIn
    have own : pageOf ((fs.handOut page).updated inode node table newRoot).chip.flash newRoot inode =
        some page := by
      rw [pageOf_eq small, if_pos rfl, entry]
    have notStructural := commits.notStructural handed small (Or.inr rfl)
      fun structural => room.notLive found structural.live
    have kept := commits.keepsPages
    have others (other : Nat) (different : other ≠ inode) :
        ((fs.handOut page).updated inode node table newRoot).pages other = fs.pages other :=
      commits.pages handed small different
    refine ⟨⟨funext fun other => ?_, fun number avoided => ?_, fun number avoided => ?_,
      fun other otherIn => ?_⟩, table, newRoot, later content⟩
    · rw [Fs.pages]
      by_cases otherIn : other < 4096
      · have owned (is : pageOf ((fs.handOut page).updated inode node table newRoot).chip.flash newRoot
            other = some page) : other = inode := by
          by_contra different
          rw [pageOf_eq otherIn, if_neg different] at is
          exact room.notLive found (Or.inr (Or.inr ⟨other, otherIn, trivial, is⟩))
        rw [if_pos otherIn]
        refine (dataOf_program_of_owner notStructural otherIn owned own).trans ?_
        by_cases same : other = inode
        · rw [if_pos same, same, Function.update_self]
        · rw [if_neg same, Function.update_of_ne same, ← others other same, Fs.pages, if_pos otherIn,
            Fs.updated_root]
      · have different : other ≠ inode := fun is => otherIn (is ▸ small)
        rw [if_neg otherIn, Function.update_of_ne different, Fs.pages, if_neg otherIn]
    · refine (Function.update_of_ne (fun is => ?_) _ _).trans (kept number (Or.inl avoided))
      exact room.fresh.head found (is ▸ avoided)
    · exact kept number (Or.inl avoided)
    · exact (pageOf_program notStructural otherIn).symm

end Steps

/-! ## Traces -/

/-- The pages after those of some inodes were replaced. -/
def putPages (cells : List (Nat × Bytes)) (pages : Nat → Option Bytes) : Nat → Option Bytes :=
  cells.foldl (fun pages cell => Function.update pages cell.1 (some cell.2)) pages

/-- A trace replaces the pages of its cells, also when it ends early. -/
theorem PageSteps.pages {cells : List (Nat × Bytes)} {fs : Fs} {result : FsStatus × Fs}
    {steps count : Nat} {avoid : Nat → Prop} (trace : PageSteps steps cells fs result)
    (room : Room (fun _ => True) avoid (count + 3 * steps) fs) :
    result.2.pages = putPages cells fs.pages ∧ KeepsPages avoid fs result.2 := by
  induction trace generalizing avoid with
  | stop status fs => exact ⟨rfl, .refl _ _⟩
  | @failed steps inode page status fs after small found updated bad =>
      have enough : Room (fun _ => True) avoid (2 + 1) fs := room.mono (by omega)
      have handed := enough.handOut found
      have apart : (fs.handOut page).next (fs.handOut page).lastFree ≠
          some ((fs.handOut page).root % 4096) :=
        fun next => handed.fresh.head next (handed.live _ (Or.inl rfl))
      have outcome := fsUpdateInodetable_outcome inode (some page) apart
      rw [updated] at outcome
      obtain ⟨same, kept⟩ := outcome.pages bad handed
      exact ⟨same, fun number avoided => kept number (Or.inl avoided)⟩
  | @page steps inode page content cells fs after result small found updated rest ih =>
      have enough : Room (fun _ => True) avoid (count + 3 * steps + 3) fs := room.mono (by omega)
      obtain ⟨puts, table, newRoot, later⟩ := enough.pages_step small found updated content
      obtain ⟨final, keptLater⟩ := ih later
      rw [puts.pages] at final
      exact ⟨final, puts.keeps.trans keptLater fun number avoided => Or.inl (Or.inl (Or.inl avoided))⟩

end Ethersex.Dataflash
