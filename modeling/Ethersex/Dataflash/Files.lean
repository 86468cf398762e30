import Mathlib
import Ethersex.Dataflash.Lookup
import Ethersex.Dataflash.Truncating

/-!
# Files under calls that succeed

What each of the four calls does to the directory and to the pages of the inodes, if it finds fresh pages
and returns `FS_OK`.  Creating a file changes no page, and takes the first inode that is not in use; removing
it gives up its first inode only.

An inode is proper if it is not in use, or if the chain that begins at it ends.  Creating, writing and
truncating keep all inodes proper.  Removing a file keeps those whose chains do not lead to its inode.
-/

namespace Ethersex.Dataflash

open Library

/-- A file begins at the inode, which may be unwritten. -/
def Fs.Proper (fs : Fs) (inode : Nat) : Prop := ∃ inodes content, fs.Contents inode inodes content

section Proper

variable {fs after : Fs} {inode target offset : Nat} {news keys inodes : List Nat}
  {data content : List UInt8}

theorem Fs.Contents.congr (contents : fs.Contents inode inodes content) (small : inode < 4096)
    (same : after.pages = fs.pages) : after.Contents inode inodes content := by
  have extents : after.extents = fs.extents := by
    funext other
    rw [Fs.extents, Fs.extents, same]
  cases contents with
  | unwritten unused =>
      rw [← Fs.pages_eq_none small, ← same, Fs.pages_eq_none small] at unused
      exact .unwritten unused
  | written file =>
      rw [← extents] at file ⊢
      exact .written file

theorem Fs.Proper.congr (proper : fs.Proper inode) (small : inode < 4096)
    (same : after.pages = fs.pages) : after.Proper inode := by
  obtain ⟨inodes, content, contents⟩ := proper
  exact ⟨inodes, content, contents.congr small same⟩

theorem Fs.Proper.of_unused (unused : fsPage fs inode = none) : fs.Proper inode :=
  ⟨[], [], .unwritten unused⟩

theorem Fs.Proper.of_file (file : FileAt fsDatasize fs.extents inode inodes) : fs.Proper inode :=
  ⟨inodes, _, .written file⟩

/-- A write keeps every inode proper: the files that go through the inode written to go on with its new
file, and the new inodes begin a part of it. -/
theorem Rewrites.proper (rewrites : Rewrites fs after target news keys offset data content)
    (unused : ∀ new ∈ news, fs.pages new = none) (small : inode < 4096) (proper : fs.Proper inode) :
    after.Proper inode := by
  by_cases own : inode = target
  · rw [own]
    exact .of_file rewrites.file
  by_cases new : inode ∈ news
  · obtain ⟨front, rest, rfl⟩ := List.append_of_mem new
    have file := rewrites.file
    rw [List.append_assoc, List.cons_append, ← List.cons_append] at file
    exact .of_file file.split.2
  obtain ⟨inodes, content, contents⟩ := proper
  cases contents with
  | unwritten free =>
      refine .of_unused ?_
      rw [← Fs.pages_eq_none small, rewrites.frame inode own new, Fs.pages_eq_none small]
      exact free
  | written file =>
      by_cases through : target ∈ inodes
      · obtain ⟨front, rest, rfl⟩ := List.append_of_mem through
        exact .of_file (rewrites.within unused file).1
      · exact .of_file (rewrites.elsewhere unused file through).1

/-- A write keeps the files that do not go through the inodes it changes. -/
theorem Rewrites.contents (rewrites : Rewrites fs after target news keys offset data content)
    (unused : ∀ new ∈ news, fs.pages new = none) (small : inode < 4096) {kept : List UInt8}
    (contents : fs.Contents inode inodes kept) (apart : target ∉ inodes)
    (others : inodes = [] → inode ≠ target ∧ inode ∉ news) : after.Contents inode inodes kept := by
  cases contents with
  | unwritten free =>
      obtain ⟨other, old⟩ := others rfl
      refine .unwritten ?_
      rw [← Fs.pages_eq_none small, rewrites.frame inode other old, Fs.pages_eq_none small]
      exact free
  | written file =>
      obtain ⟨file, same⟩ := rewrites.elsewhere unused file apart
      rw [← same]
      exact .written file

/-- Giving up an inode keeps the files proper that do not lead to it. -/
theorem Fs.Proper.of_removed (proper : fs.Proper inode) (small : inode < 4096)
    (removed : after.pages = Function.update fs.pages target none)
    (apart : ∀ inodes, FileAt fsDatasize fs.extents inode inodes → target ∉ inodes.tail) :
    after.Proper inode := by
  by_cases own : inode = target
  · refine .of_unused ?_
    rw [← Fs.pages_eq_none small, removed, own, Function.update_self]
  obtain ⟨inodes, content, contents⟩ := proper
  cases contents with
  | unwritten free =>
      refine .of_unused ?_
      rw [← Fs.pages_eq_none small, removed, Function.update_of_ne own, Fs.pages_eq_none small]
      exact free
  | written file =>
      have outside := apart inodes file
      obtain ⟨rest, rfl⟩ := file.eq_cons
      refine .of_file (file.congr fun key member => ?_)
      have different : key ≠ target := by
        rintro rfl
        exact (List.mem_cons.mp member).elim (fun is => own is.symm) outside
      rw [Fs.extents, Fs.extents, removed, Function.update_of_ne different]

end Proper

/-! ## The calls -/

section Calls

variable {fs after : Fs} {entries : List FsNode} {name : List UInt8} {avoid : Nat → Prop}
  {count page : Nat}

/-- A new root page with the same inode tables changes no page of an inode. -/
theorem Room.commit_pages (room : Room (fun _ => True) avoid (count + 1) fs)
    (found : fs.next fs.lastFree = some page)
    (tables : SameTables fs.chip.buf1 (fs.chip.flash (fs.root % 4096))) :
    (fs.sealed.commit page).pages = fs.pages := by
  have pageIn := Fs.next_lt found
  have sealedTables : SameTables (sealRoot fs.nextVersion fs.chip.buf1)
      (fs.chip.flash (fs.root % 4096)) := by
    intro k lower upper
    rw [sealRoot_of_ne _ _ (by omega) (by omega), tables k lower upper]
  have flash : (fs.sealed.commit page).chip.flash =
      Function.update fs.chip.flash page (sealRoot fs.nextVersion fs.chip.buf1) := by
    simp only [Fs.commit, dfBufSave, dfPages, Nat.mod_eq_of_lt pageIn]
    rfl
  funext inode
  rw [Fs.pages, Fs.pages, flash]
  split_ifs with small
  · exact dataOf_moved sealedTables pageIn (room.notLive found) small trivial
  · rfl

theorem Op.demand_create (created : fsCreate name fs.begun = some (.ok, after)) :
    Op.demand fs (.create name) = 1 := by
  obtain ⟨status, bad, same⟩ | ⟨page, index, max, memory, sought, -⟩ := fsCreate_cases created
  · exact absurd (Prod.ext_iff.mp same).1.symm bad
  · obtain ⟨block, found⟩ := Option.isSome_iff_exists.mp memory
    rw [Op.demand, show fs.heap fs.mallocs = some block from found,
      @seekPlace_congr fs fs.begun rfl rfl, sought]

theorem Op.demand_remove (removed : fsRemove name fs.begun = some (.ok, after)) :
    Op.demand fs (.remove name) = 3 := by
  obtain ⟨status, bad, same⟩ | ⟨page, index, max, inode, memory, sought, -⟩ := fsRemove_cases removed
  · exact absurd (Prod.ext_iff.mp same).1.symm bad
  · obtain ⟨block, found⟩ := Option.isSome_iff_exists.mp memory
    rw [Op.demand, show fs.heap fs.mallocs = some block from found,
      @seekLast_congr fs fs.begun rfl rfl, sought]

/-- `fs_create` adds an entry with a new inode, and changes no page. -/
theorem fsCreate_done (holds : fs.Holds entries) (space : fs.HasRoomFor name) (inside : fs.lastFree < 4096)
    (fresh : fs.Fresh (Live (fun _ => True) fs.chip.flash fs.root) (Op.demand fs (.create name)))
    (created : fsCreate name fs.begun = some (.ok, after)) :
    after.pages = fs.pages ∧ ∃ index node, index ≤ entries.length ∧ node.text = stored name ∧
      node.inode = field12 (fsNewInode fs) ∧ after.Holds (entries.insertIdx index node) := by
  rw [Op.demand_create created] at fresh
  have room : Room _ _ (0 + 1) fs.begun := Room.begun inside fresh
  obtain ⟨status, other, same, creates⟩ := fsCreate_creates holds space
  rw [created] at same
  obtain ⟨rfl, rfl⟩ := Prod.ext_iff.mp (Option.some.inj same)
  obtain ⟨index, node, before, text, inode, later, -⟩ := creates.done rfl
  refine ⟨?_, index, node, before, text, inode, later⟩
  cases memory : fs.heap fs.mallocs with
  | none =>
      rw [@fsCreate_of_noMemory fs.begun _ memory] at created
      exact absurd (Prod.ext_iff.mp (Option.some.inj created)).1 (by simp)
  | some block =>
      by_cases present : stored name ∈ entries.map FsNode.text
      · rw [@fsCreate_of_present fs.begun _ _ _ holds memory present] at created
        exact absurd (Prod.ext_iff.mp (Option.some.inj created)).1 (by simp)
      · obtain ⟨node, page, done, -, -, -, header, -⟩ := @fsCreate_of_absent fs.begun _ _ _ holds memory
          present (space.length holds memory present)
        have prepared : Room _ _ (0 + 1) (fs.begun.allocated.prepared page) :=
          room.change _ rfl rfl rfl room.live
        rw [created, fsIncrement_eq] at done
        cases found : (fs.begun.allocated.prepared page).next
            (fs.begun.allocated.prepared page).lastFree with
        | none =>
            rw [found] at done
            exact absurd (Prod.ext_iff.mp (Option.some.inj done)).1 (by simp)
        | some root =>
            rw [found] at done
            have result : after = _ := (Prod.ext_iff.mp (Option.some.inj done)).2
            rw [result]
            exact prepared.commit_pages found fun k _ upper => header k upper

/-- `fs_remove` deletes an entry, and gives up the inode in it. -/
theorem fsRemove_done (holds : fs.Holds entries) (inside : fs.lastFree < 4096)
    (fresh : fs.Fresh (Live (fun _ => True) fs.chip.flash fs.root) (Op.demand fs (.remove name)))
    (removed : fsRemove name fs.begun = some (.ok, after)) :
    ∃ index entry, entries[index]? = some entry ∧ entry.text = stored name ∧
      after.pages = Function.update fs.pages entry.inode none ∧ after.Holds (entries.eraseIdx index) := by
  rw [Op.demand_remove removed] at fresh
  have room : Room _ _ (2 + 1) fs.begun := Room.begun inside fresh
  cases memory : fs.heap fs.mallocs with
  | none =>
      rw [@fsRemove_of_noMemory fs.begun _ memory] at removed
      exact absurd (Prod.ext_iff.mp (Option.some.inj removed)).1 (by simp)
  | some block =>
      by_cases present : stored name ∈ entries.map FsNode.text
      · obtain ⟨index, entry, page, is, text, done, lists, header, -⟩ :=
          @fsRemove_of_present fs.begun _ _ _ holds memory present
        refine ⟨index, entry, is, text, ?_⟩
        have prepared : Room _ _ (2 + 1) (fs.begun.allocated.prepared page) :=
          room.change _ rfl rfl rfl room.live
        have tables : SameTables page (fs.chip.flash (fs.root % 4096)) := fun k _ upper => header k upper
        rw [removed, fsIncrement_eq] at done
        cases found : (fs.begun.allocated.prepared page).next
            (fs.begun.allocated.prepared page).lastFree with
        | none =>
            rw [found] at done
            exact absurd (Prod.ext_iff.mp (Option.some.inj done)).1 (by simp)
        | some root =>
            rw [found] at done
            have pages := prepared.commit_pages found tables
            have directory : ((fs.begun.allocated.prepared page).sealed.commit root).Holds
                (entries.eraseIdx index) := Fs.commit_holds root lists
            have later := prepared.commit found tables
            have result : fsUpdateInodetable entry.inode none
                ((fs.begun.allocated.prepared page).sealed.commit root) = (.ok, after) :=
              (Option.some.inj done).symm
            generalize (fs.begun.allocated.prepared page).sealed.commit root = middle at *
            rcases fsUpdateInodetable_cases later entry.inode.isLt none (by simp) with
              ⟨status, _, bad, same, -⟩ | ⟨table, newRoot, node, same, unused, commits⟩
            · rw [result] at same
              exact absurd (Prod.ext_iff.mp same).1.symm bad
            · rw [result] at same
              obtain rfl := (Prod.ext_iff.mp same).2
              refine ⟨funext fun other => ?_, (commits.sameDirectory entry.inode.isLt).holds directory⟩
              by_cases own : other = entry.inode
              · rw [own, Function.update_self, Fs.pages, if_pos entry.inode.isLt, Fs.updated_root, dataOf,
                  commits.pageOf later entry.inode.isLt entry.inode.isLt, if_pos rfl, unused,
                  Option.map_none]
              · rw [Function.update_of_ne own, commits.pages later entry.inode.isLt own, pages]
                rfl
      · rw [@fsRemove_of_absent fs.begun _ _ _ holds memory present] at removed
        exact absurd (Prod.ext_iff.mp (Option.some.inj removed)).1 (by simp)

theorem Rewrites.of_begun {target offset : Nat} {news keys : List Nat} {data content : List UInt8}
    (rewrites : Rewrites fs.begun after target news keys offset data content) :
    Rewrites fs after target news keys offset data content :=
  ⟨rewrites.file, rewrites.data, rewrites.frame⟩

/-- A call on a file keeps the directory. -/
theorem PageSteps.keepsDirectory {cells : List (Nat × Bytes)} {result : FsStatus × Fs} {steps : Nat}
    (trace : PageSteps steps cells fs.begun result) (inside : fs.lastFree < 4096)
    (fresh : fs.Fresh (Live (fun _ => True) fs.chip.flash fs.root) (3 * steps)) :
    SameDirectory fs result.2 :=
  trace.sameDirectory (FreshFor.weaken (fresh.freshFor inside) fun _ is => .inl is)

/-- `fs_write` keeps the directory, and gives the inode at which the write begins a new file. -/
theorem fsWrite_done {inode offset : Nat} {bytes content : List UInt8} {inodes : List Nat}
    (contents : fs.Contents inode inodes content) (holds : fs.Holds entries) (inside : fs.lastFree < 4096)
    (finds : (Op.write inode bytes offset).FindsFresh fs)
    (enough : writePages fs inode offset bytes.length ≤ (fs.spare inode).length + 1)
    (done : fsWrite inode bytes offset fs.begun = (.ok, after)) :
    after.Holds entries ∧
      ∃ front target rest, WritePoint fs.begun inode inodes content offset front target rest ∧
        Rewrites fs.begun after target
          ((fs.spare inode).take (writePages fs inode offset bytes.length - 1)) rest
          (offset - 512 * front.length)
          (programmed (fun k => bytes.getD k 0) (offset - 512 * front.length) bytes.length)
          (fileData fs.extents (if inodes = [] then [] else target :: rest)) := by
  have same : writePages fs.begun inode offset bytes.length = writePages fs inode offset bytes.length :=
    @writePages_congr fs.begun fs rfl rfl inode offset bytes.length
  have room : Room (fun _ => True) (Live (fun _ => True) fs.chip.flash fs.root)
      (0 + 3 * writePages fs.begun inode offset bytes.length) fs.begun := by
    rw [same, Nat.zero_add]
    exact Room.begun inside finds.fresh
  have begun : fs.begun.Contents inode inodes content := contents.congr finds.inRange rfl
  constructor
  · obtain ⟨cells, trace⟩ := fsWrite_steps fs.begun bytes offset finds.inRange
    rw [done, same] at trace
    exact (trace.keepsDirectory inside finds.fresh).holds holds
  · have enough : writePages fs.begun inode offset bytes.length ≤ (fs.begun.spare inode).length + 1 := by
      rw [same]
      exact enough
    obtain ⟨front, target, rest, point, rewrites⟩ := fsWrite_rewrites begun finds.inRange room enough done
    rw [same] at rewrites
    exact ⟨front, target, rest, point, rewrites⟩

/-- `fs_truncate` keeps the directory. -/
theorem fsTruncate_sameDirectory {inode length : Nat} (inside : fs.lastFree < 4096)
    (finds : (Op.truncate inode length).FindsFresh fs) {result : FsStatus × Fs}
    (done : fsTruncate inode length fs.begun = result) : SameDirectory fs result.2 := by
  obtain ⟨cells, trace⟩ := fsTruncate_steps fs.begun length finds.inRange
  rw [done, @truncatePages_congr fs.begun fs rfl rfl] at trace
  exact trace.keepsDirectory inside finds.fresh

/-- Room for `fs_truncate`. -/
theorem Op.FindsFresh.truncateRoom {inode length : Nat} (finds : (Op.truncate inode length).FindsFresh fs)
    (inside : fs.lastFree < 4096) :
    Room (fun _ => True) (Live (fun _ => True) fs.chip.flash fs.root)
      (0 + 3 * truncatePages fs.begun inode length) fs.begun := by
  rw [@truncatePages_congr fs.begun fs rfl rfl, Nat.zero_add]
  exact Room.begun inside finds.fresh

end Calls

/-! ## Keeping the chains -/

/-- The calls that keep the chains of the files.  The pages that a call is given are not in use; a new file
has a node of the directory, and gets a proper inode; a file is removed only if no other one leads to its
inode; and there are as many inodes left as a write needs. -/
def Op.KeepsChains (op : Op) (fs : Fs) : Prop :=
  op.FindsFresh fs ∧
    match op with
    | create name => fs.HasRoomFor name ∧ fs.Proper (field12 (fsNewInode fs))
    | remove name => ∀ index, fs.Listed index → fs.Names name index → ∀ other, fs.Listed other →
        ∀ inodes, FileAt fsDatasize fs.extents (readNode fs other).inode inodes →
          ((readNode fs index).inode : Nat) ∉ inodes.tail
    | write inode data offset =>
        fs.Proper inode ∧ writePages fs inode offset data.length ≤ (fs.spare inode).length + 1
    | truncate inode _ => fs.Proper inode

/-- A directory all of whose files are proper. -/
structure Fs.Sound (fs : Fs) (entries : List FsNode) : Prop where
  cursor : fs.lastFree < 4096
  holds : fs.Holds entries
  proper : ∀ entry ∈ entries, fs.Proper entry.inode

section Sound

variable {fs after : Fs} {entries : List FsNode} {op : Op}

theorem Fs.Listed.of_lt (holds : fs.Holds entries) {index : Nat} (inside : index < entries.length) :
    fs.Listed index := by
  intro k small
  obtain ⟨read, used⟩ := holds.readNode (List.getElem?_eq_getElem (small.trans_lt inside))
  rw [read, used]

theorem Fs.Listed.inside {index : Nat} (listed : fs.Listed index) (holds : fs.Holds entries) :
    index < entries.length := by
  by_contra behind
  have used := listed entries.length (Nat.not_lt.mp behind)
  have marked : (readNode fs entries.length).unused = true := holds.marker _ le_rfl holds.room
  rw [used] at marked
  exact absurd marked Bool.false_ne_true

/-- `fs_truncate` keeps every inode proper. -/
theorem fsTruncate_proper {inode length : Nat} (inside : fs.lastFree < 4096)
    (finds : (Op.truncate inode length).FindsFresh fs) (proper : fs.Proper inode)
    (done : fsTruncate inode length fs.begun = (.ok, after)) {other : Nat} (small : other < 4096)
    (properToo : fs.Proper other) : after.Proper other := by
  obtain ⟨inodes, content, contents⟩ := proper
  have unchanged (same : fsTruncate inode length fs.begun = (.ok, fs.begun)) : after.Proper other := by
    rw [same] at done
    have result : after = fs.begun := (Prod.ext_iff.mp done).2.symm
    rw [result]
    exact properToo.congr small rfl
  cases contents with
  | unwritten unused =>
      refine unchanged ?_
      rw [fsTruncate, show fsPage fs.begun inode = none from unused]
  | written file =>
      have begun : FileAt fsDatasize fs.begun.extents inode inodes := file
      obtain ⟨beyond, stops, cuts⟩ := fsTruncate_file begun (finds.truncateRoom inside)
      rcases Nat.lt_or_ge (fileData fs.begun.extents inodes).length length with longer | fits
      · rw [beyond longer] at done
        exact absurd (Prod.ext_iff.mp done).1 (by simp)
      by_cases stop : length = (fileData fs.begun.extents inodes).length ∨ length % 512 = 0 ∧ 0 < length
      · exact unchanged (stops fits stop)
      · rw [not_or] at stop
        obtain ⟨front, target, rest, extent, -, -, -, -, -, rewrites⟩ := cuts (by omega) (by omega)
        exact (rewrites after done).proper (fun new member => absurd member List.not_mem_nil) small
          (properToo.congr small rfl)

/-- A call that meets the condition and returns `FS_OK` leaves a sound directory. -/
theorem Fs.Sound.step (sound : fs.Sound entries) (keeps : op.KeepsChains fs)
    (done : op.run fs.begun = some (.ok, after)) : ∃ changed, after.Sound changed := by
  obtain ⟨finds, keeps⟩ := keeps
  have cursor := (op.continues finds.inRange done).cursor sound.cursor
  cases op with
  | create name =>
      obtain ⟨space, new⟩ := keeps
      obtain ⟨pages, index, node, before, -, inode, holds⟩ :=
        fsCreate_done sound.holds space sound.cursor finds.fresh done
      refine ⟨_, cursor, holds, fun entry member => ?_⟩
      rcases (List.mem_insertIdx before).mp member with rfl | old
      · rw [inode]
        exact new.congr (Fin.isLt _) pages
      · exact (sound.proper entry old).congr entry.inode.isLt pages
  | remove name =>
      obtain ⟨index, entry, is, text, pages, holds⟩ :=
        fsRemove_done sound.holds sound.cursor finds.fresh done
      refine ⟨_, cursor, holds, fun other member => ?_⟩
      obtain ⟨place, inside, rfl⟩ := List.getElem_of_mem (List.mem_of_mem_eraseIdx member)
      obtain ⟨read, -⟩ := sound.holds.readNode is
      obtain ⟨readOther, -⟩ := sound.holds.readNode (List.getElem?_eq_getElem inside)
      refine (sound.proper _ (List.getElem_mem inside)).of_removed (Fin.isLt _) pages fun inodes file => ?_
      rw [← readOther] at file
      rw [← read]
      refine keeps index (.of_lt sound.holds (List.getElem?_eq_some_iff.mp is).1) ?_ place
        (.of_lt sound.holds inside) inodes file
      rw [Fs.Names, read, (strncmp_name _ _).1]
      exact text
  | write inode data offset =>
      obtain ⟨⟨inodes, content, contents⟩, enough⟩ := keeps
      obtain ⟨holds, front, target, rest, -, rewrites⟩ := fsWrite_done contents sound.holds sound.cursor
        finds enough (Option.some.inj done)
      refine ⟨entries, cursor, holds, fun entry member => ?_⟩
      have begun : fs.begun.Proper entry.inode := (sound.proper entry member).congr entry.inode.isLt rfl
      exact rewrites.proper (fun new taken => @unused_of_take fs _ _ _ taken) entry.inode.isLt begun
  | truncate inode length =>
      have directory := fsTruncate_sameDirectory sound.cursor finds (Option.some.inj done)
      refine ⟨entries, cursor, directory.holds sound.holds, fun entry member => ?_⟩
      exact fsTruncate_proper sound.cursor finds keeps (Option.some.inj done) entry.inode.isLt
        (sound.proper entry member)

end Sound

/-! ## Runs -/

/-- The states that calls returning `FS_OK` lead to, if each of them meets a condition on the state in which
it begins. -/
inductive Served (meets : Op → Fs → Prop) (start : Fs) : Fs → Prop where
  | start : Served meets start start
  | step {fs after : Fs} (op : Op) :
      Served meets start fs → meets op fs → op.run fs.begun = some (.ok, after) → Served meets start after

theorem Served.run {meets : Op → Fs → Prop} {start fs : Fs} (served : Served meets start fs) :
    Run meets start fs := by
  induction served with
  | start => exact .start
  | step op _ meet done ih => exact .step op ih meet done

/-- In every run from a blank device the files stay proper. -/
theorem Served.sound {chip : Chip} {heap : Nat → Option Bytes} {start fs : Fs} (blank : chip.Blank)
    (started : fsInit chip heap = some (.ok, start)) (served : Served Op.KeepsChains start fs) :
    ∃ entries, fs.Sound entries := by
  induction served with
  | start =>
      obtain ⟨rootBlock, inodeBlock, nodeBlock, boots⟩ := fsInit_blank blank started
      refine ⟨[], ?_, boots.holds, fun entry member => absurd member List.not_mem_nil⟩
      rw [boots.lastFree]
      exact Nat.succ_pos 4095
  | step op _ keeps done ih =>
      obtain ⟨entries, sound⟩ := ih
      exact sound.step keeps done

end Ethersex.Dataflash
