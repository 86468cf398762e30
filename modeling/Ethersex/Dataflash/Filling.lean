import Mathlib
import Ethersex.Dataflash.Files

/-!
# Filling a blank device

On a device that was blank the pages behind the inode tables are handed out one after the other.  Until the
last of them is handed out, every page that a call is given is fresh, and with memory the calls succeed.
-/

namespace Ethersex.Dataflash

open Library

/-- No page behind `top` is in use, and the search for a free page goes on there. -/
structure Fs.Filling (fs : Fs) (top : Nat) : Prop where
  room : Room (fun _ => True) (· ≤ top) (4095 - top) fs
  first : top < 4095 → fs.next fs.lastFree = some (top + 1)
  next : ∀ cursor, top < cursor → cursor < 4095 → fs.next cursor = some (cursor + 1)
  memory : ∀ n, (fs.heap n).isSome
  cursor : fs.lastFree < 4096

/-- From the beginning of a file on a write replaces its first pages. -/
theorem writePages_zero (fs : Fs) (inode length : Nat) : writePages fs inode 0 length = pagesFor 0 length := by
  rw [writePages]
  cases fsPage fs inode with
  | none => exact if_neg (not_not.mpr rfl)
  | some page =>
      dsimp only
      rw [seekWrite, if_neg (show ¬0 > fsDatasize from Nat.not_lt_zero _)]
      rfl

section Filling

variable {fs after : Fs} {top inode count : Nat}

theorem also_le : Also (· ≤ top) (top + 1) = (· ≤ top + 1) := by
  funext page
  exact propext ⟨fun avoided => avoided.elim (by omega) (by omega), fun small =>
    (Nat.le_succ_iff.mp small).imp id id⟩

/-- From the first page on, the pages come in order. -/
theorem upcoming_in_order {next : Nat → Option Nat} (count : Nat) {start : Nat} (space : start + count < 4096)
    (first : start < 4095 → next start = some (start + 1))
    (ordered : ∀ cursor, start < cursor → cursor < 4095 → next cursor = some (cursor + 1)) :
    upcoming next count start = List.range' (start + 1) count := by
  induction count generalizing start with
  | zero => rfl
  | succ count ih =>
      have behind (cursor : Nat) (above : start + 1 < cursor) (small : cursor < 4095) :
          next cursor = some (cursor + 1) := ordered cursor (by omega) small
      rw [upcoming_succ (first (by omega)), List.range'_succ,
        ih (by omega) (ordered (start + 1) (Nat.lt_succ_self start)) behind]

namespace Fs.Filling

/-- The pages that are handed out next. -/
theorem upcoming (filling : fs.Filling top) (space : top + count < 4096) :
    Library.upcoming fs.next count fs.lastFree = List.range' (top + 1) count := by
  cases count with
  | zero => rfl
  | succ count =>
      rw [upcoming_succ (filling.first (by omega)), List.range'_succ,
        upcoming_in_order count (by omega) (filling.next (top + 1) (Nat.lt_succ_self top))
          fun cursor above small => filling.next cursor (by omega) small]

/-- They are fresh. -/
theorem fresh (filling : fs.Filling top) (space : top + count < 4096) :
    fs.Fresh (Live (fun _ => True) fs.chip.flash fs.root) count := by
  have ahead := filling.upcoming space
  rw [upcoming_next fs count filling.cursor] at ahead
  constructor
  · rw [ahead]
    exact List.nodup_range'
  · rw [ahead]
    intro page member live
    have low : page ≤ top := filling.room.live page live
    rw [List.mem_range'_1] at member
    omega

theorem begun (filling : fs.Filling top) : fs.begun.Filling top where
  room :=
    { fresh := filling.room.fresh
      live := filling.room.live
      handed alloc member := by simp [Fs.begun] at member
      safe alloc member := by simp [Fs.begun] at member
      distinct := List.nodup_nil }
  first := filling.first
  next := filling.next
  memory := filling.memory
  cursor := filling.cursor

/-- Memory and `BUF1` do not matter. -/
theorem change (filling : fs.Filling top) (room : Room (fun _ => True) (· ≤ top) (4095 - top) after)
    (buf2 : after.chip.buf2 = fs.chip.buf2) (heap : after.heap = fs.heap)
    (cursor : after.lastFree = fs.lastFree) : after.Filling top where
  room := room
  first small := by
    rw [Fs.next_congr buf2, cursor]
    exact filling.first small
  next number above small := by
    rw [Fs.next_congr buf2]
    exact filling.next number above small
  memory := by
    rw [heap]
    exact filling.memory
  cursor := by
    rw [cursor]
    exact filling.cursor

/-- Pages were handed out, up to the cursor. -/
theorem advance (filling : fs.Filling top) {more : Nat} (above : top < more) (small : more < 4096)
    (room : Room (fun _ => True) (· ≤ more) (4095 - more) after)
    (buf2 : after.chip.buf2 = fs.chip.buf2) (heap : after.heap = fs.heap) (cursor : after.lastFree = more) :
    after.Filling more where
  room := room
  first inside := by
    rw [Fs.next_congr buf2, cursor]
    exact filling.next more above inside
  next number behind inside := by
    rw [Fs.next_congr buf2]
    exact filling.next number (above.trans behind) inside
  memory := by
    rw [heap]
    exact filling.memory
  cursor := cursor ▸ small

/-- `fs_update_inodetable` takes two pages. -/
theorem update (filling : fs.Filling top) (space : top + 2 < 4096) (small : inode < 4096) (page : Option Nat)
    (target : ∀ number, page = some number → number ≤ top) :
    ∃ after, fsUpdateInodetable inode page fs = (.ok, after) ∧ after.Filling (top + 2) := by
  have first := filling.first (by omega)
  have second := filling.next (top + 1) (Nat.lt_succ_self top) (by omega)
  obtain ⟨block, memory⟩ := Option.isSome_iff_exists.mp (filling.memory fs.mallocs)
  have room : Room (fun _ => True) (· ≤ top) (4095 - (top + 2) + 2) fs := filling.room.mono (by omega)
  have within (number : Nat) (is : page = some number) : number < 4096 ∧ number ≤ top :=
    ⟨by have := target number is; omega, target number is⟩
  rcases fsUpdateInodetable_cases room small page within with
    ⟨status, after, bad, same, -⟩ | ⟨table, newRoot, node, same, -, commits⟩
  · have apart : fs.next fs.lastFree ≠ some (fs.root % 4096) :=
      fun found => room.fresh.head found (room.live _ (.inl rfl))
    have outcome := fsUpdateInodetable_outcome inode page apart
    rw [same] at outcome
    cases outcome with
    | noTable full => simp [first] at full
    | noMemory _ none => simp [memory] at none
    | noRoot _ found _ full =>
        obtain rfl := Option.some.inj (first.symm.trans found)
        simp [second] at full
    | ok => exact absurd rfl bad
  · obtain rfl := Option.some.inj (first.symm.trans commits.tableNext)
    obtain rfl := Option.some.inj (second.symm.trans commits.rootNext)
    have later := commits.room
    rw [also_le, also_le] at later
    exact ⟨_, same, filling.advance (by omega) space later rfl rfl rfl⟩

/-- A page of a file takes three pages. -/
theorem page (filling : fs.Filling top) (space : top + 3 < 4096) (small : inode < 4096) :
    ∃ after, fsUpdateInodetable inode (some (top + 1)) (fs.handOut (top + 1)) = (.ok, after) ∧
      ∀ content, (after.program (top + 1) content).Filling (top + 3) := by
  have first := filling.first (by omega)
  have room : Room (fun _ => True) (· ≤ top) (4095 - (top + 3) + 3) fs := filling.room.mono (by omega)
  have handed : (fs.handOut (top + 1)).Filling (top + 1) := by
    have later := filling.room.mono (show 4095 - (top + 1) + 1 ≤ 4095 - top by omega) |>.handOut first
    rw [also_le] at later
    exact filling.advance (Nat.lt_succ_self top) (by omega) later rfl rfl rfl
  obtain ⟨after, updated, -⟩ := handed.update (by omega) small (some (top + 1)) fun number is =>
    (Option.some.inj is).symm.le
  rcases room.pageStep small first with ⟨_, _, bad, same, -⟩ | ⟨table, newRoot, node, same, -, commits, later⟩
  · rw [updated] at same
    exact absurd (Prod.ext_iff.mp same).1.symm bad
  · rw [updated] at same
    obtain rfl : after = _ := (Prod.ext_iff.mp same).2
    have tableNext := filling.next (top + 1) (Nat.lt_succ_self top) (by omega)
    have rootNext := filling.next (top + 2) (by omega) (by omega)
    obtain rfl := Option.some.inj (tableNext.symm.trans commits.tableNext)
    obtain rfl := Option.some.inj (rootNext.symm.trans commits.rootNext)
    refine ⟨_, updated, fun content => ?_⟩
    have final := later content
    rw [also_le, also_le, also_le] at final
    exact filling.advance (by omega) space final rfl rfl rfl

/-- `fs_increment` takes a page. -/
theorem increment (filling : fs.Filling top) (space : top + 1 < 4096)
    (tables : SameTables fs.chip.buf1 (fs.chip.flash (fs.root % 4096))) :
    fsIncrement fs = (.ok, fs.sealed.commit (top + 1)) ∧ (fs.sealed.commit (top + 1)).Filling (top + 1) := by
  have first := filling.first (by omega)
  have later := (filling.room.mono (show 4095 - (top + 1) + 1 ≤ 4095 - top by omega)).commit first tables
  rw [also_le] at later
  refine ⟨?_, filling.advance (Nat.lt_succ_self top) space later rfl rfl rfl⟩
  rw [fsIncrement_eq, first]

/-! ### The calls -/

/-- Every call finds fresh pages. -/
theorem findsFresh (filling : fs.Filling top) {op : Op} (inRange : op.InodeInRange)
    (ends : op.DirectoryEnds fs) (space : top + op.demand fs < 4096) : op.FindsFresh fs :=
  ⟨inRange, ends, filling.fresh space⟩

variable {entries : List FsNode} {name : List UInt8}

/-- The page in `BUF1` becomes the root page. -/
theorem prepared (filling : fs.Filling top) (page : Bytes) :
    (fs.allocated.prepared page).Filling top :=
  filling.change (filling.room.change _ rfl rfl rfl filling.room.live) rfl rfl rfl

/-- A new file is created. -/
theorem create (filling : fs.Filling top) (space : top + 1 < 4096) (holds : fs.Holds entries)
    (absent : stored name ∉ entries.map FsNode.text) (few : entries.length ≤ 59) :
    ∃ after, fsCreate name fs.begun = some (.ok, after) ∧ after.Filling (top + 1) := by
  obtain ⟨block, memory⟩ := Option.isSome_iff_exists.mp (filling.memory fs.mallocs)
  obtain ⟨node, page, created, -, -, -, header, -⟩ :=
    @fsCreate_of_absent fs.begun _ _ _ holds memory absent few
  obtain ⟨done, later⟩ := (filling.begun.prepared page).increment space fun k _ upper => header k upper
  exact ⟨_, created.trans (congrArg some done), later⟩

/-- A file is removed. -/
theorem remove (filling : fs.Filling top) (space : top + 3 < 4096) (holds : fs.Holds entries)
    (present : stored name ∈ entries.map FsNode.text) :
    ∃ after, fsRemove name fs.begun = some (.ok, after) ∧ after.Filling (top + 3) := by
  obtain ⟨block, memory⟩ := Option.isSome_iff_exists.mp (filling.memory fs.mallocs)
  obtain ⟨index, entry, page, -, -, removed, -, header, -⟩ :=
    @fsRemove_of_present fs.begun _ _ _ holds memory present
  obtain ⟨done, middle⟩ := (filling.begun.prepared page).increment (by omega) fun k _ upper => header k upper
  obtain ⟨after, updated, later⟩ := middle.update (by omega) entry.inode.isLt none (by simp)
  rw [done] at removed
  exact ⟨after, removed.trans (congrArg some updated), later⟩

/-- The loop of `fs_write` for a file with data. -/
theorem writeOver (filling : fs.Filling top) {buf : Bytes} {oldPage offset length : Nat} {eof : Bool}
    (small : inode < 4096) (inside : offset ≤ 512) (space : top + 3 * pagesFor offset length < 4096) :
    ∃ after, writeOver buf inode oldPage eof offset length fs = (.ok, after) ∧
      after.Filling (top + 3 * pagesFor offset length) := by
  generalize pages : pagesFor offset length = steps at space ⊢
  induction steps generalizing fs top inode oldPage eof offset length with
  | zero => exact absurd pages (Nat.succ_ne_zero _)
  | succ steps ih =>
      obtain ⟨middle, updated, later⟩ := filling.page (by omega) small
      rw [writeOver_of_page (filling.first (by omega)) updated inside]
      by_cases more : 512 < length + offset
      · rw [if_pos more]
        have rest : pagesFor 0 (length - (512 - offset)) = steps := by
          simp only [pagesFor] at pages ⊢
          omega
        obtain ⟨after, done, final⟩ := ih (later _) (Fin.isLt _) (Nat.zero_le _) rest (by omega)
        refine ⟨after, done, ?_⟩
        rw [show top + 3 * (steps + 1) = top + 3 + 3 * steps by omega]
        exact final
      · have single : steps = 0 := by
          simp only [pagesFor] at pages
          omega
        rw [if_neg more, single]
        exact ⟨_, rfl, later _⟩

/-- The loop of `fs_write` for a file without data. -/
theorem writeNew (filling : fs.Filling top) {buf : Bytes} {header : FsPage} {length : Nat}
    (small : inode < 4096) (space : top + 3 * pagesFor 0 length < 4096) :
    ∃ after, writeNew buf header inode length fs = (.ok, after) ∧
      after.Filling (top + 3 * pagesFor 0 length) := by
  generalize pages : pagesFor 0 length = steps at space ⊢
  induction steps generalizing fs top inode header length with
  | zero => exact absurd pages (Nat.succ_ne_zero _)
  | succ steps ih =>
      obtain ⟨middle, updated, later⟩ := filling.page (by omega) small
      rw [writeNew_of_page (filling.first (by omega)) updated]
      split_ifs with more
      · have rest : pagesFor 0 (length - 512) = steps := by
          simp only [pagesFor] at pages ⊢
          omega
        obtain ⟨after, done, final⟩ := ih (later _) (Fin.isLt _) rest (by omega)
        refine ⟨after, done, ?_⟩
        rw [show top + 3 * (steps + 1) = top + 3 + 3 * steps by omega]
        exact final
      · have single : steps = 0 := by
          simp only [pagesFor] at pages
          omega
        rw [single]
        exact ⟨_, rfl, later _⟩

/-- A write that begins in a file or at its end succeeds. -/
theorem write (filling : fs.Filling top) {bytes content : List UInt8} {offset : Nat} {inodes : List Nat}
    (contents : fs.Contents inode inodes content) (small : inode < 4096) (within : offset ≤ content.length)
    (space : top + 3 * writePages fs inode offset bytes.length < 4096) :
    ∃ after, fsWrite inode bytes offset fs.begun = (.ok, after) ∧
      after.Filling (top + 3 * writePages fs inode offset bytes.length) := by
  have same : writePages fs.begun inode offset bytes.length = writePages fs inode offset bytes.length :=
    @writePages_congr fs.begun fs rfl rfl inode offset bytes.length
  have begun : fs.begun.Contents inode inodes content := contents.congr small rfl
  rw [← same] at space ⊢
  cases begun with
  | unwritten unused =>
      obtain rfl : offset = 0 := Nat.le_zero.mp within
      have pages : writePages fs.begun inode 0 bytes.length = pagesFor 0 bytes.length := by
        rw [writePages, unused]
        rfl
      rw [pages] at space ⊢
      rw [fsWrite, unused]
      exact filling.begun.writeNew small space
  | written file =>
      obtain ⟨page, found⟩ := exists_page file
      obtain ⟨-, short⟩ | ⟨front, target, rest, targetPage, -, targetFound, reached, -, upper, -⟩ :=
        seekWrite_file file offset found
      · omega
      · have pages : writePages fs.begun inode offset bytes.length =
            pagesFor (offset - 512 * front.length) bytes.length := by
          rw [writePages, found]
          dsimp only
          rw [reached]
          dsimp only
          rw [← (seekWrite_bounds small reached).2]
        rw [pages] at space ⊢
        rw [fsWrite, found]
        dsimp only
        rw [reached]
        exact filling.begun.writeOver (seekWrite_bounds small reached).1 upper space

/-- A new file is created, with the directory and the pages as they are then. -/
theorem created (filling : fs.Filling top) (name : List UInt8) (space : top + 1 < 4096) (holds : fs.Holds entries)
    (absent : stored name ∉ entries.map FsNode.text) (few : entries.length ≤ 59) :
    (Op.create name).FindsFresh fs ∧ fs.HasRoomFor name ∧
      ∃ after index node, (Op.create name).run fs.begun = some (.ok, after) ∧ after.Filling (top + 1) ∧
        after.pages = fs.pages ∧ index ≤ entries.length ∧ node.text = stored name ∧
        node.inode = field12 (fsNewInode fs) ∧ after.Holds (entries.insertIdx index node) := by
  obtain ⟨after, done, later⟩ := filling.create space holds absent few
  have finds : (Op.create name).FindsFresh fs := by
    refine filling.findsFresh trivial trivial ?_
    rw [Op.demand_create done]
    exact space
  have room : fs.HasRoomFor name := by
    have small : entries.length < fsNodesInRoot := Nat.lt_succ_of_le few
    exact .inr (.inr ⟨entries.length, small, holds.marker _ le_rfl small.le⟩)
  obtain ⟨pages, index, node, inside, text, inode, listed⟩ :=
    fsCreate_done holds room filling.cursor finds.fresh done
  exact ⟨finds, room, after, index, node, done, later, pages, inside, text, inode, listed⟩

/-- A file is removed, with the directory and the pages as they are then. -/
theorem removed (filling : fs.Filling top) (space : top + 3 < 4096) (holds : fs.Holds entries)
    (present : stored name ∈ entries.map FsNode.text) :
    ∃ after index entry, (Op.remove name).run fs.begun = some (.ok, after) ∧ after.Filling (top + 3) ∧
      entries[index]? = some entry ∧ entry.text = stored name ∧
      after.pages = Function.update fs.pages entry.inode none ∧ after.Holds (entries.eraseIdx index) := by
  obtain ⟨after, done, later⟩ := filling.remove space holds present
  have fresh : fs.Fresh (Live (fun _ => True) fs.chip.flash fs.root) (Op.demand fs (.remove name)) := by
    rw [Op.demand_remove done]
    exact filling.fresh space
  obtain ⟨index, entry, is, text, pages, listed⟩ := fsRemove_done holds filling.cursor fresh done
  exact ⟨after, index, entry, done, later, is, text, pages, listed⟩

/-- A file is written from the beginning, with the directory and the pages as they are then. -/
theorem written (filling : fs.Filling top) (bytes : List UInt8) {content : List UInt8} {inodes : List Nat}
    (contents : fs.Contents inode inodes content) (small : inode < 4096) (holds : fs.Holds entries)
    (space : top + 3 * pagesFor 0 bytes.length < 4096)
    (enough : pagesFor 0 bytes.length ≤ (fs.spare inode).length + 1) :
    (Op.write inode bytes 0).KeepsChains fs ∧
      ∃ after, (Op.write inode bytes 0).run fs.begun = some (.ok, after) ∧
        after.Filling (top + 3 * pagesFor 0 bytes.length) ∧ after.Holds entries ∧
        Rewrites fs.begun after inode ((fs.spare inode).take (pagesFor 0 bytes.length - 1)) inodes.tail 0
          (programmed (fun k => bytes.getD k 0) 0 bytes.length) content := by
  rw [← writePages_zero fs inode bytes.length] at space enough ⊢
  have finds : (Op.write inode bytes 0).FindsFresh fs := filling.findsFresh small trivial space
  obtain ⟨after, done, later⟩ := filling.write contents small (Nat.zero_le _) space
  obtain ⟨listed, front, target, rest, point, rewrites⟩ :=
    fsWrite_done contents holds filling.cursor finds enough done
  refine ⟨⟨finds, ⟨inodes, content, contents⟩, enough⟩, after, congrArg some done, later, listed, ?_⟩
  rw [Nat.zero_sub] at rewrites
  cases point with
  | unwritten _ nothing empty _ =>
      rw [if_pos nothing] at rewrites
      subst nothing empty
      exact rewrites
  | @written front rest target is file data lower _ =>
      obtain rfl : front = [] := List.length_eq_zero_iff.mp (by omega)
      obtain ⟨rest, same⟩ := file.eq_cons
      rw [same, List.nil_append, List.cons.injEq] at is
      obtain ⟨rfl, rfl⟩ := is
      rw [same, if_neg (List.cons_ne_nil _ _)] at rewrites
      rw [data, same]
      exact rewrites

end Fs.Filling

/-! ## Start-up -/

/-- A device that was blank, with ones in `BUF1`, is filled up to the last inode table. -/
theorem Boots.filling {chip : Chip} {heap : Nat → Option Bytes} {start : Fs}
    {rootBlock inodeBlock nodeBlock : Bytes} (boots : Boots chip heap start rootBlock inodeBlock nodeBlock)
    (unused : nodePage (InodetableNode.decode fun k => chip.buf1 (525 + k)) = none)
    (memory : ∀ n, (heap n).isSome) : start.Filling 16 := by
  have first : start.next start.lastFree = some 17 := by
    rw [boots.lastFree]
    exact boots.next_zero
  have ahead : upcoming start.next 4079 start.lastFree = List.range' 17 4079 := by
    rw [upcoming_succ first, List.range'_succ, upcoming_in_order 4078 (by omega)
      (fun small => boots.next_eq (by omega) small) fun cursor above small =>
        boots.next_eq (by omega) small]
  have inside : start.lastFree < 4096 := by
    rw [boots.lastFree]
    exact Nat.succ_pos 4095
  refine ⟨⟨⟨?_, ?_⟩, fun page live => boots.live unused live, ?_, ?_, ?_⟩, fun _ => first,
    fun cursor above small => boots.next_eq (by omega) small, ?_, inside⟩
  · rw [ahead]
    exact List.nodup_range'
  · rw [ahead]
    intro page member
    rw [List.mem_range'_1] at member
    omega
  · rw [boots.allocs]
    exact fun alloc member => absurd member List.not_mem_nil
  · rw [boots.allocs]
    exact fun alloc member => absurd member List.not_mem_nil
  · rw [boots.allocs]
    exact List.nodup_nil
  · rw [boots.heap]
    exact memory

/-- No inode of such a device is in use. -/
theorem Boots.pages {chip : Chip} {heap : Nat → Option Bytes} {start : Fs}
    {rootBlock inodeBlock nodeBlock : Bytes} (boots : Boots chip heap start rootBlock inodeBlock nodeBlock)
    (unused : nodePage (InodetableNode.decode fun k => chip.buf1 (525 + k)) = none) :
    start.pages = fun _ => none := by
  funext inode
  rw [Fs.pages]
  split_ifs with small
  · rw [dataOf, Option.map_eq_none_iff]
    by_cases last : inode % 256 = 255
    · rw [boots.pageOf_last inode small last, unused]
    · exact boots.pageOf small last
  · rfl

end Filling

/-! ## Two pages -/

section TwoPages

variable {fs : Fs} {inode first : Nat}

/-- The first inode that is not in use. -/
theorem fsNewInode_of_first (small : first < 4096) (unused : fs.pages first = none)
    (before : ∀ k < first, fs.pages k ≠ none) : fsNewInode fs = some first := by
  rw [fsNewInode_eq, List.find?_range_eq_some]
  refine ⟨by rw [unused]; rfl, List.mem_range.mpr small, fun k lower => ?_⟩
  rw [Bool.not_eq_true', Option.isNone_eq_false_iff, Option.isSome_iff_ne_none]
  exact before k lower

/-- The first spare inode. -/
theorem Fs.spare_take_one (small : first < 4096) (unused : fs.pages first = none) (other : first ≠ inode)
    (before : ∀ k < first, fs.pages k = none → k = inode) : (fs.spare inode).take 1 = [first] := by
  have head : (fs.spare inode).head? = some first := by
    rw [Fs.spare, List.head?_filter, List.find?_range_eq_some]
    refine ⟨by rw [unused, bne_iff_ne.mpr other]; rfl, List.mem_range.mpr small, fun k lower => ?_⟩
    rw [Bool.not_eq_true', Bool.and_eq_false_iff]
    by_cases free : fs.pages k = none
    · exact .inr (by rw [before k lower free, bne_self_eq_false])
    · exact .inl (Option.isNone_eq_false_iff.mpr (Option.isSome_iff_ne_none.mpr free))
  rw [List.take_one, head]
  rfl

/-- Zeros in, zeros out. -/
theorem programmed_zeros (offset length : Nat) :
    programmed (fun k => (List.replicate length 0).getD k 0) offset length = List.replicate length 0 := by
  rw [programmed, List.eq_replicate_iff, List.length_map, List.length_range]
  refine ⟨rfl, fun byte member => ?_⟩
  obtain ⟨k, -, rfl⟩ := List.mem_map.mp member
  rw [List.getD_eq_getElem?_getD, List.getElem?_replicate]
  split_ifs <;> rfl

/-- A device with a file of 600 zeros, in two pages. -/
structure TwoPages (fs : Fs) (node : FsNode) : Prop where
  filling : fs.Filling 23
  holds : fs.Holds [node]
  text : node.text = [97]
  inode : (node.inode : Nat) = 0
  file : FileAt fsDatasize fs.extents 0 [0, 1]
  data : fileData fs.extents [0, 1] = List.replicate 600 0

theorem TwoPages.contents {node : FsNode} (pages : TwoPages fs node) :
    fs.Contents (readNode fs 0).inode [0, 1] (List.replicate 600 0) := by
  rw [← pages.data, (pages.holds.readNode rfl).1, pages.inode]
  exact .written pages.file

/-- Creating and writing such a file. -/
theorem exists_twoPages :
    ∃ start fs node, fsInit erasedChip zeroHeap = some (.ok, start) ∧
      Served Op.KeepsChains start fs ∧ TwoPages fs node := by
  obtain ⟨start, started, boots⟩ :=
    fsInit_boots erasedChip zeroHeap (fun _ _ => rfl) rfl rfl rfl rfl rfl
  have erased : nodePage (InodetableNode.decode fun k => erasedChip.buf1 (525 + k)) = none := by decide
  have filling := boots.filling erased fun _ => rfl
  have pages := boots.pages erased
  have new : ((field12 (fsNewInode start) : Fin 4096) : Nat) = 0 := by
    rw [fsNewInode_of_first (Nat.succ_pos 4095) (by rw [pages]) fun k before => absurd before (Nat.not_lt_zero k)]
    rfl
  have unused (after : Fs) (same : after.pages = start.pages) : fsPage after 0 = none := by
    rw [← Fs.pages_eq_none (Nat.succ_pos 4095), same, pages]
  obtain ⟨finds, room, first, index, node, created, filling, same, inside, text, inode, holds⟩ :=
    filling.created [97] (by decide) boots.holds (by simp) (Nat.zero_le 59)
  rw [inode.symm] at new
  obtain rfl : index = 0 := Nat.le_zero.mp inside
  have spare : (first.spare 0).take 1 = [1] :=
    Fs.spare_take_one (by decide) (by rw [same, pages]) (by decide) fun k before _ => Nat.lt_one_iff.mp before
  have two : pagesFor 0 (List.replicate 600 (0 : UInt8)).length = 2 := by
    rw [List.length_replicate]
    rfl
  have enough : 2 ≤ (first.spare 0).length + 1 := by
    have length := congrArg List.length spare
    rw [List.length_take, List.length_singleton] at length
    omega
  obtain ⟨keeps, fs, written, filling, holds, rewrites⟩ := filling.written
    (List.replicate 600 0) (.unwritten (unused first same)) (Nat.succ_pos 4095) holds
    (by rw [two]; decide) (by rw [two]; exact enough)
  rw [two, spare, List.length_replicate, programmed_zeros] at rewrites
  rw [two] at filling
  have proper : start.Proper (field12 (fsNewInode start)) := by
    rw [← inode, new]
    exact .of_unused (unused start rfl)
  refine ⟨start, fs, node, started, (Served.start.step _ ⟨finds, room, proper⟩ created).step _ keeps written,
    filling, holds, ?_, new, rewrites.file, ?_⟩
  · rw [text]
    decide
  · exact (rewrites.data (Nat.zero_le _)).trans (by rw [splice_of_beyond (Nat.zero_le _)]; rfl)

end TwoPages

end Ethersex.Dataflash
