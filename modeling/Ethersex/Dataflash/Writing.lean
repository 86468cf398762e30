import Mathlib
import Ethersex.Dataflash.Reading

/-!
# Writing to files

The loop of `fs_write` puts one page after another in place of the pages of the file, each under an
inode that was not in use, and lets the last of them lead on to what is left of the old file.  It does not
advance `buf`, so that every page begins with the first bytes of the data.
-/

namespace Ethersex.Dataflash

open Library

/-! ## Pages as lists -/

theorem body_length (page : Bytes) (size : Nat) : (body page size).length = size := by
  rw [body, List.length_map, List.length_range]

theorem body_take (page : Bytes) {count size : Nat} (fits : count ≤ size) :
    (body page size).take count = body page count := by
  rw [body, ← List.map_take, List.take_range, Nat.min_eq_left fits, body]

/-- The first bytes of a buffer. -/
def bytesOf (buf : Bytes) (count : Nat) : List UInt8 := (List.range count).map buf

theorem bytesOf_length (buf : Bytes) (count : Nat) : (bytesOf buf count).length = count := by
  rw [bytesOf, List.length_map, List.length_range]

/-- Data written to a page within what it is filled with. -/
theorem body_pageWith {header : FsPage} {offset count size : Nat} {buf old : Bytes}
    (inside : offset + count ≤ size) (fits : size ≤ 512) :
    body (pageWith header offset count buf old) size =
      splice offset (bytesOf buf count) (body old size) := by
  refine List.ext_getElem? fun k => ?_
  rw [getElem?_splice (by rw [body_length]; omega), bytesOf_length]
  rcases Nat.lt_or_ge k size with small | large
  · have data : pageWith header offset count buf old (15 + k) =
        if offset ≤ k ∧ k < offset + count then buf (k - offset) else old (15 + k) := by
      rw [pageWith, overlay_apply (by omega)]
      by_cases written : offset ≤ k ∧ k < offset + count
      · rw [if_pos (by omega), if_pos written, Nat.add_sub_add_left]
      · rw [if_neg (by omega), if_neg written, overlay_of_ge (by decide) (by omega)]
    rw [body, List.getElem?_map, List.getElem?_range small, Option.map_some, data]
    split_ifs with written
    · rw [bytesOf, List.getElem?_map, List.getElem?_range (by omega), Option.map_some]
    · rw [body, List.getElem?_map, List.getElem?_range small, Option.map_some]
  · rw [List.getElem?_eq_none (by rw [body_length]; exact large), if_neg (by omega),
      List.getElem?_eq_none (by rw [body_length]; exact large)]

/-- What the loop of `fs_write` programs from an offset in the first page on: behind the end of a page it
begins again with the first byte. -/
def programmed (buf : Bytes) (offset length : Nat) : List UInt8 :=
  (List.range length).map fun k => buf (if k < 512 - offset then k else (offset + k) % 512)

section Programmed

variable {buf : Bytes} {offset length : Nat}

theorem programmed_of_last (last : length + offset ≤ 512) :
    programmed buf offset length = bytesOf buf length := by
  refine List.map_congr_left fun k member => ?_
  rw [List.mem_range] at member
  rw [if_pos (by omega)]

theorem programmed_of_more (inside : offset ≤ 512) (more : 512 < length + offset) :
    programmed buf offset length =
      bytesOf buf (512 - offset) ++ programmed buf 0 (length - (512 - offset)) := by
  obtain ⟨rest, rfl⟩ : ∃ rest, length = 512 - offset + rest := ⟨length - (512 - offset), by omega⟩
  rw [programmed, List.range_add, List.map_append, List.map_map, Nat.add_sub_cancel_left]
  congr 1
  · refine List.map_congr_left fun k member => ?_
    rw [List.mem_range] at member
    rw [if_pos member]
  · refine List.map_congr_left fun k member => ?_
    simp only [Function.comp_apply]
    rw [if_neg (by omega), show offset + (512 - offset + k) = 512 + k by omega, Nat.add_mod_left]
    split_ifs with small
    · rw [Nat.mod_eq_of_lt (by omega)]
    · rw [Nat.zero_add]

end Programmed

/-! ## The pages of a write -/

section Pages

variable {header : FsPage} {next : Fin 4096} {offset length : Nat} {buf old : Bytes} {eof : Bool}

theorem field16_toNat {size : Nat} (small : size < 65536) : ((field16 size : Fin 65536) : Nat) = size :=
  Nat.mod_eq_of_lt small

/-- A page that is filled up. -/
theorem extentOf_full (inside : offset ≤ 512) :
    extentOf (pageWith (fullHeader header next) offset (512 - offset) buf old) =
      ⟨some next, body old offset ++ bytesOf buf (512 - offset)⟩ := by
  have size : ((fullHeader header next).size : Nat) = 512 := field16_toNat (by decide)
  rw [extentOf, headerOf_pageWith (by omega), size, body_pageWith (by omega) le_rfl,
    splice_of_beyond (by rw [body_length, bytesOf_length]; omega), body_take _ inside]
  rfl

/-- The page in which a write ends. -/
theorem extentOf_last (inside : length + offset ≤ 512) (fits : (header.size : Nat) ≤ 512 ∨ eof = true) :
    extentOf (pageWith (lastHeader header eof (length + offset)) offset length buf old) =
      ⟨if eof || header.eof then none else some header.nextInode,
        splice offset (bytesOf buf length)
          (body old (if eof = true ∨ (header.size : Nat) < length + offset then length + offset
            else header.size))⟩ := by
  have size : ((lastHeader header eof (length + offset)).size : Nat) =
      if eof = true ∨ (header.size : Nat) < length + offset then length + offset else header.size := by
    simp only [lastHeader]
    split_ifs
    · exact field16_toNat (by omega)
    · rfl
  rw [extentOf, headerOf_pageWith (by omega), size, body_pageWith]
  · rfl
  · split_ifs with grows <;> omega
  · split_ifs with grows
    · exact inside
    · exact fits.resolve_right fun ended => grows (.inl ended)

/-- A page of a new file. -/
theorem extentOf_new {size : Nat} (filled : (header.size : Nat) = size) (fits : size ≤ 512) :
    extentOf (pageWith header 0 size buf old) =
      ⟨if header.eof then none else some header.nextInode, bytesOf buf size⟩ := by
  rw [extentOf, headerOf_pageWith (by omega), filled, body_pageWith (by omega) fits,
    splice_of_beyond (by rw [body_length, bytesOf_length]; omega), List.take_zero, List.nil_append]

end Pages

/-! ## The rest of the old file -/

/-- What is left of the old file from a page on: the inodes behind the one of the page, and the data.  Once
the old file has ended, its last page is used again and again, but what it holds does not count. -/
inductive OldTail (fs : Fs) (oldPage : Nat) : (eof : Bool) → (keys : List Nat) → List UInt8 → Prop where
  | ended : (headerOf (fs.chip.flash oldPage)).eof = true → OldTail fs oldPage true [] []
  | last : (headerOf (fs.chip.flash oldPage)).eof = true →
      ((headerOf (fs.chip.flash oldPage)).size : Nat) ≤ 512 →
        OldTail fs oldPage false []
          (body (fs.chip.flash oldPage) (headerOf (fs.chip.flash oldPage)).size)
  | linked {keys : List Nat} : (headerOf (fs.chip.flash oldPage)).eof = false →
      ((headerOf (fs.chip.flash oldPage)).size : Nat) = 512 →
        FileAt fsDatasize fs.extents (headerOf (fs.chip.flash oldPage)).nextInode keys →
          OldTail fs oldPage false keys
            (body (fs.chip.flash oldPage) 512 ++ fileData fs.extents keys)

section Tail

variable {fs after : Fs} {inode page oldPage offset length : Nat} {keys : List Nat} {eof : Bool}
  {content : List UInt8} {buf : Bytes}

theorem OldTail.of_file (file : FileAt fsDatasize fs.extents inode keys)
    (found : fsPage fs inode = some page) :
    OldTail fs page false keys.tail (fileData fs.extents keys) := by
  cases file with
  | @last _ extent held ends fits =>
      have same := Fs.extents_of_page held found
      subst same
      have eof : (headerOf (fs.chip.flash page)).eof = true := by
        by_contra going
        rw [extentOf, if_neg going] at ends
        exact absurd ends (by simp)
      rw [extentOf_length] at fits
      have data : fileData fs.extents [inode] =
          body (fs.chip.flash page) (headerOf (fs.chip.flash page)).size := by
        rw [fileData_cons held, fileData, List.flatMap_nil, List.append_nil, extentOf]
      rw [data]
      exact .last eof fits
  | @link _ next keys extent held names full later =>
      have same := Fs.extents_of_page held found
      subst same
      have eof : (headerOf (fs.chip.flash page)).eof = false := by
        rw [Bool.eq_false_iff]
        intro ended
        rw [extentOf, if_pos ended] at names
        exact absurd names (by simp)
      have same : ((headerOf (fs.chip.flash page)).nextInode : Nat) = next := by
        rw [extentOf, eof] at names
        exact Option.some.inj names
      subst same
      rw [extentOf_length] at full
      have size : ((headerOf (fs.chip.flash page)).size : Nat) = 512 := full
      have data : fileData fs.extents (inode :: keys) =
          body (fs.chip.flash page) 512 ++ fileData fs.extents keys := by
        rw [fileData_cons held, extentOf, size]
      rw [data]
      exact .linked eof size later

/-- The inodes of the rest are in use. -/
theorem OldTail.used (tail : OldTail fs oldPage eof keys content) {other : Nat} (member : other ∈ keys) :
    fs.pages other ≠ none := by
  cases tail with
  | ended => exact absurd member List.not_mem_nil
  | last => exact absurd member List.not_mem_nil
  | linked _ _ later =>
      have held := later.isSome other member
      rw [Fs.extents, Option.isSome_map] at held
      exact Option.isSome_iff_ne_none.mp held

/-- A write that goes on behind the page keeps what is before the offset. -/
theorem OldTail.splice_more (tail : OldTail fs oldPage eof keys content) (inside : offset ≤ 512)
    (before : offset ≤ content.length) {first rest : List UInt8} (full : first.length = 512 - offset) :
    splice offset (first ++ rest) content =
      body (fs.chip.flash oldPage) offset ++ first ++ splice 0 rest (fileData fs.extents keys) := by
  have nothing : splice 0 rest (fileData fs.extents []) = rest := by
    rw [fileData, List.flatMap_nil, splice_of_beyond (by simp)]
    rfl
  cases tail with
  | ended =>
      obtain rfl : offset = 0 := Nat.le_zero.mp before
      rw [nothing, splice_of_beyond (by simp)]
      rfl
  | last _ fits =>
      rw [body_length] at before
      rw [nothing, splice_of_beyond, body_take _ before, List.append_assoc]
      rw [body_length, List.length_append]
      omega
  | linked _ _ later =>
      have reaches : offset + first.length = (body (fs.chip.flash oldPage) 512).length := by
        rw [body_length]
        omega
      rw [splice_append_across reaches, splice_of_beyond (by rw [← reaches]), body_take _ inside]

/-- The header of an old page is the one it had. -/
theorem KeepsPages.readPage {avoid : Nat → Prop} (keeps : KeepsPages avoid fs after) (old : avoid oldPage)
    (oldIn : oldPage < 4096) : readPage after oldPage = headerOf (fs.chip.flash oldPage) := by
  rw [readPage_eq, Nat.mod_eq_of_lt oldIn, keeps oldPage old]

/-- The page that the loop goes on from. -/
def nextOld (after : Fs) (oldPage : Nat) : Nat :=
  if (readPage after oldPage).eof then oldPage
  else (fsPage after (readPage after oldPage).nextInode).getD noPage

/-- After a page was replaced, the rest of the old file begins one page later. -/
theorem OldTail.advance (tail : OldTail fs oldPage eof keys content) {avoid larger : Nat → Prop}
    {count : Nat} {written : Bytes} (puts : PutsPage avoid fs after inode page written)
    (room : Room (fun _ => True) larger count (after.program page written))
    (grows : ∀ number, avoid number → larger number) (apart : inode ∉ keys) (old : avoid oldPage)
    (oldIn : oldPage < 4096) :
    OldTail (after.program page written) (nextOld after oldPage) (eof || (readPage after oldPage).eof)
        keys.tail (fileData fs.extents keys) ∧
      larger (nextOld after oldPage) ∧ nextOld after oldPage < 4096 := by
  have header := puts.before.readPage old oldIn
  have kept : (after.program page written).chip.flash oldPage = fs.chip.flash oldPage :=
    puts.keeps oldPage old
  have again (ended : (headerOf (fs.chip.flash oldPage)).eof = true) :
      OldTail (after.program page written) (nextOld after oldPage) true [] [] ∧
        larger (nextOld after oldPage) ∧ nextOld after oldPage < 4096 := by
    rw [nextOld, header, if_pos ended]
    exact ⟨.ended (kept ▸ ended), grows oldPage old, oldIn⟩
  cases tail with
  | ended ended =>
      rw [Bool.true_or]
      exact again ended
  | last ended _ =>
      rw [header, ended]
      exact again ended
  | linked going _ later =>
      have same (other : Nat) (member : other ∈ keys) :
          (after.program page written).extents other = fs.extents other := by
        have different : other ≠ inode := fun is => apart (is ▸ member)
        rw [Fs.extents, Fs.extents, puts.pages, Function.update_of_ne different]
      obtain ⟨next, found⟩ := exists_page (later.congr same)
      have target : nextOld after oldPage = next := by
        rw [nextOld, header, going, if_neg Bool.false_ne_true, puts.inodes _ (Fin.isLt _), found]
        rfl
      rw [target, header, going, ← fileData_congr same]
      refine ⟨OldTail.of_file (later.congr same) found, room.live _ ?_, fsPage_lt found⟩
      exact .inr (.inr ⟨_, Fin.isLt _, trivial, found⟩)

end Tail

/-! ## The loops -/

/-- An inode has got a new file, which begins with new inodes and goes on with the old ones that are left.
Nothing else has changed. -/
structure Rewrites (fs after : Fs) (inode : Nat) (news keys : List Nat) (offset : Nat)
    (data content : List UInt8) : Prop where
  file : FileAt fsDatasize after.extents inode (inode :: (news ++ keys.drop news.length))
  data : offset ≤ content.length →
    fileData after.extents (inode :: (news ++ keys.drop news.length)) = splice offset data content
  frame : ∀ other, other ≠ inode → other ∉ news → after.pages other = fs.pages other

section Loops

variable {fs middle after : Fs} {avoid : Nat → Prop} {count inode page oldPage offset length : Nat}
  {keys : List Nat} {eof : Bool} {content : List UInt8} {buf written : Bytes}

theorem PutsPage.extents_self (puts : PutsPage avoid fs middle inode page written) :
    (middle.program page written).extents inode = some (extentOf written) := by
  rw [Fs.extents, puts.pages, Function.update_self, Option.map_some]

theorem PutsPage.extents_of_ne (puts : PutsPage avoid fs middle inode page written) {other : Nat}
    (different : other ≠ inode) : (middle.program page written).extents other = fs.extents other := by
  rw [Fs.extents, Fs.extents, puts.pages, Function.update_of_ne different]

/-- The inode that the loop goes on with is the first spare one. -/
structure NextInode (fs middle : Fs) (inode page : Nat) (written : Bytes) (first : Nat) (others : List Nat) :
    Prop where
  new : fsNewInode middle = some first
  number : ((field12 (some first) : Fin 4096) : Nat) = first
  spare : (middle.program page written).spare first = others
  unused : fs.pages first = none
  apart : inode ≠ first
  outside : inode ∉ others

theorem PutsPage.nextInode (puts : PutsPage avoid fs middle inode page written) {first : Nat}
    {others : List Nat} (spare : fs.spare inode = first :: others) :
    NextInode fs middle inode page written first others := by
  have member (other : Nat) (within : other ∈ first :: others) := Fs.mem_spare.mp (spare ▸ within)
  obtain ⟨small, unused, apart⟩ := member first List.mem_cons_self
  refine ⟨?_, Nat.mod_eq_of_lt small, Fs.spare_of_put puts.pages spare, unused, Ne.symm apart, fun within => ?_⟩
  · rw [fsNewInode_congr puts.inodes, fsNewInode_of_put puts.pages, spare, List.head?_cons]
  · exact (member inode (List.mem_cons_of_mem first within)).2.2 rfl

/-- A file that needs another page needs an inode for it. -/
theorem spare_cons {steps : Nat} (enough : steps + 1 + 1 ≤ (fs.spare inode).length + 1) :
    ∃ first others, fs.spare inode = first :: others ∧ steps + 1 ≤ others.length + 1 := by
  cases spare : fs.spare inode with
  | nil =>
      rw [spare, List.length_nil] at enough
      omega
  | cons first others =>
      rw [spare, List.length_cons] at enough
      exact ⟨first, others, rfl, by omega⟩

/-- The write ends in a page. -/
theorem OldTail.finish (tail : OldTail fs oldPage eof keys content) (apart : inode ∉ keys)
    (inside : length + offset ≤ 512)
    (puts : PutsPage avoid fs middle inode page
      (pageWith (lastHeader (headerOf (fs.chip.flash oldPage)) eof (length + offset)) offset length buf
        (fs.chip.flash oldPage))) :
    Rewrites fs (middle.program page
      (pageWith (lastHeader (headerOf (fs.chip.flash oldPage)) eof (length + offset)) offset length buf
        (fs.chip.flash oldPage))) inode [] keys offset (programmed buf offset length) content := by
  have own := puts.extents_self
  have others (other : Nat) (member : other ∈ keys) := puts.extents_of_ne
    (show other ≠ inode from fun is => apart (is ▸ member))
  have frame (other : Nat) (different : other ≠ inode) (_ : other ∉ []) :=
    (congrFun puts.pages other).trans (Function.update_of_ne different _ _)
  generalize after : middle.program page _ = after at own others frame
  rw [programmed_of_last inside]
  cases tail with
  | ended ended =>
      rw [extentOf_last inside (.inr rfl), Bool.true_or, if_pos rfl, if_pos (.inl rfl)] at own
      have size : (splice offset (bytesOf buf length)
          (body (fs.chip.flash oldPage) (length + offset))).length = length + offset := by
        rw [length_splice (by rw [body_length]; omega), body_length, bytesOf_length]
        omega
      refine ⟨.last own rfl (size.trans_le inside), fun before => ?_, frame⟩
      obtain rfl : offset = 0 := Nat.le_zero.mp before
      rw [List.drop_nil, List.append_nil, fileData_cons own, fileData, List.flatMap_nil, List.append_nil,
        splice_of_beyond (by rw [body_length, bytesOf_length]; omega), splice_of_beyond (by simp)]
      rfl
  | last ended fits =>
      rw [extentOf_last inside (.inl fits), ended, Bool.or_true, if_pos rfl] at own
      simp only [Bool.false_eq_true, false_or] at own
      have size : (splice offset (bytesOf buf length) (body (fs.chip.flash oldPage)
          (if ((headerOf (fs.chip.flash oldPage)).size : Nat) < length + offset then length + offset
            else (headerOf (fs.chip.flash oldPage)).size))).length ≤ 512 := by
        split_ifs
        · rw [length_splice (by rw [body_length]; omega), body_length, bytesOf_length]
          omega
        · rw [length_splice (by rw [body_length]; omega), body_length, bytesOf_length]
          omega
      refine ⟨.last own rfl size, fun before => ?_, frame⟩
      rw [body_length] at before
      rw [List.drop_nil, List.append_nil, fileData_cons own, fileData, List.flatMap_nil, List.append_nil]
      split_ifs with grows
      · rw [splice_of_beyond (by rw [body_length, bytesOf_length]; omega),
          splice_of_beyond (by rw [body_length, bytesOf_length]; omega), body_take _ (by omega),
          body_take _ before]
      · rfl
  | linked going full later =>
      rw [extentOf_last inside (.inl full.le), going, Bool.or_self, if_neg Bool.false_ne_true,
        if_neg (by simp only [Bool.false_eq_true, false_or]; omega), full] at own
      have size : (splice offset (bytesOf buf length) (body (fs.chip.flash oldPage) 512)).length = 512 := by
        rw [length_splice (by rw [body_length]; omega), body_length, bytesOf_length]
        omega
      refine ⟨.link own rfl size (later.congr others), fun _ => ?_, frame⟩
      rw [List.nil_append, List.length_nil, List.drop_zero, fileData_cons own, fileData_congr others,
        splice_append_left (by rw [body_length, bytesOf_length]; omega)]

/-- A page that is filled up, in front of what the loop writes afterwards. -/
theorem Rewrites.cons {next : Nat} {news : List Nat} {first rest : List UInt8}
    (puts : PutsPage avoid fs middle inode page written)
    (extent : extentOf written = ⟨some next, first⟩) (full : first.length = 512)
    (apart : inode ≠ next ∧ inode ∉ news)
    (rewrites : Rewrites (middle.program page written) after next news keys.tail 0 rest
      (fileData fs.extents keys)) :
    FileAt fsDatasize after.extents inode (inode :: (next :: news ++ keys.drop (next :: news).length)) ∧
      fileData after.extents (inode :: (next :: news ++ keys.drop (next :: news).length)) =
        first ++ splice 0 rest (fileData fs.extents keys) ∧
      ∀ other, other ≠ inode → other ∉ next :: news → after.pages other = fs.pages other := by
  have held : after.extents inode = some ⟨some next, first⟩ := by
    rw [Fs.extents, rewrites.frame inode apart.1 apart.2]
    exact puts.extents_self.trans (congrArg some extent)
  rw [List.length_cons, List.cons_append, ← List.drop_tail]
  refine ⟨.link held rfl full rewrites.file, ?_, fun other different outside => ?_⟩
  · rw [fileData_cons held, rewrites.data (Nat.zero_le _)]
  · rw [List.mem_cons, not_or] at outside
    rw [rewrites.frame other outside.1 outside.2, puts.pages, Function.update_of_ne different]

/-- The loop of `fs_write` for a file with data. -/
theorem writeOver_file (room : Room (fun _ => True) avoid (count + 3 * pagesFor offset length) fs)
    (small : inode < 4096) (old : avoid oldPage) (oldIn : oldPage < 4096) (inside : offset ≤ 512)
    (enough : pagesFor offset length ≤ (fs.spare inode).length + 1)
    (tail : OldTail fs oldPage eof keys content) (apart : inode ∉ keys)
    (done : writeOver buf inode oldPage eof offset length fs = (.ok, after)) :
    Rewrites fs after inode ((fs.spare inode).take (pagesFor offset length - 1)) keys offset
      (programmed buf offset length) content := by
  generalize pages : pagesFor offset length = steps at room enough ⊢
  induction steps generalizing fs avoid inode oldPage eof offset length keys content with
  | zero => exact absurd pages (Nat.succ_ne_zero _)
  | succ steps ih =>
      cases found : fs.next fs.lastFree with
      | none =>
          rw [writeOver_of_full found] at done
          exact absurd (Prod.ext_iff.mp done).1 (by simp)
      | some page =>
          cases updated : fsUpdateInodetable inode (some page) (fs.handOut page) with
          | mk status middle =>
              by_cases good : status = .ok
              · subst good
                have space : Room (fun _ => True) avoid (count + 3 * steps + 3) fs := room.mono (by omega)
                have step := space.pages_step small found updated
                rw [writeOver_of_page found updated inside] at done
                have header := (step (fun _ => 0)).1.before.readPage old oldIn
                have content_eq : middle.chip.flash (oldPage % 4096) = fs.chip.flash oldPage := by
                  rw [Nat.mod_eq_of_lt oldIn]
                  exact (step fun _ => 0).1.before oldPage old
                rw [content_eq] at done
                by_cases more : 512 < length + offset
                · have rest : pagesFor 0 (length - (512 - offset)) = steps := by
                    simp only [pagesFor] at pages ⊢
                    omega
                  obtain ⟨steps, rfl⟩ : ∃ fewer, steps = fewer + 1 := ⟨steps - 1, by
                    rw [← rest, pagesFor, Nat.add_sub_cancel]⟩
                  obtain ⟨first, others, spare, enoughLater⟩ := spare_cons enough
                  have next := (step fun _ => 0).1.nextInode spare
                  rw [if_pos more, header, next.new] at done
                  obtain ⟨puts, table, newRoot, later⟩ := step (pageWith
                    (fullHeader (headerOf (fs.chip.flash oldPage)) (field12 (some first))) offset
                    (512 - offset) buf (fs.chip.flash oldPage))
                  obtain ⟨tailLater, oldLater, oldLaterIn⟩ := tail.advance puts later
                    (fun _ avoided => .inl (.inl (.inl avoided))) apart old oldIn
                  rw [nextOld, header] at tailLater oldLater oldLaterIn
                  have outside : first ∉ keys.tail := fun member =>
                    tail.used (List.mem_of_mem_tail member) next.unused
                  have spareLater := (puts.nextInode spare).spare
                  have rewrites := ih (Fin.isLt _) oldLater oldLaterIn (Nat.zero_le 512) tailLater
                    (next.number.symm ▸ outside) done rest later
                    (by rw [next.number, spareLater]; exact enoughLater)
                  rw [next.number, spareLater] at rewrites
                  have extent := @extentOf_full (headerOf (fs.chip.flash oldPage))
                    (field12 (some first)) offset buf (fs.chip.flash oldPage) inside
                  rw [next.number] at extent
                  have full : (body (fs.chip.flash oldPage) offset ++ bytesOf buf (512 - offset)).length =
                      512 := by
                    rw [List.length_append, body_length, bytesOf_length]
                    omega
                  obtain ⟨file, data, frame⟩ := Rewrites.cons puts extent full
                    ⟨next.apart, fun member => next.outside (List.mem_of_mem_take member)⟩ rewrites
                  rw [spare]
                  refine ⟨file, fun before => ?_, frame⟩
                  rw [programmed_of_more inside more,
                    tail.splice_more inside before (bytesOf_length buf (512 - offset))]
                  exact data
                · have single : steps = 0 := by
                    simp only [pagesFor] at pages
                    omega
                  rw [if_neg more, header] at done
                  obtain rfl := (Prod.ext_iff.mp done).2
                  rw [single]
                  exact tail.finish apart (Nat.not_lt.mp more) (step _).1
              · rw [writeOver_of_failed found updated good] at done
                exact absurd (Prod.ext_iff.mp done).1 good

/-- The loop of `fs_write` for a file without data. -/
theorem writeNew_file {header : FsPage} (room : Room (fun _ => True) avoid (count + 3 * pagesFor 0 length) fs)
    (small : inode < 4096) (enough : pagesFor 0 length ≤ (fs.spare inode).length + 1)
    (done : writeNew buf header inode length fs = (.ok, after)) :
    Rewrites fs after inode ((fs.spare inode).take (pagesFor 0 length - 1)) [] 0
      (programmed buf 0 length) [] := by
  generalize pages : pagesFor 0 length = steps at room enough ⊢
  induction steps generalizing fs avoid inode length header with
  | zero => exact absurd pages (Nat.succ_ne_zero _)
  | succ steps ih =>
      cases found : fs.next fs.lastFree with
      | none =>
          rw [writeNew_of_full found] at done
          exact absurd (Prod.ext_iff.mp done).1 (by simp)
      | some page =>
          cases updated : fsUpdateInodetable inode (some page) (fs.handOut page) with
          | mk status middle =>
              by_cases good : status = .ok
              · subst good
                have space : Room (fun _ => True) avoid (count + 3 * steps + 3) fs := room.mono (by omega)
                have step := space.pages_step small found updated
                rw [writeNew_of_page found updated] at done
                by_cases more : 512 < length
                · have rest : pagesFor 0 (length - 512) = steps := by
                    simp only [pagesFor] at pages ⊢
                    omega
                  obtain ⟨steps, rfl⟩ : ∃ fewer, steps = fewer + 1 := ⟨steps - 1, by
                    rw [← rest, pagesFor, Nat.add_sub_cancel]⟩
                  obtain ⟨first, others, spare, enoughLater⟩ := spare_cons enough
                  have next := (step fun _ => 0).1.nextInode spare
                  rw [if_pos more, next.new] at done
                  obtain ⟨puts, table, newRoot, later⟩ := step (pageWith
                    (newFullHeader header (field12 (some first))) 0 512 buf middle.chip.buf1)
                  have spareLater := (puts.nextInode spare).spare
                  have rewrites := ih (Fin.isLt _) done rest later
                    (by rw [next.number, spareLater]; exact enoughLater)
                  rw [next.number, spareLater] at rewrites
                  have extent : extentOf (pageWith (newFullHeader header (field12 (some first))) 0 512 buf
                      middle.chip.buf1) = ⟨some first, bytesOf buf 512⟩ := by
                    rw [extentOf_new (field16_toNat (by decide)) le_rfl,
                      show (newFullHeader header (field12 (some first))).eof = false from rfl,
                      if_neg Bool.false_ne_true,
                      show (newFullHeader header (field12 (some first))).nextInode = field12 (some first) from
                        rfl, next.number]
                  have behind : Rewrites _ after first (others.take steps) ([] : List Nat).tail 0
                    (programmed buf 0 (length - 512)) (fileData fs.extents []) := rewrites
                  obtain ⟨file, data, frame⟩ := Rewrites.cons puts extent (bytesOf_length buf 512)
                    ⟨next.apart, fun member => next.outside (List.mem_of_mem_take member)⟩ behind
                  rw [spare]
                  refine ⟨file, fun _ => data.trans ?_, frame⟩
                  rw [programmed_of_more (Nat.zero_le 512) more, fileData, List.flatMap_nil,
                    splice_of_beyond (Nat.zero_le _), splice_of_beyond (Nat.zero_le _), List.take_nil,
                    List.nil_append, List.nil_append]
                · have single : steps = 0 := by
                    simp only [pagesFor] at pages
                    omega
                  rw [if_neg more] at done
                  obtain rfl := (Prod.ext_iff.mp done).2
                  obtain ⟨puts, -⟩ := step (pageWith (newLastHeader header length) 0 length buf middle.chip.buf1)
                  have own := puts.extents_self
                  rw [extentOf_new (field16_toNat (by omega)) (Nat.not_lt.mp more),
                    show (newLastHeader header length).eof = true from rfl, if_pos rfl] at own
                  rw [single, programmed_of_last (Nat.not_lt.mp more)]
                  refine ⟨.last own rfl ?_, fun _ => ?_, fun other different _ => ?_⟩
                  · exact (bytesOf_length buf length).trans_le (Nat.not_lt.mp more)
                  · rw [List.drop_nil, List.append_nil]
                    change fileData _ [inode] = _
                    rw [fileData_cons own, fileData, List.flatMap_nil, List.append_nil,
                      splice_of_beyond (Nat.zero_le _), List.take_nil, List.nil_append]
                  · exact (congrFun puts.pages other).trans (Function.update_of_ne different _ _)
              · rw [writeNew_of_failed found updated good] at done
                exact absurd (Prod.ext_iff.mp done).1 good

end Loops

/-! ## Files after a write -/

section Files

variable {fs after : Fs} {inode target other offset steps count : Nat} {news keys front rest : List Nat}
  {data content : List UInt8} {avoid : Nat → Prop}

theorem unused_of_take (member : other ∈ (fs.spare inode).take steps) : fs.pages other = none :=
  (Fs.mem_spare.mp (List.mem_of_mem_take member)).2.1

theorem used_of_file (file : FileAt fsDatasize fs.extents inode keys) (member : other ∈ keys) :
    fs.pages other ≠ none := by
  have held := file.isSome other member
  rw [Fs.extents, Option.isSome_map] at held
  exact Option.isSome_iff_ne_none.mp held

/-- Inodes in use other than the one written to keep what they hold. -/
theorem Rewrites.extents (rewrites : Rewrites fs after target news keys offset data content)
    (unused : ∀ new ∈ news, fs.pages new = none) (used : fs.pages other ≠ none)
    (different : other ≠ target) : after.extents other = fs.extents other := by
  rw [Fs.extents, Fs.extents, rewrites.frame other different fun member => used (unused other member)]

/-- A file without the inode that was written to is as before. -/
theorem Rewrites.elsewhere (rewrites : Rewrites fs after target news keys offset data content)
    (unused : ∀ new ∈ news, fs.pages new = none) (file : FileAt fsDatasize fs.extents inode rest)
    (apart : target ∉ rest) :
    FileAt fsDatasize after.extents inode rest ∧ fileData after.extents rest = fileData fs.extents rest := by
  have same (key : Nat) (member : key ∈ rest) : after.extents key = fs.extents key :=
    rewrites.extents unused (used_of_file file member) fun is => apart (is ▸ member)
  exact ⟨file.congr same, fileData_congr same⟩

/-- A file with the inode that was written to keeps what is in front of it. -/
theorem Rewrites.within (rewrites : Rewrites fs after target news keys offset data content)
    (unused : ∀ new ∈ news, fs.pages new = none)
    (file : FileAt fsDatasize fs.extents inode (front ++ target :: rest)) :
    FileAt fsDatasize after.extents inode (front ++ target :: (news ++ keys.drop news.length)) ∧
      fileData after.extents (front ++ target :: (news ++ keys.drop news.length)) =
        fileData fs.extents front ++ fileData after.extents (target :: (news ++ keys.drop news.length)) := by
  have nodup := file.nodup
  have same (key : Nat) (member : key ∈ front) : after.extents key = fs.extents key := by
    refine rewrites.extents unused (used_of_file file (List.mem_append_left _ member)) ?_
    rintro rfl
    exact (List.nodup_append.mp nodup).2.2 key member key List.mem_cons_self rfl
  rw [fileData_append, fileData_congr same]
  exact ⟨(file.split.1.congr same).append rewrites.file, rfl⟩

/-- Where the seek loop of `fs_write` arrives in a file. -/
theorem seekWrite_file (file : FileAt fsDatasize fs.extents inode keys) {page : Nat} (offset : Nat)
    (found : fsPage fs inode = some page) :
    (seekWrite fs inode page offset = .error .badSeek ∧ (fileData fs.extents keys).length < offset) ∨
      ∃ front target rest targetPage, keys = front ++ target :: rest ∧
        fsPage fs target = some targetPage ∧
        seekWrite fs inode page offset = .ok (target, targetPage, offset - 512 * front.length) ∧
        512 * front.length ≤ offset ∧ offset - 512 * front.length ≤ 512 ∧
        (front = [] ∨ 512 * front.length < offset) := by
  have size : fsDatasize = 512 := rfl
  induction file generalizing page offset with
  | @last key extent held ends fits =>
      rcases Nat.lt_or_ge 512 offset with beyond | inside
      · refine .inl ⟨?_, ?_⟩
        · have eof : (readPage fs page).eof = true := by
            rw [Fs.eof_of_page held found, ends, Option.isNone_none]
          rw [seekWrite, if_pos (show offset > fsDatasize from beyond)]
          dsimp only
          rw [if_pos eof]
        · rw [fileData_cons held, fileData, List.flatMap_nil, List.append_nil]
          omega
      · refine .inr ⟨[], key, [], page, rfl, found, ?_, Nat.zero_le _, inside, .inl rfl⟩
        rw [seekWrite, if_neg (show ¬offset > fsDatasize from Nat.not_lt.mpr inside)]
        rfl
  | @link key next keys extent held names full later ih =>
      rcases Nat.lt_or_ge 512 offset with beyond | inside
      · have eof : (readPage fs page).eof = false := by
          rw [Fs.eof_of_page held found, names, Option.isNone_some]
        obtain ⟨nextPage, nextFound⟩ := exists_page later
        have step : seekWrite fs key page offset = seekWrite fs next nextPage (offset - 512) := by
          rw [seekWrite, if_pos (show offset > fsDatasize from beyond)]
          dsimp only
          rw [eof, if_neg Bool.false_ne_true, Fs.next_of_page held found names, nextFound]
          rfl
        rw [step]
        obtain ⟨bad, short⟩ | ⟨front, target, rest, targetPage, rfl, targetFound, reached, lower, upper,
          least⟩ := ih (offset - 512) nextFound
        · refine .inl ⟨bad, ?_⟩
          rw [fileData_cons held, List.length_append, full]
          omega
        · refine .inr ⟨key :: front, target, rest, targetPage, rfl, targetFound, ?_, ?_, ?_, .inr ?_⟩
          · rw [reached, List.length_cons,
              show offset - 512 - 512 * front.length = offset - 512 * (front.length + 1) by omega]
          · rw [List.length_cons]
            omega
          · rw [List.length_cons]
            omega
          · rw [List.length_cons]
            obtain rfl | least := least
            · rw [List.length_nil]
              omega
            · omega
      · refine .inr ⟨[], key, keys, page, rfl, found, ?_, Nat.zero_le _, inside, .inl rfl⟩
        rw [seekWrite, if_neg (show ¬offset > fsDatasize from Nat.not_lt.mpr inside)]
        rfl

/-- The part of a file from the inode on that a write goes to. -/
inductive WritePoint (fs : Fs) (inode : Nat) (inodes : List Nat) (content : List UInt8) (offset : Nat) :
    (front : List Nat) → (target : Nat) → (rest : List Nat) → Prop where
  | unwritten : fsPage fs inode = none → inodes = [] → content = [] → offset = 0 →
      WritePoint fs inode inodes content offset [] inode []
  | written {front rest : List Nat} {target : Nat} : inodes = front ++ target :: rest →
      FileAt fsDatasize fs.extents inode inodes → content = fileData fs.extents inodes →
        512 * front.length ≤ offset → offset - 512 * front.length ≤ 512 →
          WritePoint fs inode inodes content offset front target rest

/-- What `fs_write` does to a file. -/
theorem fsWrite_rewrites {bytes : List UInt8} {inodes : List Nat}
    (contents : fs.Contents inode inodes content) (small : inode < 4096)
    (room : Room (fun _ => True) avoid (count + 3 * writePages fs inode offset bytes.length) fs)
    (enough : writePages fs inode offset bytes.length ≤ (fs.spare inode).length + 1)
    (done : fsWrite inode bytes offset fs = (.ok, after)) :
    ∃ front target rest, WritePoint fs inode inodes content offset front target rest ∧
      Rewrites fs after target ((fs.spare inode).take (writePages fs inode offset bytes.length - 1)) rest
        (offset - 512 * front.length)
        (programmed (fun k => bytes.getD k 0) (offset - 512 * front.length) bytes.length)
        (fileData fs.extents (if inodes = [] then [] else target :: rest)) := by
  cases contents with
  | unwritten unused =>
      rw [fsWrite, unused] at done
      dsimp only at done
      by_cases start : offset = 0
      · rw [if_neg (not_not.mpr start)] at done
        have pages : writePages fs inode offset bytes.length = pagesFor 0 bytes.length := by
          rw [writePages, unused]
          exact if_neg (not_not.mpr start)
        rw [pages] at room enough ⊢
        refine ⟨[], inode, [], .unwritten unused rfl rfl start, ?_⟩
        subst start
        exact writeNew_file room small enough done
      · rw [if_pos start] at done
        exact absurd (Prod.ext_iff.mp done).1 (by simp)
  | written file =>
      obtain ⟨page, found⟩ := exists_page file
      rw [fsWrite, found] at done
      dsimp only at done
      obtain ⟨bad, -⟩ | ⟨front, target, rest, targetPage, rfl, targetFound, reached, lower, upper, -⟩ :=
        seekWrite_file file offset found
      · rw [bad] at done
        exact absurd (Prod.ext_iff.mp done).1 (by simp)
      · rw [reached] at done
        dsimp only at done
        have pages : writePages fs inode offset bytes.length =
            pagesFor (offset - 512 * front.length) bytes.length := by
          have arrived := (seekWrite_bounds small reached).2
          rw [writePages, found]
          dsimp only
          rw [reached, ← arrived]
        rw [pages] at room enough ⊢
        obtain ⟨leads, later⟩ := file.split
        have targetIn : target < 4096 := (seekWrite_bounds small reached).1
        have member : target ∈ front ++ target :: rest := List.mem_append_right front List.mem_cons_self
        have same : fs.spare inode = fs.spare target :=
          Fs.spare_of_used (used_of_file file (by obtain ⟨_, is⟩ := file.eq_cons; simp [is]))
            (used_of_file file member)
        have live : avoid targetPage := room.live _ (.inr (.inr ⟨target, targetIn, trivial, targetFound⟩))
        refine ⟨front, target, rest, .written rfl file rfl lower upper, ?_⟩
        rw [if_neg (List.ne_nil_of_mem member), same]
        rw [same] at enough
        exact writeOver_file room targetIn live (fsPage_lt targetFound) upper enough
          (OldTail.of_file later targetFound) (List.nodup_cons.mp later.nodup).1 done

end Files

end Ethersex.Dataflash
