import Mathlib
import Ethersex.Dataflash.Safety
import Ethersex.Dataflash.Writing

/-!
# Truncating files

`fs_truncate` seeks the page in which the new end lies and ends the file there.  A page that is exactly
filled by the new length it takes for the last one, whether it is or not.
-/

namespace Ethersex.Dataflash

open Library

section Truncate

variable {fs after : Fs} {inode target length count : Nat} {inodes keys front rest : List Nat}
  {content : List UInt8} {avoid : Nat → Prop}

/-- In a file that ends, the seek loop of `fs_truncate` is that of `fs_write`. -/
theorem seekTruncate_file (file : FileAt fsDatasize fs.extents inode inodes) {page : Nat}
    (found : fsPage fs inode = some page) (length : Nat) :
    seekTruncate fs inode page length = seekWrite fs inode page length := by
  induction file generalizing page length with
  | @last key extent held ends fits =>
      have eof : (readPage fs page).eof = true := by
        rw [Fs.eof_of_page held found, ends, Option.isNone_none]
      rw [seekTruncate, seekWrite]
      simp only [eof, if_true]
  | @link key next keys extent held names full later ih =>
      have eof : (readPage fs page).eof = false := by
        rw [Fs.eof_of_page held found, names, Option.isNone_some]
      obtain ⟨nextPage, nextFound⟩ := exists_page later
      rw [seekTruncate, seekWrite]
      simp only [eof, Bool.false_eq_true, if_false, Fs.next_of_page held found names, nextFound,
        Option.getD_some, ih nextFound]

/-- The page in which the file is cut keeps its first bytes. -/
theorem extentOf_cut {header : FsPage} {old : Bytes} {filled : Nat} (small : filled ≤ 512) :
    extentOf (pageWith (cutHeader header filled) 0 0 (fun _ => 0) old) = ⟨none, body old filled⟩ := by
  rw [extentOf, headerOf_pageWith (by omega)]
  have size : ((cutHeader header filled).size : Nat) = filled := field16_toNat (by omega)
  rw [size, body_pageWith (Nat.zero_le _) small]
  rfl

/-- Ending a file in the page of an inode. -/
theorem Rewrites.of_cut (room : Room (fun _ => True) avoid (count + 3) fs) (small : target < 4096)
    {page newPage filled : Nat} {extent : Extent Nat UInt8} {middle : Fs}
    (held : fs.extents target = some extent) (targetFound : fsPage fs target = some page)
    (shorter : filled < extent.data.length) (fits : extent.data.length ≤ 512)
    (found : fs.next fs.lastFree = some newPage)
    (updated : fsUpdateInodetable target (some newPage) (fs.handOut newPage) = (.ok, middle)) :
    Rewrites fs (middle.program newPage (pageWith (cutHeader (readPage middle page) filled) 0 0
      (fun _ => 0) (middle.chip.flash (page % 4096)))) target [] [] 0 (extent.data.take filled) [] := by
  have old : avoid page := room.live _ (.inr (.inr ⟨target, small, trivial, targetFound⟩))
  have step := room.pages_step small found updated
  have kept : middle.chip.flash (page % 4096) = fs.chip.flash page := by
    rw [Nat.mod_eq_of_lt (fsPage_lt targetFound)]
    exact (step fun _ => 0).1.before page old
  rw [kept]
  obtain ⟨puts, -⟩ := step (pageWith (cutHeader (readPage middle page) filled) 0 0 (fun _ => 0)
    (fs.chip.flash page))
  have own := puts.extents_self
  rw [extentOf_cut (by omega)] at own
  have taken : extent.data.take filled = body (fs.chip.flash page) filled := by
    rw [← Fs.extents_of_page held targetFound, extentOf, body_take]
    rw [← Fs.extents_of_page held targetFound, extentOf_length] at shorter
    exact shorter.le
  refine ⟨.last own rfl ?_, fun _ => ?_, fun other different _ => ?_⟩
  · rw [body_length]
    exact shorter.le.trans fits
  · rw [List.drop_nil, List.append_nil, fileData_cons own, fileData, List.flatMap_nil, List.append_nil, taken,
      splice_of_beyond (Nat.zero_le _), List.take_nil, List.nil_append]
  · exact (congrFun puts.pages other).trans (Function.update_of_ne different _ _)

/-- A file that is cut in one of its pages. -/
theorem Rewrites.cut {data : List UInt8} (rewrites : Rewrites fs after target [] [] 0 data [])
    (file : FileAt fsDatasize fs.extents inode (front ++ target :: rest)) :
    FileAt fsDatasize after.extents inode (front ++ [target]) ∧
      fileData after.extents (front ++ [target]) = fileData fs.extents front ++ data := by
  obtain ⟨file', whole⟩ := rewrites.within (fun new member => absurd member List.not_mem_nil) file
  have own : fileData after.extents [target] = data := by
    refine (rewrites.data (Nat.zero_le _)).trans ?_
    rw [splice_of_beyond (Nat.zero_le _)]
    rfl
  refine ⟨file', whole.trans ?_⟩
  rw [← own]
  rfl

/-- What `fs_truncate` does to a file with a content. -/
theorem fsTruncate_file (file : FileAt fsDatasize fs.extents inode inodes)
    (room : Room (fun _ => True) avoid (count + 3 * truncatePages fs inode length) fs) :
    ((fileData fs.extents inodes).length < length → fsTruncate inode length fs = (.badSeek, fs)) ∧
    (length ≤ (fileData fs.extents inodes).length →
      length = (fileData fs.extents inodes).length ∨ length % 512 = 0 ∧ 0 < length →
        fsTruncate inode length fs = (.ok, fs)) ∧
    (length < (fileData fs.extents inodes).length → (length % 512 = 0 → length = 0) →
      ∃ front target rest extent, inodes = front ++ target :: rest ∧ front.length = length / 512 ∧
        fs.extents target = some extent ∧ length % 512 < extent.data.length ∧
        (fileData fs.extents inodes).take length =
          fileData fs.extents front ++ extent.data.take (length % 512) ∧
        ∀ after, fsTruncate inode length fs = (.ok, after) →
          Rewrites fs after target [] [] 0 (extent.data.take (length % 512)) []) := by
  obtain ⟨page, found⟩ := exists_page file
  obtain ⟨bad, short⟩ | ⟨front, target, rest, targetPage, rfl, targetFound, reached, lower, upper, least⟩ :=
    seekWrite_file file length found
  · refine ⟨fun _ => ?_, fun fits => absurd fits (Nat.not_le.mpr short),
      fun inside => absurd inside (Nat.lt_asymm short)⟩
    rw [fsTruncate, found]
    dsimp only
    rw [seekTruncate_file file found, bad]
  · obtain ⟨leads, later⟩ := file.split
    obtain ⟨extent, held, size⟩ := later.first
    rw [show fsDatasize = 512 from rfl] at size
    have total : (fileData fs.extents (front ++ target :: rest)).length =
        512 * front.length + (fileData fs.extents (target :: rest)).length := by
      rw [fileData_append, List.length_append, leads.length_fileData]
      rfl
    have pageSize := Fs.size_of_page held targetFound
    have least : front.length = 0 ∨ 512 * front.length < length :=
      least.imp (fun none => by rw [none, List.length_nil]) id
    have sought : seekTruncate fs inode page length = .ok (target, targetPage, length - 512 * front.length) := by
      rw [seekTruncate_file file found, reached]
    refine ⟨fun beyond => ?_, fun fits stops => ?_, fun inside cuts => ?_⟩
    · rw [fsTruncate, found]
      dsimp only
      rw [sought]
      dsimp only
      rw [if_pos (by omega)]
    · rw [fsTruncate, found]
      dsimp only
      rw [sought]
      dsimp only
      rw [if_neg (by omega), if_pos (by omega)]
    · have target_lt : target < 4096 := (Fs.extents_eq_some.mp held).1
      have filled : length - 512 * front.length = length % 512 := by omega
      have shorter : length % 512 < extent.data.length := by omega
      refine ⟨front, target, rest, extent, rfl, by omega, held, shorter, ?_, fun after done => ?_⟩
      · rw [fileData_append, List.take_append, leads.length_fileData, fileData_cons held,
          List.take_of_length_le (by rw [leads.length_fileData, show fsDatasize = 512 from rfl]; omega),
          show fsDatasize = 512 from rfl, filled, List.take_append_of_le_length shorter.le]
      · rw [filled] at sought
        have shorterPage : length % 512 < (readPage fs targetPage).size := pageSize ▸ shorter
        have pages : truncatePages fs inode length = 1 := by
          rw [truncatePages, found]
          dsimp only
          rw [sought]
          exact if_pos shorterPage
        rw [pages] at room
        cases next : fs.next fs.lastFree with
        | none =>
            rw [fsTruncate, found] at done
            dsimp only at done
            rw [sought] at done
            dsimp only at done
            rw [if_neg (by omega), if_neg (by omega), fsNewPage_of_full next] at done
            exact absurd (Prod.ext_iff.mp done).1 (by simp)
        | some newPage =>
            cases updated : fsUpdateInodetable target (some newPage) (fs.handOut newPage) with
            | mk status middle =>
                by_cases good : status = .ok
                · subst good
                  rw [fsTruncate_of_page found sought shorterPage next updated] at done
                  obtain rfl := (Prod.ext_iff.mp done).2
                  exact .of_cut room target_lt held targetFound shorter (by omega) next updated
                · rw [fsTruncate_of_failed found sought shorterPage next updated good] at done
                  exact absurd (Prod.ext_iff.mp done).1 good

end Truncate

end Ethersex.Dataflash
