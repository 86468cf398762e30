import Mathlib
import Ethersex.Eeprom.Writing

/-!
# Runs of the EEPROM file system

Calls on any number of handles in any order, from a freshly formatted EEPROM on.  Handles
keep pointing to file pages, since no file ever leaves the list; a handle to a file that
was created again may have an offset behind its end.
-/

namespace Ethersex.Eeprom

open Library

/-! ## Runs -/

/-- The EEPROM and the open handles. -/
structure State where
  eeprom : Device
  handles : List Handle

/-- A buffer in a memory with 16-bit addresses. -/
abbrev Buffer := { data : List UInt8 // data.length < 65536 }

/-- The calls; a handle is named by its index. -/
inductive Op where
  | create (name : List UInt8) (memory : Bool)
  | openFile (name : List UInt8) (memory : Bool)
  | write (index : Nat) (data : Buffer)
  | read (index size : Nat) (behind : Bytes)
  | seek (index offset : Nat) (whence : Whence)
  | close (index : Nat)

/-- A call; `none` if it does not return.  Without a handle, calls do nothing. -/
def step (op : Op) (s : State) : Option State :=
  match op with
  | .create name memory => do
      let (eeprom, handle) ← vfsEepromCreate name memory s.eeprom
      some ⟨eeprom, s.handles ++ handle.toList⟩
  | .openFile name memory => do
      let handle ← vfsEepromOpen name memory s.eeprom
      some { s with handles := s.handles ++ handle.toList }
  | .write index data =>
      match s.handles[index]? with
      | none => some s
      | some handle => do
          let (eeprom, handle, _) ← vfsEepromWrite handle data.val s.eeprom
          some ⟨eeprom, s.handles.set index handle⟩
  | .read index size behind =>
      match s.handles[index]? with
      | none => some s
      | some handle =>
          some { s with handles := s.handles.set index (vfsEepromRead behind handle size s.eeprom).2 }
  | .seek index offset whence =>
      match s.handles[index]? with
      | none => some s
      | some handle => do
          let (handle, _) ← vfsEepromFseek handle offset whence s.eeprom
          some { s with handles := s.handles.set index handle }
  | .close index => some { s with handles := s.handles.eraseIdx index }

/-- Calls one after the other. -/
def run (ops : List Op) (s : State) : Option State := ops.foldlM (fun s op => step op s) s

/-- What calls lead to, from a freshly formatted EEPROM on. -/
inductive Reached : State → Prop where
  | format (eeprom : Device) : Reached ⟨format eeprom, []⟩
  | step {s s' : State} (reached : Reached s) (op : Op) (returns : step op s = some s') : Reached s'

theorem Reached.run {ops : List Op} {s s' : State} (reached : Reached s) (runs : run ops s = some s') :
    Reached s' := by
  induction ops generalizing s with
  | nil => exact Option.some.inj runs ▸ reached
  | cons op ops ih =>
      rw [Eeprom.run, List.foldlM_cons] at runs
      obtain ⟨between, returns, runs⟩ := Option.bind_eq_some_iff.mp runs
      exact ih (.step reached op returns) runs

/-! ## A fresh EEPROM -/

theorem clearMagics_spec (pages : List Nat) (small : ∀ page ∈ pages, page < pageCount)
    (eeprom : Device) (page k : Nat) :
    pages.foldl (fun eeprom page => writeSlice page 0 1 (fun _ => 0) eeprom) eeprom page k =
      if page ∈ pages ∧ k = 0 then 0 else eeprom page k := by
  induction pages generalizing eeprom with
  | nil => simp
  | cons first rest ih =>
      rw [List.forall_mem_cons] at small
      rw [List.foldl_cons, ih small.2]
      by_cases later : page ∈ rest ∧ k = 0
      · rw [if_pos later, if_pos ⟨List.mem_cons_of_mem _ later.1, later.2⟩]
      · rw [if_neg later]
        by_cases here : page = first ∧ k = 0
        · obtain ⟨rfl, rfl⟩ := here
          rw [if_pos ⟨List.mem_cons_self, rfl⟩]
          exact writeSlice_apply small.1 (by decide) (show 0 < 1 by decide)
        · rw [if_neg, writeSlice_apply_of_outside small.1 (by decide)]
          · omega
          · rintro ⟨member, rfl⟩
            rcases List.mem_cons.mp member with rfl | inRest
            · exact here ⟨rfl, rfl⟩
            · exact later ⟨inRest, rfl⟩

theorem format_sound (eeprom : Device) : Sound (format eeprom) ⟨[], fun _ => []⟩ := by
  have cleared := clearMagics_spec (List.range' 1 511)
    (fun page member => by
      rw [List.mem_range'_1] at member
      unfold pageCount
      omega) (writeSlice 0 0 10 freshSuperblock eeprom)
  have first : ∀ k < 10, format eeprom 0 k = freshSuperblock k := by
    intro k inside
    rw [format, cleared 0 k, if_neg (by simp)]
    have written := @writeSlice_apply eeprom 0 0 10 freshSuperblock (by decide) (by decide) k inside
    rwa [Nat.zero_add] at written
  have rest : ∀ page, 0 < page → page < pageCount → format eeprom page 0 = 0 := by
    intro page positive inside
    rw [format, cleared page 0, if_pos]
    rw [List.mem_range'_1]
    unfold pageCount at inside
    omega
  have none : ∀ file, file ∉ (⟨[], fun _ => []⟩ : Layout).files := fun _ => List.not_mem_nil
  exact
    { superblock := first 0 (by decide)
      fileList := nextFile_congr (first 3 (by decide)) (first 4 (by decide))
      dataChain := fun file member => absurd member (none file)
      distinctFiles := List.nodup_nil
      distinctPages := fun file member => absurd member (none file)
      apart := fun file member => absurd member (none file)
      outside := fun file member => absurd member (none file)
      used_lt := fun page uses => uses.elim (absurd · (none page))
        fun ⟨file, member, _⟩ => absurd member (none file)
      fileMagic := fun file member => absurd member (none file)
      dataMagic := fun file member => absurd member (none file)
      others := fun page positive inside _ => by
        simp only [isFree, readPage_of_lt inside, rest page positive inside]
        decide
      fits := fun file member => absurd member (none file)
      shortEnd := fun file member => absurd member (none file)
      first := Or.inl rfl }

/-! ## Calls on a sound EEPROM -/

section Calls

variable {eeprom : Device} {layout : Layout} {file : Nat}

theorem Sound.findFile (sound : Sound eeprom layout) (name : List UInt8) :
    ∃ inode, vfsEepromFindFile eeprom (some name) = some inode ∧ (inode = 0 ∨ inode ∈ layout.files) := by
  obtain ⟨inode, walk, listed, -⟩ := sound.toStructured.findFile (some name)
  exact ⟨inode, walk, listed⟩

/-- The first file is put on page 1. -/
theorem findFreePage_first (sound : Sound eeprom layout) (none : layout.files = []) :
    vfsEepromFindFreePage eeprom 0 = some 1 := by
  have used : ¬isFree eeprom 0 := by
    simp [isFree, readPage, sound.superblock]
  have free : isFree eeprom 1 := by
    refine (sound.isFree_iff (by decide)).mpr ⟨by decide, ?_⟩
    rintro (isFile | ⟨file, member, -⟩)
    · exact absurd (none ▸ isFile) List.not_mem_nil
    · exact absurd (none ▸ member) List.not_mem_nil
  rw [vfsEepromFindFreePage, searchFree, if_neg used, if_neg (by decide),
    show following 0 = 1 from rfl, pageCount, searchFree, if_pos free]

/-- A file of a new name is put on a free page, if there is one. -/
theorem Sound.create_new (sound : Sound eeprom layout) {name : List UInt8}
    (unknown : vfsEepromFindFile eeprom (some name) = some 0) (memory : Bool) :
    (∃ inode, inode < pageCount ∧ isFree eeprom inode ∧
        (layout.files = [] → inode = 1) ∧
        vfsEepromCreate name memory eeprom =
          some (writeSlice inode 0 pageSize (newFilePage 0 name)
              (writeSlice (lastNode 0 layout.files) 3 2 (encode16 inode) eeprom),
            if memory then some ⟨inode, 0⟩ else none)) ∨
      (∀ page < pageCount, ¬isFree eeprom page) ∧
        vfsEepromCreate name memory eeprom = some (eeprom, none) := by
  simp only [vfsEepromCreate, unknown, Option.bind_eq_bind, Option.bind_some, if_true]
  rcases findFreePage_spec sound.superblock (Nat.zero_le _) with
    ⟨free, search, nonzero, small, isFree⟩ | ⟨full, search⟩
  · obtain ⟨last, walk, -, is⟩ := sound.toStructured.findFile none
    obtain rfl := is rfl
    have first : layout.files = [] → free = 1 := fun none =>
      Option.some.inj (search.symm.trans (findFreePage_first sound none))
    simp only [search, walk, Option.bind_some, if_neg nonzero]
    exact Or.inl ⟨free, small, isFree, first, rfl⟩
  · have search : vfsEepromFindFreePage eeprom 0 = some 0 :=
      search.resolve_right fun behind => absurd behind.1 (by decide)
    simp only [search, Option.bind_some, if_true]
    exact Or.inr ⟨full, trivial⟩

/-- A file that exists loses its pages. -/
theorem Sound.create_again (sound : Sound eeprom layout) {name : List UInt8} {inode : Nat}
    (found : vfsEepromFindFile eeprom (some name) = some inode) (member : inode ∈ layout.files)
    (memory : Bool) :
    ∃ eeprom', vfsEepromCreate name memory eeprom =
        some (eeprom', if memory then some ⟨inode, 0⟩ else none) ∧
      Sound eeprom' (layout.rechain inode []) ∧
      (∀ page k, page ∉ inode :: layout.chain inode → eeprom' page k = eeprom page k) ∧
      ∀ k < pageSize, eeprom' inode k = newFilePage (nextFile (eeprom inode)) name k := by
  have inside := sound.mem_lt member
  rw [List.forall_mem_cons] at inside
  have distinct := sound.distinctPages inode member
  have short := sound.length_lt distinct fun page inChain => Layout.uses_page member inChain
  obtain ⟨cleared, clears, kept, zeros⟩ := clearPages_spec
    (sound.dataChain inode member).starts distinct inside.2
    (Nat.le_of_lt (Nat.lt_succ_of_lt short))
  simp only [vfsEepromCreate, found, sound.fileList.ne_null inode member, Option.bind_eq_bind,
    Option.bind_some, if_false, readPage_of_lt inside.1, clears]
  refine ⟨_, rfl, sound.recreate member kept zeros, fun page k apart => ?_,
    fun k within => writePage_self inside.1 within _⟩
  rw [writeSlice_of_ne inside.1 (List.ne_of_not_mem_cons apart),
    kept page k (.inl (List.not_mem_of_not_mem_cons apart))]

/-- Creating a file, anew or again, returns and leaves a sound EEPROM behind. -/
theorem Sound.create (sound : Sound eeprom layout) (name : List UInt8) (memory : Bool) :
    ∃ eeprom' handle layout', vfsEepromCreate name memory eeprom = some (eeprom', handle) ∧
      Sound eeprom' layout' ∧ (∀ file ∈ layout.files, file ∈ layout'.files) ∧
      ∀ opened ∈ handle, opened.filePage ∈ layout'.files ∧ opened.offset = 0 := by
  have opens : ∀ (layout' : Layout) (inode : Nat), inode ∈ layout'.files →
      ∀ opened ∈ if memory then some (Handle.mk inode 0) else none,
        opened.filePage ∈ layout'.files ∧ opened.offset = 0 := by
    intro layout' inode member opened is
    split_ifs at is
    · obtain rfl := Option.mem_some_iff.mp is
      exact ⟨member, rfl⟩
    · exact nomatch is
  obtain ⟨inode, found, rfl | member⟩ := sound.findFile name
  · rcases sound.create_new found memory with ⟨inode, small, free, first, call⟩ | ⟨-, call⟩
    · refine ⟨_, _, layout.addFile inode, call, sound.addFile small free first,
        fun file member => List.mem_append_left _ member, opens _ _ ?_⟩
      exact List.mem_append_right _ (List.mem_singleton_self _)
    · exact ⟨_, _, layout, call, sound, fun _ => id, fun _ => nofun⟩
  · obtain ⟨eeprom', call, sound', -⟩ := sound.create_again found member memory
    exact ⟨_, _, layout.rechain inode [], call, sound', fun _ => id, opens _ _ member⟩

theorem Sound.openFile (sound : Sound eeprom layout) (name : List UInt8) (memory : Bool) :
    ∃ handle, vfsEepromOpen name memory eeprom = some handle ∧
      ∀ opened ∈ handle, opened.filePage ∈ layout.files ∧ opened.offset = 0 := by
  obtain ⟨inode, found, listed⟩ := sound.findFile name
  simp only [vfsEepromOpen, found, Option.bind_eq_bind, Option.bind_some]
  refine ⟨_, rfl, fun opened is => ?_⟩
  split_ifs at is with unknown
  · exact nomatch is
  · obtain rfl := Option.mem_some_iff.mp is
    exact ⟨listed.resolve_left unknown, rfl⟩
  · exact nomatch is

/-- The size is the number of bytes that the data pages make up. -/
theorem Sound.filesize (sound : Sound eeprom layout) (member : file ∈ layout.files) (offset : Nat) :
    vfsEepromFilesize ⟨file, offset⟩ eeprom =
      some (contents dataSize (blocks eeprom (layout.chain file))).length := by
  have inside := sound.mem_lt member
  rw [List.forall_mem_cons] at inside
  have short := sound.length_lt (sound.distinctPages file member)
    fun page inChain => Layout.uses_page member inChain
  rw [vfsEepromFilesize, readPage_of_lt inside.1,
    sumPages_spec (sound.dataChain file member).starts inside.2 (Nat.le_of_lt short), Nat.zero_add]

theorem Sound.seek (sound : Sound eeprom layout) (member : file ∈ layout.files) {position : Nat}
    (small : position < 65536) (offset : Nat) (whence : Whence) :
    ∃ handle result, vfsEepromFseek ⟨file, position⟩ offset whence eeprom = some (handle, result) ∧
      handle.filePage = file ∧ handle.offset < 65536 := by
  rw [vfsEepromFseek]
  by_cases invalid : whence = .other
  · rw [if_pos invalid]
    exact ⟨_, _, rfl, rfl, small⟩
  · simp only [if_neg invalid, sound.filesize member, Option.bind_eq_bind, Option.bind_some]
    split_ifs with beyond
    · exact ⟨_, _, rfl, rfl, small⟩
    · refine ⟨_, _, rfl, rfl, ?_⟩
      cases whence <;> exact Nat.mod_lt _ (by decide)

theorem copyPages_offset_lt (behind : Bytes) (eeprom : Device) (passes page remaining : Nat)
    {offset : Nat} (small : offset < 65536) :
    (copyPages behind eeprom passes page offset remaining).2 < 65536 := by
  induction passes generalizing page offset remaining with
  | zero => exact small
  | succ passes ih =>
      simp only [copyPages]
      generalize (if remaining < dataSize then remaining else dataSize) = count
      split_ifs
      · exact small
      · exact Nat.mod_lt _ (by decide)
      · exact ih _ _ (Nat.mod_lt _ (by decide))

theorem vfsEepromRead_handle (behind : Bytes) (handle : Handle) (size : Nat) (eeprom : Device) :
    (vfsEepromRead behind handle size eeprom).2.filePage = handle.filePage ∧
      (handle.offset < 65536 → (vfsEepromRead behind handle size eeprom).2.offset < 65536) := by
  rw [vfsEepromRead]
  exact ⟨rfl, fun small => copyPages_offset_lt _ _ _ _ _ small⟩

/-- A write returns, unless it looks for another page from behind the last one on while
there is none. -/
theorem Sound.write (sound : Sound eeprom layout) (member : file ∈ layout.files) {offset : Nat}
    (small : offset < 65536) (data : Buffer) :
    (∃ eeprom' offset' count, Eeprom.vfsEepromWrite ⟨file, offset⟩ data.val eeprom =
        some (eeprom', ⟨file, offset'⟩, count) ∧ offset' < 65536 ∧
        ∃ layout', Sound eeprom' layout' ∧ layout'.files = layout.files ∧
          ∀ page ∈ layout.files, ∀ k ≥ 3, eeprom' page k = eeprom page k) ∨
      Eeprom.vfsEepromWrite ⟨file, offset⟩ data.val eeprom = none ∧
        ∃ eeprom' layout' new, Grown eeprom layout eeprom' layout' file new ∧
          lastNode file (layout'.chain file) + 1 = pageCount ∧
          ∀ page < pageCount, ¬isFree eeprom' page := by
  obtain ⟨eeprom', layout', new, grown, outcome⟩ := sound.vfsEepromWrite member small data.property
  have grownKept (page : Nat) (isFile : page ∈ layout.files) (k : Nat) (behind : k ≥ 3) :
      eeprom' page k = eeprom page k :=
    grown.kept page k (grown.not_mem sound.toStructured (Layout.uses_file isFile)) (.inr behind)
  rcases outcome with ⟨length, writePage, writes, call⟩ | ⟨-, full, call | ⟨last, call⟩⟩
  · have member' : file ∈ layout'.files := grown.files ▸ member
    have enough : pagesNeeded offset data.val.length ≤ (layout'.chain file).length := by
      rw [grown.chain, List.length_append, length]
      omega
    obtain ⟨front, rest, split, -, within, -⟩ := writes
    obtain ⟨same, -, written⟩ := grown.sound.writePages member' split within enough
    refine Or.inl ⟨_, _, _, call, Nat.mod_lt _ (by decide), layout', written, grown.files,
      fun page isFile k behind => ?_⟩
    rw [same page k (.inl fun inChain => grown.sound.outside file member' page inChain
      (grown.files ▸ isFile)), grownKept page isFile k behind]
  · exact Or.inl ⟨_, _, _, call, small, layout', grown.sound, grown.files, grownKept⟩
  · exact Or.inr ⟨call, eeprom', layout', new, grown, last, full⟩

end Calls

/-! ## Every reachable state -/

/-- The EEPROM is sound, and every handle points to a file. -/
structure Good (s : State) (layout : Layout) : Prop where
  sound : Sound s.eeprom layout
  handles : ∀ handle ∈ s.handles, handle.filePage ∈ layout.files ∧ handle.offset < 65536

section Reachable

variable {s s' : State} {layout : Layout}

theorem Good.set (good : Good s layout) {eeprom' : Device} {layout' : Layout}
    (sound : Sound eeprom' layout') (files : layout'.files = layout.files) (index : Nat)
    {handle : Handle} (file : handle.filePage ∈ layout.files) (small : handle.offset < 65536) :
    Good ⟨eeprom', s.handles.set index handle⟩ layout' where
  sound := sound
  handles := fun other member => by
    rw [files]
    rcases List.mem_or_eq_of_mem_set member with old | rfl
    · exact good.handles other old
    · exact ⟨file, small⟩

/-- Calls keep the EEPROM sound. -/
theorem Good.step (good : Good s layout) {op : Op} (returns : step op s = some s') :
    ∃ layout', Good s' layout' := by
  have append : ∀ (layout' : Layout) (opened : Option Handle),
      (∀ file ∈ layout.files, file ∈ layout'.files) →
      (∀ handle ∈ opened, handle.filePage ∈ layout'.files ∧ handle.offset = 0) →
      ∀ handle ∈ s.handles ++ opened.toList, handle.filePage ∈ layout'.files ∧ handle.offset < 65536 := by
    intro layout' opened kept new handle member
    rcases List.mem_append.mp member with old | isNew
    · exact (good.handles handle old).imp_left (kept _)
    · have fresh := new handle (Option.mem_toList.mp isNew)
      exact ⟨fresh.1, fresh.2 ▸ by decide⟩
  cases op with
  | create name memory =>
      obtain ⟨eeprom', opened, layout', call, sound, kept, new⟩ := good.sound.create name memory
      simp only [Eeprom.step, call, Option.bind_eq_bind, Option.bind_some, Option.some.injEq] at returns
      exact ⟨layout', returns ▸ ⟨sound, append layout' opened kept new⟩⟩
  | openFile name memory =>
      obtain ⟨opened, call, new⟩ := good.sound.openFile name memory
      simp only [Eeprom.step, call, Option.bind_eq_bind, Option.bind_some, Option.some.injEq] at returns
      exact ⟨layout, returns ▸ ⟨good.sound, append layout opened (fun _ => id) new⟩⟩
  | write index data =>
      cases is : s.handles[index]? with
      | none =>
          simp only [Eeprom.step, is, Option.some.injEq] at returns
          exact ⟨layout, returns ▸ good⟩
      | some handle =>
          obtain ⟨member, small⟩ := good.handles handle (List.mem_of_getElem? is)
          rcases good.sound.write member small data with
            ⟨eeprom', offset', count, call, small', layout', sound, files, -⟩ | ⟨call, -⟩
          · simp only [Eeprom.step, is, call, Option.bind_eq_bind, Option.bind_some,
              Option.some.injEq] at returns
            exact ⟨layout', returns ▸ good.set sound files index member small'⟩
          · simp [Eeprom.step, is, call] at returns
  | read index size behind =>
      cases is : s.handles[index]? with
      | none =>
          simp only [Eeprom.step, is, Option.some.injEq] at returns
          exact ⟨layout, returns ▸ good⟩
      | some handle =>
          obtain ⟨member, small⟩ := good.handles handle (List.mem_of_getElem? is)
          have kept := vfsEepromRead_handle behind handle size s.eeprom
          simp only [Eeprom.step, is, Option.some.injEq] at returns
          generalize (vfsEepromRead behind handle size s.eeprom).2 = handle' at kept returns
          exact ⟨layout, returns ▸ good.set good.sound rfl index (kept.1 ▸ member) (kept.2 small)⟩
  | seek index offset whence =>
      cases is : s.handles[index]? with
      | none =>
          simp only [Eeprom.step, is, Option.some.injEq] at returns
          exact ⟨layout, returns ▸ good⟩
      | some handle =>
          obtain ⟨member, small⟩ := good.handles handle (List.mem_of_getElem? is)
          obtain ⟨handle', result, call, file, small'⟩ := good.sound.seek member small offset whence
          simp only [Eeprom.step, is, call, Option.bind_eq_bind, Option.bind_some,
            Option.some.injEq] at returns
          exact ⟨layout, returns ▸ good.set good.sound rfl index (file ▸ member) small'⟩
  | close index =>
      simp only [Eeprom.step, Option.some.injEq] at returns
      exact ⟨layout, returns ▸ ⟨good.sound, fun handle member =>
        good.handles handle (List.mem_of_mem_eraseIdx member)⟩⟩

theorem Reached.good (reached : Reached s) : ∃ layout, Good s layout := by
  induction reached with
  | format eeprom =>
      have sound := format_sound eeprom
      generalize Eeprom.format eeprom = fresh at sound
      exact ⟨_, sound, fun _ member => absurd member List.not_mem_nil⟩
  | step _ op returns ih =>
      obtain ⟨layout, good⟩ := ih
      exact good.step returns

end Reachable

/-! ## The structure of the file system -/

/-- A read ends after as many passes as there are bytes to read. -/
theorem copyPages_enough (behind : Bytes) (eeprom : Device) {passes remaining : Nat}
    (enough : remaining ≤ passes) (extra page offset : Nat) :
    copyPages behind eeprom (passes + extra) page offset remaining =
      copyPages behind eeprom passes page offset remaining := by
  induction passes generalizing page offset remaining with
  | zero =>
      obtain rfl := Nat.le_zero.mp enough
      cases extra <;> rfl
  | succ passes ih =>
      simp only [Nat.succ_add, copyPages]
      by_cases none : remaining = 0
      · rw [if_pos none, if_pos none]
      · have less : remaining - (if remaining < dataSize then remaining else dataSize) ≤ passes := by
          have positive : 0 < dataSize := by decide
          split_ifs <;> omega
        simp only [if_neg none, ih less]

/-- The last loop of a write ends after as many passes as there are bytes to write. -/
theorem writePages_enough {passes offset : Nat} {data : List UInt8} (inside : offset < dataSize)
    (enough : data.length ≤ passes) (extra page : Nat) (eeprom : Device) :
    writePages (passes + extra) page offset data eeprom =
      writePages passes page offset data eeprom := by
  induction passes generalizing page offset data eeprom with
  | zero =>
      obtain rfl := List.length_eq_zero_iff.mp (Nat.le_zero.mp enough)
      cases extra <;> rfl
  | succ passes ih =>
      simp only [Nat.succ_add, writePages]
      by_cases none : data = []
      · rw [if_pos none, if_pos none]
      · have some := List.length_pos_iff.mpr none
        rw [if_neg none, if_neg none]
        refine ih (by decide) ?_ _ _
        rw [List.length_drop]
        split_ifs <;> omega

/-- The loops that follow links all end: those of the calls that return, those of a read
and of a write. -/
structure WalksEnd (eeprom : Device) (files : List Nat) : Prop where
  create : ∀ name memory, (vfsEepromCreate name memory eeprom).isSome
  opens : ∀ name memory, (vfsEepromOpen name memory eeprom).isSome
  filesize : ∀ file ∈ files, ∀ offset, (vfsEepromFilesize ⟨file, offset⟩ eeprom).isSome
  read : ∀ behind size page offset extra,
    copyPages behind eeprom (size + extra) page offset size =
      copyPages behind eeprom size page offset size
  skip : ∀ file ∈ files, ∀ skip,
    (skipPages eeprom pageCount (nextPage (readPage eeprom file)) skip ⟨0, file, 0⟩).isSome
  store : ∀ page offset data extra, writePages (data.length + extra) page (offset % dataSize) data eeprom =
    writePages data.length page (offset % dataSize) data eeprom

theorem Sound.walksEnd {eeprom : Device} {layout : Layout} (sound : Sound eeprom layout) :
    WalksEnd eeprom layout.files where
  create := fun name memory => by
    obtain ⟨_, _, _, call, -⟩ := sound.create name memory
    rw [call, Option.isSome_some]
  opens := fun name memory => by
    obtain ⟨_, call, -⟩ := sound.openFile name memory
    rw [call, Option.isSome_some]
  filesize := fun file member offset => by
    rw [sound.filesize member, Option.isSome_some]
  read := fun behind size page offset extra => copyPages_enough behind eeprom le_rfl extra page offset
  skip := fun file member skip => by
    have inside := sound.mem_lt member
    rw [List.forall_mem_cons] at inside
    have short := sound.length_lt (sound.distinctPages file member)
      fun page inChain => Layout.uses_page member inChain
    obtain ⟨_, walk, -⟩ := skipPages_spec (sound.dataChain file member).starts inside.2
      (Nat.le_of_lt short) skip 0 file
    rw [readPage_of_lt inside.1, walk, Option.isSome_some]
  store := fun page offset data extra =>
    writePages_enough (Nat.mod_lt offset (by decide)) le_rfl extra page eeprom

/-- In every reachable state the lists of files and data pages are what a layout says, the
loops that follow them end, and so does every call, unless it is a write that has used up
all free pages and looks for another one from behind page 511 on. -/
theorem eeprom_structure {s : State} (reached : Reached s) :
    ∃ layout, Structured s.eeprom layout ∧
      (∀ handle ∈ s.handles, handle.filePage ∈ layout.files) ∧ WalksEnd s.eeprom layout.files ∧
      ∀ op, step op s = none → ∃ handle ∈ s.handles, ∃ data : Buffer,
        vfsEepromWrite handle data.val s.eeprom = none ∧
        ∃ eeprom' layout' new, Grown s.eeprom layout eeprom' layout' handle.filePage new ∧
          lastNode handle.filePage (layout'.chain handle.filePage) + 1 = pageCount ∧
          ∀ page < pageCount, ¬isFree eeprom' page := by
  obtain ⟨layout, good⟩ := reached.good
  refine ⟨layout, good.sound.toStructured, fun handle member => (good.handles handle member).1,
    good.sound.walksEnd, fun op stuck => ?_⟩
  cases op with
  | create name memory =>
      obtain ⟨_, _, _, call, -⟩ := good.sound.create name memory
      simp [step, call] at stuck
  | openFile name memory =>
      obtain ⟨_, call, -⟩ := good.sound.openFile name memory
      simp [step, call] at stuck
  | write index data =>
      cases is : s.handles[index]? with
      | none => simp [step, is] at stuck
      | some handle =>
          have member := List.mem_of_getElem? is
          obtain ⟨file, small⟩ := good.handles handle member
          rcases good.sound.write file small data with ⟨_, _, _, call, -⟩ | outcome
          · simp [step, is, call] at stuck
          · exact ⟨handle, member, data, outcome⟩
  | read index size behind => cases is : s.handles[index]? <;> simp [step, is] at stuck
  | seek index offset whence =>
      cases is : s.handles[index]? with
      | none => simp [step, is] at stuck
      | some handle =>
          obtain ⟨file, small⟩ := good.handles handle (List.mem_of_getElem? is)
          obtain ⟨_, _, call, -⟩ := good.sound.seek file small offset whence
          simp [step, is, call] at stuck
  | close index => simp [step] at stuck

theorem eeprom_structure_create :
    ∃ s, run [.create [97] true] ⟨format fun _ _ => 0, []⟩ = some s ∧
      ∃ layout, Structured s.eeprom layout ∧ WalksEnd s.eeprom layout.files := by
  have returns : (run [.create [97] true] ⟨format fun _ _ => 0, []⟩).isSome := by decide +kernel
  obtain ⟨s, runs⟩ := Option.isSome_iff_exists.mp returns
  obtain ⟨layout, structured, -, ends, -⟩ := eeprom_structure (Reached.run (.format _) runs)
  exact ⟨s, runs, layout, structured, ends⟩

end Ethersex.Eeprom
