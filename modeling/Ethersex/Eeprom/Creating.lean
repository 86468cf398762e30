import Mathlib
import Ethersex.Eeprom.Reading

/-!
# Creating files

A file that is created is empty, and the only one of its name.  Names that do not fit in a file page are
cut, so that there can be several files with a name that fills the field.
-/

namespace Ethersex.Eeprom

open Library

/-- The pages of the list of files. -/
def FileList (eeprom : Device) (files : List Nat) : Prop :=
  Chain (fun page => nextFile (eeprom page)) 0 0 files

/-- Names are C strings. -/
def Op.Named : Op → Prop
  | .create name _ => ∀ ch ∈ name, ch ≠ 0
  | .openFile name _ => ∀ ch ∈ name, ch ≠ 0
  | _ => True

/-- What calls with proper names lead to. -/
inductive NamedReached : State → Prop where
  | format (eeprom : Device) : NamedReached ⟨format eeprom, []⟩
  | step {s s' : State} (reached : NamedReached s) (op : Op) (named : op.Named)
      (returns : step op s = some s') : NamedReached s'

theorem NamedReached.run {ops : List Op} {s s' : State} (reached : NamedReached s)
    (named : ∀ op ∈ ops, op.Named) (runs : run ops s = some s') : NamedReached s' := by
  induction ops generalizing s with
  | nil =>
    obtain rfl := Option.some.inj runs
    exact reached
  | cons op ops ih =>
    rw [List.forall_mem_cons] at named
    rw [Eeprom.run, List.foldlM_cons] at runs
    obtain ⟨between, returns, runs⟩ := Option.bind_eq_some_iff.mp runs
    exact ih (.step reached op named.1 returns) named.2 runs

theorem NamedReached.reached {s : State} (named : NamedReached s) : Reached s := by
  induction named with
  | format eeprom => exact .format eeprom
  | step _ op _ returns ih => exact .step ih op returns

/-! ## Names -/

section Names

variable {eeprom : Device} {layout : Layout} {origin : Nat} {nodes : List Nat} {name : List UInt8}

/-- The bytes of the name field hold as much of the name as fits. -/
theorem filename_newFilePage (terminated : ∀ ch ∈ name, ch ≠ 0) (next : Nat) :
    filename (newFilePage next name) = name.take 122 := by
  have cut : ∀ ch ∈ name.take 122, ch ≠ 0 := fun ch member => terminated ch (List.mem_of_mem_take member)
  have field : (fun k => newFilePage next name (5 + k)) =
      fun k => if k < 122 then strncpy (cString name) k else 0 := by
    funext k
    rw [newFilePage, if_neg (by omega), if_neg (by omega), Nat.add_sub_cancel_left]
    exact if_congr (by omega) rfl rfl
  have zero : ∀ ch ∈ name.take 122, decide (ch ≠ 0) = true :=
    fun ch member => decide_eq_true (cut ch member)
  rw [filename, field, @fieldText_eq_takeWhile (name.take 122), List.takeWhile_eq_self_iff.mpr zero]
  · intro k inside
    have inField := inside
    rw [List.length_take] at inField
    dsimp only
    rw [if_pos (by omega), strncpy, if_pos]
    · rw [cString, cString, List.getD_eq_getElem _ _ (by omega), List.getD_eq_getElem _ _ inside,
        List.getElem_take]
    · intro j before
      rw [cString, List.getD_eq_getElem _ _ (by omega)]
      exact terminated _ (List.getElem_mem _)
  · rw [List.length_take]
    split_ifs with inField
    · rw [strncpy, if_neg]
      intro nonzero
      apply nonzero (min 122 name.length) le_rfl
      rw [cString, List.getD_eq_default _ _ (by omega)]
    · rfl
  · rw [List.length_take]
    omega

theorem walkFiles_name (chain : Chain (fun page => nextFile (eeprom page)) 0 origin nodes)
    (files : ∀ file ∈ nodes, file < pageCount ∧ eeprom file 0 = magicFile) {passes : Nat}
    (enough : nodes.length ≤ passes) :
    (walkFiles eeprom (some name) passes (nextFile (eeprom origin)) = some 0 ∧
        ∀ file ∈ nodes, filename (eeprom file) ≠ name) ∨
      ∃ file ∈ nodes, filename (eeprom file) = name ∧
        walkFiles eeprom (some name) passes (nextFile (eeprom origin)) = some file := by
  induction nodes generalizing origin passes with
  | nil =>
    have ends : nextFile (eeprom origin) = 0 := chain
    refine .inl ⟨?_, fun file member => absurd member List.not_mem_nil⟩
    cases passes <;> simp [walkFiles, ends]
  | cons node rest ih =>
    obtain ⟨first, nonzero, chain⟩ := chain
    rw [List.forall_mem_cons] at files
    obtain ⟨⟨small, magic⟩, files⟩ := files
    obtain ⟨passes, rfl⟩ := Nat.exists_eq_succ_of_ne_zero (Nat.ne_of_gt (Nat.lt_of_lt_of_le
      (Nat.succ_pos _) enough))
    dsimp only at first
    rw [first, walkFiles, if_neg nonzero]
    simp only [readPage_of_lt small, magic, ne_eq, not_true_eq_false, if_false, Option.some.injEq,
      reduceCtorEq, false_and]
    by_cases found : name = filename (eeprom node)
    · rw [if_pos found]
      exact .inr ⟨node, List.mem_cons_self, found.symm, rfl⟩
    · rw [if_neg found]
      obtain ⟨walk, unknown⟩ | ⟨file, member, named, walk⟩ :=
        ih chain files (Nat.le_of_succ_le_succ enough)
      · exact .inl ⟨walk, List.forall_mem_cons.mpr ⟨Ne.symm found, unknown⟩⟩
      · exact .inr ⟨file, List.mem_cons_of_mem _ member, named, walk⟩

/-- A search by name. -/
theorem Structured.findFile_name (structured : Structured eeprom layout) (name : List UInt8) :
    (vfsEepromFindFile eeprom (some name) = some 0 ∧
        ∀ file ∈ layout.files, filename (eeprom file) ≠ name) ∨
      ∃ file ∈ layout.files, filename (eeprom file) = name ∧
        vfsEepromFindFile eeprom (some name) = some file := by
  have short := structured.length_lt structured.distinctFiles fun file member =>
    Layout.uses_file member
  exact walkFiles_name structured.fileList
    (fun file member => ⟨structured.used_lt file (Layout.uses_file member),
      structured.fileMagic file member⟩) (Nat.le_of_lt short)

end Names

/-! ## One call -/

/-- What `vfs_eeprom_create` does when it does not run out of pages. -/
structure Creates (eeprom : Device) (layout : Layout) (name : List UInt8) (eeprom' : Device)
    (layout' : Layout) (inode : Nat) : Prop where
  sound : Sound eeprom' layout'
  files : layout'.files = if inode ∈ layout.files then layout.files else layout.files ++ [inode]
  empty : layout'.chain inode = []
  chains : ∀ other ∈ layout.files, other ≠ inode → layout'.chain other = layout.chain other
  named : filename (eeprom' inode) = name.take 122
  before : ∀ file ∈ layout.files, filename (eeprom file) = name → inode ∈ layout.files
  old : inode ∈ layout.files → filename (eeprom inode) = name
  kept : ∀ other ∈ layout.files, other ≠ inode → filename (eeprom' other) = filename (eeprom other) ∧
    blocks eeprom' (layout.chain other) = blocks eeprom (layout.chain other)

section Create

variable {eeprom eeprom' : Device} {layout layout' : Layout} {name : List UInt8} {inode : Nat}

theorem filename_congr {left right : Bytes} (same : ∀ k, 5 ≤ k → left k = right k) :
    filename left = filename right :=
  fieldText_congr fun k _ => same (5 + k) (Nat.le_add_right 5 k)

theorem Sound.creates_new (sound : Sound eeprom layout) (terminated : ∀ ch ∈ name, ch ≠ 0)
    (unknown : ∀ file ∈ layout.files, filename (eeprom file) ≠ name) (small : inode < pageCount)
    (free : isFree eeprom inode) (first : layout.files = [] → inode = 1) :
    Creates eeprom layout name (writeSlice inode 0 pageSize (newFilePage 0 name)
      (writeSlice (lastNode 0 layout.files) 3 2 (encode16 inode) eeprom)) (layout.addFile inode) inode := by
  obtain ⟨nonzero, unused⟩ := (sound.isFree_iff small).mp free
  have isNew : inode ∉ layout.files := fun member => unused (Layout.uses_file member)
  have apart : lastNode 0 layout.files ≠ inode := by
    rintro rfl
    rcases List.mem_cons.mp (lastNode_mem 0 layout.files) with zero | member
    · exact nonzero zero
    · exact isNew member
  have adds := @Sound.addsFile eeprom layout inode name sound small apart
  constructor
  · exact sound.addFile small free first
  · rw [if_neg isNew]
    rfl
  · exact Layout.addFile_self layout inode
  · intro other _ different
    exact Layout.addFile_of_ne different
  · rw [← filename_newFilePage terminated 0]
    refine fieldText_congr fun k within => ?_
    exact writePage_self small (by unfold pageSize; omega) _
  · intro file member named
    exact absurd named (unknown file member)
  · intro member
    exact absurd member isNew
  · intro other member different
    exact ⟨filename_congr fun k behind => adds.kept other k different (.inr (.inr behind)),
      adds.blocks_kept sound unused member⟩

theorem Sound.creates_again (sound : Sound eeprom layout) (terminated : ∀ ch ∈ name, ch ≠ 0)
    (member : inode ∈ layout.files) (named : filename (eeprom inode) = name)
    (found : vfsEepromFindFile eeprom (some name) = some inode) (memory : Bool) :
    ∃ eeprom', vfsEepromCreate name memory eeprom =
        some (eeprom', if memory then some ⟨inode, 0⟩ else none) ∧
      Creates eeprom layout name eeprom' (layout.rechain inode []) inode := by
  obtain ⟨eeprom', call, sound', kept, page⟩ := sound.create_again found member memory
  refine ⟨eeprom', call, sound', (if_pos member).symm, Layout.rechain_self layout inode [],
    fun other _ different => Layout.rechain_of_ne different, ?_, fun _ _ _ => member, fun _ => named,
    fun other member' different => ?_⟩
  · rw [← filename_newFilePage terminated (nextFile (eeprom inode))]
    refine fieldText_congr fun k within => ?_
    exact page _ (by unfold pageSize; omega)
  · have apart := sound.separate member' member different.symm
    constructor
    · exact filename_congr fun k _ => kept other k (apart other List.mem_cons_self)
    · exact blocks_congr fun page inChain k _ => kept page k (apart page (List.mem_cons_of_mem _ inChain))

/-- A call runs out of pages, and changes nothing, or creates the file. -/
theorem Sound.creates (sound : Sound eeprom layout) (terminated : ∀ ch ∈ name, ch ≠ 0) (memory : Bool) :
    ((∀ page < pageCount, ¬isFree eeprom page) ∧
        vfsEepromCreate name memory eeprom = some (eeprom, none)) ∨
      ∃ eeprom' layout' inode, vfsEepromCreate name memory eeprom =
          some (eeprom', if memory then some ⟨inode, 0⟩ else none) ∧
        Creates eeprom layout name eeprom' layout' inode := by
  obtain ⟨unfound, unknown⟩ | ⟨inode, member, named, found⟩ := sound.toStructured.findFile_name name
  · obtain ⟨inode, small, free, first, call⟩ | full := sound.create_new unfound memory
    · exact .inr ⟨_, _, inode, call, sound.creates_new terminated unknown small free first⟩
    · exact .inl full
  · obtain ⟨eeprom', call, creates⟩ := sound.creates_again terminated member named found memory
    exact .inr ⟨eeprom', _, inode, call, creates⟩

theorem Creates.mem (creates : Creates eeprom layout name eeprom' layout' inode) :
    inode ∈ layout'.files := by
  rw [creates.files]
  split_ifs with member
  · exact member
  · exact List.mem_append_right _ (List.mem_singleton_self inode)

/-- Another file was there before. -/
theorem Creates.mem_old (creates : Creates eeprom layout name eeprom' layout' inode) {file : Nat}
    (member : file ∈ layout'.files) (different : file ≠ inode) : file ∈ layout.files := by
  rw [creates.files] at member
  split_ifs at member
  · exact member
  · exact (List.mem_append.mp member).resolve_right fun new => different (List.mem_singleton.mp new)

end Create

/-! ## Names in every reachable state -/

/-- There are no two files of one name that fits. -/
def NamesApart (eeprom : Device) (layout : Layout) : Prop :=
  ∀ file ∈ layout.files, ∀ other ∈ layout.files, filename (eeprom file) = filename (eeprom other) →
    (filename (eeprom file)).length < 122 → file = other

section Reachable

variable {eeprom eeprom' : Device} {layout layout' : Layout} {name : List UInt8} {inode : Nat}

theorem NamesApart.congr (apart : NamesApart eeprom layout) (files : layout'.files = layout.files)
    (same : ∀ file ∈ layout.files, filename (eeprom' file) = filename (eeprom file)) :
    NamesApart eeprom' layout' := by
  intro file member other member' equal short
  rw [files] at member member'
  rw [same file member] at equal short
  rw [same other member'] at equal
  exact apart file member other member' equal short

/-- No other file has the name of the new one, unless that was cut. -/
theorem Creates.other_name (creates : Creates eeprom layout name eeprom' layout' inode)
    (apart : NamesApart eeprom layout) (short : name.length < 122) {file : Nat}
    (member : file ∈ layout.files) (different : file ≠ inode) : filename (eeprom file) ≠ name := by
  intro named
  have old := creates.before file member named
  refine different (apart file member inode old ?_ ?_)
  · rw [named, creates.old old]
  · rw [named]
    exact short

theorem Creates.namesApart (creates : Creates eeprom layout name eeprom' layout' inode)
    (apart : NamesApart eeprom layout) : NamesApart eeprom' layout' := by
  have alone (other : Nat) (member : other ∈ layout.files) (different : other ≠ inode)
      (equal : filename (eeprom' other) = name.take 122) (short : (name.take 122).length < 122) :
      False := by
    rw [List.length_take] at short
    have fits : name.length < 122 := by omega
    rw [List.take_of_length_le fits.le, (creates.kept other member different).1] at equal
    exact creates.other_name apart fits member different equal
  intro file member other member' equal short
  by_cases first : file = inode <;> by_cases second : other = inode
  · rw [first, second]
  · rw [first, creates.named] at equal short
    exact (alone other (creates.mem_old member' second) second equal.symm short).elim
  · rw [equal, second, creates.named] at short
    rw [second, creates.named] at equal
    exact (alone file (creates.mem_old member first) first equal short).elim
  · have old := creates.mem_old member first
    have old' := creates.mem_old member' second
    rw [(creates.kept file old first).1] at equal short
    rw [(creates.kept other old' second).1] at equal
    exact apart file old other old' equal short

/-- One call. -/
theorem NamesApart.step {s s' : State} (apart : NamesApart s.eeprom layout) (good : Good s layout)
    {op : Op} (named : op.Named) (returns : step op s = some s') :
    ∃ layout', Sound s'.eeprom layout' ∧ NamesApart s'.eeprom layout' := by
  have still (same : s'.eeprom = s.eeprom) :
      ∃ layout', Sound s'.eeprom layout' ∧ NamesApart s'.eeprom layout' := by
    rw [same]
    exact ⟨layout, good.sound, apart⟩
  cases op with
  | create name memory =>
    obtain ⟨-, call⟩ | ⟨eeprom', layout', inode, call, creates⟩ := good.sound.creates named memory
    · simp only [Eeprom.step, call, Option.bind_eq_bind, Option.bind_some, Option.some.injEq] at returns
      exact still (congrArg State.eeprom returns).symm
    · simp only [Eeprom.step, call, Option.bind_eq_bind, Option.bind_some, Option.some.injEq] at returns
      rw [← returns]
      exact ⟨layout', creates.sound, creates.namesApart apart⟩
  | openFile name memory =>
    obtain ⟨opened, call, -⟩ := good.sound.openFile name memory
    simp only [Eeprom.step, call, Option.bind_eq_bind, Option.bind_some, Option.some.injEq] at returns
    exact still (congrArg State.eeprom returns).symm
  | write index data =>
    cases found : s.handles[index]? with
    | none =>
      simp only [Eeprom.step, found, Option.some.injEq] at returns
      exact still (congrArg State.eeprom returns).symm
    | some handle =>
      obtain ⟨member, small⟩ := good.handles handle (List.mem_of_getElem? found)
      obtain ⟨eeprom', offset', count, call, -, layout', sound, files, kept⟩ | ⟨call, -⟩ :=
        good.sound.write member small data
      · simp only [Eeprom.step, found, call, Option.bind_eq_bind, Option.bind_some,
          Option.some.injEq] at returns
        rw [← returns]
        refine ⟨layout', sound, apart.congr files fun file isFile => ?_⟩
        exact filename_congr fun k behind => kept file isFile k (by omega)
      · simp [Eeprom.step, found, call] at returns
  | read index size behind =>
    cases found : s.handles[index]? with
    | none =>
      simp only [Eeprom.step, found, Option.some.injEq] at returns
      exact still (congrArg State.eeprom returns).symm
    | some handle =>
      simp only [Eeprom.step, found, Option.some.injEq] at returns
      exact still (congrArg State.eeprom returns).symm
  | seek index offset whence =>
    cases found : s.handles[index]? with
    | none =>
      simp only [Eeprom.step, found, Option.some.injEq] at returns
      exact still (congrArg State.eeprom returns).symm
    | some handle =>
      obtain ⟨member, small⟩ := good.handles handle (List.mem_of_getElem? found)
      obtain ⟨handle', result, call, -⟩ := good.sound.seek member small offset whence
      simp only [Eeprom.step, found, call, Option.bind_eq_bind, Option.bind_some,
        Option.some.injEq] at returns
      exact still (congrArg State.eeprom returns).symm
  | close index =>
    simp only [Eeprom.step, Option.some.injEq] at returns
    exact still (congrArg State.eeprom returns).symm

theorem NamedReached.namesApart {s : State} (reached : NamedReached s) (sound : Sound s.eeprom layout) :
    NamesApart s.eeprom layout := by
  induction reached generalizing layout with
  | format eeprom =>
    have fresh := (format_sound eeprom).fileList
    generalize Eeprom.format eeprom = blank at fresh sound
    intro file member
    rw [sound.fileList.deterministic fresh] at member
    exact absurd member List.not_mem_nil
  | step before op named returns ih =>
    obtain ⟨layout₀, good⟩ := before.reached.good
    obtain ⟨layout₁, sound₁, apart⟩ := (ih good.sound).step good named returns
    exact apart.congr (sound.fileList.deterministic sound₁.fileList) fun _ _ => rfl

end Reachable

/-! ## The law -/

/-- What the creation of a file should do. -/
structure CreateLaw (eeprom : Device) (name : List UInt8) (files : List Nat) (eeprom' : Device)
    (inode : Nat) : Prop where
  list : FileList eeprom' (if inode ∈ files then files else files ++ [inode])
  named : filename (eeprom' inode) = name
  empty : DataPages eeprom' inode []
  opens : ∀ memory, vfsEepromOpen name memory eeprom' = some (if memory then some ⟨inode, 0⟩ else none)
  others : ∀ other ∈ files, filename (eeprom other) ≠ name →
    filename (eeprom' other) = filename (eeprom other) ∧ ∀ pages, DataPages eeprom other pages →
      DataPages eeprom' other pages ∧ pagesContent eeprom' pages = pagesContent eeprom pages
  freed : ∀ old ∈ files, filename (eeprom old) = name → ∀ pages, DataPages eeprom old pages →
    ∀ page ∈ pages, isFree eeprom' page
  once : ∀ file other, IsFile eeprom' file → IsFile eeprom' other → file ≠ other →
    filename (eeprom' file) = filename (eeprom' other) →
      filename (eeprom' file) ≠ name ∧ file ∈ files ∧ other ∈ files ∧
        filename (eeprom file) = filename (eeprom other)

section Law

variable {eeprom eeprom' : Device} {layout layout' : Layout} {name : List UInt8} {inode : Nat}

theorem Creates.mem_new (creates : Creates eeprom layout name eeprom' layout' inode) {file : Nat}
    (member : file ∈ layout.files) : file ∈ layout'.files := by
  rw [creates.files]
  split_ifs
  · exact member
  · exact List.mem_append_left _ member

/-- The pages of an earlier file of the name. -/
theorem Creates.freed (creates : Creates eeprom layout name eeprom' layout' inode)
    (sound : Sound eeprom layout) (old : inode ∈ layout.files) {page : Nat}
    (inChain : page ∈ layout.chain inode) : isFree eeprom' page := by
  have uses := Layout.uses_page old inChain
  refine (creates.sound.isFree_iff (sound.used_lt page uses)).mpr ⟨(sound.uses_pos uses).ne', ?_⟩
  rintro (isFile | ⟨file, member, inFile⟩)
  · rw [creates.files, if_pos old] at isFile
    exact sound.outside inode old page inChain isFile
  · by_cases same : file = inode
    · rw [same, creates.empty] at inFile
      exact List.not_mem_nil inFile
    · have member := creates.mem_old member same
      rw [creates.chains file member same] at inFile
      exact same (sound.apart file member inode old page inFile inChain)

/-- Opening finds the file that was created. -/
theorem Creates.opens (creates : Creates eeprom layout name eeprom' layout' inode)
    (apart : NamesApart eeprom layout) (short : name.length < 122) (memory : Bool) :
    vfsEepromOpen name memory eeprom' = some (if memory then some ⟨inode, 0⟩ else none) := by
  have named : filename (eeprom' inode) = name := by
    rw [creates.named, List.take_of_length_le short.le]
  obtain ⟨-, unknown⟩ | ⟨file, member, named', found⟩ := creates.sound.toStructured.findFile_name name
  · exact absurd named (unknown inode creates.mem)
  · have same : file = inode := by
      by_contra different
      have old := creates.mem_old member different
      rw [(creates.kept file old different).1] at named'
      exact creates.other_name apart short old different named'
    have nonzero := creates.sound.fileList.ne_null inode creates.mem
    rw [vfsEepromOpen, found, same]
    exact congrArg some (if_neg nonzero)

theorem Creates.law (creates : Creates eeprom layout name eeprom' layout' inode)
    (sound : Sound eeprom layout) (apart : NamesApart eeprom layout) (short : name.length < 122) :
    CreateLaw eeprom name layout.files eeprom' inode := by
  have named : filename (eeprom' inode) = name := by
    rw [creates.named, List.take_of_length_le short.le]
  have elsewhere {file : Nat} (member : file ∈ layout.files) (other : filename (eeprom file) ≠ name) :
      file ≠ inode := by
    rintro rfl
    exact other (creates.old member)
  have oldName {file : Nat} (isFile : file ∈ layout'.files) (different : file ≠ inode) :
      file ∈ layout.files ∧ filename (eeprom' file) = filename (eeprom file) ∧
        filename (eeprom file) ≠ name := by
    have old := creates.mem_old isFile different
    exact ⟨old, (creates.kept file old different).1, creates.other_name apart short old different⟩
  constructor
  · rw [← creates.files]
    exact creates.sound.fileList
  · exact named
  · have chain := creates.sound.dataChain inode creates.mem
    rwa [creates.empty] at chain
  · exact creates.opens apart short
  · intro other member differs
    have different := elsewhere member differs
    obtain ⟨name', blocks'⟩ := creates.kept other member different
    refine ⟨name', fun pages dataPages => ?_⟩
    obtain rfl := (sound.dataChain other member).deterministic dataPages
    have chain := creates.sound.dataChain other (creates.mem_new member)
    rw [creates.chains other member different] at chain
    exact ⟨chain, congrArg (contents dataSize) blocks'⟩
  · intro old member oldNamed pages dataPages page inPages
    obtain rfl := (sound.dataChain old member).deterministic dataPages
    have same : old = inode := by
      by_contra different
      exact creates.other_name apart short member different oldNamed
    subst same
    exact creates.freed sound member inPages
  · intro file other isFile isOther different equal
    have member := creates.sound.toStructured.isFile.mp isFile
    have member' := creates.sound.toStructured.isFile.mp isOther
    by_cases first : file = inode
    · obtain ⟨-, kept, differs⟩ := oldName member' (first ▸ different.symm)
      rw [first, named, kept] at equal
      exact absurd equal.symm differs
    · obtain ⟨old, kept, differs⟩ := oldName member first
      by_cases second : other = inode
      · rw [second, named, kept] at equal
        exact absurd equal differs
      · obtain ⟨old', kept', -⟩ := oldName member' second
        rw [kept, kept'] at equal
        rw [kept]
        exact ⟨differs, old, old', equal⟩

end Law

/-- The creation of a file. -/
theorem eeprom_create_law {s : State} (reached : NamedReached s) {name : List UInt8}
    (terminated : ∀ ch ∈ name, ch ≠ 0) (short : name.length < 122)
    (free : ∃ page < pageCount, isFree s.eeprom page) {files : List Nat}
    (list : FileList s.eeprom files) (memory : Bool) :
    ∃ eeprom' inode, vfsEepromCreate name memory s.eeprom =
        some (eeprom', if memory then some ⟨inode, 0⟩ else none) ∧
      CreateLaw s.eeprom name files eeprom' inode := by
  obtain ⟨layout, good⟩ := reached.reached.good
  obtain rfl := good.sound.fileList.deterministic list
  obtain ⟨full, -⟩ | ⟨eeprom', layout', inode, call, creates⟩ := good.sound.creates terminated memory
  · obtain ⟨page, small, isFree⟩ := free
    exact absurd isFree (full page small)
  · exact ⟨eeprom', inode, call, creates.law good.sound (reached.namesApart good.sound) short⟩

/-- A file with a data page is created again. -/
theorem eeprom_create_law_again :
    ∃ s, run twoFiles ⟨format fun _ _ => 0, []⟩ = some s ∧ ∃ eeprom' inode,
      vfsEepromCreate [97] true s.eeprom = some (eeprom', some ⟨inode, 0⟩) ∧
        CreateLaw s.eeprom [97] [1, 2] eeprom' inode := by
  obtain ⟨s, runs, -, -, layout, sound, files, first, second⟩ := twoFiles_spec
  have list := sound.fileList
  rw [files] at list
  have named : ∀ op ∈ twoFiles, op.Named := by
    simp [twoFiles, Op.Named]
  have free : isFree s.eeprom 4 := by
    refine (sound.isFree_iff (by decide)).mpr ⟨by decide, ?_⟩
    simp [Layout.Uses, files, first, second]
  have reached : NamedReached s := NamedReached.run (.format _) named runs
  exact ⟨s, runs, eeprom_create_law reached (by simp) (by simp) ⟨4, by decide, free⟩ list true⟩

end Ethersex.Eeprom
