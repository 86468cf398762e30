import Ethersex.SdReader.Model
import Ethersex.Library.Walks

/-!
# Making directories along a path

A component is looked for by its characters alone, and an entry whose name goes on behind them is taken for it
when it is listed first.  Where that does not happen a call follows the path by its names.
-/

namespace Ethersex.SdReader

open Ethersex.Library

/-! ## Directories and paths through them -/

/-- There is a root, every directory that is listed is there, and no name is too long. -/
structure Sound (volume : Volume) : Prop where
  root : 0 < volume.directories.length
  inside : ∀ dir, ∀ entry ∈ volume.entries dir, entry.directory = true → entry.cluster < volume.directories.length
  short : ∀ dir, ∀ entry ∈ volume.entries dir, entry.longName.length ≤ LONG_NAME_LENGTH

/-- A directory lists no name twice. -/
structure Tree (volume : Volume) : Prop extends Sound volume where
  distinct : ∀ dir, ((volume.entries dir).map Entry.longName).Nodup

namespace Volume

/-- A directory lists another one under a name. -/
def Leads (volume : Volume) (dir : Nat) (name : List UInt8) (next : Nat) : Prop :=
  (⟨name, true, next⟩ : Entry) ∈ volume.entries dir

/-- The path from a directory exists. -/
def Exists (volume : Volume) (dir : Nat) (names : List (List UInt8)) : Prop :=
  ∃ reached, Reads volume.Leads dir names reached

/-- A component of the path from a directory exists as a file. -/
def MeetsFile (volume : Volume) (dir : Nat) (names : List (List UInt8)) : Prop :=
  ∃ front name, front ++ [name] <+: names ∧
    ∃ reached cluster, Reads volume.Leads dir front reached ∧ (⟨name, false, cluster⟩ : Entry) ∈ volume.entries reached

end Volume

/-- Nothing is lost, and an entry is new only in a new directory, which lists itself and its parent, or on the path
from a directory. -/
structure MadeAlong (names : List (List UInt8)) (dir : Nat) (before after : Volume) : Prop where
  grown : before.directories.length ≤ after.directories.length
  kept : ∀ other, before.entries other ⊆ after.entries other
  created : ∀ other, ∀ entry ∈ after.entries other, entry ∈ before.entries other ∨
    (before.directories.length ≤ other ∧ ∃ parent, entry ∈ Service.newDirectory other parent) ∨
    ∃ front, front ++ [entry.longName] <+: names ∧ Reads after.Leads dir front other

/-- What a call does to the path. -/
def MakesPath (fat : Stream' Service) (volume : Volume) (path : Path) : Prop :=
  ∃ count outcome, vfsSdMkdirRecursive fat count volume path.chars = some outcome ∧
    (outcome.value = 0 → (∀ front, front <+: path.names → outcome.volume.Exists 0 front) ∧
      MadeAlong path.names 0 volume outcome.volume) ∧
    (outcome.value ≠ 0 → outcome.volume.MeetsFile 0 path.names ∨ outcome.service.Reports)

section Entries

variable {service : Service} {volume before after : Volume} {dir next : Nat} {name : List UInt8} {entry : Entry}
  {names : List (List UInt8)}

theorem MadeAlong.refl (names : List (List UInt8)) (dir : Nat) (volume : Volume) :
    MadeAlong names dir volume volume where
  grown := le_rfl
  kept _ := List.Subset.refl _
  created _ _ member := .inl member

theorem MadeAlong.leads (made : MadeAlong names dir before after) {node : Nat} (step : before.Leads node name next) :
    after.Leads node name next :=
  made.kept node step

theorem MadeAlong.reads (made : MadeAlong names dir before after) {node reached : Nat} {labels : List (List UInt8)}
    (walk : Reads before.Leads node labels reached) : Reads after.Leads node labels reached :=
  walk.mono fun _ _ _ => made.leads

/-- What is made along the rest of a path is made along the path. -/
theorem MadeAlong.cons {between : Volume} (first : MadeAlong [name] dir before between)
    (step : between.Leads dir name next) (rest : MadeAlong names next between after) :
    MadeAlong (name :: names) dir before after where
  grown := first.grown.trans rest.grown
  kept other := List.Subset.trans (first.kept other) (rest.kept other)
  created other entry member := by
    obtain earlier | ⟨fresh, own⟩ | ⟨front, begins, walk⟩ := rest.created other entry member
    · obtain old | new | ⟨front, begins, walk⟩ := first.created other entry earlier
      · exact .inl old
      · exact .inr (.inl new)
      · exact .inr (.inr ⟨front, begins.trans (List.prefix_append [name] names), rest.reads walk⟩)
    · exact .inr (.inl ⟨first.grown.trans fresh, own⟩)
    · exact .inr (.inr ⟨name :: front, List.cons_prefix_cons.mpr ⟨rfl, begins⟩, .down (rest.leads step) walk⟩)

theorem meetsFile_cons (step : volume.Leads dir name next) (file : volume.MeetsFile next names) :
    volume.MeetsFile dir (name :: names) := by
  obtain ⟨front, last, begins, reached, cluster, walk, member⟩ := file
  exact ⟨name :: front, last, List.cons_prefix_cons.mpr ⟨rfl, begins⟩, reached, cluster, .down step walk, member⟩

/-! ## A directory that is made -/

/-- What `fat_create_dir` leaves. -/
structure Created (volume : Volume) (dir : Nat) (name : List UInt8) (after : Volume) (entry : Entry) : Prop where
  entry_eq : entry = ⟨name.take LONG_NAME_LENGTH, true, volume.directories.length⟩
  unlisted : ∀ other ∈ volume.entries dir, other.longName ≠ name
  length_eq : after.directories.length = volume.directories.length + 1
  here : ∃ place, after.entries dir = (volume.entries dir).take place ++ entry :: (volume.entries dir).drop place
  fresh : after.entries volume.directories.length = Service.newDirectory volume.directories.length dir
  others : ∀ other, other ≠ dir → other ≠ volume.directories.length → after.entries other = volume.entries other

theorem entry_fatCreateDir (made : service.fatCreateDir volume dir name = some (after, entry)) :
    entry = ⟨name.take LONG_NAME_LENGTH, true, volume.directories.length⟩ := by
  rw [Service.fatCreateDir] at made
  split_ifs at made
  split at made
  · exact absurd made (by simp)
  · cases made
    rfl

theorem entries_fatCreateDir (inside : dir < volume.directories.length)
    (made : service.fatCreateDir volume dir name = some (after, entry)) : Created volume dir name after entry := by
  rw [Service.fatCreateDir] at made
  split_ifs at made with refused
  cases given : service.place with
  | none => simp [given] at made
  | some place =>
    simp only [given, Option.some.injEq, Prod.mk.injEq] at made
    obtain ⟨rfl, rfl⟩ := made
    refine ⟨rfl, fun other member same => refused (.inr ⟨other, member, same⟩), by simp, ⟨place, ?_⟩, ?_, ?_⟩
    · simp [Volume.entries, List.getElem?_append, inside]
    · simp [Volume.entries]
    · intro other away behind
      simp only [Volume.entries, List.getD_eq_getElem?_getD]
      obtain earlier | later := Nat.lt_or_ge other volume.directories.length
      · rw [List.getElem?_append_left (by simpa using earlier), List.getElem?_set_ne (Ne.symm away)]
      · have beyond : volume.directories.length + 1 ≤ other := lt_of_le_of_ne later (Ne.symm behind)
        rw [List.getElem?_eq_none (by simpa using beyond), List.getElem?_eq_none later]

theorem entries_length (volume : Volume) : volume.entries volume.directories.length = [] := by
  simp [Volume.entries]

namespace Created

variable {other : Nat}

theorem mem_entries (created : Created volume dir name after entry) (inside : dir < volume.directories.length)
    {item : Entry} : item ∈ after.entries other ↔ item ∈ volume.entries other ∨ (other = dir ∧ item = entry) ∨
      other = volume.directories.length ∧ item ∈ Service.newDirectory other dir := by
  by_cases here : other = dir
  · subst here
    obtain ⟨place, listed⟩ := created.here
    rw [listed, List.mem_append, List.mem_cons]
    have split : item ∈ volume.entries other ↔
        item ∈ (volume.entries other).take place ∨ item ∈ (volume.entries other).drop place := by
      rw [← List.mem_append, List.take_append_drop]
    rw [split]
    have old : other ≠ volume.directories.length := inside.ne
    tauto
  · by_cases new : other = volume.directories.length
    · subst new
      rw [created.fresh, entries_length]
      simp [here]
    · rw [created.others other here new]
      simp [here, new]

theorem leads (created : Created volume dir name after entry) (inside : dir < volume.directories.length)
    (short : name.length ≤ LONG_NAME_LENGTH) : after.Leads dir name volume.directories.length := by
  refine (created.mem_entries inside).mpr (.inr (.inl ⟨rfl, ?_⟩))
  rw [created.entry_eq, List.take_of_length_le short]

theorem madeAlong (created : Created volume dir name after entry) (inside : dir < volume.directories.length)
    (short : name.length ≤ LONG_NAME_LENGTH) : MadeAlong [name] dir volume after where
  grown := created.length_eq ▸ Nat.le_succ _
  kept _ _ member := (created.mem_entries inside).mpr (.inl member)
  created other item member := by
    obtain old | ⟨rfl, rfl⟩ | ⟨rfl, own⟩ := (created.mem_entries inside).mp member
    · exact .inl old
    · refine .inr (.inr ⟨[], ?_, .here _⟩)
      rw [created.entry_eq, List.take_of_length_le short, List.nil_append]
    · exact .inr (.inl ⟨le_rfl, dir, own⟩)

theorem sound (created : Created volume dir name after entry) (inside : dir < volume.directories.length)
    (sound : Sound volume) : Sound after where
  root := created.length_eq ▸ Nat.succ_pos _
  inside other item member directory := by
    rw [created.length_eq]
    obtain old | ⟨-, rfl⟩ | ⟨rfl, own⟩ := (created.mem_entries inside).mp member
    · exact Nat.lt_succ_of_lt (sound.inside other item old directory)
    · rw [created.entry_eq]
      exact Nat.lt_succ_self _
    · rw [Service.newDirectory, List.mem_cons, List.mem_singleton] at own
      obtain rfl | rfl := own
      · exact Nat.lt_succ_self _
      · exact Nat.lt_succ_of_lt inside
  short other item member := by
    obtain old | ⟨-, rfl⟩ | ⟨-, own⟩ := (created.mem_entries inside).mp member
    · exact sound.short other item old
    · rw [created.entry_eq]
      exact List.length_take_le _ _
    · rw [Service.newDirectory, List.mem_cons, List.mem_singleton] at own
      obtain rfl | rfl := own <;> simp [LONG_NAME_LENGTH]

theorem inside (created : Created volume dir name after entry) : entry.cluster < after.directories.length := by
  rw [created.entry_eq, created.length_eq]
  exact Nat.lt_succ_self _

theorem tree (created : Created volume dir name after entry) (inside : dir < volume.directories.length)
    (short : name.length ≤ LONG_NAME_LENGTH) (tree : Tree volume) : Tree after where
  toSound := created.sound inside tree.toSound
  distinct other := by
    by_cases here : other = dir
    · subst here
      obtain ⟨place, listed⟩ := created.here
      rw [listed, List.map_append, List.map_cons, List.nodup_middle, List.nodup_cons, ← List.map_append,
        List.take_append_drop]
      refine ⟨?_, tree.distinct other⟩
      rw [created.entry_eq, List.take_of_length_le short, List.mem_map]
      rintro ⟨item, member, same⟩
      exact created.unlisted item member same
    · by_cases new : other = volume.directories.length
      · subst new
        rw [created.fresh]
        simp [Service.newDirectory]
      · rw [created.others other here new]
        exact tree.distinct other

end Created

/-! ## Following the path by its names -/

/-- The directory of a name, which is made where nothing is listed under it. -/
def enter (service : Service) (volume : Volume) (dir : Nat) (name : List UInt8) : Option (Volume × Nat) :=
  if service.handle = false then none
  else
    match (service.listing volume dir).find? fun entry => entry.longName = name with
    | some entry => if entry.directory = true then some (volume, entry.cluster) else none
    | none => (service.fatCreateDir volume dir name).map fun made => (made.1, made.2.cluster)

theorem listing_subset (service : Service) (volume : Volume) (dir : Nat) :
    service.listing volume dir ⊆ volume.entries dir := by
  rw [Service.listing]
  split
  · exact List.Subset.refl _
  · exact List.take_subset _ _

/-- What is there behind a name that could be entered. -/
structure Entered (volume : Volume) (dir : Nat) (name : List UInt8) (after : Volume) (next : Nat) : Prop where
  tree : Tree after
  inside : next < after.directories.length
  made : MadeAlong [name] dir volume after
  leads : after.Leads dir name next

theorem entered_of_enter (tree : Tree volume) (inside : dir < volume.directories.length)
    (short : name.length ≤ LONG_NAME_LENGTH) (entered : enter service volume dir name = some (after, next)) :
    Entered volume dir name after next := by
  rw [enter] at entered
  split_ifs at entered
  split at entered
  · rename_i item found
    split_ifs at entered with directory
    cases entered
    have member := listing_subset service volume dir (List.mem_of_find?_eq_some found)
    have named : item.longName = name := by simpa using List.find?_some found
    refine ⟨tree, tree.inside dir item member directory, .refl _ _ _, ?_⟩
    rw [← named, Volume.Leads, ← directory]
    exact member
  · obtain ⟨⟨after, item⟩, made, same⟩ := Option.map_eq_some_iff.mp entered
    cases same
    have created := entries_fatCreateDir inside made
    have leads := created.leads inside short
    have cluster : item.cluster = volume.directories.length := congrArg Entry.cluster created.entry_eq
    rw [← cluster] at leads
    exact ⟨created.tree inside short tree, created.inside, created.madeAlong inside short, leads⟩

theorem fatCreateDir_eq_none (refused : service.fatCreateDir volume dir name = none) :
    name = [] ∨ (∃ entry ∈ volume.entries dir, entry.longName = name) ∨ service.place = none := by
  rw [Service.fatCreateDir] at refused
  split_ifs at refused with known
  · exact or_assoc.mp (.inl known)
  · cases given : service.place with
    | none => exact .inr (.inr rfl)
    | some place => simp [given] at refused

/-- A name cannot be entered only if it is a file's, or the medium fails. -/
theorem enter_eq_none (nonempty : name ≠ []) (blocked : enter service volume dir name = none) :
    (∃ cluster, (⟨name, false, cluster⟩ : Entry) ∈ volume.entries dir) ∨ service.Reports := by
  rw [enter] at blocked
  split_ifs at blocked with closed
  · exact .inr (.inl closed)
  split at blocked
  · rename_i item found
    split_ifs at blocked with directory
    have member := listing_subset service volume dir (List.mem_of_find?_eq_some found)
    have named : item.longName = name := by simpa using List.find?_some found
    have file : item.directory = false := Bool.eq_false_of_not_eq_true directory
    refine .inl ⟨item.cluster, ?_⟩
    rw [← named, ← file]
    exact member
  · rename_i missing
    right
    obtain empty | ⟨item, member, named⟩ | full := fatCreateDir_eq_none (Option.map_eq_none_iff.mp blocked)
    · exact absurd empty nonempty
    · refine .inr (.inl fun whole => ?_)
      have listed : item ∈ service.listing volume dir := by
        rw [Service.listing, whole]
        exact member
      simpa [named] using List.find?_eq_none.mp missing item listed
    · exact .inr (.inr full)

end Entries

/-! ## A pass on a component -/

section Pass

variable {service : Service} {volume : Volume} {handle : Entry} {component : Component}

theorem eq_of_fatOpenDir {dir : Nat} (opened : service.fatOpenDir handle = some dir) : dir = handle.cluster := by
  rw [Service.fatOpenDir] at opened
  split_ifs at opened
  exact (Option.some.inj opened).symm

theorem dropWhile_slashes (slashes : Nat) (component : Component) (rest : List UInt8) :
    (List.replicate slashes '/'.toUInt8 ++ component.name ++ rest).dropWhile (· = '/'.toUInt8) =
      component.name ++ rest := by
  rw [List.append_assoc, List.dropWhile_append_of_pos]
  · cases named : component.name with
    | nil => exact absurd named component.nonempty
    | cons ch chars =>
      have plain := (component.plain ch (named ▸ List.mem_cons_self)).1
      rw [List.cons_append, List.dropWhile_cons_of_neg (by simpa using plain)]
  · intro ch member
    simpa using List.eq_of_mem_replicate member

theorem takeWhile_component (component : Component) (further : List (Nat × Component)) :
    (component.name ++ furtherChars further).takeWhile (· ≠ '/'.toUInt8) = component.name := by
  rw [List.takeWhile_append_of_pos fun ch member => by simpa using (component.plain ch member).1]
  cases further with
  | nil => simp [furtherChars]
  | cons item further => simp [furtherChars, List.replicate_succ]

theorem strncmp_component (component : Component) (rest longName : List UInt8) :
    strncmp (cString longName) (cString (component.name ++ rest)) component.name.length = 0 ↔
      component.name <+: longName := by
  have clean : ∀ ch ∈ component.name, ch ≠ 0 := fun ch member => (component.plain ch member).2
  have same : AgreeTo component.name.length (cString (component.name ++ rest)) (cString component.name) := by
    intro k early
    rw [cString, cString, List.getD_append _ _ _ _ early]
  rw [← strncmp_length_eq_zero_iff clean, strncmp_eq_zero_iff, strncmp_eq_zero_iff, fieldText_congr same]

/-- A pass on a path that begins with a component of less than 256 characters. -/
theorem recurseLoop_eq (short : component.name.length < 256) (slashes : Nat) (further : List (Nat × Component)) :
    recurseLoop service volume (Path.chars ⟨slashes, component, further⟩) handle =
      match service.fatOpenDir handle with
      | none => .returned ⟨1, volume, service⟩
      | some dir =>
        match (service.listing volume dir).find? fun entry => component.name <+: entry.longName with
        | some handle =>
          if handle.directory = true then behindPiece service volume (furtherChars further) handle
          else .returned ⟨1, volume, service⟩
        | none =>
          match service.fatCreateDir volume dir component.name with
          | none => .returned ⟨1, volume, service⟩
          | some (volume, handle) => behindPiece service volume (furtherChars further) handle := by
  have length : (UInt8.ofNat component.name.length).toNat = component.name.length := by
    rw [UInt8.toNat_ofNat', Nat.mod_eq_of_lt short]
  simp only [recurseLoop, Path.chars, dropWhile_slashes, takeWhile_component, length, strncmp_component,
    List.take_left, List.drop_left] <;> rfl

/-- The first item with a property has the stronger one, so it is the first with that. -/
theorem find?_eq_find? {α : Type*} {list : List α} {weak strong : α → Bool}
    (implies : ∀ item, strong item = true → weak item = true)
    (first : ∀ item ∈ list.find? weak, strong item = true) : list.find? weak = list.find? strong := by
  cases found : list.find? weak with
  | none =>
    refine (List.find?_eq_none.mpr fun item member holds => ?_).symm
    exact List.find?_eq_none.mp found item member (implies item holds)
  | some item =>
    obtain ⟨-, front, back, rfl, before⟩ := List.find?_eq_some_iff_append.mp found
    refine (List.find?_eq_some_iff_append.mpr ⟨first item found, front, back, rfl, fun other member => ?_⟩).symm
    have fails := before other member
    rw [Bool.not_eq_true'] at fails ⊢
    exact Bool.eq_false_of_not_eq_true fun holds => by simp [implies other holds] at fails

/-- The first entry that begins with a component has the component's name, which is not too long for an entry. -/
def Own (volume : Volume) (dir : Nat) (name : List UInt8) : Prop :=
  name.length ≤ LONG_NAME_LENGTH ∧
    ∀ entry ∈ (volume.entries dir).find? fun entry => name <+: entry.longName, entry.longName = name

theorem Own.find?_listing {dir : Nat} {name : List UInt8} (own : Own volume dir name) :
    (service.listing volume dir).find? (fun entry => name <+: entry.longName) =
      (service.listing volume dir).find? fun entry => entry.longName = name := by
  refine find?_eq_find? (fun entry same => ?_) fun entry found => ?_
  · simp only [decide_eq_true_eq] at same ⊢
    exact same ▸ List.prefix_rfl
  · refine decide_eq_true (own.2 entry ?_)
    rw [Service.listing] at found
    split at found
    · exact found
    · rename_i count _
      rw [← List.take_append_drop count (volume.entries dir), List.find?_append, Option.mem_def.mp found]
      rfl

/-- Where the component finds its own entry, a pass follows the path by its names. -/
theorem recurseLoop_own (own : Own volume handle.cluster component.name) (directory : handle.directory = true)
    (slashes : Nat) (further : List (Nat × Component)) :
    recurseLoop service volume (Path.chars ⟨slashes, component, further⟩) handle =
      (enter service volume handle.cluster component.name).elim (.returned ⟨1, volume, service⟩) fun entered =>
        behindPiece service entered.1 (furtherChars further) ⟨component.name, true, entered.2⟩ := by
  have short : component.name.length < 256 := lt_of_le_of_lt own.1 (by decide)
  rw [recurseLoop_eq short, enter, Service.fatOpenDir]
  cases served : service.handle with
  | false => simp
  | true =>
    simp only [directory, and_self, if_true, own.find?_listing, Bool.true_eq_false, if_false]
    cases found : (service.listing volume handle.cluster).find? fun entry => entry.longName = component.name with
    | some item =>
      have named : item.longName = component.name := by simpa using List.find?_some found
      by_cases subdirectory : item.directory = true
      · have whole : item = ⟨component.name, true, item.cluster⟩ := by rw [← named, ← subdirectory]
        simp [subdirectory, ← whole]
      · simp [subdirectory]
    | none =>
      cases made : service.fatCreateDir volume handle.cluster component.name with
      | none => simp
      | some result =>
        have whole : result.2 = ⟨component.name, true, result.2.cluster⟩ := by
          rw [entry_fatCreateDir made, List.take_of_length_le own.1]
        simp [← whole]

end Pass

/-! ## Calls that follow the path -/

/-- In every directory on the path the component finds its own entry. -/
def Straight : (fat : Stream' Service) → Volume → (dir : Nat) → (names : List (List UInt8)) → Prop
  | _, _, _, [] => True
  | fat, volume, dir, name :: rest =>
    Own volume dir name ∧ ∀ entered ∈ enter fat.head volume dir name, Straight fat.tail entered.1 entered.2 rest

instance Own.decidable (volume : Volume) (dir : Nat) (name : List UInt8) : Decidable (Own volume dir name) :=
  inferInstanceAs (Decidable (_ ∧ _))

instance Straight.decidable : (fat : Stream' Service) → (volume : Volume) → (dir : Nat) →
    (names : List (List UInt8)) → Decidable (Straight fat volume dir names)
  | _, _, _, [] => isTrue trivial
  | fat, volume, dir, name :: rest =>
    have (entered : Volume × Nat) := Straight.decidable fat.tail entered.1 entered.2 rest
    inferInstanceAs (Decidable (Own volume dir name ∧ ∀ entered ∈ enter fat.head volume dir name, _))

/-- What a call that follows the path by its names ends with. -/
structure Ends (names : List (List UInt8)) (dir : Nat) (before : Volume) (outcome : Outcome) : Prop where
  made : MadeAlong names dir before outcome.volume
  path_exists : outcome.value = 0 → outcome.volume.Exists dir names
  reason : outcome.value ≠ 0 → outcome.volume.MeetsFile dir names ∨ outcome.service.Reports

section Straight

variable {fat : Stream' Service} {volume : Volume} {handle : Entry} {component : Component}
  {further : List (Nat × Component)} {outcome : Outcome}

theorem passes_succ (own : Own volume handle.cluster component.name) (directory : handle.directory = true)
    (slashes count : Nat) (further : List (Nat × Component)) :
    passes fat (count + 1) volume (Path.chars ⟨slashes, component, further⟩) handle =
      match enter fat.head volume handle.cluster component.name, further with
      | none, _ => some ⟨1, volume, fat.head⟩
      | some entered, [] => some ⟨0, entered.1, fat.head⟩
      | some entered, (more, next) :: further =>
        passes fat.tail count entered.1 (Path.chars ⟨more + 1, next, further⟩)
          ⟨component.name, true, entered.2⟩ := by
  rw [passes, recurseLoop_own own directory]
  cases enter fat.head volume handle.cluster component.name with
  | none => rfl
  | some entered =>
    cases further with
    | nil => simp [behindPiece, furtherChars]
    | cons item further => simp [behindPiece, furtherChars, Path.chars, List.replicate_succ]

/-- A name that is not entered ends a call for a reason. -/
theorem passes_blocked (own : Own volume handle.cluster component.name) (directory : handle.directory = true)
    (slashes : Nat) (further : List (Nat × Component))
    (blocked : enter fat.head volume handle.cluster component.name = none) :
    ∃ count outcome, passes fat count volume (Path.chars ⟨slashes, component, further⟩) handle = some outcome ∧
      Ends (component.name :: furtherNames further) handle.cluster volume outcome := by
  refine ⟨1, ⟨1, volume, fat.head⟩, ?_, .refl _ _ _, fun zero => absurd zero (by simp), fun _ => ?_⟩
  · rw [passes_succ own directory, blocked]
  · obtain ⟨cluster, member⟩ | reports := enter_eq_none component.nonempty blocked
    · have begins := List.prefix_append [component.name] (furtherNames further)
      exact .inl ⟨[], component.name, begins, handle.cluster, cluster, .here _, member⟩
    · exact .inr reports

/-- A call whose components find their own entries returns with the path there, or for a reason. -/
theorem passes_straight (tree : Tree volume) (inside : handle.cluster < volume.directories.length)
    (directory : handle.directory = true)
    (straight : Straight fat volume handle.cluster (component.name :: furtherNames further)) (slashes : Nat) :
    ∃ count outcome, passes fat count volume (Path.chars ⟨slashes, component, further⟩) handle = some outcome ∧
      Ends (component.name :: furtherNames further) handle.cluster volume outcome := by
  induction further generalizing fat volume handle component slashes with
  | nil =>
    cases entered : enter fat.head volume handle.cluster component.name with
    | none => exact passes_blocked straight.1 directory slashes [] entered
    | some result =>
      have there := entered_of_enter tree inside straight.1.1 entered
      refine ⟨1, ⟨0, result.1, fat.head⟩, ?_, there.made, fun _ => ⟨result.2, .single there.leads⟩,
        fun failed => absurd rfl failed⟩
      rw [passes_succ straight.1 directory, entered]
  | cons item further ih =>
    cases entered : enter fat.head volume handle.cluster component.name with
    | none => exact passes_blocked straight.1 directory slashes (item :: further) entered
    | some result =>
      have there := entered_of_enter tree inside straight.1.1 entered
      have onward : Straight fat.tail result.1 (Entry.mk component.name true result.2).cluster
          (item.2.name :: furtherNames further) := straight.2 result entered
      obtain ⟨count, outcome, ran, ends⟩ := ih there.tree there.inside rfl onward (item.1 + 1)
      refine ⟨count + 1, outcome, ?_, there.made.cons there.leads ends.made, fun zero => ?_, fun failed => ?_⟩
      · rw [passes_succ straight.1 directory, entered]
        exact ran
      · obtain ⟨reached, walk⟩ := ends.path_exists zero
        exact ⟨reached, .down (ends.made.leads there.leads) walk⟩
      · exact (ends.reason failed).imp_left (meetsFile_cons (ends.made.leads there.leads))

/-! ## Calls that go astray -/

/-- A component on the path is not listed, and a name that goes on behind it is. -/
def Astray : (fat : Stream' Service) → Volume → (dir : Nat) → (names : List (List UInt8)) → Prop
  | _, _, _, [] => False
  | fat, volume, dir, name :: rest =>
    ((∀ entry ∈ volume.entries dir, entry.longName ≠ name) ∧ ∃ entry ∈ volume.entries dir, name <+: entry.longName) ∨
      Own volume dir name ∧ ∃ entered ∈ enter fat.head volume dir name, Astray fat.tail entered.1 entered.2 rest

/-- Nothing is lost, and no new name is the beginning of one that was listed. -/
structure Grows (before after : Volume) : Prop where
  kept : ∀ dir, before.entries dir ⊆ after.entries dir
  new : ∀ dir, ∀ entry ∈ after.entries dir, entry ∈ before.entries dir ∨
    ∀ listed ∈ before.entries dir, ¬entry.longName <+: listed.longName

theorem Grows.refl (volume : Volume) : Grows volume volume :=
  ⟨fun _ => List.Subset.refl _, fun _ _ member => .inl member⟩

theorem Grows.trans {before between after : Volume} (first : Grows before between) (second : Grows between after) :
    Grows before after where
  kept dir := List.Subset.trans (first.kept dir) (second.kept dir)
  new dir entry member := by
    obtain earlier | apart := second.new dir entry member
    · exact first.new dir entry earlier
    · exact .inr fun listed old => apart listed (first.kept dir old)

/-- A new directory whose name begins no name that is listed. -/
theorem Created.grows {after : Volume} {dir : Nat} {name : List UInt8} {entry : Entry}
    (created : Created volume dir name after entry) (inside : dir < volume.directories.length)
    (short : name.length ≤ LONG_NAME_LENGTH) (apart : ∀ listed ∈ volume.entries dir, ¬name <+: listed.longName) :
    Grows volume after where
  kept other item member := (created.mem_entries inside).mpr (.inl member)
  new other item member := by
    obtain old | ⟨rfl, rfl⟩ | ⟨rfl, -⟩ := (created.mem_entries inside).mp member
    · exact .inl old
    · rw [created.entry_eq, List.take_of_length_le short]
      exact .inr apart
    · rw [entries_length]
      exact .inr fun listed none => absurd none List.not_mem_nil

/-- What a pass can do: it fails, or it goes on in a directory that is listed or made. -/
theorem recurseLoop_cases (service : Service) (volume : Volume) (path : List UInt8) (handle : Entry) :
    recurseLoop service volume path handle = .returned ⟨1, volume, service⟩ ∨
      ∃ after rest next, recurseLoop service volume path handle = behindPiece service after rest next ∧
        (after = volume ∧ next ∈ volume.entries handle.cluster ∧ next.directory = true ∨
          ∃ name, service.fatCreateDir volume handle.cluster name = some (after, next)) := by
  rw [recurseLoop]
  cases opened : service.fatOpenDir handle with
  | none => exact .inl rfl
  | some dir =>
    cases eq_of_fatOpenDir opened
    dsimp only
    split
    · rename_i next found
      split_ifs with directory
      · have member := listing_subset service volume handle.cluster (List.mem_of_find?_eq_some found)
        exact .inr ⟨volume, _, next, rfl, .inl ⟨rfl, member, directory⟩⟩
      · exact .inl rfl
    · split
      · exact .inl rfl
      · rename_i after next made
        exact .inr ⟨after, _, next, rfl, .inr ⟨_, made⟩⟩

/-- Whatever the path is, no name that is too long comes to be listed. -/
theorem passes_sound {path : List UInt8} (sound : Sound volume) (inside : handle.cluster < volume.directories.length)
    {count : Nat} (ran : passes fat count volume path handle = some outcome) : Sound outcome.volume := by
  induction count generalizing fat volume path handle with
  | zero => exact absurd ran (by simp [passes])
  | succ count ih =>
    rw [passes] at ran
    obtain stop | ⟨after, rest, next, onward, step⟩ := recurseLoop_cases fat.head volume path handle
    · rw [stop] at ran
      cases ran
      exact sound
    · have there : Sound after ∧ next.cluster < after.directories.length := by
        obtain ⟨rfl, member, directory⟩ | ⟨name, made⟩ := step
        · exact ⟨sound, sound.inside _ next member directory⟩
        · have created := entries_fatCreateDir inside made
          exact ⟨created.sound inside sound, created.inside⟩
      rw [onward, behindPiece] at ran
      split_ifs at ran
      · cases ran
        exact there.1
      · exact ih there.1 there.2 ran

/-- The last pass is one of those that the medium serves. -/
theorem passes_service {path : List UInt8} {count : Nat} (ran : passes fat count volume path handle = some outcome) :
    ∃ pass, outcome.service = fat.get pass := by
  induction count generalizing fat volume path handle with
  | zero => exact absurd ran (by simp [passes])
  | succ count ih =>
    rw [passes] at ran
    obtain stop | ⟨after, rest, next, onward, -⟩ := recurseLoop_cases fat.head volume path handle
    · rw [stop] at ran
      cases ran
      exact ⟨0, rfl⟩
    · rw [onward, behindPiece] at ran
      split_ifs at ran
      · cases ran
        exact ⟨0, rfl⟩
      · obtain ⟨pass, served⟩ := ih ran
        exact ⟨pass + 1, served⟩

/-- What comes of a pass. -/
def behindPass (fat : Stream' Service) (count : Nat) : Pass → Option Outcome
  | .returned outcome => some outcome
  | .again volume path handle => passes fat count volume path handle

theorem passes_eq (count : Nat) (path : List UInt8) :
    passes fat (count + 1) volume path handle =
      behindPass fat.tail count (recurseLoop fat.head volume path handle) := by
  rw [passes]
  cases recurseLoop fat.head volume path handle with
  | returned outcome => rfl
  | again volume path handle => rfl

/-- What is listed stays what a component of a path meets first. -/
theorem passes_grows (tree : Tree volume) (inside : handle.cluster < volume.directories.length)
    (whole : ∀ pass, (fat.get pass).breaks = none)
    (short : ∀ name ∈ component.name :: furtherNames further, name.length ≤ LONG_NAME_LENGTH) {slashes count : Nat}
    (ran : passes fat count volume (Path.chars ⟨slashes, component, further⟩) handle = some outcome) :
    Tree outcome.volume ∧ Grows volume outcome.volume := by
  induction count generalizing fat volume handle component slashes further with
  | zero => exact absurd ran (by simp [passes])
  | succ count ih =>
    obtain ⟨here, later⟩ := List.forall_mem_cons.mp short
    have onward {after : Volume} {next : Entry} (tree : Tree after) (grows : Grows volume after)
        (inside : next.cluster < after.directories.length)
        (ran : behindPass fat.tail count (behindPiece fat.head after (furtherChars further) next) = some outcome) :
        Tree outcome.volume ∧ Grows volume outcome.volume := by
      cases further with
      | nil =>
        cases ran
        exact ⟨tree, grows⟩
      | cons item further =>
        have rest := ih tree inside (fun pass => whole (pass + 1)) later ran
        exact ⟨rest.1, grows.trans rest.2⟩
    rw [passes_eq, recurseLoop_eq (lt_of_le_of_lt here (by decide))] at ran
    cases opened : fat.head.fatOpenDir handle with
    | none =>
      rw [opened] at ran
      cases ran
      exact ⟨tree, .refl volume⟩
    | some dir =>
      cases eq_of_fatOpenDir opened
      rw [opened] at ran
      dsimp only at ran
      cases found : (fat.head.listing volume handle.cluster).find? fun entry => component.name <+: entry.longName with
      | some next =>
        simp only [found] at ran
        split_ifs at ran with directory
        · have member := listing_subset fat.head volume handle.cluster (List.mem_of_find?_eq_some found)
          exact onward tree (.refl volume) (tree.inside _ next member directory) ran
        · cases ran
          exact ⟨tree, .refl volume⟩
      | none =>
        cases made : fat.head.fatCreateDir volume handle.cluster component.name with
        | none =>
          simp only [found, made] at ran
          cases ran
          exact ⟨tree, .refl volume⟩
        | some result =>
          simp only [found, made] at ran
          have created := entries_fatCreateDir inside made
          refine onward (created.tree inside here tree) (created.grows inside here fun listed member => ?_)
            created.inside ran
          have unbroken : fat.head.listing volume handle.cluster = volume.entries handle.cluster := by
            have never : fat.head.breaks = none := whole 0
            rw [Service.listing, never]
          rw [unbroken] at found
          simpa using List.find?_eq_none.mp found listed member

/-- A name that is listed leads to one directory only. -/
theorem Tree.tail {dir next : Nat} {name : List UInt8} {names : List (List UInt8)} (tree : Tree volume)
    (step : volume.Leads dir name next) :
    (volume.Exists dir (name :: names) → volume.Exists next names) ∧
      (volume.MeetsFile dir (name :: names) → volume.MeetsFile next names) := by
  have only (other : Nat) (leads : volume.Leads dir name other) : other = next :=
    congrArg Entry.cluster (List.inj_on_of_nodup_map (tree.distinct dir) leads step rfl)
  constructor
  · rintro ⟨reached, walk⟩
    exact ⟨reached, walk.tail only⟩
  · rintro ⟨front, last, begins, reached, cluster, walk, member⟩
    cases front with
    | nil =>
      obtain ⟨rfl, -⟩ := List.cons_prefix_cons.mp begins
      cases walk
      have same := List.inj_on_of_nodup_map (tree.distinct dir) member step rfl
      exact absurd (congrArg Entry.directory same) (by simp)
    | cons label front =>
      obtain ⟨rfl, further⟩ := List.cons_prefix_cons.mp begins
      exact ⟨front, last, further, reached, cluster, walk.tail only, member⟩

/-- Behind a name that is not listed there is no path. -/
theorem not_exists_of_unlisted {dir : Nat} {name : List UInt8} {names : List (List UInt8)}
    (unlisted : ∀ entry ∈ volume.entries dir, entry.longName ≠ name) :
    ¬volume.Exists dir (name :: names) ∧ ¬volume.MeetsFile dir (name :: names) := by
  constructor
  · rintro ⟨reached, walk⟩
    obtain ⟨next, step, -⟩ := reads_cons_iff.mp walk
    exact unlisted _ step rfl
  · rintro ⟨front, last, begins, reached, cluster, walk, member⟩
    cases front with
    | nil =>
      obtain ⟨rfl, -⟩ := List.cons_prefix_cons.mp begins
      cases walk
      exact unlisted _ member rfl
    | cons label front =>
      obtain ⟨rfl, -⟩ := List.cons_prefix_cons.mp begins
      obtain ⟨next, step, -⟩ := reads_cons_iff.mp walk
      exact unlisted _ step rfl

/-- A name that is not listed, where one that goes on behind it is, stays so. -/
theorem passes_unlisted (tree : Tree volume) (inside : handle.cluster < volume.directories.length)
    (whole : ∀ pass, (fat.get pass).breaks = none)
    (short : ∀ name ∈ component.name :: furtherNames further, name.length ≤ LONG_NAME_LENGTH)
    (unlisted : ∀ entry ∈ volume.entries handle.cluster, entry.longName ≠ component.name)
    (longer : ∃ entry ∈ volume.entries handle.cluster, component.name <+: entry.longName) {slashes count : Nat}
    (ran : passes fat count volume (Path.chars ⟨slashes, component, further⟩) handle = some outcome) :
    ∀ entry ∈ outcome.volume.entries handle.cluster, entry.longName ≠ component.name := by
  intro entry member named
  obtain ⟨listed, old, begins⟩ := longer
  obtain earlier | apart := (passes_grows tree inside whole short ran).2.new _ entry member
  · exact unlisted entry earlier named
  · exact apart listed old (named ▸ begins)

/-- A call that goes astray neither makes the path nor meets a file on it. -/
theorem passes_astray (tree : Tree volume) (inside : handle.cluster < volume.directories.length)
    (directory : handle.directory = true) (whole : ∀ pass, (fat.get pass).breaks = none)
    (short : ∀ name ∈ component.name :: furtherNames further, name.length ≤ LONG_NAME_LENGTH)
    (astray : Astray fat volume handle.cluster (component.name :: furtherNames further)) {slashes count : Nat}
    (ran : passes fat count volume (Path.chars ⟨slashes, component, further⟩) handle = some outcome) :
    ¬outcome.volume.Exists handle.cluster (component.name :: furtherNames further) ∧
      ¬outcome.volume.MeetsFile handle.cluster (component.name :: furtherNames further) := by
  induction further generalizing fat volume handle component slashes count with
  | nil =>
    obtain ⟨unlisted, longer⟩ | ⟨-, -, -, ⟨⟩⟩ := astray
    exact not_exists_of_unlisted (passes_unlisted tree inside whole short unlisted longer ran)
  | cons item further ih =>
    obtain ⟨unlisted, longer⟩ | ⟨own, result, entered, onward⟩ := astray
    · exact not_exists_of_unlisted (passes_unlisted tree inside whole short unlisted longer ran)
    · cases count with
      | zero => exact absurd ran (by simp [passes])
      | succ count =>
        have there := entered_of_enter tree inside own.1 entered
        rw [passes_succ own directory, entered] at ran
        have later := (List.forall_mem_cons.mp short).2
        have behind (pass : Nat) : (fat.tail.get pass).breaks = none := whole (pass + 1)
        obtain ⟨unmade, unmet⟩ := ih there.tree there.inside rfl behind later onward ran
        obtain ⟨after, grows⟩ := passes_grows there.tree there.inside behind later ran
        have leads : outcome.volume.Leads handle.cluster component.name result.2 := grows.kept _ there.leads
        exact ⟨fun made => unmade ((after.tail leads).1 made), fun met => unmet ((after.tail leads).2 met)⟩

end Straight

theorem plain_a : 'a'.toUInt8 ≠ '/'.toUInt8 ∧ 'a'.toUInt8 ≠ 0 := by decide

theorem plain_x : 'x'.toUInt8 ≠ '/'.toUInt8 ∧ 'x'.toUInt8 ≠ 0 := by decide

/-- A component of one character. -/
def letter (ch : UInt8) (plain : ch ≠ '/'.toUInt8 ∧ ch ≠ 0) : Component where
  name := [ch]
  nonempty := List.cons_ne_nil ch []
  plain := List.forall_mem_singleton.mpr plain

/-- `a/x`. -/
def pathAx : Path := ⟨0, letter 'a'.toUInt8 plain_a, [(0, letter 'x'.toUInt8 plain_x)]⟩

/-- A medium on which nothing fails, and a new entry comes first. -/
def working : Stream' Service := Stream'.const ⟨true, none, some 0⟩

theorem tree_empty : Tree ⟨[[]]⟩ := by
  have empty (dir : Nat) : (⟨[[]]⟩ : Volume).entries dir = [] := by
    cases dir <;> simp [Volume.entries]
  constructor
  · constructor
    · simp
    · simp [empty]
    · simp [empty]
  · simp [empty]

/-- A card with the directory `abc`. -/
def cardAbc : Volume := ⟨[[⟨['a'.toUInt8, 'b'.toUInt8, 'c'.toUInt8], true, 1⟩], Service.newDirectory 1 0]⟩

end Ethersex.SdReader
