import Mathlib
import Ethersex.Dataflash.Operations
import Ethersex.Eeprom.Laws

/-!
# Seeking in files

Three backends take the offset of a seek as an unsigned 32-bit number and compute the new
position in a type of their own: 16 bits without a sign for inlined files and files on the
EEPROM, 32 bits with a sign for files on the dataflash.  A target that this type cannot
hold comes out as another one, and the only test, against the size of the file, is made on
what comes out.
-/

namespace Ethersex.Vfs

open Eeprom (Whence)

/-- A signed offset as a `vfs_size_t`. -/
def vfsSize (offset : Int) : Nat := (offset % 2 ^ 32).toNat

theorem vfsSize_cast (offset : Int) : (vfsSize offset : Int) = offset % 2 ^ 32 :=
  Int.toNat_of_nonneg (Int.emod_nonneg offset (by decide))

/-! ## The backends -/

/-- `vfs_file_handle_inline_t`. -/
structure InlineHandle where
  offset : Nat
  pos : Nat
  len : Nat
  deriving DecidableEq, Repr

/-- `vfs_inline_fseek`: the handle, and whether the call succeeded. -/
def vfsInlineFseek (handle : InlineHandle) (offset : Nat) (whence : Whence) : InlineHandle × Bool :=
  if whence = .other then (handle, false)
  else
    let newPos := match whence with
      | .cur => (handle.pos + offset) % 65536
      | .fromEnd => (handle.len + offset) % 65536
      | _ => offset % 65536
    if newPos > handle.len then (handle, false) else ({ handle with pos := newPos }, true)

/-- A number as an `fs_size_t`. -/
def fsSizeT (value : Int) : Int := Int.bmod value (2 ^ 32)

/-- `vfs_file_handle_df_t`. -/
structure DfHandle where
  inode : Nat
  offset : Int
  deriving DecidableEq, Repr

/-- `vfs_df_fseek`; without a block of memory, `fs_size` answers with -1. -/
def vfsDfFseek (steps : Nat) (handle : DfHandle) (offset : Nat) (whence : Whence)
    (fs : Dataflash.Fs) : Option (DfHandle × Bool × Dataflash.Fs) := do
  let (len, fs) ← Dataflash.fsSize steps handle.inode fs
  if whence = .other then some (handle, false, fs)
  else
    let newPos := match whence with
      | .cur => fsSizeT (handle.offset + offset)
      | .fromEnd => fsSizeT (len + offset)
      | _ => fsSizeT offset
    if newPos > len then some (handle, false, fs)
    else some ({ handle with offset := newPos }, true, fs)

/-! ## What a seek should do -/

/-- Where a seek should go. -/
def target (whence : Whence) (position size offset : Int) : Int :=
  match whence with
  | .cur => position + offset
  | .fromEnd => size + offset
  | _ => offset

/-- A seek succeeds exactly when its target lies in the file, and then goes there. -/
structure SeekLaw (size target position position' : Int) (success : Bool) : Prop where
  succeeds : success = true ↔ 0 ≤ target ∧ target ≤ size
  moves : success = true → position' = target
  stays : success = false → position' = position

/-- A seek whose target goes through the type of the position. -/
def seekTo (wrap : Int → Int) (len target position : Int) : Int × Bool :=
  if wrap target ≤ len then (wrap target, true) else (position, false)

/-- The type of the position holds the target, or what comes out lies behind the file. -/
def Representable (wrap : Int → Int) (limit size target : Int) : Prop :=
  (0 ≤ target ∧ target < limit) ∨ size < wrap target

section Law

variable {wrap : Int → Int} {limit size goal : Int}

theorem seekTo_of_le (inside : wrap goal ≤ size) (position : Int) :
    seekTo wrap size goal position = (wrap goal, true) := if_pos inside

theorem seekTo_of_lt (beyond : size < wrap goal) (position : Int) :
    seekTo wrap size goal position = (position, false) := if_neg (Int.not_le.mpr beyond)

theorem seekLaw_iff (keeps : ∀ value, 0 ≤ value → value < limit → wrap value = value)
    (small : size < limit) (position : Int) :
    SeekLaw size goal position (seekTo wrap size goal position).1 (seekTo wrap size goal position).2 ↔
      Representable wrap limit size goal := by
  rcases Int.lt_or_le size (wrap goal) with beyond | inside
  · rw [seekTo_of_lt beyond]
    refine iff_of_true ⟨iff_of_false Bool.false_ne_true fun within => ?_, nofun, fun _ => rfl⟩
      (.inr beyond)
    rw [keeps goal within.1 (Int.lt_of_le_of_lt within.2 small)] at beyond
    exact Int.not_le.mpr beyond within.2
  · rw [seekTo_of_le inside]
    constructor
    · intro law
      obtain ⟨lower, upper⟩ := law.succeeds.mp rfl
      exact .inl ⟨lower, Int.lt_of_le_of_lt upper small⟩
    · intro representable
      obtain ⟨lower, upper⟩ := representable.resolve_right (Int.not_lt.mpr inside)
      have same := keeps goal lower upper
      rw [same] at inside ⊢
      exact ⟨iff_of_true rfl ⟨lower, inside⟩, fun _ => rfl, nofun⟩

end Law

/-! ## What the backends do -/

theorem wrap16_add (position offset : Int) : (position + vfsSize offset) % 65536 =
    (position + offset) % 65536 := by
  rw [vfsSize_cast]
  omega

theorem wrap16 (offset : Int) : (vfsSize offset : Int) % 65536 = offset % 65536 := by
  simpa using wrap16_add 0 offset

theorem fsSizeT_add (position offset : Int) :
    fsSizeT (position + vfsSize offset) = fsSizeT (position + offset) := by
  rw [vfsSize_cast, fsSizeT, fsSizeT, ← Int.emod_bmod (position + offset % 2 ^ 32),
    ← Int.emod_bmod (position + offset)]
  congr 1
  omega

theorem fsSizeT_of_small {value : Int} (lower : 0 ≤ value) (upper : value < 2 ^ 31) :
    fsSizeT value = value := by
  refine Int.bmod_eq_of_le ?_ ?_ <;> omega

section Backends

variable {whence : Whence}

/-- A seek with a 16-bit position. -/
theorem seekTo_wrap16 {newPos size : Nat} {goal : Int} (computed : (newPos : Int) = goal % 65536)
    (position : Int) :
    seekTo (· % 65536) size goal position =
      if newPos > size then (position, false) else ((newPos : Int), true) := by
  split_ifs with beyond
  · refine seekTo_of_lt ?_ position
    rw [← computed]
    exact Int.ofNat_lt.mpr beyond
  · rw [computed]
    refine seekTo_of_le ?_ position
    rw [← computed]
    exact Int.ofNat_le.mpr (Nat.not_lt.mp beyond)

theorem vfsInlineFseek_eq (valid : whence ≠ .other) (handle : InlineHandle) (offset : Int) :
    (((vfsInlineFseek handle (vfsSize offset) whence).1.pos : Int),
        (vfsInlineFseek handle (vfsSize offset) whence).2) =
      seekTo (· % 65536) handle.len (target whence handle.pos handle.len offset) handle.pos := by
  obtain ⟨newPos, computed, call⟩ : ∃ newPos : Nat,
      (newPos : Int) = target whence handle.pos handle.len offset % 65536 ∧
      vfsInlineFseek handle (vfsSize offset) whence =
        if newPos > handle.len then (handle, false) else ({ handle with pos := newPos }, true) := by
    cases whence with
    | set => exact ⟨_, wrap16 offset, rfl⟩
    | cur => exact ⟨_, wrap16_add handle.pos offset, rfl⟩
    | fromEnd => exact ⟨_, wrap16_add handle.len offset, rfl⟩
    | other => exact absurd rfl valid
  rw [seekTo_wrap16 computed, call]
  split_ifs <;> rfl

theorem vfsEepromFseek_eq (valid : whence ≠ .other) {eeprom : Eeprom.Device}
    {handle : Eeprom.Handle} {size : Nat}
    (sized : Eeprom.vfsEepromFilesize handle eeprom = some size) (offset : Int) :
    ∃ handle' success, Eeprom.vfsEepromFseek handle (vfsSize offset) whence eeprom =
        some (handle', success) ∧ handle'.filePage = handle.filePage ∧
      ((handle'.offset : Int), success) =
        seekTo (· % 65536) size (target whence handle.offset size offset) handle.offset := by
  obtain ⟨newPos, computed, call⟩ : ∃ newPos : Nat,
      (newPos : Int) = target whence handle.offset size offset % 65536 ∧
      Eeprom.vfsEepromFseek handle (vfsSize offset) whence eeprom =
        if newPos > size then some (handle, false)
        else some ({ handle with offset := newPos }, true) := by
    rw [Eeprom.vfsEepromFseek, if_neg valid, sized, Option.bind_eq_bind, Option.bind_some]
    cases whence with
    | set => exact ⟨_, wrap16 offset, rfl⟩
    | cur => exact ⟨_, wrap16_add handle.offset offset, rfl⟩
    | fromEnd => exact ⟨_, wrap16_add size offset, rfl⟩
    | other => exact absurd rfl valid
  rw [seekTo_wrap16 computed, call]
  split_ifs
  · exact ⟨_, _, rfl, rfl, rfl⟩
  · exact ⟨_, _, rfl, rfl, rfl⟩

theorem vfsDfFseek_eq (valid : whence ≠ .other) {steps : Nat} {fs fs' : Dataflash.Fs}
    {handle : DfHandle} {len : Int}
    (sized : Dataflash.fsSize steps handle.inode fs = some (len, fs')) (offset : Int) :
    ∃ handle' success, vfsDfFseek steps handle (vfsSize offset) whence fs =
        some (handle', success, fs') ∧ handle'.inode = handle.inode ∧
      (handle'.offset, success) =
        seekTo fsSizeT len (target whence handle.offset len offset) handle.offset := by
  obtain ⟨newPos, computed, call⟩ : ∃ newPos : Int,
      newPos = fsSizeT (target whence handle.offset len offset) ∧
      vfsDfFseek steps handle (vfsSize offset) whence fs =
        if newPos > len then some (handle, false, fs')
        else some ({ handle with offset := newPos }, true, fs') := by
    rw [vfsDfFseek, sized, Option.bind_eq_bind, Option.bind_some]
    simp only [if_neg valid]
    cases whence with
    | set => exact ⟨_, by simpa [target] using fsSizeT_add 0 offset, rfl⟩
    | cur => exact ⟨_, fsSizeT_add handle.offset offset, rfl⟩
    | fromEnd => exact ⟨_, fsSizeT_add len offset, rfl⟩
    | other => exact absurd rfl valid
  rw [call]
  split_ifs with beyond
  · exact ⟨_, _, rfl, rfl, (seekTo_of_lt (computed ▸ beyond) _).symm⟩
  · rw [seekTo_of_le (computed ▸ Int.not_lt.mp beyond), ← computed]
    exact ⟨_, _, rfl, rfl, rfl⟩

end Backends

/-! ## Sizes -/

section DataflashSize

open Dataflash Library

/-- The inode behind another one on its chain; 4096 ends the chain. -/
def nextInode (fs : Fs) (inode : Nat) : Nat :=
  match fsPage fs inode with
  | none => 4096
  | some page => if (readPage fs page).eof then 4096 else (readPage fs page).nextInode

theorem nextInode_le (fs : Fs) (inode : Nat) : nextInode fs inode ≤ 4096 := by
  rw [nextInode]
  split
  · exact le_rfl
  · split_ifs
    · exact le_rfl
    · exact Nat.le_of_lt (Fin.isLt _)

/-- A file whose size can be computed ends, and its pages have 16-bit sizes. -/
theorem sizeLoop_le {fs : Fs} {steps inode before : Nat} {size : Int}
    (sized : sizeLoop fs steps inode before = some size) :
    ∃ nodes, Chain (nextInode fs) 4096 inode nodes ∧ 0 ≤ size ∧
      size ≤ before + 65535 * (nodes.length + 1) := by
  induction steps generalizing inode before with
  | zero => exact nomatch sized
  | succ steps ih =>
      rw [sizeLoop] at sized
      cases found : fsPage fs inode with
      | none =>
          rw [found] at sized
          obtain rfl := Option.some.inj sized
          refine ⟨[], ?_, le_rfl, by positivity⟩
          rw [Chain, nextInode, found]
      | some page =>
          simp only [found] at sized
          have header := (readPage fs page).size.isLt
          by_cases last : (readPage fs page).eof
          · rw [if_pos last] at sized
            obtain rfl := Option.some.inj sized
            refine ⟨[], ?_, by positivity, ?_⟩
            · simp only [Chain, nextInode, found, if_pos last]
            · simp only [List.length_nil]
              omega
          · rw [if_neg last] at sized
            obtain ⟨nodes, chain, lower, upper⟩ := ih sized
            have link : nextInode fs inode = (readPage fs page).nextInode := by
              simp only [nextInode, found, if_neg last]
            refine ⟨_ :: nodes, ⟨link, Nat.ne_of_lt (Fin.isLt _), chain⟩, lower, ?_⟩
            simp only [List.length_cons]
            push_cast at upper ⊢
            omega

theorem sizeLoop_lt {fs : Fs} {steps inode : Nat} {size : Int}
    (sized : sizeLoop fs steps inode 0 = some size) : size < 2 ^ 31 := by
  obtain ⟨nodes, chain, -, upper⟩ := sizeLoop_le sized
  have inside : nodes ⊆ List.range 4097 := by
    intro node member
    rw [List.mem_range]
    obtain ⟨front, rest, rfl⟩ := List.append_of_mem member
    have link := chain.drop.1
    exact link ▸ Nat.lt_succ_of_le (nextInode_le fs _)
  have few := ((List.nodup_cons.mp chain.nodup).2.subperm inside).length_le
  rw [List.length_range] at few
  omega

theorem sizeLoop_malloc (fs : Fs) (steps inode size : Nat) :
    sizeLoop (malloc fs).2 steps inode size = sizeLoop fs steps inode size := by
  have pages : fsPage (malloc fs).2 = fsPage fs := fsPage_congr rfl rfl
  have headers : readPage (malloc fs).2 = readPage fs := readPage_congr rfl
  induction steps generalizing inode size with
  | zero => rfl
  | succ steps ih => simp only [sizeLoop, ih, pages, headers]

/-- `fs_size` of a file that ends. -/
theorem fsSize_eq {fs : Fs} {steps inode : Nat} {size : Int}
    (sized : sizeLoop fs steps inode 0 = some size) :
    fsSize steps inode fs = some (if (malloc fs).1.isSome then size else -1, (malloc fs).2) := by
  rw [← sizeLoop_malloc] at sized
  rw [fsSize]
  cases memory : (malloc fs).1 with
  | none => rw [show malloc fs = (none, (malloc fs).2) from Prod.ext memory rfl]; rfl
  | some block =>
      rw [show malloc fs = (some block, (malloc fs).2) from Prod.ext memory rfl]
      simp only [sized]
      rfl

end DataflashSize

section EepromSize

open Eeprom Library

variable {s : State} {handle : Handle}

/-- The size of an open file can be computed, and is a 16-bit number. -/
theorem openFile_size (reached : Reached s) (member : handle ∈ s.handles) (position : Nat) :
    ∃ size < 65536, vfsEepromFilesize ⟨handle.filePage, position⟩ s.eeprom = some size := by
  obtain ⟨layout, good⟩ := reached.good
  obtain ⟨file, -⟩ := good.handles handle member
  refine ⟨_, ?_, good.sound.filesize file position⟩
  have short := good.sound.length_lt (good.sound.distinctPages _ file)
    fun page inChain => Layout.uses_page file inChain
  have bytes := length_contents_le (good.sound.fits _ file)
  rw [length_blocks] at bytes
  refine Nat.lt_of_le_of_lt (bytes.trans (Nat.mul_le_mul_left dataSize (Nat.le_of_lt short))) ?_
  decide

end EepromSize

/-! ## The law -/

/-- Where a seek obeys the law: on the dataflash, a call without memory does when the target
is out of the file and does not come out as a negative number. -/
def DfSeekable (memory : Bool) (whence : Whence) (position size offset : Int) : Prop :=
  if memory then Representable fsSizeT (2 ^ 31) size (target whence position size offset)
  else 0 ≤ fsSizeT (target whence position (-1) offset) ∧
    ¬(0 ≤ target whence position size offset ∧ target whence position size offset ≤ size)

/-- Without memory, a seek works on a file of size -1. -/
theorem seekLaw_without_memory {size goal position : Int} (goal' : Int) :
    SeekLaw size goal position (seekTo fsSizeT (-1) goal' position).1
        (seekTo fsSizeT (-1) goal' position).2 ↔
      0 ≤ fsSizeT goal' ∧ ¬(0 ≤ goal ∧ goal ≤ size) := by
  rcases Int.lt_or_le (-1) (fsSizeT goal') with beyond | negative
  · rw [seekTo_of_lt beyond]
    constructor
    · exact fun law => ⟨by omega, fun within => Bool.false_ne_true (law.succeeds.mpr within)⟩
    · exact fun ⟨_, outside⟩ => ⟨iff_of_false Bool.false_ne_true outside, nofun, fun _ => rfl⟩
  · rw [seekTo_of_le negative]
    refine iff_of_false (fun law => ?_) (fun ⟨lower, _⟩ => by omega)
    have inside := law.succeeds.mp rfl
    have moved := law.moves rfl
    omega

/-- A device without files. -/
def emptyVolume : Dataflash.Fs := ⟨Dataflash.blankChip, 0, 0, 0, fun _ => some fun _ => 0, 0, []⟩

end Ethersex.Vfs
