import Mathlib
import Ethersex.Library.Bytes

/-!
# The dataflash device and the structures stored in it

The chip of `hardware/storage/dataflash/df.h`: 4096 pages of 528 bytes and two
buffers of the same size.  Programming a page is recorded, so that a power
failure can cut the sequence of programs.

The packed structures of `fs.c` follow, with the layout that avr-gcc gives them:
bit-fields fill their 16-bit unit from the least significant bit and there is no
padding.
-/

namespace Ethersex.Dataflash

open Library

/-- `DF_PAGES`. -/
def dfPages : Nat := 4096

/-- `DF_PAGESIZE`. -/
def dfPagesize : Nat := 528

/-- `df_buf_t`. -/
inductive DfBuf where
  | buf1
  | buf2
  deriving DecidableEq

/-- The chip.  `programs` lists the pages programmed so far with their contents. -/
structure Chip where
  flash : Nat → Bytes
  buf1 : Bytes
  buf2 : Bytes
  programs : List (Nat × Bytes)

namespace Chip

def buffer (chip : Chip) : DfBuf → Bytes
  | .buf1 => chip.buf1
  | .buf2 => chip.buf2

def setBuffer (chip : Chip) (data : Bytes) : DfBuf → Chip
  | .buf1 => { chip with buf1 := data }
  | .buf2 => { chip with buf2 := data }

end Chip

/-- The bytes `df_flash_read` delivers from an offset on.  Page addresses have 12
bits, and reading wraps at the end of the page. -/
def dfFlashRead (chip : Chip) (page offset : Nat) : Bytes :=
  readFrom dfPagesize offset (chip.flash (page % dfPages))

/-- `df_buf_load`. -/
def dfBufLoad (buf : DfBuf) (page : Nat) (chip : Chip) : Chip :=
  chip.setBuffer (chip.flash (page % dfPages)) buf

/-- The bytes `df_buf_read` delivers from an offset on. -/
def dfBufRead (chip : Chip) (buf : DfBuf) (offset : Nat) : Bytes :=
  readFrom dfPagesize offset (chip.buffer buf)

/-- `df_buf_write`. -/
def dfBufWrite (buf : DfBuf) (data : Bytes) (offset len : Nat) (chip : Chip) : Chip :=
  chip.setBuffer (overlay dfPagesize offset len data (chip.buffer buf)) buf

/-- `df_buf_save`. -/
def dfBufSave (buf : DfBuf) (page : Nat) (chip : Chip) : Chip :=
  { chip with
    flash := Function.update chip.flash (page % dfPages) (chip.buffer buf)
    programs := chip.programs ++ [(page % dfPages, chip.buffer buf)] }

/-! ## Stored structures -/

/-- `FS_STRUCTURE_OFFSET`. -/
def fsStructureOffset : Nat := 0

/-- `FS_DATA_OFFSET`. -/
def fsDataOffset : Nat := 15

/-- `FS_CRC_OFFSET`. -/
def fsCrcOffset : Nat := dfPagesize - 1

/-- `FS_CRC_LENGTH`. -/
def fsCrcLength : Nat := dfPagesize - fsStructureOffset - 1

/-- `FS_ROOTNODE_INODETABLE_SIZE`. -/
def fsRootnodeInodetableSize : Nat := 16

/-- `sizeof(fs_page_t)`. -/
def sizeofPage : Nat := 4

/-- `sizeof(fs_node_t)`. -/
def sizeofNode : Nat := 8

/-- `sizeof(fs_root_t)`. -/
def sizeofRoot : Nat := 40

/-- Offset of the field `version` in `fs_root_t`. -/
def versionOffset : Nat := 4

/-- `FS_ROOTNODE_INODETABLE_OFFSET`. -/
def fsRootnodeInodetableOffset : Nat := 8

/-- `FS_ROOTNODE_NODETABLE_OFFSET`. -/
def fsRootnodeNodetableOffset : Nat := 40

/-- `FS_INODES_PER_TABLE`. -/
def fsInodesPerTable : Nat := 256

/-- `FS_NODES_IN_ROOT`. -/
def fsNodesInRoot : Nat := (dfPagesize - sizeofRoot - 1) / sizeofNode

/-- `FS_DATASIZE`. -/
def fsDatasize : Nat := 512

/-- `FS_FILENAME`. -/
def fsFilename : Nat := 6

/-! The numerals of four flags, of six characters and of fields of 12 and 16 bits. -/

scoped instance neZero_flags : NeZero 4 := ⟨by decide⟩

scoped instance neZero_name : NeZero 6 := ⟨by decide⟩

scoped instance neZero_field12 : NeZero 4096 := ⟨by decide⟩

scoped instance neZero_field16 : NeZero 65536 := ⟨by decide⟩

/-- `fs_page_t`: the structure at the beginning of each page. -/
structure FsPage where
  unused : Bool
  root : Bool
  eof : Bool
  reserved : Bool
  nextInode : Fin 4096
  size : Fin 65536

/-- `fs_inodetable_node_t`. -/
structure InodetableNode where
  unused : Bool
  reserved : Bool × Bool × Bool
  page : Fin 4096

/-- `fs_node_t`: a directory entry. -/
structure FsNode where
  unused : Bool
  file : Bool
  reserved : Bool × Bool
  inode : Fin 4096
  name : Fin 6 → UInt8

namespace FsPage

def encode (page : FsPage) : Bytes := fun k =>
  if k < 2 then
    FlagWord.encode ⟨![page.unused, page.root, page.eof, page.reserved], page.nextInode⟩ k
  else encode16 page.size (k - 2)

def decode (data : Bytes) : FsPage :=
  let word := FlagWord.decode data
  { unused := word.flags 0
    root := word.flags 1
    eof := word.flags 2
    reserved := word.flags 3
    nextInode := word.value
    size := ⟨decode16 fun k => data (2 + k), decode16_lt _⟩ }

theorem decode_congr {left right : Bytes} (agree : AgreeTo 4 left right) :
    decode left = decode right := by
  have size : AgreeTo 2 (fun k => left (2 + k)) fun k => right (2 + k) :=
    fun k small => agree (2 + k) (by omega)
  simp only [decode, FlagWord.decode_congr (agree.mono (by decide)), decode16_congr size]

theorem decode_encode (page : FsPage) : decode page.encode = page := by
  have word : FlagWord.decode page.encode =
      ⟨![page.unused, page.root, page.eof, page.reserved], page.nextInode⟩ := by
    have head : AgreeTo 2 page.encode (FlagWord.encode
        ⟨![page.unused, page.root, page.eof, page.reserved], page.nextInode⟩) :=
      fun k small => if_pos small
    rw [FlagWord.decode_congr head, FlagWord.decode_encode]
  have size : decode16 (fun k => page.encode (2 + k)) = page.size := by
    rw [@decode16_congr _ (encode16 page.size), decode16_encode16 page.size.isLt]
    intro k _
    simp only [encode]
    rw [if_neg (by omega), Nat.add_sub_cancel_left]
  simp only [decode, word, size]
  rfl

end FsPage

namespace InodetableNode

def encode (node : InodetableNode) : Bytes :=
  FlagWord.encode
    ⟨![node.unused, node.reserved.1, node.reserved.2.1, node.reserved.2.2], node.page⟩

def decode (data : Bytes) : InodetableNode :=
  let word := FlagWord.decode data
  ⟨word.flags 0, (word.flags 1, word.flags 2, word.flags 3), word.value⟩

theorem decode_congr {left right : Bytes} (agree : AgreeTo 2 left right) :
    decode left = decode right := by
  simp only [decode, FlagWord.decode_congr agree]

theorem decode_encode (node : InodetableNode) : decode node.encode = node := by
  simp only [decode, encode, FlagWord.decode_encode]
  rfl

end InodetableNode

namespace FsNode

def encode (node : FsNode) : Bytes := fun k =>
  if k < 2 then
    FlagWord.encode ⟨![node.unused, node.file, node.reserved.1, node.reserved.2], node.inode⟩ k
  else if inside : k - 2 < 6 then node.name ⟨k - 2, inside⟩ else 0

def decode (data : Bytes) : FsNode :=
  let word := FlagWord.decode data
  { unused := word.flags 0
    file := word.flags 1
    reserved := (word.flags 2, word.flags 3)
    inode := word.value
    name := fun i => data (2 + i) }

theorem decode_congr {left right : Bytes} (agree : AgreeTo 8 left right) :
    decode left = decode right := by
  have name : (fun i : Fin 6 => left (2 + i)) = fun i : Fin 6 => right (2 + i) :=
    funext fun i => agree (2 + i) (by have := i.isLt; omega)
  simp only [decode, FlagWord.decode_congr (agree.mono (by decide)), name]

theorem decode_encode (node : FsNode) : decode node.encode = node := by
  have word : FlagWord.decode node.encode =
      ⟨![node.unused, node.file, node.reserved.1, node.reserved.2], node.inode⟩ := by
    have head : AgreeTo 2 node.encode (FlagWord.encode
        ⟨![node.unused, node.file, node.reserved.1, node.reserved.2], node.inode⟩) :=
      fun k small => if_pos small
    rw [FlagWord.decode_congr head, FlagWord.decode_encode]
  have name : (fun i : Fin 6 => node.encode (2 + i)) = node.name := by
    funext i
    have := i.isLt
    simp only [encode]
    rw [if_neg (by omega), dif_pos (by omega)]
    simp
  simp only [decode, word, name]
  rfl

end FsNode

end Ethersex.Dataflash
