import Mathlib
import Ethersex.Library.CString
import Ethersex.Dataflash.Device

/-!
# The dataflash file system

Definitions of `hardware/storage/dataflash/fs.c`, under the names of that file.

`malloc` is an oracle: call number `n` delivers the block `heap n`, whose contents
are arbitrary, or fails.  Functions that check the result return `FS_MEM` in that
case.  `fs_increment` and `fs_get_inode` do not check it and overwrite the block,
so their calls do not appear.  Uninitialised local variables have the contents
of a block as well.

A page or inode number `0xffff`, which stands for none, is `none`.  A result
`none` of a whole function means that a loop does not end.  Offsets, lengths and
sizes are not negative.
-/

namespace Ethersex.Dataflash

open Library

/-- `fs_status_t`. -/
inductive FsStatus where
  | ok
  | noSuchFile
  | eof
  | badPage
  | badInode
  | duplicate
  | mem
  | badSeek
  /-- The value `-1`, which is none of the constants. -/
  | invalid
  deriving DecidableEq, Repr

/-- A page that `fs_new_page` has returned, with the flash and the root page at
that time. -/
structure Alloc where
  flash : Nat → Bytes
  root : Nat
  page : Nat

/-- `fs_t`, with the chip it is on, the `malloc` oracle, and the pages allocated
so far. -/
structure Fs where
  chip : Chip
  root : Nat
  version : Nat
  lastFree : Nat
  heap : Nat → Option Bytes
  mallocs : Nat
  allocs : List Alloc

/-- `malloc`. -/
def malloc (fs : Fs) : Option Bytes × Fs :=
  (fs.heap fs.mallocs, { fs with mallocs := fs.mallocs + 1 })

/-- The contents of an uninitialised local variable. -/
def uninitialised (fs : Fs) : Bytes := (fs.heap fs.mallocs).getD fun _ => 0

/-! ## Names -/

/-- The field `name` of a node, which need not be terminated. -/
def FsNode.nameBytes (node : FsNode) : Bytes := fun k =>
  if inside : k < 6 then node.name ⟨k, inside⟩ else 0

/-! ## The map of free pages -/

/-- `fs_used`. -/
def fsUsed (fs : Fs) (page : Nat) : Bool :=
  let b := dfBufRead fs.chip .buf2 (page / 8) 0
  decide (b &&& (1 <<< UInt8.ofNat (page % 8)) = 0)

/-- `fs_mark`. -/
def fsMark (page : Nat) (isFree : Bool) (fs : Fs) : Fs :=
  let b := dfBufRead fs.chip .buf2 (page / 8) 0
  let bit := 1 <<< UInt8.ofNat (page % 8)
  let b := if isFree then b ||| bit else b &&& ~~~bit
  { fs with chip := dfBufWrite .buf2 (fun _ => b) (page / 8) 1 fs.chip }

/-- `fs_mark_used`. -/
def fsMarkUsed (page : Nat) (fs : Fs) : Fs := fsMark page false fs

/-- The search loop of `fs_new_page`, which is back at the last free page after at
most as many steps as there are pages. -/
def seekPage (used : Nat → Bool) (lastFree : Nat) : (steps : Nat) → (page : Nat) → Nat
  | 0, page => page
  | steps + 1, page =>
      if used page ∧ page ≠ lastFree then
        seekPage used lastFree steps ((page + 1) % dfPages)
      else page

/-- `fs_new_page`. -/
def fsNewPage (fs : Fs) : Option Nat × Fs :=
  let page := seekPage (fsUsed fs) fs.lastFree dfPages ((fs.lastFree + 1) % dfPages)
  if page = fs.lastFree then (none, fs)
  else
    (some page,
      { fs with lastFree := page, allocs := fs.allocs ++ [⟨fs.chip.flash, fs.root, page⟩] })

/-! ## Inodes -/

/-- `fs_inodetable`. -/
def fsInodetable (fs : Fs) (tableid : Nat) : Nat :=
  decode16 (dfFlashRead fs.chip fs.root (fsRootnodeInodetableOffset + tableid * 2))

/-- The inode table entry that `fs_page` and `fs_new_inode` read. -/
def inodeNode (fs : Fs) (inode : Nat) : InodetableNode :=
  let page := fsInodetable fs (inode / fsInodesPerTable)
  .decode (dfFlashRead fs.chip page (fsDataOffset + inode % fsInodesPerTable * 2))

/-- `fs_page`. -/
def fsPage (fs : Fs) (inode : Nat) : Option Nat :=
  let node := inodeNode fs inode
  if node.unused then none else some node.page

/-- The page number `0xffff` that `fs_page` returns for an unused inode. -/
def noPage : Nat := 0xffff

/-- `fs_new_inode`: the two loops run over all inodes in order. -/
def fsNewInode (fs : Fs) : Option Nat :=
  (List.range (fsRootnodeInodetableSize * fsInodesPerTable)).find? fun inode =>
    (inodeNode fs inode).unused

/-- A page number or inode number in a 12-bit field. -/
def field12 (number : Option Nat) : Fin 4096 := Fin.ofNat 4096 (number.getD 0xffff)

/-- A size in a 16-bit field. -/
def field16 (size : Nat) : Fin 65536 := Fin.ofNat 65536 size

/-! ## The root page -/

/-- `_crc_ibutton_update`. -/
def crcIbuttonUpdate (crc data : UInt8) : UInt8 :=
  (List.range 8).foldl
    (fun crc _ => if crc &&& 1 ≠ 0 then (crc >>> 1) ^^^ 0x8c else crc >>> 1) (crc ^^^ data)

/-- `fs_crc`. -/
def fsCrc (chip : Chip) (buf : DfBuf) : (crc : UInt8) → (offset length : Nat) → UInt8
  | crc, _, 0 => crc
  | crc, offset, length + 1 =>
      fsCrc chip buf (crcIbuttonUpdate crc (dfBufRead chip buf offset 0)) (offset + 1) length

/-- Write the checksum of the page in `BUF1`. -/
def writeCrc (chip : Chip) : Chip :=
  let crc := fsCrc chip .buf1 0 fsStructureOffset fsCrcLength
  dfBufWrite .buf1 (fun _ => crc) fsCrcOffset 1 chip

/-- `fs_increment`. -/
def fsIncrement (fs : Fs) : FsStatus × Fs :=
  let root := dfBufRead fs.chip .buf1 fsStructureOffset
  let fs := { fs with version := (fs.version + 1) % 2 ^ 32 }
  let root := overlay sizeofRoot versionOffset 4 (encode32 fs.version) root
  let fs :=
    { fs with
      chip := writeCrc (dfBufWrite .buf1 root fsStructureOffset sizeofRoot fs.chip) }
  match fsNewPage fs with
  | (none, fs) => (.badPage, fs)
  | (some page, fs) => (.ok, { fs with chip := dfBufSave .buf1 page fs.chip, root := page })

/-- `fs_update_inodetable`. -/
def fsUpdateInodetable (inode : Nat) (page : Option Nat) (fs : Fs) : FsStatus × Fs :=
  match fsNewPage fs with
  | (none, fs) => (.badPage, fs)
  | (some newPage, fs) =>
      match malloc fs with
      | (none, fs) => (.mem, fs)
      | (some block, fs) =>
          let node := InodetableNode.decode block
          let node : InodetableNode :=
            match page with
            | none => { node with unused := true }
            | some page => { node with unused := false, page := Fin.ofNat 4096 page }
          let table := fsInodetable fs (inode / fsInodesPerTable)
          let chip := dfBufLoad .buf1 table fs.chip
          let chip :=
            dfBufWrite .buf1 node.encode (fsDataOffset + inode % fsInodesPerTable * 2) 2 chip
          let chip := dfBufSave .buf1 newPage chip
          let chip := dfBufLoad .buf1 fs.root chip
          let chip := dfBufWrite .buf1 (encode16 newPage)
            (fsRootnodeInodetableOffset + inode / fsInodesPerTable * 2) 2 chip
          fsIncrement { fs with chip }

/-! ## The directory -/

/-- The directory entry at an index, read from the root page in flash. -/
def readNode (fs : Fs) (index : Nat) : FsNode :=
  .decode (dfFlashRead fs.chip fs.root (fsRootnodeNodetableOffset + index * sizeofNode))

/-- Write a directory entry to the page in `BUF1`. -/
def writeNode (node : FsNode) (index : Nat) (chip : Chip) : Chip :=
  dfBufWrite .buf1 node.encode (fsRootnodeNodetableOffset + index * sizeofNode) sizeofNode chip

/-- `fs_list`, with the seven bytes it writes to `buf`. -/
def fsList (index : Nat) (fs : Fs) : FsStatus × Bytes × Fs :=
  match malloc fs with
  | (none, fs) => (.mem, fun _ => 0, fs)
  | (some _, fs) =>
      let node := readNode fs index
      let buf : Bytes := fun k => if k < fsFilename then strncpy node.nameBytes k else 0
      (if node.unused then .eof else .ok, buf, fs)

/-- The search loop of `fs_get_inode`.  The index has 16 bits, so a search of more
steps does not end. -/
def seekName (fs : Fs) (name : List UInt8) : (steps index : Nat) → Option (Option Nat)
  | 0, _ => none
  | steps + 1, index =>
      let node := readNode fs index
      if strncmp node.nameBytes (cString name) fsFilename = 0 then some (some node.inode)
      else if node.unused then some none
      else seekName fs name steps ((index + 1) % 2 ^ 16)

/-- `fs_get_inode`. -/
def fsGetInode (fs : Fs) (name : List UInt8) : Option (Option Nat) := seekName fs name (2 ^ 16) 0

/-- What the search loop of `fs_create` finds. -/
inductive Place where
  | duplicate
  | place (index max : Nat)

/-- The search loop of `fs_create`. -/
def seekPlace (fs : Fs) (name : List UInt8) : (steps index i : Nat) → Option Place
  | 0, _, _ => none
  | steps + 1, index, i =>
      let node := readNode fs i
      if node.unused then some (.place index i)
      else if strncmp node.nameBytes (cString name) fsFilename = 0 then some .duplicate
      else
        let index :=
          if strncmp node.nameBytes (cString name) fsFilename < 0 then index + 1 else index
        seekPlace fs name steps index ((i + 1) % 2 ^ 16)

/-- The loop of `fs_create` that moves `count` entries up by one. -/
def moveUp (fs : Fs) : (count index : Nat) → Chip → Chip
  | 0, _, chip => chip
  | count + 1, index, chip =>
      moveUp fs count (index + 1) (writeNode (readNode fs index) (index + 1) chip)

/-- `fs_create`.  An inode has 12 bits in a node, so the comparison with `0xffff`
never detects that there is none. -/
def fsCreate (name : List UInt8) (fs : Fs) : Option (FsStatus × Fs) :=
  match malloc fs with
  | (none, fs) => some (.mem, fs)
  | (some _, fs) =>
      (seekPlace fs name (2 ^ 16) 0 0).map fun
        | .duplicate => (.duplicate, fs)
        | .place index max =>
            -- The node still holds the end marker that the search read last.
            let node : FsNode :=
              { readNode fs max with
                name := fun i => strncpy (cString name) i
                unused := false
                file := true
                inode := field12 (fsNewInode fs) }
            if node.inode.val = 0xffff then (.badInode, fs)
            else
              let chip := dfBufLoad .buf1 fs.root fs.chip
              let chip := writeNode node index chip
              let chip := moveUp fs (max - index) index chip
              fsIncrement { fs with chip }

/-- The search loop of `fs_remove`: the index and inode of the last entry with the
name, and the index of the end marker. -/
def seekLast (fs : Fs) (name : List UInt8) : (steps : Nat) → (found : Option (Nat × Nat)) →
    (i : Nat) → Option (Option (Nat × Nat) × Nat)
  | 0, _, _ => none
  | steps + 1, found, i =>
      let node := readNode fs i
      if node.unused then some (found, i)
      else
        let found :=
          if strncmp node.nameBytes (cString name) fsFilename = 0 then some (i, node.inode.val)
          else found
        seekLast fs name steps found ((i + 1) % 2 ^ 16)

/-- The loop of `fs_remove` that moves `count` entries down by one, with the node
read last. -/
def moveDown (fs : Fs) : (count index : Nat) → FsNode → Chip → FsNode × Chip
  | 0, _, node, chip => (node, chip)
  | count + 1, index, _, chip =>
      let node := readNode fs (index + 1)
      moveDown fs count (index + 1) node (writeNode node index chip)

/-- `fs_remove`. -/
def fsRemove (name : List UInt8) (fs : Fs) : Option (FsStatus × Fs) :=
  match malloc fs with
  | (none, fs) => some (.mem, fs)
  | (some _, fs) =>
      (seekLast fs name (2 ^ 16) none 0).map fun
        | (none, _) => (.noSuchFile, fs)
        | (some (index, inode), max) =>
            if max = 0 ∨ index > max then (.noSuchFile, fs)
            else
              let chip := dfBufLoad .buf1 fs.root fs.chip
              let (node, chip) := moveDown fs (max - 1 - index) index (readNode fs max) chip
              let chip := writeNode { node with unused := true } (max - 1) chip
              match fsIncrement { fs with chip } with
              | (.ok, fs) => fsUpdateInodetable inode none fs
              | failed => failed

/-! ## Files -/

/-- The structure at the beginning of a page. -/
def readPage (fs : Fs) (page : Nat) : FsPage := .decode (dfFlashRead fs.chip page fsStructureOffset)

/-- Copy `count` bytes from flash into memory. -/
def copyOut (fs : Fs) (page offset count position : Nat) (memory : Bytes) : Bytes := fun k =>
  if position ≤ k ∧ k < position + count then
    dfFlashRead fs.chip page offset (k - position)
  else memory k

/-- The seek loop of `fs_read`: the page and the offset in it, or the value to
return. -/
def seekRead (fs : Fs) (page offset : Nat) : Except Int (Nat × Nat) :=
  if offset ≥ fsDatasize then
    let header := readPage fs page
    if header.eof then .error 0
    else
      match fsPage fs header.nextInode with
      | none => .error (-1)
      | some next => seekRead fs next (offset - fsDatasize)
  else .ok (page, offset)
termination_by offset
decreasing_by simp_all [fsDatasize]; omega

/-- The copy loop of `fs_read`: `position` bytes have been read.  It does not end
on a cycle of empty pages. -/
def readLoop (fs : Fs) : (steps page offset length position : Nat) → Bytes →
    Option (Int × Bytes)
  | 0, _, _, _, _, _ => none
  | steps + 1, page, offset, length, position, memory =>
      let header := readPage fs page
      if length + offset ≤ header.size then
        -- The number of bytes is a slip of the source: `length` would be enough.
        some (position + length,
          copyOut fs page (fsDataOffset + offset) (length + offset) position memory)
      else if header.eof then
        let length := header.size - offset
        some (position + length, copyOut fs page (fsDataOffset + offset) length position memory)
      else
        let memory := copyOut fs page (fsDataOffset + offset) (fsDatasize - offset) position memory
        match fsPage fs header.nextInode with
        | none => some (-1, memory)
        | some next =>
            let readBytes := header.size - offset
            readLoop fs steps next 0 (length - readBytes) (position + readBytes) memory

/-- `fs_read`: the return value and the memory at `buf`. -/
def fsRead (fs : Fs) (steps inode : Nat) (memory : Bytes) (offset length : Nat) :
    Option (Int × Bytes) :=
  match fsPage fs inode with
  | none => some (0, memory)
  | some page =>
      match seekRead fs page offset with
      | .error value => some (value, memory)
      | .ok (page, offset) =>
          if offset ≥ (readPage fs page).size then some (0, memory)
          else readLoop fs steps page offset length 0 memory

/-- The seek loop of `fs_write`: the inode, its page and the offset in it. -/
def seekWrite (fs : Fs) (inode page offset : Nat) : Except FsStatus (Nat × Nat × Nat) :=
  if offset > fsDatasize then
    let header := readPage fs page
    if header.eof then .error .badSeek
    else
      seekWrite fs header.nextInode ((fsPage fs header.nextInode).getD noPage)
        (offset - fsDatasize)
  else .ok (inode, page, offset)
termination_by offset
decreasing_by simp_all [fsDatasize]; omega

/-- The loop of `fs_write` for a file with data.  `buf` is not advanced.  The next
inode has 12 bits, so its comparison with `0xffff` never succeeds. -/
def writeOver (buf : Bytes) (inode oldPage : Nat) (eof : Bool) (offset length : Nat) (fs : Fs) :
    FsStatus × Fs :=
  match fsNewPage fs with
  | (none, fs) => (.badPage, fs)
  | (some page, fs) =>
      match fsUpdateInodetable inode (some page) fs with
      | (.ok, fs) =>
          let chip := dfBufLoad .buf1 oldPage fs.chip
          let header := FsPage.decode (dfBufRead chip .buf1 fsStructureOffset)
          if length + offset > fsDatasize then
            let eof := eof || header.eof
            let oldPage :=
              if header.eof then oldPage else (fsPage fs header.nextInode).getD noPage
            let nextInode := field12 (fsNewInode fs)
            let header : FsPage :=
              { header with
                unused := false
                eof := false
                root := false
                size := field16 fsDatasize
                nextInode }
            let chip := dfBufWrite .buf1 header.encode fsStructureOffset sizeofPage chip
            let rest := length - (fsDatasize - offset)
            let chip :=
              if fsDatasize - offset ≠ 0 then
                dfBufWrite .buf1 buf (fsDataOffset + offset) (fsDatasize - offset) chip
              else chip
            let chip := dfBufSave .buf1 page chip
            if rest > 0 then writeOver buf nextInode oldPage eof 0 rest { fs with chip }
            else (.ok, { fs with chip })
          else
            let header : FsPage :=
              { header with
                unused := false
                eof := eof || header.eof
                root := false
                size :=
                  if eof ∨ length + offset > header.size then field16 (length + offset)
                  else header.size }
            let chip := dfBufWrite .buf1 header.encode fsStructureOffset sizeofPage chip
            let chip := dfBufWrite .buf1 buf (fsDataOffset + offset) length chip
            (.ok, { fs with chip := dfBufSave .buf1 page chip })
      | failed => failed
termination_by length + (if offset = 0 then 0 else 1)
decreasing_by
  simp_all only [fsDatasize, if_true]
  split_ifs <;> omega

/-- The loop of `fs_write` for a file without data.  `buf` is not advanced. -/
def writeNew (buf : Bytes) (header : FsPage) (inode length : Nat) (fs : Fs) : FsStatus × Fs :=
  match fsNewPage fs with
  | (none, fs) => (.badPage, fs)
  | (some page, fs) =>
      match fsUpdateInodetable inode (some page) fs with
      | (.ok, fs) =>
          if length > fsDatasize then
            let nextInode := field12 (fsNewInode fs)
            let header : FsPage :=
              { header with eof := false, root := false, nextInode, size := field16 fsDatasize }
            let chip := dfBufWrite .buf1 header.encode fsStructureOffset sizeofPage fs.chip
            let chip := dfBufWrite .buf1 buf fsDataOffset fsDatasize chip
            let chip := dfBufSave .buf1 page chip
            writeNew buf header nextInode (length - fsDatasize) { fs with chip }
          else
            let header : FsPage :=
              { header with eof := true, size := field16 length, root := false }
            let chip := dfBufWrite .buf1 header.encode fsStructureOffset sizeofPage fs.chip
            let chip := dfBufWrite .buf1 buf fsDataOffset length chip
            (.ok, { fs with chip := dfBufSave .buf1 page chip })
      | failed => failed
termination_by length
decreasing_by simp_all only [fsDatasize]; omega

/-- `fs_write`. -/
def fsWrite (inode : Nat) (data : List UInt8) (offset : Nat) (fs : Fs) : FsStatus × Fs :=
  let buf : Bytes := fun k => data.getD k 0
  match fsPage fs inode with
  | some page =>
      match seekWrite fs inode page offset with
      | .error status => (status, fs)
      | .ok (inode, oldPage, offset) => writeOver buf inode oldPage false offset data.length fs
  | none =>
      if offset ≠ 0 then (.badSeek, fs)
      else
        let header := { FsPage.decode (uninitialised fs) with unused := false, root := false }
        writeNew buf header inode data.length fs

/-- The seek loop of `fs_truncate`. -/
def seekTruncate (fs : Fs) (inode page length : Nat) : Except FsStatus (Nat × Nat × Nat) :=
  if length > fsDatasize then
    let header := readPage fs page
    if header.eof then .error .badSeek
    else
      match fsPage fs header.nextInode with
      | none => .error .invalid
      | some next => seekTruncate fs header.nextInode next (length - fsDatasize)
  else .ok (inode, page, length)
termination_by length
decreasing_by simp_all [fsDatasize]; omega

/-- `fs_truncate`. -/
def fsTruncate (inode length : Nat) (fs : Fs) : FsStatus × Fs :=
  match fsPage fs inode with
  | none => (.ok, fs)
  | some page =>
      match seekTruncate fs inode page length with
      | .error status => (status, fs)
      | .ok (inode, page, length) =>
          let header := readPage fs page
          if length > header.size then (.badSeek, fs)
          else if length = header.size then (.ok, fs)
          else
            match fsNewPage fs with
            | (none, fs) => (.badPage, fs)
            | (some newPage, fs) =>
                match fsUpdateInodetable inode (some newPage) fs with
                | (.ok, fs) =>
                    let chip := dfBufLoad .buf1 page fs.chip
                    let header := FsPage.decode (dfFlashRead chip page fsStructureOffset)
                    let header : FsPage := { header with size := field16 length, eof := true }
                    let chip := dfBufWrite .buf1 header.encode fsStructureOffset sizeofPage chip
                    (.ok, { fs with chip := dfBufSave .buf1 newPage chip })
                | failed => failed

/-- The loop of `fs_size`, which does not end on a cycle. -/
def sizeLoop (fs : Fs) : (steps inode size : Nat) → Option Int
  | 0, _, _ => none
  | steps + 1, inode, size =>
      match fsPage fs inode with
      | none => some 0
      | some page =>
          let header := readPage fs page
          if header.eof then some (size + header.size)
          else sizeLoop fs steps header.nextInode (size + header.size)

/-- `fs_size`. -/
def fsSize (steps inode : Nat) (fs : Fs) : Option (Int × Fs) :=
  match malloc fs with
  | (none, fs) => some (-1, fs)
  | (some _, fs) => (sizeLoop fs steps inode 0).map (·, fs)

/-! ## Start-up -/

/-- `fs_format`. -/
def fsFormat (fs : Fs) : FsStatus × Fs :=
  let version := if fs.version > 0 then (fs.version + 1) % 2 ^ 32 else 1
  let fs := { fs with version }
  match malloc fs with
  | (none, fs) => (.mem, fs)
  | (some rootBlock, fs) =>
      match malloc fs with
      | (none, fs) => (.mem, fs)
      | (some inodeBlock, fs) =>
          let inodePage : FsPage :=
            { FsPage.decode inodeBlock with
              root := false
              eof := true
              unused := false
              nextInode := 0x0fff }
          let chip := dfBufWrite .buf1 inodePage.encode 0 sizeofPage fs.chip
          let chip :=
            dfBufWrite .buf1 (fun _ => 0xff) fsDataOffset (dfPagesize - fsDataOffset - sizeofPage)
              chip
          let chip := (List.range 16).foldl (fun chip i => dfBufSave .buf1 (i + 1) chip) chip
          let rootPage : FsPage :=
            { FsPage.decode rootBlock with root := true, eof := true, unused := false }
          let root : Bytes := fun k =>
            if k < sizeofPage then rootPage.encode k
            else if k < fsRootnodeInodetableOffset then encode32 version (k - versionOffset)
            else encode16 ((k - fsRootnodeInodetableOffset) / 2 + 1) (k % 2)
          let chip := dfBufWrite .buf1 root fsStructureOffset sizeofRoot chip
          match malloc { fs with chip } with
          | (none, fs) => (.mem, fs)
          | (some nodeBlock, fs) =>
              let node : FsNode :=
                { FsNode.decode nodeBlock with
                  unused := true
                  inode := 0
                  file := false
                  reserved := (false, false) }
              let node := { node with name := Function.update node.name 0 0 }
              let chip := (List.range fsNodesInRoot).foldl (fun chip i => writeNode node i chip)
                fs.chip
              let chip := dfBufSave .buf1 0 (writeCrc chip)
              (.ok, { fs with chip, root := 0 })

/-- One page of the scan: a root page with a valid checksum and a newer version is
the new root. -/
def scanPage (fs : Fs) (p : Nat) : Fs :=
  let header := readPage fs p
  if header.unused = false ∧ header.root = true then
    let chip := dfBufLoad .buf1 p fs.chip
    let crc := fsCrc chip .buf1 0 fsStructureOffset fsCrcLength
    let version := decode32 (dfFlashRead chip p versionOffset)
    if crc = dfFlashRead chip p fsCrcOffset 0 ∧ version > fs.version then
      { fs with chip, version, root := p }
    else { fs with chip }
  else fs

/-- `fs_scan`. -/
def fsScan (fs : Fs) : FsStatus × Fs :=
  match malloc { fs with version := 0 } with
  | (none, fs) => (.mem, fs)
  | (some _, fs) =>
      let fs := (List.range dfPages).foldl scanPage fs
      if fs.version ≥ 1 then (.ok, fs) else fsFormat fs

/-- The loop of `fs_init` that marks the pages of a file; on a cycle it does not
end. -/
def markChain : (steps : Nat) → (page : Option Nat) → Fs → Option Fs
  | _, none, fs => some fs
  | 0, some _, _ => none
  | steps + 1, some page, fs =>
      let fs := fsMarkUsed page fs
      let header := readPage fs page
      if header.eof then some fs else markChain steps (fsPage fs header.nextInode) fs

/-- The loop of `fs_init` over the `count` directory entries from an index on.  A
file that does not end after as many pages as there are is a cycle. -/
def markFiles : (count index : Nat) → Fs → Option Fs
  | 0, _, fs => some fs
  | count + 1, index, fs =>
      let node := readNode fs index
      if node.unused then markFiles count (index + 1) fs
      else (markChain (dfPages + 1) (fsPage fs node.inode) fs).bind (markFiles count (index + 1))

/-- `fs_init`, on the chip and the heap it finds. -/
def fsInit (chip : Chip) (heap : Nat → Option Bytes) : Option (FsStatus × Fs) :=
  let chip := dfBufWrite .buf2 (fun _ => 0xff) 0 dfPagesize chip
  let fs : Fs :=
    { chip, root := 0, version := 0, lastFree := 0, heap, mallocs := 0, allocs := [] }
  match fsScan fs with
  | (.ok, fs) =>
      let fs := fsMarkUsed fs.root fs
      let fs := (List.range 16).foldl (fun fs i => fsMarkUsed (fsInodetable fs i) fs) fs
      match malloc fs with
      | (none, fs) => some (.mem, fs)
      | (some _, fs) => (markFiles fsNodesInRoot 0 fs).map (.ok, ·)
  | failed => some failed

end Ethersex.Dataflash
