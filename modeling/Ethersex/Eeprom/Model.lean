import Mathlib
import Ethersex.Library.CString

/-!
# The EEPROM file system

Files on an EEPROM of 512 pages behind an I2C bus.  The superblock holds the first of a
list of file pages, each file page the first of a chain of data pages.  Blocks are read
and written faithfully and never leave their page; the 16-bit address of page 512 is that
of page 0.

A walk over a list makes at most one pass for each page, unless it runs in a circle, and
one that clears pages at most one more; `none` stands for a call that does not return.
-/

namespace Ethersex.Eeprom

open Library

/-- `SFS_PAGE_COUNT`. -/
def pageCount : Nat := 512

/-- `SFS_PAGE_SIZE`. -/
def pageSize : Nat := 128

/-- The bytes of data in a page. -/
def dataSize : Nat := 124

def magicSuperblock : UInt8 := 0x5
def magicFile : UInt8 := 0x23
def magicData : UInt8 := 0x42

abbrev Device := Nat → Bytes

/-! ## Pages -/

/-- `vfs_eeprom_read_page`. -/
def readPage (eeprom : Device) (page : Nat) : Bytes := eeprom (page % pageCount)

/-- `vfs_eeprom_write_slice`. -/
def writeSlice (page offset count : Nat) (data : Bytes) (eeprom : Device) : Device :=
  Function.update eeprom (page % pageCount)
    (overlay pageSize offset count data (eeprom (page % pageCount)))

/-- The member `next_page` of every page. -/
def nextPage (page : Bytes) : Nat := decode16 fun k => page (1 + k)

/-- The member `next_file` of the superblock and of a file page. -/
def nextFile (page : Bytes) : Nat := decode16 fun k => page (3 + k)

/-- The member `page_len` of a data page. -/
def pageLen (page : Bytes) : Nat := (page 3).toNat

/-- The member `filename` of a file page, with the zero behind it. -/
def filename (page : Bytes) : List UInt8 := fieldText 123 fun k => page (5 + k)

/-- The superblock that `vfs_eeprom_init` writes. -/
def freshSuperblock : Bytes
  | 0 => magicSuperblock
  | 5 => 0xad
  | 6 => 0xde
  | 7 => 0xef
  | 8 => 0xbe
  | _ => 0

/-- What `vfs_eeprom_init` does with an EEPROM it does not recognise. -/
def format (eeprom : Device) : Device :=
  (List.range' 1 511).foldl (fun eeprom page => writeSlice page 0 1 (fun _ => 0) eeprom)
    (writeSlice 0 0 10 freshSuperblock eeprom)

/-! ## Searching -/

/-- The test of the free-page search. -/
def isFree (eeprom : Device) (page : Nat) : Bool :=
  readPage eeprom page 0 ≠ magicSuperblock ∧ readPage eeprom page 0 ≠ magicFile ∧
    readPage eeprom page 0 ≠ magicData

/-- The page the free-page search looks at next. -/
def following (tmp : Nat) : Nat := if tmp + 1 ≥ pageCount then 0 else tmp + 1

/-- The loop of `vfs_eeprom_find_free_page`. -/
def searchFree (eeprom : Device) (suggested : Nat) : Nat → Nat → Option Nat
  | 0, _ => none
  | passes + 1, tmp =>
      if isFree eeprom tmp then some tmp
      else if following tmp = suggested then some 0
      else searchFree eeprom suggested passes (following tmp)

/-- `vfs_eeprom_find_free_page`; 0 means that there is none.  After 513 passes the search
has seen every page and is back where it was. -/
def vfsEepromFindFreePage (eeprom : Device) (suggested : Nat) : Option Nat :=
  searchFree eeprom suggested (pageCount + 1) suggested

/-- The loop of `vfs_eeprom_find_file`. -/
def walkFiles (eeprom : Device) (name : Option (List UInt8)) : Nat → Nat → Option Nat
  | 0, inode => if inode = 0 then some 0 else none
  | passes + 1, inode =>
      if inode = 0 then some 0
      else
        let file := readPage eeprom inode
        if file 0 ≠ magicFile then some 0
        else if name = some (filename file) then some inode
        else if name = none ∧ nextFile file = 0 then some inode
        else walkFiles eeprom name passes (nextFile file)

/-- `vfs_eeprom_find_file`; without a name, it finds the last file. -/
def vfsEepromFindFile (eeprom : Device) (name : Option (List UInt8)) : Option Nat :=
  walkFiles eeprom name pageCount (nextFile (readPage eeprom 0))

/-! ## Handles -/

/-- `vfs_file_handle_eeprom_t`. -/
structure Handle where
  filePage : Nat
  offset : Nat
  deriving DecidableEq, Repr

/-- The loop of `vfs_eeprom_create` that clears the data pages of an old file. -/
def clearPages : Nat → Nat → Device → Option Device
  | 0, page, eeprom => if page = 0 then some eeprom else none
  | passes + 1, page, eeprom =>
      if page = 0 then some eeprom
      else clearPages passes (nextPage (readPage eeprom page)) (writeSlice page 0 4 (fun _ => 0) eeprom)

/-- The file page that `vfs_eeprom_create` writes. -/
def newFilePage (next : Nat) (name : List UInt8) : Bytes := fun k =>
  if k = 0 then magicFile
  else if 3 ≤ k ∧ k < 5 then encode16 next (k - 3)
  else if 5 ≤ k ∧ k < 127 then strncpy (cString name) (k - 5)
  else 0

/-- `vfs_eeprom_create`.  `memory` tells whether there is memory for the handle. -/
def vfsEepromCreate (name : List UInt8) (memory : Bool) (eeprom : Device) :
    Option (Device × Option Handle) := do
  let inode ← vfsEepromFindFile eeprom (some name)
  if inode = 0 then do
    let inode ← vfsEepromFindFreePage eeprom 0
    if inode = 0 then some (eeprom, none)
    else do
      let lastFile ← vfsEepromFindFile eeprom none
      let eeprom := writeSlice lastFile 3 2 (encode16 inode) eeprom
      let eeprom := writeSlice inode 0 pageSize (newFilePage 0 name) eeprom
      some (eeprom, if memory then some ⟨inode, 0⟩ else none)
  else do
    let file := readPage eeprom inode
    let eeprom ← clearPages (pageCount + 1) (nextPage file) eeprom
    let eeprom := writeSlice inode 0 pageSize (newFilePage (nextFile file) name) eeprom
    some (eeprom, if memory then some ⟨inode, 0⟩ else none)

def vfsEepromOpen (name : List UInt8) (memory : Bool) (eeprom : Device) : Option (Option Handle) := do
  let inode ← vfsEepromFindFile eeprom (some name)
  some (if inode = 0 then none else if memory then some ⟨inode, 0⟩ else none)

/-! ## Reading -/

/-- The loop of `vfs_eeprom_filesize`. -/
def sumPages (eeprom : Device) : Nat → Nat → Nat → Option Nat
  | 0, page, size => if page = 0 then some size else none
  | passes + 1, page, size =>
      if page = 0 then some size
      else
        let data := readPage eeprom page
        if pageLen data < dataSize then some (size + pageLen data)
        else sumPages eeprom passes (nextPage data) (size + pageLen data)

def vfsEepromFilesize (handle : Handle) (eeprom : Device) : Option Nat :=
  sumPages eeprom pageCount (nextPage (readPage eeprom handle.filePage)) 0

/-- The first loop of `vfs_eeprom_read`. -/
def skipTo (eeprom : Device) : Nat → Nat → Nat
  | 0, page => page
  | skip + 1, page => skipTo eeprom skip (nextPage (readPage eeprom page))

/-- The bytes `memcpy` takes from a page that was read; `behind` is what lies in memory
behind the buffer. -/
def copyFrom (behind page : Bytes) (offset count : Nat) : List UInt8 :=
  (List.range count).map fun k =>
    if offset + k < pageSize then page (offset + k) else behind (offset + k - pageSize)

/-- The second loop of `vfs_eeprom_read`, with at most as many passes as there are bytes
to read: a pass without any is the last one. -/
def copyPages (behind : Bytes) (eeprom : Device) : Nat → Nat → Nat → Nat → List UInt8 × Nat
  | 0, _, offset, _ => ([], offset)
  | passes + 1, page, offset, remaining =>
      if remaining = 0 then ([], offset)
      else
        let data := readPage eeprom page
        let toBeCopied := if remaining < dataSize then remaining else dataSize
        let pageOffset := offset % dataSize
        if pageOffset + toBeCopied > pageLen data then
          let toBeCopied := (pageLen data + 256 - pageOffset) % 256
          (copyFrom behind data (4 + pageOffset) toBeCopied, (offset + toBeCopied) % 65536)
        else
          let (rest, offset) := copyPages behind eeprom passes (nextPage data)
            ((offset + toBeCopied) % 65536) (remaining - toBeCopied)
          (copyFrom behind data (4 + pageOffset) toBeCopied ++ rest, offset)

/-- `vfs_eeprom_read`: the bytes delivered, and the handle. -/
def vfsEepromRead (behind : Bytes) (handle : Handle) (size : Nat) (eeprom : Device) :
    List UInt8 × Handle :=
  let page := skipTo eeprom (handle.offset / dataSize) (nextPage (readPage eeprom handle.filePage))
  let (bytes, offset) := copyPages behind eeprom size page handle.offset size
  (bytes, { handle with offset })

inductive Whence where
  | set
  | cur
  | fromEnd
  | other
  deriving DecidableEq, Repr

/-- `vfs_eeprom_fseek`: the handle, and whether the call succeeded. -/
def vfsEepromFseek (handle : Handle) (offset : Nat) (whence : Whence) (eeprom : Device) :
    Option (Handle × Bool) :=
  if whence = .other then some (handle, false)
  else do
    let size ← vfsEepromFilesize handle eeprom
    let newPos := match whence with
      | .cur => (handle.offset + offset) % 65536
      | .fromEnd => (size + offset) % 65536
      | _ => offset % 65536
    if newPos > size then some (handle, false) else some ({ handle with offset := newPos }, true)

/-! ## Writing -/

/-- What the first loop of `vfs_eeprom_write` finds out: the number of pages, the last
one, and the one where writing begins, if there is one. -/
structure Found where
  allocated : Nat
  last : Nat
  writePage : Nat

/-- The first loop of `vfs_eeprom_write`. -/
def skipPages (eeprom : Device) : Nat → Nat → Nat → Found → Option Found
  | 0, page, _, found => if page = 0 then some found else none
  | passes + 1, page, skip, found =>
      if page = 0 then some found
      else
        let data := readPage eeprom page
        skipPages eeprom passes (nextPage data)
          (if found.writePage = 0 then skip - 1 else skip)
          ⟨found.allocated + 1, page,
            if found.writePage = 0 ∧ (skip = 0 ∨ pageLen data < dataSize) then page
            else found.writePage⟩

/-- How the second loop of `vfs_eeprom_write` ends. -/
inductive Allocated where
  | full (eeprom : Device)
  | done (eeprom : Device) (writePage : Nat)

/-- The header of a new data page. -/
def newDataHeader : Bytes
  | 0 => magicData
  | _ => 0

/-- The second loop of `vfs_eeprom_write`: it appends pages. -/
def allocPages : Nat → Nat → Nat → Device → Option Allocated
  | 0, _, writePage, eeprom => some (.done eeprom writePage)
  | needed + 1, last, writePage, eeprom => do
      let node ← vfsEepromFindFreePage eeprom (last + 1)
      if node = 0 then some (.full eeprom)
      else
        let eeprom := writeSlice node 0 4 newDataHeader eeprom
        let eeprom := writeSlice last 1 2 (encode16 node) eeprom
        allocPages needed node (if writePage = 0 then node else writePage) eeprom

/-- The third loop of `vfs_eeprom_write`.  Every pass writes at least one byte. -/
def writePages : Nat → Nat → Nat → List UInt8 → Device → Device
  | 0, _, _, _, eeprom => eeprom
  | passes + 1, page, offset, data, eeprom =>
      if data = [] then eeprom
      else
        let buf := readPage eeprom page
        let copyLen := if data.length + offset > dataSize then dataSize - offset else data.length
        let eeprom := writeSlice page (4 + offset) copyLen (cString data) eeprom
        let eeprom := writeSlice page 3 1 (fun _ => UInt8.ofNat (offset + copyLen)) eeprom
        writePages passes (nextPage buf) 0 (data.drop copyLen) eeprom

/-- `vfs_eeprom_write`: the handle, and the number of bytes it reports. -/
def vfsEepromWrite (handle : Handle) (data : List UInt8) (eeprom : Device) :
    Option (Device × Handle × Nat) := do
  let found ← skipPages eeprom pageCount (nextPage (readPage eeprom handle.filePage))
    (handle.offset / dataSize) ⟨0, handle.filePage, 0⟩
  let writePage := if found.last = handle.filePage then 0 else found.writePage
  let needed := ((handle.offset + data.length) / dataSize + 1) % 65536
  match ← allocPages (needed - found.allocated) found.last writePage eeprom with
  | .full eeprom => some (eeprom, handle, 0)
  | .done eeprom writePage =>
      some (writePages data.length writePage (handle.offset % dataSize) data eeprom,
        { handle with offset := (handle.offset + data.length) % 65536 }, data.length)

end Ethersex.Eeprom
