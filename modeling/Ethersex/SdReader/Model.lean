import Mathlib
import Ethersex.Library.CString

/-!
# Directories on a memory card

`vfs_sd_mkdir_recursive` makes a directory and those that lead to it.  The functions of `fat.c` that it
calls do here what their documentation says, and each of them may report an error.
-/

namespace Ethersex.SdReader

open Ethersex.Library

/-- What `fat_read_dir` tells of an entry.  `directory` is the bit `FAT_ATTRIB_DIR` of its attributes. -/
structure Entry where
  longName : List UInt8
  directory : Bool
  cluster : Nat
  deriving DecidableEq

/-- The directories of a medium, each as its entries in the order in which they are listed.  The cluster of a
directory is its number in the list; the root has the number zero. -/
structure Volume where
  directories : List (List Entry)

def Volume.entries (volume : Volume) (cluster : Nat) : List Entry := volume.directories.getD cluster []

/-- A name is truncated to 31 characters. -/
def LONG_NAME_LENGTH : Nat := 31

/-- How the medium serves one pass of the loop: whether `fat_open_dir` finds a handle, behind how many entries
the listing breaks off, and which place in its directory a new entry gets, if there is one. -/
structure Service where
  handle : Bool
  breaks : Option Nat
  place : Option Nat

namespace Service

variable (service : Service) (volume : Volume)

/-- One of the functions may report an error in the pass. -/
def Reports : Prop := service.handle = false ∨ service.breaks ≠ none ∨ service.place = none

/-- The entries that `fat_read_dir` gives one after another. -/
def listing (dir : Nat) : List Entry :=
  match service.breaks with
  | none => volume.entries dir
  | some count => (volume.entries dir).take count

/-- `fat_open_dir`. -/
def fatOpenDir (handle : Entry) : Option Nat :=
  if handle.directory = true ∧ service.handle = true then some handle.cluster else none

/-- The entries of a directory that has just been made: itself, and its parent. -/
def newDirectory (own parent : Nat) : List Entry :=
  [⟨['.'.toUInt8], true, own⟩, ⟨['.'.toUInt8, '.'.toUInt8], true, parent⟩]

/-- `fat_create_dir`, with the entry that it fills in. -/
def fatCreateDir (dir : Nat) (name : List UInt8) : Option (Volume × Entry) :=
  if name = [] ∨ ∃ entry ∈ volume.entries dir, entry.longName = name then none
  else
    match service.place with
    | none => none
    | some place =>
      let own := volume.directories.length
      let entry : Entry := ⟨name.take LONG_NAME_LENGTH, true, own⟩
      let listed := (volume.entries dir).take place ++ entry :: (volume.entries dir).drop place
      some (⟨volume.directories.set dir listed ++ [newDirectory own dir]⟩, entry)

end Service

/-- What a call returns and leaves, and how the medium served its last pass. -/
structure Outcome where
  value : UInt8
  volume : Volume
  service : Service

/-- How a pass of `recurse_loop` ends. -/
inductive Pass where
  | returned (outcome : Outcome)
  | again (volume : Volume) (path : List UInt8) (handle : Entry)

section Loop

variable (service : Service)

/-- `path += l`, and the question whether that was the last piece. -/
def behindPiece (volume : Volume) (path : List UInt8) (handle : Entry) : Pass :=
  if path = [] then .returned ⟨0, volume, service⟩ else .again volume path handle

/-- A pass of `recurse_loop`.  `handle` is the directory to look into; `l` has eight bits. -/
def recurseLoop (volume : Volume) (path : List UInt8) (handle : Entry) : Pass :=
  let path := path.dropWhile (· = '/'.toUInt8)
  match service.fatOpenDir handle with
  | none => .returned ⟨1, volume, service⟩
  | some dir =>
    let l := (UInt8.ofNat (path.takeWhile (· ≠ '/'.toUInt8)).length).toNat
    match (service.listing volume dir).find? (fun entry => strncmp (cString entry.longName) (cString path) l = 0) with
    | some handle =>
      if handle.directory = true then behindPiece service volume (path.drop l) handle
      else .returned ⟨1, volume, service⟩
    | none =>
      match service.fatCreateDir volume dir (path.take l) with
      | none => .returned ⟨1, volume, service⟩
      | some (volume, handle) => behindPiece service volume (path.drop l) handle

end Loop

/-- The passes, each with what the medium does in it.  There may be any number of them. -/
def passes (fat : Stream' Service) : (count : Nat) → Volume → (path : List UInt8) → (handle : Entry) → Option Outcome
  | 0, _, _, _ => none
  | count + 1, volume, path, handle =>
    match recurseLoop fat.head volume path handle with
    | .returned outcome => some outcome
    | .again volume path handle => passes fat.tail count volume path handle

/-- `struct fat_dir_entry_struct handle = { 0 }`, with the attribute of a directory. -/
def root : Entry := ⟨[], true, 0⟩

/-- `vfs_sd_mkdir_recursive`, as far as some number of passes gets. -/
def vfsSdMkdirRecursive (fat : Stream' Service) (count : Nat) (volume : Volume) (path : List UInt8) : Option Outcome :=
  passes fat count volume path root

/-- A component of a path. -/
structure Component where
  name : List UInt8
  nonempty : name ≠ []
  plain : ∀ ch ∈ name, ch ≠ '/'.toUInt8 ∧ ch ≠ 0

/-- The components behind the first one, each behind one slash and maybe more. -/
def furtherChars (further : List (Nat × Component)) : List UInt8 :=
  further.flatMap fun item => List.replicate (item.1 + 1) '/'.toUInt8 ++ item.2.name

/-- The names behind the first one. -/
def furtherNames (further : List (Nat × Component)) : List (List UInt8) := further.map fun item => item.2.name

/-- A path of components, with slashes in front of it and between them. -/
structure Path where
  slashes : Nat
  first : Component
  further : List (Nat × Component)

namespace Path

variable (path : Path)

def chars : List UInt8 :=
  List.replicate path.slashes '/'.toUInt8 ++ path.first.name ++ furtherChars path.further

def names : List (List UInt8) := path.first.name :: furtherNames path.further

end Path

end Ethersex.SdReader
