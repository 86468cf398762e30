import Mathlib
import Ethersex.Library.CString
import Ethersex.Dataflash.Fs
import Ethersex.Vfs.Seek

/-!
# Inlined files

On the host, `vfs-concat` appends a file to a firmware image: on the next page boundary
a magic byte, a node with the name, the length and a checksum, and then the bytes of the file.
On the device, `vfs_inline_open` looks for a node at the beginning of every page but the first,
from the end of the flash memory.
-/

namespace Ethersex.Vfs

open Library Dataflash

/-! ## The tool -/

/-- `VFS_INLINE_MAGIC`. -/
def vfsInlineMagic : UInt8 := 0x23

/-- `VFS_INLINE_FNLEN`. -/
def vfsInlineFnlen : Nat := 6

/-- `sizeof (union vfs_inline_node_t)`. -/
def sizeofInlineNode : Nat := 9

/-- One pass of the loop in `crc_update`, over the checksum and the data. -/
def crcUpdateBit (state : UInt8 × UInt8) : UInt8 × UInt8 :=
  let (crc, data) := state
  (if (crc ^^^ data) &&& 1 ≠ 0 then (crc >>> 1) ^^^ 0x8c else crc >>> 1, data >>> 1)

/-- `crc_update`. -/
def crcUpdate (crc data : UInt8) : UInt8 := (crcUpdateBit^[8] (crc, data)).1

/-- `crc_calc`. -/
def crcCalc (data : Bytes) (len : Nat) : UInt8 :=
  (List.range len).foldl (fun crc i => crcUpdate crc (data i)) 0

/-- What is behind the last slash. -/
def basename (path : List UInt8) : List UInt8 := path.rtakeWhile (· ≠ 47)

/-- The bytes of a node in front of its checksum. -/
def inlineNode (name : List UInt8) (len : Nat) : Bytes := fun k =>
  if k < vfsInlineFnlen then strncpy (cString name) k else encode16 len (k - vfsInlineFnlen)

/-- A byte is put out as long as the image does not end on a page boundary; there are no more
than `passes` passes. -/
def padImage (pagesz : Nat) : (passes : Nat) → List UInt8 → List UInt8
  | 0, image => image
  | passes + 1, image =>
      if image.length % pagesz = 0 then image else padImage pagesz passes (image ++ [0xff])

/-- `main` of `vfs-concat`: what it puts out when it succeeds, given the name of the file, what
is read from the image, and what is read from the file, or from the one with the suffix `.gz`
where there is one. -/
def vfsConcat (pagesz : Nat) (path image file : List UInt8) : Option (List UInt8) :=
  if pagesz = 0 ∨ pagesz % 2 ≠ 0 ∨ pagesz < 64 ∨ 256 < pagesz then none
  else
    let image := padImage pagesz pagesz (image.take 65535)
    let file := file.take 65535
    let name := basename path
    if vfsInlineFnlen < name.length then none
    else
      let node := inlineNode name file.length
      some (image ++ vfsInlineMagic :: (List.range (sizeofInlineNode - 1)).map node ++
        crcCalc node (sizeofInlineNode - 1) :: file)

/-- A file to be appended. -/
structure Source where
  path : List UInt8
  content : List UInt8
  deriving DecidableEq, Repr

/-- The files are appended one after the other. -/
def concatAll (pagesz : Nat) : List Source → List UInt8 → Option (List UInt8)
  | [], image => some image
  | file :: rest, image => (vfsConcat pagesz file.path image file.content).bind (concatAll pagesz rest)

/-! ## The device -/

/-- The flash memory of a device: `SPM_PAGESIZE` and `FLASHEND + 1`. -/
structure Flash where
  pageSize : Nat
  size : Nat
  large : 64 ≤ pageSize
  pages : pageSize ∣ size
  some : 0 < size
  small : size ≤ 65536

/-- `crc_checksum`. -/
def crcChecksum (data : Bytes) (length : Nat) : UInt8 :=
  (List.range length).foldl (fun crc i => crcIbuttonUpdate crc (data i)) 0

/-- `pgm_read_byte`, from a 16-bit address on. -/
def pgmRead (memory : Bytes) (address : Nat) : Bytes := fun k => memory ((address + k) % 2 ^ 16)

/-- A page begins with the magic byte and a node that has the checksum it should. -/
def ValidNode (memory : Bytes) (offset : Nat) : Prop :=
  pgmRead memory offset 0 = vfsInlineMagic ∧
    pgmRead memory (offset + 1) (sizeofInlineNode - 1) =
      crcChecksum (pgmRead memory (offset + 1)) (sizeofInlineNode - 1)

instance (memory : Bytes) (offset : Nat) : Decidable (ValidNode memory offset) :=
  inferInstanceAs (Decidable (_ ∧ _))

/-- The loop of `vfs_inline_open`, up to a number of passes; `available` tells whether there is
memory for a handle. -/
def inlineScan (flash : Flash) (memory : Bytes) (available : Bool) (filename : List UInt8) :
    (passes offset : Nat) → Option (Option InlineHandle)
  | 0, _ => none
  | passes + 1, offset =>
      if offset = 0 then some none
      else
        let node := pgmRead memory (offset + 1)
        if ¬ValidNode memory offset ∨ strncmp node (cString filename) vfsInlineFnlen ≠ 0 then
          inlineScan flash memory available filename passes ((offset + 2 ^ 16 - flash.pageSize) % 2 ^ 16)
        else if available then
          some (some ⟨(offset + sizeofInlineNode + 1) % 2 ^ 16, 0, decode16 fun k => node (k + vfsInlineFnlen)⟩)
        else some none

/-- `vfs_inline_open`; nothing when the loop is not over after that many passes. -/
def vfsInlineOpen (flash : Flash) (memory : Bytes) (available : Bool) (passes : Nat)
    (filename : List UInt8) : Option (Option InlineHandle) :=
  inlineScan flash memory available filename passes (flash.size - flash.pageSize)

/-- `vfs_inline_read`: the bytes it copies, and the handle. -/
def vfsInlineRead (memory : Bytes) (handle : InlineHandle) (length : Nat) : List UInt8 × InlineHandle :=
  let len := (handle.len + 2 ^ 16 - handle.pos) % 2 ^ 16
  let len := if length < len then length else len
  ((List.range len).map (pgmRead memory (handle.offset + handle.pos)),
    { handle with pos := (handle.pos + len) % 2 ^ 16 })

/-- One read after the other. -/
def readAll (memory : Bytes) : InlineHandle → List Nat → List (List UInt8)
  | _, [] => []
  | handle, length :: rest =>
      let (data, handle) := vfsInlineRead memory handle length
      data :: readAll memory handle rest

/-! ## What the two should do together -/

/-- A device that was erased and then programmed. -/
def programmed (image : List UInt8) : Bytes := fun k => image.getD k 0xff

/-- Where the files that are appended to an image begin. -/
def nodeOffsets (pagesz : Nat) : List Source → List UInt8 → List Nat
  | [], _ => []
  | file :: rest, image =>
      (padImage pagesz pagesz (image.take 65535)).length ::
        match vfsConcat pagesz file.path image file.content with
        | some image => nodeOffsets pagesz rest image
        | none => []

/-- Files with distinct names are appended to an image, and all of it fits the flash memory; no
page begins like a file by accident. -/
structure Appended (flash : Flash) (image : List UInt8) (files : List Source) (final : List UInt8) : Prop where
  concat : concatAll flash.pageSize files image = some final
  fits : final.length ≤ flash.size
  strings : ∀ file ∈ files, ∀ ch ∈ file.path, ch ≠ 0
  distinct : (files.map fun file => basename file.path).Nodup
  unambiguous : ∀ offset < flash.size, flash.pageSize ∣ offset →
    offset ∉ nodeOffsets flash.pageSize files image → ¬ValidNode (programmed final) offset

/-- What reads of these lengths, one after the other, should get. -/
def pieces : List UInt8 → List Nat → List (List UInt8)
  | _, [] => []
  | content, length :: rest => content.take length :: pieces (content.drop length) rest

/-- Every file is found and can be read in pieces of any size, and no other one is found; the scan
ends, at the latest after as many passes as there are pages. -/
structure ReadBack (flash : Flash) (files : List Source) (memory : Bytes) : Prop where
  opens : ∀ file ∈ files, ∀ passes ≥ flash.size / flash.pageSize, ∃ handle,
    vfsInlineOpen flash memory true passes (basename file.path) = some (some handle) ∧
      ∀ lengths, readAll memory handle lengths = pieces file.content lengths
  others : ∀ name : List UInt8, (∀ ch ∈ name, ch ≠ 0) → name.length ≤ vfsInlineFnlen →
    name ∉ files.map (fun file => basename file.path) →
      ∀ available, ∀ passes ≥ flash.size / flash.pageSize,
        vfsInlineOpen flash memory available passes name = some none

/-! ## The checksum -/

/-- A bit of the sum of the checksum and the data, as `_crc_ibutton_update` treats it. -/
def crcBit (crc : UInt8) : UInt8 := if crc &&& 1 ≠ 0 then (crc >>> 1) ^^^ 0x8c else crc >>> 1

theorem crcUpdateBit_xor (state : UInt8 × UInt8) :
    (crcUpdateBit state).1 ^^^ (crcUpdateBit state).2 = crcBit (state.1 ^^^ state.2) := by
  obtain ⟨crc, data⟩ := state
  simp only [crcUpdateBit, crcBit, UInt8.shiftRight_xor]
  split
  · ac_rfl
  · rfl

theorem crcUpdateBit_iterate (passes : Nat) (state : UInt8 × UInt8) :
    (crcUpdateBit^[passes] state).1 ^^^ (crcUpdateBit^[passes] state).2 =
      crcBit^[passes] (state.1 ^^^ state.2) :=
  Function.Semiconj.iterate_right (f := fun state : UInt8 × UInt8 => state.1 ^^^ state.2)
    crcUpdateBit_xor passes state

theorem crcUpdateBit_data (passes : Nat) (state : UInt8 × UInt8) :
    (crcUpdateBit^[passes] state).2.toNat = state.2.toNat / 2 ^ passes := by
  induction passes generalizing state with
  | zero => simp
  | succ passes ih =>
      have half : (crcUpdateBit state).2.toNat = state.2.toNat / 2 := by
        simp [crcUpdateBit, Nat.shiftRight_eq_div_pow]
      rw [Function.iterate_succ_apply, ih, half, Nat.div_div_eq_div_mul, Nat.pow_succ, Nat.mul_comm]

/-- The tool and the device compute the same checksum. -/
theorem crcUpdate_eq (crc data : UInt8) : crcUpdate crc data = crcIbuttonUpdate crc data := by
  have none : (crcUpdateBit^[8] (crc, data)).2 = 0 := by
    refine UInt8.toNat_inj.mp ?_
    rw [crcUpdateBit_data]
    exact Nat.div_eq_of_lt data.toNat_lt
  have all := crcUpdateBit_iterate 8 (crc, data)
  rw [none, UInt8.xor_zero] at all
  exact all

theorem crcCalc_eq (data : Bytes) (len : Nat) : crcCalc data len = crcChecksum data len := by
  rw [crcCalc, crcChecksum]
  simp only [crcUpdate_eq]

theorem crcChecksum_congr {left right : Bytes} {len : Nat} (agree : AgreeTo len left right) :
    crcChecksum left len = crcChecksum right len :=
  List.foldl_ext _ _ _ fun _ i member => by rw [agree i (List.mem_range.mp member)]

/-! ## What the tool puts out -/

section Tool

variable {pagesz : Nat} {image final : List UInt8}

theorem prefix_padImage (passes : Nat) : image <+: padImage pagesz passes image := by
  induction passes generalizing image with
  | zero => exact List.prefix_rfl
  | succ passes ih =>
      rw [padImage]
      split
      · exact List.prefix_rfl
      · exact (List.prefix_append image [0xff]).trans ih

theorem dvd_length_padImage {passes : Nat} (positive : 0 < pagesz)
    (enough : image.length % pagesz = 0 ∨ pagesz ≤ image.length % pagesz + passes) :
    pagesz ∣ (padImage pagesz passes image).length := by
  induction passes generalizing image with
  | zero =>
      have below := Nat.mod_lt image.length positive
      exact Nat.dvd_of_mod_eq_zero (enough.resolve_right (by omega))
  | succ passes ih =>
      rw [padImage]
      split
      next aligned => exact Nat.dvd_of_mod_eq_zero aligned
      next more =>
        refine ih ?_
        have enough := enough.resolve_left more
        rw [List.length_append, List.length_singleton]
        have below := Nat.mod_lt image.length positive
        rcases Nat.lt_or_ge (image.length % pagesz + 1) pagesz with next | last
        · rw [Nat.add_mod, Nat.mod_eq_of_lt (show 1 < pagesz by omega), Nat.mod_eq_of_lt next]
          omega
        · refine .inl (Nat.mod_eq_zero_of_dvd ?_)
          rw [← Nat.div_add_mod image.length pagesz, Nat.add_assoc]
          exact dvd_add (dvd_mul_right _ _) (by rw [show image.length % pagesz + 1 = pagesz by omega])

/-- What a file takes in the image. -/
def record (name content : List UInt8) : List UInt8 :=
  vfsInlineMagic :: (List.range (sizeofInlineNode - 1)).map (inlineNode name content.length) ++
    crcCalc (inlineNode name content.length) (sizeofInlineNode - 1) :: content

theorem length_record (name content : List UInt8) : (record name content).length = 10 + content.length := by
  rw [record, List.length_append, List.length_cons, List.length_cons, List.length_map, List.length_range]
  rw [sizeofInlineNode]
  omega

theorem record_node (name content : List UInt8) {k : Nat} (small : k < 8) :
    (record name content).getD (1 + k) 0 = inlineNode name content.length k := by
  rw [record, List.getD_append _ _ _ _ (by simp [sizeofInlineNode]; omega)]
  simp [sizeofInlineNode, Nat.add_comm 1 k, small]

theorem record_tail (name content : List UInt8) (k : Nat) :
    (record name content).getD (9 + k) 0 =
      (crcCalc (inlineNode name content.length) (sizeofInlineNode - 1) :: content).getD k 0 := by
  have nine : (vfsInlineMagic ::
      (List.range (sizeofInlineNode - 1)).map (inlineNode name content.length)).length = 9 := by
    rw [List.length_cons, List.length_map, List.length_range]
    rfl
  rw [record, List.getD_append_right _ _ _ _ (by omega), nine, Nat.add_sub_cancel_left]

/-- A run of the tool whose output is not too long. -/
theorem vfsConcat_eq_some {path content : List UInt8} (concat : vfsConcat pagesz path image content = some final)
    (small : final.length ≤ 65536) :
    0 < pagesz ∧ image.length < 65536 ∧ (basename path).length ≤ vfsInlineFnlen ∧
      final = padImage pagesz pagesz (image.take 65535) ++ record (basename path) content := by
  rw [vfsConcat] at concat
  split at concat
  · exact nomatch concat
  next valid =>
    dsimp only at concat
    split at concat
    · exact nomatch concat
    next short =>
      have output : padImage pagesz pagesz (image.take 65535) ++
          record (basename path) (content.take 65535) = final := by
        rw [← Option.some.inj concat, record, List.append_assoc]
      have length := congrArg List.length output
      have padded := (@prefix_padImage pagesz (image.take 65535) pagesz).length_le
      rw [List.length_append, length_record] at length
      rw [List.length_take] at length padded
      have whole : content.take 65535 = content := List.take_of_length_le (by omega)
      rw [whole] at output
      exact ⟨by omega, by omega, Nat.not_lt.mp short, output.symm⟩

end Tool

/-! ## What the device reads -/

/-- The record of a file in a memory. -/
structure Entry (memory : Bytes) (name content : List UInt8) (offset : Nat) : Prop where
  holds : AgreeTo (10 + content.length) (fun k => memory (offset + k)) fun k => (record name content).getD k 0
  inside : offset + 10 + content.length ≤ 65536

theorem pgmRead_apply {memory : Bytes} {address k : Nat} (inside : address + k < 65536) :
    pgmRead memory address k = memory (address + k) := by
  rw [pgmRead, Nat.mod_eq_of_lt (show address + k < 2 ^ 16 from inside)]

namespace Entry

variable {memory : Bytes} {name content : List UInt8} {offset : Nat}

theorem magic (entry : Entry memory name content offset) : pgmRead memory offset 0 = vfsInlineMagic := by
  have inside := entry.inside
  rw [pgmRead_apply (by omega)]
  exact entry.holds 0 (by omega)

theorem node (entry : Entry memory name content offset) :
    AgreeTo 8 (pgmRead memory (offset + 1)) (inlineNode name content.length) := by
  intro k small
  have inside := entry.inside
  have held := entry.holds (1 + k) (by omega)
  rw [pgmRead_apply (by omega), Nat.add_assoc]
  exact held.trans (record_node name content small)

theorem crc (entry : Entry memory name content offset) :
    pgmRead memory (offset + 1) 8 = crcCalc (inlineNode name content.length) 8 := by
  have inside := entry.inside
  have held := (entry.holds (9 + 0) (by omega)).trans (record_tail name content 0)
  rw [List.getD_cons_zero, sizeofInlineNode] at held
  rw [pgmRead_apply (by omega), Nat.add_assoc]
  exact held

theorem data (entry : Entry memory name content offset) {k : Nat} (small : k < content.length) :
    pgmRead memory (offset + 10) k = content[k] := by
  have inside := entry.inside
  have held := (entry.holds (9 + (k + 1)) (by omega)).trans (record_tail name content (k + 1))
  rw [List.getD_cons_succ, List.getD_eq_getElem _ _ small] at held
  rw [pgmRead_apply (by omega), show offset + 10 + k = offset + (9 + (k + 1)) by omega]
  exact held

theorem valid (entry : Entry memory name content offset) : ValidNode memory offset := by
  refine ⟨entry.magic, ?_⟩
  rw [sizeofInlineNode, entry.crc, crcCalc_eq]
  exact crcChecksum_congr entry.node.symm

theorem name_eq_iff (entry : Entry memory name content offset) (terminated : ∀ ch ∈ name, ch ≠ 0)
    (short : name.length ≤ vfsInlineFnlen) {other : List UInt8} (terminated' : ∀ ch ∈ other, ch ≠ 0)
    (short' : other.length ≤ vfsInlineFnlen) :
    strncmp (pgmRead memory (offset + 1)) (cString other) vfsInlineFnlen = 0 ↔ name = other := by
  have text : fieldText vfsInlineFnlen (pgmRead memory (offset + 1)) = name := by
    have agree : AgreeTo vfsInlineFnlen (pgmRead memory (offset + 1)) (strncpy (cString name)) :=
      (entry.node.mono (by decide)).trans fun k small => if_pos small
    rw [fieldText_congr agree, fieldText_strncpy, fieldText_cString terminated, List.take_of_length_le short]
  rw [strncmp_eq_zero_iff, text, fieldText_cString terminated', List.take_of_length_le short']

theorem length (entry : Entry memory name content offset) :
    decode16 (fun k => pgmRead memory (offset + 1) (k + vfsInlineFnlen)) = content.length := by
  have inside := entry.inside
  refine Eq.trans ?_ (decode16_encode16 (show content.length < 65536 by omega))
  rw [decode16, decode16, entry.node _ (by decide), entry.node _ (by decide)]
  rfl

/-- Reading goes on where it was. -/
theorem readAll_eq (entry : Entry memory name content offset) (pos : Nat) (inFile : pos ≤ content.length)
    (lengths : List Nat) :
    readAll memory ⟨offset + 10, pos, content.length⟩ lengths = pieces (content.drop pos) lengths := by
  have inside := entry.inside
  induction lengths generalizing pos with
  | nil => rfl
  | cons length rest ih =>
      have left : (content.length + 2 ^ 16 - pos) % 2 ^ 16 = content.length - pos := by omega
      have piece : (if length < content.length - pos then length else content.length - pos) =
          min length (content.length - pos) := by
        split <;> omega
      have read : (List.range (min length (content.length - pos))).map (pgmRead memory (offset + 10 + pos)) =
          (content.drop pos).take length := by
        refine List.ext_getElem (by simp) fun k small _ => ?_
        rw [List.length_map, List.length_range] at small
        have held := entry.data (show pos + k < content.length by omega)
        rw [pgmRead_apply (by omega), ← Nat.add_assoc] at held
        rw [List.getElem_map, List.getElem_range, List.getElem_take, List.getElem_drop,
          pgmRead_apply (by omega), held]
      have next : content.drop (pos + min length (content.length - pos)) = (content.drop pos).drop length := by
        rw [List.drop_drop]
        rcases Nat.le_total length (content.length - pos) with fits | behind
        · rw [Nat.min_eq_left fits]
        · rw [List.drop_eq_nil_of_le (by omega), List.drop_eq_nil_of_le (by omega)]
      rw [readAll, vfsInlineRead]
      dsimp only
      rw [left, piece, read, Nat.mod_eq_of_lt (by omega), ih _ (by omega), next, pieces]

end Entry

/-! ## The image with all files -/

section Image

variable {pagesz : Nat} {image final : List UInt8}

theorem programmed_append {front back suffix : List UInt8} :
    AgreeTo back.length (fun k => programmed (front ++ back ++ suffix) (front.length + k)) fun k => back.getD k 0 := by
  intro k small
  simp only [programmed]
  rw [List.append_assoc, List.getD_append_right _ _ _ _ (Nat.le_add_right _ _), Nat.add_sub_cancel_left,
    List.getD_append _ _ _ _ small, List.getD_eq_getElem _ _ small, List.getD_eq_getElem _ _ small]

/-- Where a file is in the final image. -/
structure Placed (pagesz lower : Nat) (final : List UInt8) (file : Source) (offset : Nat) : Prop where
  entry : Entry (programmed final) (basename file.path) file.content offset
  aligned : pagesz ∣ offset
  behind : lower ≤ offset
  inside : offset < final.length
  short : (basename file.path).length ≤ vfsInlineFnlen

/-- The images are prefixes of the final one, which has each file where it was appended. -/
theorem concatAll_placed {files : List Source} (concat : concatAll pagesz files image = some final)
    (small : final.length ≤ 65536) :
    image <+: final ∧
      List.Forall₂ (Placed pagesz image.length final) files (nodeOffsets pagesz files image) := by
  induction files generalizing image with
  | nil => exact ⟨Option.some.inj concat ▸ List.prefix_rfl, .nil⟩
  | cons file rest ih =>
      obtain ⟨next, appended, concat⟩ := Option.bind_eq_some_iff.mp concat
      obtain ⟨extends_, placed⟩ := ih concat
      obtain ⟨positive, whole, short, rfl⟩ :=
        vfsConcat_eq_some appended (extends_.length_le.trans small)
      rw [List.take_of_length_le (Nat.le_of_lt_succ whole)] at appended extends_ placed
      have padded : image <+: padImage pagesz pagesz image := prefix_padImage pagesz
      have length := extends_.length_le
      rw [List.length_append, length_record] at length
      refine ⟨padded.trans ((List.prefix_append _ _).trans extends_), ?_⟩
      rw [nodeOffsets, appended, List.take_of_length_le (Nat.le_of_lt_succ whole)]
      refine .cons ⟨⟨?_, by omega⟩, dvd_length_padImage positive (.inr (Nat.le_add_left _ _)),
        padded.length_le, by omega, short⟩ (placed.imp fun file offset placed => ?_)
      · obtain ⟨suffix, rfl⟩ := extends_
        rw [← length_record]
        exact programmed_append
      · refine { placed with behind := padded.length_le.trans (Nat.le_trans ?_ placed.behind) }
        rw [List.length_append]
        exact Nat.le_add_right _ _

end Image

/-! ## The scan -/

section Scan

variable {flash : Flash} {memory : Bytes} {available : Bool} {filename : List UInt8}

/-- The scan goes past pages that do not begin with the file. -/
theorem inlineScan_skip {low high : Nat} (le : low ≤ high) (below : high * flash.pageSize < 65536)
    (skip : ∀ page, low < page → page ≤ high → ¬ValidNode memory (page * flash.pageSize) ∨
      strncmp (pgmRead memory (page * flash.pageSize + 1)) (cString filename) vfsInlineFnlen ≠ 0)
    (passes : Nat) :
    inlineScan flash memory available filename (high - low + passes) (high * flash.pageSize) =
      inlineScan flash memory available filename passes (low * flash.pageSize) := by
  induction high, le using Nat.le_induction with
  | base => rw [Nat.sub_self, Nat.zero_add]
  | succ high le ih =>
      have large := flash.large
      have positive : (high + 1) * flash.pageSize ≠ 0 := Nat.mul_ne_zero (Nat.succ_ne_zero high) (by omega)
      have split : (high + 1) * flash.pageSize = high * flash.pageSize + flash.pageSize := Nat.succ_mul _ _
      have next : ((high + 1) * flash.pageSize + 2 ^ 16 - flash.pageSize) % 2 ^ 16 = high * flash.pageSize := by
        omega
      rw [show high + 1 - low + passes = high - low + passes + 1 by omega, inlineScan, if_neg positive]
      dsimp only
      rw [if_pos (skip (high + 1) (Nat.lt_succ_of_le le) le_rfl), next]
      exact ih (by omega) fun page above small => skip page above (Nat.le_succ_of_le small)

/-- No page begins with the file. -/
theorem vfsInlineOpen_none
    (skip : ∀ offset < flash.size, flash.pageSize ∣ offset → 0 < offset → ¬ValidNode memory offset ∨
      strncmp (pgmRead memory (offset + 1)) (cString filename) vfsInlineFnlen ≠ 0)
    {passes : Nat} (enough : flash.size / flash.pageSize ≤ passes) :
    vfsInlineOpen flash memory available passes filename = some none := by
  have large := flash.large
  have small := flash.small
  have some := flash.some
  obtain ⟨pages, total⟩ := flash.pages
  rw [total, Nat.mul_div_cancel_left _ (by omega)] at enough
  have positive : 0 < pages := Nat.pos_of_ne_zero fun none => by
    rw [none, Nat.mul_zero] at total
    omega
  have last : flash.size - flash.pageSize = (pages - 1) * flash.pageSize := by
    rw [total, Nat.sub_one_mul, Nat.mul_comm]
  have whole : (pages - 1) * flash.pageSize < flash.size := by omega
  rw [vfsInlineOpen, last, show passes = pages - 1 - 0 + (passes - (pages - 1)) by omega,
    inlineScan_skip (Nat.zero_le _) (by omega) fun page above below =>
      skip _ (Nat.lt_of_le_of_lt (Nat.mul_le_mul_right _ below) whole) (Nat.dvd_mul_left _ _)
        (Nat.mul_pos above (by omega)),
    show passes - (pages - 1) = passes - pages + 1 by omega, inlineScan, Nat.zero_mul, if_pos rfl]

/-- Only one page begins with the file. -/
theorem vfsInlineOpen_some {name content : List UInt8} {offset : Nat}
    (entry : Entry memory name content offset) (inside : offset < flash.size)
    (aligned : flash.pageSize ∣ offset) (behind : 0 < offset)
    (same : strncmp (pgmRead memory (offset + 1)) (cString filename) vfsInlineFnlen = 0)
    (skip : ∀ other < flash.size, flash.pageSize ∣ other → other ≠ offset → ¬ValidNode memory other ∨
      strncmp (pgmRead memory (other + 1)) (cString filename) vfsInlineFnlen ≠ 0)
    {passes : Nat} (enough : flash.size / flash.pageSize ≤ passes) :
    vfsInlineOpen flash memory true passes filename = some (some ⟨offset + 10, 0, content.length⟩) := by
  have large := flash.large
  have small := flash.small
  obtain ⟨pages, total⟩ := flash.pages
  obtain ⟨page, rfl⟩ := aligned
  rw [total, Nat.mul_div_cancel_left _ (by omega)] at enough
  rw [total] at inside
  have before : page < pages := Nat.lt_of_mul_lt_mul_left inside
  have last : flash.size - flash.pageSize = (pages - 1) * flash.pageSize := by
    rw [total, Nat.sub_one_mul, Nat.mul_comm]
  have whole : (pages - 1) * flash.pageSize < flash.size := by
    have := Nat.le_mul_of_pos_right flash.pageSize (show 0 < pages by omega)
    omega
  have room : flash.pageSize * page + flash.pageSize ≤ flash.pageSize * pages := by
    rw [← Nat.mul_succ]
    exact Nat.mul_le_mul_left _ before
  rw [vfsInlineOpen, last, show passes = pages - 1 - page + (passes - (pages - 1 - page)) by omega,
    inlineScan_skip (Nat.le_sub_one_of_lt before) (by omega) fun other above below =>
      skip _ (Nat.lt_of_le_of_lt (Nat.mul_le_mul_right _ below) whole) (Nat.dvd_mul_left _ _) fun equal => ?_,
    show passes - (pages - 1 - page) = passes - (pages - 1 - page) - 1 + 1 by omega, inlineScan,
    Nat.mul_comm page, if_neg (Nat.pos_iff_ne_zero.mp behind)]
  · dsimp only
    rw [if_neg (not_or.mpr ⟨not_not_intro entry.valid, not_not_intro same⟩), if_pos rfl, entry.length,
      Nat.mod_eq_of_lt (show flash.pageSize * page + sizeofInlineNode + 1 < 2 ^ 16 by
        rw [sizeofInlineNode]
        omega)]
    rfl
  · rw [Nat.mul_comm] at equal
    have := Nat.eq_of_mul_eq_mul_left (by omega) equal
    omega

end Scan

/-- The files that were appended to an image that is not empty are read back from the device. -/
theorem inline_files_read_back (flash : Flash) (image : List UInt8) (firmware : image ≠ [])
    (files : List Source) (final : List UInt8) (appended : Appended flash image files final) :
    ReadBack flash files (programmed final) := by
  obtain ⟨-, placed⟩ := concatAll_placed appended.concat (appended.fits.trans flash.small)
  obtain ⟨lengths, placed⟩ := List.forall₂_iff_get.mp placed
  have above := List.length_pos_iff.mpr firmware
  -- A page that begins with a file of this name is where it was appended.
  have found : ∀ name : List UInt8, (∀ ch ∈ name, ch ≠ 0) → name.length ≤ vfsInlineFnlen →
      ∀ offset < flash.size, flash.pageSize ∣ offset → ValidNode (programmed final) offset →
        strncmp (pgmRead (programmed final) (offset + 1)) (cString name) vfsInlineFnlen = 0 →
          ∃ index, ∃ small : index < files.length, basename (files[index]).path = name ∧
            (nodeOffsets flash.pageSize files image)[index]? = some offset := by
    intro name terminated short offset inside aligned valid same
    have member := not_not.mp fun absent => appended.unambiguous offset inside aligned absent valid
    obtain ⟨index, small, rfl⟩ := List.getElem_of_mem member
    have here := placed index (lengths ▸ small) small
    refine ⟨index, lengths ▸ small, ?_, List.getElem?_eq_getElem small⟩
    refine (here.entry.name_eq_iff ?_ here.short terminated short).mp same
    exact fun ch inName => appended.strings _ (List.get_mem _ _) ch ((List.rtakeWhile_suffix _ _).subset inName)
  constructor
  · intro file member passes enough
    obtain ⟨index, small, rfl⟩ := List.getElem_of_mem member
    have here := placed index small (lengths ▸ small)
    have terminated : ∀ ch ∈ basename (files[index]).path, ch ≠ 0 := fun ch inName =>
      appended.strings _ (List.getElem_mem small) ch ((List.rtakeWhile_suffix _ _).subset inName)
    refine ⟨_, vfsInlineOpen_some here.entry (Nat.lt_of_lt_of_le here.inside appended.fits) here.aligned
      (Nat.lt_of_lt_of_le above here.behind)
      ((here.entry.name_eq_iff terminated here.short terminated here.short).mpr rfl) ?_ enough, ?_⟩
    · intro other inside aligned apart
      by_contra same
      rw [not_or, not_not, not_not] at same
      obtain ⟨index', small', name, place⟩ := found _ terminated here.short other inside aligned same.1 same.2
      have names : (files.map fun file => basename file.path)[index']? =
          (files.map fun file => basename file.path)[index]? := by
        rw [List.getElem?_map, List.getElem?_map, List.getElem?_eq_getElem small, List.getElem?_eq_getElem small',
          Option.map_some, Option.map_some, name]
      have one : index' = index := (List.getElem?_inj (by rwa [List.length_map]) appended.distinct).mp names
      rw [one, List.getElem?_eq_getElem (lengths ▸ small)] at place
      exact apart (Option.some.inj place).symm
    · intro lengths
      exact here.entry.readAll_eq 0 (Nat.zero_le _) lengths
  · intro name terminated short absent available passes enough
    refine vfsInlineOpen_none (fun offset inside aligned _ => ?_) enough
    by_contra same
    rw [not_or, not_not, not_not] at same
    obtain ⟨index, small, rfl, -⟩ := found name terminated short offset inside aligned same.1 same.2
    exact absent (List.mem_map_of_mem (List.getElem_mem small))

/-! ## Two images -/

/-- Two pages of 64 bytes. -/
def twoPages : Flash := ⟨64, 128, by decide, by decide, by decide, by decide⟩

theorem twoPages_offset {offset : Nat} (inside : offset < twoPages.size) (aligned : twoPages.pageSize ∣ offset) :
    offset = 0 ∨ offset = 64 := by
  obtain ⟨page, rfl⟩ : 64 ∣ offset := aligned
  have small : 64 * page < 128 := inside
  omega

/-- An image of one byte, and a file of one byte with the name `a`. -/
theorem inline_files_read_back_two_pages :
    ReadBack twoPages [⟨[97], [5]⟩]
      (programmed ([9] ++ List.replicate 63 0xff ++ record [97] [5])) := by
  refine inline_files_read_back twoPages [9] (by decide) [⟨[97], [5]⟩] _
    ⟨by decide +kernel, by decide +kernel, by simp, by simp, fun offset inside aligned absent => ?_⟩
  rcases twoPages_offset inside aligned with rfl | rfl
  · decide
  · exact absurd (by decide +kernel) absent

/-- The same file appended to an empty image is on the page that the device does not look at. -/
theorem inline_file_not_found :
    Appended twoPages [] [⟨[97], [5]⟩] (record [97] [5]) ∧
      ¬ReadBack twoPages [⟨[97], [5]⟩] (programmed (record [97] [5])) := by
  constructor
  · refine ⟨by decide +kernel, by decide, by simp, by simp, fun offset inside aligned absent => ?_⟩
    rcases twoPages_offset inside aligned with rfl | rfl
    · exact absurd (by decide) absent
    · decide
  · intro readBack
    obtain ⟨handle, opens, -⟩ := readBack.opens _ List.mem_cons_self 2 (by decide)
    have none : vfsInlineOpen twoPages (programmed (record [97] [5])) true 2 (basename [97]) = some none := by
      decide
    exact nomatch none.symm.trans opens

end Ethersex.Vfs
