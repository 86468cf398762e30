import Mathlib
import Ethersex.Library.Bytes
import Ethersex.Tftp.Download

/-!
# The TFTP server of the boot loader

`tftp_handle_packet` of the boot loader reads and writes the flash in blocks of 512 bytes, each of which
is a number of pages.  Where a block begins is computed in 16 bits.  Every block that arrives is filled up and
flashed, also when there is nothing in it.
-/

namespace Ethersex.Tftp.Bootload

open Library

/-! ## The boot loader -/

/-- A part: the bytes of its flash, `SPM_PAGESIZE`, and how much of the flash the application may have; the boot loader
is behind it.  With the options for how long to wait before the application is started. -/
structure Part where
  size : Nat
  pageSize : Nat
  appSize : Nat
  confBootloadDelay : Nat
  tftpomatic : Bool
  blocks : 512 ∣ size
  pages : pageSize ∣ 512
  fits : appSize + 512 ≤ size
  small : size ≤ 2 ^ 24

/-- What the boot loader keeps of a transfer, and the flash. -/
structure State where
  download : Bool
  transfered : Nat
  finished : Bool
  bootloadDelay : Nat
  flash : Bytes

section Handler

variable (part : Part)

/-- `pgm_read_byte_near`. -/
def pgmReadByteNear (flash : Bytes) (address : Nat) : UInt8 := flash (address % 2 ^ 16)

/-- `flash_page`: the page is erased and written if there is anything to change. -/
def flashPage (page : Nat) (buf flash : Bytes) : Bytes :=
  if ∀ i < part.pageSize, buf i = pgmReadByteNear flash (page + i) then flash
  else fun k => if page ≤ k ∧ k < page + part.pageSize then buf (k - page) else flash k

/-- The first pages of a block. -/
def flashPages (base : Nat) (buf : Bytes) : (count : Nat) → Bytes → Bytes
  | 0, flash => flash
  | count + 1, flash =>
      flashPage part ((base + count * part.pageSize) % 2 ^ 16) (fun k => buf (count * part.pageSize + k))
        (flashPages base buf count flash)

/-- A block is behind the end of the flash. -/
def PastEnd (transfered base : Nat) : Prop :=
  if part.size = 2 ^ 16 then transfered ≠ 0 ∧ base = 0 else part.size ≤ base

instance (transfered base : Nat) : Decidable (PastEnd part transfered base) :=
  inferInstanceAs (Decidable (if part.size = 2 ^ 16 then transfered ≠ 0 ∧ base = 0 else part.size ≤ base))

/-- `send_data`. -/
def sendData (state : State) : State × List Packet :=
  if state.finished then ({ state with bootloadDelay := part.confBootloadDelay }, [])
  else
    let number := (state.transfered + 1) % 2 ^ 16
    let base := 512 * state.transfered % 2 ^ 16
    if PastEnd part state.transfered base then
      ({ state with finished := true }, [.data number []])
    else
      ({ state with transfered := number },
        [.data number ((List.range 512).map fun i => pgmReadByteNear state.flash (base + i))])

/-- `tftp_handle_packet`. -/
def tftpHandlePacket (packet : Packet) (state : State) : State × List Packet :=
  match packet with
  | .readRequest _ => sendData part ⟨true, 0, false, 0, state.flash⟩
  | .ack block =>
      if !state.download then (state, [.error])
      else if block < state.transfered ∨ (state.transfered + 1) % 2 ^ 16 < block then (state, [.error])
      else sendData part { state with transfered := block }
  | .writeRequest _ => ({ state with download := false, transfered := 0, finished := false }, [.ack 0])
  | .data block data =>
      let state := { state with bootloadDelay := 0 }
      if state.download then (state, [.error])
      else if block < state.transfered then (state, [.error])
      else if block = state.transfered then (state, [.ack block])
      else if (state.transfered + 1) % 2 ^ 16 < block then (state, [.error])
      else
        -- end of file reached, the rest is initialised
        let buf : Bytes := fun i => data.getD i 0xFF
        let flash := flashPages part (512 * (block - 1) % 2 ^ 16) buf (512 / part.pageSize) state.flash
        if data.length < 512 then
          (⟨state.download, block, true, if part.tftpomatic then 1 else part.confBootloadDelay, flash⟩, [.ack block])
        else ({ state with transfered := block, flash }, [.ack block])
  | .error => (state, [.error])

/-- Datagrams arrive one after another; all the answers. -/
def serveAll : List Packet → State → State × List Packet
  | [], state => (state, [])
  | packet :: rest, state =>
      let (state, answers) := tftpHandlePacket part packet state
      let (state, later) := serveAll rest state
      (state, answers ++ later)

end Handler

/-! ## Uploads and downloads -/

/-- The blocks that arrive: after the first `count`, the next one or one of these again, up to `total`. -/
def InOrder (total : Nat) : (count : Nat) → List Nat → Prop
  | count, [] => count = total
  | count, number :: rest =>
      (1 ≤ number ∧ number ≤ count ∧ InOrder total count rest) ∨ (number = count + 1 ∧ InOrder total (count + 1) rest)

section Transfers

variable (part : Part) (image : List UInt8)

/-- The state when the blocks with these numbers have arrived. -/
def uploaded (numbers : List Nat) (state : State) : State :=
  (serveAll part (.writeRequest [] :: numbers.map fun number => .data number (block image number)) state).1

/-- The image, filled up to the end of its last block, and what was there before behind it. -/
def expected (flash : Bytes) : Bytes := fun k =>
  if k < image.length then image.getD k 0 else if k < 512 * ((image.length + 511) / 512) then 0xFF else flash k

/-- A request for a file, and an acknowledgement for each block of the flash. -/
def downloadPackets : List Packet := .readRequest [] :: (List.range (part.size / 512)).map fun k => .ack (k + 1)

/-- The blocks of the flash, and an empty one. -/
def flashBlocks (flash : Bytes) : List Packet :=
  (List.range (part.size / 512)).map (fun k => .data (k + 1) ((List.range 512).map fun i => flash (512 * k + i))) ++
    [.data (part.size / 512 + 1) []]

/-- The image is in the flash, and a download gets what is there. -/
structure Flashed (numbers : List Nat) (state : State) : Prop where
  contents : ∀ k < part.size, (uploaded part image numbers state).flash k = expected image state.flash k
  returns : (serveAll part (downloadPackets part) (uploaded part image numbers state)).2 =
    flashBlocks part (uploaded part image numbers state).flash

end Transfers

/-! ## What flashing does -/

section Flashing

variable {part : Part} {image : List UInt8}

theorem Part.pageSize_pos (part : Part) : 0 < part.pageSize :=
  Nat.pos_of_dvd_of_pos part.pages (by decide)

theorem flashPage_apply {page : Nat} (near : page + part.pageSize ≤ 2 ^ 16) (buf flash : Bytes) (k : Nat) :
    flashPage part page buf flash k = if page ≤ k ∧ k < page + part.pageSize then buf (k - page) else flash k := by
  rw [flashPage]
  split
  next same =>
    split
    next inside =>
      rw [same (k - page) (by omega), pgmReadByteNear, Nat.mod_eq_of_lt (by omega), Nat.add_sub_cancel' inside.1]
    · rfl
  · rfl

theorem flashPages_apply {base count : Nat} (near : base + count * part.pageSize ≤ 2 ^ 16) (buf flash : Bytes) (k : Nat) :
    flashPages part base buf count flash k =
      if base ≤ k ∧ k < base + count * part.pageSize then buf (k - base) else flash k := by
  induction count with
  | zero =>
      rw [Nat.zero_mul, flashPages, if_neg (by omega)]
  | succ count ih =>
      have positive := part.pageSize_pos
      rw [Nat.succ_mul] at near ⊢
      rw [flashPages, Nat.mod_eq_of_lt (by omega), flashPage_apply (by omega), ih (by omega)]
      by_cases last : base + count * part.pageSize ≤ k ∧ k < base + count * part.pageSize + part.pageSize
      · rw [if_pos last, if_pos (by omega)]
        congr 1
        omega
      · rw [if_neg last]
        exact if_congr (by omega) rfl rfl

/-- A block is flashed somewhere in the first 64 KiB. -/
theorem flashBlock_apply {base : Nat} (aligned : 512 ∣ base) (near : base < 2 ^ 16) (buf flash : Bytes) (k : Nat) :
    flashPages part base buf (512 / part.pageSize) flash k =
      if base ≤ k ∧ k < base + 512 then buf (k - base) else flash k := by
  rw [flashPages_apply, Nat.div_mul_cancel part.pages]
  rw [Nat.div_mul_cancel part.pages]
  omega

/-- The boot loader does not write behind the first 64 KiB. -/
theorem tftpHandlePacket_far (packet : Packet) (state : State) {k : Nat} (far : 2 ^ 16 ≤ k) :
    (tftpHandlePacket part packet state).1.flash k = state.flash k := by
  have sends : ∀ state, (sendData part state).1.flash = state.flash := by
    intro state
    rw [sendData]
    split
    · rfl
    dsimp only
    split <;> rfl
  cases packet with
  | readRequest name => rw [tftpHandlePacket, sends]
  | ack block =>
      rw [tftpHandlePacket]
      split
      · rfl
      split
      · rfl
      · rw [sends]
  | writeRequest name => rfl
  | data block data =>
      rw [tftpHandlePacket]
      dsimp only
      have flashes : ∀ buf : Bytes, flashPages part (512 * (block - 1) % 2 ^ 16) buf (512 / part.pageSize) state.flash k =
          state.flash k := by
        intro buf
        have near : 512 * (block - 1) % 2 ^ 16 < 2 ^ 16 := Nat.mod_lt _ (by decide)
        rw [flashBlock_apply (by omega) near, if_neg (by omega)]
      split_ifs <;> first | rfl | exact flashes _
  | error => rfl

theorem serveAll_far (packets : List Packet) (state : State) {k : Nat} (far : 2 ^ 16 ≤ k) :
    (serveAll part packets state).1.flash k = state.flash k := by
  induction packets generalizing state with
  | nil => rfl
  | cons packet rest ih => exact (ih _).trans (tftpHandlePacket_far packet state far)

/-! ## Uploads -/

theorem getD_block (image : List UInt8) (count : Nat) {i : Nat} (small : i < 512) :
    (block image (count + 1)).getD i 0xFF = image.getD (512 * count + i) 0xFF := by
  rw [block, Nat.add_sub_cancel, List.getD_eq_getElem?_getD, List.getElem?_take_of_lt small, List.getElem?_drop,
    List.getD_eq_getElem?_getD]

/-- An upload that has got to some block. -/
structure Uploading (count : Nat) (flash : Bytes) (state : State) : Prop where
  upload : state.download = false
  transfered : state.transfered = count
  flash : state.flash = flash

variable {count : Nat} {flash : Bytes} {state : State}

/-- A block that was there is not written again. -/
theorem Uploading.again (uploading : Uploading count flash state) {number : Nat} (old : number ≤ count)
    (data : List UInt8) : Uploading count flash (tftpHandlePacket part (.data number data) state).1 := by
  obtain ⟨upload, transfered, contents⟩ := uploading
  rw [tftpHandlePacket]
  dsimp only
  rw [upload, if_neg Bool.false_ne_true, transfered]
  split
  · exact ⟨rfl, rfl, contents⟩
  · rw [if_pos (by omega)]
    exact ⟨rfl, rfl, contents⟩

/-- The next block is written. -/
theorem Uploading.next (uploading : Uploading count flash state) (small : count + 1 < 2 ^ 16) (data : List UInt8) :
    Uploading (count + 1) (flashPages part (512 * count % 2 ^ 16) (fun i => data.getD i 0xFF) (512 / part.pageSize) flash)
      (tftpHandlePacket part (.data (count + 1) data) state).1 := by
  obtain ⟨upload, transfered, contents⟩ := uploading
  rw [tftpHandlePacket]
  dsimp only
  rw [upload, if_neg Bool.false_ne_true, transfered, if_neg (by omega), if_neg (by omega), Nat.mod_eq_of_lt small,
    if_neg (lt_irrefl _), Nat.add_sub_cancel, contents]
  split
  · exact ⟨rfl, rfl, rfl⟩
  · exact ⟨rfl, rfl, rfl⟩

theorem InOrder.le {total : Nat} {numbers : List Nat} (inOrder : InOrder total count numbers) : count ≤ total := by
  induction numbers generalizing count with
  | nil => exact Nat.le_of_eq inOrder
  | cons number rest ih =>
      rcases inOrder with ⟨-, -, inOrder⟩ | ⟨-, inOrder⟩
      · exact ih inOrder
      · exact Nat.le_of_succ_le (ih inOrder)

/-- In the first 64 KiB, the blocks go where they belong. -/
theorem Uploading.run {total : Nat} (near : 512 * total ≤ 2 ^ 16) {numbers : List Nat} (inOrder : InOrder total count numbers)
    (uploading : Uploading count flash state) :
    ∀ k, (serveAll part (numbers.map fun number => .data number (block image number)) state).1.flash k =
      if 512 * count ≤ k ∧ k < 512 * total then image.getD k 0xFF else flash k := by
  induction numbers generalizing count flash state with
  | nil =>
      obtain rfl : count = total := inOrder
      intro k
      rw [if_neg (by omega), ← uploading.flash]
      rfl
  | cons number rest ih =>
      rcases inOrder with ⟨-, old, inOrder⟩ | ⟨rfl, inOrder⟩
      · exact ih inOrder (uploading.again old _)
      · have inside := inOrder.le
        intro k
        refine (ih inOrder (uploading.next (by omega) (block image (count + 1))) k).trans ?_
        have small : 512 * count < 2 ^ 16 := by omega
        rw [Nat.mod_eq_of_lt small, flashBlock_apply (Nat.dvd_mul_right _ _) small]
        by_cases later : 512 * (count + 1) ≤ k ∧ k < 512 * total
        · rw [if_pos later, if_pos (by omega)]
        · rw [if_neg later]
          by_cases here : 512 * count ≤ k ∧ k < 512 * count + 512
          · rw [if_pos here, if_pos (by omega), getD_block image count (by omega), Nat.add_sub_cancel' here.1]
          · rw [if_neg here, if_neg (by omega)]

/-! ## Downloads -/

/-- What is read of a block. -/
def nearBlock (flash : Bytes) (count : Nat) : List UInt8 :=
  (List.range 512).map fun i => pgmReadByteNear flash (512 * count % 2 ^ 16 + i)

theorem serveAll_append (packets more : List Packet) (state : State) :
    serveAll part (packets ++ more) state =
      ((serveAll part more (serveAll part packets state).1).1,
        (serveAll part packets state).2 ++ (serveAll part more (serveAll part packets state).1).2) := by
  induction packets generalizing state with
  | nil => rfl
  | cons packet rest ih =>
      rw [List.cons_append, serveAll, serveAll]
      dsimp only
      rw [ih, List.append_assoc]

/-- A download that has got to some block. -/
def downloading (count : Nat) (flash : Bytes) : State := ⟨true, count, false, 0, flash⟩

theorem sendData_more (more : ¬PastEnd part count (512 * count % 2 ^ 16)) (small : count + 1 < 2 ^ 16) (flash : Bytes) :
    sendData part (downloading count flash) =
      (downloading (count + 1) flash, [.data (count + 1) (nearBlock flash count)]) := by
  rw [sendData, downloading, if_neg Bool.false_ne_true]
  dsimp only
  rw [if_neg more, Nat.mod_eq_of_lt small]
  rfl

/-- An acknowledgement of the block that was sent last. -/
theorem handle_ack (small : count + 1 < 2 ^ 16) (flash : Bytes) :
    tftpHandlePacket part (.ack count) (downloading count flash) = sendData part (downloading count flash) := by
  rw [tftpHandlePacket, if_neg (show ¬(!(downloading count flash).download) = true from nofun), if_neg]
  · rfl
  · rw [downloading]
    dsimp only
    rw [Nat.mod_eq_of_lt small]
    omega

/-- The blocks in front of the end of the flash. -/
theorem serveAll_download (name : List UInt8) (state : State) (small : count + 1 < 2 ^ 16)
    (more : ∀ k ≤ count, ¬PastEnd part k (512 * k % 2 ^ 16)) :
    serveAll part (.readRequest name :: (List.range count).map fun k => .ack (k + 1)) state =
      (downloading (count + 1) state.flash,
        (List.range (count + 1)).map fun k => .data (k + 1) (nearBlock state.flash k)) := by
  induction count with
  | zero =>
      rw [List.range_zero, List.map_nil, serveAll, tftpHandlePacket]
      have sends := sendData_more (more 0 le_rfl) small state.flash
      rw [downloading] at sends
      rw [sends]
      rfl
  | succ count ih =>
      have before := ih (Nat.lt_of_succ_lt small) fun k inside => more k (Nat.le_succ_of_le inside)
      rw [List.range_succ, List.map_append, ← List.cons_append, serveAll_append, before, List.map_singleton, serveAll,
        handle_ack small, sendData_more (more _ le_rfl) small, List.range_succ (n := count + 1), List.map_append]
      rfl

/-! ## When the image arrives -/

theorem uploaded_apply {total : Nat} (near : 512 * total ≤ 2 ^ 16) {numbers : List Nat}
    (inOrder : InOrder total 0 numbers) (state : State) (k : Nat) :
    (uploaded part image numbers state).flash k = if k < 512 * total then image.getD k 0xFF else state.flash k := by
  have start : Uploading 0 state.flash (tftpHandlePacket part (.writeRequest []) state).1 := ⟨rfl, rfl, rfl⟩
  refine (start.run near inOrder k).trans (if_congr ?_ rfl rfl)
  omega

/-- A block of a flash of up to 64 KiB is read as it is, and the one behind the last one is past the end. -/
theorem pastEnd_iff_of_near (near : part.size ≤ 2 ^ 16) (inside : count ≤ part.size / 512) :
    PastEnd part count (512 * count % 2 ^ 16) ↔ count = part.size / 512 := by
  have blocks := part.blocks
  have fits := part.fits
  rw [PastEnd]
  split <;> omega

theorem nearBlock_of_near (near : 512 * (count + 1) ≤ 2 ^ 16) (flash : Bytes) :
    nearBlock flash count = (List.range 512).map fun i => flash (512 * count + i) := by
  refine List.map_congr_left fun i small => ?_
  rw [List.mem_range] at small
  rw [pgmReadByteNear, Nat.mod_eq_of_lt (show 512 * count < 2 ^ 16 by omega), Nat.mod_eq_of_lt (by omega)]

theorem returns_of_near (near : part.size ≤ 2 ^ 16) (state : State) :
    (serveAll part (downloadPackets part) state).2 = flashBlocks part state.flash := by
  have fits := part.fits
  obtain ⟨last, blocks⟩ : ∃ last, part.size / 512 = last + 1 := ⟨part.size / 512 - 1, by omega⟩
  have more : ∀ k ≤ last, ¬PastEnd part k (512 * k % 2 ^ 16) := fun k inside => by
    rw [pastEnd_iff_of_near near (by omega)]
    omega
  have end_ : PastEnd part (last + 1) (512 * (last + 1) % 2 ^ 16) :=
    (pastEnd_iff_of_near near (by omega)).mpr blocks.symm
  have finishes : (sendData part (downloading (last + 1) state.flash)).2 = [.data (last + 2) []] := by
    rw [sendData, downloading, if_neg Bool.false_ne_true]
    dsimp only
    rw [if_pos end_, Nat.mod_eq_of_lt (by omega)]
  rw [downloadPackets, flashBlocks, blocks, List.range_succ, List.map_append, ← List.cons_append, serveAll_append,
    serveAll_download [] state (by omega) more, List.map_singleton, serveAll, handle_ack (by omega)]
  dsimp only
  rw [finishes, ← List.range_succ]
  refine congrArg₂ _ (List.map_congr_left fun k member => ?_) rfl
  rw [List.mem_range] at member
  rw [nearBlock_of_near (by omega)]

theorem flashed_of_near (near : part.size ≤ 2 ^ 16) (fits : image.length ≤ part.appSize)
    (short : image.length % 512 ≠ 0) {numbers : List Nat} (inOrder : InOrder (image.length / 512 + 1) 0 numbers)
    (state : State) : Flashed part image numbers state where
  contents := fun k _ => by
    have inside := part.fits
    rw [uploaded_apply (by omega) inOrder, expected]
    by_cases within : k < image.length
    · rw [if_pos (by omega), if_pos within, List.getD_eq_getElem _ _ within, List.getD_eq_getElem _ _ within]
    · rw [if_neg within, List.getD_eq_default _ _ (by omega)]
      exact if_congr (by omega) rfl rfl
  returns := returns_of_near near _

theorem inOrder_range' (count more : Nat) : InOrder (count + more) count (List.range' (count + 1) more) := by
  induction more generalizing count with
  | zero => rfl
  | succ more ih =>
      rw [List.range'_succ, show count + (more + 1) = count + 1 + more by omega]
      exact Or.inr ⟨rfl, ih (count + 1)⟩

/-- All the blocks in turn. -/
theorem inOrder_blocks (total : Nat) : InOrder total 0 (List.range' 1 total) := by
  have inOrder := inOrder_range' 0 total
  rwa [Nat.zero_add, Nat.zero_add] at inOrder

/-- An image whose last block is empty: the block behind it is erased. -/
theorem not_flashed_of_empty (near : part.size ≤ 2 ^ 16) (fits : image.length ≤ part.appSize)
    (empty : image.length % 512 = 0) :
    ∃ state, ¬Flashed part image (List.range' 1 (image.length / 512 + 1)) state := by
  refine ⟨⟨false, 0, false, 0, fun _ => 0⟩, fun flashed => ?_⟩
  have inside := part.fits
  have erased := flashed.contents image.length (by omega)
  rw [uploaded_apply (by omega) (inOrder_blocks _), if_pos (by omega), expected, if_neg (lt_irrefl _),
    if_neg (by omega), List.getD_eq_default _ _ le_rfl] at erased
  have same : (0xFF : UInt8) = 0 := erased
  exact absurd same (by decide)

/-- In a part with more flash, the block behind 64 KiB is taken for the first one by a download. -/
theorem wraps_of_returns (far : 2 ^ 16 < part.size)
    (returns : (serveAll part (downloadPackets part) state).2 = flashBlocks part state.flash) :
    state.flash (2 ^ 16) = state.flash 0 := by
  have blocks := part.blocks
  have small := part.small
  have more : ∀ k ≤ part.size / 512, ¬PastEnd part k (512 * k % 2 ^ 16) := fun k _ => by
    rw [PastEnd, if_neg (by omega)]
    have : 512 * k % 2 ^ 16 < 2 ^ 16 := Nat.mod_lt _ (by decide)
    omega
  rw [downloadPackets, serveAll_download [] state (by omega) more, flashBlocks] at returns
  have there : 128 < part.size / 512 := by omega
  have answer := congrArg (fun packets => packets[128]?) returns
  dsimp only at answer
  rw [List.getElem?_append_left (by simpa using there), List.getElem?_map, List.getElem?_map,
    List.getElem?_range (by omega), List.getElem?_range there, Option.map_some, Option.map_some] at answer
  have bytes := (Packet.data.inj (Option.some.inj answer)).2
  exact (List.map_inj_left.mp bytes 0 (List.mem_range.mpr (by decide))).symm

/-- What is behind 64 KiB is not written. -/
theorem not_flashed_of_far (far : 2 ^ 16 < part.size) (image : List UInt8) :
    ∃ state, ¬Flashed part image (List.range' 1 (image.length / 512 + 1)) state := by
  -- the byte behind 64 KiB is not the one the image begins with
  obtain ⟨byte, starts⟩ : ∃ byte, byte ≠ image.getD 0 0 := by
    by_cases zero : image.getD 0 0 = 0
    · exact ⟨1, by rw [zero]; decide⟩
    · exact ⟨0, fun same => zero same.symm⟩
  refine ⟨⟨false, 0, false, 0, fun k => if k < 2 ^ 16 then 0 else byte⟩, fun flashed => ?_⟩
  have kept := @serveAll_far part (.writeRequest [] ::
    (List.range' 1 (image.length / 512 + 1)).map fun number => .data number (block image number))
    ⟨false, 0, false, 0, fun k => if k < 2 ^ 16 then 0 else byte⟩ _ (le_refl (2 ^ 16))
  have front := flashed.contents 0 (by omega)
  have wraps := wraps_of_returns far flashed.returns
  rw [← uploaded] at kept
  rw [kept] at wraps
  dsimp only at wraps
  rw [if_neg (lt_irrefl _)] at wraps
  rw [expected] at front
  by_cases some : 0 < image.length
  · rw [if_pos some] at front
    exact starts (wraps.trans front)
  · have none : image = [] := List.eq_nil_of_length_eq_zero (by omega)
    subst none
    rw [if_neg (by decide), if_neg (by decide)] at front
    exact starts (wraps.trans front)

/-- Every upload of an image goes well, and every download after it, if the part has no more than 64 KiB of flash and
there is something in the last block. -/
theorem flashed_iff (part : Part) (image : List UInt8) (fits : image.length ≤ part.appSize) :
    (∀ numbers state, InOrder (image.length / 512 + 1) 0 numbers → Flashed part image numbers state) ↔
      part.size ≤ 2 ^ 16 ∧ image.length % 512 ≠ 0 := by
  constructor
  · intro flashed
    have inOrder : InOrder (image.length / 512 + 1) 0 (List.range' 1 (image.length / 512 + 1)) :=
      inOrder_blocks _
    have near : part.size ≤ 2 ^ 16 := by
      by_contra far
      obtain ⟨state, fails⟩ := @not_flashed_of_far part (by omega) image
      exact fails (flashed _ state inOrder)
    refine ⟨near, fun empty => ?_⟩
    obtain ⟨state, fails⟩ := not_flashed_of_empty near fits empty
    exact fails (flashed _ state inOrder)
  · exact fun both numbers state inOrder => flashed_of_near both.1 fits both.2 inOrder state

end Flashing

/-! ## A part -/

/-- An ATmega32. -/
def atmega32 : Part where
  size := 32768
  pageSize := 128
  appSize := 28672
  confBootloadDelay := 250
  tftpomatic := false
  blocks := by decide
  pages := by decide
  fits := by decide
  small := by decide

/-- An image of three bytes. -/
theorem flashed_iff_three :
    (∀ numbers state, InOrder 1 0 numbers → Flashed atmega32 [1, 2, 3] numbers state) ↔
      atmega32.size ≤ 2 ^ 16 ∧ ([1, 2, 3] : List UInt8).length % 512 ≠ 0 :=
  flashed_iff atmega32 [1, 2, 3] (by decide)

/-- An image of 512 zeros: the second block, which is empty, erases what is behind it. -/
theorem flashed_behind :
    ¬Flashed atmega32 (List.replicate 512 0) [1, 2] ⟨false, 0, false, 0, fun _ => 0⟩ := by
  intro flashed
  have erased := flashed.contents 512 (by decide)
  have blocks : InOrder 2 0 [1, 2] := inOrder_blocks 2
  rw [uploaded_apply (by decide) blocks, if_pos (by decide), expected,
    if_neg (by rw [List.length_replicate]; decide), if_neg (by rw [List.length_replicate]; decide),
    List.getD_eq_default _ _ (by rw [List.length_replicate])] at erased
  have same : (0xFF : UInt8) = 0 := erased
  exact absurd same (by decide)

end Ethersex.Tftp.Bootload
