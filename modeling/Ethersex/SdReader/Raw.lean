import Mathlib
import Ethersex.Library.Cached

/-!
# The memory card

`sd_raw_read` and `sd_raw_write` keep one block of the card in memory, which is written back when another one is
needed, and by `sd_raw_sync`.  The card may refuse any of the commands, or let the time for its data run out.

This is the code for cards that have no more than 2 GB (`SD_RAW_SDHC` is 0), with the buffer for writing.
-/

namespace Ethersex.SdReader

open Library

/-- The arithmetic of an `offset_t`. -/
def offsetT (offset : Nat) : Nat := offset % 2 ^ 32

/-- The card, whether it serves each of the commands to come, and `raw_block`. -/
structure Raw where
  card : Nat → UInt8
  serves : Stream' Bool
  rawBlock : Nat → UInt8
  rawBlockAddress : Nat
  rawBlockWritten : Bool

/-- What a function returns: 1 or 0, the bytes that it has put into a buffer, and what it leaves. -/
structure Answer where
  value : Bool
  bytes : List UInt8
  raw : Raw

namespace Raw

variable (raw : Raw)

/-- As `sd_raw_init` leaves it, before it reads the first block. -/
def init (card : Nat → UInt8) (serves : Stream' Bool) (rawBlock : Nat → UInt8) : Raw :=
  ⟨card, serves, rawBlock, 2 ^ 32 - 1, true⟩

def asked : Raw := { raw with serves := raw.serves.tail }

/-- `CMD_WRITE_SINGLE_BLOCK` with `raw_block`. -/
def writeSingleBlock (blockAddress : Nat) : Bool × Raw :=
  if raw.serves.head then
    (true, { raw.asked with
      card := put raw.card blockAddress (get raw.rawBlock 0 512)
      rawBlockWritten := true })
  else (false, raw.asked)

/-- `CMD_READ_SINGLE_BLOCK` into `raw_block`. -/
def readSingleBlock (blockAddress : Nat) : Bool × Raw :=
  if raw.serves.head then
    (true, { raw.asked with
      rawBlock := fun i => raw.card (blockAddress + i)
      rawBlockAddress := blockAddress })
  else (false, raw.asked)

/-- `sd_raw_sync`.  Its `sd_raw_write` of the whole `raw_block` neither looks for a block nor copies one. -/
def sdRawSync : Bool × Raw :=
  if raw.rawBlockWritten then (true, raw) else raw.writeSingleBlock raw.rawBlockAddress

/-- The branch of `sd_raw_read` for a block that is not in memory. -/
def fetch (blockAddress : Nat) : Bool × Raw :=
  if raw.sdRawSync.1 then raw.sdRawSync.2.readSingleBlock blockAddress else (false, raw.sdRawSync.2)

/-- `raw_block` holds the data that are requested. -/
def cached (blockAddress : Nat) : Bool × Raw :=
  if blockAddress = raw.rawBlockAddress then (true, raw) else raw.fetch blockAddress

/-- `raw_block` is the block into which data are merged.  A block that is overwritten as a whole is not read. -/
def merged (blockAddress blockOffset writeLength : Nat) : Bool × Raw :=
  if blockAddress = raw.rawBlockAddress then (true, raw)
  else if raw.sdRawSync.1 then
    if blockOffset ≠ 0 ∨ writeLength < 512 then raw.sdRawSync.2.fetch blockAddress
    else (true, { raw.sdRawSync.2 with rawBlockAddress := blockAddress })
  else (false, raw.sdRawSync.2)

/-- `memcpy(raw_block + block_offset, buffer, write_length)`. -/
def copied (blockOffset : Nat) (bytes : List UInt8) : Raw :=
  { raw with
    rawBlock := put raw.rawBlock blockOffset bytes
    rawBlockWritten := false }

/-- `sd_raw_read`. -/
def sdRawRead (raw : Raw) (offset : Nat) : (length : Nat) → Answer
  | 0 => ⟨true, [], raw⟩
  | length + 1 =>
    let blockOffset := offset % 512
    let readLength := min (512 - blockOffset) (length + 1)
    let block := raw.cached (offset - blockOffset)
    if block.1 then
      let rest := sdRawRead block.2 (offsetT (offset + readLength)) (length + 1 - readLength)
      ⟨rest.value, get block.2.rawBlock blockOffset readLength ++ rest.bytes, rest.raw⟩
    else ⟨false, [], block.2⟩
  termination_by length => length
  decreasing_by
    have := Nat.mod_lt offset (show 0 < 512 by decide)
    omega

/-- `sd_raw_write`. -/
def sdRawWrite (raw : Raw) (offset : Nat) (buffer : List UInt8) : Answer :=
  if buffer = [] then ⟨true, [], raw⟩
  else
    let blockOffset := offset % 512
    let writeLength := min (512 - blockOffset) buffer.length
    let block := raw.merged (offset - blockOffset) blockOffset writeLength
    if block.1 then
      let copy := block.2.copied blockOffset (buffer.take writeLength)
      if buffer.length = writeLength then ⟨true, [], copy⟩
      else
        let written := copy.writeSingleBlock (offset - blockOffset)
        if written.1 then sdRawWrite written.2 (offsetT (offset + writeLength)) (buffer.drop writeLength)
        else ⟨false, [], written.2⟩
    else ⟨false, [], block.2⟩
  termination_by buffer.length
  decreasing_by
    have := Nat.mod_lt offset (show 0 < 512 by decide)
    have := List.length_pos_of_ne_nil (by assumption : ¬buffer = [])
    rw [List.length_drop]
    omega

/-! ## What is behind the block -/

/-- The bytes that are read: those of the card, but for the block in memory. -/
def contents : Nat → UInt8 := inFront 512 raw.card raw.rawBlock raw.rawBlockAddress

/-- A block that counts as written is the one of the card, and one that does not has a place there. -/
structure Coherent (raw : Raw) : Prop where
  clean : raw.rawBlockWritten = true → raw.contents = raw.card
  aligned : raw.rawBlockWritten = false → raw.rawBlockAddress % 512 = 0

theorem coherent_init (card : Nat → UInt8) (serves : Stream' Bool) (rawBlock : Nat → UInt8) :
    (init card serves rawBlock).Coherent where
  clean _ := by
    funext k
    refine if_neg fun here => ?_
    have none : k - k % 512 = 2 ^ 32 - 1 := here
    omega
  aligned written := by cases written

variable {raw : Raw} {offset : Nat} {bytes : List UInt8}

theorem block_aligned (offset : Nat) : (offset - offset % 512) % 512 = 0 :=
  Nat.mod_eq_zero_of_dvd (Nat.dvd_sub_mod offset)

theorem writeSingleBlock_spec (aligned : raw.rawBlockAddress % 512 = 0) :
    let written := raw.writeSingleBlock raw.rawBlockAddress
    written.2.contents = raw.contents ∧
      (written.1 = true → written.2.Coherent ∧ written.2.card = raw.contents) ∧
      (written.1 = false → written.2 = raw.asked) := by
  intro written
  have card := @inFront_written _ 512 raw.card raw.rawBlock raw.rawBlockAddress (by decide) aligned
  have clean := inFront_of_clean (by decide)
    (@clean_written _ 512 raw.card raw.rawBlock raw.rawBlockAddress (by decide))
  by_cases served : raw.serves.head = true
  · have same : written = (true, { raw.asked with
        card := put raw.card raw.rawBlockAddress (get raw.rawBlock 0 512)
        rawBlockWritten := true }) := if_pos served
    rw [same]
    refine ⟨clean.trans card.symm, fun _ => ⟨⟨fun _ => clean, fun none => ?_⟩, card.symm⟩, fun none => ?_⟩
    · cases none
    · cases none
  · have same : written = (false, raw.asked) := if_neg served
    rw [same]
    refine ⟨rfl, fun none => ?_, fun _ => rfl⟩
    cases none

theorem Coherent.asked (coherent : raw.Coherent) : raw.asked.Coherent := ⟨coherent.clean, coherent.aligned⟩

theorem Coherent.sync (coherent : raw.Coherent) :
    raw.sdRawSync.2.contents = raw.contents ∧ raw.sdRawSync.2.Coherent ∧
      (raw.sdRawSync.1 = true → raw.sdRawSync.2.card = raw.contents) := by
  rw [sdRawSync]
  split_ifs with written
  · exact ⟨rfl, coherent, fun _ => (coherent.clean written).symm⟩
  · have aligned := coherent.aligned (eq_false_of_ne_true written)
    obtain ⟨same, taken, refused⟩ := writeSingleBlock_spec aligned
    refine ⟨same, ?_, fun value => (taken value).2⟩
    cases value : (raw.writeSingleBlock raw.rawBlockAddress).1 with
    | true => exact (taken value).1
    | false =>
      rw [refused value]
      exact coherent.asked

theorem readSingleBlock_spec (coherent : raw.Coherent) (clean : raw.card = raw.contents) {blockAddress : Nat}
    (aligned : blockAddress % 512 = 0) :
    let fetched := raw.readSingleBlock blockAddress
    fetched.2.contents = raw.contents ∧ fetched.2.Coherent ∧
      (fetched.1 = true → fetched.2.rawBlockAddress = blockAddress) := by
  intro fetched
  by_cases served : raw.serves.head = true
  · have same : fetched = (true, { raw.asked with
        rawBlock := fun i => raw.card (blockAddress + i)
        rawBlockAddress := blockAddress }) := if_pos served
    rw [same]
    have front : inFront 512 raw.card (fun i => raw.card (blockAddress + i)) blockAddress = raw.card :=
      inFront_of_clean (by decide) fun _ _ => rfl
    exact ⟨front.trans clean, ⟨fun _ => front, fun _ => aligned⟩, fun _ => rfl⟩
  · have same : fetched = (false, raw.asked) := if_neg served
    rw [same]
    refine ⟨rfl, coherent.asked, fun none => ?_⟩
    cases none

theorem fetch_spec (coherent : raw.Coherent) {blockAddress : Nat} (aligned : blockAddress % 512 = 0) :
    let fetched := raw.fetch blockAddress
    fetched.2.contents = raw.contents ∧ fetched.2.Coherent ∧
      (fetched.1 = true → fetched.2.rawBlockAddress = blockAddress) := by
  obtain ⟨same, still, clean⟩ := coherent.sync
  rw [fetch]
  split_ifs with synced
  · obtain ⟨again, fresh, here⟩ := readSingleBlock_spec still ((clean synced).trans same.symm) aligned
    exact ⟨again.trans same, fresh, here⟩
  · refine ⟨same, still, fun none => ?_⟩
    cases none

theorem cached_spec (coherent : raw.Coherent) {blockAddress : Nat} (aligned : blockAddress % 512 = 0) :
    let block := raw.cached blockAddress
    block.2.contents = raw.contents ∧ block.2.Coherent ∧ (block.1 = true → block.2.rawBlockAddress = blockAddress) := by
  rw [cached]
  split_ifs with here
  · exact ⟨rfl, coherent, fun _ => here.symm⟩
  · exact fetch_spec coherent aligned

theorem copied_contents (here : raw.rawBlockAddress = offset - offset % 512)
    (fits : offset % 512 + bytes.length ≤ 512) :
    (raw.copied (offset % 512) bytes).contents = put raw.contents offset bytes :=
  inFront_put (by decide) here.symm fits

/-- The block into which bytes are merged is one where they belong, and nothing else gets lost. -/
theorem merged_spec (coherent : raw.Coherent)
    (fits : offset % 512 + bytes.length ≤ 512) :
    let block := raw.merged (offset - offset % 512) (offset % 512) bytes.length
    (block.1 = true → block.2.rawBlockAddress = offset - offset % 512 ∧
        (block.2.copied (offset % 512) bytes).contents = put raw.contents offset bytes) ∧
      (block.1 = false → block.2.contents = raw.contents ∧ block.2.Coherent) := by
  have aligned := block_aligned offset
  obtain ⟨same, still, clean⟩ := coherent.sync
  rw [merged]
  split_ifs with here synced partly
  · refine ⟨fun _ => ⟨here.symm, copied_contents here.symm fits⟩, fun none => ?_⟩
    cases none
  · obtain ⟨again, fresh, there⟩ := fetch_spec still aligned
    refine ⟨fun value => ⟨there value, ?_⟩, fun _ => ⟨again.trans same, fresh⟩⟩
    rw [copied_contents (there value) fits, again, same]
  · refine ⟨fun _ => ⟨rfl, ?_⟩, fun none => ?_⟩
    · obtain ⟨start, whole⟩ : offset % 512 = 0 ∧ bytes.length = 512 := by omega
      rw [start, Nat.sub_zero] at aligned ⊢
      exact (inFront_whole (by decide) aligned whole).trans (congrArg (put · offset bytes) (clean synced))
    · cases none
  · refine ⟨fun none => ?_, fun _ => ⟨same, still⟩⟩
    cases none

/-- What is copied out of the block. -/
theorem get_rawBlock (here : raw.rawBlockAddress = offset - offset % 512) {count : Nat}
    (fits : offset % 512 + count ≤ 512) : get raw.rawBlock (offset % 512) count = get raw.contents offset count := by
  refine get_congr fun i small => ?_
  have below := Nat.mod_le offset 512
  have place : (offset + i) % 512 = offset % 512 + i := by omega
  have inside : offset + i - (offset + i) % 512 = raw.rawBlockAddress := by omega
  rw [contents, inFront, if_pos inside, place]

/-- Reading changes nothing, and tells what is there as far as it gets. -/
theorem sdRawRead_spec (raw : Raw) (coherent : raw.Coherent) (offset length : Nat) (fits : offset + length ≤ 2 ^ 32) :
    let answer := raw.sdRawRead offset length
    answer.raw.contents = raw.contents ∧ answer.raw.Coherent ∧
      ∃ count ≤ length, (answer.value = true → count = length) ∧ (answer.value = false → count < length) ∧
        answer.bytes = get raw.contents offset count := by
  fun_induction sdRawRead raw offset length with
  | case1 raw offset =>
    refine ⟨rfl, coherent, 0, le_rfl, fun _ => rfl, fun none => ?_, rfl⟩
    cases none
  | case2 raw offset length blockOffset readLength block found rest ih =>
    have inside : blockOffset < 512 := Nat.mod_lt offset (by decide)
    obtain ⟨same, still, here⟩ := cached_spec coherent (block_aligned offset)
    have piece := get_rawBlock (here found) (show blockOffset + readLength ≤ 512 by omega)
    have next : offsetT (offset + readLength) = offset + readLength ∨ length + 1 - readLength = 0 := by
      rw [offsetT]
      omega
    obtain ⟨again, fresh, count, few, all, short, bytes⟩ := ih still (by
      rw [offsetT] at next ⊢
      omega)
    have ahead : get block.2.contents (offsetT (offset + readLength)) count =
        get raw.contents (offset + readLength) count := by
      rcases next with next | none
      · rw [next]
        exact congrArg (get · _ _) same
      · obtain rfl : count = 0 := by omega
        rfl
    refine ⟨again.trans same, fresh, readLength + count, by omega, fun value => ?_, fun value => ?_, ?_⟩
    · have := all value
      omega
    · have := short value
      omega
    · rw [get_add, ← ahead, ← bytes]
      exact congrArg (· ++ rest.bytes) (piece.trans (congrArg (get · _ _) same))
  | case3 raw offset length blockOffset block missed =>
    obtain ⟨same, still, -⟩ := cached_spec coherent (block_aligned offset)
    refine ⟨same, still, 0, Nat.zero_le _, fun none => ?_, fun _ => Nat.succ_pos length, rfl⟩
    cases none

/-- A piece of the buffer in `raw_block`. -/
theorem copied_spec (coherent : raw.Coherent) {buffer : List UInt8} {writeLength : Nat}
    (size : writeLength = min (512 - offset % 512) buffer.length)
    (found : (raw.merged (offset - offset % 512) (offset % 512) writeLength).1 = true) :
    let copy := (raw.merged (offset - offset % 512) (offset % 512) writeLength).2.copied (offset % 512)
      (buffer.take writeLength)
    copy.Coherent ∧ copy.rawBlockAddress = offset - offset % 512 ∧
      copy.contents = put raw.contents offset (buffer.take writeLength) := by
  have inside : offset % 512 < 512 := Nat.mod_lt offset (by decide)
  have length := List.length_take_of_le (show writeLength ≤ buffer.length by omega)
  have merged := (@merged_spec raw offset (buffer.take writeLength) coherent (by omega)).1
  rw [length] at merged
  obtain ⟨here, same⟩ := merged found
  refine ⟨⟨fun none => ?_, fun _ => ?_⟩, here, same⟩
  · cases none
  · exact (congrArg (· % 512) here).trans (block_aligned offset)

/-- Writing puts the bytes where they belong, as far as it gets, and changes nothing else. -/
theorem sdRawWrite_spec (raw : Raw) (coherent : raw.Coherent) (offset : Nat) (buffer : List UInt8)
    (fits : offset + buffer.length ≤ 2 ^ 32) :
    let answer := raw.sdRawWrite offset buffer
    answer.raw.Coherent ∧ answer.bytes = [] ∧
      ∃ count ≤ buffer.length, (answer.value = true → count = buffer.length) ∧
        answer.raw.contents = put raw.contents offset (buffer.take count) := by
  fun_induction sdRawWrite raw offset buffer with
  | case1 raw offset => exact ⟨coherent, rfl, 0, le_rfl, fun _ => rfl, (put_nil _ _).symm⟩
  | case2 raw offset buffer _ blockOffset writeLength block found copy whole =>
    obtain ⟨fresh, -, same⟩ := copied_spec coherent rfl found
    exact ⟨fresh, rfl, writeLength, whole.ge, fun _ => whole.symm, same⟩
  | case3 raw offset buffer _ blockOffset writeLength block found copy more written served ih =>
    obtain ⟨fresh, here, same⟩ := copied_spec coherent rfl found
    have few : writeLength < buffer.length := by omega
    obtain ⟨kept, taken, -⟩ := writeSingleBlock_spec (here ▸ block_aligned offset : copy.rawBlockAddress % 512 = 0)
    rw [show copy.rawBlockAddress = offset - blockOffset from here] at kept taken
    have next : offsetT (offset + writeLength) = offset + writeLength := Nat.mod_eq_of_lt (by omega)
    rw [next] at ih ⊢
    obtain ⟨still, none, count, least, all, again⟩ := ih (taken served).1 (by rw [List.length_drop]; omega)
    rw [List.length_drop] at least all
    refine ⟨still, none, writeLength + count, by omega, fun value => ?_, ?_⟩
    · have := all value
      omega
    · have length := List.length_take_of_le few.le
      rw [List.take_add, put_append, length, again]
      exact congrArg (put · _ _) (kept.trans same)
  | case4 raw offset buffer _ blockOffset writeLength block found copy more written refused =>
    obtain ⟨fresh, here, same⟩ := copied_spec coherent rfl found
    obtain ⟨kept, -, left⟩ := writeSingleBlock_spec (here ▸ block_aligned offset : copy.rawBlockAddress % 512 = 0)
    rw [show copy.rawBlockAddress = offset - blockOffset from here] at kept left
    have still : written.2.Coherent := left (eq_false_of_ne_true refused) ▸ fresh.asked
    refine ⟨still, rfl, writeLength, Nat.min_le_right _ _, fun none => ?_, kept.trans same⟩
    cases none
  | case5 raw offset buffer _ blockOffset writeLength block missed =>
    have inside : blockOffset < 512 := Nat.mod_lt offset (by decide)
    have length := List.length_take_of_le (show writeLength ≤ buffer.length by omega)
    have merged := (@merged_spec raw offset (buffer.take writeLength) coherent (by omega)).2
    rw [length] at merged
    obtain ⟨same, fresh⟩ := merged (eq_false_of_ne_true missed)
    refine ⟨fresh, rfl, 0, Nat.zero_le _, fun none => ?_, ?_⟩
    · cases none
    · rw [List.take_zero, put_nil]
      exact same

end Raw

/-! ## Runs -/

/-- The calls of the drivers. -/
inductive Operation where
  | read (offset length : Nat)
  | write (offset : Nat) (buffer : List UInt8)
  | sync

namespace Operation

/-- It ends inside of the address space. -/
def Fits : Operation → Prop
  | .read offset length => offset + length ≤ 2 ^ 32
  | .write offset buffer => offset + buffer.length ≤ 2 ^ 32
  | .sync => True

/-- What an array of bytes does with an operation, the value and the bytes that it returns, and what becomes of it.  An
operation that fails may have been done in part. -/
inductive Does (array : Nat → UInt8) : Operation → Bool → List UInt8 → (Nat → UInt8) → Prop
  | read (offset length : Nat) : Does array (.read offset length) true (get array offset length) array
  | readPart (offset length count : Nat) (less : count < length) :
    Does array (.read offset length) false (get array offset count) array
  | write (offset : Nat) (buffer : List UInt8) : Does array (.write offset buffer) true [] (put array offset buffer)
  | writePart (offset : Nat) (buffer : List UInt8) (count : Nat) (few : count ≤ buffer.length) :
    Does array (.write offset buffer) false [] (put array offset (buffer.take count))
  | sync (value : Bool) : Does array .sync value [] array

/-- What an array of bytes does with operations one after another. -/
inductive DoesAll : (Nat → UInt8) → List Operation → List (Bool × List UInt8) → (Nat → UInt8) → Prop
  | nil (array : Nat → UInt8) : DoesAll array [] [] array
  | cons {array between last : Nat → UInt8} {operation : Operation} {operations : List Operation} {value : Bool}
    {bytes : List UInt8} {answers : List (Bool × List UInt8)} (first : Does array operation value bytes between)
    (rest : DoesAll between operations answers last) :
    DoesAll array (operation :: operations) ((value, bytes) :: answers) last

end Operation

namespace Raw

def perform (raw : Raw) : Operation → Answer
  | .read offset length => raw.sdRawRead offset length
  | .write offset buffer => raw.sdRawWrite offset buffer
  | .sync => ⟨raw.sdRawSync.1, [], raw.sdRawSync.2⟩

/-- The answers to operations one after another, and what is left. -/
def run (raw : Raw) : List Operation → List (Bool × List UInt8) × Raw
  | [] => ([], raw)
  | operation :: rest =>
    let answer := raw.perform operation
    ((answer.value, answer.bytes) :: (run answer.raw rest).1, (run answer.raw rest).2)

theorem perform_does {raw : Raw} (coherent : raw.Coherent) {operation : Operation} (fits : operation.Fits) :
    let answer := raw.perform operation
    answer.raw.Coherent ∧ operation.Does raw.contents answer.value answer.bytes answer.raw.contents := by
  cases operation with
  | read offset length =>
    obtain ⟨same, fresh, count, -, all, short, bytes⟩ := sdRawRead_spec raw coherent offset length fits
    refine ⟨fresh, ?_⟩
    rw [perform, same, bytes]
    cases value : (raw.sdRawRead offset length).value with
    | true =>
      obtain rfl := all value
      exact .read offset count
    | false => exact .readPart offset length count (short value)
  | write offset buffer =>
    obtain ⟨fresh, none, count, few, all, same⟩ := sdRawWrite_spec raw coherent offset buffer fits
    refine ⟨fresh, ?_⟩
    rw [perform, same, none]
    cases value : (raw.sdRawWrite offset buffer).value with
    | true =>
      rw [all value, List.take_length]
      exact .write offset buffer
    | false => exact .writePart offset buffer count few
  | sync =>
    obtain ⟨same, fresh, -⟩ := coherent.sync
    refine ⟨fresh, ?_⟩
    rw [perform, same]
    exact .sync _

theorem run_does {raw : Raw} (coherent : raw.Coherent) {operations : List Operation}
    (fits : ∀ operation ∈ operations, operation.Fits) :
    (raw.run operations).2.Coherent ∧
      Operation.DoesAll raw.contents operations (raw.run operations).1 (raw.run operations).2.contents := by
  induction operations generalizing raw with
  | nil => exact ⟨coherent, .nil _⟩
  | cons operation rest ih =>
    obtain ⟨fresh, does⟩ := perform_does coherent (fits operation List.mem_cons_self)
    obtain ⟨still, all⟩ := ih fresh fun later member => fits later (List.mem_cons_of_mem operation member)
    exact ⟨still, .cons does all⟩

end Raw

/-- Whatever the card refuses, and whenever: the answers to a run of reads, writes and synchronisations are those of an
array of bytes that begins as the card does.  A synchronisation that succeeds leaves the card with what the array
holds then. -/
theorem raw_is_array (card : Nat → UInt8) (serves : Stream' Bool) (rawBlock : Nat → UInt8)
    (operations : List Operation) (fits : ∀ operation ∈ operations, operation.Fits) :
    let answers := (Raw.init card serves rawBlock).run operations
    ∃ array, Operation.DoesAll card operations answers.1 array ∧
      (answers.2.sdRawSync.1 = true → answers.2.sdRawSync.2.card = array) := by
  intro answers
  have coherent := Raw.coherent_init card serves rawBlock
  obtain ⟨still, does⟩ := Raw.run_does coherent fits
  rw [coherent.clean rfl] at does
  exact ⟨_, does, still.sync.2.2⟩

/-- Three bytes across the border of two blocks, on a card that refuses every second command. -/
theorem raw_is_array_border :
    let answers := (Raw.init (fun _ => 0) (fun n => n % 2 = 0) (fun _ => 0)).run
      [.write 510 [1, 2, 3], .read 511 2, .sync]
    ∃ array, Operation.DoesAll (fun _ => 0) [.write 510 [1, 2, 3], .read 511 2, .sync] answers.1 array ∧
      (answers.2.sdRawSync.1 = true → answers.2.sdRawSync.2.card = array) := by
  refine raw_is_array (fun _ => 0) (fun n => n % 2 = 0) (fun _ => 0) [.write 510 [1, 2, 3], .read 511 2, .sync] ?_
  rintro operation member
  fin_cases member
  · exact (by decide : 510 + 3 ≤ 2 ^ 32)
  · exact (by decide : 511 + 2 ≤ 2 ^ 32)
  · trivial

end Ethersex.SdReader
