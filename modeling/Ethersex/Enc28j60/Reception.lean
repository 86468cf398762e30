import Ethersex.Enc28j60.Model
import Ethersex.Library.Walks

/-!
# The driver and the chip in step

The frames that the chip counts are the ones from the driver's pointer on, and the memory before
them is free, as long as the driver accepts the size of every frame that it reads.  When it rejects
one, it has moved its pointer already and leaves the counter and the read pointer of the chip as
they were.
-/

namespace Ethersex.Enc28j60

open Ethersex.Library

/-! ## In step -/

/-- A frame whose size the driver accepts. -/
def Frame.Acceptable (config : Config) (frame : Frame) : Prop :=
  ¬BadSize config (UInt16.ofNat frame.data.length - 4)

instance (config : Config) (frame : Frame) : Decidable (frame.Acceptable config) :=
  inferInstanceAs (Decidable ¬BadSize config (UInt16.ofNat frame.data.length - 4))

/-- What the stack gets of a frame: nothing if its size is bad, else all but the checksum. -/
def Frame.upcall? (config : Config) (frame : Frame) : Option Upcall :=
  if frame.Acceptable config then some (upcall config (frame.data.take (frame.data.length - 4)))
  else none

/-- The driver and the chip, when some frames have been consumed and some are pending. -/
structure Synchronised (config : Config) (state : State) (consumed pending : List Frame) : Prop where
  arrived : state.arrived = consumed ++ pending
  pointer : state.enc28j60_next_packet_pointer.toNat < RXBUFFER_SIZE
  laid : Laid RXBUFFER_SIZE Frame.width Frame.encode state.chip.memory
    state.enc28j60_next_packet_pointer.toNat pending state.chip.ERXWRPT
  counted : state.chip.EPKTCNT = pending.length
  released : state.chip.ERXRDPT =
      (state.enc28j60_next_packet_pointer.toNat + RXBUFFER_SIZE - 1) % RXBUFFER_SIZE ∨
    consumed = [] ∧ state.chip.ERXRDPT = RXBUFFER_START ∧ state.enc28j60_next_packet_pointer = 0
  handed : state.handed = consumed.filterMap (Frame.upcall? config)

/-- The driver's pointer is at the oldest frame not yet consumed, the chip counts the frames from
there on, its read pointer releases the memory before them, and the stack got the acceptable ones of
the others. -/
def InStep (config : Config) (state : State) : Prop :=
  ∃ consumed pending, Synchronised config state consumed pending

/-! ## Reading frames -/

variable {config : Config} {state : State} {chip : Chip} {frame : Frame} {consumed pending : List Frame}

theorem readBufferMemory_spec (inside : chip.ERDPT < RXBUFFER_SIZE) :
    readBufferMemory chip =
      (chip.memory chip.ERDPT, { chip with ERDPT := (chip.ERDPT + 1) % RXBUFFER_SIZE }) := by
  rw [readBufferMemory]
  congr 2
  split_ifs with last
  · rw [last]
    rfl
  · have : chip.ERDPT ≠ 4095 := last
    have : chip.ERDPT < 4096 := inside
    rw [RXBUFFER_SIZE, Nat.mod_eq_of_lt (by omega), Nat.mod_eq_of_lt (by omega)]

/-- Bytes are read around the end of the receive memory. -/
theorem readBytes_spec (inside : chip.ERDPT < RXBUFFER_SIZE) (count : Nat) :
    readBytes count chip =
      ((List.range count).map (readFrom RXBUFFER_SIZE chip.ERDPT chip.memory),
        { chip with ERDPT := (chip.ERDPT + count) % RXBUFFER_SIZE }) := by
  induction count generalizing chip with
  | zero =>
      rw [readBytes, Nat.add_zero, Nat.mod_eq_of_lt inside]
      rfl
  | succ count ih =>
      have first : readFrom RXBUFFER_SIZE chip.ERDPT chip.memory 0 = chip.memory chip.ERDPT := by
        rw [readFrom, Nat.add_zero, Nat.mod_eq_of_lt inside]
      have rest : readFrom RXBUFFER_SIZE ((chip.ERDPT + 1) % RXBUFFER_SIZE) chip.memory =
          readFrom RXBUFFER_SIZE chip.ERDPT chip.memory ∘ Nat.succ := by
        funext k
        rw [readFrom, Function.comp_apply, readFrom, Nat.mod_add_mod, Nat.add_assoc, Nat.add_comm 1 k]
      have behind : ((chip.ERDPT + 1) % RXBUFFER_SIZE + count) % RXBUFFER_SIZE =
          (chip.ERDPT + (count + 1)) % RXBUFFER_SIZE := by
        rw [Nat.mod_add_mod, Nat.add_assoc, Nat.add_comm 1 count]
      simp only [readBytes, readBufferMemory_spec inside]
      rw [ih (Nat.mod_lt _ (by decide)), List.range_succ_eq_map, List.map_cons, List.map_map, first]
      simp only [behind, rest]

theorem encode_length (next : Nat) : (frame.encode next).length = 6 + frame.data.length := by
  rw [Frame.encode, List.length_append]
  rfl

/-- The first bytes of a run that agrees with a list. -/
theorem map_range_of_agreeTo {memory : Bytes} {data : List UInt8} {count width : Nat}
    (agree : AgreeTo width memory (ofList data)) (covered : count ≤ width)
    (enough : count ≤ data.length) : (List.range count).map memory = data.take count := by
  refine List.ext_getElem (by simp [enough]) fun k small _ => ?_
  have inside : k < count := by simpa using small
  rw [List.getElem_map, List.getElem_range, agree k (by omega), List.getElem_take, ofList,
    List.getD_eq_getElem _ _ (by omega)]

theorem wordAt_of_bytes {bytes : List UInt8} {index value : Nat} (small : value < 65536)
    (low : bytes.getD index 0 = UInt8.ofNat value)
    (high : bytes.getD (index + 1) 0 = UInt8.ofNat (value / 256)) :
    wordAt bytes index = UInt16.ofNat value := by
  have shifted : (value / 256 % 256) <<< 8 % 65536 = (value / 256) <<< 8 := by
    rw [Nat.shiftLeft_eq, Nat.shiftLeft_eq]
    omega
  have digits :=
    Nat.shiftLeft_add_eq_or_of_lt (Nat.mod_lt value (show 0 < 2 ^ 8 by decide)) (value / 256)
  rw [wordAt, low, high, ← UInt16.toNat_inj, UInt16.toNat_or, UInt16.toNat_shiftLeft,
    UInt8.toNat_toUInt16, UInt8.toNat_toUInt16, UInt8.toNat_ofNat', UInt8.toNat_ofNat',
    UInt16.toNat_ofNat_of_lt' small]
  change value % 256 ||| (value / 256 % 256) <<< 8 % 65536 = value
  rw [shifted, Nat.or_comm]
  refine digits.symm.trans ?_
  rw [Nat.shiftLeft_eq]
  omega

section Header

variable {rest : List Frame} {stop : Nat}
  (pointer : state.enc28j60_next_packet_pointer.toNat < RXBUFFER_SIZE)
  (laid : Laid RXBUFFER_SIZE Frame.width Frame.encode state.chip.memory
    state.enc28j60_next_packet_pointer.toNat (frame :: rest) stop)

include pointer laid

/-- The header of the frame that the pointer is at. -/
theorem readHeader_of_laid :
    readHeader state =
      ((frame.encode ((state.enc28j60_next_packet_pointer.toNat + frame.width) % RXBUFFER_SIZE)).take 6,
        { state.chip with
          ERDPT := (state.enc28j60_next_packet_pointer.toNat + 6) % RXBUFFER_SIZE }) := by
  have address : (setReadBufferPointer state.enc28j60_next_packet_pointer state.chip).ERDPT =
      state.enc28j60_next_packet_pointer.toNat := by
    have : state.enc28j60_next_packet_pointer.toNat < 4096 := pointer
    exact Nat.mod_eq_of_lt (by omega)
  have bytes := map_range_of_agreeTo laid.1 (show 6 ≤ frame.width by rw [Frame.width]; omega)
    (by rw [encode_length]; omega)
  rw [readHeader, readBytes_spec (address.symm ▸ pointer), address]
  simp only [← bytes]
  rfl

/-- The size that was recorded. -/
theorem receivedPacketSize_of_laid (small : frame.data.length < 65536) :
    receivedPacketSize state = UInt16.ofNat frame.data.length - 4 := by
  rw [receivedPacketSize, readHeader_of_laid pointer laid]
  exact congrArg (· - 4) (wordAt_of_bytes small rfl rfl)

/-- The address of the next frame. -/
theorem next_of_laid :
    wordAt (readHeader state).1 0 =
      UInt16.ofNat ((state.enc28j60_next_packet_pointer.toNat + frame.width) % RXBUFFER_SIZE) := by
  rw [readHeader_of_laid pointer laid]
  have := Nat.mod_lt (state.enc28j60_next_packet_pointer.toNat + frame.width)
    (show 0 < RXBUFFER_SIZE by decide)
  exact wordAt_of_bytes (lt_trans this (by decide)) rfl rfl

/-- The bytes behind the header. -/
theorem readPacket_of_laid {count : Nat} (enough : count ≤ frame.data.length) :
    (readBytes count (readHeader state).2).1 = frame.data.take count := by
  rw [readHeader_of_laid pointer laid, readBytes_spec (Nat.mod_lt _ (by decide))]
  refine List.ext_getElem (by simp [enough]) fun k small _ => ?_
  have inside : k < count := by simpa using small
  have byte := laid.1 (6 + k) (by rw [Frame.width]; omega)
  have data : ofList (frame.encode
      ((state.enc28j60_next_packet_pointer.toNat + frame.width) % RXBUFFER_SIZE)) (6 + k) =
        frame.data[k] := by
    have header : ∀ (a b c d e f : UInt8), 6 + k - [a, b, c, d, e, f].length = k :=
      fun _ _ _ _ _ _ => Nat.add_sub_cancel_left 6 k
    rw [ofList, Frame.encode, List.getD_append_right _ _ _ _ (Nat.le_add_right 6 k), header,
      List.getD_eq_getElem _ _ (by omega)]
  rw [List.getElem_map, List.getElem_range, List.getElem_take, ← data, ← byte, readFrom, readFrom,
    Nat.mod_add_mod, Nat.add_assoc]

end Header

/-- The read pointer is set to the byte before the next frame. -/
theorem readPointerFor_eq {next : Nat} (small : next < RXBUFFER_SIZE) :
    readPointerFor (UInt16.ofNat next) = (next + RXBUFFER_SIZE - 1) % RXBUFFER_SIZE := by
  rw [RXBUFFER_SIZE] at small ⊢
  have signed : (UInt16.ofNat next).toInt16.toInt = next := by
    have bits : (UInt16.ofNat next).toInt16.toBitVec.toNat = next := UInt16.toNat_ofNat_of_lt'
      (show next < 65536 by omega)
    rw [Int16.toInt, BitVec.toInt_eq_toNat_of_lt (by omega), bits]
  simp only [readPointerFor, signed, RXBUFFER_START, RXBUFFER_END]
  split_ifs with edge <;> omega

/-! ## Steps -/

theorem width_even (frame : Frame) : frame.width % 2 = 0 := by
  rw [Frame.width]
  omega

theorem widths_even (frames : List Frame) : widths Frame.width frames % 2 = 0 := by
  induction frames with
  | nil => rfl
  | cons frame rest ih =>
      rw [widths_cons, Nat.add_mod, width_even, ih]

/-- What keeps the frames apart: together they fit into the ring. -/
structure Kept (config : Config) (state : State) (consumed pending : List Frame) : Prop extends
    Synchronised config state consumed pending where
  fits : widths Frame.width pending < RXBUFFER_SIZE

/-- The room that the chip sees is less than what the pending frames leave. -/
theorem Kept.free_lt (kept : Kept config state consumed pending) :
    state.chip.free + widths Frame.width pending < RXBUFFER_SIZE := by
  have ends := kept.laid.stop_eq kept.pointer
  have even := widths_even pending
  have fits := kept.fits
  have pointer := kept.pointer
  rw [Chip.free, ends]
  rcases kept.released with released | ⟨_, released, start⟩
  · rw [released]
    simp only [RXBUFFER_SIZE] at *
    omega
  · rw [released, start]
    simp only [RXBUFFER_SIZE, RXBUFFER_START, UInt16.toNat_zero] at *
    omega

theorem Kept.arrive (kept : Kept config state consumed pending) (frame : Frame) :
    ∃ more, Kept config (step config state (.arrive frame)) consumed more := by
  by_cases takes : state.chip.Takes frame
  · have room := kept.free_lt
    have fits := takes.1
    refine ⟨pending ++ [frame], ?_⟩
    rw [step, if_pos takes]
    have written : Laid RXBUFFER_SIZE Frame.width Frame.encode (state.chip.store frame).memory
        state.enc28j60_next_packet_pointer.toNat (pending ++ [frame])
        (state.chip.store frame).ERXWRPT := kept.laid.write kept.pointer (by omega)
    exact {
      arrived := by rw [kept.arrived, List.append_assoc]
      pointer := kept.pointer
      laid := written
      counted := by
        rw [List.length_append, List.length_singleton, ← kept.counted]
        rfl
      released := kept.released
      handed := kept.handed
      fits := by
        rw [widths_append, widths_cons, widths_nil]
        omega }
  · rw [step, if_neg takes]
    exact ⟨pending, kept⟩

/-- An acceptable size did not come from a frame shorter than its checksum. -/
theorem toNat_of_acceptable {length : Nat} (small : length < 65536)
    (acceptable : ¬BadSize config (UInt16.ofNat length - 4)) :
    (UInt16.ofNat length - 4).toNat = length - 4 ∧ 4 ≤ length := by
  have maximum := config.MAMXFL_fits
  have value : (UInt16.ofNat length).toNat = length := UInt16.toNat_ofNat_of_lt' small
  simp only [BadSize, not_or, UInt16.toNat_sub, value, show (4 : UInt16).toNat = 4 from rfl] at *
  omega

/-- A frame of acceptable size is taken out of the memory and handed over. -/
theorem Kept.processPacket (kept : Kept config state consumed (frame :: pending))
    (acceptable : ¬BadSize config (receivedPacketSize state)) :
    Kept config (processPacket config state) (consumed ++ [frame]) pending := by
  have room := kept.fits
  rw [widths_cons] at room
  have small : frame.data.length < 65536 := by
    rw [Frame.width, RXBUFFER_SIZE] at room
    omega
  have size := receivedPacketSize_of_laid kept.pointer kept.laid small
  have there : (state.enc28j60_next_packet_pointer.toNat + frame.width) % RXBUFFER_SIZE <
      RXBUFFER_SIZE := Nat.mod_lt _ (by decide)
  have next := next_of_laid kept.pointer kept.laid
  have address : (wordAt (readHeader state).1 0).toNat =
      (state.enc28j60_next_packet_pointer.toNat + frame.width) % RXBUFFER_SIZE := by
    rw [next]
    exact UInt16.toNat_ofNat_of_lt' (lt_trans there (by decide))
  have waiting : state.chip.EPKTCNT ≠ 0 := by
    rw [kept.counted]
    exact Nat.succ_ne_zero _
  have proper : ¬BadSize config (UInt16.ofNat frame.data.length - 4) := size ▸ acceptable
  have packet : (readBytes (receivedPacketSize state).toNat (readHeader state).2).1 =
      frame.data.take (frame.data.length - 4) := by
    rw [size, (toNat_of_acceptable small proper).1]
    exact readPacket_of_laid kept.pointer kept.laid (Nat.sub_le _ _)
  have given : frame.upcall? config = some (upcall config (frame.data.take (frame.data.length - 4))) :=
    if_pos proper
  have chip : (readBytes (receivedPacketSize state).toNat (readHeader state).2).2 =
      { state.chip with
        ERDPT := (readBytes (receivedPacketSize state).toNat (readHeader state).2).2.ERDPT } := by
    rw [readHeader_of_laid kept.pointer kept.laid, readBytes_spec (Nat.mod_lt _ (by decide))]
  rw [Enc28j60.processPacket, if_neg waiting]
  simp only [if_neg acceptable, packet]
  rw [chip]
  exact {
    arrived := by rw [kept.arrived, List.append_assoc]; rfl
    pointer := address ▸ there
    laid := address ▸ kept.laid.2
    counted := by
      rw [kept.counted]
      rfl
    released := .inl (by rw [address, next]; exact readPointerFor_eq there)
    handed := by rw [kept.handed, List.filterMap_append, List.filterMap_cons_some given]; rfl
    fits := by omega }

/-- What `process_packet` finds acceptable whenever it reads a frame. -/
def SizeAccepted (config : Config) (state : State) : Event → Prop
  | .arrive _ => True
  | .networkProcess interrupts =>
      interrupts.PKTIF = true → interrupts.locked = false → state.chip.EPKTCNT ≠ 0 →
        ¬BadSize config (receivedPacketSize state)

instance (config : Config) (state : State) : ∀ event, Decidable (SizeAccepted config state event)
  | .arrive _ => isTrue trivial
  | .networkProcess interrupts =>
      inferInstanceAs (Decidable (interrupts.PKTIF = true → interrupts.locked = false →
        state.chip.EPKTCNT ≠ 0 → ¬BadSize config (receivedPacketSize state)))

/-- A reset leaves an empty memory. -/
theorem kept_initEnc28j60 (state : State) : Kept config (initEnc28j60 state) [] [] where
  arrived := rfl
  pointer := show (UInt16.ofNat RXBUFFER_START).toNat < RXBUFFER_SIZE by decide
  laid := rfl
  counted := rfl
  released := .inr ⟨rfl, rfl, rfl⟩
  handed := rfl
  fits := by decide

theorem Kept.step (kept : Kept config state consumed pending) {event : Event}
    (accepted : SizeAccepted config state event) :
    ∃ consumed pending, Kept config (step config state event) consumed pending := by
  cases event with
  | arrive frame =>
      obtain ⟨more, kept⟩ := kept.arrive frame
      exact ⟨consumed, more, kept⟩
  | networkProcess interrupts =>
      rw [Enc28j60.step, networkProcess]
      by_cases empty : state.chip.EPKTCNT = 0
      · rw [if_pos empty]
        exact ⟨consumed, pending, kept⟩
      rw [if_neg empty]
      by_cases shut : (interrupts.PKTIF && interrupts.locked) = true
      · rw [if_pos shut]
        exact ⟨consumed, pending, kept⟩
      rw [if_neg shut]
      by_cases reset : interrupts.RXERIF = true
      · simp only [reset, if_true]
        exact ⟨[], [], kept_initEnc28j60 _⟩
      simp only [reset, Bool.false_eq_true, if_false]
      by_cases flagged : interrupts.PKTIF = true
      · rw [if_pos flagged]
        have unlocked : interrupts.locked = false := by simpa [flagged] using shut
        cases pending with
        | nil => exact absurd kept.counted empty
        | cons frame rest => exact ⟨_, rest, kept.processPacket (accepted flagged unlocked empty)⟩
      · rw [if_neg flagged]
        exact ⟨consumed, pending, kept⟩

/-- A build for frames of up to 500 bytes. -/
def smallFrames : Config where
  NET_MAX_FRAME_LENGTH := 500
  UIP_CONF_IPV6 := false
  MAMXFL_fits := by decide

/-- A packet, and nothing else. -/
def packetInterrupt : Interrupts := ⟨true, false, false⟩

end Ethersex.Enc28j60
