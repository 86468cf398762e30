import Ethersex.Mcuf.Model
import Ethersex.Library.Loop

/-!
# Which datagrams are taken safely

Nothing compares what a frame announces with the length of the datagram.
-/

namespace Ethersex.Mcuf

open Ethersex.Library

section Frames

variable {config : Config} {packet : Packet} {height width channels : UInt16}

/-! ## The buffers -/

theorem place_lt {y x : Nat} (row : y < config.MCUF_MAX_SCREEN_HEIGHT) (column : x < config.MCUF_MAX_SCREEN_WIDTH) :
    12 + (x + y * config.MCUF_MAX_SCREEN_WIDTH) < config.MCUF_MAX_PCKT_SIZE := by
  have rows := Nat.mul_le_mul_right config.MCUF_MAX_SCREEN_WIDTH (Nat.succ_le_of_lt row)
  rw [Nat.succ_mul, Nat.mul_comm config.MCUF_MAX_SCREEN_HEIGHT] at rows
  rw [Config.MCUF_MAX_PCKT_SIZE]
  omega

theorem write_eq_some {place : Nat} (inside : place < config.MCUF_MAX_PCKT_SIZE) (value : UInt8)
    (state : State config) : ∃ next, state.write place value = some next := by
  rw [State.write, dif_pos inside]
  exact ⟨_, rfl⟩

theorem clear_eq_some {count : Nat} (fits : count ≤ config.MCUF_MAX_PCKT_SIZE) (state : State config) :
    ∃ next, state.clear count = some next :=
  foldlM_eq_some (fun _ member state =>
    write_eq_some (lt_of_lt_of_le (List.mem_range.mp member) fits) 0 state) state

theorem sendData_eq_some (state : State config) : ∃ next, state.sendData = some next := by
  have header (state : State config) (rest : List UInt8) (short : rest.length ≤ 12) :
      ∃ next, rest.zipIdx.foldlM (fun state (item : UInt8 × Nat) => state.write item.2 item.1) state =
        some next := by
    refine foldlM_eq_some (fun item member state => write_eq_some ?_ _ state) state
    have place := List.snd_lt_of_mem_zipIdx member
    rw [Config.MCUF_MAX_PCKT_SIZE]
    omega
  rw [State.sendData]
  generalize (if config.MCUF_OUTPUT_SUPPORT = true then _ else state) = filled
  dsimp only
  split_ifs
  · obtain ⟨next, written⟩ := header filled (mcufMagic ++ [0x00, 0x08, 0x00, 0x12, 0x00, 0x01, 0x00, 0xff]) le_rfl
    rw [written]
    exact ⟨_, rfl⟩
  · exact ⟨_, rfl⟩

/-- The loops over rows and columns are defined when the pixels of the frame are. -/
theorem eachPixel_eq_some {rows columns : Nat} {pixel : Nat → Nat → State config → Option (State config)}
    (each : ∀ y < rows, ∀ x < columns, y < height.toNat → x < width.toNat → ∀ state, ∃ next,
      pixel y x state = some next) (state : State config) :
    ∃ next, eachPixel rows columns height width pixel state = some next := by
  refine foldlM_eq_some (fun y row state => foldlM_eq_some (fun x column state => ?_) state) state
  split_ifs with inside
  · exact each y (List.mem_range.mp row) x (List.mem_range.mp column) inside.1 inside.2 state
  · exact ⟨state, rfl⟩

theorem put_eq_some {y x : Nat} (row : y < config.MCUF_MAX_SCREEN_HEIGHT)
    (column : x < config.MCUF_MAX_SCREEN_WIDTH) (value : UInt8) (state : State config) :
    ∃ next, state.put y x value = some next :=
  write_eq_some (place_lt row column) value state

theorem putLed_eq_some {y x : Nat} (row : y < config.MCUF_MAX_SCREEN_HEIGHT)
    (column : x < config.MCUF_MAX_SCREEN_WIDTH) (value : UInt8) (state : State config) :
    ∃ next, state.putLed y x value = some next := by
  rw [State.putLed, if_pos ⟨row, column⟩]
  exact ⟨_, rfl⟩

theorem showLeds_eq_some (state : State config) : ∃ next, showLeds height width state = some next := by
  rw [showLeds]
  split_ifs
  · refine eachPixel_eq_some (fun y row x column _ _ state => ?_) state
    have inRow := lt_of_lt_of_le row config.output_height_le
    have inColumn := lt_of_lt_of_le column config.output_width_le
    have inside := place_lt inRow inColumn
    have value : state.read (12 + (x + y * config.MCUF_MAX_SCREEN_WIDTH)) =
        some state.data[12 + (x + y * config.MCUF_MAX_SCREEN_WIDTH)] := Vector.getElem?_eq_getElem inside
    rw [value]
    exact putLed_eq_some inRow inColumn _ state
  · exact ⟨state, rfl⟩

/-- A frame whose pixels are defined is shown. -/
theorem showFrame_eq_shown {count : Nat} (fits : count ≤ config.MCUF_MAX_PCKT_SIZE)
    {pixel : Nat → Nat → State config → Option (State config)}
    (each : ∀ y < config.MCUF_MAX_SCREEN_HEIGHT, ∀ x < config.MCUF_MAX_SCREEN_WIDTH, y < height.toNat →
      x < width.toNat → ∀ state, ∃ next, pixel y x state = some next) (state : State config) :
    ∃ next, showFrame count height width pixel state = .shown next := by
  obtain ⟨clear, cleared⟩ := clear_eq_some fits state
  obtain ⟨copy, copied⟩ := eachPixel_eq_some each clear
  obtain ⟨sent, sends⟩ := sendData_eq_some copy
  obtain ⟨next, lit⟩ := @showLeds_eq_some config height width sent
  have whole : (do
      let state ← state.clear count
      let state ← eachScreenPixel height width pixel state
      let state ← state.sendData
      showLeds height width state) = some next := by
    rw [cleared]
    change (eachScreenPixel height width pixel clear).bind _ = _
    rw [eachScreenPixel, copied]
    change (copy.sendData).bind _ = _
    rw [sends]
    exact lit
  rw [showFrame, whole]
  exact ⟨next, rfl⟩

theorem showFrame_ne_dropped {count : Nat} {pixel : Nat → Nat → State config → Option (State config)}
    {state : State config} : showFrame count height width pixel state ≠ .dropped := by
  rw [showFrame]
  split <;> simp

/-! ## The pixels of a datagram -/

theorem pixel_eq_some {index : UInt16} {place : Nat} (wraps : index.toNat ≤ place)
    (inside : 12 + place < packet.datagram.length) : ∃ value, packet.pixel index = some value := by
  have bound : 12 + index.toNat < packet.datagram.length := by omega
  exact ⟨packet.datagram[12 + index.toNat], List.getElem?_eq_getElem bound⟩

theorem toNat_ofNat_le (place : Nat) : (UInt16.ofNat place).toNat ≤ place := by
  rw [UInt16.toNat_ofNat']
  exact Nat.mod_le _ _

/-- The offset of a pixel wraps around at most. -/
theorem offset_toNat_le (y x : Nat) : (offset width y x).toNat ≤ x + y * width.toNat := by
  rw [offset, UInt16.toNat_add, UInt16.toNat_mul]
  refine le_trans (Nat.mod_le _ _) (Nat.add_le_add (toNat_ofNat_le x) (le_trans (Nat.mod_le _ _) ?_))
  exact Nat.mul_le_mul_right _ (toNat_ofNat_le y)

theorem index_toNat_le (y x : Nat) (channel : UInt16) :
    (offset width y x * channels + channel).toNat ≤ (x + y * width.toNat) * channels.toNat + channel.toNat := by
  rw [UInt16.toNat_add, UInt16.toNat_mul]
  refine le_trans (Nat.mod_le _ _) (Nat.add_le_add_right (le_trans (Nat.mod_le _ _) ?_) _)
  exact Nat.mul_le_mul_right _ (offset_toNat_le y x)

/-- A pixel of a frame is among as many as it announces. -/
theorem pixel_lt {y x : Nat} (row : y < height.toNat) (column : x < width.toNat) :
    x + y * width.toNat < height.toNat * width.toNat := by
  have rows := Nat.mul_le_mul_right width.toNat (Nat.succ_le_of_lt row)
  rw [Nat.succ_mul] at rows
  omega

/-- A channel of a pixel that the datagram has. -/
theorem channel_eq_some (holds : 12 + height.toNat * width.toNat * channels.toNat ≤ packet.datagram.length)
    {y x : Nat} (row : y < height.toNat) (column : x < width.toNat) {channel : UInt16} (part : channel.toNat < channels.toNat) :
    ∃ value, packet.pixel (offset width y x * channels + channel) = some value := by
  have whole := Nat.mul_le_mul_right channels.toNat (Nat.succ_le_of_lt (pixel_lt row column))
  rw [Nat.succ_mul] at whole
  exact pixel_eq_some (index_toNat_le y x channel) (by omega)

theorem mcufPixel_eq_some (one : 1 ≤ channels.toNat)
    (holds : 12 + height.toNat * width.toNat * channels.toNat ≤ packet.datagram.length) (multiplier : Nat)
    {y x : Nat} (inRow : y < config.MCUF_MAX_SCREEN_HEIGHT) (inColumn : x < config.MCUF_MAX_SCREEN_WIDTH)
    (row : y < height.toNat) (column : x < width.toNat) (state : State config) :
    ∃ next, mcufPixel packet width channels multiplier y x state = some next := by
  have part (channel : UInt16) (inside : channel.toNat < channels.toNat) :
      ∃ value, packet.pixel (offset width y x * channels + channel) = some value :=
    channel_eq_some holds row column inside
  obtain ⟨red, isRed⟩ := part 0 (lt_of_lt_of_le (by decide) one)
  rw [mcufPixel]
  by_cases three : channels = 3
  · have value : channels.toNat = 3 := congrArg UInt16.toNat three
    obtain ⟨green, isGreen⟩ := part 1 (by rw [value]; decide)
    obtain ⟨blue, isBlue⟩ := part 2 (by rw [value]; decide)
    rw [if_pos three, isRed, isGreen, isBlue]
    exact put_eq_some inRow inColumn _ state
  · rw [if_neg three]
    by_cases two : channels = 2
    · have value : channels.toNat = 2 := congrArg UInt16.toNat two
      obtain ⟨green, isGreen⟩ := part 1 (by rw [value]; decide)
      obtain ⟨next, written⟩ :=
        put_eq_some inRow inColumn (UInt8.ofNat ((red.toNat + green.toNat) / 2 * multiplier)) state
      rw [if_pos two, isRed, isGreen]
      simp only [Option.bind_eq_bind, Option.bind_some, written]
      split_ifs
      · exact putLed_eq_some inRow inColumn _ next
      · exact ⟨next, rfl⟩
    · rw [if_neg two, isRed]
      exact put_eq_some inRow inColumn _ state

/-- A pixel of a frame with one channel. -/
theorem grey_eq_some (holds : 12 + height.toNat * width.toNat ≤ packet.datagram.length) {y x : Nat}
    (row : y < height.toNat) (column : x < width.toNat) : ∃ value, packet.pixel (offset width y x) = some value :=
  pixel_eq_some (offset_toNat_le y x) (by have among := pixel_lt row column; omega)

theorem blackPixel_eq_some (holds : 12 + height.toNat * width.toNat ≤ packet.datagram.length) {y x : Nat}
    (inRow : y < config.MCUF_MAX_SCREEN_HEIGHT) (inColumn : x < config.MCUF_MAX_SCREEN_WIDTH)
    (row : y < height.toNat) (column : x < width.toNat) (state : State config) :
    ∃ next, blackPixel packet width y x state = some next := by
  obtain ⟨value, pixel⟩ := grey_eq_some holds row column
  rw [blackPixel, pixel]
  simp only [Option.bind_eq_bind, Option.bind_some]
  split_ifs
  · exact put_eq_some inRow inColumn _ state
  · exact ⟨state, rfl⟩

theorem greyPixel_eq_some (holds : 12 + height.toNat * width.toNat ≤ packet.datagram.length) {y x : Nat}
    (inRow : y < config.MCUF_MAX_SCREEN_HEIGHT) (inColumn : x < config.MCUF_MAX_SCREEN_WIDTH)
    (row : y < height.toNat) (column : x < width.toNat) (state : State config) :
    ∃ next, greyPixel packet width y x state = some next := by
  obtain ⟨value, pixel⟩ := grey_eq_some holds row column
  rw [greyPixel, pixel]
  exact put_eq_some inRow inColumn _ state

/-- The scan reads pixels of the frame only. -/
theorem scan_ne_undefined (holds : 12 + height.toNat * width.toNat ≤ packet.datagram.length) (steps : Nat)
    (y x : UInt8) : scan packet height width steps y x ≠ .undefined := by
  induction steps generalizing y x with
  | zero => simp [scan]
  | succ steps ih =>
      rw [scan]
      split_ifs with row column
      · obtain ⟨value, pixel⟩ := grey_eq_some holds row column
        rw [pixel]
        dsimp only
        split_ifs
        · simp
        · exact ih y (x + 1)
      · exact ih (y + 1) 0
      · simp

/-! ## Frames -/

/-- The length that a frame announces, with its header; no channel counts as one. -/
def announced (packet : Packet) : Option Nat :=
  if packet.startsWith mcufMagic then
    some (12 + (packet.field 4).toNat * (packet.field 6).toNat * max 1 (packet.field 8).toNat)
  else if packet.startsWith eblpMagic ∨ packet.startsWith blpMagic then
    some (12 + (packet.field 10).toNat * (packet.field 8).toNat)
  else none

/-- The frame is refused because of its size, which is computed in 16 bits. -/
def TooLarge (config : Config) (packet : Packet) : Prop :=
  (packet.field 4 * packet.field 6).toNat > config.MCUF_MAX_PCKT_SIZE - 12

/-- Every access is defined, and a frame that announces more than the datagram holds is refused. -/
def TakenSafely (packet : Packet) (state : State config) : Prop :=
  (∀ steps, mcufNewdata steps packet state ≠ .undefined) ∧
    ∀ size ∈ announced packet, packet.datagram.length < size →
      ∃ steps, mcufNewdata steps packet state = .dropped

/-- The greatest value of a frame in the format MCUF is not zero, and the datagram holds what the frame announces, or
the frame is too large for the buffer. -/
def Contained (config : Config) (packet : Packet) : Prop :=
  (packet.startsWith mcufMagic = true → packet.field 10 ≠ 0) ∧
    ∀ size ∈ announced packet,
      size ≤ packet.datagram.length ∨ packet.startsWith mcufMagic = true ∧ TooLarge config packet

section Formats

variable {state : State config}

theorem maxvalue_eq_zero (field : UInt16) : (if field > 255 then 255 else field) = 0 ↔ field = 0 := by
  split_ifs with large
  · refine iff_of_false (by decide) ?_
    rintro rfl
    exact absurd large (by decide)
  · rfl

theorem channels_toNat (field : UInt16) : (if field < 1 then 1 else field).toNat = max 1 field.toNat := by
  split_ifs with none
  · have zero : field.toNat < 1 := UInt16.lt_iff_toNat_lt.mp none
    rw [max_eq_left zero.le]
    rfl
  · have one : ¬field.toNat < 1 := fun zero => none (UInt16.lt_iff_toNat_lt.mpr zero)
    rw [max_eq_right (not_lt.mp one)]

theorem newMcuf_undefined (zero : packet.field 10 = 0) : newMcuf packet state = .undefined := by
  rw [newMcuf]
  exact if_pos ((maxvalue_eq_zero _).mpr zero)

theorem newMcuf_dropped (nonzero : packet.field 10 ≠ 0) (large : TooLarge config packet) :
    newMcuf packet state = .dropped := by
  rw [newMcuf]
  dsimp only
  rw [if_neg fun zero => nonzero ((maxvalue_eq_zero _).mp zero)]
  exact if_pos large

theorem newMcuf_ne_dropped (small : ¬TooLarge config packet) : newMcuf packet state ≠ .dropped := by
  have fits : ¬(packet.field 4 * packet.field 6).toNat > config.MCUF_MAX_PCKT_SIZE - 12 := small
  by_cases zero : packet.field 10 = 0
  · rw [newMcuf_undefined zero]
    simp
  · rw [newMcuf]
    dsimp only
    rw [if_neg fun is => zero ((maxvalue_eq_zero _).mp is), if_neg fits]
    exact showFrame_ne_dropped

theorem newMcuf_shown (nonzero : packet.field 10 ≠ 0) (small : ¬TooLarge config packet)
    (holds : 12 + (packet.field 4).toNat * (packet.field 6).toNat * max 1 (packet.field 8).toNat ≤
      packet.datagram.length) : ∃ next, newMcuf packet state = .shown next := by
  have fit : ¬(packet.field 4 * packet.field 6).toNat > config.MCUF_MAX_PCKT_SIZE - 12 := small
  have fits : 12 + (packet.field 4 * packet.field 6).toNat ≤ config.MCUF_MAX_PCKT_SIZE := by
    rw [TooLarge, not_lt, Config.MCUF_MAX_PCKT_SIZE, Nat.add_sub_cancel] at small
    rw [Config.MCUF_MAX_PCKT_SIZE]
    omega
  rw [← channels_toNat] at holds
  rw [newMcuf]
  dsimp only
  rw [if_neg fun zero => nonzero ((maxvalue_eq_zero _).mp zero), if_neg fit]
  exact showFrame_eq_shown fits (fun y inRow x inColumn row column state =>
    mcufPixel_eq_some (by rw [channels_toNat]; exact le_max_left 1 _) holds _ inRow inColumn row column state) state

theorem newEblp_ne_dropped (steps : Nat) : newEblp steps packet state ≠ .dropped := by
  rw [newEblp]
  split
  · simp
  · simp
  · exact showFrame_ne_dropped

theorem newEblp_ne_undefined (steps : Nat)
    (holds : 12 + (packet.field 10).toNat * (packet.field 8).toNat ≤ packet.datagram.length) :
    newEblp steps packet state ≠ .undefined := by
  have reads := @scan_ne_undefined packet (packet.field 10) (packet.field 8) holds steps 0 0
  have shows (maxvalue : Nat) : ∃ next, showFrame config.MCUF_MAX_PCKT_SIZE (packet.field 10) (packet.field 8)
      (if maxvalue = 1 then blackPixel packet (packet.field 8) else greyPixel packet (packet.field 8)) state =
        .shown next := by
    refine showFrame_eq_shown le_rfl (fun y inRow x inColumn row column state => ?_) state
    split_ifs
    · exact blackPixel_eq_some holds inRow inColumn row column state
    · exact greyPixel_eq_some holds inRow inColumn row column state
  rw [newEblp]
  split
  · rename_i scanned
    split_ifs at scanned
    exact absurd scanned reads
  · simp
  · rename_i maxvalue _
    obtain ⟨next, shown⟩ := shows maxvalue
    rw [shown]
    simp

theorem newBlp_shown (holds : 12 + (packet.field 10).toNat * (packet.field 8).toNat ≤ packet.datagram.length) :
    ∃ next, newBlp packet state = .shown next :=
  showFrame_eq_shown le_rfl (fun _ inRow _ inColumn row column state =>
    blackPixel_eq_some holds inRow inColumn row column state) state

theorem newBlp_ne_dropped : newBlp packet state ≠ .dropped := showFrame_ne_dropped

end Formats

/-- A datagram is taken safely just if the buffer is still being sent, or the frame is contained in it. -/
theorem mcuf_taken_safely_iff (packet : Packet) (state : State config) :
    TakenSafely packet state ↔ state.sent < state.len ∨ Contained config packet := by
  by_cases busy : state.sent < state.len
  · have dropped (steps : Nat) : mcufNewdata steps packet state = .dropped := if_pos busy
    refine iff_of_true ⟨fun steps => ?_, fun _ _ _ => ⟨0, dropped 0⟩⟩ (.inl busy)
    rw [dropped]
    simp
  rw [or_iff_right busy, TakenSafely, Contained, announced]
  by_cases mcuf : packet.startsWith mcufMagic = true
  · have result (steps : Nat) : mcufNewdata steps packet state = newMcuf packet state := by
      rw [mcufNewdata, if_neg busy, if_pos mcuf]
    simp only [result, mcuf, if_true, true_and, forall_const, Option.mem_def, Option.some.injEq, forall_eq',
      exists_const]
    constructor
    · rintro ⟨safe, refused⟩
      refine ⟨fun zero => safe (newMcuf_undefined zero), ?_⟩
      by_contra neither
      obtain ⟨short, small⟩ := not_or.mp neither
      exact newMcuf_ne_dropped small (refused (not_le.mp short))
    · rintro ⟨nonzero, contained⟩
      by_cases large : TooLarge config packet
      · rw [newMcuf_dropped nonzero large]
        exact ⟨by simp, fun _ => rfl⟩
      · have holds := contained.resolve_right large
        obtain ⟨next, shown⟩ := @newMcuf_shown config packet state nonzero large holds
        rw [shown]
        exact ⟨by simp, fun short => absurd holds (not_le.mpr short)⟩
  · by_cases framed : packet.startsWith eblpMagic = true ∨ packet.startsWith blpMagic = true
    · have dropped (steps : Nat) : mcufNewdata steps packet state ≠ .dropped := by
        rw [mcufNewdata, if_neg busy, if_neg mcuf]
        split_ifs with eblp blp
        · exact newEblp_ne_dropped steps
        · exact newBlp_ne_dropped
        · exact absurd framed (not_or_intro eblp blp)
      simp only [mcuf, framed, Bool.false_eq_true, if_false, if_true, false_and, or_false, false_imp_iff, true_and,
        Option.mem_def, Option.some.injEq, forall_eq']
      constructor
      · rintro ⟨-, refused⟩
        by_contra short
        obtain ⟨steps, result⟩ := refused (not_le.mp short)
        exact dropped steps result
      · intro holds
        refine ⟨fun steps => ?_, fun short => absurd holds (not_le.mpr short)⟩
        rw [mcufNewdata, if_neg busy, if_neg mcuf]
        split_ifs with eblp blp
        · exact newEblp_ne_undefined steps holds
        · obtain ⟨next, shown⟩ := @newBlp_shown config packet state holds
          rw [shown]
          simp
        · simp
    · have dropped (steps : Nat) : mcufNewdata steps packet state = .dropped := by
        obtain ⟨eblp, blp⟩ := not_or.mp framed
        rw [mcufNewdata, if_neg busy, if_neg mcuf, if_neg eblp, if_neg blp]
      simp [dropped, mcuf, framed]

end Frames

theorem eighteen_le : 18 ≤ 255 := by decide

theorem eight_le : 8 ≤ 255 := by decide

theorem lamps_lt : 18 * 8 + 12 < 2 ^ 15 := by decide

/-- The lamps of the default configuration. -/
def lamps : Config where
  MCUF_MAX_SCREEN_WIDTH := 18
  MCUF_MAX_SCREEN_HEIGHT := 8
  MCUF_OUTPUT_SCREEN_WIDTH := 18
  MCUF_OUTPUT_SCREEN_HEIGHT := 8
  MCUF_SERIAL_SCREEN_WIDTH := 18
  MCUF_SERIAL_SCREEN_HEIGHT := 8
  MCUF_OUTPUT_SUPPORT := true
  MCUF_SERIAL_SUPPORT := false
  LEDRG_SUPPORT := false
  MCUF_SERIAL_WORKAROUND_FOR_BAD_MCUF_UDP_PACKETS := false
  width_le := eighteen_le
  height_le := eight_le
  output_width_le := le_rfl
  output_height_le := le_rfl
  size_lt := lamps_lt

/-- Nothing is being sent. -/
def dark : State lamps := ⟨0, 0, .replicate _ 0, fun _ _ => 0⟩

/-- One pixel with a greatest value of zero. -/
def zeroMaxval : Packet := ⟨mcufMagic ++ [0, 1, 0, 1, 0, 1, 0, 0, 255], fun _ => 0⟩

/-- A header that announces 18 times 8 pixels, and none of them. -/
def header : Packet := ⟨eblpMagic ++ [0, 0, 0, 0, 0, 18, 0, 8], fun _ => 0⟩

/-- A frame that divides by zero, and one that is read behind its datagram. -/
theorem zero_maxval_and_header_wrong : ¬TakenSafely zeroMaxval dark ∧ ¬TakenSafely header dark := by
  have idle : ¬dark.sent < dark.len := by decide
  constructor
  · intro safe
    refine safe.1 0 ?_
    have magic : zeroMaxval.startsWith mcufMagic = true := by decide
    rw [mcufNewdata, if_neg idle, if_pos magic]
    exact newMcuf_undefined rfl
  · intro safe
    have other : ¬header.startsWith mcufMagic = true := by decide
    have magic : header.startsWith eblpMagic = true := by decide
    obtain ⟨steps, dropped⟩ := safe.2 156 rfl (by decide)
    rw [mcufNewdata, if_neg idle, if_neg other, if_pos magic] at dropped
    exact newEblp_ne_dropped steps dropped

end Ethersex.Mcuf
