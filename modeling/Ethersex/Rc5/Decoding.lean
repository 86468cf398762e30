import Mathlib
import Ethersex.Library.Biphase
import Ethersex.Rc5.Model

/-!
# RC5 decoding undoes encoding

The levels of `rc5_send` are a biphase waveform and the interrupt handlers are
the parity receiver of `Library.Biphase` with eight-bit counters.  As long as the
edge counter does not come back to zero the two agree, so every jittered frame is
decoded to the command it was sent for.
-/

namespace Ethersex.Rc5

open Library Library.Biphase

/-! ## The sender drives a biphase waveform -/

@[simp] theorem rc5SendBit_eq (bit : Bool) : rc5SendBit bit = halfBits bit := by
  cases bit <;> rfl

theorem rc5Send_eq (toggle : Bool) (addr cmd : UInt8) :
    rc5Send toggle addr cmd = waveform (rc5SendBits toggle addr cmd) ++ [false] := by
  have sameBit : rc5SendBit = halfBits := funext rc5SendBit_eq
  simp only [rc5Send, waveform, sameBit]

/-- Half-bits between the edges of a frame on an idle line.  The first entry is
the time before the first edge. -/
def edgeGaps (toggle : Bool) (addr cmd : UInt8) : List Nat :=
  gaps false 0 (rc5Send toggle addr cmd)

/-- The bits after the first start bit. -/
def payload (toggle : Bool) (addr cmd : UInt8) : List Bool :=
  [true, toggle] ++ bitsDown addr 5 ++ bitsDown cmd 6

theorem rc5SendBits_eq (toggle : Bool) (addr cmd : UInt8) :
    rc5SendBits toggle addr cmd = true :: payload toggle addr cmd := by
  simp [rc5SendBits, payload]

theorem edgeGaps_eq (toggle : Bool) (addr cmd : UInt8) :
    edgeGaps toggle addr cmd =
      1 :: gaps true 1 (waveform (payload toggle addr cmd) ++ [false]) := by
  simp [edgeGaps, rc5Send_eq, rc5SendBits_eq, waveform, halfBits, gaps]

@[simp] theorem length_payload (toggle : Bool) (addr cmd : UInt8) :
    (payload toggle addr cmd).length = 13 := by
  simp [payload, bitsDown]

/-- A frame has at most 27 edges after the first one. -/
theorem length_tail_edgeGaps_le (toggle : Bool) (addr cmd : UInt8) :
    (edgeGaps toggle addr cmd).tail.length ≤ 27 := by
  have levels : (waveform (payload toggle addr cmd) ++ [false]).length = 27 := by
    simp [waveform, halfBits, List.length_flatMap]
  rw [edgeGaps_eq, List.tail_cons, ← levels]
  exact length_gaps_le _ _ _

theorem word_bitsDown (start : Nat) (value : UInt8) (count : Nat) :
    word start (bitsDown value count) =
      start * 2 ^ count + value.toNat % 2 ^ count := by
  induction count generalizing start with
  | zero => simp [bitsDown, Nat.mod_one]
  | succ count ih =>
      have head : bitsDown value (count + 1) =
          value.toNat.testBit count :: bitsDown value count := by
        simp [bitsDown, List.range_succ]
      rw [head, word_cons, ih, Nat.mod_pow_succ, Nat.testBit_eq_decide_div_mod_eq]
      have bit : value.toNat / 2 ^ count % 2 = 0 ∨ value.toNat / 2 ^ count % 2 = 1 := by
        omega
      rcases bit with bit | bit <;> simp [bit, Nat.pow_succ] <;> ring

/-- The word on the air: two start bits, toggle, address, command. -/
theorem word_rc5SendBits (toggle : Bool) {addr cmd : UInt8}
    (addr_lt : addr < 32) (cmd_lt : cmd < 64) :
    word 0 (rc5SendBits toggle addr cmd) =
      ((6 + toggle.toNat) * 32 + addr.toNat) * 64 + cmd.toNat := by
  have addrSmall : addr.toNat < 32 := UInt8.lt_iff_toNat_lt.mp addr_lt
  have cmdSmall : cmd.toNat < 64 := UInt8.lt_iff_toNat_lt.mp cmd_lt
  have append (start : Nat) (left right : List Bool) :
      word start (left ++ right) = word (word start left) right := by
    simp [word]
  rw [rc5SendBits, append, append, word_bitsDown, word_bitsDown,
    Nat.mod_eq_of_lt (by simpa using addrSmall), Nat.mod_eq_of_lt (by simpa using cmdSmall)]
  simp

/-! ## The interrupt handler is a parity receiver -/

/-- Nominal timer ticks of a gap of one or two half-bits. -/
def nominalTicks (fCpu : Nat) (gap : Nat) : UInt8 :=
  if gap = 1 then rc5HalfBitTicks fCpu else rc5BitTicks fCpu

/-- A timer count inside the decoder's tolerance window of a gap. -/
def Tolerated (fCpu : Nat) (gap : Nat) (counter : UInt8) : Prop :=
  inWindow fCpu (nominalTicks fCpu gap) counter = true

instance (fCpu gap : Nat) (counter : UInt8) : Decidable (Tolerated fCpu gap counter) :=
  inferInstanceAs (Decidable (_ = true))

/-- The two windows are disjoint for every processor clock. -/
theorem receivedBits_of_tolerated {fCpu gap : Nat} {counter : UInt8}
    (small : gap = 1 ∨ gap = 2) (tolerated : Tolerated fCpu gap counter) :
    receivedBits fCpu counter = some gap := by
  rcases small with rfl | rfl
  · simp_all [Tolerated, nominalTicks, receivedBits]
  · have full : inWindow fCpu (rc5BitTicks fCpu) counter = true := by
      simpa [Tolerated, nominalTicks] using tolerated
    have half : inWindow fCpu (rc5HalfBitTicks fCpu) counter = false := by
      simp only [inWindow, rc5HalfBitTicks, rc5Environment, UInt8.toNat_div,
        UInt8.reduceToNat, Bool.and_eq_true, decide_eq_true_eq, Bool.and_eq_false_iff,
        decide_eq_false_iff_not] at full ⊢
      omega
    simp [receivedBits, full, half]

/-- The handlers' counters are those of a parity receiver, up to their width. -/
structure Tracks (receiver : Receiver) (state : State) : Prop where
  enabled : state.rc5Global.enabled = true
  tempDisable : state.rc5Global.tempDisable = false
  halfbitcount : state.rc5Global.halfbitcount = UInt8.ofNat receiver.halfBits
  interrupts : state.rc5Global.interrupts = UInt8.ofNat receiver.edges
  raw : state.tempRc5.raw = UInt16.ofNat receiver.value

theorem ofNat_and_one_eq_one (count : Nat) :
    (UInt8.ofNat count &&& 1 = 1) ↔ count % 2 = 1 := by
  rw [← UInt8.toNat_inj]
  simp [Nat.and_one_is_mod]

/-- Shifting a bit into the raw word. -/
theorem shiftLeft_or_ofNat (value edges : Nat) :
    (UInt16.ofNat value <<< 1) ||| (UInt8.ofNat edges &&& 1).toUInt16 =
      UInt16.ofNat (2 * value + edges % 2) := by
  have bit : edges % 2 < 2 ^ 1 := by omega
  have shifted : value * 2 % 65536 = 2 ^ 1 * (value % 32768) := by omega
  rw [← UInt16.toNat_inj]
  suffices value * 2 % 65536 ||| edges % 2 = (2 * value + edges % 2) % 65536 by
    simpa [Nat.and_one_is_mod, Nat.shiftLeft_eq] using this
  rw [shifted, ← Nat.two_pow_add_eq_or_of_lt bit]
  omega

namespace Tracks

variable {fCpu : Nat} {receiver : Receiver} {state : State}

theorem processHalfbit (tracks : Tracks receiver state) :
    Tracks receiver.halfBit (processHalfbit state) := by
  have odd : (state.rc5Global.halfbitcount + 1 &&& 1 = 1) ↔
      (receiver.halfBits + 1) % 2 = 1 := by
    rw [tracks.halfbitcount, ← ofNat_and_one_eq_one, UInt8.ofNat_add]
    rfl
  constructor
  · exact tracks.enabled
  · exact tracks.tempDisable
  · simp [Rc5.processHalfbit, Receiver.halfBit, tracks.halfbitcount]
  · exact tracks.interrupts
  · simp only [Rc5.processHalfbit, Receiver.halfBit, odd]
    split
    · rw [tracks.raw, tracks.interrupts, shiftLeft_or_ofNat]
    · exact tracks.raw

theorem processHalfbits (tracks : Tracks receiver state) (count : Nat) :
    Tracks (Receiver.halfBit^[count] receiver) (Rc5.processHalfbit^[count] state) := by
  induction count generalizing receiver state with
  | zero => exact tracks
  | succ count ih => exact ih tracks.processHalfbit

/-- An accepted edge that is not taken for the first one. -/
theorem edge (tracks : Tracks receiver state) {gap : Nat} {counter : UInt8}
    (later : receiver.edges % 256 ≠ 0) (small : gap = 1 ∨ gap = 2)
    (tolerated : Tolerated fCpu gap counter) :
    Tracks (receiver.edge gap) (isrRc5IntSignal fCpu counter state) := by
  have notFirst : state.rc5Global.interrupts ≠ 0 := by
    rw [tracks.interrupts, ← UInt8.toNat_inj.ne]
    simpa using later
  have passed := tracks.processHalfbits gap
  simp only [isrRc5IntSignal, tracks.enabled, tracks.tempDisable, Bool.not_false,
    Bool.and_self, if_true, if_neg notFirst, receivedBits_of_tolerated small tolerated]
  exact {
    enabled := passed.enabled
    tempDisable := passed.tempDisable
    halfbitcount := passed.halfbitcount
    interrupts := by simp [Receiver.edge, passed.interrupts]
    raw := passed.raw }

/-- A list of accepted edges, short enough for the edge counter. -/
theorem receive {gapList : List Nat} {counters : List UInt8}
    (tolerated : List.Forall₂ (Tolerated fCpu) gapList counters) :
    ∀ {receiver : Receiver} {state : State}, Tracks receiver state →
      0 < receiver.edges → receiver.edges + gapList.length ≤ 256 →
      (∀ gap ∈ gapList, gap = 1 ∨ gap = 2) →
      Tracks (receiver.receive gapList) (run fCpu state (counters.map Interrupt.edge)) := by
  induction tolerated with
  | nil => exact fun tracks _ _ _ => tracks
  | @cons gap counter gapList counters head _ ih =>
      intro receiver state tracks started bounded small
      rw [List.length_cons] at bounded
      have stepped := tracks.edge (by omega) (small gap (by simp)) head
      refine ih stepped ?_ ?_ fun other member => small other (by simp [member])
      · simp
      · rw [Receiver.edges_edge]
        omega

end Tracks

/-! ## Frames -/

/-- One frame on the air: the arguments and the toggle of a `rc5_send` call and
the timer counts at its edges.  The count at the first edge is the time since the
previous frame, the others lie in the windows of their nominal gaps. -/
structure Transmission (fCpu : Nat) where
  toggle : Bool
  addr : UInt8
  cmd : UInt8
  addr_lt : addr < 32
  cmd_lt : cmd < 64
  first : UInt8
  counters : List UInt8
  tolerated : List.Forall₂ (Tolerated fCpu) (edgeGaps toggle addr cmd).tail counters

namespace Transmission

variable {fCpu : Nat} (transmission : Transmission fCpu)

/-- The interrupts of a frame, with the timer overflow of the pause after it. -/
def interrupts : List Interrupt :=
  .edge transmission.first :: transmission.counters.map .edge ++ [.overflow]

/-- The receiver has delivered exactly this frame and waits for the next one. -/
structure Delivered (state : State) : Prop where
  newData : state.rc5Global.newData = true
  address : state.rc5Global.receivedCommand.address = transmission.addr.toUInt16
  code : state.rc5Global.receivedCommand.code = transmission.cmd.toUInt16
  toggleBit : state.rc5Global.receivedCommand.toggleBit = transmission.toggle.toUInt16
  idle : Idle state

end Transmission

/-- The receiver right after the first edge of a frame. -/
def firstEdge : Receiver := ⟨1, 0, 0⟩

theorem midBit_firstEdge : MidBit firstEdge true := ⟨rfl, rfl⟩

theorem tracks_firstEdge (fCpu : Nat) (counter : UInt8) {state : State} (idle : Idle state) :
    Tracks firstEdge (isrRc5IntSignal fCpu counter state) := by
  simp only [isrRc5IntSignal, idle.enabled, idle.tempDisable, idle.interrupts,
    Bool.not_false, Bool.and_self, if_true]
  exact ⟨rfl, rfl, idle.halfbitcount, rfl, rfl⟩

/-- Every overflow leaves an enabled receiver idle. -/
theorem idle_isrTimer0Ovf {state : State} (enabled : state.rc5Global.enabled = true) :
    Idle (isrTimer0Ovf state) := by
  simp only [isrTimer0Ovf]
  split
  · constructor <;> simp [enabled]
  · split <;> constructor <;> simp [enabled]

/-- The overflow completes a trailing zero and delivers the word. -/
theorem isrTimer0Ovf_of_tracks {receiver : Receiver} {state : State} {last : Bool}
    (tracks : Tracks receiver state) (counted : receiver.halfBits = 26 + last.toNat) :
    (isrTimer0Ovf state).rc5Global.newData = true ∧
      (isrTimer0Ovf state).rc5Global.receivedCommand.raw =
        UInt16.ofNat (pending receiver.value last) := by
  have count := tracks.halfbitcount
  rw [counted] at count
  cases last with
  | false =>
      have shifted : UInt16.ofNat receiver.value <<< 1 =
          UInt16.ofNat (2 * receiver.value) := by
        rw [← UInt16.toNat_inj]
        simp [Nat.shiftLeft_eq, Nat.mul_comm]
      have isTwentySix : state.rc5Global.halfbitcount = 26 := count
      simp [isrTimer0Ovf, isTwentySix, tracks.enabled, tracks.raw, pending, shifted]
  | true =>
      have isTwentySeven : state.rc5Global.halfbitcount = 27 := count
      simp [isrTimer0Ovf, isTwentySeven, tracks.enabled, tracks.raw, pending]

/-- Fields of the raw word that `rc5_send` puts on the air. -/
theorem fields_of_raw (toggle : Bool) {addr cmd : UInt8} (addr_lt : addr < 32)
    (cmd_lt : cmd < 64) {command : Rc5T}
    (raw : command.raw = UInt16.ofNat (word 0 (rc5SendBits toggle addr cmd))) :
    command.address = addr.toUInt16 ∧ command.code = cmd.toUInt16 ∧
      command.toggleBit = toggle.toUInt16 := by
  have addrSmall : addr.toNat < 32 := UInt8.lt_iff_toNat_lt.mp addr_lt
  have cmdSmall : cmd.toNat < 64 := UInt8.lt_iff_toNat_lt.mp cmd_lt
  have toggleSmall := toggle.toNat_lt
  have value : command.raw.toNat =
      ((6 + toggle.toNat) * 32 + addr.toNat) * 64 + cmd.toNat := by
    rw [raw, word_rc5SendBits toggle addr_lt cmd_lt]
    simp only [UInt16.toNat_ofNat']
    omega
  refine ⟨?_, ?_, ?_⟩ <;> rw [← UInt16.toNat_inj]
  · simp only [Rc5T.address, UInt16.toNat_and, UInt16.toNat_shiftRight, value]
    rw [show UInt16.toNat 31 = 2 ^ 5 - 1 from rfl, Nat.and_two_pow_sub_one_eq_mod,
      Nat.shiftRight_eq_div_pow]
    simp
    omega
  · simp only [Rc5T.code, UInt16.toNat_and, value]
    rw [show UInt16.toNat 63 = 2 ^ 6 - 1 from rfl, Nat.and_two_pow_sub_one_eq_mod]
    simp
    omega
  · simp only [Rc5T.toggleBit, UInt16.toNat_and, UInt16.toNat_shiftRight, value]
    rw [show UInt16.toNat 1 = 2 ^ 1 - 1 from rfl, Nat.and_two_pow_sub_one_eq_mod,
      Nat.shiftRight_eq_div_pow]
    have shown : toggle.toUInt16.toNat = toggle.toNat := by cases toggle <;> rfl
    rw [shown, show 2 ^ (UInt16.toNat 11 % 16) = 2048 from rfl]
    omega

/-- A single frame is delivered from any idle state. -/
theorem delivered {fCpu : Nat} (transmission : Transmission fCpu) {state : State}
    (idle : Idle state) :
    transmission.Delivered (run fCpu state transmission.interrupts) := by
  obtain ⟨toggle, addr, cmd, addr_lt, cmd_lt, first, counters, tolerated⟩ := transmission
  have short := length_tail_edgeGaps_le toggle addr cmd
  rw [edgeGaps_eq, List.tail_cons] at tolerated short
  have started := tracks_firstEdge fCpu first idle
  have received := started.receive tolerated Nat.one_pos
    (by simp only [firstEdge]; omega) (gap_one_or_two _ _)
  obtain ⟨counted, value⟩ := receive_gaps (payload toggle addr cmd) firstEdge true
    midBit_firstEdge
  rw [length_payload] at counted
  obtain ⟨newData, raw⟩ := isrTimer0Ovf_of_tracks received (by simpa [firstEdge] using counted)
  rw [value, ← rc5SendBits_eq] at raw
  obtain ⟨address, code, toggleBit⟩ := fields_of_raw toggle addr_lt cmd_lt raw
  have final : run fCpu state
      (Transmission.interrupts ⟨toggle, addr, cmd, addr_lt, cmd_lt, first, counters,
        by rw [edgeGaps_eq, List.tail_cons]; exact tolerated⟩) =
      isrTimer0Ovf (run fCpu (isrRc5IntSignal fCpu first state)
        (counters.map Interrupt.edge)) := by
    simp [Transmission.interrupts, handle]
  rw [final]
  exact ⟨newData, address, code, toggleBit, idle_isrTimer0Ovf received.enabled⟩

/-- The states right after each frame of a sequence. -/
def afterEach {fCpu : Nat} (state : State) : List (Transmission fCpu) → List State
  | [] => []
  | transmission :: rest =>
      let next := run fCpu state transmission.interrupts
      next :: afterEach next rest

/-- Decoding undoes encoding, frame after frame: whatever counts inside the
windows the edges of successive `rc5_send` calls have, the receiver delivers each
command after its frame and is idle again. -/
theorem rc5_round_trip (fCpu : Nat) (transmissions : List (Transmission fCpu)) :
    ∀ state : State, Idle state →
      List.Forall₂ Transmission.Delivered transmissions (afterEach state transmissions) := by
  induction transmissions with
  | nil => exact fun _ _ => .nil
  | cons transmission rest ih =>
      intro state idle
      have first := delivered transmission idle
      exact .cons first (ih _ first.idle)

/-- The first frame drawn in `rc5.c` (address 2, command 1) at 20 MHz, with the
counts of the long gaps at the two ends of their window. -/
def documentedFrame : Transmission 20000000 where
  toggle := false
  addr := 2
  cmd := 1
  addr_lt := by decide
  cmd_lt := by decide
  first := 0
  counters :=
    [17, 11, 29, 23, 17, 17, 17, 17, 17, 41, 29, 17, 17, 17, 17, 17, 17, 17, 17, 17, 17, 41, 17]
  tolerated := by decide

/-- The second one (address 2, command 2, toggle bit set). -/
def documentedFrameToggled : Transmission 20000000 where
  toggle := true
  addr := 2
  cmd := 2
  addr_lt := by decide
  cmd_lt := by decide
  first := 200
  counters :=
    [17, 17, 17, 17, 35, 17, 17, 17, 17, 35, 35, 17, 17, 17, 17, 17, 17, 17, 17, 35, 35]
  tolerated := by decide

theorem rc5_round_trip_documented :
    List.Forall₂ Transmission.Delivered [documentedFrame, documentedFrameToggled]
      (afterEach rc5Init [documentedFrame, documentedFrameToggled]) :=
  rc5_round_trip 20000000 [documentedFrame, documentedFrameToggled] rc5Init idle_rc5Init

end Ethersex.Rc5
