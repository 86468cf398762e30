import Mathlib
import Ethersex.Library.Walks
import Ethersex.UsbNet.Model

/-!
# Packets of the host

What the router gets are the packets that the host has announced and sent, as long as the data of a
transfer fits into the packet buffer and no packet of the device comes between its parts.
-/

namespace Ethersex.UsbNet

open Library

/-! ## Runs -/

/-- A transfer that the device has taken: the announced length, and the data so far. -/
structure Transfer where
  announced : UInt16
  sent : List UInt8

/-- A packet that the router has got, with the transfer it belongs to. -/
structure Packet where
  transfer : Option Transfer
  uip_len : UInt16
  uip_buf : Memory

/-- The device with the transfer that is not passed on yet, whether a packet of the device was started
behind its setup, and the packets of the router. -/
structure State where
  device : Device
  transfer : Option Transfer
  mixed : Bool
  packets : List Packet

/-- A setup or the data of a control transfer, the next block to the host, the periodic function with
what the network stack makes of a packet, a packet of the device, or another user of the packet buffer
that takes or releases it. -/
inductive Event where
  | setup (rq : Request) (reply : UInt8)
  | out (data : List UInt8) (reply : UInt8)
  | build (reply : UInt8)
  | periodic (answer : Answer)
  | txstart (uip_buf : Memory) (uip_len : UInt16)
  | lock (held : Bool)

/-- The packet has the announced length, it is in the buffer as a whole, and its bytes are those that the
host has sent. -/
structure Packet.Whole (offset size : UInt16) (t : Transfer) (p : Packet) : Prop where
  length : p.uip_len.toNat = offset.toNat + t.announced.toNat
  fits : offset.toNat + t.announced.toNat ≤ size.toNat
  sent : t.announced.toNat ≤ t.sent.length
  bytes : ∀ k (inside : k < t.sent.length), k < t.announced.toNat →
    p.uip_buf (offset + UInt16.ofNat k) = t.sent[k]

section Runs

variable (offset size : UInt16)

namespace State

def start (uip_buf : Memory) : State :=
  ⟨⟨0, false, USB_NO_MSG, 0, 0, false, false, uip_buf, 0, false⟩, none, false, []⟩

def step (s : State) : Event → State
  | .setup rq reply =>
      let s' := { s with device := s.device.usbProcessSetup rq reply }
      if s.device.takes rq then
        { s' with
          transfer := some ⟨rq.wValue, []⟩
          mixed := false }
      else s'
  | .out data reply =>
      { s with
        device := s.device.usbProcessOut offset size data reply
        transfer :=
          if s.device.writes then s.transfer.map fun t => { t with sent := t.sent ++ data }
          else s.transfer }
  | .build reply => { s with device := s.device.usbBuildTxBlock reply }
  | .periodic answer =>
      match s.device.usbNetPeriodic offset answer with
      | (device, none) => { s with device }
      | (device, some (uip_len, uip_buf)) =>
          { s with
            device
            transfer := none
            packets := s.packets ++ [⟨s.transfer, uip_len, uip_buf⟩] }
  | .txstart uip_buf uip_len =>
      { s with
        device := { s.device with
          uip_buf
          uip_len }.usbNetTxstart
        mixed := true }
  | .lock held => { s with device := { s.device with locked := held } }

/-- Nothing is stored outside the packet buffer, and each packet of the router is a whole one. -/
structure Sound (s : State) : Prop where
  inside : s.device.outside = false
  whole : ∀ p ∈ s.packets, ∃ t ∈ p.transfer, p.Whole offset size t

/-- Data belongs to a transfer that no packet of the device has come behind, unless no length is
announced, and its place is not beyond the numbers of 16 bits; and all of the data of a transfer that is
complete was inside the packet buffer. -/
def Fits (s : State) : Event → Prop
  | .out data _ => s.device.writes → ((s.transfer.isSome ∧ s.mixed = false) ∨ s.device.usb_rq_len = 0) ∧
      s.device.usb_rq_index.toNat + offset.toNat + data.length < 2 ^ 16
  | .periodic _ => s.device.arrived → s.device.usb_rq_index.toNat + offset.toNat < size.toNat
  | .setup _ _ | .build _ | .txstart _ _ | .lock _ => True

end State

instance (s : State) : (event : Event) → Decidable (s.Fits offset size event)
  | .out _ _ => inferInstanceAs (Decidable (_ → _))
  | .periodic _ => inferInstanceAs (Decidable (_ → _))
  | .setup _ _ | .build _ | .txstart _ _ | .lock _ => isTrue trivial

end Runs

/-! ## The device -/

/-- The variables that say what was received, which most functions of the driver keep. -/
def Device.part (d : Device) : UInt16 × UInt16 × Memory × Bool :=
  (d.usb_rq_index, d.usb_rq_len, d.uip_buf, d.outside)

section Steps

variable {offset size : UInt16} {d : Device} {rq : Request} {reply : UInt8} {data : List UInt8}

theorem part_replied (replyLen : UInt8) : (d.replied rq replyLen).part = d.part := by
  unfold Device.replied
  split_ifs
  · rfl
  · rfl
  · rfl
  · rfl

theorem part_setup (other : d.takes rq = false) : (d.usbProcessSetup rq reply).part = d.part := by
  rw [Device.usbProcessSetup]
  by_cases standard : rq.standard = true
  · rw [if_pos standard, part_replied]
    rfl
  · rw [if_neg standard, part_replied, Device.usbFunctionSetup]
    split_ifs
    · rw [Device.usbNetSetup]
      by_cases send : rq.bRequest = USB_REQUEST_NET_SEND
      · have locked : d.locked = true := by simpa [Device.takes, standard, send] using other
        rw [if_pos send, if_pos locked]
        rfl
      · rw [if_neg send]
        split_ifs
        · rfl
        · rfl
    · rfl

/-- A request to send starts a transfer. -/
theorem part_setup_takes (takes : d.takes rq = true) :
    (d.usbProcessSetup rq reply).part = (0, rq.wValue, d.uip_buf, d.outside) := by
  simp only [Device.takes, Bool.and_eq_true, Bool.not_eq_true', decide_eq_true_eq] at takes
  obtain ⟨⟨standard, send⟩, free⟩ := takes
  have other : ¬rq.standard = true := by rw [standard]; exact Bool.false_ne_true
  have locked : ¬d.locked = true := by rw [free]; exact Bool.false_ne_true
  rw [Device.usbProcessSetup, if_neg other, part_replied, Device.usbFunctionSetup, if_pos (.inl send),
    Device.usbNetSetup, if_pos send, if_neg locked]
  rfl

theorem part_readFinished : d.usbFunctionReadFinished.part = d.part := by
  unfold Device.usbFunctionReadFinished Device.usbNetReadFinished Device.uipBufUnlock
  split_ifs
  · rfl
  · rfl
  · rfl

theorem part_build : (d.usbBuildTxBlock reply).part = d.part := by
  rw [Device.usbBuildTxBlock]
  by_cases idle : d.usbMsgLen = USB_NO_MSG
  · rw [if_pos idle]
  · rw [if_neg idle]
    let sent : Device := { d with usbMsgLen := d.usbMsgLen - min d.usbMsgLen 8 }
    have kept : (if sent.usbMsgLen = 0 then sent.usbFunctionReadFinished else sent).part = d.part := by
      split_ifs
      · exact part_readFinished
      · rfl
    refine Eq.trans ?_ kept
    dsimp only
    generalize (if sent.usbMsgLen = 0 then sent.usbFunctionReadFinished else sent) = finished
    split_ifs
    · rfl
    · rfl
    · rfl
    · rfl

theorem part_out (other : d.writes = false) :
    (d.usbProcessOut offset size data reply).part = d.part := by
  rw [Device.usbProcessOut]
  by_cases user : d.userRw = true
  · have request : ¬d.setup_packet = USB_REQUEST_NET_SEND := by simpa [Device.writes, user] using other
    have same : (d.usbFunctionWrite offset size data reply).1 = d := by
      rw [Device.usbFunctionWrite, if_neg request]
      split_ifs
      · rfl
      · rfl
    rw [if_pos user]
    dsimp only
    rw [same]
    split_ifs
    · rfl
    · rfl
  · rw [if_neg user]

theorem part_out_writes (writes : d.writes = true) :
    (d.usbProcessOut offset size data reply).part = (d.usbNetWrite offset size data).1.part := by
  simp only [Device.writes, Bool.and_eq_true, decide_eq_true_eq] at writes
  obtain ⟨user, send⟩ := writes
  have other : ¬d.setup_packet = USB_REQUEST_ECMD := by rw [send]; decide
  have written : d.usbFunctionWrite offset size data reply = d.usbNetWrite offset size data := by
    rw [Device.usbFunctionWrite, if_neg other, if_pos send]
  rw [Device.usbProcessOut, if_pos user, written]
  dsimp only
  split_ifs
  · rfl
  · rfl

/-- The buffer has the data of a transfer from its place on. -/
def Holds (offset : UInt16) (memory : Memory) (sent : List UInt8) : Prop :=
  ∀ k (inside : k < sent.length), memory (offset + UInt16.ofNat k) = sent[k]

theorem Holds.copy {memory : Memory} {sent : List UInt8} (holds : Holds offset memory sent)
    (small : sent.length + data.length < 2 ^ 16) :
    Holds offset (memory.copy (offset + UInt16.ofNat sent.length) data) (sent ++ data) := by
  intro k inside
  rw [List.length_append] at inside
  have place : (offset + UInt16.ofNat k - (offset + UInt16.ofNat sent.length)).toNat =
      (2 ^ 16 - sent.length + k) % 2 ^ 16 := by
    rw [add_sub_add_left_eq_sub, UInt16.toNat_sub, UInt16.toNat_ofNat', UInt16.toNat_ofNat',
      Nat.mod_eq_of_lt (show k < 2 ^ 16 by omega), Nat.mod_eq_of_lt (show sent.length < 2 ^ 16 by omega)]
  rw [Memory.copy, place]
  by_cases before : k < sent.length
  · rw [List.getElem_append_left before, Nat.mod_eq_of_lt (by omega),
      List.getD_eq_default _ _ (by omega)]
    exact holds k before
  · have behind : (2 ^ 16 - sent.length + k) % 2 ^ 16 = k - sent.length := by omega
    rw [List.getElem_append_right (Nat.le_of_not_lt before), behind, List.getD_eq_getElem _ _ (by omega)]

/-- Data is written inside the packet buffer, or it is not written at all, and it is counted. -/
theorem usbNetWrite_spec (small : d.usb_rq_index.toNat + offset.toNat + data.length < 2 ^ 16) :
    (d.usbNetWrite offset size data).1.usb_rq_index.toNat = d.usb_rq_index.toNat + data.length ∧
      (d.usbNetWrite offset size data).1.usb_rq_len = d.usb_rq_len ∧
      (d.usbNetWrite offset size data).1.outside = d.outside ∧
      (d.usb_rq_index.toNat + data.length + offset.toNat < size.toNat →
        (d.usbNetWrite offset size data).1.uip_buf = d.uip_buf.copy (offset + d.usb_rq_index) data) := by
  have len : (UInt16.ofNat data.length).toNat = data.length := by
    rw [UInt16.toNat_ofNat', Nat.mod_eq_of_lt (by omega)]
  have index : (d.usb_rq_index + UInt16.ofNat data.length).toNat =
      d.usb_rq_index.toNat + data.length := by
    rw [UInt16.toNat_add, len, Nat.mod_eq_of_lt (by omega)]
  have sum : (d.usb_rq_index + offset + UInt16.ofNat data.length).toNat =
      d.usb_rq_index.toNat + offset.toNat + data.length := by
    rw [UInt16.toNat_add, UInt16.toNat_add, len,
      Nat.mod_eq_of_lt (show _ + offset.toNat < 2 ^ 16 by omega), Nat.mod_eq_of_lt (by omega)]
  rw [Device.usbNetWrite]
  by_cases fits : d.usb_rq_index + offset + UInt16.ofNat data.length < size
  · have inside : ((List.range data.length).any fun k =>
        size ≤ offset + d.usb_rq_index + UInt16.ofNat k) = false := by
      rw [List.any_eq_false]
      intro k among
      have less := List.mem_range.mp among
      rw [UInt16.lt_iff_toNat_lt, sum] at fits
      rw [decide_eq_true_eq, UInt16.le_iff_toNat_le, UInt16.toNat_add, UInt16.toNat_add,
        UInt16.toNat_ofNat', Nat.mod_eq_of_lt (show k < 2 ^ 16 by omega),
        Nat.mod_eq_of_lt (show offset.toNat + _ < 2 ^ 16 by omega), Nat.mod_eq_of_lt (by omega)]
      omega
    dsimp only
    rw [if_pos fits, inside, Bool.or_false]
    exact ⟨index, rfl, rfl, fun _ => rfl⟩
  · dsimp only
    rw [if_neg fits]
    refine ⟨index, rfl, rfl, fun enough => absurd ?_ fits⟩
    rw [UInt16.lt_iff_toNat_lt, sum]
    omega

/-! ## Steps -/

/-- The device receives the data of a transfer, which is in the buffer unless it was too much. -/
structure Receives (offset size : UInt16) (t : Transfer) (d : Device) : Prop where
  announced : d.usb_rq_len = t.announced
  index : d.usb_rq_index.toNat = t.sent.length
  holds : t.sent.length + offset.toNat < size.toNat → Holds offset d.uip_buf t.sent

/-- The device receives a transfer, or there is nothing that it would pass on. -/
structure Inv (offset size : UInt16) (s : State) : Prop where
  sound : s.Sound offset size
  receives : ∀ t ∈ s.transfer, s.mixed = false → Receives offset size t s.device
  idle : s.transfer = none ∨ s.mixed = true → s.device.arrived = false

theorem Receives.of_part {t : Transfer} {d d' : Device} (receives : Receives offset size t d)
    (same : d'.part = d.part) : Receives offset size t d' := by
  simp only [Device.part, Prod.mk.injEq] at same
  obtain ⟨index, len, memory, -⟩ := same
  exact ⟨len.trans receives.announced, by rw [index]; exact receives.index, by
    rw [memory]; exact receives.holds⟩

theorem arrived_of_part {d d' : Device} (same : d'.part = d.part) : d'.arrived = d.arrived := by
  simp only [Device.part, Prod.mk.injEq] at same
  rw [Device.arrived, same.1, same.2.1]
  rfl

variable {s : State}

theorem Inv.start (memory : Memory) : Inv offset size (State.start memory) where
  sound := ⟨rfl, fun _ among => absurd among List.not_mem_nil⟩
  receives := fun t among => absurd among (Option.not_mem_none t)
  idle := fun _ => rfl

/-- A step of the device that is none of its packets. -/
theorem Inv.of_part (inv : Inv offset size s) {d' : Device} (same : d'.part = s.device.part) :
    Inv offset size { s with device := d' } := by
  have outside : d'.outside = s.device.outside := congrArg (fun part => part.2.2.2) same
  refine ⟨⟨outside.trans inv.sound.inside, inv.sound.whole⟩, ?_, ?_⟩
  · exact fun t among apart => (inv.receives t among apart).of_part same
  · exact fun idle => (arrived_of_part same).trans (inv.idle idle)

theorem Inv.setup (inv : Inv offset size s) (rq : Request) (reply : UInt8) :
    Inv offset size (s.step offset size (.setup rq reply)) := by
  rw [State.step]
  cases takes : s.device.takes rq with
  | false => exact inv.of_part (part_setup takes)
  | true =>
      have part : (s.device.usbProcessSetup rq reply).part = _ := part_setup_takes takes
      simp only [Device.part, Prod.mk.injEq] at part
      obtain ⟨index, len, -, outside⟩ := part
      refine ⟨⟨outside.trans inv.sound.inside, inv.sound.whole⟩, ?_, ?_⟩
      · rintro t among -
        obtain rfl := Option.mem_some_iff.mp among
        refine ⟨len, ?_, fun _ k inside => absurd inside (Nat.not_lt_zero k)⟩
        rw [if_pos rfl]
        exact congrArg UInt16.toNat index
      · rw [if_pos rfl]
        exact fun gone => absurd gone (by simp)

theorem Inv.out (inv : Inv offset size s) {data : List UInt8} {reply : UInt8}
    (fits : s.Fits offset size (.out data reply)) :
    Inv offset size (s.step offset size (.out data reply)) := by
  rw [State.step]
  cases writes : s.device.writes with
  | false => exact inv.of_part (part_out writes)
  | true =>
      obtain ⟨belongs, small⟩ := fits writes
      obtain ⟨index, len, outside, memory⟩ := @usbNetWrite_spec offset size _ _ small
      have same : (s.device.usbProcessOut offset size data reply).part = _ := part_out_writes writes
      simp only [Device.part, Prod.mk.injEq] at same
      obtain ⟨index', len', memory', outside'⟩ := same
      refine ⟨⟨(outside'.trans outside).trans inv.sound.inside, inv.sound.whole⟩, ?_, ?_⟩
      · intro t' among apart
        obtain ⟨t, before, rfl⟩ := Option.map_eq_some_iff.mp among
        have receives := inv.receives t before apart
        refine ⟨(len'.trans len).trans receives.announced, ?_, fun enough => ?_⟩
        · rw [index', index, receives.index, List.length_append]
        · rw [List.length_append] at enough
          have place : s.device.usb_rq_index = UInt16.ofNat t.sent.length := by
            rw [← receives.index, UInt16.ofNat_toNat]
          rw [memory', memory (by rw [receives.index]; exact enough), place]
          rw [receives.index] at small
          exact (receives.holds (by omega)).copy (by omega)
      · intro idle
        have unknown : s.device.usb_rq_len = 0 := by
          refine belongs.resolve_left fun taken => ?_
          obtain gone | mixed := idle
          · rw [Option.map_eq_none_iff.mp gone] at taken
            exact Bool.false_ne_true taken.1
          · exact Bool.false_ne_true (taken.2.symm.trans mixed)
        rw [Device.arrived, len', len, unknown]
        rfl

theorem arrived_txstart (d : Device) : d.usbNetTxstart.arrived = false := by
  refine Bool.and_eq_false_imp.mpr fun long => decide_eq_false fun less => ?_
  exact of_decide_eq_true long (UInt16.toNat_inj.mp (Nat.le_zero.mp (UInt16.le_iff_toNat_le.mp less)))

/-- A packet that has arrived is passed on, and nothing is left of it. -/
theorem usbNetPeriodic_spec (answer : Answer) (arrived : d.arrived = true) :
    ∃ d', d.usbNetPeriodic offset answer = (d', some (d.usb_rq_len + offset, d.uip_buf)) ∧
      d'.arrived = false ∧ d'.outside = d.outside := by
  rw [Device.usbNetPeriodic, if_pos arrived]
  refine ⟨_, rfl, ?_⟩
  dsimp only
  split_ifs
  · unfold Device.uipBufUnlock
    split_ifs
    · exact ⟨rfl, rfl⟩
    · exact ⟨rfl, rfl⟩
  · exact ⟨arrived_txstart _, rfl⟩
  · exact ⟨rfl, rfl⟩

theorem Inv.txstart (inv : Inv offset size s) (memory : Memory) (uip_len : UInt16) :
    Inv offset size (s.step offset size (.txstart memory uip_len)) := by
  refine ⟨⟨inv.sound.inside, inv.sound.whole⟩, fun t _ apart => ?_, fun _ => arrived_txstart _⟩
  exact absurd apart.symm Bool.false_ne_true

theorem Inv.periodic (inv : Inv offset size s) {answer : Answer}
    (fits : s.Fits offset size (.periodic answer)) :
    Inv offset size (s.step offset size (.periodic answer)) := by
  rw [State.step]
  cases arrived : s.device.arrived with
  | false =>
      rw [Device.usbNetPeriodic, arrived]
      exact inv
  | true =>
      obtain ⟨d', passes, gone, outside⟩ := @usbNetPeriodic_spec offset _ answer arrived
      have inside := fits arrived
      have under : ∃ t ∈ s.transfer, s.mixed = false := by
        cases transfer : s.transfer with
        | none => exact absurd (arrived.symm.trans (inv.idle (.inl transfer))) (by decide)
        | some t =>
            cases mixed : s.mixed with
            | false => exact ⟨t, rfl, rfl⟩
            | true => exact absurd (arrived.symm.trans (inv.idle (.inr mixed))) (by decide)
      obtain ⟨t, transfer, apart⟩ := under
      have receives := inv.receives t transfer apart
      simp only [Device.arrived, Bool.and_eq_true, decide_eq_true_eq] at arrived
      obtain ⟨-, complete⟩ := arrived
      rw [ge_iff_le, UInt16.le_iff_toNat_le, receives.announced, receives.index] at complete
      rw [receives.index] at inside
      have whole : Packet.Whole offset size t
          ⟨s.transfer, s.device.usb_rq_len + offset, s.device.uip_buf⟩ := by
        refine ⟨?_, by omega, complete, fun k within _ => receives.holds inside k within⟩
        have bound := size.toNat_lt
        rw [UInt16.toNat_add, receives.announced, Nat.mod_eq_of_lt (by omega), Nat.add_comm]
      rw [passes]
      refine ⟨⟨outside.trans inv.sound.inside, ?_⟩, ?_, fun _ => gone⟩
      · refine List.forall_mem_append.mpr ⟨inv.sound.whole, ?_⟩
        exact List.forall_mem_singleton.mpr ⟨t, transfer, whole⟩
      · exact fun t among => absurd among (Option.not_mem_none t)

theorem Inv.step (inv : Inv offset size s) {event : Event} (fits : s.Fits offset size event) :
    Inv offset size (s.step offset size event) := by
  cases event with
  | setup rq reply => exact inv.setup rq reply
  | out data reply => exact inv.out fits
  | build reply => exact inv.of_part part_build
  | periodic answer => exact inv.periodic fits
  | txstart memory uip_len => exact inv.txstart memory uip_len
  | lock held => exact inv.of_part rfl

/-- What the router gets are whole packets, as long as data comes only for transfers that no packet of
the device has come behind, and the data of each transfer that is complete has its place in the
buffer. -/
theorem sound_of_fits (offset size : UInt16) (memory : Memory) {events : List Event}
    (fits : EachMeets (State.step offset size) (State.Fits offset size) (State.start memory) events) :
    (events.foldl (State.step offset size) (State.start memory)).Sound offset size :=
  (fits.invariant (fun _ _ inv meets => inv.step meets) (Inv.start memory)).sound

end Steps

/-- A request to send. -/
def send (length : UInt16) : Event := .setup ⟨false, false, USB_REQUEST_NET_SEND, length, length⟩ 0

/-- The network stack has no answer to a packet. -/
def silent : Event := .periodic ⟨fun _ => 0, 0, false⟩

/-- A packet of ten bytes in two blocks. -/
theorem sound_of_fits_tenBytes :
    ([send 10, .out [1, 2, 3, 4, 5, 6, 7, 8] 0, .out [9, 10] 0, silent].foldl (State.step 0 192)
      (State.start fun _ => 0)).Sound 0 192 :=
  sound_of_fits 0 192 (fun _ => 0) (by decide)

/-- A packet of 200 bytes, which comes in blocks of eight, does not fit into a buffer of 192 bytes, and
the router gets it. -/
theorem not_sound :
    ¬((send 200 :: List.replicate 25 (.out (List.replicate 8 1) 0) ++ [silent]).foldl (State.step 0 192)
      (State.start fun _ => 0)).Sound 0 192 := by
  intro sound
  have passed : ((send 200 :: List.replicate 25 (.out (List.replicate 8 1) 0) ++ [silent]).foldl
      (State.step 0 192) (State.start fun _ => 0)).packets.map Packet.uip_len = [200] := by
    decide
  obtain ⟨p, among, len⟩ := List.map_eq_singleton_iff.mp passed
  obtain ⟨t, -, whole⟩ := sound.whole p (by rw [among]; exact List.mem_singleton.mpr rfl)
  have fits := whole.fits
  rw [← whole.length, len] at fits
  exact absurd fits (by decide)

end Ethersex.UsbNet
