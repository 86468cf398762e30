import Mathlib
import Ethersex.Library.Walks
import Ethersex.Dmx.Model

/-!
# Art-Net packets

An Art-Net node puts the channels of a packet for its universe where the DMX transmitter has its own.
They are on the line if the transmitter sends as many channels, which only its own functions say.
-/

namespace Ethersex.Dmx

open Library

/-! ## Packets -/

/-- A datagram in the packet buffer, with what is behind it. -/
structure Datagram where
  bytes : List UInt8
  stale : Bytes

def OP_OUTPUT : Nat := 0x5000

namespace Datagram

def read (k : Nat) (d : Datagram) : UInt8 := d.bytes.getD k (d.stale k)

def uip_len (d : Datagram) : Nat := d.bytes.length

/-- `id` of `struct artnet_header`. -/
def id (d : Datagram) : List UInt8 := (List.range 8).map fun k => d.read k

/-- `Art-Net` with the zero behind it. -/
def artNet : List UInt8 := [0x41, 0x72, 0x74, 0x2D, 0x4E, 0x65, 0x74, 0]

def opcode (d : Datagram) : Nat := (d.read 8).toNat + 256 * (d.read 9).toNat

/-- `universe` of `struct artnet_dmx`. -/
def universeOf (d : Datagram) : Nat := (d.read 14).toNat + 256 * (d.read 15).toNat

/-- The number of channels a packet announces. -/
def announced (d : Datagram) : Nat := 256 * (d.read 16).toNat + (d.read 17).toNat

/-- `dataStart`, and what is behind it. -/
def dataStart (k : Nat) (d : Datagram) : UInt8 := d.read (18 + k)

/-- The zero that `artnet_net_main` puts behind a datagram. -/
def terminated (d : Datagram) : Datagram :=
  { d with stale := fun k => if k = d.uip_len then 0 else d.stale k }

end Datagram

/-! ## The node -/

/-- The variables of the Art-Net node that say which packets are for it, and the transmitter. -/
structure Node where
  artnet_subNet : UInt8
  artnet_outputUniverse1 : UInt8
  artnet_dmxDirection : UInt8
  dmx : Sender

section Runs

variable (maxChan : Nat)

namespace Node

/-- An output packet for the universe of the node. -/
abbrev Outputs (d : Datagram) (n : Node) : Prop :=
  d.id = Datagram.artNet ∧ d.opcode = OP_OUTPUT ∧
    d.universeOf = n.artnet_subNet.toNat <<< 4 ||| n.artnet_outputUniverse1.toNat

/-- `artnet_get`, with `CONF_DMX_MAX_CHAN`. -/
def artnetGet (d : Datagram) (n : Node) : Node :=
  if n.Outputs d ∧ n.artnet_dmxDirection = 0 then
    let len := if d.announced > maxChan then maxChan else d.announced
    { n with dmx := { n.dmx with
      dmx_data := fun k => if k < len then d.dataStart k else n.dmx.dmx_data k
      dmx_prg := 0 } }
  else n

/-- `dmx_init` and `artnet_init`. -/
def start : Node := ⟨0, 0, 0, Sender.reset.dmxInit⟩

end Node

/-- A datagram; the two commands; the periodic function with the interrupts that come before it starts a
frame; or a transmit interrupt. -/
inductive Event where
  | datagram (d : Datagram)
  | set6chan (numbers : List UInt16)
  | fade
  | poll (interrupts : Nat)
  | transmitted

namespace Node

def step (n : Node) : Event → Node
  | .datagram d => n.artnetGet maxChan d.terminated
  | .set6chan numbers => { n with dmx := (n.dmx.parseCmdDmxSet6chan numbers).getD n.dmx }
  | .fade => { n with dmx := n.dmx.parseCmdDmxFade }
  | .poll interrupts => { n with dmx := n.dmx.dmxPeriodic interrupts }
  | .transmitted => { n with dmx := n.dmx.txVect }

/-- An event that does not update the channels.  The periodic function is called in intervals in which
thousands of bytes are sent, so that it never finds a frame whose first channel is not out yet. -/
def Quiet (n : Node) : Event → Prop
  | .datagram d => ¬n.Outputs d.terminated
  | .set6chan numbers => n.dmx.parseCmdDmxSet6chan numbers = none
  | .fade => False
  | .poll _ => n.dmx.dmx_index = 0 → n.dmx.transmits = false
  | .transmitted => True

/-- What is on the line from now on, up to the next update, are frames that have these channels. -/
def Shows (n : Node) (channels : List UInt8) : Prop :=
  ∀ events, EachMeets (Node.step maxChan) Quiet n events →
    ∀ frame ∈ frames ((events.foldl (Node.step maxChan) n).dmx.line.drop n.dmx.line.length),
      channels <+: frame

/-- A packet gets to the line: if all of its channels are contained in it, they are in the array and in
all frames that are started behind it, and otherwise nothing behind the datagram is used. -/
structure Reaches (d : Datagram) (n : Node) : Prop where
  stored : 18 + d.announced ≤ d.uip_len → ∀ k < min d.announced maxChan,
    (n.artnetGet maxChan d).dmx.dmx_data k = d.dataStart k
  shown : 18 + d.announced ≤ d.uip_len →
    (n.artnetGet maxChan d).Shows maxChan
      ((List.range (min d.announced maxChan)).map fun k => d.dataStart k)
  inside : d.uip_len < 18 + d.announced → ∀ stale,
    (n.artnetGet maxChan { d with stale }).dmx = (n.artnetGet maxChan d).dmx

/-- The transmitter sends as many channels as the packet has, and the packet has as many as the array
where it announces more than it has. -/
def Covers (d : Datagram) (n : Node) : Prop :=
  if 18 + d.announced ≤ d.uip_len then min d.announced maxChan ≤ n.dmx.dmx_txlen.toNat
  else 18 + maxChan ≤ d.uip_len

instance (d : Datagram) (n : Node) : Decidable (n.Covers maxChan d) :=
  inferInstanceAs (Decidable (if 18 + d.announced ≤ d.uip_len then
    min d.announced maxChan ≤ n.dmx.dmx_txlen.toNat else 18 + maxChan ≤ d.uip_len))

end Node

end Runs

/-! ## The line -/

theorem received_append (sent : List Line) (next : Line) :
    received (sent ++ [next]) = (received sent).next next := by
  rw [received, List.foldl_append]
  rfl

theorem foldl_slots (channels before : List UInt8) (complete : List (List UInt8)) :
    (channels.map Line.slot).foldl Receiver.next ⟨some before, complete⟩ =
      ⟨some (before ++ channels), complete⟩ := by
  induction channels generalizing before with
  | nil => rw [List.append_nil]; rfl
  | cons ch rest ih =>
      refine (ih (before ++ [ch])).trans ?_
      rw [List.append_assoc]
      rfl

/-- A frame on the line is received. -/
theorem mem_frames (before : List Line) (channels : List UInt8) :
    channels ∈ frames (before ++ [.reset] ++ channels.map .slot ++ [.off]) := by
  have open_ : received (before ++ [.reset]) = ⟨some [], (received before).complete⟩ :=
    received_append before .reset
  rw [frames, received_append, received, List.foldl_append, ← received, open_, foldl_slots]
  exact List.mem_append_right _ (List.mem_singleton.mpr rfl)

/-! ## The transmitter -/

namespace Sender

/-- The first channels of the array. -/
def channels (s : Sender) (count : Nat) : List UInt8 := (List.range count).map s.dmx_data

theorem channels_succ (s : Sender) (count : Nat) :
    s.channels (count + 1) = s.channels count ++ [s.dmx_data count] := by
  rw [channels, List.range_succ, List.map_append]
  rfl

theorem channels_prefix (s : Sender) {few many : Nat} (less : few ≤ many) :
    s.channels few <+: s.channels many := by
  obtain ⟨more, rfl⟩ := Nat.exists_eq_add_of_le less
  rw [channels, channels, List.range_add, List.map_append]
  exact List.prefix_append _ _

/-- No frame is in progress without the transmitter. -/
def Rests (s : Sender) : Prop := s.transmits = false → s.dmx_index = 0

theorem Rests.txVect {s : Sender} (rests : s.Rests) : s.txVect.Rests := by
  unfold Sender.txVect
  split_ifs with transmits
  · exact fun off => absurd (transmits.symm.trans off) (by decide)
  · exact fun _ => rfl
  · exact rests

theorem Rests.periodic {s : Sender} (rests : s.Rests) (interrupts : Nat) :
    (s.dmxPeriodic interrupts).Rests := by
  rw [dmxPeriodic]
  by_cases first : s.dmx_index = 0
  · rw [if_pos first]
    exact fun (off : true = false) => absurd off.symm Bool.false_ne_true
  · rw [if_neg first]
    exact rests

/-- A transmitter that has sent frames of the same channels since it was in its first state, with what it
has sent. -/
structure Sending (first : Sender) (sent : List Line) (s : Sender) : Prop where
  data : s.dmx_data = first.dmx_data
  txlen : s.dmx_txlen = first.dmx_txlen
  prg : s.dmx_prg ≠ 1
  rests : s.Rests
  line : s.line = first.line ++ sent
  complete : ∀ frame ∈ frames sent, frame = first.channels first.dmx_txlen.toNat
  current : ∀ frame ∈ (received sent).current, s.transmits = true ∧
    s.dmx_index.toNat ≤ first.dmx_txlen.toNat ∧ frame = first.channels s.dmx_index.toNat

theorem Sending.start {s : Sender} (prg : s.dmx_prg ≠ 1) (rests : s.Rests) : s.Sending [] s :=
  ⟨rfl, rfl, prg, rests, (List.append_nil _).symm, fun _ among => absurd among List.not_mem_nil,
    fun frame among => absurd among (Option.not_mem_none frame)⟩

variable {first s : Sender} {sent : List Line}

/-- The interrupt sends the next channel or ends the frame. -/
theorem Sending.txVect (sending : first.Sending sent s) : ∃ sent, first.Sending sent s.txVect := by
  by_cases transmits : s.transmits = true
  · by_cases more : s.dmx_index < s.dmx_txlen
    · have step : (s.dmx_index + 1).toNat = s.dmx_index.toNat + 1 := by
        have small := s.dmx_txlen.toNat_lt
        have less := UInt8.lt_iff_toNat_lt.mp more
        rw [UInt8.toNat_add, UInt8.toNat_one, Nat.mod_eq_of_lt (by omega)]
      refine ⟨sent ++ [.slot (s.dmx_data s.dmx_index.toNat)], ?_⟩
      rw [Sender.txVect, if_pos transmits, if_pos more]
      refine ⟨sending.data, sending.txlen, sending.prg, ?_, ?_, ?_, ?_⟩
      · exact fun off => absurd (transmits.symm.trans off) (by decide)
      · rw [sending.line, List.append_assoc]
      · rw [frames, received_append]
        exact sending.complete
      · rw [received_append]
        rintro frame among
        obtain ⟨before, current, rfl⟩ := Option.map_eq_some_iff.mp among
        obtain ⟨-, -, same⟩ := sending.current before current
        refine ⟨transmits, ?_, ?_⟩
        · rw [step, ← sending.txlen]
          exact UInt8.lt_iff_toNat_lt.mp more
        · rw [step, channels_succ, same, sending.data]
    · refine ⟨sent ++ [.off], ?_⟩
      rw [Sender.txVect, if_pos transmits, if_neg more]
      refine ⟨sending.data, sending.txlen, sending.prg, fun _ => rfl, ?_, ?_, ?_⟩
      · rw [Sender.dmxTxStop, sending.line, List.append_assoc]
      · rw [frames, received_append]
        refine List.forall_mem_append.mpr ⟨sending.complete, fun frame among => ?_⟩
        obtain ⟨-, inside, same⟩ := sending.current frame (Option.mem_toList.mp among)
        have out : first.dmx_txlen.toNat ≤ s.dmx_index.toNat := by
          rw [← sending.txlen]
          exact Nat.not_lt.mp fun less => more (UInt8.lt_iff_toNat_lt.mpr less)
        rw [same, Nat.le_antisymm inside out]
      · rw [received_append]
        exact fun frame among => absurd among (Option.not_mem_none frame)
  · refine ⟨sent, ?_⟩
    rw [Sender.txVect, if_neg transmits]
    exact sending

theorem iterate_txVect (off : s.transmits = false) (interrupts : Nat) :
    Sender.txVect^[interrupts] s = s := by
  refine Function.iterate_fixed ?_ _
  rw [Sender.txVect, if_neg (by rw [off]; exact Bool.false_ne_true)]

/-- A frame is started when no frame is in progress. -/
theorem dmxPeriodic_off (prg : s.dmx_prg ≠ 1) (rest : s.dmx_index = 0) (off : s.transmits = false)
    (interrupts : Nat) : s.dmxPeriodic interrupts = s.dmxTxStart := by
  rw [dmxPeriodic, if_pos rest]
  dsimp only
  rw [if_neg prg, iterate_txVect off]

theorem Sending.periodic (sending : first.Sending sent s)
    (timely : s.dmx_index = 0 → s.transmits = false) (interrupts : Nat) :
    ∃ sent, first.Sending sent (s.dmxPeriodic interrupts) := by
  by_cases rest : s.dmx_index = 0
  · refine ⟨sent ++ [.reset], ?_⟩
    rw [dmxPeriodic_off sending.prg rest (timely rest)]
    refine ⟨sending.data, sending.txlen, sending.prg, ?_, ?_, ?_, ?_⟩
    · exact fun (off : true = false) => absurd off.symm Bool.false_ne_true
    · rw [dmxTxStart, sending.line, List.append_assoc]
    · rw [frames, received_append]
      exact sending.complete
    · rw [received_append]
      intro frame among
      obtain rfl := Option.mem_some_iff.mp among
      have zero : s.dmxTxStart.dmx_index = 0 := rest
      rw [zero]
      exact ⟨rfl, Nat.zero_le _, rfl⟩
  · refine ⟨sent, ?_⟩
    rw [dmxPeriodic, if_neg rest]
    exact sending

/-- The interrupts send the rest of a frame. -/
theorem iterate_txVect_frame (left : Nat) (transmits : s.transmits = true)
    (place : s.dmx_index.toNat + left = s.dmx_txlen.toNat ∨ left = 0 ∧ s.dmx_txlen ≤ s.dmx_index) :
    Sender.txVect^[left + 1] s =
      { s with
        transmits := false
        dmx_index := 0
        line := s.line ++ (List.range' s.dmx_index.toNat left).map (fun k => Line.slot (s.dmx_data k)) ++
          [.off] } := by
  induction left generalizing s with
  | zero =>
      have out : ¬s.dmx_index < s.dmx_txlen := by
        rw [UInt8.lt_iff_toNat_lt]
        obtain same | ⟨-, less⟩ := place
        · omega
        · exact Nat.not_lt.mpr (UInt8.le_iff_toNat_le.mp less)
      rw [Function.iterate_one, Sender.txVect, if_pos transmits, if_neg out]
      simp [dmxTxStop]
  | succ left ih =>
      have place := place.resolve_right fun zero => Nat.succ_ne_zero _ zero.1
      have more : s.dmx_index < s.dmx_txlen := UInt8.lt_iff_toNat_lt.mpr (by omega)
      have small := s.dmx_txlen.toNat_lt
      have step : (s.dmx_index + 1).toNat = s.dmx_index.toNat + 1 := by
        rw [UInt8.toNat_add, UInt8.toNat_one, Nat.mod_eq_of_lt (by omega)]
      let next : Sender := { s with
        line := s.line ++ [.slot (s.dmx_data s.dmx_index.toNat)]
        dmx_index := s.dmx_index + 1 }
      have sends : s.txVect = next := by rw [Sender.txVect, if_pos transmits, if_pos more]
      have rest : next.dmx_index.toNat + left = next.dmx_txlen.toNat := by
        change (s.dmx_index + 1).toNat + left = s.dmx_txlen.toNat
        rw [step]
        omega
      rw [Function.iterate_succ_apply, sends, ih (s := next) transmits (.inl rest), List.range'_succ]
      simp [next, step]

/-- All interrupts up to the end of a frame. -/
theorem exists_off (rests : s.Rests) : ∃ interrupts sent,
    Sender.txVect^[interrupts] s =
      { s with
        transmits := false
        dmx_index := 0
        line := s.line ++ sent } := by
  cases transmits : s.transmits with
  | false =>
      refine ⟨0, [], ?_⟩
      rw [List.append_nil, ← rests transmits, ← transmits]
      rfl
  | true =>
      by_cases more : s.dmx_index.toNat ≤ s.dmx_txlen.toNat
      · have frame := iterate_txVect_frame _ transmits (.inl (Nat.add_sub_cancel' more))
        exact ⟨_, _, by rw [frame, List.append_assoc]⟩
      · have out : s.dmx_txlen ≤ s.dmx_index := UInt8.le_iff_toNat_le.mpr (Nat.le_of_not_le more)
        have frame := iterate_txVect_frame 0 transmits (.inr ⟨rfl, out⟩)
        exact ⟨_, _, by rw [frame, List.append_assoc]⟩

/-- A frame from its start on. -/
theorem iterate_txVect_start (rest : s.dmx_index = 0) :
    Sender.txVect^[s.dmx_txlen.toNat + 1] s.dmxTxStart =
      { s with
        transmits := false
        dmx_index := 0
        line := s.line ++ [.reset] ++ (s.channels s.dmx_txlen.toNat).map .slot ++ [.off] } := by
  have place : s.dmxTxStart.dmx_index.toNat + s.dmx_txlen.toNat = s.dmxTxStart.dmx_txlen.toNat := by
    change s.dmx_index.toNat + _ = _
    rw [rest]
    exact Nat.zero_add _
  rw [iterate_txVect_frame _ rfl (.inl place), channels, List.map_map, List.range_eq_range']
  change _ = { s with
    transmits := false
    dmx_index := 0
    line := _ }
  simp only [dmxTxStart, rest]
  rfl

end Sender

/-! ## Runs behind a packet -/

section Runs

variable {maxChan : Nat} {n : Node} {d : Datagram} {channels : List UInt8}

/-- A packet for the node changes its channels and stops the program that fades the colors. -/
theorem artnetGet_of_outputs (outputs : n.Outputs d) (direction : n.artnet_dmxDirection = 0) :
    n.artnetGet maxChan d =
      { n with dmx := { n.dmx with
        dmx_data := fun k => if k < min d.announced maxChan then d.dataStart k else n.dmx.dmx_data k
        dmx_prg := 0 } } := by
  have len : (if d.announced > maxChan then maxChan else d.announced) = min d.announced maxChan := by
    split_ifs with more
    · exact (Nat.min_eq_right (Nat.le_of_lt more)).symm
    · exact (Nat.min_eq_left (Nat.le_of_not_lt more)).symm
  rw [Node.artnetGet, if_pos ⟨outputs, direction⟩, len]

theorem artnetGet_of_not (other : ¬n.Outputs d) : n.artnetGet maxChan d = n :=
  if_neg fun both => other both.1

theorem parseCmdDmxSet6chan_rests {numbers : List UInt16} {s next : Sender}
    (run : s.parseCmdDmxSet6chan numbers = some next) : next.dmx_index = 0 := by
  unfold Sender.parseCmdDmxSet6chan at run
  split at run
  · split_ifs at run
    · rw [← Option.some.inj run]
    · rw [← Option.some.inj run]
  · cases run

/-- What every event keeps: no frame is in progress without the transmitter, and the direction of the
node is the one to the line. -/
theorem step_rests (event : Event) (rests : n.dmx.Rests ∧ n.artnet_dmxDirection = 0) :
    (n.step maxChan event).dmx.Rests ∧ (n.step maxChan event).artnet_dmxDirection = 0 := by
  refine ⟨?_, ?_⟩
  · cases event with
    | datagram d =>
        rw [Node.step]
        by_cases outputs : n.Outputs d.terminated
        · rw [artnetGet_of_outputs outputs rests.2]
          exact rests.1
        · rw [artnetGet_of_not outputs]
          exact rests.1
    | set6chan numbers =>
        rw [Node.step]
        cases run : n.dmx.parseCmdDmxSet6chan numbers with
        | none => exact rests.1
        | some dmx => exact fun _ => parseCmdDmxSet6chan_rests run
    | fade => exact rests.1
    | poll interrupts => exact rests.1.periodic interrupts
    | transmitted => exact rests.1.txVect
  · cases event with
    | datagram d =>
        rw [Node.step]
        by_cases outputs : n.Outputs d.terminated
        · rw [artnetGet_of_outputs outputs rests.2]
          exact rests.2
        · rw [artnetGet_of_not outputs]
          exact rests.2
    | set6chan | fade | poll | transmitted => exact rests.2

theorem run_rests (events : List Event) :
    (events.foldl (Node.step maxChan) Node.start).dmx.Rests ∧
      (events.foldl (Node.step maxChan) Node.start).artnet_dmxDirection = 0 :=
  List.foldlRecOn (motive := fun node => node.dmx.Rests ∧ node.artnet_dmxDirection = 0) events
    (Node.step maxChan) ⟨fun _ => rfl, rfl⟩ fun _ rests event _ => step_rests event rests

theorem foldl_transmitted (interrupts : Nat) :
    (List.replicate interrupts Event.transmitted).foldl (Node.step maxChan) n =
      { n with dmx := Sender.txVect^[interrupts] n.dmx } := by
  induction interrupts generalizing n with
  | zero => rfl
  | succ interrupts ih => exact ih

theorem eachMeets_transmitted (interrupts : Nat) {rest : List Event} :
    EachMeets (Node.step maxChan) Node.Quiet n (List.replicate interrupts Event.transmitted ++ rest) ↔
      EachMeets (Node.step maxChan) Node.Quiet { n with dmx := Sender.txVect^[interrupts] n.dmx }
        rest := by
  induction interrupts generalizing n with
  | zero => exact Iff.rfl
  | succ interrupts ih => exact (and_iff_right trivial).trans ih

/-- Up to the next update, all frames that are started have the channels the transmitter sends. -/
theorem Quiet.sending {node : Node} {event : Event} (meets : node.Quiet event) {first : Sender}
    (before : ∃ sent, first.Sending sent node.dmx) :
    ∃ sent, first.Sending sent (node.step maxChan event).dmx := by
  obtain ⟨sent, sending⟩ := before
  cases event with
  | datagram d =>
      rw [Node.step, artnetGet_of_not meets]
      exact ⟨sent, sending⟩
  | set6chan numbers =>
      rw [Node.step, show node.dmx.parseCmdDmxSet6chan numbers = none from meets]
      exact ⟨sent, sending⟩
  | fade => exact absurd meets id
  | poll interrupts => exact sending.periodic meets interrupts
  | transmitted => exact sending.txVect

theorem shows_of_prefix (prg : n.dmx.dmx_prg ≠ 1) (rests : n.dmx.Rests)
    (among : channels <+: n.dmx.channels n.dmx.dmx_txlen.toNat) : n.Shows maxChan channels := by
  intro events quiet frame received
  have keeps (node : Node) (event : Event) (before : ∃ sent, n.dmx.Sending sent node.dmx)
      (meets : node.Quiet event) : ∃ sent, n.dmx.Sending sent (node.step maxChan event).dmx :=
    Quiet.sending meets before
  obtain ⟨sent, sending⟩ := quiet.invariant keeps ⟨[], Sender.Sending.start prg rests⟩
  rw [sending.line, List.drop_left] at received
  rw [sending.complete frame received]
  exact among

/-- A frame with all channels the transmitter sends is started sooner or later. -/
theorem prefix_of_shows (prg : n.dmx.dmx_prg ≠ 1) (rests : n.dmx.Rests)
    (all : n.Shows maxChan channels) : channels <+: n.dmx.channels n.dmx.dmx_txlen.toNat := by
  obtain ⟨interrupts, sent, off⟩ := Sender.exists_off rests
  let idle : Sender := { n.dmx with
    transmits := false
    dmx_index := 0
    line := n.dmx.line ++ sent }
  have program : idle.dmx_prg ≠ 1 := prg
  have polled : idle.dmxPeriodic 0 = idle.dmxTxStart := Sender.dmxPeriodic_off program rfl rfl 0
  have whole := Sender.iterate_txVect_start (s := idle) rfl
  let events : List Event := List.replicate interrupts Event.transmitted ++ Event.poll 0 ::
    (List.replicate (n.dmx.dmx_txlen.toNat + 1) Event.transmitted ++ [])
  have quiet : EachMeets (Node.step maxChan) Node.Quiet n events := by
    rw [eachMeets_transmitted, off]
    refine ⟨fun _ => rfl, ?_⟩
    rw [eachMeets_transmitted]
    trivial
  have run : (events.foldl (Node.step maxChan) n).dmx.line =
      n.dmx.line ++
        (sent ++ [.reset] ++ (n.dmx.channels n.dmx.dmx_txlen.toNat).map .slot ++ [.off]) := by
    rw [List.foldl_append, foldl_transmitted, off, List.foldl_cons, List.append_nil, foldl_transmitted]
    change (Sender.txVect^[n.dmx.dmx_txlen.toNat + 1] (idle.dmxPeriodic 0)).line = _
    rw [polled]
    refine (congrArg Sender.line whole).trans ?_
    simp only [List.append_assoc, idle]
    rfl
  refine all events quiet _ ?_
  rw [run, List.drop_left]
  exact mem_frames sent _

/-! ## One packet -/

theorem read_stale {k : Nat} (within : k < d.uip_len) (stale : Bytes) :
    ({ d with stale } : Datagram).read k = d.read k := by
  have within : k < d.bytes.length := within
  rw [Datagram.read, Datagram.read, List.getD_eq_getElem _ _ within, List.getD_eq_getElem _ _ within]

/-- The header of a packet is in the datagram. -/
theorem header_stale (long : 18 ≤ d.uip_len) (stale : Bytes) :
    ({ d with stale } : Datagram).announced = d.announced ∧
      (n.Outputs { d with stale } ↔ n.Outputs d) := by
  have same (k : Nat) (less : k < 18) : ({ d with stale } : Datagram).read k = d.read k :=
    read_stale (lt_of_lt_of_le less long) stale
  have name : ({ d with stale } : Datagram).id = d.id :=
    List.map_congr_left fun k among => same k (lt_trans (List.mem_range.mp among) (by decide))
  refine ⟨?_, ?_⟩
  · rw [Datagram.announced, same 16 (by decide), same 17 (by decide)]
    rfl
  · rw [Node.Outputs, name, Datagram.opcode, same 8 (by decide), same 9 (by decide), Datagram.universeOf,
      same 14 (by decide), same 15 (by decide)]
    rfl

theorem shown_iff (rests : n.dmx.Rests) (outputs : n.Outputs d) (direction : n.artnet_dmxDirection = 0) :
    (n.artnetGet maxChan d).Shows maxChan
        ((List.range (min d.announced maxChan)).map fun k => d.dataStart k) ↔
      min d.announced maxChan ≤ n.dmx.dmx_txlen.toNat := by
  let next := n.artnetGet maxChan d
  have taken : next = _ := artnetGet_of_outputs outputs direction
  have program : next.dmx.dmx_prg ≠ 1 := by
    rw [taken]
    exact fun (zero : (0 : UInt8) = 1) => absurd zero (by decide)
  have rests : next.dmx.Rests := by
    rw [taken]
    exact rests
  have txlen : next.dmx.dmx_txlen = n.dmx.dmx_txlen := by rw [taken]
  have channels : ((List.range (min d.announced maxChan)).map fun k => d.dataStart k) =
      next.dmx.channels (min d.announced maxChan) := by
    rw [Sender.channels, taken]
    refine List.map_congr_left fun k among => ?_
    exact (if_pos (List.mem_range.mp among)).symm
  rw [channels]
  refine ⟨fun all => ?_, fun less => ?_⟩
  · have few := (prefix_of_shows program rests all).length_le
    rw [Sender.channels, Sender.channels, List.length_map, List.length_map, List.length_range,
      List.length_range, txlen] at few
    exact few
  · refine shows_of_prefix program rests (Sender.channels_prefix _ ?_)
    rw [txlen]
    exact less

theorem inside_iff (long : 18 ≤ d.uip_len) (outputs : n.Outputs d)
    (direction : n.artnet_dmxDirection = 0) (short : d.uip_len < 18 + d.announced) :
    (∀ stale, (n.artnetGet maxChan { d with stale }).dmx = (n.artnetGet maxChan d).dmx) ↔
      18 + maxChan ≤ d.uip_len := by
  have taken (stale : Bytes) : n.artnetGet maxChan { d with stale } = _ :=
    artnetGet_of_outputs ((header_stale long stale).2.mpr outputs) direction
  rw [artnetGet_of_outputs outputs direction]
  refine ⟨fun all => ?_, fun enough stale => ?_⟩
  · by_contra less
    have stored : d.uip_len - 18 < min d.announced maxChan := by omega
    let stale : Bytes := fun _ => d.dataStart (d.uip_len - 18) + 1
    have same := all stale
    rw [taken stale, (header_stale (n := n) long stale).1] at same
    have byte := congrFun (congrArg Sender.dmx_data same) (d.uip_len - 18)
    dsimp only at byte
    rw [if_pos stored, if_pos stored] at byte
    have outside : ({ d with stale } : Datagram).dataStart (d.uip_len - 18) =
        d.dataStart (d.uip_len - 18) + 1 := by
      rw [Datagram.dataStart, Nat.add_sub_cancel' long]
      exact List.getD_eq_default _ _ (le_refl _)
    have other (ch : UInt8) : ch + 1 ≠ ch := by
      revert ch
      decide +kernel
    exact other _ (outside.symm.trans byte)
  · rw [taken stale, (header_stale (n := n) long stale).1]
    have data : (fun k => if k < min d.announced maxChan then ({ d with stale } : Datagram).dataStart k
        else n.dmx.dmx_data k) =
        fun k => if k < min d.announced maxChan then d.dataStart k else n.dmx.dmx_data k := by
      funext k
      refine ite_congr rfl (fun less => ?_) fun _ => rfl
      exact read_stale (by omega) stale
    rw [data]

/-- An output packet for the universe of the node gets to the line, whatever was done before, if and only
if the transmitter already sends as many channels as the packet has. -/
theorem reaches_iff_covers (maxChan : Nat) (events : List Event) (d : Datagram) (long : 18 ≤ d.uip_len)
    (outputs : (events.foldl (Node.step maxChan) Node.start).Outputs d) :
    (events.foldl (Node.step maxChan) Node.start).Reaches maxChan d ↔
      (events.foldl (Node.step maxChan) Node.start).Covers maxChan d := by
  obtain ⟨rests, direction⟩ := @run_rests maxChan events
  rw [Node.Covers]
  by_cases contained : 18 + d.announced ≤ d.uip_len
  · rw [if_pos contained, ← shown_iff rests outputs direction]
    refine ⟨fun reaches => reaches.shown contained, fun all => ⟨fun _ k less => ?_, fun _ => all, ?_⟩⟩
    · rw [artnetGet_of_outputs outputs direction]
      exact if_pos less
    · exact fun short => absurd short (Nat.not_lt.mpr contained)
  · rw [if_neg contained, ← inside_iff long outputs direction (Nat.lt_of_not_le contained)]
    exact ⟨fun reaches => reaches.inside (Nat.lt_of_not_le contained), fun all =>
      ⟨fun whole => absurd whole contained, fun whole => absurd whole contained, fun _ => all⟩⟩

end Runs

/-- An output packet for universe 0. -/
def packet (channels : List UInt8) : Datagram :=
  ⟨Datagram.artNet ++ [0x00, 0x50, 0, 14, 0, 0, 0, 0, UInt8.ofNat (channels.length / 256),
    UInt8.ofNat channels.length] ++ channels, fun _ => 0⟩

theorem reaches_iff_covers_fourChannels : Node.start.Reaches 512 (packet [1, 2, 3, 4]) :=
  (reaches_iff_covers 512 [] (packet [1, 2, 3, 4]) (by decide) (by decide)).mpr (by decide)

/-- The transmitter sends 50 channels from its start on, and it does not send more for a packet of 51. -/
theorem not_reaches : ¬Node.start.Reaches 512 (packet (List.replicate 51 0xFF)) := by
  intro reaches
  have outputs : Node.start.Outputs (packet (List.replicate 51 0xFF)) := by decide +kernel
  have shown := reaches.shown (by decide +kernel)
  have few := (shown_iff (fun _ => rfl) outputs rfl).mp shown
  revert few
  decide +kernel

end Ethersex.Dmx
