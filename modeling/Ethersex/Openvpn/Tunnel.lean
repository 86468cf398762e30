import Mathlib
import Ethersex.Crypto.Cast5
import Ethersex.Library.SequenceNumbers
import Ethersex.Library.Walks
import Ethersex.Openvpn.Hmac
import Ethersex.Openvpn.RoundTrip

/-!
# A tunnel

Two nodes with the same keys.  One of them sends packets of its inner stack, and the network delivers copies of
what has been sent, in any order, as often as it likes or never.  The packet ids of this implementation have no
timestamp, so that the other one takes those packets that are newer than all that it has taken.
-/

namespace Ethersex.Openvpn

open Library Crypto.Md5

/-! ## A packet from one node to the other -/

section Nodes

variable (config : Config) (cast5Enc cast5Dec : Block → Block) (hmacKey : Bytes)

/-- A packet in the buffer. -/
def place (packet : List UInt8) (ptr : Nat) (memory : Bytes) : Bytes := fun k =>
  if ptr ≤ k ∧ k < ptr + packet.length then packet.getD (k - ptr) 0 else memory k

/-- `openvpn_hmac_create`. -/
def openvpnHmacCreate (slen : Nat) (memory : Bytes) : Bytes :=
  if config.md5 then
    let src : Bytes := fun k => memory (config.llhLen + config.hmacLlhLen + k)
    place (bytes 16 (openvpnHmacCalc hmacKey src (slen - config.hmacLlhLen))) config.llhLen memory
  else memory

/-- `openvpn_process_out`: the `uip_slen` bytes from `uip_sappdata` on. -/
def transmit (iv : Block) (seqno : Nat) (inner : List UInt8) (memory : Bytes) : List UInt8 :=
  let out := openvpnProcessOut config cast5Enc iv seqno inner.length (place inner Config.baseLlhLen memory)
  let memory := openvpnHmacCreate config hmacKey out.2 out.1
  bytes out.2 fun k => memory (config.appdata + k)

/-- `openvpn_hmac_verify` succeeds. -/
def openvpnHmacVerify (len : Nat) (memory : Bytes) : Bool :=
  !config.md5 || bytes 16 (openvpnHmacCalc hmacKey (fun k => memory (config.appdata + 16 + k)) (len - 16)) =
    bytes 16 fun k => memory (config.appdata + k)

/-- `openvpn_handle_udp`: the packet that goes to the inner stack, and the packet id that is remembered. -/
def openvpnHandleUdp (buf : Block) (packet : List UInt8) (memory : Bytes) (seen : PacketId) :
    Option (List UInt8) × PacketId :=
  let len := packet.length
  let memory := place packet config.appdata memory
  if openvpnHmacVerify config hmacKey len memory then
    let verified := openvpnDecryptAndVerify config cast5Dec buf len memory seen
    match verified.2 with
    | none => (none, seen)
    | some id =>
      let memory := memmove Config.baseLlhLen config.totalLlhLen (len - config.hmacCryptLen) verified.1
      (some (bytes (len - config.hmacCryptLen) fun k => memory (Config.baseLlhLen + k)), id)
  else (none, seen)

end Nodes

/-- The packet of the inner stack, with the bytes that fill up its last block. -/
def filled (inner : List UInt8) : List UInt8 :=
  let count := 8 - inner.length % 8
  inner ++ List.replicate count (UInt8.ofNat count)

section Packet

variable {config : Config} {cast5Enc cast5Dec : Block → Block} {hmacKey : Bytes} {iv buf : Block} {seqno : Nat}
  {inner : List UInt8} {memory : Bytes}

theorem place_apply (packet : List UInt8) (ptr : Nat) (memory : Bytes) {k : Nat} (inside : k < packet.length) :
    place packet ptr memory (ptr + k) = packet.getD k 0 := by
  rw [place, if_pos ⟨by omega, by omega⟩, Nat.add_sub_cancel_left]

theorem place_apply_of_ge (packet : List UInt8) (ptr : Nat) (memory : Bytes) {k : Nat} (behind : packet.length ≤ k) :
    place packet ptr memory (ptr + k) = memory (ptr + k) := by
  rw [place, if_neg (by omega)]

theorem bytes_congr {count : Nat} {left right : Bytes} (agree : AgreeTo count left right) :
    bytes count left = bytes count right :=
  List.map_congr_left fun k member => agree k (List.mem_range.mp member)

/-- The authentication depends on the bytes of the packet alone. -/
theorem openvpnHmacCalc_congr {count : Nat} (small : count < 8192) {left right : Bytes}
    (agree : AgreeTo count left right) :
    bytes 16 (openvpnHmacCalc hmacKey left count) = bytes 16 (openvpnHmacCalc hmacKey right count) := by
  rw [openvpnHmacCalc_eq _ _ _ small, openvpnHmacCalc_eq _ _ _ small, bytes_congr agree]

theorem bytes_getD_self {count k : Nat} (memory : Bytes) (inside : k < count) :
    (bytes count memory).getD k 0 = memory k := by
  have same := bytes_getD memory inside []
  rwa [List.append_nil] at same

/-- What is sent, behind the authentication. -/
theorem transmit_getD (ethernet : config.link = .ethernet) {k : Nat} (behind : config.hmacLlhLen ≤ k)
    (inside : k < (transmit config cast5Enc hmacKey iv seqno inner memory).length) :
    (transmit config cast5Enc hmacKey iv seqno inner memory).getD k 0 =
      (sent config cast5Enc iv seqno inner.length (place inner Config.baseLlhLen memory)).1 (config.appdata + k) := by
  have start : config.llhLen = config.appdata := by
    rw [Config.llhLen, ethernet]
    rfl
  rw [transmit, length_bytes] at inside
  rw [transmit, bytes_getD_self _ inside, openvpnHmacCreate, start]
  split_ifs with authenticated
  · have long : config.hmacLlhLen = 16 := if_pos authenticated
    exact place_apply_of_ge _ _ _ (by rw [length_bytes]; omega)
  · rfl

/-- The authentication that is sent. -/
theorem transmit_hmac (ethernet : config.link = .ethernet) (authenticated : config.md5 = true) {k : Nat}
    (front : k < 16)
    (inside : k < (transmit config cast5Enc hmacKey iv seqno inner memory).length) :
    (transmit config cast5Enc hmacKey iv seqno inner memory).getD k 0 =
      openvpnHmacCalc hmacKey
        (fun k => (sent config cast5Enc iv seqno inner.length (place inner Config.baseLlhLen memory)).1
          (config.appdata + 16 + k))
        ((transmit config cast5Enc hmacKey iv seqno inner memory).length - 16) k := by
  have start : config.llhLen = config.appdata := by
    rw [Config.llhLen, ethernet]
    rfl
  have long : config.hmacLlhLen = 16 := if_pos authenticated
  rw [transmit, length_bytes] at inside ⊢
  rw [bytes_getD_self _ inside, openvpnHmacCreate, if_pos authenticated, start, long]
  rw [place_apply _ _ _ (by rw [length_bytes]; exact front), bytes_getD_self _ front]
  rfl

/-- The length of what is sent. -/
theorem length_transmit :
    (transmit config cast5Enc hmacKey iv seqno inner memory).length =
      inner.length + config.hmacCryptLen + (8 - inner.length % 8) := by
  have length : (transmit config cast5Enc hmacKey iv seqno inner memory).length = paddedLength config inner.length :=
    length_bytes _ _
  have hmac := hmacLlhLen_mod config
  have crypt : config.hmacCryptLen = config.hmacLlhLen + 16 := rfl
  rw [length, paddedLength]
  omega

/-- The network brings what has been sent, and the authentication is right. -/
theorem verify_transmit (ethernet : config.link = .ethernet) (small : inner.length < 8000) (received : Bytes) :
    openvpnHmacVerify config hmacKey (transmit config cast5Enc hmacKey iv seqno inner memory).length
      (place (transmit config cast5Enc hmacKey iv seqno inner memory) config.appdata received) = true := by
  have length : (transmit config cast5Enc hmacKey iv seqno inner memory).length =
    inner.length + config.hmacCryptLen + (8 - inner.length % 8) := length_transmit
  rw [openvpnHmacVerify]
  cases authenticated : config.md5 with
  | false => rfl
  | true =>
    have long : config.hmacLlhLen = 16 := if_pos authenticated
    have crypt : config.hmacCryptLen = config.hmacLlhLen + 16 := rfl
    rw [Bool.not_true, Bool.false_or, decide_eq_true_eq]
    generalize packet_eq : transmit config cast5Enc hmacKey iv seqno inner memory = packet at length ⊢
    have body : AgreeTo (packet.length - 16) (fun k => place packet config.appdata received (config.appdata + 16 + k))
        (fun k => (sent config cast5Enc iv seqno inner.length (place inner Config.baseLlhLen memory)).1
          (config.appdata + 16 + k)) := by
      intro k inside
      dsimp only
      rw [Nat.add_assoc, place_apply _ _ _ (by omega), ← packet_eq]
      exact transmit_getD ethernet (by omega) (by rw [packet_eq]; omega)
    rw [openvpnHmacCalc_congr (by omega) body]
    refine bytes_congr fun k front => ?_
    have sends : k < (transmit config cast5Enc hmacKey iv seqno inner memory).length := by
      rw [packet_eq]
      omega
    rw [place_apply _ _ _ (by omega), ← packet_eq, transmit_hmac ethernet authenticated front sends]

theorem getElem_bytes {count k : Nat} (memory : Bytes) (inside : k < (bytes count memory).length) :
    (bytes count memory)[k] = memory k := by
  simp [bytes]

/-- What goes to the inner stack. -/
theorem bytes_memmove {plain : Bytes} (ethernet : config.link = .ethernet) (inner : List UInt8)
    (payload : ∀ k < inner.length, plain (config.appdata + config.hmacCryptLen + k) = inner.getD k 0)
    (padding : ∀ k, inner.length + config.hmacCryptLen ≤ k →
      k < inner.length + config.hmacCryptLen + (8 - inner.length % 8) →
      plain (config.appdata + k) = UInt8.ofNat (8 - inner.length % 8)) :
    (bytes (inner.length + (8 - inner.length % 8)) fun k =>
      memmove Config.baseLlhLen config.totalLlhLen (inner.length + (8 - inner.length % 8)) plain
        (Config.baseLlhLen + k)) = filled inner := by
  have start : config.totalLlhLen = config.appdata + config.hmacCryptLen := by
    rw [Config.totalLlhLen, Config.llhLen, ethernet]
    rfl
  refine List.ext_getElem (by simp [filled]) fun k inside _ => ?_
  rw [length_bytes] at inside
  rw [getElem_bytes, memmove, if_pos ⟨by omega, by omega⟩, Nat.add_sub_cancel_left, start]
  by_cases front : k < inner.length
  · rw [payload k front, List.getD_eq_getElem _ _ front]
    exact (List.getElem_append_left front).symm
  · have rest := padding (config.hmacCryptLen + k) (by omega) (by omega)
    rw [Nat.add_assoc, rest]
    simp only [filled]
    rw [List.getElem_append_right (by omega), List.getElem_replicate]

/-- What one node sends, the other one gets, if it is newer than what it has got. -/
theorem handleUdp_transmit (ethernet : config.link = .ethernet) (inverts : ∀ block, cast5Dec (cast5Enc block) = block)
    (small : inner.length < 8000) (seen : PacketId) (received : Bytes) :
    openvpnHandleUdp config cast5Dec hmacKey buf (transmit config cast5Enc hmacKey iv seqno inner memory) received
      seen =
      if seqno % 2 ^ 32 ≤ seen.seqno then (none, seen) else (some (filled inner), ⟨0, seqno % 2 ^ 32⟩) := by
  have length : (transmit config cast5Enc hmacKey iv seqno inner memory).length =
    inner.length + config.hmacCryptLen + (8 - inner.length % 8) := length_transmit
  have trips : RoundTrips config cast5Enc cast5Dec iv seqno inner.length (place inner Config.baseLlhLen memory) :=
    roundTrips_ethernet ethernet inverts
  have sentLength : (sent config cast5Enc iv seqno inner.length (place inner Config.baseLlhLen memory)).2 =
    (transmit config cast5Enc hmacKey iv seqno inner memory).length := (length_bytes _ _).symm
  have verified : openvpnHmacVerify config hmacKey (transmit config cast5Enc hmacKey iv seqno inner memory).length
      (place (transmit config cast5Enc hmacKey iv seqno inner memory) config.appdata received) = true :=
    verify_transmit ethernet small received
  have agree : ∀ k, config.hmacLlhLen ≤ k →
      k < (sent config cast5Enc iv seqno inner.length (place inner Config.baseLlhLen memory)).2 →
      place (transmit config cast5Enc hmacKey iv seqno inner memory) config.appdata received (config.appdata + k) =
        (sent config cast5Enc iv seqno inner.length (place inner Config.baseLlhLen memory)).1 (config.appdata + k) := by
    intro k behind inside
    rw [sentLength] at inside
    rw [place_apply _ _ _ inside, transmit_getD ethernet behind inside]
  obtain ⟨payload, padding, id, -⟩ := trips.recovers buf _ seen agree
  rw [sentLength] at padding
  have opened : ∀ received, plain config cast5Enc cast5Dec iv seqno inner.length (place inner Config.baseLlhLen memory)
      buf received seen = decrypted config cast5Dec buf
        (transmit config cast5Enc hmacKey iv seqno inner memory).length received := by
    intro received
    rw [plain_eq_decrypted, ← sentLength]
    rfl
  rw [opened] at payload padding id
  generalize transmit config cast5Enc hmacKey iv seqno inner memory = packet at *
  have zero : 0 ≤ seen.timestamp := Nat.zero_le _
  rw [openvpnHandleUdp, if_pos verified, openvpnDecryptAndVerify, id]
  simp only [zero, true_and]
  split_ifs with old
  · rfl
  · have count : packet.length - config.hmacCryptLen = inner.length + (8 - inner.length % 8) := by omega
    simp only [count]
    rw [bytes_memmove ethernet inner]
    · intro k inside
      rw [payload k inside, place_apply _ _ _ inside]
    · intro k behind inside
      have left : packet.length - (inner.length + config.hmacCryptLen) = 8 - inner.length % 8 := by omega
      rw [padding k behind (by omega), left]

end Packet

/-! ## Runs -/

/-- What the two nodes have done: the packets of the inner stack that have been sent and what has become of them on
the wire, the packet id that is remembered, the packets that have arrived, and those that went to the inner stack. -/
structure Tunnel where
  nextSeqno : Nat
  inners : List (List UInt8)
  wire : List (List UInt8)
  seen : PacketId
  arrived : List Nat
  delivered : List (List UInt8)

inductive TunnelEvent where
  | send (inner : List UInt8) (iv : Block) (memory : Bytes)
  | arrive (copy : Nat) (buf : Block) (memory : Bytes)

namespace Tunnel

/-- Both nodes after `openvpn_init`. -/
def start : Tunnel := ⟨1, [], [], ⟨0, 0⟩, [], []⟩

section Step

variable (config : Config) (cast5Enc cast5Dec : Block → Block) (hmacKey : Bytes)

def step (tunnel : Tunnel) : TunnelEvent → Tunnel
  | .send inner iv memory =>
    { tunnel with
      nextSeqno := tunnel.nextSeqno + 1
      inners := tunnel.inners ++ [inner]
      wire := tunnel.wire ++ [transmit config cast5Enc hmacKey iv tunnel.nextSeqno inner memory] }
  | .arrive copy buf memory =>
    match tunnel.wire[copy]? with
    | none => tunnel
    | some packet =>
      let handled := openvpnHandleUdp config cast5Dec hmacKey buf packet memory tunnel.seen
      { tunnel with
        seen := handled.2
        arrived := tunnel.arrived ++ [copy]
        delivered := tunnel.delivered ++ handled.1.toList }

/-- The packets fit into the buffer, and the numbers do not begin again. -/
def Fits (tunnel : Tunnel) : TunnelEvent → Prop
  | .send inner _ _ => inner.length < 8000 ∧ tunnel.inners.length + 1 < 2 ^ 32
  | .arrive _ _ _ => True

end Step

/-- What has been delivered are the packets that were newer than all before them when they arrived. -/
structure Sound (config : Config) (cast5Enc : Block → Block) (hmacKey : Bytes) (tunnel : Tunnel) : Prop where
  next : tunnel.nextSeqno = tunnel.inners.length + 1
  short : tunnel.inners.length < 2 ^ 32
  small : ∀ inner ∈ tunnel.inners, inner.length < 8000
  count : tunnel.wire.length = tunnel.inners.length
  wire : ∀ k, (inside : k < tunnel.inners.length) → ∃ iv memory,
    tunnel.wire.getD k [] = transmit config cast5Enc hmacKey iv (k + 1) tunnel.inners[k] memory
  seen : tunnel.seen = ⟨0, top tunnel.arrived⟩
  inside : top tunnel.arrived ≤ tunnel.inners.length
  delivered : tunnel.delivered = (records tunnel.arrived).map fun k => filled (tunnel.inners.getD k [])

section Runs

variable {config : Config} {cast5Enc cast5Dec : Block → Block} {hmacKey : Bytes} {tunnel : Tunnel}

theorem Sound.start : Tunnel.start.Sound config cast5Enc hmacKey where
  next := rfl
  short := by simp [Tunnel.start]
  small inner member := absurd member List.not_mem_nil
  count := rfl
  wire k inside := absurd inside (Nat.not_lt_zero k)
  seen := rfl
  inside := le_rfl
  delivered := rfl

theorem Sound.send (sound : tunnel.Sound config cast5Enc hmacKey) {inner : List UInt8} (small : inner.length < 8000)
    (room : tunnel.inners.length + 1 < 2 ^ 32) (iv : Block) (memory : Bytes) :
    (tunnel.step config cast5Enc cast5Dec hmacKey (.send inner iv memory)).Sound config cast5Enc hmacKey where
  next := by simp [step, sound.next]
  short := by simpa [step] using room
  small other member := by
    rcases List.mem_append.mp member with old | new
    · exact sound.small other old
    · rw [List.mem_singleton.mp new]
      exact small
  count := by simp [step, sound.count]
  wire k inside := by
    simp only [step, List.length_append, List.length_singleton] at inside ⊢
    by_cases old : k < tunnel.inners.length
    · obtain ⟨iv, memory, same⟩ := sound.wire k old
      refine ⟨iv, memory, ?_⟩
      rw [List.getD_append _ _ _ _ (by rw [sound.count]; exact old), same, List.getElem_append_left old]
    · have last : k = tunnel.inners.length := by omega
      refine ⟨iv, memory, ?_⟩
      rw [List.getD_append_right _ _ _ _ (by rw [sound.count]; omega), List.getElem_append_right (by omega)]
      simp [last, sound.count, sound.next]
  seen := sound.seen
  inside := by
    have inside := sound.inside
    simp only [step, List.length_append, List.length_singleton]
    omega
  delivered := by
    simp only [step]
    rw [sound.delivered]
    refine List.map_congr_left fun k member => ?_
    have old : k < tunnel.inners.length := lt_of_lt_of_le (records_lt _ k member) sound.inside
    rw [List.getD_append _ _ _ _ old]

theorem Sound.arrive (ethernet : config.link = .ethernet) (inverts : ∀ block, cast5Dec (cast5Enc block) = block)
    (sound : tunnel.Sound config cast5Enc hmacKey) (copy : Nat) (buf : Block) (memory : Bytes) :
    (tunnel.step config cast5Enc cast5Dec hmacKey (.arrive copy buf memory)).Sound config cast5Enc hmacKey := by
  rw [step]
  split
  · exact sound
  · rename_i packet known
    obtain ⟨here, same⟩ := List.getElem?_eq_some_iff.mp known
    have inside : copy < tunnel.inners.length := sound.count ▸ here
    obtain ⟨iv, old, sent⟩ := sound.wire copy inside
    rw [List.getD_eq_getElem _ _ here, same] at sent
    have number : (copy + 1) % 2 ^ 32 = copy + 1 := Nat.mod_eq_of_lt (by have short := sound.short; omega)
    have handled : openvpnHandleUdp config cast5Dec hmacKey buf packet memory tunnel.seen =
        if copy + 1 ≤ top tunnel.arrived then (none, tunnel.seen)
        else (some (filled tunnel.inners[copy]), ⟨0, copy + 1⟩) := by
      rw [sent, handleUdp_transmit ethernet inverts (sound.small _ (List.getElem_mem inside)), number, sound.seen]
    rw [handled]
    dsimp only
    refine ⟨sound.next, sound.short, sound.small, sound.count, sound.wire, ?_, ?_, ?_⟩
    · rw [top_append]
      split_ifs with before
      · rw [sound.seen, max_eq_left before]
      · rw [max_eq_right (by omega)]
    · rw [top_append]
      exact max_le sound.inside inside
    · rw [records_append, sound.delivered]
      split_ifs with before new new
      · exact absurd new (by omega)
      · rw [Option.toList_none, List.append_nil]
      · rw [Option.toList_some, List.map_append, List.map_singleton, List.getD_eq_getElem _ _ inside]
      · exact absurd new (by omega)

end Runs

end Tunnel

section Cast5

open Crypto.Cast5

/-- A step of the tunnel with CAST5. -/
def Tunnel.stepCast5 (config : Config) (sboxes : Sboxes) (ctx : Crypto.Cast5.Ctx) (hmacKey : Bytes) :
    Tunnel → TunnelEvent → Tunnel :=
  Tunnel.step config (cast5Enc sboxes ctx) (cast5Dec sboxes ctx) hmacKey

/-- Whatever the tables and the keys are, and whatever the network does: the inner stack gets the packets that were
newer than all before them when they arrived, filled up but else as they were sent; so in the order in which they
were sent, and none of them twice. -/
theorem tunnel_delivers (config : Config) (ethernet : config.link = .ethernet) (sboxes : Sboxes)
    (ctx : Crypto.Cast5.Ctx) (hmacKey : Bytes) {events : List TunnelEvent}
    (fits : EachMeets (Tunnel.stepCast5 config sboxes ctx hmacKey) Tunnel.Fits .start events) :
    let tunnel := events.foldl (Tunnel.stepCast5 config sboxes ctx hmacKey) .start
    tunnel.delivered = ((records tunnel.arrived).map fun k => filled (tunnel.inners.getD k [])) ∧
      tunnel.delivered.Sublist (tunnel.inners.map filled) := by
  have sound : (events.foldl (Tunnel.stepCast5 config sboxes ctx hmacKey) .start).Sound config (cast5Enc sboxes ctx)
      hmacKey := by
    refine fits.invariant (fun tunnel event sound fit => ?_) .start
    cases event with
    | send inner iv memory => exact sound.send fit.1 fit.2 iv memory
    | arrive copy buf memory => exact sound.arrive ethernet cast5Dec_cast5Enc copy buf memory
  refine ⟨sound.delivered, ?_⟩
  rw [sound.delivered]
  have ordered := records_sublist (_ : List (List UInt8)) (filled []) _
    ((List.length_map filled).symm ▸ sound.inside)
  simp only [List.getD_map] at ordered
  exact ordered.trans (List.take_sublist ..)

/-- Two packets are sent; the second one arrives first, then the first one, and then the second one again. -/
def overtaken : List TunnelEvent :=
  [.send [1, 2, 3] (fun _ => 7) fun _ => 0, .send [4] (fun _ => 8) fun _ => 0, .arrive 1 (fun _ => 0) fun _ => 0,
    .arrive 0 (fun _ => 0) fun _ => 0, .arrive 1 (fun _ => 0) fun _ => 0]

def overtakenStep : Tunnel → TunnelEvent → Tunnel :=
  Tunnel.stepCast5 ⟨.ethernet, false, true⟩ ⟨fun _ => 0, fun _ => 0, fun _ => 0, fun _ => 0⟩
    ⟨fun _ => 0, fun _ => 0, fun _ => 0, false⟩ fun _ => 0

theorem overtaken_fits : EachMeets overtakenStep Tunnel.Fits .start overtaken :=
  ⟨⟨by decide, by decide⟩, ⟨by decide, by decide⟩, trivial, trivial, trivial, trivial⟩

theorem tunnel_delivers_overtaken :
    (overtaken.foldl overtakenStep .start).arrived = [1, 0, 1] ∧
      (overtaken.foldl overtakenStep .start).delivered = [[4, 7, 7, 7, 7, 7, 7, 7]] :=
  ⟨rfl, (tunnel_delivers ⟨.ethernet, false, true⟩ rfl _ _ _ overtaken_fits).1⟩

end Cast5

end Ethersex.Openvpn
