import Mathlib
import Ethersex.Openvpn.Model

/-!
# Packets that are sent again

The packet id of the last packet that was accepted is remembered.  A packet is refused if neither its
timestamp nor its sequence number is greater; so one with an older timestamp gets through when its sequence
number is greater, and takes the place of the newer one.
-/

namespace Ethersex.Openvpn

open Library

/-- A packet with valid authentication, as it is in the buffer. -/
structure Datagram where
  memory : Bytes
  len : Nat
  buf : Block

/-- The packet id that is remembered, and all that were accepted. -/
structure Receiver where
  seen : PacketId
  accepted : List PacketId
  deriving DecidableEq, Repr

/-- The receiver after `openvpn_init`. -/
def Receiver.start : Receiver := ⟨⟨0, 0⟩, []⟩

section Runs

variable (config : Config) (cast5Dec : Block → Block)

/-- The packet id of a datagram. -/
def Datagram.id (datagram : Datagram) : PacketId :=
  readId config (decrypted config cast5Dec datagram.buf datagram.len datagram.memory)

/-- `openvpn_handle_udp`, behind the verification of the HMAC. -/
def Receiver.handleUdp (receiver : Receiver) (datagram : Datagram) : Receiver :=
  match (openvpnDecryptAndVerify config cast5Dec datagram.buf datagram.len datagram.memory receiver.seen).2 with
  | none => receiver
  | some id => ⟨id, id :: receiver.accepted⟩

def Receiver.run : List Datagram → Receiver → Receiver
  | [], receiver => receiver
  | datagram :: rest, receiver => run rest (receiver.handleUdp config cast5Dec datagram)

/-- A packet with an older timestamp has no greater sequence number. -/
def Receiver.Meets (receiver : Receiver) (datagram : Datagram) : Prop :=
  ¬((datagram.id config cast5Dec).timestamp < receiver.seen.timestamp ∧
    receiver.seen.seqno < (datagram.id config cast5Dec).seqno)

instance (receiver : Receiver) (datagram : Datagram) : Decidable (receiver.Meets config cast5Dec datagram) :=
  inferInstanceAs (Decidable (¬_))

def Receiver.AllMeet : List Datagram → Receiver → Prop
  | [], _ => True
  | datagram :: rest, receiver =>
      receiver.Meets config cast5Dec datagram ∧ AllMeet rest (receiver.handleUdp config cast5Dec datagram)

end Runs

/-! ## What was accepted is not newer than what is remembered -/

/-- Packet ids are ordered by their timestamps, and by the sequence numbers for the same time. -/
def PacketId.key (id : PacketId) : ℕ ×ₗ ℕ := toLex (id.timestamp, id.seqno)

structure Receiver.Sound (receiver : Receiver) : Prop where
  older : ∀ id ∈ receiver.accepted, id.key ≤ receiver.seen.key
  nodup : receiver.accepted.Nodup

variable {config : Config} {cast5Dec : Block → Block} {receiver : Receiver}

theorem Receiver.handleUdp_eq (receiver : Receiver) (datagram : Datagram) :
    receiver.handleUdp config cast5Dec datagram =
      if (datagram.id config cast5Dec).timestamp ≤ receiver.seen.timestamp ∧
          (datagram.id config cast5Dec).seqno ≤ receiver.seen.seqno then receiver
      else ⟨datagram.id config cast5Dec, datagram.id config cast5Dec :: receiver.accepted⟩ := by
  rw [handleUdp, openvpnDecryptAndVerify, Datagram.id]
  split <;> split <;> simp_all

theorem Receiver.Sound.handleUdp (sound : receiver.Sound) {datagram : Datagram}
    (meets : receiver.Meets config cast5Dec datagram) : (receiver.handleUdp config cast5Dec datagram).Sound := by
  rw [handleUdp_eq]
  split
  · exact sound
  next accepts =>
    have newer : receiver.seen.key < (datagram.id config cast5Dec).key := by
      rw [Meets] at meets
      rw [PacketId.key, PacketId.key, Prod.Lex.toLex_lt_toLex]
      omega
    refine ⟨fun id member => ?_, List.nodup_cons.mpr ⟨fun again => ?_, sound.nodup⟩⟩
    · rcases List.mem_cons.mp member with rfl | old
      · exact le_rfl
      · exact (sound.older id old).trans newer.le
    · exact absurd (sound.older _ again) (not_le_of_gt newer)

theorem Receiver.Sound.run (sound : receiver.Sound) {datagrams : List Datagram}
    (meet : receiver.AllMeet config cast5Dec datagrams) : (receiver.run config cast5Dec datagrams).Sound := by
  induction datagrams generalizing receiver with
  | nil => exact sound
  | cons datagram rest ih => exact ih (sound.handleUdp meet.1) meet.2

/-- In every run whose packets meet the condition, no packet id is accepted twice. -/
theorem no_replay {datagrams : List Datagram} (meet : Receiver.start.AllMeet config cast5Dec datagrams) :
    (Receiver.start.run config cast5Dec datagrams).accepted.Nodup :=
  have start : Receiver.start.Sound := ⟨nofun, List.nodup_nil⟩
  (start.run meet).nodup

/-! ## Two runs -/

/-- With ethernet, IPv4 and MD5. -/
def smallConfig : Config := ⟨.ethernet, false, true⟩

/-- A packet without a payload; the cipher is the identity. -/
def smallDatagram (timestamp seqno : UInt8) : Datagram where
  memory k := if k = 69 then seqno else if k = 73 then timestamp else 0
  len := 32
  buf := fun _ => 0

/-- The same packet comes again. -/
theorem no_replay_two :
    (Receiver.start.run smallConfig id [smallDatagram 1 5, smallDatagram 1 5]).accepted.Nodup :=
  no_replay ⟨by decide, by decide, trivial⟩

/-- The same packet comes again, behind one that is newer but has a smaller sequence number. -/
theorem replay_accepted :
    ¬(Receiver.start.run smallConfig id
      [smallDatagram 1 5, smallDatagram 2 3, smallDatagram 1 5]).accepted.Nodup := by
  decide

end Ethersex.Openvpn
