import Mathlib
import Ethersex.Library.OnesComplement

/-!
# Forwarding between the stacks

`router_input` takes a packet of IPv4 from one stack, passes it to the stack it is addressed to, or sends it
out on another one with its TTL decremented and its header checksum adjusted in place.  The checksum is a word
of two octets that the little-endian machine reads the other way round: there, the TTL is the less significant
octet of its word.

The chains of the packet filter are generated from the user's rules; a chain passes a packet or drops it.
-/

namespace Ethersex.Uip.Forwarding

open Library

/-- `HTONS` on a little-endian machine. -/
def HTONS (n : UInt16) : UInt16 := ((n &&& 0xff) <<< 8) ||| ((n &&& 0xff00) >>> 8)

/-- An address as two words in the order of the machine. -/
abbrev Ipaddr := UInt16 × UInt16

/-- The octets of a word in the memory. -/
def octets (word : UInt16) : List UInt8 := [word.toUInt8, (word >>> 8).toUInt8]

def uipIpaddrCmp (addr1 addr2 : Ipaddr) : Bool := addr1.1 == addr2.1 && addr1.2 == addr2.2

def uipIpaddrMaskcmp (addr1 addr2 mask : Ipaddr) : Bool :=
  addr1.1 &&& mask.1 == addr2.1 &&& mask.1 && addr1.2 &&& mask.2 == addr2.2 &&& mask.2

/-- What `uip_buf` holds behind the link-layer header: the fields of `struct uip_tcpip_hdr` up to the
addresses, and the octets that follow, options first. -/
structure Packet where
  vhl : UInt8
  tos : UInt8
  len : UInt8 × UInt8
  ipid : UInt8 × UInt8
  ipoffset : UInt8 × UInt8
  ttl : UInt8
  proto : UInt8
  ipchksum : UInt16
  srcipaddr : Ipaddr
  destipaddr : Ipaddr
  rest : List UInt8
  deriving DecidableEq, Repr

/-- The octets of the header, whose length in words of four octets stands in its first octet. -/
def Packet.header (packet : Packet) : List UInt8 :=
  [packet.vhl, packet.tos, packet.len.1, packet.len.2, packet.ipid.1, packet.ipid.2, packet.ipoffset.1,
    packet.ipoffset.2, packet.ttl, packet.proto] ++ octets packet.ipchksum ++ octets packet.srcipaddr.1 ++
    octets packet.srcipaddr.2 ++ octets packet.destipaddr.1 ++ octets packet.destipaddr.2 ++
    packet.rest.take (4 * (packet.vhl &&& 0xf).toNat - 20)

/-- The checksum is correct: the words of the header add up to the second zero. -/
def Packet.Correct (packet : Packet) : Prop := onesSum 65535 (bigEndianWords packet.header) = 65535

instance (packet : Packet) : Decidable packet.Correct :=
  inferInstanceAs (Decidable (_ = _))

/-- One stack of `uip_stacks`. -/
structure Stack where
  hostaddr : Ipaddr
  netmask : Ipaddr

/-- The configuration of the router: the stacks, the default router, whether packets are forwarded, and the
chains of the packet filter. -/
structure Router where
  uipStacks : List Stack
  uipDraddr : Ipaddr
  ipForwardingSupport : Bool
  prerouting : Packet → Bool
  input : Packet → Bool
  forward : Packet → Bool

/-- What becomes of a packet: it is dropped, processed by a stack, or given to `router_output_to`. -/
inductive Routed where
  | dropped
  | processed (dest : Nat) (packet : Packet)
  | forwarded (dest : Nat) (packet : Packet)
  deriving DecidableEq, Repr

namespace Router

variable (router : Router)

/-- `router_find_stack` without an address to forward to: the stack that has the destination as its own. -/
def ownStack (packet : Packet) : Nat :=
  (router.uipStacks.findIdx? fun stack => uipIpaddrCmp packet.destipaddr stack.hostaddr).getD 255

/-- One search of `router_find_stack` for the network of an address. -/
def networkOf (forwardip : Ipaddr) : Option Nat :=
  router.uipStacks.findIdx? fun stack => uipIpaddrMaskcmp forwardip stack.hostaddr stack.netmask

/-- `router_find_stack` with an address to forward to, which tries the default router next. -/
def routerFindStack (forwardip : Ipaddr) : Nat :=
  ((router.networkOf forwardip).or (router.networkOf router.uipDraddr)).getD 255

/-- One in the TTL, in the word of the header that holds it: `1 << 8`. -/
def ttlUnit : UInt16 := (1 : UInt16) <<< 8

/-- The adjustment of the header checksum to the decremented TTL. -/
def adjustChksum (ipchksum : UInt16) : UInt16 :=
  if ipchksum ≥ HTONS (0xffff - ttlUnit) then ipchksum + (HTONS ttlUnit + 1) else ipchksum + HTONS ttlUnit

/-- `router_input`. -/
def routerInput (origin : Nat) (packet : Packet) : Routed :=
  if ¬router.prerouting packet then .dropped
  else if router.ownStack packet < 255 then
    if router.input packet then .processed (router.ownStack packet) packet else .dropped
  else if ¬router.ipForwardingSupport then .dropped
  else if router.routerFindStack packet.destipaddr = 255 then .dropped
  else if origin = router.routerFindStack packet.destipaddr then .dropped
  else if packet.ttl - 1 = 0 then .dropped
  else if ¬router.forward { packet with ttl := packet.ttl - 1 } then .dropped
  else
    .forwarded (router.routerFindStack packet.destipaddr)
      { packet with
        ttl := packet.ttl - 1
        ipchksum := adjustChksum packet.ipchksum }

/-- A packet that is routed out on another stack, from what is decided before its TTL is looked at and by the
chain for forwarded packets. -/
def RoutesOn (origin : Nat) (packet : Packet) : Prop :=
  router.prerouting packet ∧ 255 ≤ router.ownStack packet ∧ router.ipForwardingSupport ∧
    router.routerFindStack packet.destipaddr ≠ 255 ∧ origin ≠ router.routerFindStack packet.destipaddr ∧
    router.forward { packet with ttl := packet.ttl - 1 }

/-- Exactly the packets that are routed on leave, unless their TTL was one. -/
theorem routerInput_forwarded (origin : Nat) (packet : Packet) (dest : Nat) (after : Packet) :
    router.routerInput origin packet = .forwarded dest after ↔
      router.RoutesOn origin packet ∧ packet.ttl - 1 ≠ 0 ∧ dest = router.routerFindStack packet.destipaddr ∧
        after = { packet with
          ttl := packet.ttl - 1
          ipchksum := adjustChksum packet.ipchksum } := by
  rw [routerInput, RoutesOn]
  split_ifs <;> grind

end Router

section Checksum

/-- In the words of the machine, the adjustment adds one with an end-around carry. -/
theorem adjustChksum_modEq (ipchksum : UInt16) :
    (Router.adjustChksum ipchksum).toNat ≡ ipchksum.toNat + 1 [MOD 65535] := by
  have threshold : HTONS (0xffff - Router.ttlUnit) = 0xfffe := by decide
  have one : HTONS Router.ttlUnit = 1 := by decide
  have oneValue : (1 : UInt16).toNat = 1 := rfl
  have twoValue : (1 + 1 : UInt16).toNat = 2 := rfl
  have limit : (0xfffe : UInt16).toNat = 65534 := rfl
  have := ipchksum.toNat_lt
  rw [Router.adjustChksum, threshold, one]
  split
  · rename_i large
    have large : 65534 ≤ ipchksum.toNat := UInt16.le_iff_toNat_le.mp large
    rw [UInt16.toNat_add, twoValue, Nat.ModEq]
    omega
  · rename_i small
    rw [ge_iff_le, UInt16.le_iff_toNat_le, limit] at small
    rw [UInt16.toNat_add, oneValue, Nat.ModEq]
    omega

/-- The network reads a word of the machine with its octets exchanged. -/
theorem sum_octets (word : UInt16) : (bigEndianWords (octets word)).sum ≡ 256 * word.toNat [MOD 65535] := by
  have digits : word.toNat = word.toNat % 256 + word.toNat / 256 * 256 := by omega
  have low : word.toUInt8.toNat = word.toNat % 256 := by simp
  have high : (word >>> 8).toUInt8.toNat = word.toNat / 256 := by
    have := word.toNat_lt
    simp [Nat.shiftRight_eq_div_pow]
    omega
  have swapped := swap_modEq 256 (word.toNat % 256) (word.toNat / 256) (by omega)
  rw [← digits] at swapped
  simp only [octets, bigEndianWords, List.sum_cons, List.sum_nil, low, high, Nat.add_zero]
  exact swapped

/-- A header with another TTL and another checksum. -/
theorem Packet.sum_header (packet : Packet) (ttl : UInt8) (ipchksum : UInt16) :
    (bigEndianWords { packet with
      ttl := ttl
      ipchksum := ipchksum }.header).sum + (packet.ttl.toNat * 256 + (bigEndianWords (octets packet.ipchksum)).sum) =
    (bigEndianWords packet.header).sum + (ttl.toNat * 256 + (bigEndianWords (octets ipchksum)).sum) := by
  simp [Packet.header, octets, bigEndianWords]
  omega

theorem ttl_decremented (ttl : UInt8) (alive : 1 ≤ ttl.toNat) : (ttl - 1).toNat + 1 = ttl.toNat := by
  have one : (1 : UInt8).toNat = 1 := rfl
  have least : 1 ≤ ttl := UInt8.le_iff_toNat_le.mpr alive
  rw [UInt8.toNat_sub_of_le ttl 1 least, one]
  omega

/-- The arithmetic of the header for a TTL that does not wrap: what the header loses in the word of the TTL, it
gains in the one of the checksum. -/
theorem Packet.Correct.adjusted {packet : Packet} (correct : packet.Correct) (alive : 2 ≤ packet.ttl.toNat) :
    Packet.Correct { packet with
      ttl := packet.ttl - 1
      ipchksum := Router.adjustChksum packet.ipchksum } := by
  have ttl := ttl_decremented packet.ttl (by omega)
  rw [Packet.Correct, onesSum_eq_most (bigEndianWords_le _) (by omega)] at correct ⊢
  have balance := packet.sum_header (packet.ttl - 1) (Router.adjustChksum packet.ipchksum)
  have before := sum_octets packet.ipchksum
  have after := (sum_octets (Router.adjustChksum packet.ipchksum)).trans
    ((adjustChksum_modEq packet.ipchksum).mul_left 256)
  constructor
  · have divides := (Nat.modEq_zero_iff_dvd).mpr correct.1
    rw [Nat.ModEq] at before after divides
    apply (Nat.modEq_zero_iff_dvd).mp
    rw [Nat.ModEq]
    omega
  · -- The word of the TTL is still there.
    simp only [Packet.header, List.cons_append, bigEndianWords, List.sum_cons]
    omega

/-- What is right for a packet that leaves: it may live on, has lost one from its TTL, keeps all other fields
but the checksum, and its checksum is correct. -/
structure ForwardedRightly (before after : Packet) : Prop where
  alive : 2 ≤ before.ttl.toNat
  ttl : after.ttl.toNat + 1 = before.ttl.toNat
  others : after = { before with
    ttl := after.ttl
    ipchksum := after.ipchksum }
  correct : after.Correct

/-- A packet with a correct checksum is treated rightly unless its TTL is zero and it is routed on: its TTL
wraps around to 255. -/
theorem routerInput_right_iff (router : Router) (origin : Nat) (packet : Packet) (correct : packet.Correct) :
    (∀ dest after, router.routerInput origin packet = .forwarded dest after → ForwardedRightly packet after) ↔
      ¬(packet.ttl = 0 ∧ router.RoutesOn origin packet) := by
  constructor
  · rintro right ⟨zero, routes⟩
    have leaves := (router.routerInput_forwarded origin packet _ _).mpr
      ⟨routes, by rw [zero]; decide, rfl, rfl⟩
    have alive := (right _ _ leaves).alive
    rw [zero] at alive
    exact absurd alive (by decide)
  · intro exempt dest after leaves
    obtain ⟨routes, rest, -, rfl⟩ := (router.routerInput_forwarded origin packet dest after).mp leaves
    have nonzero : packet.ttl ≠ 0 := fun zero => exempt ⟨zero, routes⟩
    have alive : 2 ≤ packet.ttl.toNat := by
      have notZero : packet.ttl.toNat ≠ 0 := fun zero => nonzero (UInt8.toNat_inj.mp zero)
      have notOne : packet.ttl.toNat ≠ 1 := by
        intro one
        have last : packet.ttl = 1 := UInt8.toNat_inj.mp one
        rw [last] at rest
        exact rest rfl
      omega
    exact ⟨alive, ttl_decremented _ (by omega), rfl, correct.adjusted alive⟩

end Checksum

/-- Two stacks, 10.0.0.1/24 and 10.0.1.1/24, and no rules. -/
def twoNetworks : Router where
  uipStacks := [⟨(0x000a, 0x0100), (0xffff, 0x00ff)⟩, ⟨(0x000a, 0x0101), (0xffff, 0x00ff)⟩]
  uipDraddr := (0, 0)
  ipForwardingSupport := true
  prerouting := fun _ => true
  input := fun _ => true
  forward := fun _ => true

/-- A packet from 10.0.0.2 to 10.0.1.2. -/
def crossing (ttl : UInt8) (ipid : UInt8 × UInt8) (ipchksum : UInt16) : Packet where
  vhl := 0x45
  tos := 0
  len := (0, 20)
  ipid := ipid
  ipoffset := (0, 0)
  ttl := ttl
  proto := 17
  ipchksum := ipchksum
  srcipaddr := (0x000a, 0x0200)
  destipaddr := (0x000a, 0x0201)
  rest := []

/-- A checksum at the threshold of the carry. -/
theorem routerInput_right_crossing :
    (crossing 64 (0x66, 0xd6) 0xfffe).Correct ∧
      ∀ dest after, twoNetworks.routerInput 0 (crossing 64 (0x66, 0xd6) 0xfffe) = .forwarded dest after →
        ForwardedRightly (crossing 64 (0x66, 0xd6) 0xfffe) after :=
  ⟨by decide, (routerInput_right_iff twoNetworks 0 (crossing 64 (0x66, 0xd6) 0xfffe) (by decide)).mpr
    fun dead => absurd dead.1 (by decide)⟩

/-- A packet whose TTL is zero leaves with a TTL of 255 and a wrong checksum. -/
theorem routerInput_revives :
    (crossing 0 (0, 0) 0xd6a5).Correct ∧
      twoNetworks.routerInput 0 (crossing 0 (0, 0) 0xd6a5) = .forwarded 1 (crossing 255 (0, 0) 0xd6a6) ∧
      ¬ForwardedRightly (crossing 0 (0, 0) 0xd6a5) (crossing 255 (0, 0) 0xd6a6) ∧
      ¬(crossing 255 (0, 0) 0xd6a6).Correct := by
  refine ⟨by decide, by decide, ?_, by decide⟩
  intro right
  exact absurd right.alive (by decide)

end Ethersex.Uip.Forwarding
