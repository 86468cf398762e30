import Mathlib

/-!
# ARP

The table of uIP that tells the Ethernet addresses of the hosts on the local network: how it learns from packets
that come in, answers requests and forgets, and what becomes of a packet that goes out.

The proxies for other networks (`RFM12_ARP_PROXY`, `ZBUS_ARP_PROXY`, `USB_ARP_PROXY`) are left out.
-/

namespace Ethersex.Arp

/-- The two words of an address, as they are in memory. -/
abbrev Ip := UInt16 × UInt16

abbrev Mac := Fin 6 → UInt8

/-- `struct arp_entry`. -/
structure Entry where
  ipaddr : Ip
  ethaddr : Mac
  time : UInt8

/-- `struct arp_hdr`, with the numbers as they are meant. -/
structure ArpPacket where
  dest : Mac
  src : Mac
  type : Nat
  hwtype : Nat
  protocol : Nat
  hwlen : Nat
  protolen : Nat
  opcode : Nat
  shwaddr : Mac
  sipaddr : Ip
  dhwaddr : Mac
  dipaddr : Ip

/-- `sizeof(struct arp_hdr)` and `sizeof(struct uip_eth_hdr)`. -/
def sizeofArpHdr : Nat := 42

def sizeofEthHdr : Nat := 14

def ARP_REQUEST : Nat := 1

def ARP_REPLY : Nat := 2

def UIP_ETHTYPE_ARP : Nat := 0x0806

def UIP_ETHTYPE_IP : Nat := 0x0800

def UIP_ARP_MAXAGE : Int := 120

/-- A node: its addresses, and the table with its time. -/
structure Node where
  hostaddr : Ip
  netmask : Ip
  draddr : Ip
  ethaddr : Mac
  table : List Entry
  arptime : UInt8

/-- `broadcast_ethaddr`. -/
def broadcastEthaddr : Mac := fun _ => 0xff

def broadcastIpaddr : Ip := (0xffff, 0xffff)

/-- `uip_ipaddr_maskcmp`. -/
def maskcmp (left right mask : Ip) : Bool :=
  left.1 &&& mask.1 = right.1 &&& mask.1 && left.2 &&& mask.2 = right.2 &&& mask.2

/-- `((const uint8_t *)ipaddr)[k]`. -/
def octet (ip : Ip) : Fin 4 → UInt8
  | 0 => ip.1.toUInt8
  | 1 => (ip.1 >>> 8).toUInt8
  | 2 => ip.2.toUInt8
  | 3 => (ip.2 >>> 8).toUInt8

/-! ## The table -/

section Table

variable (table : List Entry) (arptime : UInt8)

/-- `arptime - tabptr->time`, which has more bits than the two. -/
def age (entry : Entry) : Int := (arptime.toNat : Int) - entry.time.toNat

/-- `uip_arp_timer`: the table, at the time that has come. -/
def expire : List Entry :=
  table.map fun entry =>
    if (entry.ipaddr.1 ||| entry.ipaddr.2) ≠ 0 ∧ UIP_ARP_MAXAGE ≤ age arptime entry then
      { entry with ipaddr := (0, 0) }
    else entry

/-- The entry of the address. -/
def inUse (ip : Ip) : Option Nat :=
  table.findIdx? fun entry => entry.ipaddr.1 ≠ 0 ∧ entry.ipaddr.2 ≠ 0 ∧ ip = entry.ipaddr

/-- An unused entry. -/
def unused : Option Nat := table.findIdx? fun entry => entry.ipaddr.1 = 0 ∧ entry.ipaddr.2 = 0

/-- The oldest entry: `tmpage` and `c`, from an index on. -/
def oldestFrom : (index : Nat) → List Entry → Int × Nat → Nat
  | _, [], found => found.2
  | index, entry :: rest, found =>
    oldestFrom (index + 1) rest (if found.1 < age arptime entry then (age arptime entry, index) else found)

/-- The entry that is thrown away for another one. -/
def oldest : Nat := oldestFrom arptime 0 table (0, 0)

/-- `uip_arp_update`. -/
def update (ip : Ip) (ethaddr : Mac) : List Entry :=
  match inUse table ip with
  | some i => table.modify i fun entry => { entry with ethaddr := ethaddr, time := arptime }
  | none => table.set ((unused table).getD (oldest table arptime)) ⟨ip, ethaddr, arptime⟩

/-- `uip_arp_lookup`. -/
def lookup (ip : Ip) : Option Entry := table.find? fun entry => ip = entry.ipaddr

end Table

namespace Node

variable (node : Node)

/-- `uip_arp_init`. -/
def init : Node := { node with table := node.table.map fun entry => { entry with ipaddr := (0, 0) } }

/-- `uip_arp_timer`. -/
def timer : Node :=
  let arptime := node.arptime + 1
  { node with
    arptime := arptime
    table := expire node.table arptime }

def learn (ip : Ip) (ethaddr : Mac) : Node := { node with table := update node.table node.arptime ip ethaddr }

/-- `uip_arp_ipin`, for a packet from the address that a frame of the Ethernet address brings. -/
def ipin (srcipaddr : Ip) (src : Mac) : Node :=
  if maskcmp srcipaddr node.hostaddr node.netmask then node.learn srcipaddr src else node

/-- `uip_arp_arpin`, for a frame of `len` bytes: the node, and the answer. -/
def arpin (len : Nat) (packet : ArpPacket) : Node × Option ArpPacket :=
  if len < sizeofArpHdr then (node, none)
  else if packet.opcode = ARP_REQUEST then
    if packet.dipaddr = node.hostaddr then
      (node.learn packet.sipaddr packet.shwaddr,
        some { packet with
          opcode := 2
          dhwaddr := packet.shwaddr
          shwaddr := node.ethaddr
          src := node.ethaddr
          dest := packet.shwaddr
          dipaddr := packet.sipaddr
          sipaddr := packet.dipaddr
          type := UIP_ETHTYPE_ARP })
    else (node, none)
  else if packet.opcode = ARP_REPLY then
    (if packet.dipaddr = node.hostaddr then node.learn packet.sipaddr packet.shwaddr else node, none)
  else (node, none)

/-- What goes out: the packet of the IP with its addresses and its length, or a request in its place. -/
inductive Out where
  | ip (dest src : Mac) (type len : Nat)
  | request (packet : ArpPacket) (len : Nat)

/-- `ipaddr`: whose Ethernet address a packet for the destination needs. -/
def hop (destipaddr : Ip) : Ip := if maskcmp destipaddr node.hostaddr node.netmask then destipaddr else node.draddr

/-- The request that takes the place of a packet. -/
def request (ipaddr : Ip) : ArpPacket where
  dest := fun _ => 0xff
  src := node.ethaddr
  type := UIP_ETHTYPE_ARP
  hwtype := 1
  protocol := UIP_ETHTYPE_IP
  hwlen := 6
  protolen := 4
  opcode := ARP_REQUEST
  shwaddr := node.ethaddr
  sipaddr := node.hostaddr
  dhwaddr := fun _ => 0
  dipaddr := ipaddr

/-- The destination is an address of many hosts, whose Ethernet address needs no table. -/
def group (destipaddr : Ip) : Option Mac :=
  if 224 ≤ octet destipaddr 0 ∧ octet destipaddr 0 ≤ 239 then
    some ![0x01, 0x00, 0x5e, octet destipaddr 1 &&& 0x7f, octet destipaddr 2, octet destipaddr 3]
  else if destipaddr = (node.hostaddr.1 ||| ~~~node.netmask.1, node.hostaddr.2 ||| ~~~node.netmask.2) ∨
      destipaddr = broadcastIpaddr then
    some broadcastEthaddr
  else none

/-- `uip_arp_out`, for a packet of `len` bytes. -/
def out (destipaddr : Ip) (len : Nat) : Out :=
  match node.group destipaddr with
  | some dest => .ip dest node.ethaddr UIP_ETHTYPE_IP (len + sizeofEthHdr)
  | none =>
    match lookup node.table (node.hop destipaddr) with
    | some entry => .ip entry.ethaddr node.ethaddr UIP_ETHTYPE_IP (len + sizeofEthHdr)
    | none => .request (node.request (node.hop destipaddr)) sizeofArpHdr

end Node

end Ethersex.Arp
