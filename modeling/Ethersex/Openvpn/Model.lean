import Mathlib
import Ethersex.Library.Bytes

/-!
# OpenVPN packets

`openvpn_process_out` moves a packet of the inner stack up in the buffer, and `openvpn_encrypt` pads it
and encrypts it in place, behind an initialisation vector and with the packet id in front.  What is sent
begins at `uip_sappdata`.  `openvpn_decrypt_and_verify` decrypts in place what has arrived and compares its
packet id with the last one.
-/

namespace Ethersex.Openvpn

open Library

/-! ## Blocks of eight bytes -/

abbrev Block := Fin 8 → UInt8

/-- `ptr[i] ^= other[i]` for the bytes of a block. -/
def xor (block other : Block) : Block := fun i => block i ^^^ other i

def readBlock (memory : Bytes) (ptr : Nat) : Block := fun i => memory (ptr + i)

def writeBlock (memory : Bytes) (ptr : Nat) (block : Block) : Bytes := fun k =>
  if inside : ptr ≤ k ∧ k < ptr + 8 then block ⟨k - ptr, by omega⟩ else memory k

/-! ## The layout of the buffer -/

/-- What `__LLH_LEN` depends on: whether there is an ethernet controller, and if not, whether there is RFM12. -/
inductive Link where
  | ethernet
  | rfm12
  | other
  deriving DecidableEq, Repr

/-- `__LLH_LEN`. -/
def Link.length : Link → Nat
  | .ethernet => 14
  | .rfm12 => 2
  | .other => 0

/-- The options: the link, IPv6, and `MD5_SUPPORT`. -/
structure Config where
  link : Link
  ipv6 : Bool
  md5 : Bool
  deriving DecidableEq, Repr

namespace Config

variable (config : Config)

/-- `BASE_LLH_LEN` and `UIP_LLH_LEN`. -/
def baseLlhLen : Nat := 14

/-- `UIP_IPUDPH_LEN`. -/
def ipUdpLen : Nat := if config.ipv6 then 48 else 28

/-- Where `uip_sappdata` and `uip_appdata` point to. -/
def appdata : Nat := baseLlhLen + config.ipUdpLen

/-- `OPENVPN_LLH_LEN`. -/
def llhLen : Nat := config.link.length + config.ipUdpLen

/-- `OPENVPN_HMAC_LLH_LEN`. -/
def hmacLlhLen : Nat := if config.md5 then 16 else 0

/-- `OPENVPN_HMAC_CRYPT_LEN`. -/
def hmacCryptLen : Nat := config.hmacLlhLen + 16

/-- `OPENVPN_TOTAL_LLH_LEN`. -/
def totalLlhLen : Nat := config.llhLen + config.hmacCryptLen

end Config

/-! ## Sending -/

/-- `memmove`. -/
def memmove (dest src count : Nat) (memory : Bytes) : Bytes := fun k =>
  if dest ≤ k ∧ k < dest + count then memory (src + (k - dest)) else memory k

/-- A number in network byte order. -/
def bigEndian (value : Nat) : Fin 4 → UInt8
  | 0 => UInt8.ofNat (value / 16777216)
  | 1 => UInt8.ofNat (value / 65536)
  | 2 => UInt8.ofNat (value / 256)
  | 3 => UInt8.ofNat value

/-- The packet id: the sequence number, and a timestamp of zero. -/
def packetId (seqno : Nat) : Block := fun i => if small : i.val < 4 then bigEndian seqno ⟨i, small⟩ else 0

/-- The padding is appended `count` times. -/
def pad (char : UInt8) (ptr : Nat) : (count : Nat) → Bytes → Bytes
  | 0, memory => memory
  | count + 1, memory => pad char (ptr + 1) count (Function.update memory ptr char)

/-- The blocks are encrypted one after another. -/
def encryptBlocks (cast5Enc : Block → Block) (ptr : Nat) : (count : Nat) → Bytes → Bytes
  | 0, memory => memory
  | count + 1, memory =>
      encryptBlocks cast5Enc (ptr + 8) count
        (writeBlock memory ptr (cast5Enc (xor (readBlock memory ptr) (readBlock memory (ptr - 8)))))

/-- How often a loop runs that goes from one address up to another in steps of eight. -/
def steps (start stop : Nat) : Nat := (stop - start + 7) / 8

section Packets

variable (config : Config)

/-- `openvpn_encrypt`, with the random initialisation vector; the new `uip_slen`. -/
def openvpnEncrypt (cast5Enc : Block → Block) (iv : Block) (seqno slen : Nat) (memory : Bytes) : Bytes × Nat :=
  let encryptStart := config.llhLen + config.hmacLlhLen
  -- up to the next multiple of eight, and at least once
  let count := 8 - slen % 8
  let memory := pad (UInt8.ofNat count) (config.appdata + slen) count memory
  let slen := slen + count
  let memory := writeBlock memory encryptStart iv
  let memory := writeBlock memory (encryptStart + 8) (packetId seqno)
  (encryptBlocks cast5Enc (encryptStart + 8) (steps (encryptStart + 8) (config.appdata + slen)) memory, slen)

/-- `openvpn_process_out`: a packet of `len` bytes is moved up and encrypted. -/
def openvpnProcessOut (cast5Enc : Block → Block) (iv : Block) (seqno len : Nat) (memory : Bytes) : Bytes × Nat :=
  openvpnEncrypt config cast5Enc iv seqno (len + config.hmacCryptLen)
    (memmove config.totalLlhLen Config.baseLlhLen len memory)

/-! ## Receiving -/

/-- The blocks are decrypted one after another.  What was in the place of the last one is kept in the place of the
initialisation vector and in `buf` by turns; `inPacket` tells which of them `cbc_carry_this` points to. -/
def decryptBlocks (cast5Dec : Block → Block) (iv ptr : Nat) : (count : Nat) → (inPacket : Bool) → Block → Bytes → Bytes
  | 0, _, _, memory => memory
  | count + 1, true, _, memory =>
      let buf := readBlock memory ptr
      decryptBlocks cast5Dec iv (ptr + 8) count false buf
        (writeBlock memory ptr (xor (cast5Dec (readBlock memory ptr)) (readBlock memory iv)))
  | count + 1, false, buf, memory =>
      let memory := writeBlock memory iv (readBlock memory ptr)
      decryptBlocks cast5Dec iv (ptr + 8) count true buf
        (writeBlock memory ptr (xor (cast5Dec (readBlock memory ptr)) buf))

/-- `HTONL` of four bytes in the packet. -/
def htonl (memory : Bytes) (ptr : Nat) : Nat :=
  16777216 * (memory ptr).toNat + 65536 * (memory (ptr + 1)).toNat + 256 * (memory (ptr + 2)).toNat +
    (memory (ptr + 3)).toNat

/-- A packet id: the timestamp and the sequence number. -/
structure PacketId where
  timestamp : Nat
  seqno : Nat
  deriving DecidableEq, Repr

/-- The packet as it is decrypted; `buf` is what was on the stack. -/
def decrypted (cast5Dec : Block → Block) (buf : Block) (len : Nat) (memory : Bytes) : Bytes :=
  let iv := config.appdata + config.hmacLlhLen
  decryptBlocks cast5Dec iv (iv + 8) (steps (iv + 8) (config.appdata + len)) true buf memory

/-- The packet id of a decrypted packet. -/
def readId (memory : Bytes) : PacketId :=
  let ptr := config.appdata + config.hmacLlhLen + 8
  ⟨htonl memory (ptr + 4), htonl memory ptr⟩

/-- `openvpn_decrypt_and_verify`: what is in the buffer then, and the packet id that is remembered, or nothing when the
packet is refused. -/
def openvpnDecryptAndVerify (cast5Dec : Block → Block) (buf : Block) (len : Nat) (memory : Bytes) (seen : PacketId) :
    Bytes × Option PacketId :=
  let memory := decrypted config cast5Dec buf len memory
  let id := readId config memory
  if id.timestamp ≤ seen.timestamp ∧ id.seqno ≤ seen.seqno then (memory, none) else (memory, some id)

end Packets

end Ethersex.Openvpn
