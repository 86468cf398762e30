import Mathlib
import Ethersex.Library.Ciphers
import Ethersex.Openvpn.Model

/-!
# Decryption undoes encryption

Both directions work in place, block by block, on the same run of bytes.  The loops compute cipher block
chaining over these blocks, so that what was encrypted is there again after decrypting, wherever in the
buffer it went meanwhile.
-/

namespace Ethersex.Openvpn

open Library

/-! ## Blocks in the buffer -/

section Blocks

variable {memory other : Bytes} {ptr : Nat} {block carry : Block}

@[simp] theorem xor_xor (block carry : Block) : xor (xor block carry) carry = block := by
  funext i
  simp [xor]

theorem readBlock_congr (agree : ∀ k, ptr ≤ k → k < ptr + 8 → memory k = other k) :
    readBlock memory ptr = readBlock other ptr := by
  funext i
  exact agree (ptr + i) (Nat.le_add_right _ _) (by omega)

@[simp] theorem readBlock_writeBlock (memory : Bytes) (ptr : Nat) (block : Block) :
    readBlock (writeBlock memory ptr block) ptr = block := by
  funext i
  rw [readBlock, writeBlock, dif_pos ⟨Nat.le_add_right _ _, by omega⟩]
  congr 1
  exact Fin.ext (Nat.add_sub_cancel_left _ _)

theorem writeBlock_apply_of_ne {k : Nat} (apart : k < ptr ∨ ptr + 8 ≤ k) : writeBlock memory ptr block k = memory k :=
  dif_neg (by omega)

theorem readBlock_writeBlock_of_ne {start : Nat} (apart : start + 8 ≤ ptr ∨ ptr + 8 ≤ start) :
    readBlock (writeBlock memory ptr block) start = readBlock memory start :=
  readBlock_congr fun _ _ _ => writeBlock_apply_of_ne (by omega)

/-- The blocks from an address on. -/
def blocksAt (memory : Bytes) : (ptr count : Nat) → List Block
  | _, 0 => []
  | ptr, count + 1 => readBlock memory ptr :: blocksAt memory (ptr + 8) count

theorem blocksAt_congr {count : Nat} (agree : ∀ k, ptr ≤ k → k < ptr + 8 * count → memory k = other k) :
    blocksAt memory ptr count = blocksAt other ptr count := by
  induction count generalizing ptr with
  | zero => rfl
  | succ count ih =>
      rw [blocksAt, blocksAt, readBlock_congr fun k above below => agree k above (by omega),
        ih fun k above below => agree k (by omega) (by omega)]

/-- The same blocks are the same bytes. -/
theorem eq_of_blocksAt {count : Nat} (same : blocksAt memory ptr count = blocksAt other ptr count) {k : Nat}
    (above : ptr ≤ k) (below : k < ptr + 8 * count) : memory k = other k := by
  induction count generalizing ptr with
  | zero => omega
  | succ count ih =>
      obtain ⟨first, rest⟩ := List.cons.inj same
      by_cases here : k < ptr + 8
      · have byte := congrFun first ⟨k - ptr, by omega⟩
        rwa [readBlock, readBlock, Nat.add_sub_cancel' above] at byte
      · exact ih rest (by omega) (by omega)

end Blocks

/-! ## The two loops -/

section Loops

variable {cast5Enc cast5Dec : Block → Block} {count : Nat}

theorem encryptBlocks_apply {memory : Bytes} {ptr k : Nat} (apart : k < ptr ∨ ptr + 8 * count ≤ k) :
    encryptBlocks cast5Enc ptr count memory k = memory k := by
  induction count generalizing ptr memory with
  | zero => rfl
  | succ count ih =>
      rw [encryptBlocks, ih (by omega)]
      exact writeBlock_apply_of_ne (by omega)

/-- Encrypting in place is cipher block chaining. -/
theorem blocksAt_encryptBlocks {memory : Bytes} {ptr : Nat} (behind : 8 ≤ ptr) :
    blocksAt (encryptBlocks cast5Enc ptr count memory) ptr count =
      cbcEncrypt xor cast5Enc (readBlock memory (ptr - 8)) (blocksAt memory ptr count) := by
  induction count generalizing ptr memory with
  | zero => rfl
  | succ count ih =>
      dsimp only [encryptBlocks, blocksAt, cbcEncrypt]
      congr 1
      · rw [readBlock_congr fun k above below => encryptBlocks_apply (Or.inl below), readBlock_writeBlock]
      · rw [ih (by omega), Nat.add_sub_cancel, readBlock_writeBlock,
          blocksAt_congr fun k above below => writeBlock_apply_of_ne (Or.inr above)]

theorem decryptBlocks_apply {memory : Bytes} {iv ptr k : Nat} {inPacket : Bool} {buf : Block}
    (apart : k < ptr ∨ ptr + 8 * count ≤ k) (outside : k < iv ∨ iv + 8 ≤ k) :
    decryptBlocks cast5Dec iv ptr count inPacket buf memory k = memory k := by
  induction count generalizing ptr memory inPacket buf with
  | zero => cases inPacket <;> rfl
  | succ count ih =>
      cases inPacket with
      | true =>
          rw [decryptBlocks, ih (by omega)]
          exact writeBlock_apply_of_ne (by omega)
      | false =>
          rw [decryptBlocks, ih (by omega), writeBlock_apply_of_ne (by omega)]
          exact writeBlock_apply_of_ne outside

/-- Decrypting in place is cipher block chaining, too. -/
theorem blocksAt_decryptBlocks {memory : Bytes} {iv ptr : Nat} (behind : iv + 8 ≤ ptr) (inPacket : Bool) (buf : Block) :
    blocksAt (decryptBlocks cast5Dec iv ptr count inPacket buf memory) ptr count =
      cbcDecrypt xor cast5Dec (if inPacket then readBlock memory iv else buf) (blocksAt memory ptr count) := by
  induction count generalizing ptr memory inPacket buf with
  | zero => rfl
  | succ count ih =>
      have first : ∀ {inPacket : Bool} {buf : Block} {memory : Bytes},
          readBlock (decryptBlocks cast5Dec iv (ptr + 8) count inPacket buf memory) ptr = readBlock memory ptr :=
        readBlock_congr fun k above below => decryptBlocks_apply (Or.inl below) (by omega)
      cases inPacket with
      | true =>
          dsimp only [decryptBlocks, blocksAt, cbcDecrypt]
          congr 1
          · rw [first, readBlock_writeBlock, if_pos rfl]
          · rw [ih (by omega), if_neg Bool.false_ne_true,
              blocksAt_congr fun k above below => writeBlock_apply_of_ne (Or.inr above)]
      | false =>
          have kept : readBlock (writeBlock memory iv (readBlock memory ptr)) ptr = readBlock memory ptr :=
            readBlock_writeBlock_of_ne (by omega)
          dsimp only [decryptBlocks, blocksAt, cbcDecrypt]
          congr 1
          · rw [first, readBlock_writeBlock, if_neg Bool.false_ne_true, kept]
          · rw [ih (by omega), if_pos rfl, readBlock_writeBlock_of_ne (by omega), readBlock_writeBlock,
              blocksAt_congr fun k above below => (writeBlock_apply_of_ne (by omega)).trans
                (writeBlock_apply_of_ne (by omega))]

theorem pad_apply (char : UInt8) (ptr : Nat) (memory : Bytes) (k : Nat) :
    pad char ptr count memory k = if ptr ≤ k ∧ k < ptr + count then char else memory k := by
  induction count generalizing ptr memory with
  | zero => rw [pad, if_neg (by omega)]
  | succ count ih =>
      rw [pad, ih]
      by_cases here : k = ptr
      · rw [if_neg (by omega), if_pos (by omega), here, Function.update_self]
      · rw [Function.update_of_ne here]
        exact if_congr (by omega) rfl rfl

end Loops

/-! ## The whole way -/

section RoundTrip

variable (config : Config) (cast5Enc cast5Dec : Block → Block) (iv : Block) (seqno len : Nat) (memory : Bytes)

/-- What is in the buffer when a packet of `len` bytes is sent, and the length of the packet. -/
def sent : Bytes × Nat := openvpnProcessOut config cast5Enc iv seqno len memory

/-- What is in the buffer when it was received there. -/
def plain (buf : Block) (received : Bytes) (seen : PacketId) : Bytes :=
  (openvpnDecryptAndVerify config cast5Dec buf (sent config cast5Enc iv seqno len memory).2 received seen).1

/-- The length of a packet that is sent is the next multiple of eight.  Who receives it behind the HMAC gets the
payload, padding bytes that tell how many they are, and the packet id; and neither side touches a byte outside the
packet. -/
structure RoundTrips : Prop where
  multiple : (sent config cast5Enc iv seqno len memory).2 % 8 = 0
  longer : len + config.hmacCryptLen < (sent config cast5Enc iv seqno len memory).2
  shorter : (sent config cast5Enc iv seqno len memory).2 ≤ len + config.hmacCryptLen + 8
  sends : ∀ k, k < config.appdata ∨ config.appdata + (sent config cast5Enc iv seqno len memory).2 ≤ k →
    (sent config cast5Enc iv seqno len memory).1 k = memory k
  recovers : ∀ buf received seen,
    (∀ k, config.hmacLlhLen ≤ k → k < (sent config cast5Enc iv seqno len memory).2 →
      received (config.appdata + k) = (sent config cast5Enc iv seqno len memory).1 (config.appdata + k)) →
    (∀ k < len, plain config cast5Enc cast5Dec iv seqno len memory buf received seen
        (config.appdata + config.hmacCryptLen + k) = memory (Config.baseLlhLen + k)) ∧
    (∀ k, len + config.hmacCryptLen ≤ k → k < (sent config cast5Enc iv seqno len memory).2 →
      plain config cast5Enc cast5Dec iv seqno len memory buf received seen (config.appdata + k) =
        UInt8.ofNat ((sent config cast5Enc iv seqno len memory).2 - (len + config.hmacCryptLen))) ∧
    readId config (plain config cast5Enc cast5Dec iv seqno len memory buf received seen) = ⟨0, seqno % 2 ^ 32⟩ ∧
    ∀ k, k < config.appdata ∨ config.appdata + (sent config cast5Enc iv seqno len memory).2 ≤ k →
      plain config cast5Enc cast5Dec iv seqno len memory buf received seen k = received k

end RoundTrip

/-! ### With an ethernet controller -/

section Ethernet

variable {config : Config} {cast5Enc cast5Dec : Block → Block} {iv : Block} {seqno len : Nat} {memory : Bytes}

/-- The padded packet in front of the encryption. -/
def padded (config : Config) (iv : Block) (seqno len : Nat) (memory : Bytes) : Bytes :=
  let start := config.llhLen + config.hmacLlhLen
  let slen := len + config.hmacCryptLen
  let count := 8 - slen % 8
  writeBlock (writeBlock (pad (UInt8.ofNat count) (config.appdata + slen) count
    (memmove config.totalLlhLen Config.baseLlhLen len memory)) start iv) (start + 8) (packetId seqno)

/-- The length of the packet. -/
def paddedLength (config : Config) (len : Nat) : Nat :=
  len + config.hmacCryptLen + (8 - (len + config.hmacCryptLen) % 8)

theorem sent_eq (config : Config) (cast5Enc : Block → Block) (iv : Block) (seqno len : Nat) (memory : Bytes) :
    sent config cast5Enc iv seqno len memory =
      (encryptBlocks cast5Enc (config.llhLen + config.hmacLlhLen + 8)
        (steps (config.llhLen + config.hmacLlhLen + 8) (config.appdata + paddedLength config len))
        (padded config iv seqno len memory), paddedLength config len) := rfl

theorem hmacLlhLen_mod (config : Config) : config.hmacLlhLen % 8 = 0 := by
  rw [Config.hmacLlhLen]
  split <;> rfl

/-- The loops go through the packet up to its end. -/
theorem steps_packet (config : Config) (len : Nat) :
    config.appdata + config.hmacLlhLen + 8 +
      8 * steps (config.appdata + config.hmacLlhLen + 8) (config.appdata + paddedLength config len) =
      config.appdata + paddedLength config len := by
  have := hmacLlhLen_mod config
  rw [steps, paddedLength, Config.hmacCryptLen]
  omega

theorem htonl_bigEndian {memory : Bytes} {ptr value : Nat} (bytes : ∀ i : Fin 4, memory (ptr + i) = bigEndian value i) :
    htonl memory ptr = value % 2 ^ 32 := by
  have first := bytes 0
  have second := bytes 1
  have third := bytes 2
  have fourth := bytes 3
  simp only [Fin.val_zero, Fin.val_one, Fin.val_two, Nat.add_zero, bigEndian] at first second third
  rw [show ((3 : Fin 4) : Nat) = 3 from rfl] at fourth
  rw [htonl, first, second, third, fourth]
  simp only [bigEndian, UInt8.toNat_ofNat']
  omega

/-- The packet id of a packet that begins with it. -/
theorem readId_of_readBlock {plain : Bytes}
    (id : readBlock plain (config.appdata + config.hmacLlhLen + 8) = packetId seqno) :
    readId config plain = ⟨0, seqno % 2 ^ 32⟩ := by
  have byte : ∀ i : Fin 8, plain (config.appdata + config.hmacLlhLen + 8 + i) = packetId seqno i := congrFun id
  have number : htonl plain (config.appdata + config.hmacLlhLen + 8) = seqno % 2 ^ 32 := by
    refine htonl_bigEndian fun i => ?_
    rw [byte ⟨i, by omega⟩, packetId, dif_pos i.isLt]
  have zero : htonl plain (config.appdata + config.hmacLlhLen + 8 + 4) = 0 % 2 ^ 32 := by
    refine htonl_bigEndian fun i => ?_
    rw [Nat.add_assoc, byte ⟨4 + i, by omega⟩, packetId, dif_neg (by simp)]
    fin_cases i <;> rfl
  rw [readId, number, zero, Nat.zero_mod]

theorem plain_eq_decrypted (buf : Block) (received : Bytes) (seen : PacketId) :
    plain config cast5Enc cast5Dec iv seqno len memory buf received seen =
      decrypted config cast5Dec buf (paddedLength config len) received := by
  rw [plain, openvpnDecryptAndVerify]
  split <;> rfl

/-- What was encrypted is decrypted, wherever it was received. -/
theorem plain_eq_padded (ethernet : config.link = .ethernet) (inverts : ∀ block, cast5Dec (cast5Enc block) = block)
    {buf : Block} {received : Bytes} {seen : PacketId}
    (same : ∀ k, config.hmacLlhLen ≤ k → k < (sent config cast5Enc iv seqno len memory).2 →
      received (config.appdata + k) = (sent config cast5Enc iv seqno len memory).1 (config.appdata + k))
    {k : Nat} (above : config.appdata + config.hmacLlhLen + 8 ≤ k)
    (below : k < config.appdata + paddedLength config len) :
    plain config cast5Enc cast5Dec iv seqno len memory buf received seen k = padded config iv seqno len memory k := by
  have start : config.llhLen = config.appdata := by
    rw [Config.llhLen, ethernet]
    rfl
  have stop := steps_packet config len
  rw [sent_eq, start] at same
  set count := steps (config.appdata + config.hmacLlhLen + 8) (config.appdata + paddedLength config len) with count_eq
  set whole := padded config iv seqno len memory with whole_eq
  have agree : ∀ k, config.appdata + config.hmacLlhLen ≤ k → k < config.appdata + paddedLength config len →
      received k = encryptBlocks cast5Enc (config.appdata + config.hmacLlhLen + 8) count whole k := by
    intro k above below
    have byte := same (k - config.appdata) (by omega) (by show k - config.appdata < paddedLength config len; omega)
    rwa [Nat.add_sub_cancel' (by omega)] at byte
  refine @eq_of_blocksAt _ _ (config.appdata + config.hmacLlhLen + 8) count ?_ _ above (by omega)
  rw [plain_eq_decrypted, decrypted, ← count_eq, blocksAt_decryptBlocks le_rfl, if_pos rfl,
    readBlock_congr fun k above below => (agree k above (by omega)).trans (encryptBlocks_apply (Or.inl below)),
    blocksAt_congr fun k above below => agree k (by omega) (by omega), blocksAt_encryptBlocks (by omega),
    Nat.add_sub_cancel]
  exact cbcDecrypt_cbcEncrypt inverts xor_xor _ _

/-- Behind the packet id, the packet is the payload and the padding. -/
theorem padded_apply (ethernet : config.link = .ethernet) {k : Nat} (behind : config.hmacCryptLen ≤ k) :
    padded config iv seqno len memory (config.appdata + k) =
      if k < len + config.hmacCryptLen then memory (Config.baseLlhLen + (k - config.hmacCryptLen))
      else if k < paddedLength config len then UInt8.ofNat (8 - (len + config.hmacCryptLen) % 8)
      else memory (config.appdata + k) := by
  have start : config.llhLen = config.appdata := by
    rw [Config.llhLen, ethernet]
    rfl
  have crypt : config.hmacCryptLen = config.hmacLlhLen + 16 := rfl
  rw [padded]
  rw [start, writeBlock_apply_of_ne (by omega), writeBlock_apply_of_ne (by omega), pad_apply, memmove, Config.totalLlhLen,
    start, paddedLength]
  by_cases payload : k < len + config.hmacCryptLen
  · rw [if_neg (by omega), if_pos (by omega), if_pos payload]
    congr 1
    omega
  · rw [if_neg (show ¬(config.appdata + config.hmacCryptLen ≤ config.appdata + k ∧
      config.appdata + k < config.appdata + config.hmacCryptLen + len) by omega), if_neg payload]
    exact if_congr (by omega) rfl rfl

theorem roundTrips_ethernet (ethernet : config.link = .ethernet)
    (inverts : ∀ block, cast5Dec (cast5Enc block) = block) :
    RoundTrips config cast5Enc cast5Dec iv seqno len memory := by
  have start : config.llhLen = config.appdata := by
    rw [Config.llhLen, ethernet]
    rfl
  have crypt : config.hmacCryptLen = config.hmacLlhLen + 16 := rfl
  have stop := steps_packet config len
  have length : (sent config cast5Enc iv seqno len memory).2 = paddedLength config len := rfl
  have padding : paddedLength config len = len + config.hmacCryptLen + (8 - (len + config.hmacCryptLen) % 8) := rfl
  have hmac := hmacLlhLen_mod config
  refine ⟨by omega, by omega, by omega, fun k outside => ?_, fun buf received seen same => ⟨?_, ?_, ?_, ?_⟩⟩
  · rw [length] at outside
    rw [sent_eq]
    dsimp only
    rw [start, encryptBlocks_apply (by omega), padded]
    rw [start, writeBlock_apply_of_ne (by omega), writeBlock_apply_of_ne (by omega), pad_apply, if_neg (by omega), memmove,
      Config.totalLlhLen, start, if_neg (by omega)]
  · intro k small
    rw [Nat.add_assoc, plain_eq_padded ethernet inverts same (by omega) (by omega), padded_apply ethernet (by omega),
      if_pos (by omega), Nat.add_sub_cancel_left]
  · intro k above below
    rw [length] at below ⊢
    rw [plain_eq_padded ethernet inverts same (by omega) (by omega), padded_apply ethernet (by omega),
      if_neg (by omega), if_pos below]
    congr 1
    omega
  · refine readId_of_readBlock ?_
    rw [readBlock_congr fun k above below => plain_eq_padded ethernet inverts same above (by omega), padded]
    rw [start, readBlock_writeBlock]
  · intro k outside
    rw [length] at outside
    rw [plain_eq_decrypted, decrypted]
    exact decryptBlocks_apply (by omega) (by omega)

end Ethernet

/-! ### Without one -/

/-- A cipher that is its own inverse. -/
def invert (block : Block) : Block := fun i => block i ^^^ 255

theorem invert_invert (block : Block) : invert (invert block) = block := xor_xor block fun _ => 255

/-- A packet of twenty bytes, in a buffer of zeros: the encryption ends behind the packet. -/
theorem sent_behind (config : Config) (without : config.link ≠ .ethernet) :
    (sent config invert (fun _ => 255) 0 20 fun _ => 0).1
      (config.appdata + (sent config invert (fun _ => 255) 0 20 fun _ => 0).2) ≠ 0 := by
  obtain ⟨link, ipv6, md5⟩ := config
  cases link with
  | ethernet => exact absurd rfl without
  | rfm12 => cases ipv6 <;> cases md5 <;> decide +kernel
  | other => cases ipv6 <;> cases md5 <;> decide +kernel

theorem not_roundTrips (config : Config) (without : config.link ≠ .ethernet) :
    ¬RoundTrips config invert invert (fun _ => 255) 0 20 fun _ => 0 := fun trips =>
  sent_behind config without (trips.sends _ (Or.inr le_rfl))

/-- The packet makes the round trip, for every cipher, if there is an ethernet controller. -/
theorem roundTrips_iff (config : Config) :
    (∀ cast5Enc cast5Dec : Block → Block, (∀ block, cast5Dec (cast5Enc block) = block) →
      ∀ iv seqno len memory, RoundTrips config cast5Enc cast5Dec iv seqno len memory) ↔ config.link = .ethernet := by
  constructor
  · intro trips
    by_contra without
    exact not_roundTrips config without (trips invert invert invert_invert _ 0 20 _)
  · exact fun ethernet _ _ inverts _ _ _ _ => roundTrips_ethernet ethernet inverts

/-- OpenVPN over ZBus, without an ethernet controller. -/
theorem no_roundTrip_zbus : ¬RoundTrips ⟨.other, false, true⟩ invert invert (fun _ => 255) 0 20 fun _ => 0 :=
  not_roundTrips _ nofun

end Ethersex.Openvpn
