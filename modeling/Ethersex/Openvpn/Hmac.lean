import Mathlib
import Ethersex.Crypto.Md5

/-!
# The authentication of OpenVPN packets

`openvpn_hmac_calc` hashes the key and the packet in two passes of MD5.  What it computes is HMAC.
-/

namespace Ethersex.Openvpn

open Library Crypto.Md5

/-- HMAC for a hash that works on blocks of so many bytes. -/
def hmac (hash : List UInt8 → List UInt8) (blockSize : Nat) (key text : List UInt8) : List UInt8 :=
  let key := if blockSize < key.length then hash key else key
  let key := key ++ List.replicate (blockSize - key.length) 0
  hash (key.map (· ^^^ 0x5c) ++ hash (key.map (· ^^^ 0x36) ++ text))

/-- `buf`, with the key and one of the two paddings. -/
def keyBlock (hmacKey : Bytes) (char : UInt8) : Bytes := fun k => if k < 16 then hmacKey k ^^^ char else char

/-- `ctx.a`, as bytes in memory. -/
def digestBytes (ctx : Ctx) : Bytes := fun k => byteOf (ctx.a (Fin.ofNat 4 (k / 4))) (k % 4)

/-- `openvpn_hmac_calc`: the sixteen bytes at `dest`. -/
def openvpnHmacCalc (hmacKey src : Bytes) (len : Nat) : Bytes :=
  let ctxInner := md5NextBlock md5Init (keyBlock hmacKey 0x36)
  let ctxInner := md5LastBlock ctxInner src (UInt16.ofNat (8 * len))
  let ctxOuter := md5NextBlock md5Init (keyBlock hmacKey 0x5c)
  let ctxOuter := md5LastBlock ctxOuter (digestBytes ctxInner) 128
  digestBytes ctxOuter

theorem bytes_digestBytes (ctx : Ctx) : bytes 16 (digestBytes ctx) = ctx.words.digest := rfl

theorem bytes_keyBlock (hmacKey : Bytes) (char : UInt8) :
    bytes 64 (keyBlock hmacKey char) = (bytes 16 hmacKey ++ List.replicate 48 0).map (· ^^^ char) := by
  have zeros : (0 : UInt8) ^^^ char = char := UInt8.zero_xor
  rw [List.map_append, List.map_replicate, zeros]
  rfl

/-- The authentication of a packet is HMAC with MD5. -/
theorem openvpnHmacCalc_eq (hmacKey src : Bytes) (len : Nat) (fits : len < 8192) :
    bytes 16 (openvpnHmacCalc hmacKey src len) =
      hmac (fun message => (md5 message).digest) 64 (bytes 16 hmacKey) (bytes len src) := by
  have pass : ∀ (char : UInt8) (data : Bytes) (count : Nat), count < 8192 →
      (md5LastBlock (md5NextBlock md5Init (keyBlock hmacKey char)) data (UInt16.ofNat (8 * count))).words =
        md5 (bytes 64 (keyBlock hmacKey char) ++ bytes count data) := by
    intro char data count small
    have hashed := md5LastBlock_words [keyBlock hmacKey char] data count small (by simp; omega)
    rwa [List.flatMap_cons, List.flatMap_nil, List.append_nil] at hashed
  have inner := pass 0x36 src len fits
  have outer := pass 0x5c (digestBytes
    (md5LastBlock (md5NextBlock md5Init (keyBlock hmacKey 0x36)) src (UInt16.ofNat (8 * len)))) 16 (by omega)
  rw [bytes_digestBytes, inner, bytes_keyBlock, bytes_keyBlock] at outer
  rw [openvpnHmacCalc, bytes_digestBytes]
  rw [show (128 : UInt16) = UInt16.ofNat (8 * 16) from rfl, outer, hmac]
  rfl

theorem openvpnHmacCalc_eq_empty :
    bytes 16 (openvpnHmacCalc (fun _ => 1) (fun _ => 2) 0) =
      hmac (fun message => (md5 message).digest) 64 (bytes 16 fun _ => 1) [] :=
  openvpnHmacCalc_eq _ _ 0 (by decide)

end Ethersex.Openvpn
