import Mathlib
import Ethersex.Library.Ciphers
import Ethersex.Library.Bytes

/-!
# CAST5

`cast5_enc` and `cast5_dec` for any context.  The tables are any ones, and so are the masks and the rotations
that the key gives: decrypting undoes encrypting because of the order of the rounds alone.
-/

namespace Ethersex.Crypto.Cast5

open Library

/-- The tables `s1` to `s4`. -/
structure Sboxes where
  s1 : UInt8 → UInt32
  s2 : UInt8 → UInt32
  s3 : UInt8 → UInt32
  s4 : UInt8 → UInt32

/-- `cast5_ctx_t`. -/
structure Ctx where
  mask : Nat → UInt32
  rotl : Nat → UInt8
  roth : Nat → UInt8
  shortkey : Bool

def ROTL32 (a : UInt32) (n : UInt8) : UInt32 := a <<< n.toUInt32 ||| a >>> (32 - n.toUInt32)

def CHANGE_ENDIAN32 (x : UInt32) : UInt32 :=
  x <<< 24 ||| x >>> 24 ||| (x &&& 0xff00) <<< 8 ||| (x &&& 0xff0000) >>> 8

section Rounds

variable (sboxes : Sboxes)

/-- The bytes of a word, the one that `IA` tells first. -/
def IA (t : UInt32) : UInt8 := (t >>> 24).toUInt8

def IB (t : UInt32) : UInt8 := (t >>> 16).toUInt8

def IC (t : UInt32) : UInt8 := (t >>> 8).toUInt8

def ID (t : UInt32) : UInt8 := t.toUInt8

def f1 (d m : UInt32) (r : UInt8) : UInt32 :=
  let t := ROTL32 (d + m) r
  ((sboxes.s1 (IA t) ^^^ sboxes.s2 (IB t)) - sboxes.s3 (IC t)) + sboxes.s4 (ID t)

def f2 (d m : UInt32) (r : UInt8) : UInt32 :=
  let t := ROTL32 (d ^^^ m) r
  ((sboxes.s1 (IA t) - sboxes.s2 (IB t)) + sboxes.s3 (IC t)) ^^^ sboxes.s4 (ID t)

def f3 (d m : UInt32) (r : UInt8) : UInt32 :=
  let t := ROTL32 (m - d) r
  ((sboxes.s1 (IA t) + sboxes.s2 (IB t)) ^^^ sboxes.s3 (IC t)) - sboxes.s4 (ID t)

/-- The rotation of a round: one bit from `roth`, and four from `rotl`. -/
def Ctx.rotation (s : Ctx) (i : Nat) : UInt8 :=
  let high : UInt8 := if s.roth (i >>> 3) &&& (1 <<< UInt8.ofNat (i &&& 7)) ≠ 0 then 0x10 else 0
  let low : UInt8 := (s.rotl (i >>> 1) >>> (if i &&& 1 ≠ 0 then 4 else 0)) &&& 0x0f
  high + low

/-- What a round combines with `l`. -/
def Ctx.round (s : Ctx) (i : Nat) (r : UInt32) : UInt32 :=
  let f := if i % 3 = 0 then f1 sboxes else if i % 3 = 1 then f2 sboxes else f3 sboxes
  CHANGE_ENDIAN32 (f (CHANGE_ENDIAN32 r) (CHANGE_ENDIAN32 (s.mask i)) (s.rotation i))

def Ctx.rounds (s : Ctx) : Nat := if s.shortkey then 12 else 16

end Rounds

/-! ## The words of a block -/

/-- Eight bytes, as two little-endian words. -/
abbrev Block := Fin 8 → UInt8

/-- `((uint32_t*)block)[0]` and `((uint32_t*)block)[1]`. -/
def words (block : Block) : UInt32 × UInt32 :=
  (wordOf (block 0) (block 1) (block 2) (block 3), wordOf (block 4) (block 5) (block 6) (block 7))

/-- A block with these words. -/
def ofWords (words : UInt32 × UInt32) : Block :=
  ![byteOf words.1 0, byteOf words.1 1, byteOf words.1 2, byteOf words.1 3,
    byteOf words.2 0, byteOf words.2 1, byteOf words.2 2, byteOf words.2 3]

theorem ofWords_words (block : Block) : ofWords (words block) = block := by
  have low := byteOf_wordOf (block 0) (block 1) (block 2) (block 3)
  have high := byteOf_wordOf (block 4) (block 5) (block 6) (block 7)
  funext i
  fin_cases i
  · exact low.1
  · exact low.2.1
  · exact low.2.2.1
  · exact low.2.2.2
  · exact high.1
  · exact high.2.1
  · exact high.2.2.1
  · exact high.2.2.2

theorem words_ofWords (halves : UInt32 × UInt32) : words (ofWords halves) = halves :=
  Prod.ext (wordOf_byteOf halves.1) (wordOf_byteOf halves.2)

/-! ## Encrypting and decrypting -/

section Cipher

variable (sboxes : Sboxes) (s : Ctx)

/-- A pass of the loops: `x = r; r = l ^ CHANGE_ENDIAN32 (y); l = x`. -/
def pass (halves : UInt32 × UInt32) (i : Nat) : UInt32 × UInt32 :=
  (halves.2, halves.1 ^^^ s.round sboxes i halves.2)

/-- `cast5_enc`. -/
def cast5Enc (block : Block) : Block :=
  let halves := (List.range s.rounds).foldl (pass sboxes s) (words block)
  ofWords (halves.2, halves.1)

/-- `cast5_dec`, whose loop counts down. -/
def cast5Dec (block : Block) : Block :=
  let halves := (List.range s.rounds).reverse.foldl (pass sboxes s) (words block)
  ofWords (halves.2, halves.1)

/-- The loops are a Feistel network. -/
theorem foldl_pass (indices : List Nat) (halves : UInt32 × UInt32) :
    (indices.foldl (pass sboxes s) halves).swap =
      feistel (fun half other => half ^^^ other) (indices.map (s.round sboxes)) halves := by
  rw [feistel, List.foldl_map]
  rfl

theorem xor_cancels (half other : UInt32) : half ^^^ other ^^^ other = half := by
  rw [UInt32.xor_assoc, UInt32.xor_self, UInt32.xor_zero]

variable {sboxes s}

theorem cast5Enc_eq (block : Block) : cast5Enc sboxes s block =
    ofWords (feistel (fun half other => half ^^^ other) ((List.range s.rounds).map (s.round sboxes)) (words block)) := by
  rw [← foldl_pass]
  rfl

theorem cast5Dec_eq (block : Block) : cast5Dec sboxes s block =
    ofWords (feistel (fun half other => half ^^^ other) ((List.range s.rounds).map (s.round sboxes)).reverse
      (words block)) := by
  rw [← List.map_reverse, ← foldl_pass]
  rfl

/-- Decrypting undoes encrypting. -/
theorem cast5Dec_cast5Enc (block : Block) : cast5Dec sboxes s (cast5Enc sboxes s block) = block := by
  rw [cast5Dec_eq, cast5Enc_eq, words_ofWords, feistel_reverse_feistel xor_cancels, ofWords_words]

/-- Encrypting undoes decrypting. -/
theorem cast5Enc_cast5Dec (block : Block) : cast5Enc sboxes s (cast5Dec sboxes s block) = block := by
  have back := feistel_reverse_feistel xor_cancels ((List.range s.rounds).map (s.round sboxes)).reverse (words block)
  rw [List.reverse_reverse] at back
  rw [cast5Enc_eq, cast5Dec_eq, words_ofWords, back, ofWords_words]

/-- For any tables and any context, the two undo each other. -/
theorem cast5_inverse (sboxes : Sboxes) (s : Ctx) :
    Function.LeftInverse (cast5Dec sboxes s) (cast5Enc sboxes s) ∧
      Function.RightInverse (cast5Dec sboxes s) (cast5Enc sboxes s) :=
  ⟨cast5Dec_cast5Enc, cast5Enc_cast5Dec⟩

end Cipher

end Ethersex.Crypto.Cast5
