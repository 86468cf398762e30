import Mathlib
import Ethersex.Library.Bytes

/-!
# MD5

`md5_nextBlock` turns the roles of four words in an array from step to step, where the definition of the hash
moves the words; and `md5_lastBlock` pads what is left.  The hash of a message is that of its definition,
however much of it has gone through `md5_nextBlock`.
-/

namespace Ethersex.Crypto.Md5

open Library

/-! ## The definition of the hash -/

/-- The constants of the steps. -/
def md5_T : List UInt32 :=
  [0xd76aa478, 0xe8c7b756, 0x242070db, 0xc1bdceee, 0xf57c0faf,
   0x4787c62a, 0xa8304613, 0xfd469501, 0x698098d8, 0x8b44f7af,
   0xffff5bb1, 0x895cd7be, 0x6b901122, 0xfd987193, 0xa679438e,
   0x49b40821, 0xf61e2562, 0xc040b340, 0x265e5a51, 0xe9b6c7aa,
   0xd62f105d, 0x02441453, 0xd8a1e681, 0xe7d3fbc8, 0x21e1cde6,
   0xc33707d6, 0xf4d50d87, 0x455a14ed, 0xa9e3e905, 0xfcefa3f8,
   0x676f02d9, 0x8d2a4c8a, 0xfffa3942, 0x8771f681, 0x6d9d6122,
   0xfde5380c, 0xa4beea44, 0x4bdecfa9, 0xf6bb4b60, 0xbebfbc70,
   0x289b7ec6, 0xeaa127fa, 0xd4ef3085, 0x04881d05, 0xd9d4d039,
   0xe6db99e5, 0x1fa27cf8, 0xc4ac5665, 0xf4292244, 0x432aff97,
   0xab9423a7, 0xfc93a039, 0x655b59c3, 0x8f0ccc92, 0xffeff47d,
   0x85845dd1, 0x6fa87e4f, 0xfe2ce6e0, 0xa3014314, 0x4e0811a1,
   0xf7537e82, 0xbd3af235, 0x2ad7d2bb, 0xeb86d391]

def md5_F (x y z : UInt32) : UInt32 := (x &&& y) ||| (~~~x &&& z)

def md5_G (x y z : UInt32) : UInt32 := (x &&& z) ||| (~~~z &&& y)

def md5_H (x y z : UInt32) : UInt32 := x ^^^ y ^^^ z

def md5_I (x y z : UInt32) : UInt32 := y ^^^ (x ||| ~~~z)

def ROTL32 (x : UInt32) (n : UInt8) : UInt32 := x <<< n.toUInt32 ||| x >>> (32 - n.toUInt32)

/-- The function of a round. -/
def func : Nat → UInt32 → UInt32 → UInt32 → UInt32
  | 0 => md5_F
  | 1 => md5_G
  | 2 => md5_H
  | _ => md5_I

/-- The four words of the hash. -/
structure Words where
  a : UInt32
  b : UInt32
  c : UInt32
  d : UInt32
  deriving DecidableEq

def Words.start : Words := ⟨0x67452301, 0xefcdab89, 0x98badcfe, 0x10325476⟩

def Words.add (left right : Words) : Words :=
  ⟨left.a + right.a, left.b + right.b, left.c + right.c, left.d + right.d⟩

/-- The sixteen words of a block. -/
def blockWord (block : Bytes) (k : Nat) : UInt32 :=
  wordOf (block (4 * k)) (block (4 * k + 1)) (block (4 * k + 2)) (block (4 * k + 3))

/-- Which word of the block a step takes. -/
def stepWord (step : Nat) : Nat :=
  match step / 16 with
  | 0 => step % 16
  | 1 => (5 * step + 1) % 16
  | 2 => (3 * step + 5) % 16
  | _ => 7 * step % 16

/-- By how much a step rotates. -/
def stepShift (step : Nat) : UInt8 :=
  [[7, 12, 17, 22], [5, 9, 14, 20], [4, 11, 16, 23], [6, 10, 15, 21]][step / 16]!.getD (step % 4) 0

/-- A step of the hash, which moves the words. -/
def hashStep (block : Bytes) (words : Words) (step : Nat) : Words where
  a := words.d
  b := words.b + ROTL32 (words.a + func (step / 16) words.b words.c words.d +
    blockWord block (stepWord step) + md5_T.getD step 0) (stepShift step)
  c := words.b
  d := words.c

/-- A block goes into the hash. -/
def compress (words : Words) (block : Bytes) : Words :=
  words.add ((List.range 64).foldl (hashStep block) words)

/-- The bytes that are put behind a message: a single bit, and its length in bits. -/
def padding (length : Nat) : List UInt8 :=
  0x80 :: List.replicate ((119 - length % 64) % 64) 0 ++
    (List.range 8).map fun k => UInt8.ofNat (8 * length / 256 ^ k)

/-- Blocks of data go into the hash. -/
def absorb : Words → List UInt8 → (count : Nat) → Words
  | words, _, 0 => words
  | words, data, count + 1 => absorb (compress words fun k => data.getD k 0) (data.drop 64) count

/-- The hash of a message. -/
def md5 (message : List UInt8) : Words :=
  let padded := message ++ padding message.length
  absorb .start padded (padded.length / 64)

/-- The bytes of the hash. -/
def Words.digest (words : Words) : List UInt8 :=
  [words.a, words.b, words.c, words.d].flatMap fun w => (List.range 4).map (byteOf w)

set_option maxRecDepth 10000 in
example : (md5 [0x61, 0x62, 0x63]).digest =
    [0x90, 0x01, 0x50, 0x98, 0x3c, 0xd2, 0x4f, 0xb0, 0xd6, 0x96, 0x3f, 0x7d, 0x28, 0xe1, 0x7f, 0x72] := by decide

/-! ## The blocks of the code -/

/-- `md5_ctx_t`. -/
structure Ctx where
  a : Fin 4 → UInt32
  counter : UInt32

/-- `md5_init`. -/
def md5Init : Ctx := ⟨![0x67452301, 0xefcdab89, 0x98badcfe, 0x10325476], 0⟩

/-- The arguments of a call of `md5_core`. -/
structure Call where
  as : UInt8
  k : UInt8
  s : UInt8
  i : UInt8
  fi : Nat
  deriving DecidableEq

/-! The numerals of the four words. -/

scoped instance neZero_words : NeZero 4 := ⟨by decide⟩

/-- `x & 3`, as an index. -/
def slot (x : UInt8) : Fin 4 := Fin.ofNat 4 x.toNat

/-- `md5_core`. -/
def md5Core (block : Bytes) (a : Fin 4 → UInt32) (call : Call) : Fin 4 → UInt32 :=
  let t := a (slot call.as) + func call.fi (a (slot (call.as + 1))) (a (slot (call.as + 2))) (a (slot (call.as + 3))) +
    blockWord block call.k.toNat + md5_T.getD call.i.toNat 0
  Function.update a (slot call.as) (a (slot (call.as + 1)) + ROTL32 t call.s)

/-- Which word of the block the four pairs of loops take. -/
def index (m n : UInt8) : Nat → UInt8
  | 0 => m * 4 + n
  | 1 => (1 + m * 4 + n * 5) &&& 0xf
  | 2 => (5 - m * 4 + n * 3) &&& 0xf
  | _ => (0 - m * 4 + n * 7) &&& 0xf

/-- `s1t` to `s4t`. -/
def shifts : Nat → List UInt8
  | 0 => [7, 12, 17, 22]
  | 1 => [5, 9, 14, 20]
  | 2 => [4, 11, 16, 23]
  | _ => [6, 10, 15, 21]

/-- The calls that `md5_nextBlock` makes, round by round. -/
def calls : List Call :=
  (List.range 4).flatMap fun fi => (List.range 4).flatMap fun m => (List.range 4).map fun n =>
    ⟨4 - UInt8.ofNat n, index (UInt8.ofNat m) (UInt8.ofNat n) fi, (shifts fi).getD n 0,
      UInt8.ofNat (16 * fi + 4 * m + n), fi⟩

/-- `md5_nextBlock`. -/
def md5NextBlock (state : Ctx) (block : Bytes) : Ctx where
  a k := state.a k + calls.foldl (md5Core block) state.a k
  counter := state.counter + 1

/-- The call that makes a step of the hash. -/
def stepCall (step : Nat) : Call :=
  ⟨4 - UInt8.ofNat (step % 4), UInt8.ofNat (stepWord step), stepShift step, UInt8.ofNat step, step / 16⟩

theorem calls_eq : calls = (List.range 64).map stepCall := by decide

/-- The words in an array in which they have been turned. -/
def view (a : Fin 4 → UInt32) (step : Nat) : Words :=
  ⟨a (slot (4 - UInt8.ofNat (step % 4))), a (slot (5 - UInt8.ofNat (step % 4))),
    a (slot (6 - UInt8.ofNat (step % 4))), a (slot (7 - UInt8.ofNat (step % 4)))⟩

theorem stepWord_lt (step : Nat) : stepWord step < 16 := by
  rw [stepWord]
  split <;> omega

/-- A call makes a step, and turns the array on. -/
theorem view_md5Core (block : Bytes) (a : Fin 4 → UInt32) {step : Nat} (small : step < 64) :
    view (md5Core block a (stepCall step)) (step + 1) = hashStep block (view a step) step := by
  have taken : (UInt8.ofNat (stepWord step)).toNat = stepWord step := by
    have bound := stepWord_lt step
    rw [UInt8.toNat_ofNat', Nat.mod_eq_of_lt (by omega)]
  have constant : (UInt8.ofNat step).toNat = step := by
    rw [UInt8.toNat_ofNat', Nat.mod_eq_of_lt (by omega)]
  rw [md5Core, stepCall, hashStep]
  simp only [taken, constant, view]
  have turn : step % 4 = 0 ∧ (step + 1) % 4 = 1 ∨ step % 4 = 1 ∧ (step + 1) % 4 = 2 ∨
      step % 4 = 2 ∧ (step + 1) % 4 = 3 ∨ step % 4 = 3 ∧ (step + 1) % 4 = 0 := by omega
  obtain ⟨this, next⟩ | ⟨this, next⟩ | ⟨this, next⟩ | ⟨this, next⟩ := turn
  · rw [this, next]
    rfl
  · rw [this, next]
    rfl
  · rw [this, next]
    rfl
  · rw [this, next]
    rfl

theorem view_foldl (block : Bytes) (a : Fin 4 → UInt32) (count : Nat) (small : count ≤ 64) :
    view (((List.range count).map stepCall).foldl (md5Core block) a) count =
      (List.range count).foldl (hashStep block) (view a 0) := by
  induction count with
  | zero => rfl
  | succ count ih =>
    rw [List.range_succ, List.map_append, List.foldl_append, List.foldl_append, ← ih (by omega)]
    exact view_md5Core block _ (by omega)

/-- The words of a state. -/
def Ctx.words (state : Ctx) : Words := ⟨state.a 0, state.a 1, state.a 2, state.a 3⟩

/-- A block goes into the hash. -/
theorem words_md5NextBlock (state : Ctx) (block : Bytes) :
    (md5NextBlock state block).words = compress state.words block := by
  have after := view_foldl block state.a 64 le_rfl
  rw [← calls_eq] at after
  have start : view state.a 0 = state.words := rfl
  have whole : view (calls.foldl (md5Core block) state.a) 64 =
    ⟨calls.foldl (md5Core block) state.a 0, calls.foldl (md5Core block) state.a 1,
      calls.foldl (md5Core block) state.a 2, calls.foldl (md5Core block) state.a 3⟩ := rfl
  rw [compress, ← start, ← after, whole]
  rfl

/-! ## Messages -/

/-- The passes of the loop of `md5_lastBlock`. -/
def wholeBlocks : (passes : Nat) → Ctx → Bytes → Ctx
  | 0, state, _ => state
  | passes + 1, state, block => wholeBlocks passes (md5NextBlock state block) fun k => block (64 + k)

/-- The block behind the loop: what is left, and the padding one. -/
def lastBytes (block : Bytes) (length : Nat) : Bytes := fun k =>
  let l := length / 8
  if k < l then block k
  else if k = l then if length % 8 ≠ 0 then block l ||| (0x80 >>> UInt8.ofNat (length % 8)) else 0x80
  else 0

/-- The length is put at the end of a block. -/
def withLength (number : UInt32) (b : Bytes) : Bytes := fun k =>
  if k < 56 then b k else if k < 60 then byteOf number (k - 56) else 0

/-- What `md5_lastBlock` does behind its loop, for a length below 512 bits. -/
def lastBits (state : Ctx) (block : Bytes) (length : Nat) : Ctx :=
  let b := lastBytes block length
  if 64 ≤ length / 8 + 8 then
    let next := md5NextBlock state b
    let state := { next with counter := next.counter - 1 }
    md5NextBlock state (withLength (state.counter * 512 + UInt32.ofNat length) fun _ => 0)
  else md5NextBlock state (withLength (state.counter * 512 + UInt32.ofNat length) b)

/-- `md5_lastBlock`, with a length in bits. -/
def md5LastBlock (state : Ctx) (block : Bytes) (length : UInt16) : Ctx :=
  let passes := length.toNat / 512
  lastBits (wholeBlocks passes state block) (fun k => block (64 * passes + k)) (length.toNat % 512)

/-- The first bytes in a memory. -/
def bytes (count : Nat) (memory : Bytes) : List UInt8 := (List.range count).map memory

@[simp] theorem length_bytes (count : Nat) (memory : Bytes) : (bytes count memory).length = count := by
  rw [bytes, List.length_map, List.length_range]

theorem bytes_getD {count k : Nat} (memory : Bytes) (inside : k < count) (rest : List UInt8) :
    (bytes count memory ++ rest).getD k 0 = memory k := by
  rw [List.getD_append _ _ _ _ (by simpa using inside), bytes, List.getD_eq_getElem _ _ (by simpa using inside),
    List.getElem_map, List.getElem_range]

theorem compress_congr (words : Words) {block other : Bytes} (agree : AgreeTo 64 block other) :
    compress words block = compress words other := by
  have step : ∀ (words : Words) (step : Nat), hashStep block words step = hashStep other words step := by
    intro words step
    have bound := stepWord_lt step
    have same : blockWord block (stepWord step) = blockWord other (stepWord step) := by
      rw [blockWord, blockWord, agree _ (by omega), agree _ (by omega), agree _ (by omega), agree _ (by omega)]
    rw [hashStep, hashStep, same]
  rw [compress, compress, funext₂ step]

theorem absorb_bytes (words : Words) (block : Bytes) (rest : List UInt8) (count : Nat) :
    absorb words (bytes 64 block ++ rest) (count + 1) = absorb (compress words block) rest count := by
  have first : AgreeTo 64 (fun k => (bytes 64 block ++ rest).getD k 0) block :=
    fun k inside => bytes_getD block inside rest
  rw [absorb, compress_congr words first, List.drop_left' (length_bytes 64 block)]

/-- The last eight bytes of the padding are the length. -/
theorem withLength_agree {total : Nat} (short : 8 * total < 2 ^ 32) (b : Bytes) :
    AgreeTo 64 (fun k => (bytes 56 b ++ (List.range 8).map fun k => UInt8.ofNat (8 * total / 256 ^ k)).getD k 0)
      (withLength (UInt32.ofNat (8 * total)) b) := by
  intro k inside
  rw [withLength]
  split_ifs with front low
  · exact bytes_getD b front _
  · dsimp only
    rw [List.getD_append_right _ _ _ _ (by simpa using not_lt.mp front), length_bytes,
      List.getD_eq_getElem _ _ (by simp; omega), List.getElem_map, List.getElem_range, byteOf, UInt32.toNat_ofNat',
      Nat.mod_eq_of_lt short]
  · dsimp only
    rw [List.getD_append_right _ _ _ _ (by simpa using not_lt.mp front), length_bytes,
      List.getD_eq_getElem _ _ (by simp; omega), List.getElem_map, List.getElem_range,
      Nat.div_eq_of_lt (lt_of_lt_of_le short ?_)]
    · rfl
    · have power : 256 ^ 4 ≤ 256 ^ (k - 56) := Nat.pow_le_pow_right (by omega) (by omega)
      exact le_trans (by norm_num) power

/-- The block behind the loop begins with what is left and the padding one. -/
theorem bytes_lastBytes (block : Bytes) {l : Nat} (zeros : Nat) :
    bytes (l + 1 + zeros) (lastBytes block (8 * l)) = bytes l block ++ 0x80 :: List.replicate zeros 0 := by
  have bits : 8 * l / 8 = l := by omega
  have whole : ¬8 * l % 8 ≠ 0 := by omega
  refine List.ext_getElem (by simp; omega) fun k inside _ => ?_
  simp only [bytes, List.getElem_map, List.getElem_range, lastBytes, bits, whole, if_false]
  rcases lt_trichotomy k l with front | rfl | behind
  · rw [if_pos front, List.getElem_append_left (by simpa using front), List.getElem_map, List.getElem_range]
  · rw [if_neg (lt_irrefl k), if_pos rfl, List.getElem_append_right (by simp)]
    simp
  · rw [if_neg (by omega), if_neg (by omega), List.getElem_append_right (by simpa using behind.le)]
    simp only [List.length_map, List.length_range]
    rw [List.getElem_cons, dif_neg (by omega), List.getElem_replicate]

/-- One block of data goes into the hash. -/
theorem absorb_one (words : Words) {data : List UInt8} {block : Bytes}
    (agree : AgreeTo 64 (fun k => data.getD k 0) block) : absorb words data 1 = compress words block := by
  rw [absorb, absorb, compress_congr words agree]

/-- What is left goes into the hash with the padding. -/
theorem words_lastBits {state : Ctx} (block : Bytes) {l done : Nat} (small : l < 64) (short : 8 * (64 * done + l) < 2 ^ 32)
    (counter : state.counter = UInt32.ofNat done) :
    (lastBits state block (8 * l)).words =
      absorb state.words (bytes l block ++ padding (64 * done + l))
        ((bytes l block ++ padding (64 * done + l)).length / 64) := by
  have number : state.counter * 512 + UInt32.ofNat (8 * l) = UInt32.ofNat (8 * (64 * done + l)) := by
    rw [counter, ← UInt32.toNat_inj, UInt32.toNat_add, UInt32.toNat_mul, UInt32.toNat_ofNat', UInt32.toNat_ofNat',
      UInt32.toNat_ofNat', show (512 : UInt32).toNat = 512 from rfl]
    omega
  have place : (64 * done + l) % 64 = l := by omega
  rw [lastBits, padding, place]
  split_ifs with long
  · have zeros : (119 - l) % 64 = 63 - l + 56 := by omega
    have front := bytes_lastBytes block (l := l) (63 - l)
    rw [show l + 1 + (63 - l) = 64 by omega] at front
    have empty : List.replicate 56 (0 : UInt8) = bytes 56 fun _ => 0 := rfl
    have all : bytes l block ++ (0x80 :: List.replicate (63 - l + 56) 0 ++
        (List.range 8).map fun k => UInt8.ofNat (8 * (64 * done + l) / 256 ^ k)) =
        bytes 64 (lastBytes block (8 * l)) ++ (bytes 56 (fun _ => 0) ++
          (List.range 8).map fun k => UInt8.ofNat (8 * (64 * done + l) / 256 ^ k)) := by
      rw [front, ← empty, List.replicate_add, ← List.cons_append, List.append_assoc, List.append_assoc]
    have counted : (md5NextBlock state (lastBytes block (8 * l))).counter - 1 = state.counter :=
      add_sub_cancel_right state.counter 1
    have length : (bytes 64 (lastBytes block (8 * l)) ++ (bytes 56 (fun _ => 0) ++
        (List.range 8).map fun k => UInt8.ofNat (8 * (64 * done + l) / 256 ^ k))).length / 64 = 1 + 1 := by simp
    rw [zeros, all, length, absorb_bytes, absorb_one _ (withLength_agree short _)]
    dsimp only
    rw [counted, number, words_md5NextBlock]
    exact congrArg (compress · _) (words_md5NextBlock state _)
  · have zeros : (119 - l) % 64 = 55 - l := by omega
    have front := bytes_lastBytes block (l := l) (55 - l)
    rw [show l + 1 + (55 - l) = 56 by omega] at front
    have all : bytes l block ++ (0x80 :: List.replicate (55 - l) 0 ++
        (List.range 8).map fun k => UInt8.ofNat (8 * (64 * done + l) / 256 ^ k)) =
        bytes 56 (lastBytes block (8 * l)) ++
          (List.range 8).map fun k => UInt8.ofNat (8 * (64 * done + l) / 256 ^ k) := by
      rw [front, List.append_assoc]
    rw [zeros, all, number, words_md5NextBlock]
    have length : (bytes 56 (lastBytes block (8 * l)) ++
        (List.range 8).map fun k => UInt8.ofNat (8 * (64 * done + l) / 256 ^ k)).length / 64 = 1 := by simp
    rw [length, absorb_one _ (withLength_agree short _)]

/-- The loop of `md5_lastBlock` takes the whole blocks of the data. -/
theorem wholeBlocks_words {state : Ctx} {done : Nat} (block : Bytes) (passes : Nat)
    (counter : state.counter = UInt32.ofNat done) (rest : List UInt8) (count : Nat) :
    (wholeBlocks passes state block).counter = UInt32.ofNat (done + passes) ∧
      absorb state.words (bytes (64 * passes) block ++ rest) (passes + count) =
        absorb (wholeBlocks passes state block).words rest count := by
  induction passes generalizing state block done with
  | zero => exact ⟨counter, by simp [bytes, wholeBlocks]⟩
  | succ passes ih =>
    have next : (md5NextBlock state block).counter = UInt32.ofNat (done + 1) := by
      rw [md5NextBlock, counter, UInt32.ofNat_add]
      rfl
    obtain ⟨counted, same⟩ := ih (fun k => block (64 + k)) next
    refine ⟨by rw [wholeBlocks, counted, Nat.add_right_comm, Nat.add_assoc], ?_⟩
    have parts : bytes (64 * (passes + 1)) block = bytes 64 block ++ bytes (64 * passes) fun k => block (64 + k) := by
      rw [bytes, bytes, bytes, Nat.mul_succ, Nat.add_comm, List.range_add, List.map_append, List.map_map]
      rfl
    rw [parts, List.append_assoc, Nat.add_right_comm, absorb_bytes, ← words_md5NextBlock, same, wholeBlocks]

theorem length_flatMap_bytes (blocks : List Bytes) : (blocks.flatMap (bytes 64)).length = 64 * blocks.length := by
  rw [List.length_flatMap]
  simp [Nat.mul_comm]

/-- What has gone through `md5_nextBlock`, block by block. -/
theorem foldl_md5NextBlock (blocks : List Bytes) (state : Ctx) (done : Nat) (counter : state.counter = UInt32.ofNat done)
    (rest : List UInt8) (count : Nat) :
    (blocks.foldl md5NextBlock state).counter = UInt32.ofNat (done + blocks.length) ∧
      absorb state.words (blocks.flatMap (bytes 64) ++ rest) (blocks.length + count) =
        absorb (blocks.foldl md5NextBlock state).words rest count := by
  induction blocks generalizing state done with
  | nil => exact ⟨counter, by simp⟩
  | cons block later ih =>
    have next : (md5NextBlock state block).counter = UInt32.ofNat (done + 1) := by
      rw [md5NextBlock, counter, UInt32.ofNat_add]
      rfl
    obtain ⟨counted, same⟩ := ih _ _ next
    rw [List.foldl_cons, List.length_cons, List.flatMap_cons]
    refine ⟨by rw [counted, Nat.add_right_comm, Nat.add_assoc], ?_⟩
    rw [List.append_assoc, Nat.add_right_comm, absorb_bytes, ← words_md5NextBlock, same]

/-- The hash of a message that goes through `md5_nextBlock` as far as one likes, and then through `md5_lastBlock`. -/
theorem md5LastBlock_words (blocks : List Bytes) (block : Bytes) (len : Nat) (fits : len < 8192)
    (short : 64 * blocks.length + len < 2 ^ 29) :
    (md5LastBlock (blocks.foldl md5NextBlock md5Init) block (UInt16.ofNat (8 * len))).words =
      md5 (blocks.flatMap (bytes 64) ++ bytes len block) := by
  have length : (UInt16.ofNat (8 * len)).toNat = 8 * len := by
    rw [UInt16.toNat_ofNat', Nat.mod_eq_of_lt (by omega)]
  have passes : 8 * len / 512 = len / 64 := by omega
  have bits : 8 * len % 512 = 8 * (len % 64) := by omega
  have parts : bytes len block =
      bytes (64 * (len / 64)) block ++ bytes (len % 64) fun k => block (64 * (len / 64) + k) := by
    rw [bytes, bytes, bytes]
    conv_lhs => rw [← Nat.div_add_mod len 64, List.range_add, List.map_append, List.map_map]
    rfl
  have total : (blocks.flatMap (bytes 64) ++ bytes len block).length =
      64 * (blocks.length + len / 64) + len % 64 := by
    rw [List.length_append, length_flatMap_bytes, length_bytes]
    omega
  rw [md5LastBlock, length, passes, bits, md5, total, parts]
  generalize remains : (bytes (len % 64) fun k => block (64 * (len / 64) + k)) ++
    padding (64 * (blocks.length + len / 64) + len % 64) = rest
  have count : (blocks.flatMap (bytes 64) ++ (bytes (64 * (len / 64)) block ++ rest)).length / 64 =
      blocks.length + (len / 64 + rest.length / 64) := by
    rw [List.length_append, List.length_append, length_flatMap_bytes, length_bytes]
    omega
  obtain ⟨first, begun⟩ := foldl_md5NextBlock blocks md5Init 0 rfl
    (bytes (64 * (len / 64)) block ++ rest) (len / 64 + rest.length / 64)
  rw [Nat.zero_add] at first
  obtain ⟨second, goes⟩ := wholeBlocks_words block (len / 64) first rest (rest.length / 64)
  have ends := words_lastBits (fun k => block (64 * (len / 64) + k)) (Nat.mod_lt len (by omega)) (by omega) second
  rw [List.append_assoc, List.append_assoc, remains, count]
  rw [remains] at ends
  exact ends.trans (goes.symm.trans begun.symm)

end Ethersex.Crypto.Md5
