import Mathlib

/-!
# Biphase coding and decoding by edge parity

A biphase (Manchester) word spends two half-bits on every bit and changes level
in the middle of each of them.  This module describes the line as a list of
levels, one per half-bit, and the receiver's view of it as the list of gaps
between level changes.

The receiver never samples a level.  It counts edges and half-bits and takes the
parity of the edge count as the value of the bit that has just ended.
`receive_gaps` states that this recovers the transmitted word.
-/

namespace Ethersex.Library.Biphase

/-- The two half-bits of one bit: the level of the bit follows its complement. -/
def halfBits (bit : Bool) : List Bool := [!bit, bit]

/-- The levels of a word, two half-bits per bit. -/
def waveform (bits : List Bool) : List Bool := bits.flatMap halfBits

/-- Numbers of half-bits between successive level changes.  `level` is the
current level of the line and `since` the number of half-bits it has been held
since the last change. -/
def gaps (level : Bool) (since : Nat) : List Bool → List Nat
  | [] => []
  | next :: rest =>
      if next = level then gaps level (since + 1) rest
      else since :: gaps next 1 rest

/-- Value of a word whose most significant bit comes first. -/
def word (start : Nat) (bits : List Bool) : Nat :=
  bits.foldl (fun value bit => 2 * value + bit.toNat) start

@[simp] theorem word_nil (start : Nat) : word start [] = start := rfl

@[simp] theorem word_cons (start : Nat) (bit : Bool) (bits : List Bool) :
    word start (bit :: bits) = word (2 * start + bit.toNat) bits := rfl

theorem word_append (start : Nat) (bits more : List Bool) :
    word start (bits ++ more) = word (word start bits) more := List.foldl_append

theorem word_eq_add (start : Nat) (bits : List Bool) :
    word start bits = start * 2 ^ bits.length + word 0 bits := by
  induction bits generalizing start with
  | nil => simp
  | cons bit bits ih =>
      rw [word_cons, word_cons, ih, ih (2 * 0 + bit.toNat), List.length_cons, Nat.pow_succ]
      ring

theorem word_lt (bits : List Bool) : word 0 bits < 2 ^ bits.length := by
  induction bits with
  | nil => simp
  | cons bit bits ih =>
      rw [word_cons, word_eq_add, List.length_cons, Nat.pow_succ, Nat.mul_zero, Nat.zero_add]
      have := bit.toNat_lt
      have : bit.toNat * 2 ^ bits.length ≤ 1 * 2 ^ bits.length := Nat.mul_le_mul_right _ (by omega)
      omega

/-- Words of one length are told apart by their values. -/
theorem word_injective {left right : List Bool} (length : left.length = right.length)
    (value : word 0 left = word 0 right) : left = right := by
  induction left generalizing right with
  | nil => exact (List.length_eq_zero_iff.mp length.symm).symm
  | cons bit left ih =>
      cases right with
      | nil => exact absurd length (Nat.succ_ne_zero _)
      | cons other right =>
          rw [List.length_cons, List.length_cons, Nat.add_right_cancel_iff] at length
          rw [word_cons, word_cons, word_eq_add, word_eq_add (2 * 0 + other.toNat), length] at value
          have small := word_lt left
          have bound := word_lt right
          rw [length] at small
          have same : bit = other := by
            cases bit <;> cases other <;> simp at value ⊢ <;> omega
          rw [same] at value ⊢
          rw [ih length (by omega)]

/-- Counters of the parity receiver. -/
structure Receiver where
  edges : Nat
  halfBits : Nat
  value : Nat
  deriving DecidableEq, Repr

namespace Receiver

/-- One half-bit has passed.  Every second half-bit completes a bit, whose value
is the parity of the edges seen so far. -/
def halfBit (receiver : Receiver) : Receiver where
  edges := receiver.edges
  halfBits := receiver.halfBits + 1
  value :=
    if (receiver.halfBits + 1) % 2 = 1 then
      2 * receiver.value + receiver.edges % 2
    else
      receiver.value

/-- An edge that ends a gap of `gap` half-bits. -/
def edge (receiver : Receiver) (gap : Nat) : Receiver :=
  let passed := halfBit^[gap] receiver
  { passed with edges := passed.edges + 1 }

@[simp] theorem edges_halfBit_iterate (receiver : Receiver) (count : Nat) :
    (halfBit^[count] receiver).edges = receiver.edges := by
  induction count generalizing receiver with
  | zero => rfl
  | succ count ih => exact ih receiver.halfBit

@[simp] theorem edges_edge (receiver : Receiver) (gap : Nat) :
    (receiver.edge gap).edges = receiver.edges + 1 := by
  simp [edge]

/-- All edges of a list of gaps. -/
def receive (receiver : Receiver) (gaps : List Nat) : Receiver :=
  gaps.foldl edge receiver

@[simp] theorem receive_nil (receiver : Receiver) : receiver.receive [] = receiver := rfl

@[simp] theorem receive_cons (receiver : Receiver) (gap : Nat) (gaps : List Nat) :
    receiver.receive (gap :: gaps) = (receiver.edge gap).receive gaps := rfl

end Receiver

/-- Around the middle of a bit with value `bit` the line shows that bit, an even
number of half-bits has passed and the edge parity equals the bit. -/
structure MidBit (receiver : Receiver) (bit : Bool) : Prop where
  even : receiver.halfBits % 2 = 0
  parity : receiver.edges % 2 = bit.toNat

/-- Equal neighbours are separated by an edge between the bits. -/
theorem gaps_same (bit : Bool) (bits tail : List Bool) :
    gaps bit 1 (waveform (bit :: bits) ++ tail) =
      1 :: 1 :: gaps bit 1 (waveform bits ++ tail) := by
  cases bit <;> simp [waveform, halfBits, gaps]

/-- Different neighbours have no edge between the bits. -/
theorem gaps_change (bit : Bool) (bits tail : List Bool) :
    gaps bit 1 (waveform ((!bit) :: bits) ++ tail) =
      2 :: gaps (!bit) 1 (waveform bits ++ tail) := by
  cases bit <;> simp [waveform, halfBits, gaps]

/-- After its last bit the line returns to the low level, which is an edge exactly
when that bit was a one. -/
theorem gaps_end (bit : Bool) :
    gaps bit 1 (waveform [] ++ [false]) = if bit then [1] else [] := by
  cases bit <;> simp [waveform, gaps]

namespace MidBit

variable {receiver : Receiver} {bit : Bool}

/-- The mid-bit edge of an equal neighbour keeps the parity. -/
theorem same (mid : MidBit receiver bit) :
    MidBit ((receiver.edge 1).edge 1) bit ∧
      ((receiver.edge 1).edge 1).halfBits = receiver.halfBits + 2 ∧
      ((receiver.edge 1).edge 1).value = 2 * receiver.value + bit.toNat := by
  have even := mid.even
  have parity := mid.parity
  have first : (receiver.halfBits + 1) % 2 = 1 := by omega
  have second : ¬(receiver.halfBits + 1 + 1) % 2 = 1 := by omega
  refine ⟨⟨?_, ?_⟩, ?_, ?_⟩
  · simp [Receiver.edge, Receiver.halfBit]
    omega
  · simp only [Receiver.edge, Receiver.halfBit, Function.iterate_one]
    omega
  · simp [Receiver.edge, Receiver.halfBit]
  · simp [Receiver.edge, Receiver.halfBit, first, second, parity]

/-- The mid-bit edge of a different neighbour flips the parity. -/
theorem change (mid : MidBit receiver bit) :
    MidBit (receiver.edge 2) (!bit) ∧
      (receiver.edge 2).halfBits = receiver.halfBits + 2 ∧
      (receiver.edge 2).value = 2 * receiver.value + bit.toNat := by
  have even := mid.even
  have parity := mid.parity
  have first : (receiver.halfBits + 1) % 2 = 1 := by omega
  have second : ¬(receiver.halfBits + 1 + 1) % 2 = 1 := by omega
  refine ⟨⟨?_, ?_⟩, ?_, ?_⟩
  · simp [Receiver.edge, Receiver.halfBit]
    omega
  · simp only [Receiver.edge, Receiver.halfBit, Function.iterate_succ,
      Function.iterate_zero, Function.comp_apply, id_eq]
    cases bit <;> simp_all <;> omega
  · simp [Receiver.edge, Receiver.halfBit]
  · simp [Receiver.edge, Receiver.halfBit, first, second, parity]

end MidBit

/-- The value of a word whose first bit is `bit` and whose last bit is only
completed by an edge if it is a one. -/
def pending (value : Nat) (last : Bool) : Nat :=
  if last then value else 2 * value

/-- From the middle of a bit on, the receiver recovers that bit and all the
following ones.  A trailing zero is the one bit it leaves out, since the line
then ends without an edge. -/
theorem receive_gaps (bits : List Bool) :
    ∀ (receiver : Receiver) (bit : Bool), MidBit receiver bit →
      let received := receiver.receive (gaps bit 1 (waveform bits ++ [false]))
      let last := (bit :: bits).getLast (by simp)
      received.halfBits = receiver.halfBits + 2 * bits.length + last.toNat ∧
        pending received.value last = word receiver.value (bit :: bits) := by
  induction bits with
  | nil =>
      intro receiver bit mid
      have even := mid.even
      have parity := mid.parity
      have odd : (receiver.halfBits + 1) % 2 = 1 := by omega
      cases bit <;>
        simp_all [gaps_end, pending, Receiver.edge, Receiver.halfBit]
  | cons next bits ih =>
      intro receiver bit mid
      by_cases equal : next = bit
      · subst equal
        obtain ⟨midNext, counted, value⟩ := mid.same
        have rest := ih _ next midNext
        rw [gaps_same]
        simp only [Receiver.receive_cons, List.getLast_cons_cons, List.length_cons,
          word_cons] at rest ⊢
        rw [counted, value] at rest
        exact ⟨by omega, rest.2⟩
      · have flipped : next = !bit := by cases next <;> cases bit <;> simp_all
        subst flipped
        obtain ⟨midNext, counted, value⟩ := mid.change
        have rest := ih _ (!bit) midNext
        rw [gaps_change]
        simp only [Receiver.receive_cons, List.getLast_cons_cons, List.length_cons,
          word_cons] at rest ⊢
        rw [counted, value] at rest
        exact ⟨by omega, rest.2⟩

/-- The number of edges never exceeds the number of half-bits plus the final
return to the low level. -/
theorem length_gaps_le (level : Bool) (since : Nat) (levels : List Bool) :
    (gaps level since levels).length ≤ levels.length := by
  induction levels generalizing level since with
  | nil => simp [gaps]
  | cons next rest ih =>
      simp only [gaps]
      split
      · exact Nat.le_succ_of_le (ih level (since + 1))
      · exact Nat.succ_le_succ (ih next 1)

/-- Inside a word every gap is one or two half-bits long. -/
theorem gap_one_or_two (bits : List Bool) (bit : Bool) :
    ∀ gap ∈ gaps bit 1 (waveform bits ++ [false]), gap = 1 ∨ gap = 2 := by
  induction bits generalizing bit with
  | nil => cases bit <;> simp [gaps_end]
  | cons next bits ih =>
      by_cases equal : next = bit
      · subst equal
        rw [gaps_same]
        simpa using ih next
      · have flipped : next = !bit := by cases next <;> cases bit <;> simp_all
        subst flipped
        rw [gaps_change]
        simpa using ih (!bit)

end Ethersex.Library.Biphase
