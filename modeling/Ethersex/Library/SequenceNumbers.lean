import Mathlib

/-!
# Streams and sequence numbers

The bytes of a stream have numbers of 32 bits, which go on from a base.  As long as a stream is shorter than
the numbers go round, a number tells the place; and pieces of the stream that come in any order, and any
number of times, put it together again where each is taken behind what is there already.
-/

namespace Ethersex.Library

section Numbers

variable {base : UInt32} {first second : Nat}

theorem toNat_ofNat_of_lt (small : first < 2 ^ 32) : (UInt32.ofNat first).toNat = first := by
  rw [UInt32.toNat_ofNat', Nat.mod_eq_of_lt small]

theorem ofNat_add_assoc (base : UInt32) (first second : Nat) :
    base + UInt32.ofNat first + UInt32.ofNat second = base + UInt32.ofNat (first + second) := by
  rw [UInt32.ofNat_add, UInt32.add_assoc]

/-- A number tells the place. -/
theorem place_inj (small : first < 2 ^ 32) (less : second < 2 ^ 32)
    (same : base + UInt32.ofNat first = base + UInt32.ofNat second) : first = second := by
  have numbers := congrArg UInt32.toNat (add_left_cancel same)
  rwa [toNat_ofNat_of_lt small, toNat_ofNat_of_lt less] at numbers

/-- How far a place is behind another one that is near. -/
theorem eq_add_of_distance (base : UInt32) (first second : Nat) {near : Nat} (small : first < 2 ^ 32 - near)
    (less : second < 2 ^ 32 - near)
    (close : (base + UInt32.ofNat first - (base + UInt32.ofNat second)).toNat ≤ near) :
    first = second + (base + UInt32.ofNat first - (base + UInt32.ofNat second)).toNat := by
  have distance : base + UInt32.ofNat first - (base + UInt32.ofNat second) =
      UInt32.ofNat first - UInt32.ofNat second := add_sub_add_left_eq_sub ..
  rw [distance, UInt32.toNat_sub, toNat_ofNat_of_lt (by omega), toNat_ofNat_of_lt (by omega)] at close ⊢
  omega

end Numbers

section Pieces

variable {α : Type*} {stream longer received piece : List α} {start ahead : Nat}

/-- A piece of a stream is one of the stream that has grown. -/
theorem piece_of_prefix (stands : piece <+: stream.drop start) (grown : stream <+: longer) :
    piece <+: longer.drop start :=
  stands.trans (grown.drop start)

/-- What is new in a piece comes behind what has been received. -/
theorem received_append (before : received <+: stream) (stands : piece <+: stream.drop start)
    (place : received.length = start + ahead) (count : Nat) :
    received ++ (piece.drop ahead).take count <+: stream := by
  have rest : (piece.drop ahead).take count <+: stream.drop received.length := by
    rw [place, ← List.drop_drop]
    exact (List.take_prefix ..).trans (stands.drop ahead)
  obtain ⟨further, rfl⟩ := before
  rw [List.drop_left] at rest
  exact (List.prefix_append_right_inj received).mpr rest

/-- A piece that ends with the stream brings its end. -/
theorem received_append_all (before : received <+: stream) (stands : piece <+: stream.drop start)
    (place : received.length = start) (ends : start + piece.length = stream.length) : received ++ piece = stream := by
  have next : received.length = start + 0 := place
  have grows := received_append before stands next piece.length
  rw [List.drop_zero, List.take_length] at grows
  exact grows.eq_of_length (by rw [List.length_append, place, ends])

end Pieces

end Ethersex.Library

/-!
## Records

Of numbers that come one after another, those that are greater than all before them.
-/

namespace Ethersex.Library

/-- The least number that is greater than all that have come. -/
def top (numbers : List Nat) : Nat := numbers.foldl (fun bound number => max bound (number + 1)) 0

/-- The numbers that were greater than all before them when they came. -/
def records (numbers : List Nat) : List Nat :=
  (numbers.foldl (fun state number => if state.1 ≤ number then (number + 1, state.2 ++ [number]) else state)
    (0, [])).2

theorem top_append (numbers : List Nat) (number : Nat) : top (numbers ++ [number]) = max (top numbers) (number + 1) := by
  rw [top, List.foldl_append, List.foldl_cons, List.foldl_nil, ← top]

theorem foldl_records (numbers : List Nat) :
    (numbers.foldl (fun state number => if state.1 ≤ number then (number + 1, state.2 ++ [number]) else state)
      ((0, []) : Nat × List Nat)).1 = top numbers := by
  induction numbers using List.reverseRecOn with
  | nil => rfl
  | append_singleton numbers number ih =>
    rw [List.foldl_append, List.foldl_cons, List.foldl_nil, ih, top_append]
    split_ifs with new
    · exact (max_eq_right (by omega)).symm
    · rw [ih]
      exact (max_eq_left (by omega)).symm

/-- One more number. -/
theorem records_append (numbers : List Nat) (number : Nat) :
    records (numbers ++ [number]) = if top numbers ≤ number then records numbers ++ [number] else records numbers := by
  rw [records, List.foldl_append, List.foldl_cons, List.foldl_nil, foldl_records]
  split_ifs <;> rfl

theorem records_lt (numbers : List Nat) : ∀ number ∈ records numbers, number < top numbers := by
  induction numbers using List.reverseRecOn with
  | nil => exact fun number member => absurd member List.not_mem_nil
  | append_singleton numbers number ih =>
    intro other member
    rw [records_append] at member
    rw [top_append]
    split_ifs at member
    · rcases List.mem_append.mp member with old | new
      · exact lt_of_lt_of_le (ih other old) (le_max_left _ _)
      · rw [List.mem_singleton.mp new]
        exact lt_of_lt_of_le (Nat.lt_succ_self _) (le_max_right _ _)
    · exact lt_of_lt_of_le (ih other member) (le_max_left _ _)

/-- What stands at the records of a list keeps its order, and comes once. -/
theorem records_sublist {α : Type*} (items : List α) (default : α) (numbers : List Nat)
    (inside : top numbers ≤ items.length) :
    ((records numbers).map fun number => items.getD number default).Sublist (items.take (top numbers)) := by
  induction numbers using List.reverseRecOn with
  | nil => exact List.nil_sublist _
  | append_singleton numbers number ih =>
    rw [top_append] at inside ⊢
    have before := ih (by omega)
    rw [records_append]
    split_ifs with new
    · have here : number < items.length := by omega
      rw [max_eq_right (by omega), List.take_succ_eq_append_getElem here, List.map_append, List.map_singleton,
        List.getD_eq_getElem _ _ here]
      exact (before.trans (List.take_sublist_take_left new)).append_right _
    · rwa [max_eq_left (by omega)]

end Ethersex.Library
