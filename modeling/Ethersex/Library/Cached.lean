import Mathlib

/-!
# A block that is kept in memory

A large array whose elements are moved in blocks, one of which is kept in memory, and may be newer there.  What is
behind the two is again an array.
-/

namespace Ethersex.Library

variable {α : Type*}

/-- A run of values put into an array. -/
def put (array : Nat → α) (offset : Nat) (values : List α) : Nat → α :=
  fun k => if offset ≤ k then values.getD (k - offset) (array k) else array k

/-- The values from an offset on. -/
def get (array : Nat → α) (offset count : Nat) : List α := (List.range count).map fun i => array (offset + i)

section Pieces

variable (array : Nat → α) (offset : Nat)

@[simp] theorem put_nil : put array offset [] = array := by
  ext k
  rw [put]
  split_ifs
  · rw [List.getD_nil]
  · rfl

theorem put_apply (values : List α) (k : Nat) :
    put array offset values k =
      if inside : offset ≤ k ∧ k - offset < values.length then values[k - offset] else array k := by
  rw [put]
  by_cases less : offset ≤ k
  · rw [if_pos less]
    split_ifs with inside
    · rw [List.getD_eq_getElem _ _ inside.2]
    · exact List.getD_eq_default _ _ (by omega)
  · rw [if_neg less, dif_neg (fun inside => less inside.1)]

/-- A long run is put as two runs. -/
theorem put_append (first second : List α) :
    put array offset (first ++ second) = put (put array offset first) (offset + first.length) second := by
  ext k
  simp only [put_apply, List.length_append]
  by_cases behind : offset + first.length ≤ k ∧ k - (offset + first.length) < second.length
  · rw [dif_pos behind, dif_pos (by omega), List.getElem_append_right (by omega)]
    congr 1
    omega
  · rw [dif_neg behind]
    by_cases front : offset ≤ k ∧ k - offset < first.length
    · rw [dif_pos front, dif_pos (by omega), List.getElem_append_left front.2]
    · rw [dif_neg front, dif_neg (by omega)]

@[simp] theorem length_get (count : Nat) : (get array offset count).length = count := by
  rw [get, List.length_map, List.length_range]

theorem get_add (first second : Nat) :
    get array offset (first + second) = get array offset first ++ get array (offset + first) second := by
  simp only [get, List.range_add, List.map_append, List.map_map, Function.comp_def, Nat.add_assoc]

theorem get_congr {left right : Nat → α} {leftOffset rightOffset count : Nat}
    (same : ∀ i < count, left (leftOffset + i) = right (rightOffset + i)) :
    get left leftOffset count = get right rightOffset count := by
  refine List.map_congr_left fun i member => ?_
  exact same i (List.mem_range.mp member)

theorem get_put (values : List α) : get (put array offset values) offset values.length = values := by
  refine List.ext_getElem (length_get _ _ _) fun i small _ => ?_
  rw [length_get] at small
  simp only [get, List.getElem_map, List.getElem_range, put_apply]
  rw [dif_pos ⟨by omega, by omega⟩]
  congr 1
  omega

end Pieces

/-! ## The block in front of the array -/

section Block

variable (size : Nat) {store block : Nat → α} {address : Nat}

/-- What is read where the block at an address lies in front of a store. -/
def inFront (store block : Nat → α) (address : Nat) : Nat → α :=
  fun k => if k - k % size = address then block (k % size) else store k

/-- The block is what the store has there. -/
def Clean (store block : Nat → α) (address : Nat) : Prop := ∀ i < size, block i = store (address + i)

variable {size}

theorem inFront_of_clean (positive : 0 < size) (clean : Clean size store block address) :
    inFront size store block address = store := by
  ext k
  rw [inFront]
  split_ifs with here
  · rw [clean _ (Nat.mod_lt k positive), ← here, Nat.sub_add_cancel (Nat.mod_le k size)]
  · rfl

/-- The place of an element that lies in the block. -/
theorem aligned_eq_iff (positive : 0 < size) (aligned : address % size = 0) {k : Nat} :
    k - k % size = address ↔ address ≤ k ∧ k < address + size := by
  have small := Nat.mod_lt k positive
  constructor
  · intro here
    have := Nat.mod_le k size
    omega
  · rintro ⟨low, high⟩
    obtain ⟨n, rfl⟩ := Nat.dvd_of_mod_eq_zero aligned
    have place : k % size = k - size * n := by
      rw [← Nat.mod_eq_of_lt (show k - size * n < size by omega), ← Nat.add_mul_mod_self_left (k - size * n) size n,
        Nat.sub_add_cancel low]
    omega

/-- The block has been written to the store. -/
theorem inFront_written (positive : 0 < size) (aligned : address % size = 0) :
    inFront size store block address = put store address (get block 0 size) := by
  ext k
  rw [inFront, put_apply]
  by_cases here : k - k % size = address
  · have bounds := (aligned_eq_iff positive aligned).mp here
    rw [if_pos here, dif_pos ⟨bounds.1, by rw [length_get]; omega⟩]
    simp only [get, List.getElem_map, List.getElem_range]
    congr 1
    have := Nat.mod_le k size
    omega
  · have outside := mt (aligned_eq_iff positive aligned).mpr here
    rw [if_neg here, dif_neg]
    rw [length_get]
    omega

theorem clean_written (positive : 0 < size) : Clean size (put store address (get block 0 size)) block address := by
  intro i small
  rw [put_apply, dif_pos ⟨by omega, by rw [length_get]; omega⟩]
  simp only [get, List.getElem_map, List.getElem_range]
  congr 1
  omega

/-- Values that are put into the block are put into what is behind it. -/
theorem inFront_put (positive : 0 < size) {offset : Nat} {values : List α} (here : offset - offset % size = address)
    (fits : offset % size + values.length ≤ size) :
    inFront size store (put block (offset % size) values) address =
      put (inFront size store block address) offset values := by
  have aligned : address % size = 0 := by
    rw [← here]
    exact Nat.mod_eq_zero_of_dvd (Nat.dvd_sub_mod offset)
  have start := (aligned_eq_iff positive aligned).mp here
  ext k
  simp only [inFront, put_apply]
  by_cases inside : k - k % size = address
  · have bounds := (aligned_eq_iff positive aligned).mp inside
    have := Nat.mod_le k size
    have := Nat.mod_le offset size
    rw [if_pos inside]
    split_ifs with first second second
    · congr 1
      omega
    · omega
    · omega
    · rfl
  · have outside := mt (aligned_eq_iff positive aligned).mpr inside
    have := Nat.mod_le offset size
    rw [if_neg inside, dif_neg (by omega), if_neg inside]

/-- It does not matter what a block was that is overwritten as a whole. -/
theorem inFront_whole (positive : 0 < size) (aligned : address % size = 0) {values : List α}
    (whole : values.length = size) : inFront size store (put block 0 values) address = put store address values := by
  have same : get (put block 0 values) 0 size = values := whole ▸ get_put block 0 values
  rw [inFront_written positive aligned, same]

end Block

end Ethersex.Library
