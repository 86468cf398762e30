import Mathlib

/-!
# Files in blocks

A file kept in blocks of one capacity, each of which tells how much of it is in use.  The
file ends in the first block that is not full, whatever lies behind it.  Overwriting a
part of a file sets the fill of every block it touches to the end of what it wrote there.
-/

namespace Ethersex.Library

variable {α : Type}

/-- A block: how many of its elements are in use, and the elements. -/
structure Block (α : Type) where
  fill : Nat
  data : Nat → α

namespace Block

/-- The elements in use. -/
def used (block : Block α) : List α := (List.range block.fill).map block.data

@[simp] theorem length_used (block : Block α) : block.used.length = block.fill := by
  rw [used, List.length_map, List.length_range]

theorem used_eq_nil {block : Block α} : block.used = [] ↔ block.fill = 0 := by
  rw [← List.length_eq_zero_iff, length_used]

/-- The block after a part of `data` was written to it. -/
def store [Inhabited α] (offset count : Nat) (data : List α) (block : Block α) : Block α where
  fill := offset + count
  data k := if offset ≤ k ∧ k < offset + count then data.getD (k - offset) default else block.data k

@[simp] theorem store_fill [Inhabited α] (offset count : Nat) (data : List α) (block : Block α) :
    (block.store offset count data).fill = offset + count := rfl

theorem used_store [Inhabited α] {offset count : Nat} {data : List α} {block : Block α}
    (inside : offset ≤ block.fill) (enough : count ≤ data.length) :
    (block.store offset count data).used = block.used.take offset ++ data.take count := by
  refine List.ext_getElem ?_ fun k left right => ?_
  · simp [inside, enough]
  · rw [length_used, store_fill] at left
    rcases Nat.lt_or_ge k offset with before | behind
    · simp [used, store, Nat.not_le_of_lt before, before, inside, List.getElem_append_left]
    · have short : k - offset < data.length := by omega
      have start : (block.used.take offset).length = offset := by simp [inside]
      simp only [List.getElem_append_right (Nat.le_trans (Nat.le_of_eq start) behind), start]
      simp [used, store, behind, left, short]

end Block

/-! ## Contents -/

section Contents

variable {capacity : Nat}

/-- The file ends in the first block that is not full. -/
def contents (capacity : Nat) : List (Block α) → List α
  | [] => []
  | block :: rest => if block.fill < capacity then block.used else block.used ++ contents capacity rest

/-- The last block is not full, so that the file ends in one of its blocks. -/
def ShortEnd (capacity : Nat) (blocks : List (Block α)) : Prop :=
  ∀ block ∈ blocks.getLast?, block.fill < capacity

/-- Every element of the blocks is in use. -/
def Full (capacity : Nat) (blocks : List (Block α)) : Prop := ∀ block ∈ blocks, block.fill = capacity

@[simp] theorem contents_nil : contents capacity ([] : List (Block α)) = [] := rfl

theorem contents_of_lt {block : Block α} (short : block.fill < capacity) (rest : List (Block α)) :
    contents capacity (block :: rest) = block.used := if_pos short

theorem ShortEnd.tail {block : Block α} {rest : List (Block α)}
    (short : ShortEnd capacity (block :: rest)) (more : rest ≠ []) : ShortEnd capacity rest := by
  intro last member
  refine short last ?_
  rwa [List.getLast?_cons_of_ne_nil more]

theorem shortEnd_append {front rest : List (Block α)} (some : rest ≠ []) :
    ShortEnd capacity (front ++ rest) ↔ ShortEnd capacity rest := by
  rw [ShortEnd, ShortEnd, List.getLast?_append_of_ne_nil front some]

theorem ShortEnd.ne_nil {block : Block α} {rest : List (Block α)}
    (short : ShortEnd capacity (block :: rest)) (full : ¬block.fill < capacity) : rest ≠ [] := by
  rintro rfl
  exact full (short block rfl)

theorem contents_append {full : List (Block α)} (all : Full capacity full) (rest : List (Block α)) :
    contents capacity (full ++ rest) = full.flatMap Block.used ++ contents capacity rest := by
  induction full with
  | nil => rfl
  | cons block full ih =>
      rw [Full, List.forall_mem_cons] at all
      rw [List.cons_append, contents, if_neg (Nat.not_lt_of_ge (Nat.le_of_eq all.1.symm)),
        ih all.2, List.flatMap_cons, List.append_assoc]

theorem Full.length {full : List (Block α)} (all : Full capacity full) :
    (full.flatMap Block.used).length = full.length * capacity := by
  induction full with
  | nil => exact (Nat.zero_mul capacity).symm
  | cons block full ih =>
      rw [Full, List.forall_mem_cons] at all
      rw [List.flatMap_cons, List.length_append, ih all.2, Block.length_used, all.1,
        List.length_cons, Nat.succ_mul, Nat.add_comm]

theorem take_contents {block : Block α} (rest : List (Block α)) {count : Nat}
    (inside : count ≤ block.fill) :
    (contents capacity (block :: rest)).take count = block.used.take count := by
  rw [contents]
  split_ifs
  · rfl
  · exact List.take_append_of_le_length (by rwa [Block.length_used])

theorem contents_eq_nil (positive : 0 < capacity) {blocks : List (Block α)} :
    contents capacity blocks = [] ↔ ∀ block ∈ blocks.head?, block.fill = 0 := by
  cases blocks with
  | nil => simp
  | cons block rest =>
      rw [contents]
      split_ifs with ends
      · simp [Block.used_eq_nil]
      · simp [Block.used_eq_nil]
        omega

theorem length_contents_le {blocks : List (Block α)} (fits : ∀ block ∈ blocks, block.fill ≤ capacity) :
    (contents capacity blocks).length ≤ capacity * blocks.length := by
  induction blocks with
  | nil => exact Nat.zero_le _
  | cons block rest ih =>
      rw [List.forall_mem_cons] at fits
      have later := ih fits.2
      rw [contents, List.length_cons, Nat.mul_succ]
      split_ifs
      · rw [Block.length_used]
        omega
      · rw [List.length_append, Block.length_used]
        omega

theorem contents_empty {blocks : List (Block α)} (all : ∀ block ∈ blocks, block.fill = 0) :
    contents capacity blocks = [] := by
  induction blocks with
  | nil => rfl
  | cons block rest ih =>
      rw [List.forall_mem_cons] at all
      have nothing := Block.used_eq_nil.mpr all.1
      rw [contents, nothing, ih all.2, List.append_nil, ite_self]

/-- Empty blocks behind the end of the file do not change it. -/
theorem contents_append_empty {blocks empty : List (Block α)} (short : ShortEnd capacity blocks)
    (all : ∀ block ∈ empty, block.fill = 0) :
    contents capacity (blocks ++ empty) = contents capacity blocks := by
  induction blocks with
  | nil => exact contents_empty all
  | cons block blocks ih =>
      rw [List.cons_append, contents, contents]
      split_ifs with ends
      · rfl
      · rw [ih (short.tail (short.ne_nil ends))]

/-- A position in the file lies in a block that all those in front of fill. -/
theorem contents_split (positive : 0 < capacity) {blocks : List (Block α)} (some : blocks ≠ [])
    (fits : ∀ block ∈ blocks, block.fill ≤ capacity) (short : ShortEnd capacity blocks)
    {offset : Nat} (inside : offset ≤ (contents capacity blocks).length) :
    ∃ full block rest, blocks = full ++ block :: rest ∧ full.length = offset / capacity ∧
      Full capacity full ∧ offset % capacity ≤ block.fill := by
  induction blocks generalizing offset with
  | nil => exact absurd rfl some
  | cons block blocks ih =>
      rw [List.forall_mem_cons] at fits
      by_cases here : offset < capacity
      · refine ⟨[], block, blocks, rfl, (Nat.div_eq_of_lt here).symm, fun _ => nofun, ?_⟩
        rw [Nat.mod_eq_of_lt here]
        rw [contents] at inside
        split_ifs at inside with ends
        · rwa [Block.length_used] at inside
        · omega
      · have full : ¬block.fill < capacity := by
          intro ends
          rw [contents_of_lt ends, Block.length_used] at inside
          omega
        have is : block.fill = capacity := Nat.le_antisymm fits.1 (Nat.le_of_not_lt full)
        have more := short.ne_nil full
        rw [contents, if_neg full, List.length_append, Block.length_used, is] at inside
        obtain ⟨before, at_, rest, rfl, length, all, within⟩ :=
          ih more fits.2 (short.tail more) (show offset - capacity ≤ _ by omega)
        refine ⟨block :: before, at_, rest, rfl, ?_, List.forall_mem_cons.mpr ⟨is, all⟩, ?_⟩
        · rw [List.length_cons, length, ← Nat.div_eq_sub_div positive (Nat.le_of_not_lt here)]
        · rwa [← Nat.mod_eq_sub_mod (Nat.le_of_not_lt here)] at within

end Contents

/-! ## Overwriting -/

section Overwrite

variable [Inhabited α] {capacity offset : Nat} {data : List α} {blocks : List (Block α)}

/-- Writes `data` to the blocks, from an offset in the first one on. -/
def overwrite (capacity : Nat) : Nat → List α → List (Block α) → List (Block α)
  | _, _, [] => []
  | offset, data, block :: rest =>
      if data = [] then block :: rest
      else
        block.store offset (min data.length (capacity - offset)) data ::
          overwrite capacity 0 (data.drop (capacity - offset)) rest

@[simp] theorem overwrite_nil (blocks : List (Block α)) :
    overwrite capacity offset [] blocks = blocks := by
  cases blocks <;> rfl

@[simp] theorem length_overwrite : (overwrite capacity offset data blocks).length = blocks.length := by
  induction blocks generalizing offset data with
  | nil => rfl
  | cons block rest ih =>
      rw [overwrite]
      split_ifs
      · rfl
      · rw [List.length_cons, List.length_cons, ih]

theorem overwrite_fits (inside : offset ≤ capacity) (fits : ∀ block ∈ blocks, block.fill ≤ capacity) :
    ∀ block ∈ overwrite capacity offset data blocks, block.fill ≤ capacity := by
  induction blocks generalizing offset data with
  | nil => exact fits
  | cons block rest ih =>
      rw [overwrite]
      split_ifs
      · exact fits
      · rw [List.forall_mem_cons] at fits ⊢
        refine ⟨?_, ih (Nat.zero_le _) fits.2⟩
        rw [Block.store_fill]
        omega

/-- What ends inside the blocks leaves the last one short. -/
theorem ShortEnd.overwrite (short : ShortEnd capacity blocks)
    (room : offset + data.length < capacity * blocks.length) :
    ShortEnd capacity (overwrite capacity offset data blocks) := by
  induction blocks generalizing offset data with
  | nil => exact short
  | cons block rest ih =>
      rw [Library.overwrite]
      split_ifs
      · exact short
      · rw [List.length_cons, Nat.mul_succ] at room
        cases rest with
        | nil =>
            intro last member
            have is : _ = last := Option.mem_some_iff.mp member
            rw [← is]
            simp only [List.length_nil, Nat.mul_zero] at room
            change offset + min data.length (capacity - offset) < capacity
            omega
        | cons next rest =>
            have more : Library.overwrite capacity 0 (data.drop (capacity - offset)) (next :: rest) ≠ [] := by
              rw [← List.length_pos_iff, length_overwrite, List.length_cons]
              exact Nat.succ_pos _
            rw [ShortEnd, List.getLast?_cons_of_ne_nil more]
            refine ih (short.tail (List.cons_ne_nil _ _)) ?_
            rw [List.length_drop]
            rw [List.length_cons, Nat.mul_succ] at *
            omega

/-- What is written to the first block only. -/
theorem contents_overwrite_first {block : Block α} {rest : List (Block α)} (some : data ≠ [])
    (begins : offset ≤ block.fill) (ends : offset + data.length ≤ capacity) :
    contents capacity (overwrite capacity offset data (block :: rest)) =
      block.used.take offset ++ data ++
        if capacity ∣ offset + data.length then
          contents capacity ((block :: rest).drop ((offset + data.length) / capacity))
        else [] := by
  have positive : 0 < data.length := List.length_pos_iff.mpr some
  have fits : min data.length (capacity - offset) = data.length := by omega
  have used := Block.used_store begins (le_refl data.length)
  rw [List.take_length] at used
  rw [overwrite, if_neg some, fits, List.drop_of_length_le (by omega), overwrite_nil, contents,
    Block.store_fill, used]
  rcases Nat.lt_or_eq_of_le ends with below | exact_
  · rw [if_pos below, if_neg (Nat.not_dvd_of_pos_of_lt (Nat.add_pos_right _ positive) below),
      List.append_nil]
  · rw [if_neg (Nat.not_lt_of_ge (Nat.le_of_eq exact_.symm)), if_pos (Dvd.intro 1 (by omega)),
      exact_, Nat.div_self (by omega), List.drop_succ_cons, List.drop_zero]

/-- What was written, and what the file goes on with if it ends with a block. -/
theorem contents_overwrite {block : Block α} {rest : List (Block α)} (some : data ≠ [])
    (inside : offset < capacity) (begins : offset ≤ block.fill)
    (room : offset + data.length ≤ capacity * (rest.length + 1)) :
    contents capacity (overwrite capacity offset data (block :: rest)) =
      block.used.take offset ++ data ++
        if capacity ∣ offset + data.length then
          contents capacity ((block :: rest).drop ((offset + data.length) / capacity))
        else [] := by
  induction rest generalizing block offset data with
  | nil =>
      rw [List.length_nil, Nat.zero_add, Nat.mul_one] at room
      exact contents_overwrite_first some begins room
  | cons next rest ih =>
      rcases Nat.lt_or_ge capacity (offset + data.length) with beyond | ends
      · have count : min data.length (capacity - offset) = capacity - offset := by omega
        have filled : offset + (capacity - offset) = capacity := by omega
        have left : (data.drop (capacity - offset)).length = offset + data.length - capacity := by
          rw [List.length_drop]
          omega
        have more : data.drop (capacity - offset) ≠ [] := by
          rw [← List.length_pos_iff, left]
          omega
        have used := Block.used_store begins (show capacity - offset ≤ data.length by omega)
        rw [List.length_cons, Nat.mul_succ] at room
        have later := ih more (Nat.zero_lt_of_lt inside) (Nat.zero_le next.fill) (by
          rw [left]
          omega)
        rw [Nat.zero_add, left, List.take_zero, List.nil_append] at later
        rw [overwrite, if_neg some, count, contents, Block.store_fill, filled,
          if_neg (Nat.lt_irrefl _), used, later]
        have divides : capacity ∣ offset + data.length - capacity ↔ capacity ∣ offset + data.length :=
          Nat.dvd_sub_iff_left (Nat.le_of_lt beyond) (Nat.dvd_refl capacity)
        rw [if_congr divides rfl rfl, Nat.div_eq_sub_div (by omega) (Nat.le_of_lt beyond),
          List.drop_succ_cons, ← List.append_assoc, List.append_assoc (block.used.take offset),
          List.take_append_drop]
      · exact contents_overwrite_first some begins ends

/-- Writes `data` to the blocks, from a position in the file on. -/
def overwriteAt (capacity offset : Nat) (data : List α) (blocks : List (Block α)) : List (Block α) :=
  blocks.take (offset / capacity) ++
    overwrite capacity (offset % capacity) data (blocks.drop (offset / capacity))

theorem overwriteAt_append {full : List (Block α)} (length : full.length = offset / capacity)
    (rest : List (Block α)) :
    overwriteAt capacity offset data (full ++ rest) =
      full ++ overwrite capacity (offset % capacity) data rest := by
  rw [overwriteAt, List.take_left' length, List.drop_left' length]

theorem contents_overwriteAt (positive : 0 < capacity) (nonempty : blocks ≠ [])
    (fits : ∀ block ∈ blocks, block.fill ≤ capacity) (short : ShortEnd capacity blocks)
    (inside : offset ≤ (contents capacity blocks).length) (some : data ≠ [])
    (room : offset + data.length ≤ capacity * blocks.length) :
    contents capacity (overwriteAt capacity offset data blocks) =
      (contents capacity blocks).take offset ++ data ++
        if capacity ∣ offset + data.length then
          contents capacity (blocks.drop ((offset + data.length) / capacity))
        else [] := by
  obtain ⟨full, block, rest, rfl, length, all, begins⟩ :=
    contents_split positive nonempty fits short inside
  have position : offset = capacity * full.length + offset % capacity := by
    rw [length]
    exact (Nat.div_add_mod offset capacity).symm
  have inside' := Nat.mod_lt offset positive
  rw [overwriteAt_append length]
  generalize offset % capacity = remainder at *
  subst position
  rw [List.length_append, List.length_cons, Nat.mul_add] at room
  have front : (contents capacity (full ++ block :: rest)).take (capacity * full.length + remainder) =
      full.flatMap Block.used ++ block.used.take remainder := by
    rw [contents_append all, Nat.mul_comm, ← all.length, List.take_length_add_append,
      take_contents rest begins]
  have later : (capacity * full.length + remainder + data.length) / capacity =
      full.length + (remainder + data.length) / capacity := by
    rw [Nat.add_assoc, Nat.mul_add_div positive]
  rw [contents_append all, contents_overwrite some inside' begins (by omega), front, later, List.drop_length_add_append,
    Nat.add_assoc]
  simp only [List.append_assoc, Nat.dvd_add_right (Nat.dvd_mul_right capacity full.length)]

/-- The position behind the data, if it is where a block begins, shows what the blocks
from there on hold. -/
theorem overwriteAt_eq_iff (positive : 0 < capacity) (nonempty : blocks ≠ [])
    (fits : ∀ block ∈ blocks, block.fill ≤ capacity) (short : ShortEnd capacity blocks)
    (inside : offset ≤ (contents capacity blocks).length) (some : data ≠ [])
    (room : offset + data.length ≤ capacity * blocks.length) :
    contents capacity (overwriteAt capacity offset data blocks) =
        (contents capacity blocks).take offset ++ data ++
          (contents capacity blocks).drop (offset + data.length) ↔
      (¬capacity ∣ offset + data.length → (contents capacity blocks).length ≤ offset + data.length) ∧
      (capacity ∣ offset + data.length → (contents capacity blocks).length < offset + data.length →
        ∀ block ∈ blocks[(offset + data.length) / capacity]?, block.fill = 0) := by
  rw [contents_overwriteAt positive nonempty fits short inside some room, List.append_cancel_left_eq]
  by_cases aligned : capacity ∣ offset + data.length
  · rw [if_pos aligned]
    simp only [aligned, not_true_eq_false, false_implies, true_and, true_implies]
    rcases Nat.lt_or_ge (contents capacity blocks).length (offset + data.length) with beyond | within
    · simp only [beyond, true_implies]
      rw [List.drop_of_length_le (Nat.le_of_lt beyond), contents_eq_nil positive, List.head?_drop]
    · obtain ⟨full, block, rest, rfl, length, all, -⟩ :=
        contents_split positive nonempty fits short within
      have position : offset + data.length = (full.flatMap Block.used).length := by
        rw [all.length, length, Nat.div_mul_cancel aligned]
      refine iff_of_true ?_ fun more => absurd within (Nat.not_le_of_lt more)
      rw [List.drop_left' length, contents_append all, position, List.drop_left]
  · rw [if_neg aligned, eq_comm, List.drop_eq_nil_iff]
    simp only [aligned, not_false_eq_true, true_implies, false_implies, and_true]

end Overwrite

end Ethersex.Library
