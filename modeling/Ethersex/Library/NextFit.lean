import Mathlib

/-!
# Allocation from a cursor

An allocator hands out one item after another; what comes next depends only on
the item handed out last.  `FreshFor` says that the next `count` items are
distinct and not in use.  It is all that can be asked of an allocator without a
record of what it has handed out, and every allocation passes it on to the next.

`nextFit` is the allocator that goes round a ring of items and skips those marked
as used.
-/

namespace Ethersex.Library

variable {α : Type*} {next : α → Option α}

/-- The next items an allocator hands out, at most `count`. -/
def upcoming (next : α → Option α) : (count : Nat) → (cursor : α) → List α
  | 0, _ => []
  | count + 1, cursor =>
      match next cursor with
      | none => []
      | some item => item :: upcoming next count item

theorem upcoming_succ {cursor item : α} (found : next cursor = some item) (count : Nat) :
    upcoming next (count + 1) cursor = item :: upcoming next count item := by
  rw [upcoming, found]

theorem upcoming_prefix (next : α → Option α) {count larger : Nat} (small : count ≤ larger)
    (cursor : α) : upcoming next count cursor <+: upcoming next larger cursor := by
  induction count generalizing larger cursor with
  | zero => exact List.nil_prefix
  | succ count ih =>
      obtain ⟨larger, rfl⟩ : ∃ more, larger = more + 1 := ⟨larger - 1, by omega⟩
      rw [upcoming, upcoming]
      cases next cursor with
      | none => exact List.prefix_rfl
      | some item => exact List.prefix_cons_inj item |>.mpr (ih (by omega) item)

/-- The next `count` items are distinct and not among those to avoid. -/
structure FreshFor (next : α → Option α) (avoid : α → Prop) (count : Nat) (cursor : α) : Prop where
  nodup : (upcoming next count cursor).Nodup
  apart : ∀ item ∈ upcoming next count cursor, ¬avoid item

/-- The allocator does not run out within `count` items. -/
def Supplies (next : α → Option α) (count : Nat) (cursor : α) : Prop :=
  (upcoming next count cursor).length = count

section Next

variable {avoid : α → Prop} {count larger : Nat} {cursor item : α}

theorem FreshFor.mono (fresh : FreshFor next avoid larger cursor) (small : count ≤ larger) :
    FreshFor next avoid count cursor :=
  have included := upcoming_prefix next small cursor
  ⟨fresh.nodup.sublist included.sublist, fun item member =>
    fresh.apart item (included.subset member)⟩

theorem FreshFor.weaken {weaker : α → Prop} (fresh : FreshFor next avoid count cursor)
    (included : ∀ item, weaker item → avoid item) : FreshFor next weaker count cursor :=
  ⟨fresh.nodup, fun item member live => fresh.apart item member (included item live)⟩

/-- The item handed out is not to be avoided. -/
theorem FreshFor.head (fresh : FreshFor next avoid (count + 1) cursor)
    (found : next cursor = some item) : ¬avoid item := by
  refine fresh.apart item ?_
  rw [upcoming_succ found]
  exact List.mem_cons_self

/-- From now on the item handed out may be avoided, too. -/
theorem FreshFor.tail (fresh : FreshFor next avoid (count + 1) cursor)
    (found : next cursor = some item) :
    FreshFor next (fun other => avoid other ∨ other = item) count item := by
  have nodup := fresh.nodup
  rw [upcoming_succ found, List.nodup_cons] at nodup
  refine ⟨nodup.2, fun other member => ?_⟩
  rintro (avoided | rfl)
  · refine fresh.apart other ?_ avoided
    rw [upcoming_succ found]
    exact List.mem_cons_of_mem _ member
  · exact nodup.1 member

theorem Supplies.next_eq (supplies : Supplies next (count + 1) cursor) :
    ∃ item, next cursor = some item ∧ Supplies next count item := by
  cases found : next cursor with
  | none =>
      rw [Supplies, upcoming, found] at supplies
      exact absurd supplies (by simp)
  | some item =>
      rw [Supplies, upcoming_succ found, List.length_cons, Nat.add_right_cancel_iff] at supplies
      exact ⟨item, rfl, supplies⟩

theorem Supplies.mono (supplies : Supplies next larger cursor) (small : count ≤ larger) :
    Supplies next count cursor := by
  induction count generalizing larger cursor with
  | zero => rfl
  | succ count ih =>
      obtain ⟨larger, rfl⟩ : ∃ more, larger = more + 1 := ⟨larger - 1, by omega⟩
      obtain ⟨item, found, rest⟩ := supplies.next_eq
      rw [Supplies, upcoming_succ found, List.length_cons, ih rest (by omega)]

end Next

/-! ## Next fit -/

/-- The first item behind the cursor that is not marked, on a ring of `size`
items. -/
def nextFit (size : Nat) (used : Nat → Bool) (cursor : Nat) : Option Nat :=
  ((List.range (size - 1)).map fun k => (cursor + 1 + k) % size).find? fun item => !used item

section NextFit

variable {size cursor item : Nat} {used : Nat → Bool}

theorem nextFit_lt (positive : 0 < size) (found : nextFit size used cursor = some item) :
    item < size := by
  obtain ⟨k, -, rfl⟩ := List.mem_map.mp (List.mem_of_find?_eq_some found)
  exact Nat.mod_lt _ positive

/-- Next fit does not return the cursor itself. -/
theorem nextFit_ne (inside : cursor < size) : nextFit size used cursor ≠ some cursor := by
  intro found
  obtain ⟨k, member, equal⟩ := List.mem_map.mp (List.mem_of_find?_eq_some found)
  have small := List.mem_range.mp member
  rcases Nat.lt_or_ge (cursor + 1 + k) size with before | wrapped
  · rw [Nat.mod_eq_of_lt before] at equal
    omega
  · rw [Nat.mod_eq_sub_mod wrapped, Nat.mod_eq_of_lt (by omega)] at equal
    omega

/-- Next fit finds an item if there is one. -/
theorem nextFit_isSome (inside : cursor < size) (free : Nat) (freeIn : free < size)
    (other : free ≠ cursor) (unused : used free = false) :
    ∃ item, nextFit size used cursor = some item := by
  rw [← Option.isSome_iff_exists, nextFit, List.find?_isSome]
  refine ⟨free, List.mem_map.mpr ?_, by simp [unused]⟩
  rcases Nat.lt_or_ge cursor free with before | after
  · refine ⟨free - cursor - 1, List.mem_range.mpr (by omega), ?_⟩
    rw [Nat.mod_eq_of_lt (by omega)]
    omega
  · refine ⟨free + size - cursor - 1, List.mem_range.mpr (by omega), ?_⟩
    rw [show cursor + 1 + (free + size - cursor - 1) = free + size by omega, Nat.add_mod_right,
      Nat.mod_eq_of_lt freeIn]

/-- Next fit returns the item `distance` steps ahead if the ones before it are marked. -/
theorem nextFit_eq (size : Nat) (used : Nat → Bool) (cursor distance : Nat)
    (inside : distance < size - 1)
    (marked : ∀ k < distance, used ((cursor + 1 + k) % size) = true)
    (unused : used ((cursor + 1 + distance) % size) = false) :
    nextFit size used cursor = some ((cursor + 1 + distance) % size) := by
  have first : (List.range (size - 1)).find? ((fun item => !used item) ∘ fun k =>
      (cursor + 1 + k) % size) = some distance := by
    refine List.find?_range_eq_some.mpr ⟨by simp [unused], by simpa using inside, fun k before => ?_⟩
    simp [marked k before]
  rw [nextFit, List.find?_map, first]
  rfl

end NextFit

end Ethersex.Library
