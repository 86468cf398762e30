import Mathlib

/-!
# Tables of slots

A table of a fixed number of slots.  What is put in goes to the first free slot, and what is taken
out comes from the first one that is filled.
-/

namespace Ethersex.Library

variable {α : Type*}

/-- The table with something in its first free slot. -/
def insertSlot (value : α) : List (Option α) → Option (List (Option α))
  | [] => none
  | none :: rest => some (some value :: rest)
  | some other :: rest => (insertSlot value rest).map (some other :: ·)

/-- What is in the first slot that is filled, and the table without it. -/
def takeSlot : List (Option α) → Option (α × List (Option α))
  | [] => none
  | none :: rest => (takeSlot rest).map fun (value, rest) => (value, none :: rest)
  | some value :: rest => some (value, none :: rest)

/-- What is in a table. -/
def filled (slots : List (Option α)) : List α := slots.reduceOption

variable {slots next : List (Option α)} {value : α}

theorem filled_none (slots : List (Option α)) : filled (none :: slots) = filled slots :=
  List.reduceOption_cons_of_none slots

theorem filled_some (value : α) (slots : List (Option α)) :
    filled (some value :: slots) = value :: filled slots := List.reduceOption_cons_of_some value slots

theorem filled_insertSlot (inserted : insertSlot value slots = some next) :
    (filled next).Perm (value :: filled slots) ∧ next.length = slots.length := by
  induction slots generalizing next with
  | nil => cases inserted
  | cons slot slots ih =>
      cases slot with
      | none =>
          cases inserted
          rw [filled_some, filled_none]
          exact ⟨.rfl, rfl⟩
      | some other =>
          obtain ⟨rest, below, rfl⟩ := Option.map_eq_some_iff.mp inserted
          obtain ⟨perm, length⟩ := ih below
          rw [filled_some, filled_some]
          exact ⟨(perm.cons other).trans (.swap value other _), congrArg (· + 1) length⟩

theorem insertSlot_eq_none : insertSlot value slots = none ↔ none ∉ slots := by
  induction slots with
  | nil => simp [insertSlot]
  | cons slot slots ih =>
      cases slot with
      | none => simp [insertSlot]
      | some other => simp [insertSlot, ih]

theorem filled_takeSlot (taken : takeSlot slots = some (value, next)) :
    (filled slots).Perm (value :: filled next) ∧ next.length = slots.length := by
  induction slots generalizing next with
  | nil => cases taken
  | cons slot slots ih =>
      cases slot with
      | none =>
          obtain ⟨⟨other, rest⟩, below, same⟩ := Option.map_eq_some_iff.mp taken
          cases same
          rw [filled_none, filled_none]
          exact ⟨(ih below).1, congrArg (· + 1) (ih below).2⟩
      | some other =>
          cases taken
          rw [filled_some, filled_none]
          exact ⟨.rfl, rfl⟩

theorem takeSlot_eq_none : takeSlot slots = none ↔ filled slots = [] := by
  induction slots with
  | nil => simp [takeSlot, filled]
  | cons slot slots ih =>
      cases slot with
      | none => simp [takeSlot, filled_none, ih]
      | some other => simp [takeSlot, filled_some]

/-- What is taken out is the first of what is in the table. -/
theorem filled_eq_cons_of_takeSlot (taken : takeSlot slots = some (value, next)) :
    filled slots = value :: filled next := by
  induction slots generalizing next with
  | nil => cases taken
  | cons slot slots ih =>
      cases slot with
      | none =>
          obtain ⟨⟨other, rest⟩, below, same⟩ := Option.map_eq_some_iff.mp taken
          cases same
          rw [filled_none, filled_none]
          exact ih below
      | some other =>
          cases taken
          rw [filled_some, filled_none]

/-- Nothing is in the slots behind the first free one. -/
def Packed (slots : List (Option α)) : Prop := ∀ slot ∈ slots.dropWhile Option.isSome, slot = none

instance [DecidableEq α] (slots : List (Option α)) : Decidable (Packed slots) :=
  inferInstanceAs (Decidable (∀ slot ∈ slots.dropWhile Option.isSome, slot = none))

/-- What is put into a packed table is the last of what is in it. -/
theorem filled_insertSlot_of_packed (packed : Packed slots) (inserted : insertSlot value slots = some next) :
    filled next = filled slots ++ [value] := by
  induction slots generalizing next with
  | nil => cases inserted
  | cons slot slots ih =>
      cases slot with
      | none =>
          cases inserted
          have empty : filled slots = [] := by
            rw [filled, List.reduceOption, List.filterMap_eq_nil_iff]
            exact fun other member => packed other (List.mem_cons_of_mem _ member)
          rw [filled_some, filled_none, empty]
          rfl
      | some other =>
          obtain ⟨rest, below, rfl⟩ := Option.map_eq_some_iff.mp inserted
          rw [filled_some, filled_some, ih packed below]
          rfl

theorem length_filled_le (slots : List (Option α)) : (filled slots).length ≤ slots.length :=
  List.reduceOption_length_le slots

end Ethersex.Library

/-!
## Tables with keys

The entries of a table have keys, and those keys that matter stand in it once.
-/

namespace Ethersex.Library

variable {α κ : Type*} {key : α → κ} {good : κ → Prop} {table : List α}

/-- No two entries have the same key, if it is one that matters. -/
def OnceOn (key : α → κ) (good : κ → Prop) (table : List α) : Prop :=
  ∀ i j, (first : i < table.length) → (second : j < table.length) → good (key table[i]) →
    key table[i] = key table[j] → i = j

/-- An entry in the place of another one, whose key no third one has. -/
theorem OnceOn.set (once : OnceOn key good table) {place : Nat} {value : α}
    (alone : ∀ i, (inside : i < table.length) → i ≠ place → good (key value) → key table[i] ≠ key value) :
    OnceOn key good (table.set place value) := by
  intro i j first second matters same
  rw [List.length_set] at first second
  simp only [List.getElem_set] at matters same
  by_contra different
  split_ifs at matters same with here there there
  · omega
  · exact alone j second (Ne.symm there) matters same.symm
  · exact alone i first (Ne.symm here) (same ▸ matters) same
  · exact different (once i j first second matters same)

/-- The entries that a map leaves as they are, or whose new keys do not matter. -/
theorem OnceOn.map (once : OnceOn key good table) {f : α → α}
    (kept : ∀ value, good (key (f value)) → key (f value) = key value) : OnceOn key good (table.map f) := by
  intro i j first second matters same
  rw [List.length_map] at first second
  simp only [List.getElem_map] at matters same
  have left := kept _ matters
  have right := kept _ (same ▸ matters)
  exact once i j first second (left ▸ matters) (left.symm.trans (same.trans right))

theorem OnceOn.eq_of_mem (once : OnceOn key good table) {left right : α} (first : left ∈ table) (second : right ∈ table)
    (matters : good (key left)) (same : key left = key right) : left = right := by
  obtain ⟨i, small, rfl⟩ := List.getElem_of_mem first
  obtain ⟨j, less, rfl⟩ := List.getElem_of_mem second
  have place := once i j small less matters same
  subst place
  rfl

/-- A table with more entries than keys has one whose key does not matter. -/
theorem OnceOn.exists_not_good [DecidableEq κ] (once : OnceOn key good table) {keys : Finset κ}
    (few : keys.card < table.length) (known : ∀ value ∈ table, good (key value) → key value ∈ keys) :
    ∃ value ∈ table, ¬good (key value) := by
  by_contra none
  have all : ∀ value ∈ table, good (key value) := fun value member => by
    by_contra bad
    exact none ⟨value, member, bad⟩
  have nodup : (table.map key).Nodup := by
    rw [List.nodup_iff_injective_getElem]
    intro i j same
    simp only [List.getElem_map] at same
    have left : i.val < table.length := by simpa using i.isLt
    have right : j.val < table.length := by simpa using j.isLt
    exact Fin.ext (once i j left right (all _ (List.getElem_mem left)) same)
  have inside : (table.map key).toFinset ⊆ keys := by
    intro k member
    obtain ⟨value, there, rfl⟩ := List.mem_map.mp (List.mem_toFinset.mp member)
    exact known value there (all value there)
  have count := Finset.card_le_card inside
  rw [List.toFinset_card_of_nodup nodup, List.length_map] at count
  omega

end Ethersex.Library
