import Mathlib

/-!
# Files of linked extents

A store maps keys to extents.  An extent holds a part of a file, and either is the last one of
it or names the key of the next.  All extents of a file but the last are full, so that a position
in the file tells the extent that it is in.

`splice` is what overwriting means for the file as a whole.
-/

namespace Ethersex.Library

variable {κ α : Type*}

/-! ## Overwriting a list -/

/-- The list with `data` from an offset on. -/
def splice (offset : Nat) (data list : List α) : List α :=
  list.take offset ++ data ++ list.drop (offset + data.length)

section Splice

variable {offset : Nat} {data first second front rest list : List α}

@[simp] theorem splice_nil (offset : Nat) (list : List α) : splice offset [] list = list := by
  rw [splice, List.append_nil, List.length_nil, Nat.add_zero, List.take_append_drop]

theorem length_splice (inside : offset ≤ list.length) :
    (splice offset data list).length = max list.length (offset + data.length) := by
  rw [splice, List.length_append, List.length_append, List.length_take, List.length_drop]
  omega

theorem getElem?_splice (inside : offset ≤ list.length) (k : Nat) :
    (splice offset data list)[k]? =
      if offset ≤ k ∧ k < offset + data.length then data[k - offset]? else list[k]? := by
  have taken : (list.take offset).length = offset := by
    rw [List.length_take, Nat.min_eq_left inside]
  rw [splice, List.append_assoc]
  rcases Nat.lt_or_ge k offset with before | behind
  · rw [List.getElem?_append_left (by omega), List.getElem?_take_of_lt before, if_neg (by omega)]
  · rw [List.getElem?_append_right (by omega), taken]
    rcases Nat.lt_or_ge k (offset + data.length) with within | beyond
    · rw [List.getElem?_append_left (by omega), if_pos ⟨behind, within⟩]
    · rw [List.getElem?_append_right (by omega), if_neg (by omega), List.getElem?_drop]
      congr 1
      omega

theorem splice_append_left (within : offset + data.length ≤ front.length) :
    splice offset data (front ++ rest) = splice offset data front ++ rest := by
  rw [splice, splice, List.take_append_of_le_length (by omega), List.drop_append_of_le_length within,
    List.append_assoc, List.append_assoc, List.append_assoc]

/-- Data that reach exactly to the end of the first part and go on in the second one. -/
theorem splice_append_across (reaches : offset + first.length = front.length) :
    splice offset (first ++ second) (front ++ rest) =
      splice offset first front ++ splice 0 second rest := by
  rw [splice, splice, splice, List.take_append_of_le_length (by omega), List.length_append,
    ← Nat.add_assoc, reaches, List.drop_length_add_append, List.drop_length, List.take_zero,
    List.append_nil, Nat.zero_add]
  simp only [List.append_assoc, List.nil_append]

/-- Data that reach beyond the end. -/
theorem splice_of_beyond (beyond : list.length ≤ offset + data.length) :
    splice offset data list = list.take offset ++ data := by
  rw [splice, List.drop_of_length_le beyond, List.append_nil]

end Splice

/-! ## Extents -/

/-- A part of a file, and the key of the next part. -/
structure Extent (κ α : Type*) where
  next : Option κ
  data : List α

/-- The file that begins at a key has its extents at these keys. -/
inductive FileAt (capacity : Nat) (store : κ → Option (Extent κ α)) : κ → List κ → Prop where
  | last {key : κ} {extent : Extent κ α} :
      store key = some extent → extent.next = none → extent.data.length ≤ capacity →
        FileAt capacity store key [key]
  | link {key next : κ} {keys : List κ} {extent : Extent κ α} :
      store key = some extent → extent.next = some next → extent.data.length = capacity →
        FileAt capacity store next keys → FileAt capacity store key (key :: keys)

/-- What the extents at these keys hold. -/
def fileData (store : κ → Option (Extent κ α)) (keys : List κ) : List α :=
  keys.flatMap fun key => (store key).elim [] Extent.data

section Files

variable {capacity : Nat} {store other : κ → Option (Extent κ α)} {key next target : κ}
  {keys front rest : List κ} {extent : Extent κ α}

theorem fileData_cons (found : store key = some extent) (keys : List κ) :
    fileData store (key :: keys) = extent.data ++ fileData store keys := by
  rw [fileData, List.flatMap_cons, found]
  rfl

theorem fileData_append (store : κ → Option (Extent κ α)) (front rest : List κ) :
    fileData store (front ++ rest) = fileData store front ++ fileData store rest :=
  List.flatMap_append

theorem fileData_congr (same : ∀ key ∈ keys, other key = store key) :
    fileData other keys = fileData store keys :=
  List.flatMap_congr fun key member => by rw [same key member]

namespace FileAt

theorem eq_cons (file : FileAt capacity store key keys) : ∃ rest, keys = key :: rest := by
  cases file with
  | last => exact ⟨[], rfl⟩
  | link => exact ⟨_, rfl⟩

/-- The first extent holds as much of the file as fits. -/
theorem first (file : FileAt capacity store key keys) :
    ∃ extent, store key = some extent ∧ extent.data.length = min capacity (fileData store keys).length := by
  cases file with
  | @last _ extent found ends fits =>
      refine ⟨extent, found, ?_⟩
      rw [fileData_cons found, fileData, List.flatMap_nil, List.append_nil, Nat.min_eq_right fits]
  | @link _ _ _ extent found names full later =>
      refine ⟨extent, found, ?_⟩
      rw [fileData_cons found, List.length_append, full, Nat.min_eq_left (Nat.le_add_right _ _)]

theorem isSome (file : FileAt capacity store key keys) : ∀ key ∈ keys, (store key).isSome := by
  induction file with
  | last found => simp [found]
  | link found _ _ _ ih => exact List.forall_mem_cons.mpr ⟨by rw [found]; rfl, ih⟩

/-- A file depends on its own extents only. -/
theorem congr (file : FileAt capacity store key keys) (same : ∀ key ∈ keys, other key = store key) :
    FileAt capacity other key keys := by
  induction file with
  | last found ends fits =>
      exact .last ((same _ (List.mem_singleton_self _)).trans found) ends fits
  | link found names full _ ih =>
      rw [List.forall_mem_cons] at same
      exact .link (same.1.trans found) names full (ih same.2)

theorem deterministic (file : FileAt capacity store key keys) {again : List κ}
    (second : FileAt capacity store key again) : keys = again := by
  induction file generalizing again with
  | last found ends =>
      cases second with
      | last => rfl
      | link found' names =>
          obtain rfl := Option.some.inj (found.symm.trans found')
          exact absurd (ends.symm.trans names) (Option.some_ne_none _).symm
  | link found names _ _ ih =>
      cases second with
      | last found' ends =>
          obtain rfl := Option.some.inj (found.symm.trans found')
          exact absurd (ends.symm.trans names) (Option.some_ne_none _).symm
      | link found' names' _ rest =>
          obtain rfl := Option.some.inj (found.symm.trans found')
          obtain rfl := Option.some.inj (names.symm.trans names')
          rw [ih rest]

end FileAt

/-! ### The way through a file -/

/-- Full extents lead from one key to another. -/
inductive Leads (capacity : Nat) (store : κ → Option (Extent κ α)) : κ → List κ → κ → Prop where
  | here {key : κ} : Leads capacity store key [] key
  | link {key next target : κ} {front : List κ} {extent : Extent κ α} :
      store key = some extent → extent.next = some next → extent.data.length = capacity →
        Leads capacity store next front target → Leads capacity store key (key :: front) target

namespace Leads

theorem append (leads : Leads capacity store key front target)
    (file : FileAt capacity store target rest) : FileAt capacity store key (front ++ rest) := by
  induction leads with
  | here => exact file
  | link found names full _ ih => exact .link found names full (ih file)

theorem congr (leads : Leads capacity store key front target)
    (same : ∀ key ∈ front, other key = store key) : Leads capacity other key front target := by
  induction leads with
  | here => exact .here
  | link found names full _ ih =>
      rw [List.forall_mem_cons] at same
      exact .link (same.1.trans found) names full (ih same.2)

theorem snoc (leads : Leads capacity store key front target) (found : store target = some extent)
    (names : extent.next = some next) (full : extent.data.length = capacity) :
    Leads capacity store key (front ++ [target]) next := by
  induction leads with
  | here => exact .link found names full .here
  | link found' names' full' _ ih => exact .link found' names' full' (ih found)

theorem length_fileData (leads : Leads capacity store key front target) :
    (fileData store front).length = capacity * front.length := by
  induction leads with
  | here => rfl
  | link found _ full _ ih =>
      rw [fileData_cons found, List.length_append, ih, full, List.length_cons, Nat.mul_succ,
        Nat.add_comm]

end Leads

namespace FileAt

/-- The part of a file from one of its keys on is a file. -/
theorem split (file : FileAt capacity store key (front ++ target :: rest)) :
    Leads capacity store key front target ∧ FileAt capacity store target (target :: rest) := by
  induction front generalizing key with
  | nil =>
      obtain ⟨_, same⟩ := file.eq_cons
      obtain rfl := (List.cons.inj same).1
      exact ⟨.here, file⟩
  | cons first front ih =>
      rw [List.cons_append] at file
      generalize same : front ++ target :: rest = behind at file
      cases file with
      | last => simp at same
      | link found names full later =>
          subst same
          obtain ⟨leads, file⟩ := ih later
          exact ⟨.link found names full leads, file⟩

theorem length_fileData_le (file : FileAt capacity store key keys) :
    (fileData store keys).length ≤ capacity * keys.length := by
  induction file with
  | last found ends fits =>
      rw [fileData_cons found, fileData, List.flatMap_nil, List.append_nil, List.length_singleton, Nat.mul_one]
      exact fits
  | link found names full _ ih =>
      rw [fileData_cons found, List.length_append, full, List.length_cons, Nat.mul_succ, Nat.add_comm]
      exact Nat.add_le_add_right ih capacity

/-- A file that ends does not come back to a key. -/
theorem nodup (file : FileAt capacity store key keys) : keys.Nodup := by
  induction file with
  | last => exact List.nodup_singleton _
  | @link key next keys extent found names full later ih =>
      refine List.nodup_cons.mpr ⟨fun again => ?_, ih⟩
      obtain ⟨front, rest, rfl⟩ := List.append_of_mem again
      have lengths := congrArg List.length
        ((FileAt.link found names full later).deterministic later.split.2)
      simp at lengths
      omega

end FileAt

end Files

end Ethersex.Library
