import Mathlib
import Ethersex.Library.Bytes

/-!
# C strings in fields of a fixed length

`strncmp` and `strncpy`, and the text they work on: the bytes of a field in front
of the first zero.  `strncmp` orders texts lexicographically.
-/

namespace Ethersex.Library

/-- The bytes of a C string. -/
def cString (text : List UInt8) : Bytes := fun k => text.getD k 0

/-- `strncmp`. -/
def strncmp (left right : Bytes) : Nat → Int
  | 0 => 0
  | count + 1 =>
      if left 0 ≠ right 0 then (left 0).toNat - (right 0).toNat
      else if left 0 = 0 then 0
      else strncmp (fun k => left (k + 1)) (fun k => right (k + 1)) count

/-- The bytes `strncpy` writes: the string padded with zeros. -/
def strncpy (source : Bytes) : Bytes := fun k =>
  if ∀ j ≤ k, source j ≠ 0 then source k else 0

/-- The text in a field of `count` bytes. -/
def fieldText : (count : Nat) → Bytes → List UInt8
  | 0, _ => []
  | count + 1, field =>
      if field 0 = 0 then [] else field 0 :: fieldText count fun k => field (k + 1)

theorem fieldText_congr {count : Nat} {left right : Bytes} (agree : AgreeTo count left right) :
    fieldText count left = fieldText count right := by
  induction count generalizing left right with
  | zero => rfl
  | succ count ih =>
      rw [fieldText, fieldText, agree 0 (Nat.succ_pos count),
        ih fun k small => agree (k + 1) (Nat.succ_lt_succ small)]

theorem fieldText_cString {text : List UInt8} (terminated : ∀ ch ∈ text, ch ≠ 0) (count : Nat) :
    fieldText count (cString text) = text.take count := by
  induction count generalizing text with
  | zero => rfl
  | succ count ih =>
      cases text with
      | nil => rfl
      | cons ch rest =>
          have here : cString (ch :: rest) 0 = ch := rfl
          rw [fieldText, here, if_neg (terminated ch List.mem_cons_self), List.take_succ_cons,
            ← ih fun other member => terminated other (List.mem_cons_of_mem ch member)]
          rfl

/-- The text at a place of a memory, with its terminator. -/
structure TextAt (memory : Bytes) (start : Nat) (text : List UInt8) : Prop where
  chars : ∀ k, (inside : k < text.length) → memory (start + k) = text[k]
  ends : memory (start + text.length) = 0
  clean : ∀ ch ∈ text, ch ≠ 0

section TextAt

variable {memory : Bytes} {start : Nat} {ch : UInt8} {text : List UInt8}

theorem TextAt.head (found : TextAt memory start (ch :: text)) : memory start = ch := found.chars 0 (by simp)

theorem TextAt.drop (found : TextAt memory start text) {count : Nat} (inside : count ≤ text.length) :
    TextAt memory (start + count) (text.drop count) where
  chars k more := by
    rw [List.length_drop] at more
    have here := found.chars (count + k) (by omega)
    rw [← Nat.add_assoc] at here
    simpa using here
  ends := by
    rw [List.length_drop, Nat.add_assoc, Nat.add_sub_cancel' inside]
    exact found.ends
  clean other member := found.clean other (List.mem_of_mem_drop member)

theorem TextAt.tail (found : TextAt memory start (ch :: text)) : TextAt memory (start + 1) text :=
  found.drop (Nat.succ_le_succ (Nat.zero_le _))

/-- A text is found again in a field that begins with it. -/
theorem TextAt.fieldText_eq (found : TextAt memory start text) (count : Nat) :
    fieldText count (fun k => memory (start + k)) = text.take count := by
  induction count generalizing start text with
  | zero => rfl
  | succ count ih =>
      cases text with
      | nil =>
          have zero : memory start = 0 := found.ends
          simp [fieldText, zero]
      | cons ch rest =>
          have nonzero : ch ≠ 0 := found.clean ch List.mem_cons_self
          have later := ih found.tail
          simp only [Nat.add_assoc, Nat.add_comm 1] at later
          rw [fieldText, Nat.add_zero, found.head, if_neg nonzero, later, List.take_succ_cons]

/-- A text that was copied with its terminator. -/
theorem TextAt.copied {copy : Bytes} {dest : Nat} (found : TextAt memory start text)
    (same : ∀ k ≤ text.length, copy (dest + k) = memory (start + k)) : TextAt copy dest text where
  chars k inside := (same k (Nat.le_of_lt inside)).trans (found.chars k inside)
  ends := (same text.length (Nat.le_refl _)).trans found.ends
  clean := found.clean

/-- A text behind the characters of another one. -/
theorem TextAt.append {before : List UInt8} (found : TextAt memory (start + before.length) text)
    (chars : ∀ k, (inside : k < before.length) → memory (start + k) = before[k])
    (clean : ∀ ch ∈ before, ch ≠ 0) : TextAt memory start (before ++ text) where
  chars k inside := by
    rw [List.length_append] at inside
    rcases Nat.lt_or_ge k before.length with early | late
    · rw [List.getElem_append_left early, chars k early]
    · have here := found.chars (k - before.length) (by omega)
      rw [Nat.add_assoc, Nat.add_sub_cancel' late] at here
      rw [List.getElem_append_right late, here]
  ends := by
    rw [List.length_append, ← Nat.add_assoc]
    exact found.ends
  clean other member := (List.mem_append.mp member).elim (clean other) (found.clean other)

end TextAt

/-- `strncmp` over the whole length of a text finds whether the other one begins with it. -/
theorem strncmp_length_eq_zero_iff {text : List UInt8} (terminated : ∀ ch ∈ text, ch ≠ 0) (other : List UInt8) :
    strncmp (cString other) (cString text) text.length = 0 ↔ text <+: other := by
  induction text generalizing other with
  | nil => exact iff_of_true rfl List.nil_prefix
  | cons ch rest ih =>
      obtain ⟨nonzero, terminated⟩ := List.forall_mem_cons.mp terminated
      cases other with
      | nil =>
          refine iff_of_false (fun equal => ?_) (by simp)
          have apart : cString [] 0 ≠ cString (ch :: rest) 0 := fun same => nonzero same.symm
          have value : ((cString [] 0).toNat : Int) - (cString (ch :: rest) 0).toNat = 0 := by
            rw [List.length_cons, strncmp, if_pos apart] at equal
            exact equal
          exact apart (UInt8.toNat_inj.mp (by omega))
      | cons first others =>
          rw [List.cons_prefix_cons, List.length_cons, strncmp]
          by_cases same : first = ch
          · rw [if_neg (not_not_intro (show cString (first :: others) 0 = cString (ch :: rest) 0 from same)),
              if_neg (show cString (first :: others) 0 ≠ 0 from same ▸ nonzero)]
            exact (ih terminated others).trans (and_iff_right same.symm).symm
          · rw [if_pos (show cString (first :: others) 0 ≠ cString (ch :: rest) 0 from same)]
            refine iff_of_false (fun equal => ?_) fun both => same both.1.symm
            refine same (UInt8.toNat_inj.mp ?_)
            have : ((first).toNat : Int) - ch.toNat = 0 := equal
            omega

/-- The text of a field with a zero behind some bytes. -/
theorem fieldText_eq_takeWhile {bytes : List UInt8} {field : Bytes} {count : Nat}
    (agree : AgreeTo bytes.length field (cString bytes)) (ends : field bytes.length = 0)
    (short : bytes.length < count) : fieldText count field = bytes.takeWhile (· ≠ 0) := by
  induction bytes generalizing field count with
  | nil =>
      obtain ⟨count, rfl⟩ : ∃ other, count = other + 1 := ⟨count - 1, by omega⟩
      exact if_pos ends
  | cons ch rest ih =>
      obtain ⟨count, rfl⟩ : ∃ other, count = other + 1 := ⟨count - 1, by omega⟩
      have first : field 0 = ch := agree 0 (Nat.succ_pos _)
      have others := @ih (fun k => field (k + 1)) count
        (fun k small => agree (k + 1) (Nat.succ_lt_succ small)) ends (Nat.lt_of_succ_lt_succ short)
      rw [fieldText, first, others]
      by_cases zero : ch = 0
      · simp [zero]
      · simp [zero]

theorem fieldText_strncpy (source : Bytes) (count : Nat) :
    fieldText count (strncpy source) = fieldText count source := by
  induction count generalizing source with
  | zero => rfl
  | succ count ih =>
      have first : strncpy source 0 = source 0 := by
        simp only [strncpy, Nat.le_zero_eq, forall_eq]
        split <;> simp_all
      rw [fieldText, fieldText, first]
      split
      · rfl
      · next nonzero =>
          rw [← ih fun k => source (k + 1)]
          congr 2
          funext k
          have shift : (∀ j ≤ k + 1, source j ≠ 0) ↔ ∀ j ≤ k, source (j + 1) ≠ 0 := by
            constructor
            · exact fun all j small => all (j + 1) (by omega)
            · intro all j small
              cases j with
              | zero => exact nonzero
              | succ j => exact all j (by omega)
          simp only [strncpy, shift]

/-- `strncmp` compares the texts. -/
theorem strncmp_eq_zero_iff (left right : Bytes) (count : Nat) :
    strncmp left right count = 0 ↔ fieldText count left = fieldText count right := by
  induction count generalizing left right with
  | zero => simp [strncmp, fieldText]
  | succ count ih =>
      rw [strncmp, fieldText, fieldText]
      by_cases same : left 0 = right 0
      · rw [if_neg (not_not_intro same), ← same]
        split
        · simp
        · rw [ih, List.cons_eq_cons, eq_self, true_and]
      · have apart : ((left 0).toNat : Int) - (right 0).toNat ≠ 0 := by
          intro equal
          exact same (UInt8.toNat_inj.mp (by omega))
        rw [if_pos same]
        constructor
        · exact fun equal => absurd equal apart
        · intro equal
          split at equal <;> split at equal <;> simp_all

/-- `strncmp` over the whole length of a name finds whether the text at a place begins with it. -/
theorem TextAt.begins_iff {memory : Bytes} {start : Nat} {text name : List UInt8} (found : TextAt memory start text)
    (clean : ∀ ch ∈ name, ch ≠ 0) :
    strncmp (fun k => memory (start + k)) (cString name) name.length = 0 ↔ name <+: text := by
  rw [strncmp_eq_zero_iff, found.fieldText_eq, fieldText_cString clean, List.take_length, List.prefix_iff_eq_take,
    eq_comm]

theorem strncmp_neg_iff (left right : Bytes) (count : Nat) :
    strncmp left right count < 0 ↔ fieldText count left < fieldText count right := by
  induction count generalizing left right with
  | zero => simp [strncmp, fieldText]
  | succ count ih =>
      rw [strncmp, fieldText, fieldText]
      by_cases same : left 0 = right 0
      · rw [if_neg (not_not_intro same), ← same]
        split
        · simp
        · rw [ih, List.cons_lt_cons_iff]
          simp
      · rw [if_pos same]
        have order : ((left 0).toNat : Int) - (right 0).toNat < 0 ↔ left 0 < right 0 := by
          rw [UInt8.lt_iff_toNat_lt]
          omega
        rw [order]
        by_cases leftEnd : left 0 = 0
        · have rightMore : right 0 ≠ 0 := fun rightEnd => same (leftEnd.trans rightEnd.symm)
          rw [if_pos leftEnd, if_neg rightMore, leftEnd]
          simp [UInt8.pos_iff_ne_zero, rightMore]
        · rw [if_neg leftEnd]
          by_cases rightEnd : right 0 = 0
          · rw [if_pos rightEnd, rightEnd]
            simp
          · rw [if_neg rightEnd, List.cons_lt_cons_iff]
            simp [same]

/-! ## Insertion into a sorted list -/

section Sorted

variable {α : Type*} [LT α] [LE α] [DecidableLT α] [Std.IsLinearOrder α] [Std.LawfulOrderLT α]

/-- Inserting behind the smaller elements keeps a strictly sorted list sorted. -/
theorem pairwise_insertIdx_countP {list : List α} (sorted : list.Pairwise (· < ·)) {item : α}
    (absent : item ∉ list) :
    (list.insertIdx (list.countP (· < item)) item).Pairwise (· < ·) := by
  induction list with
  | nil => simp
  | cons head rest ih =>
      rw [List.pairwise_cons] at sorted
      rw [List.mem_cons, not_or] at absent
      by_cases smaller : head < item
      · rw [List.countP_cons_of_pos (by simpa using smaller), List.insertIdx_succ_cons,
          List.pairwise_cons]
        refine ⟨fun other member => ?_, ih sorted.2 absent.2⟩
        rcases List.eq_or_mem_of_mem_insertIdx member with rfl | old
        · exact smaller
        · exact sorted.1 other old
      · have larger : item < head := Std.lt_of_le_of_ne (Std.not_lt.mp smaller) absent.1
        have none : (head :: rest).countP (· < item) = 0 := by
          rw [List.countP_eq_zero]
          intro other member
          rcases List.mem_cons.mp member with rfl | later
          · simpa using smaller
          · have above := Std.lt_trans larger (sorted.1 other later)
            simpa using Std.not_lt.mpr (Std.le_of_lt above)
        rw [none, List.insertIdx_zero, List.pairwise_cons, List.pairwise_cons]
        refine ⟨fun other member => ?_, sorted⟩
        rcases List.mem_cons.mp member with rfl | later
        · exact larger
        · exact Std.lt_trans larger (sorted.1 other later)

end Sorted

end Ethersex.Library
