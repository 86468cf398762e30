import Mathlib
import Ethersex.Library.Bytes

/-!
# Rings

A ring that items are pushed into, each at the place of its number modulo the size.  A reader
that is less than the size behind finds all that it has not read yet.
-/

namespace Ethersex.Library

variable {α : Type*} {size start : Nat} {cells : Nat → α} {pushed : List α}

/-- The ring holds the items from a position on. -/
def Retains (size : Nat) (cells : Nat → α) (pushed : List α) (start : Nat) : Prop :=
  ∀ k (inside : k < pushed.length), start ≤ k → cells (k % size) = pushed[k]

theorem Retains.mono (retains : Retains size cells pushed start) {later : Nat} (le : start ≤ later) :
    Retains size cells pushed later :=
  fun k inside behind => retains k inside (Nat.le_trans le behind)

theorem retains_length (size : Nat) (cells : Nat → α) (pushed : List α) :
    Retains size cells pushed pushed.length :=
  fun _ inside behind => absurd inside (Nat.not_lt.mpr behind)

/-- One more item does not overwrite what has not been read. -/
theorem Retains.push (retains : Retains size cells pushed start)
    (room : pushed.length < start + size) (item : α) :
    Retains size (Function.update cells (pushed.length % size) item) (pushed ++ [item]) start := by
  intro k inside behind
  rw [List.length_append, List.length_singleton] at inside
  rcases Nat.lt_succ_iff_lt_or_eq.mp inside with before | rfl
  · have apart : k % size ≠ pushed.length % size := by
      intro same
      have multiple := (Nat.modEq_iff_dvd' (Nat.le_of_lt before)).mp same
      have := Nat.le_of_dvd (by omega) multiple
      omega
    rw [Function.update_of_ne apart, retains k before behind, List.getElem_append_left before]
  · rw [Function.update_self, List.getElem_concat_length rfl]

/-- Reading on from a position. -/
theorem Retains.read (retains : Retains size cells pushed start) {count : Nat}
    (inside : start + count ≤ pushed.length) :
    (List.range count).map (fun k => cells ((start + k) % size)) = (pushed.drop start).take count := by
  refine List.ext_getElem ?_ fun k small _ => ?_
  · rw [List.length_map, List.length_range, List.length_take, List.length_drop]
    omega
  · rw [List.length_map, List.length_range] at small
    rw [List.getElem_map, List.getElem_range, List.getElem_take, List.getElem_drop,
      retains (start + k) (by omega) (Nat.le_add_right _ _)]

/-- The place behind some items. -/
theorem add_mod_of_lt {lag : Nat} (small : lag < size) :
    (start + lag) % size =
      if start % size + lag < size then start % size + lag else start % size + lag - size := by
  rw [Nat.add_mod_eq_ite, Nat.mod_eq_of_lt small]
  split <;> split <;> omega

end Ethersex.Library

/-!
## Records in a ring of bytes

Records of different lengths that are laid end to end in a memory whose addresses wrap at the end.
A record may depend on the place of the next one.  A record that is written behind the last one
leaves the others alone as long as all of them fit into the ring together.
-/

namespace Ethersex.Library

/-- A list, as a run of bytes. -/
def ofList (data : List UInt8) : Bytes := fun k => data.getD k 0

variable {ρ : Type*} (size : Nat) (width : ρ → Nat) (encode : Nat → ρ → List UInt8)

/-- The records from one place to another one. -/
def Laid (memory : Bytes) : Nat → List ρ → Nat → Prop
  | start, [], stop => start = stop
  | start, record :: rest, stop =>
      AgreeTo (width record) (readFrom size start memory)
          (ofList (encode ((start + width record) % size) record)) ∧
        Laid memory ((start + width record) % size) rest stop

/-- The bytes that some records take. -/
def widths (records : List ρ) : Nat := (records.map width).sum

variable {size width encode} {memory : Bytes} {start stop : Nat} {records : List ρ} {record : ρ}

@[simp] theorem widths_nil : widths width ([] : List ρ) = 0 := rfl

@[simp] theorem widths_cons : widths width (record :: records) = width record + widths width records :=
  rfl

@[simp] theorem widths_append {more : List ρ} :
    widths width (records ++ more) = widths width records + widths width more := by
  simp [widths]

theorem Laid.stop_eq (laid : Laid size width encode memory start records stop) (inside : start < size) :
    stop = (start + widths width records) % size := by
  induction records generalizing start with
  | nil =>
      rw [widths_nil, Nat.add_zero, Nat.mod_eq_of_lt inside]
      exact laid.symm
  | cons record rest ih =>
      rw [ih laid.2 (Nat.mod_lt _ (by omega)), widths_cons, Nat.mod_add_mod, Nat.add_assoc]

/-- Records depend on their own bytes only. -/
theorem Laid.congr {other : Bytes} (laid : Laid size width encode memory start records stop)
    (same : ∀ k < widths width records, other ((start + k) % size) = memory ((start + k) % size)) :
    Laid size width encode other start records stop := by
  induction records generalizing start with
  | nil => exact laid
  | cons record rest ih =>
      rw [widths_cons] at same
      refine ⟨fun k inside => (same k (by omega)).trans (laid.1 k inside), ih laid.2 fun k inside => ?_⟩
      rw [Nat.mod_add_mod, Nat.add_assoc]
      exact same _ (by omega)

theorem Laid.append {middle : Nat} {more : List ρ}
    (front : Laid size width encode memory start records middle)
    (back : Laid size width encode memory middle more stop) :
    Laid size width encode memory start (records ++ more) stop := by
  induction records generalizing start with
  | nil =>
      obtain rfl : start = middle := front
      exact back
  | cons record rest ih => exact ⟨front.1, ih front.2⟩

/-- What a write that may wrap leaves at a place. -/
theorem overlay_wrap {offset count : Nat} {data : Bytes} (inside : offset < size) {k : Nat}
    (small : k < size) :
    overlay size offset count data memory ((offset + k) % size) =
      if k < count then data k else memory ((offset + k) % size) := by
  have place : (offset + k) % size < size := Nat.mod_lt _ (by omega)
  have index : ((offset + k) % size + size - offset % size) % size = k := by
    rw [Nat.mod_eq_of_lt inside]
    rcases Nat.lt_or_ge (offset + k) size with before | after
    · rw [Nat.mod_eq_of_lt before, show offset + k + size - offset = k + size by omega,
        Nat.add_mod_right, Nat.mod_eq_of_lt small]
    · have wrapped : (offset + k) % size = offset + k - size := by
        rw [Nat.mod_eq_sub_mod after, Nat.mod_eq_of_lt (by omega)]
      rw [wrapped, show offset + k - size + size - offset = k by omega, Nat.mod_eq_of_lt small]
  simp only [overlay, index, place, true_and]

/-- A record written behind the others, when all of them fit into the ring. -/
theorem Laid.write (laid : Laid size width encode memory start records stop) (inside : start < size)
    (fits : widths width records + width record ≤ size) :
    Laid size width encode
      (overlay size stop (width record) (ofList (encode ((stop + width record) % size) record)) memory)
      start (records ++ [record]) ((stop + width record) % size) := by
  have ends : stop = (start + widths width records) % size := laid.stop_eq inside
  have within : stop < size := ends ▸ Nat.mod_lt _ (by omega)
  refine Laid.append (laid.congr fun k before => ?_) ⟨fun k inside => ?_, rfl⟩
  · -- seen from the end, an earlier byte is as far ahead as the ring is long but for the distance
    have around : (start + k) % size = (stop + (size + k - widths width records)) % size := by
      rw [ends, Nat.mod_add_mod, show start + widths width records +
        (size + k - widths width records) = start + k + size by omega, Nat.add_mod_right]
    rw [around, overlay_wrap within (by omega), if_neg (by omega)]
  · rw [readFrom, overlay_wrap within (by omega), if_pos inside]

end Ethersex.Library
