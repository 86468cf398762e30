import Mathlib

/-!
# Object identifiers

Identifiers are lists of numbers in lexicographic order.  Each number is written in bytes of seven
bits with a mark on all but the last one, so that prefixes of identifiers are prefixes of their bytes.
-/

namespace Ethersex.Library

/-! ## Codes -/

section Code

variable {α β : Type*} {code : α → List β}

/-- What a text begins with is known from it. -/
def Instantaneous (code : α → List β) : Prop :=
  (∀ a, code a ≠ []) ∧ ∀ a b rest other, code a ++ rest = code b ++ other → a = b

theorem Instantaneous.prefix_iff (instantaneous : Instantaneous code) {first second : List α} :
    first.flatMap code <+: second.flatMap code ↔ first <+: second := by
  constructor
  · intro begins
    induction first generalizing second with
    | nil => exact List.nil_prefix
    | cons a first ih =>
        rw [List.flatMap_cons] at begins
        cases second with
        | nil =>
            have empty : code a = [] := (List.append_eq_nil_iff.mp (List.prefix_nil.mp begins)).1
            exact absurd empty (instantaneous.1 a)
        | cons b second =>
            obtain ⟨rest, same⟩ := begins
            rw [List.flatMap_cons, List.append_assoc] at same
            obtain rfl := instantaneous.2 a b _ _ same
            exact List.cons_prefix_cons.mpr ⟨rfl, ih ⟨rest, List.append_cancel_left same⟩⟩
  · rintro ⟨rest, rfl⟩
    rw [List.flatMap_append]
    exact List.prefix_append ..

theorem Instantaneous.flatMap_inj (instantaneous : Instantaneous code) {first second : List α} :
    first.flatMap code = second.flatMap code ↔ first = second := by
  refine ⟨fun same => ?_, fun same => by rw [same]⟩
  have forth : first <+: second := instantaneous.prefix_iff.mp (by rw [same])
  have back : second <+: first := instantaneous.prefix_iff.mp (by rw [same])
  exact forth.eq_of_length_le back.length_le

end Code

/-! ## Numbers in bytes -/

/-- The bytes in front of the last one. -/
def highBytes (n : Nat) : List UInt8 :=
  if n = 0 then [] else highBytes (n / 128) ++ [UInt8.ofNat (n % 128 + 128)]
decreasing_by exact Nat.div_lt_self (Nat.pos_of_ne_zero ‹_›) (by decide)

/-- A number of an identifier. -/
def subidentifier (n : Nat) : List UInt8 := highBytes (n / 128) ++ [UInt8.ofNat (n % 128)]

/-- The number in some bytes. -/
def bytesValue (bytes : List UInt8) : Nat := bytes.foldl (fun n byte => n * 128 + byte.toNat % 128) 0

theorem highBytes_marked (n : Nat) : ∀ byte ∈ highBytes n, 128 ≤ byte := by
  induction n using Nat.strong_induction_on with
  | _ n ih =>
      rw [highBytes]
      split
      · exact fun _ none => absurd none List.not_mem_nil
      · next positive =>
          rw [List.forall_mem_append, List.forall_mem_singleton]
          refine ⟨ih _ (Nat.div_lt_self (Nat.pos_of_ne_zero positive) (by decide)), ?_⟩
          rw [UInt8.le_iff_toNat_le, UInt8.toNat_ofNat_of_lt' (by change _ < 256; omega)]
          exact Nat.le_add_left ..

theorem bytesValue_highBytes (n : Nat) : bytesValue (highBytes n) = n := by
  induction n using Nat.strong_induction_on with
  | _ n ih =>
      rw [highBytes]
      split
      · next zero => exact zero.symm
      · next positive =>
          have smaller := ih _ (Nat.div_lt_self (Nat.pos_of_ne_zero positive) (by decide : 1 < 128))
          rw [bytesValue] at smaller
          rw [bytesValue, List.foldl_append, smaller, List.foldl_cons, List.foldl_nil,
            UInt8.toNat_ofNat_of_lt' (by change _ < 256; omega)]
          omega

theorem bytesValue_subidentifier (n : Nat) : bytesValue (subidentifier n) = n := by
  have high := bytesValue_highBytes (n / 128)
  rw [bytesValue] at high
  rw [bytesValue, subidentifier, List.foldl_append, high, List.foldl_cons, List.foldl_nil,
    UInt8.toNat_ofNat_of_lt' (by change _ < 256; omega)]
  omega

theorem instantaneous_subidentifier : Instantaneous subidentifier := by
  refine ⟨fun n => by simp [subidentifier], fun n m rest other same => ?_⟩
  have last (n : Nat) : ¬(128 : UInt8) ≤ UInt8.ofNat (n % 128) := by
    rw [UInt8.le_iff_toNat_le, UInt8.toNat_ofNat_of_lt' (by change _ < 256; omega)]
    exact Nat.not_le.mpr (Nat.mod_lt n (by decide))
  have front (n : Nat) (rest : List UInt8) :
      (subidentifier n ++ rest).takeWhile (128 ≤ ·) = highBytes (n / 128) := by
    rw [subidentifier, List.append_assoc, List.takeWhile_append_of_pos]
    · simp [last n]
    · exact fun byte member => decide_eq_true (highBytes_marked _ byte member)
  have high : highBytes (n / 128) = highBytes (m / 128) := by rw [← front n rest, same, front]
  rw [subidentifier, subidentifier, high, List.append_assoc, List.append_assoc] at same
  have low := (List.cons.inj (List.append_cancel_left same)).1
  rw [← bytesValue_subidentifier n, subidentifier, high, low, ← subidentifier, bytesValue_subidentifier]

/-! ## The next identifier -/

section Next

variable {α : Type*} [LinearOrder α] {table : List (List α)} {requested found : List α}

/-- The least identifier of a table that is greater than the requested one. -/
structure IsNext (table : List (List α)) (requested found : List α) : Prop where
  member : found ∈ table
  greater : requested < found
  least : ∀ other ∈ table, requested < other → other = found ∨ found < other

theorem lt_of_begins (begins : requested <+: found) (apart : requested ≠ found) : requested < found := by
  obtain ⟨rest, rfl⟩ := begins
  cases rest with
  | nil => exact absurd (List.append_nil _).symm apart
  | cons a rest =>
      clear apart
      induction requested with
      | nil => exact List.nil_lt_cons a rest
      | cons b requested ih => exact List.cons_lt_cons_iff.mpr (.inr ⟨rfl, ih⟩)

/-- Neither of two identifiers begins with the other. -/
def Apart (first second : List α) : Prop := ¬first <+: second ∧ ¬second <+: first

/-- An identifier apart from the requested one is below it if it is below one that begins with it. -/
theorem lt_of_lt_of_begins {smaller : List α} (less : smaller < found) (begins : requested <+: found)
    (apart : Apart smaller requested) : smaller < requested := by
  induction requested generalizing smaller found with
  | nil => exact absurd List.nil_prefix apart.2
  | cons a requested ih =>
      obtain ⟨rest, rfl⟩ := begins
      cases smaller with
      | nil => exact absurd List.nil_prefix apart.1
      | cons b smaller =>
          rw [List.cons_append, List.cons_lt_cons_iff] at less
          rw [List.cons_lt_cons_iff]
          rcases less with less | ⟨rfl, less⟩
          · exact .inl less
          · refine .inr ⟨rfl, ih less ⟨rest, rfl⟩ ⟨fun here => apart.1 ?_, fun here => apart.2 ?_⟩⟩
            · exact List.cons_prefix_cons.mpr ⟨rfl, here⟩
            · exact List.cons_prefix_cons.mpr ⟨rfl, here⟩

end Next

end Ethersex.Library
