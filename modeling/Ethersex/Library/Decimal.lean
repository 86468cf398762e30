import Mathlib
import Ethersex.Library.Ansi

/-!
# Decimal numbers as texts

How a number is written with digits, a sign, a point and spaces in front, and which number such a
text denotes.
-/

namespace Ethersex.Library

open Ansi

/-- `%d`. -/
def decimalInt (value : Int) : List UInt8 :=
  if value < 0 then 45 :: decimal value.natAbs else decimal value.natAbs

/-- Spaces in front, up to a width. -/
def padLeft (width : Nat) (text : List UInt8) : List UInt8 :=
  List.replicate (width - text.length) 32 ++ text

/-- The number that digits stand for. -/
def digitsValue (digits : List UInt8) : Nat :=
  digits.foldl (fun value ch => 10 * value + (ch.toNat - 48)) 0

/-- The number that a text stands for, with a sign and with digits behind a point. -/
def numeral (text : List UInt8) : ℚ :=
  let text := text.dropWhile (· = 32)
  let digits := if text.head? = some 45 then text.tail else text
  let behind := (digits.dropWhile (· ≠ 46)).tail
  let size : ℚ := digitsValue (digits.takeWhile (· ≠ 46)) + digitsValue behind / 10 ^ behind.length
  if text.head? = some 45 then -size else size

theorem decimal_of_lt {value : Nat} (small : value < 10) :
    decimal value = [UInt8.ofNat (Nat.digitChar value).toNat] := by
  rw [decimal, Nat.toDigits_eq_if (by decide), if_pos small]
  rfl

theorem decimal_of_ge {value : Nat} (large : 10 ≤ value) :
    decimal value = decimal (value / 10) ++ [UInt8.ofNat (Nat.digitChar (value % 10)).toNat] := by
  rw [decimal, Nat.toDigits_eq_if (by decide), if_neg (by omega), List.map_append]
  rfl

theorem decimal_ne_nil (value : Nat) : decimal value ≠ [] := by
  rcases Nat.lt_or_ge value 10 with small | large
  · rw [decimal_of_lt small]
    exact List.cons_ne_nil _ _
  · rw [decimal_of_ge large]
    exact List.append_ne_nil_of_right_ne_nil _ (List.cons_ne_nil _ _)

/-- Every character of a number is a digit. -/
theorem digit_of_mem_decimal {value : Nat} : ∀ ch ∈ decimal value, 48 ≤ ch.toNat ∧ ch.toNat ≤ 57 := by
  induction value using Nat.strong_induction_on with
  | _ value ih =>
      intro ch member
      rcases Nat.lt_or_ge value 10 with small | large
      · rw [decimal_of_lt small, List.mem_singleton] at member
        rw [member, digit_toNat small]
        omega
      · rw [decimal_of_ge large, List.mem_append, List.mem_singleton] at member
        rcases member with before | last
        · exact ih (value / 10) (by omega) ch before
        · rw [last, digit_toNat (Nat.mod_lt value (by decide))]
          omega

theorem digitsValue_decimal (value : Nat) : digitsValue (decimal value) = value := by
  induction value using Nat.strong_induction_on with
  | _ value ih =>
      rcases Nat.lt_or_ge value 10 with small | large
      · rw [decimal_of_lt small, digitsValue, List.foldl_cons, List.foldl_nil, digit_toNat small]
        omega
      · have front := ih (value / 10) (by omega)
        rw [digitsValue] at front
        rw [decimal_of_ge large, digitsValue, List.foldl_append, front, List.foldl_cons, List.foldl_nil,
          digit_toNat (Nat.mod_lt value (by decide))]
        omega

theorem decimal_forall_ne {value : Nat} {other : UInt8} (outside : other.toNat < 48 ∨ 57 < other.toNat) :
    ∀ ch ∈ decimal value, ch ≠ other := by
  rintro ch member rfl
  have digit := digit_of_mem_decimal ch member
  omega

/-- The digits in front of a point and those behind it. -/
theorem split_at_point (whole fraction : Nat) :
    (decimal whole ++ 46 :: decimal fraction).takeWhile (· ≠ 46) = decimal whole ∧
      ((decimal whole ++ 46 :: decimal fraction).dropWhile (· ≠ 46)).tail = decimal fraction := by
  have clean : ∀ ch ∈ decimal whole, decide (ch ≠ 46) = true := fun ch member =>
    decide_eq_true (decimal_forall_ne (.inl (by decide)) ch member)
  constructor
  · rw [List.takeWhile_append_of_pos clean, List.takeWhile_cons_of_neg (by simp), List.append_nil]
  · rw [List.dropWhile_append_of_pos clean, List.dropWhile_cons_of_neg (by simp), List.tail_cons]

theorem dropWhile_padLeft {width : Nat} {text rest : List UInt8} (starts : text.head? ≠ some 32)
    (nonempty : text ≠ []) : (padLeft width text ++ rest).dropWhile (· = 32) = text ++ rest := by
  have spaces : ∀ ch ∈ List.replicate (width - text.length) (32 : UInt8), decide (ch = 32) = true :=
    fun ch member => decide_eq_true (List.eq_of_mem_replicate member)
  rw [padLeft, List.append_assoc, List.dropWhile_append_of_pos spaces]
  cases text with
  | nil => exact absurd rfl nonempty
  | cons first text =>
      rw [List.cons_append, List.dropWhile_cons_of_neg]
      simpa using starts

/-- What a number in a column denotes, with digits behind a point. -/
theorem numeral_point (width : Nat) (whole : Int) (fraction : Nat) :
    numeral (padLeft width (decimalInt whole) ++ 46 :: decimal fraction) =
      if whole < 0 then -(whole.natAbs + fraction / 10 ^ (decimal fraction).length : ℚ)
      else whole.natAbs + fraction / 10 ^ (decimal fraction).length := by
  obtain ⟨front, behind⟩ := split_at_point whole.natAbs fraction
  by_cases negative : whole < 0
  · have text : (padLeft width (decimalInt whole) ++ 46 :: decimal fraction).dropWhile (· = 32) =
        45 :: (decimal whole.natAbs ++ 46 :: decimal fraction) := by
      rw [decimalInt, if_pos negative, dropWhile_padLeft (by simp) (List.cons_ne_nil _ _), List.cons_append]
    simp only [numeral, text, List.head?_cons, if_true, List.tail_cons, front, behind, digitsValue_decimal,
      if_pos negative]
  · have first : (decimal whole.natAbs).head? ≠ some 32 ∧
        (decimal whole.natAbs ++ 46 :: decimal fraction).head? ≠ some 45 := by
      cases written : decimal whole.natAbs with
      | nil => exact absurd written (decimal_ne_nil _)
      | cons ch rest =>
          have member : ch ∈ decimal whole.natAbs := by
            rw [written]
            exact List.mem_cons_self
          have space := @decimal_forall_ne whole.natAbs 32 (.inl (by decide)) ch member
          have minus := @decimal_forall_ne whole.natAbs 45 (.inl (by decide)) ch member
          simp [space, minus]
    have text : (padLeft width (decimalInt whole) ++ 46 :: decimal fraction).dropWhile (· = 32) =
        decimal whole.natAbs ++ 46 :: decimal fraction := by
      rw [decimalInt, if_neg negative, dropWhile_padLeft first.1 (decimal_ne_nil _)]
    simp only [numeral, text, if_neg first.2, front, behind, digitsValue_decimal, if_neg negative]

end Ethersex.Library
