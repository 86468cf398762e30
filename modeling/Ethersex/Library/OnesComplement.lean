import Mathlib

/-!
# Sums in one's complement

Words are the numbers up to a greatest one, and a sum that exceeds it is carried around to the low end.  The
arithmetic is that of the remainders by the greatest word, except that zero and the greatest word are two
words for one remainder.  A sum of words is the first of them only if every word is.
-/

namespace Ethersex.Library

/-- The sum of two words with an end-around carry. -/
def endAround (most left right : Nat) : Nat :=
  if left + right ≤ most then left + right else left + right - most

/-- The sum of a list of words, in order. -/
def onesSum (most : Nat) (words : List Nat) : Nat := words.foldl (endAround most) 0

section Words

variable {most : Nat}

theorem endAround_le {left right : Nat} (leftWord : left ≤ most) (rightWord : right ≤ most) :
    endAround most left right ≤ most := by
  rw [endAround]
  split <;> omega

theorem endAround_modEq (most left right : Nat) : endAround most left right ≡ left + right [MOD most] := by
  rw [endAround]
  split
  · rfl
  · rename_i carry
    have whole : left + right = left + right - most + most := by omega
    conv_rhs => rw [whole]
    exact (Nat.add_modEq_right).symm

theorem endAround_eq_zero {left right : Nat} : endAround most left right = 0 ↔ left = 0 ∧ right = 0 := by
  rw [endAround]
  split <;> omega

/-- What a sum that has come to `start` comes to after the words. -/
theorem foldl_endAround {words : List Nat} (small : ∀ word ∈ words, word ≤ most) {start : Nat}
    (startWord : start ≤ most) :
    words.foldl (endAround most) start ≤ most ∧
      words.foldl (endAround most) start ≡ start + words.sum [MOD most] ∧
      (words.foldl (endAround most) start = 0 ↔ start = 0 ∧ words.sum = 0) := by
  induction words generalizing start with
  | nil => exact ⟨startWord, by simp [Nat.ModEq], by simp⟩
  | cons word rest ih =>
      have next := endAround_le startWord (small word List.mem_cons_self)
      obtain ⟨bound, same, zero⟩ := ih (fun other member => small other (List.mem_cons_of_mem word member)) next
      refine ⟨bound, ?_, ?_⟩
      · have step := (endAround_modEq most start word).add_right rest.sum
        rw [List.sum_cons, ← Nat.add_assoc]
        exact same.trans step
      · simp only [List.foldl_cons, zero, endAround_eq_zero, List.sum_cons]
        omega

/-- A sum is the greatest word exactly when the plain sum is a positive multiple of it. -/
theorem onesSum_eq_most {words : List Nat} (small : ∀ word ∈ words, word ≤ most) (positive : 0 < most) :
    onesSum most words = most ↔ most ∣ words.sum ∧ words.sum ≠ 0 := by
  obtain ⟨bound, same, zero⟩ := foldl_endAround small (Nat.zero_le most)
  rw [Nat.zero_add] at same
  rw [← onesSum] at bound same zero
  constructor
  · intro greatest
    rw [greatest] at same zero
    exact ⟨(Nat.modEq_zero_iff_dvd).mp (same.symm.trans (by simp [Nat.ModEq])), by omega⟩
  · rintro ⟨divides, nonzero⟩
    have multiple : most ∣ onesSum most words := (same.dvd_iff dvd_rfl).mpr divides
    have positiveSum : 0 < onesSum most words := by omega
    exact Nat.le_antisymm bound (Nat.le_of_dvd positiveSum multiple)

/-- Exchanging the digits of a word multiplies it by the base, in the remainders by the greatest word of two
digits. -/
theorem swap_modEq (base low high : Nat) (positive : 0 < base) :
    low * base + high ≡ base * (low + high * base) [MOD base ^ 2 - 1] := by
  have square : base * (low + high * base) = low * base + high + high * (base ^ 2 - 1) := by
    have one : 1 ≤ base ^ 2 := Nat.one_le_pow 2 base positive
    zify [one]
    ring
  rw [square]
  exact (Nat.add_mul_mod_self_right _ _ _).symm

end Words

/-- Octets as words with the more significant one first.  An octet that is left over is the more significant
half of a word. -/
def bigEndianWords : List UInt8 → List Nat
  | [] => []
  | [high] => [high.toNat * 256]
  | high :: low :: rest => (high.toNat * 256 + low.toNat) :: bigEndianWords rest

theorem bigEndianWords_le (octets : List UInt8) : ∀ word ∈ bigEndianWords octets, word ≤ 65535 := by
  fun_induction bigEndianWords octets with
  | case1 => simp
  | case2 high =>
      have := high.toNat_lt
      simp only [List.mem_singleton, forall_eq]
      omega
  | case3 high low rest ih =>
      have := high.toNat_lt
      have := low.toNat_lt
      simp only [List.mem_cons, forall_eq_or_imp]
      exact ⟨by omega, ih⟩

end Ethersex.Library
