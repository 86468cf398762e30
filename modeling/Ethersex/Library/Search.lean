import Mathlib

/-!
# Searching in texts

`strchr` and `strstr`: what is left of a text from the first occurrence of a pattern on.  A first
occurrence stays the first one when the text grows.
-/

namespace Ethersex.Library

variable {α : Type*} [DecidableEq α]

/-- `strstr`. -/
def strstr (pattern : List α) : List α → Option (List α)
  | [] => if pattern = [] then some [] else none
  | ch :: rest => if pattern <+: ch :: rest then some (ch :: rest) else strstr pattern rest

variable {pattern text found : List α}

theorem strstr_eq_some (occurs : strstr pattern text = some found) :
    ∃ front, text = front ++ found ∧ pattern <+: found := by
  induction text with
  | nil =>
      rw [strstr] at occurs
      split at occurs
      next empty =>
        cases occurs
        exact ⟨[], rfl, empty ▸ List.prefix_rfl⟩
      · exact nomatch occurs
  | cons ch rest ih =>
      rw [strstr] at occurs
      split at occurs
      next here =>
        cases occurs
        exact ⟨[], rfl, here⟩
      · obtain ⟨front, rfl, begins⟩ := ih occurs
        exact ⟨ch :: front, rfl, begins⟩

/-- More text behind the first occurrence. -/
theorem strstr_append (occurs : strstr pattern text = some found) (more : List α) :
    strstr pattern (text ++ more) = some (found ++ more) := by
  induction text with
  | nil =>
      rw [strstr] at occurs
      split at occurs
      next empty =>
        cases occurs
        rw [List.nil_append, empty]
        cases more <;> simp [strstr]
      · exact nomatch occurs
  | cons ch rest ih =>
      rw [strstr] at occurs
      rw [List.cons_append, strstr]
      split at occurs
      next here =>
        cases occurs
        exact if_pos (here.trans (List.prefix_append _ more))
      next absent =>
        by_cases here : pattern <+: ch :: (rest ++ more)
        · -- a longer text has no earlier occurrence, since there was a whole one behind it
          obtain ⟨front, rfl, begins⟩ := strstr_eq_some occurs
          refine absurd ?_ absent
          refine List.prefix_of_prefix_length_le here (List.prefix_append (ch :: (front ++ found)) more) ?_
          have := begins.length_le
          simp only [List.length_cons, List.length_append]
          omega
        · rw [if_neg here]
          exact ih occurs

/-- `strchr`. -/
theorem strstr_singleton_eq_none {ch : α} : strstr [ch] text = none ↔ ch ∉ text := by
  induction text with
  | nil => simp [strstr]
  | cons other rest ih =>
      rw [strstr, List.mem_cons, not_or]
      by_cases same : ch = other
      · simp [same]
      · have absent : ¬[ch] <+: other :: rest := by
          rw [List.cons_prefix_cons]
          exact fun here => same here.1
        rw [if_neg absent, ih]
        exact (and_iff_right same).symm

end Ethersex.Library
