import Mathlib

/-!
# Lines of a stream

A stream whose lines end with a mark, with the beginning of a line behind the last one.  There is
only one way to see a stream like this, however it arrived.
-/

namespace Ethersex.Library

variable {α : Type*} {mark : α}

/-- The lines of a stream, and what is behind the last mark. -/
structure Lines (mark : α) (stream : List α) (lines : List (List α)) (rest : List α) : Prop where
  joined : stream = (lines.map (· ++ [mark])).flatten ++ rest
  unmarked : ∀ line ∈ lines, mark ∉ line
  unfinished : mark ∉ rest

namespace Lines

theorem nil : Lines mark [] [] [] := ⟨rfl, nofun, List.not_mem_nil⟩

variable {stream rest more : List α} {lines : List (List α)}

/-- A part of a line arrives. -/
theorem part (split : Lines mark stream lines rest) (open_ : mark ∉ more) :
    Lines mark (stream ++ more) lines (rest ++ more) where
  joined := by rw [split.joined, List.append_assoc]
  unmarked := split.unmarked
  unfinished := List.not_mem_append split.unfinished open_

/-- The end of a line arrives. -/
theorem line (split : Lines mark stream lines rest) (open_ : mark ∉ more) :
    Lines mark (stream ++ (more ++ [mark])) (lines ++ [rest ++ more]) [] where
  joined := by
    rw [split.joined, List.map_append, List.flatten_append]
    simp only [List.map_cons, List.map_nil, List.flatten_cons, List.flatten_nil, List.append_assoc,
      List.append_nil]
  unmarked := by
    intro line member
    rcases List.mem_append.mp member with old | new
    · exact split.unmarked line old
    · rw [List.mem_singleton.mp new]
      exact List.not_mem_append split.unfinished open_
  unfinished := List.not_mem_nil

theorem takeWhile_mark [DecidableEq α] {line : List α} (unmarked : mark ∉ line) (tail : List α) :
    (line ++ mark :: tail).takeWhile (· ≠ mark) = line := by
  induction line with
  | nil => simp
  | cons first others ih =>
      rw [List.mem_cons, not_or] at unmarked
      simpa [Ne.symm unmarked.1] using ih unmarked.2

/-- The first line, and what is behind its mark. -/
theorem first {line : List α} (split : Lines mark stream (line :: lines) rest) :
    ∃ tail, stream = line ++ mark :: tail ∧ mark ∉ line ∧ Lines mark tail lines rest := by
  obtain ⟨unmarked, others⟩ := List.forall_mem_cons.mp split.unmarked
  refine ⟨_, ?_, unmarked, rfl, others, split.unfinished⟩
  rw [split.joined, List.map_cons, List.flatten_cons, List.append_assoc, List.append_assoc]
  rfl

theorem unique [DecidableEq α] (split : Lines mark stream lines rest) {lines' : List (List α)} {rest' : List α}
    (split' : Lines mark stream lines' rest') : lines = lines' ∧ rest = rest' := by
  induction lines generalizing stream lines' with
  | nil =>
      cases lines' with
      | nil => exact ⟨rfl, split.joined.symm.trans split'.joined⟩
      | cons line' others' =>
          obtain ⟨tail, rfl, -, -⟩ := split'.first
          have whole : line' ++ mark :: tail = rest := split.joined
          exact absurd (whole ▸ List.mem_append_right line' List.mem_cons_self) split.unfinished
  | cons line others ih =>
      obtain ⟨tail, rfl, unmarked, split⟩ := split.first
      cases lines' with
      | nil =>
          have whole : line ++ mark :: tail = rest' := split'.joined
          exact absurd (whole ▸ List.mem_append_right line List.mem_cons_self) split'.unfinished
      | cons line' others' =>
          obtain ⟨tail', same, unmarked', split'⟩ := split'.first
          have firsts : line = line' := by
            rw [← takeWhile_mark unmarked tail, same, takeWhile_mark unmarked' tail']
          subst firsts
          obtain rfl : tail = tail' := (List.cons.inj (List.append_cancel_left same)).2
          obtain ⟨rfl, rfl⟩ := ih split split'
          exact ⟨rfl, rfl⟩

end Lines

/-! ## The lines of a file -/

/-- Where a line starts. -/
def lineStart (lines : List (List α)) (index : Nat) : Nat := ((lines.take index).map fun line => line.length + 1).sum

@[simp] theorem lineStart_zero (lines : List (List α)) : lineStart lines 0 = 0 := rfl

theorem lineStart_succ_cons (line : List α) (lines : List (List α)) (index : Nat) :
    lineStart (line :: lines) (index + 1) = line.length + 1 + lineStart lines index := by
  simp [lineStart]

theorem lineStart_succ {lines : List (List α)} {index : Nat} (inside : index < lines.length) :
    lineStart lines (index + 1) = lineStart lines index + lines[index].length + 1 := by
  rw [lineStart, lineStart, List.take_succ_eq_append_getElem inside, List.map_append, List.sum_append,
    List.map_singleton, List.sum_singleton, Nat.add_assoc]

theorem lineStart_lt_lineStart {lines : List (List α)} {index later : Nat} (before : index < later)
    (inside : later ≤ lines.length) : lineStart lines index < lineStart lines later := by
  induction later with
  | zero => omega
  | succ later ih =>
      rw [lineStart_succ (by omega)]
      rcases Nat.lt_or_eq_of_le (Nat.le_of_lt_succ before) with earlier | rfl
      · have := ih earlier (by omega)
        omega
      · omega

section LinesOf

variable [DecidableEq α]

/-- The lines of a file; the last one needs no mark. -/
def linesOf (mark : α) : List α → List (List α)
  | [] => []
  | item :: rest =>
      if item = mark then [] :: linesOf mark rest
      else
        match linesOf mark rest with
        | [] => [[item]]
        | line :: others => (item :: line) :: others

/-- The first line, and the lines behind its mark. -/
theorem linesOf_cons (mark : α) {text : List α} (nonempty : text ≠ []) :
    linesOf mark text =
      text.takeWhile (· ≠ mark) :: linesOf mark (text.drop ((text.takeWhile (· ≠ mark)).length + 1)) := by
  induction text with
  | nil => exact absurd rfl nonempty
  | cons item rest ih =>
      rw [linesOf]
      by_cases same : item = mark
      · simp [same]
      · have other : decide (item ≠ mark) = true := decide_eq_true same
        rw [if_neg same, List.takeWhile_cons_of_pos (p := fun x => decide (x ≠ mark)) other, List.length_cons, List.drop_succ_cons]
        cases rest with
        | nil => simp [linesOf]
        | cons next others => rw [ih (List.cons_ne_nil next others)]

theorem flatten_linesOf (mark : α) (text : List α) : (linesOf mark text).flatten = text.filter (· ≠ mark) := by
  fun_induction linesOf mark text with
  | case1 => rfl
  | case2 rest ih => simp [ih]
  | case3 item rest other empty ih =>
      rw [empty] at ih
      rw [List.filter_cons_of_pos (p := fun x => decide (x ≠ mark)) (decide_eq_true other), ← ih]
      rfl
  | case4 item rest other line others split ih =>
      rw [split] at ih
      rw [List.filter_cons_of_pos (p := fun x => decide (x ≠ mark)) (decide_eq_true other), ← ih]
      rfl

/-- What is behind the start of a line are the lines from there on. -/
theorem linesOf_drop (mark : α) (text : List α) (index : Nat) :
    linesOf mark (text.drop (lineStart (linesOf mark text) index)) = (linesOf mark text).drop index := by
  induction index generalizing text with
  | zero => rfl
  | succ index ih =>
      cases text with
      | nil => simp [linesOf]
      | cons item rest =>
          rw [linesOf_cons mark (List.cons_ne_nil item rest), lineStart_succ_cons, ← List.drop_drop, ih]
          rfl

/-- A line starts inside the file. -/
theorem lineStart_lt {text : List α} {index : Nat} (inside : index < (linesOf mark text).length) :
    lineStart (linesOf mark text) index < text.length := by
  by_contra outside
  have empty := linesOf_drop mark text index
  rw [List.drop_of_length_le (Nat.le_of_not_lt outside), linesOf, eq_comm, List.drop_eq_nil_iff] at empty
  omega

/-- A line reaches from its start to the next mark. -/
theorem getElem_linesOf {text : List α} {index : Nat} (inside : index < (linesOf mark text).length) :
    (linesOf mark text)[index] =
      (text.drop (lineStart (linesOf mark text) index)).takeWhile (· ≠ mark) := by
  have nonempty : text.drop (lineStart (linesOf mark text) index) ≠ [] := by
    rw [ne_eq, List.drop_eq_nil_iff, not_le]
    exact lineStart_lt inside
  have split := linesOf_drop mark text index
  rw [linesOf_cons mark nonempty, List.drop_eq_getElem_cons inside] at split
  exact (List.cons.inj split).1.symm

end LinesOf

end Ethersex.Library
