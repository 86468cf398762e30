import Mathlib

/-!
# Handles that are opened, used and closed

A log of what happened to handles, the newest call first.  Every handle that is opened gets a number of
its own.  A proper log has at most one handle open at a time, and uses and closes no other one.
-/

namespace Ethersex.Library

inductive HandleCall where
  | opened (id : Nat)
  | used (id : Nat)
  | closed (id : Nat)
  deriving DecidableEq, Repr

namespace HandleCall

/-- The handle is used or closed. -/
def Needs (id : Nat) (call : HandleCall) : Prop := call = .used id ∨ call = .closed id

/-- How many handles were opened; it is the number of the next one. -/
def openings : List HandleCall → Nat
  | [] => 0
  | .opened _ :: log => openings log + 1
  | .used _ :: log => openings log
  | .closed _ :: log => openings log

/-- The handle was opened and not closed since. -/
def IsOpen (log : List HandleCall) (id : Nat) : Prop := .opened id ∈ log ∧ .closed id ∉ log

/-- A log and the handle that it leaves open. -/
inductive Proper : List HandleCall → Option Nat → Prop
  | nil : Proper [] none
  | opened {log : List HandleCall} (proper : Proper log none) :
      Proper (.opened (openings log) :: log) (some (openings log))
  | used {log : List HandleCall} {id : Nat} (proper : Proper log (some id)) : Proper (.used id :: log) (some id)
  | closed {log : List HandleCall} {id : Nat} (proper : Proper log (some id)) : Proper (.closed id :: log) none

variable {log : List HandleCall} {current : Option Nat} {id : Nat}

/-- Handles are numbered from zero, and the one that is open is the last one. -/
theorem Proper.numbers (proper : Proper log current) :
    (∀ id, .opened id ∈ log ↔ id < openings log) ∧ ∀ id, current = some id → openings log = id + 1 := by
  induction proper with
  | nil => exact ⟨fun id => iff_of_false List.not_mem_nil (Nat.not_lt_zero id), nofun⟩
  | @opened log proper ih =>
      refine ⟨fun id => ?_, fun id same => ?_⟩
      · rw [List.mem_cons, ih.1, openings, HandleCall.opened.injEq]
        omega
      · cases same
        rfl
  | @used log id proper ih =>
      refine ⟨fun other => ?_, ih.2⟩
      rw [List.mem_cons, ih.1, openings, or_iff_right nofun]
  | @closed log id proper ih =>
      refine ⟨fun other => ?_, nofun⟩
      rw [List.mem_cons, ih.1, openings, or_iff_right nofun]

/-- Every handle was closed once, except for the one that is open. -/
theorem Proper.count_closed (proper : Proper log current) (id : Nat) :
    log.count (.closed id) = if id < openings log ∧ current ≠ some id then 1 else 0 := by
  induction proper with
  | nil => rfl
  | @opened log proper ih =>
      rw [List.count_cons_of_ne (show HandleCall.opened (openings log) ≠ .closed id from nofun), ih, openings]
      refine if_congr ?_ rfl rfl
      rw [Ne, Ne, Option.some_inj]
      constructor
      · exact fun both => ⟨by omega, by omega⟩
      · exact fun both => ⟨by omega, nofun⟩
  | @used log last proper ih =>
      rw [List.count_cons_of_ne (show HandleCall.used last ≠ .closed id from nofun), ih, openings]
  | @closed log last proper ih =>
      have end_ := proper.numbers.2 last rfl
      by_cases same : last = id
      · rw [same] at ih end_ ⊢
        rw [List.count_cons_self, ih, if_neg (fun both => both.2 rfl), openings, if_pos ⟨by omega, nofun⟩]
      · have apart : HandleCall.closed last ≠ .closed id := fun equal => same (HandleCall.closed.inj equal)
        rw [List.count_cons_of_ne apart, ih, openings]
        refine if_congr (and_congr_right fun _ => ?_) rfl rfl
        exact iff_of_true (fun equal => same (Option.some.inj equal)) nofun

/-- The handle that is open is the one the log leaves open. -/
theorem Proper.isOpen_iff (proper : Proper log current) : IsOpen log id ↔ current = some id := by
  rw [IsOpen, proper.numbers.1, ← List.count_eq_zero, proper.count_closed]
  constructor
  · rintro ⟨opened, closed⟩
    by_contra other
    rw [if_pos ⟨opened, other⟩] at closed
    exact absurd closed one_ne_zero
  · intro same
    have := proper.numbers.2 id same
    exact ⟨by omega, if_neg fun both => both.2 same⟩

/-- What was proper stays so when the newest calls are forgotten. -/
theorem Proper.suffix (proper : Proper log current) {later earlier : List HandleCall} (split : log = later ++ earlier) :
    ∃ before, Proper earlier before := by
  induction later generalizing log current with
  | nil => exact ⟨current, by rwa [← show log = earlier from split]⟩
  | cons call later ih =>
      cases proper with
      | nil => exact nomatch split
      | opened proper => exact ih proper (List.cons.inj split).2
      | used proper => exact ih proper (List.cons.inj split).2
      | closed proper => exact ih proper (List.cons.inj split).2

/-- Only what is open is used and closed. -/
theorem Proper.needs (proper : Proper log current) {call : HandleCall} {later earlier : List HandleCall}
    (split : log = later ++ call :: earlier) (needs : call.Needs id) : IsOpen earlier id := by
  obtain ⟨before, proper⟩ := proper.suffix split
  rcases needs with rfl | rfl
  · cases proper with
    | used proper => exact proper.isOpen_iff.mpr rfl
  · cases proper with
    | closed proper => exact proper.isOpen_iff.mpr rfl

/-- At most one handle is open at a time. -/
theorem Proper.unique (proper : Proper log current) {later earlier : List HandleCall} {other : Nat}
    (split : log = later ++ earlier) (first : IsOpen earlier id) (second : IsOpen earlier other) : id = other := by
  obtain ⟨before, proper⟩ := proper.suffix split
  exact Option.some.inj ((proper.isOpen_iff.mp first).symm.trans (proper.isOpen_iff.mp second))

end HandleCall

end Ethersex.Library
