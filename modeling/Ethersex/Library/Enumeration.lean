import Mathlib

/-!
# Enumerating codes by their last branch

Codes are sequences of bits, ordered by the first bit in which they differ.  From the last bit at
which a code of a set could have been followed by a one, and was followed by a zero, the next code
of the set is found without any other memory: the bits before stay, that bit becomes one, and
behind it a zero is taken wherever there is one.
-/

namespace Ethersex.Library

/-! ## Going through a finite linear order -/

section Order

variable {α : Type*} [LinearOrder α] {codes : Finset α} {current next : α} {found : List α}

/-- The codes up to the current one have been found, each once. -/
structure Found (codes : Finset α) (current : α) (found : List α) : Prop where
  nodup : found.Nodup
  mem : ∀ code, code ∈ found ↔ code ∈ codes ∧ code ≤ current

/-- The next code of a set. -/
structure Next (codes : Finset α) (current next : α) : Prop where
  mem : next ∈ codes
  lt : current < next
  least : ∀ code ∈ codes, current < code → next ≤ code

theorem Found.start (member : current ∈ codes) (least : ∀ code ∈ codes, current ≤ code) :
    Found codes current [current] where
  nodup := List.nodup_singleton _
  mem code := by
    rw [List.mem_singleton]
    constructor
    · rintro rfl
      exact ⟨member, le_rfl⟩
    · rintro ⟨inside, before⟩
      exact le_antisymm before (least code inside)

theorem Found.advance (before : Found codes current found) (step : Next codes current next) :
    Found codes next (found ++ [next]) where
  nodup := by
    rw [List.nodup_append]
    refine ⟨before.nodup, List.nodup_singleton _, ?_⟩
    rintro code inside _ (member : _ ∈ [next]) rfl
    rw [List.mem_singleton] at member
    exact absurd ((before.mem code).mp inside).2 (member ▸ not_le.mpr step.lt)
  mem code := by
    rw [List.mem_append, List.mem_singleton, before.mem]
    constructor
    · rintro (⟨inside, below⟩ | rfl)
      · exact ⟨inside, below.trans step.lt.le⟩
      · exact ⟨step.mem, le_rfl⟩
    · rintro ⟨inside, below⟩
      rcases le_or_gt code current with old | new
      · exact .inl ⟨inside, old⟩
      · exact .inr (le_antisymm below (step.least code inside new))

theorem Found.toFinset (before : Found codes current found)
    (last : ∀ code ∈ codes, code ≤ current) : found.toFinset = codes := by
  ext code
  rw [List.mem_toFinset, before.mem]
  exact ⟨And.left, fun inside => ⟨inside, last code inside⟩⟩

theorem Found.length_le (before : Found codes current found) : found.length ≤ codes.card := by
  rw [← List.toFinset_card_of_nodup before.nodup]
  refine Finset.card_le_card fun code inside => ?_
  exact ((before.mem code).mp (List.mem_toFinset.mp inside)).1

end Order

/-! ## Codes -/

/-- A sequence of bits. -/
abbrev Code := Lex (Nat → Bool)

/-- Two codes have the same bits before a place. -/
def SameBelow (place : Nat) (left right : Code) : Prop := ∀ k < place, left k = right k

theorem SameBelow.symm {place : Nat} {left right : Code} (same : SameBelow place left right) :
    SameBelow place right left := fun k small => (same k small).symm

theorem SameBelow.trans {place : Nat} {first second third : Code}
    (left : SameBelow place first second) (right : SameBelow place second third) :
    SameBelow place first third := fun k small => (left k small).trans (right k small)

theorem SameBelow.mono {place smaller : Nat} {left right : Code} (same : SameBelow place left right)
    (small : smaller ≤ place) : SameBelow smaller left right :=
  fun k inside => same k (lt_of_lt_of_le inside small)

theorem SameBelow.succ {place : Nat} {left right : Code} (same : SameBelow place left right)
    (here : left place = right place) : SameBelow (place + 1) left right := by
  intro k small
  rcases Nat.lt_succ_iff_lt_or_eq.mp small with before | rfl
  · exact same k before
  · exact here

theorem code_lt_iff {left right : Code} :
    left < right ↔ ∃ place, SameBelow place left right ∧ left place = false ∧ right place = true := by
  change (∃ place, (∀ k, k < place → left k = right k) ∧ left place < right place) ↔ _
  simp only [Bool.lt_iff]
  rfl

variable {codes : Finset Code} {current next : Code} {place : Nat}

/-- The code goes on with a zero where another one of the set goes on with a one. -/
def Branches (codes : Finset Code) (current : Code) (place : Nat) : Prop :=
  current place = false ∧ ∃ other ∈ codes, SameBelow place other current ∧ other place = true

/-- From a place on, the code goes on with a one only where all of the set do. -/
def ZerosFrom (codes : Finset Code) (place : Nat) (current : Code) : Prop :=
  ∀ k ≥ place, current k = true → ∀ other ∈ codes, SameBelow k other current → other k = true

/-- A code that takes zeros is the least one of those with its first bits. -/
theorem ZerosFrom.le (zeros : ZerosFrom codes place current) {other : Code} (inside : other ∈ codes)
    (same : SameBelow place other current) : current ≤ other := by
  by_contra greater
  obtain ⟨k, below, zero, one⟩ := code_lt_iff.mp (not_le.mp greater)
  have beyond : place ≤ k := by
    by_contra before
    rw [same k (not_le.mp before), one] at zero
    exact Bool.noConfusion zero
  rw [zeros k beyond one other inside below] at zero
  exact Bool.noConfusion zero

/-- A code is the last one when it branches nowhere. -/
theorem le_of_not_branches (final : ∀ k, ¬Branches codes current k) {other : Code}
    (inside : other ∈ codes) : other ≤ current := by
  by_contra greater
  obtain ⟨k, below, zero, one⟩ := code_lt_iff.mp (not_le.mp greater)
  exact final k ⟨zero, other, inside, below.symm, one⟩

theorem Branches.congr {other : Code} {k : Nat} (branches : Branches codes current k)
    (same : SameBelow (k + 1) other current) : Branches codes other k := by
  obtain ⟨zero, one, inside, below, is⟩ := branches
  refine ⟨(same k (Nat.lt_succ_self k)).trans zero, one, inside, ?_, is⟩
  exact below.trans (same.mono (Nat.le_succ k)).symm

/-- The last place before a bound at which a code branches. -/
def LastBranch (codes : Finset Code) (current : Code) (bound : Nat) : Option Nat → Prop
  | none => ∀ k < bound, ¬Branches codes current k
  | some place => place < bound ∧ Branches codes current place ∧
      ∀ k < bound, place < k → ¬Branches codes current k

theorem LastBranch.congr {other : Code} {bound : Nat} {last : Option Nat}
    (branch : LastBranch codes current bound last) (same : SameBelow bound other current) :
    LastBranch codes other bound last := by
  have back {k : Nat} (small : k < bound) (branches : Branches codes other k) :
      Branches codes current k := branches.congr (same.symm.mono small)
  cases last with
  | none => exact fun k small branches => branch k small (back small branches)
  | some place =>
      obtain ⟨inside, branches, final⟩ := branch
      refine ⟨inside, branches.congr (same.mono inside), fun k small beyond here => ?_⟩
      exact final k small beyond (back small here)

theorem LastBranch.here {bound : Nat} (branches : Branches codes current bound) :
    LastBranch codes current (bound + 1) (some bound) :=
  ⟨Nat.lt_succ_self bound, branches, fun _ small beyond => absurd small (by omega)⟩

theorem LastBranch.skip {bound : Nat} {last : Option Nat}
    (branch : LastBranch codes current bound last) (straight : ¬Branches codes current bound) :
    LastBranch codes current (bound + 1) last := by
  have above {k : Nat} (small : k < bound + 1) (branches : Branches codes current k) : k < bound := by
    rcases Nat.lt_succ_iff_lt_or_eq.mp small with before | rfl
    · exact before
    · exact absurd branches straight
  cases last with
  | none => exact fun k small branches => branch k (above small branches) branches
  | some place =>
      refine ⟨Nat.lt_succ_of_lt branch.1, branch.2.1, fun k small beyond branches => ?_⟩
      exact branch.2.2 k (above small branches) beyond branches

/-- Turning at the last branch gives the next code. -/
theorem Next.of_last_branch (zero : current place = false)
    (last : ∀ k, place < k → ¬Branches codes current k)
    (member : next ∈ codes) (same : SameBelow place next current) (turned : next place = true)
    (zeros : ZerosFrom codes (place + 1) next) : Next codes current next where
  mem := member
  lt := code_lt_iff.mpr ⟨place, same.symm, zero, turned⟩
  least other inside greater := by
    obtain ⟨k, below, here, one⟩ := code_lt_iff.mp greater
    rcases lt_trichotomy k place with before | rfl | beyond
    · refine le_of_lt (code_lt_iff.mpr ⟨k, (same.mono before.le).trans below, ?_, one⟩)
      rw [same k before, here]
    · exact zeros.le inside ((below.symm.trans same.symm).succ (one.trans turned.symm))
    · exact absurd ⟨here, other, inside, below.symm, one⟩ (last k beyond)

end Ethersex.Library
