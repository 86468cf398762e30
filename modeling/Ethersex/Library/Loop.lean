import Mathlib

/-!
# Loops over eight-bit counters

Two C loop shapes over a state that a body may fail to produce: `while (n--)` and
`for (uint8_t i = first; i <= last; i++)`.  The second one never ends when `last`
is 255, because the counter then wraps before the comparison can fail.

Each shape comes with its invariant rule.  The invariant carries the number of
passes, so a rule proves termination and the effect of the loop together.
-/

namespace Ethersex.Library

variable {σ : Type*}

/-- `while (count--) body`. -/
def times (body : σ → Option σ) : Nat → σ → Option σ
  | 0, state => some state
  | count + 1, state => (body state).bind (times body count)

@[simp] theorem times_zero (body : σ → Option σ) (state : σ) :
    times body 0 state = some state := rfl

/-- A counted loop ends in a state that satisfies its invariant. -/
theorem times_invariant (inv : Nat → σ → Prop) (body : σ → Option σ) (count : Nat)
    (step : ∀ pass state, pass < count → inv pass state →
      ∃ next, body state = some next ∧ inv (pass + 1) next)
    {state : σ} (start : inv 0 state) :
    ∃ final, times body count state = some final ∧ inv count final := by
  induction count generalizing inv state with
  | zero => exact ⟨state, rfl, start⟩
  | succ count ih =>
      obtain ⟨next, body_eq, holds⟩ := step 0 state (Nat.succ_pos count) start
      obtain ⟨final, loop_eq, done⟩ :=
        ih (fun pass => inv (pass + 1))
          (fun pass state small => step (pass + 1) state (Nat.succ_lt_succ small)) holds
      exact ⟨final, by rw [times, body_eq, Option.bind_some, loop_eq], done⟩

/-- What every pass of a counted loop keeps, the loop keeps when it ends. -/
theorem times_preserves {inv : σ → Prop} {body : σ → Option σ}
    (step : ∀ {state next}, body state = some next → inv state → inv next) {count : Nat}
    {state final : σ} (ends : times body count state = some final) (start : inv state) : inv final := by
  induction count generalizing state with
  | zero => exact Option.some.inj ends ▸ start
  | succ count ih =>
      obtain ⟨next, pass, rest⟩ := Option.bind_eq_some_iff.mp ends
      exact ih rest (step pass start)

/-- Passes of a `for` loop over consecutive counter values. -/
def forCount (body : UInt8 → σ → Option σ) : Nat → Nat → σ → Option σ
  | _, 0, state => some state
  | index, count + 1, state =>
      (body (UInt8.ofNat index) state).bind (forCount body (index + 1) count)

/-- `for (uint8_t i = first; i <= last; i++) body`.  With `last = 255` the loop
does not terminate. -/
def forUpTo (body : UInt8 → σ → Option σ) (first last : UInt8) (state : σ) : Option σ :=
  if last = 255 then none
  else forCount body first.toNat (last.toNat + 1 - first.toNat) state

theorem forCount_invariant (inv : Nat → σ → Prop) (body : UInt8 → σ → Option σ)
    (index count : Nat) (small : index + count ≤ 255)
    (step : ∀ (i : UInt8) state, index ≤ i.toNat → i.toNat < index + count →
      inv i.toNat state → ∃ next, body i state = some next ∧ inv (i.toNat + 1) next)
    {state : σ} (start : inv index state) :
    ∃ final, forCount body index count state = some final ∧ inv (index + count) final := by
  induction count generalizing index state with
  | zero => exact ⟨state, rfl, start⟩
  | succ count ih =>
      have value : (UInt8.ofNat index).toNat = index :=
        UInt8.toNat_ofNat_of_lt' (show index < 256 by omega)
      obtain ⟨next, body_eq, holds⟩ :=
        step (UInt8.ofNat index) state (by omega) (by omega) (value.symm ▸ start)
      rw [value] at holds
      obtain ⟨final, loop_eq, done⟩ := ih (index + 1) (by omega)
        (fun i state lower upper => step i state (by omega) (by omega)) holds
      refine ⟨final, by rw [forCount, body_eq, Option.bind_some, loop_eq], ?_⟩
      rwa [show index + (count + 1) = index + 1 + count by omega]

/-- A `for` loop that can terminate does so in a state that satisfies its
invariant. -/
theorem forUpTo_invariant (inv : Nat → σ → Prop) (body : UInt8 → σ → Option σ)
    (first last : UInt8) (small : last.toNat < 255)
    (step : ∀ (i : UInt8) state, first.toNat ≤ i.toNat → i.toNat ≤ last.toNat →
      inv i.toNat state → ∃ next, body i state = some next ∧ inv (i.toNat + 1) next)
    {state : σ} (start : inv first.toNat state) :
    ∃ final, forUpTo body first last state = some final ∧
      inv (max first.toNat (last.toNat + 1)) final := by
  have finite : last ≠ 255 := by
    rintro rfl
    exact absurd small (by decide)
  rw [forUpTo, if_neg finite]
  by_cases empty : last.toNat + 1 ≤ first.toNat
  · rw [Nat.sub_eq_zero_of_le empty, Nat.max_eq_left empty]
    exact ⟨state, rfl, start⟩
  · obtain ⟨final, loop_eq, done⟩ := forCount_invariant inv body first.toNat
      (last.toNat + 1 - first.toNat) (by omega)
      (fun i state lower upper => step i state lower (by omega)) start
    refine ⟨final, loop_eq, ?_⟩
    rw [show max first.toNat (last.toNat + 1) =
      first.toNat + (last.toNat + 1 - first.toNat) by omega]
    exact done

theorem forCount_preserves {inv : σ → Prop} {body : UInt8 → σ → Option σ} {index count : Nat}
    (small : index + count ≤ 255)
    (step : ∀ {i : UInt8} {state next}, i.toNat < index + count → body i state = some next →
      inv state → inv next)
    {state final : σ} (ends : forCount body index count state = some final) (start : inv state) :
    inv final := by
  induction count generalizing index state with
  | zero => exact Option.some.inj ends ▸ start
  | succ count ih =>
      obtain ⟨next, pass, rest⟩ := Option.bind_eq_some_iff.mp ends
      have value : (UInt8.ofNat index).toNat = index :=
        UInt8.toNat_ofNat_of_lt' (show index < 256 by omega)
      exact ih (by omega) (fun bound => step (by omega)) rest (step (by omega) pass start)

/-- What every pass of a `for` loop keeps, the loop keeps when it ends. -/
theorem forUpTo_preserves {inv : σ → Prop} {body : UInt8 → σ → Option σ} {first last : UInt8}
    (step : ∀ {i : UInt8} {state next}, i ≤ last → body i state = some next → inv state → inv next)
    {state final : σ} (ends : forUpTo body first last state = some final) (start : inv state) :
    inv final := by
  rw [forUpTo] at ends
  split_ifs at ends with endless
  have finite : last.toNat ≠ 255 := fun is => endless (UInt8.toNat_inj.mp is)
  have bound := last.toNat_lt
  by_cases empty : last.toNat + 1 ≤ first.toNat
  · rw [Nat.sub_eq_zero_of_le empty] at ends
    exact Option.some.inj ends ▸ start
  · refine forCount_preserves (by omega) (fun inside => step ?_) ends start
    rw [UInt8.le_iff_toNat_le]
    omega

/-- A `for` loop whose bound is 255 has no final state. -/
@[simp] theorem forUpTo_max (body : UInt8 → σ → Option σ) (first : UInt8) (state : σ) :
    forUpTo body first 255 state = none := by
  simp [forUpTo]

/-- A loop over a list is defined when all its passes are. -/
theorem foldlM_eq_some {α σ : Type*} {f : σ → α → Option σ} {items : List α}
    (each : ∀ item ∈ items, ∀ state, ∃ next, f state item = some next) (state : σ) :
    ∃ next, items.foldlM f state = some next := by
  induction items generalizing state with
  | nil => exact ⟨state, rfl⟩
  | cons item rest ih =>
      obtain ⟨first, each⟩ := List.forall_mem_cons.mp each
      obtain ⟨next, passed⟩ := first state
      rw [List.foldlM_cons, passed]
      exact ih each next

end Ethersex.Library
