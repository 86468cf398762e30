import Mathlib

/-!
# Runs under a condition

A system that takes one event after another, and runs of it in which every event meets a
condition on the state that it finds.
-/

namespace Ethersex.Library

variable {σ ε : Type*} {step : σ → ε → σ} {meets : σ → ε → Prop}

/-- Every event of a run meets the condition in the state that it finds. -/
def EachMeets (step : σ → ε → σ) (meets : σ → ε → Prop) : σ → List ε → Prop
  | _, [] => True
  | state, event :: rest => meets state event ∧ EachMeets step meets (step state event) rest

instance EachMeets.decidable [∀ state event, Decidable (meets state event)] :
    ∀ (state : σ) (events : List ε), Decidable (EachMeets step meets state events)
  | _, [] => isTrue trivial
  | state, event :: rest =>
      have := EachMeets.decidable (step state event) rest
      inferInstanceAs (Decidable (meets state event ∧ EachMeets step meets (step state event) rest))

/-- What every step that meets the condition keeps, the run keeps. -/
theorem EachMeets.invariant {inv : σ → Prop}
    (keeps : ∀ state event, inv state → meets state event → inv (step state event))
    {events : List ε} {state : σ} (each : EachMeets step meets state events) (start : inv state) :
    inv (events.foldl step state) := by
  induction events generalizing state with
  | nil => exact start
  | cons event rest ih => exact ih each.2 (keeps state event start each.1)

theorem EachMeets.congr {others : σ → ε → Prop} (same : ∀ state event, meets state event ↔ others state event)
    {events : List ε} {state : σ} : EachMeets step meets state events ↔ EachMeets step others state events := by
  induction events generalizing state with
  | nil => rfl
  | cons event rest ih => exact and_congr (same state event) ih

end Ethersex.Library

/-!
## Walks along a partial function

A walk goes from node to node along a partial function, and ends where the function
has no value.  Among finitely many nodes it ends unless it comes back to a node.
-/

namespace Ethersex.Library

variable {α : Type} {next : α → Option α} {start : Option α}

/-- The node a walk reaches after some steps. -/
def walk (next : α → Option α) (start : Option α) : (steps : Nat) → Option α
  | 0 => start
  | steps + 1 => walk next (start.bind next) steps

/-- No node is visited twice. -/
def Acyclic (next : α → Option α) (start : Option α) : Prop :=
  ∀ i j node, walk next start i = some node → walk next start j = some node → i = j

@[simp] theorem walk_zero (next : α → Option α) (start : Option α) : walk next start 0 = start := rfl

theorem walk_none (next : α → Option α) (steps : Nat) : walk next none steps = none := by
  induction steps with
  | zero => rfl
  | succ steps ih => exact ih

/-- The last step of a walk. -/
theorem walk_succ (next : α → Option α) (start : Option α) (steps : Nat) :
    walk next start (steps + 1) = (walk next start steps).bind next := by
  induction steps generalizing start with
  | zero => rfl
  | succ steps ih => exact ih (start.bind next)

/-- What holds of the first node and goes on from node to node holds of all nodes. -/
theorem walk_invariant {holds : α → Prop} (first : ∀ node, start = some node → holds node)
    (kept : ∀ node after, holds node → next node = some after → holds after) {steps : Nat} {node : α}
    (reached : walk next start steps = some node) : holds node := by
  induction steps generalizing node with
  | zero => exact first node reached
  | succ steps ih =>
      rw [walk_succ] at reached
      obtain ⟨before, earlier, step⟩ := Option.bind_eq_some_iff.mp reached
      exact kept before node (ih earlier) step

/-- A walk that has ended stays so. -/
theorem walk_ended {early late : Nat} (order : early ≤ late) (ended : walk next start early = none) :
    walk next start late = none := by
  induction late, order using Nat.le_induction with
  | base => exact ended
  | succ late _ ih => rw [walk_succ, ih, Option.bind_none]

/-- A walk among finitely many nodes that visits none twice has ended after that many
steps. -/
theorem Acyclic.ends (acyclic : Acyclic next start) {nodes : Finset α}
    (inside : ∀ steps node, walk next start steps = some node → node ∈ nodes) :
    walk next start nodes.card = none := by
  rw [Option.eq_none_iff_forall_ne_some]
  intro last going
  have visited (steps : Nat) (early : steps ≤ nodes.card) :
      ∃ node, walk next start steps = some node := by
    rw [← Option.ne_none_iff_exists']
    intro ended
    rw [walk_ended early ended] at going
    exact absurd going (by simp)
  have : Nonempty α := ⟨last⟩
  choose! node reached using visited
  have fits : (Finset.range (nodes.card + 1)).card ≤ nodes.card := by
    refine Finset.card_le_card_of_injOn node (fun steps early => ?_) fun i early j late same => ?_
    · have early := Nat.lt_succ_iff.mp (Finset.mem_range.mp early)
      exact inside steps (node steps) (reached steps early)
    · have early := Nat.lt_succ_iff.mp (Finset.mem_range.mp early)
      have late := Nat.lt_succ_iff.mp (Finset.mem_range.mp late)
      exact acyclic i j (node i) (reached i early) (same ▸ reached j late)
  rw [Finset.card_range] at fits
  omega

end Ethersex.Library

/-!
## Walks along labels

A graph whose edges carry labels, and the walks in it that read a list of labels.
-/

namespace Ethersex.Library

variable {ν κ : Type*}

/-- A walk from one node to another that reads the labels. -/
inductive Reads (edge : ν → κ → ν → Prop) : ν → List κ → ν → Prop
  | here (node : ν) : Reads edge node [] node
  | down {node next target : ν} {label : κ} {labels : List κ} :
      edge node label next → Reads edge next labels target → Reads edge node (label :: labels) target

variable {edge more : ν → κ → ν → Prop} {node next target : ν} {label : κ} {labels : List κ}

theorem Reads.single (step : edge node label next) : Reads edge node [label] next := .down step (.here next)

theorem reads_cons_iff :
    Reads edge node (label :: labels) target ↔ ∃ next, edge node label next ∧ Reads edge next labels target := by
  constructor
  · intro walk
    cases walk with
    | down step rest => exact ⟨_, step, rest⟩
  · rintro ⟨next, step, rest⟩
    exact .down step rest

theorem Reads.mono (grows : ∀ node label next, edge node label next → more node label next)
    (walk : Reads edge node labels target) : Reads more node labels target := by
  induction walk with
  | here => exact .here _
  | down step _ ih => exact .down (grows _ _ _ step) ih

/-- A walk goes through what each prefix of its labels leads to. -/
theorem Reads.upTo (walk : Reads edge node labels target) {front : List κ} (begins : front <+: labels) :
    ∃ reached, Reads edge node front reached := by
  induction walk generalizing front with
  | here node =>
    rw [List.prefix_nil.mp begins]
    exact ⟨node, .here node⟩
  | @down node _ _ _ _ step _ ih =>
    cases front with
    | nil => exact ⟨node, .here node⟩
    | cons label front =>
      obtain ⟨rfl, further⟩ := List.cons_prefix_cons.mp begins
      obtain ⟨reached, walk⟩ := ih further
      exact ⟨reached, .down step walk⟩

/-- What every edge demands of its label holds of the labels that are read. -/
theorem Reads.forall_mem {holds : κ → Prop} (each : ∀ node label next, edge node label next → holds label)
    (walk : Reads edge node labels target) : ∀ label ∈ labels, holds label := by
  induction walk with
  | here => exact fun label member => absurd member List.not_mem_nil
  | down step _ ih => exact List.forall_mem_cons.mpr ⟨each _ _ _ step, ih⟩

/-- Where only one edge has the label, a walk takes it. -/
theorem Reads.tail (walk : Reads edge node (label :: labels) target)
    (only : ∀ other, edge node label other → other = next) : Reads edge next labels target := by
  obtain ⟨other, step, rest⟩ := reads_cons_iff.mp walk
  exact only other step ▸ rest

end Ethersex.Library
