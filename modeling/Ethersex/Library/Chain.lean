import Mathlib

/-!
# Chains

Singly linked lists of nodes, each of which holds the name of the next one or a null
value.  A chain begins behind an origin, which is not part of it but holds the first
link, so that appending to an empty chain is no special case.
-/

namespace Ethersex.Library

variable {α : Type}

/-- Following `next` from `origin` visits exactly these nodes, in this order, and ends. -/
def Chain (next : α → α) (null : α) : α → List α → Prop
  | origin, [] => next origin = null
  | origin, node :: rest => next origin = node ∧ node ≠ null ∧ Chain next null node rest

/-- The first node of a chain, or the null value of an empty one, is `start`. -/
def Starts (next : α → α) (null : α) (start : α) : List α → Prop
  | [] => start = null
  | node :: rest => start = node ∧ node ≠ null ∧ Chain next null node rest

theorem Chain.starts {next : α → α} {null origin : α} {nodes : List α}
    (chain : Chain next null origin nodes) : Starts next null (next origin) nodes := by
  cases nodes <;> exact chain

/-- The last node, or the origin of an empty chain. -/
def lastNode : α → List α → α
  | origin, [] => origin
  | _, node :: rest => lastNode node rest

@[simp] theorem lastNode_nil (origin : α) : lastNode origin [] = origin := rfl

@[simp] theorem lastNode_cons (origin node : α) (rest : List α) :
    lastNode origin (node :: rest) = lastNode node rest := rfl

theorem lastNode_append (origin : α) (nodes rest : List α) :
    lastNode origin (nodes ++ rest) = lastNode (lastNode origin nodes) rest := by
  induction nodes generalizing origin with
  | nil => rfl
  | cons node nodes ih => exact ih node

theorem lastNode_mem (origin : α) (nodes : List α) : lastNode origin nodes ∈ origin :: nodes := by
  induction nodes generalizing origin with
  | nil => exact List.mem_singleton_self _
  | cons node nodes ih => exact List.mem_cons_of_mem _ (ih node)

theorem lastNode_eq_getLast {origin : α} {nodes : List α} (some : nodes ≠ []) :
    lastNode origin nodes = nodes.getLast some := by
  induction nodes generalizing origin with
  | nil => exact absurd rfl some
  | cons node nodes ih =>
      rcases eq_or_ne nodes [] with rfl | more
      · rfl
      · rw [lastNode_cons, ih more, List.getLast_cons more]

theorem lastNode_mem_of_ne_nil {origin : α} {nodes : List α} (some : nodes ≠ []) :
    lastNode origin nodes ∈ nodes := by
  rw [lastNode_eq_getLast some]
  exact List.getLast_mem some

section Chain

variable {next other : α → α} {null origin : α} {nodes rest : List α}

/-- The rest of a chain, behind some of its nodes. -/
theorem Chain.drop (chain : Chain next null origin (nodes ++ rest)) :
    Chain next null (lastNode origin nodes) rest := by
  induction nodes generalizing origin with
  | nil => exact chain
  | cons node nodes ih => exact ih chain.2.2

theorem Chain.ne_null (chain : Chain next null origin nodes) : ∀ node ∈ nodes, node ≠ null := by
  induction nodes generalizing origin with
  | nil => exact fun _ member => absurd member List.not_mem_nil
  | cons node nodes ih => exact List.forall_mem_cons.mpr ⟨chain.2.1, ih chain.2.2⟩

/-- A chain depends on the links of its own nodes only. -/
theorem Chain.congr (chain : Chain next null origin nodes)
    (same : ∀ node ∈ origin :: nodes, other node = next node) : Chain other null origin nodes := by
  induction nodes generalizing origin with
  | nil => exact (same origin (List.mem_singleton_self _)).trans chain
  | cons node nodes ih =>
      rw [List.forall_mem_cons] at same
      exact ⟨same.1.trans chain.1, chain.2.1, ih chain.2.2 same.2⟩

theorem Starts.congr {start : α} (starts : Starts next null start nodes)
    (same : ∀ node ∈ nodes, other node = next node) : Starts other null start nodes := by
  cases nodes with
  | nil => exact starts
  | cons node nodes => exact ⟨starts.1, starts.2.1, starts.2.2.congr same⟩

/-- Linking a new node behind the last one. -/
theorem Chain.append (chain : Chain next null origin nodes) {new : α} (proper : new ≠ null)
    (same : ∀ node ∈ origin :: nodes, node ≠ lastNode origin nodes → other node = next node)
    (link : other (lastNode origin nodes) = new) (ends : other new = null)
    (distinct : (origin :: nodes).Nodup) : Chain other null origin (nodes ++ [new]) := by
  induction nodes generalizing origin with
  | nil => exact ⟨link, proper, ends⟩
  | cons node nodes ih =>
      rw [List.forall_mem_cons] at same
      rw [List.nodup_cons] at distinct
      have different : origin ≠ lastNode node nodes :=
        fun is => distinct.1 (is ▸ lastNode_mem node nodes)
      exact ⟨(same.1 different).trans chain.1, chain.2.1, ih chain.2.2 same.2 link distinct.2⟩

/-- Two chains behind the same origin are the same. -/
theorem Chain.deterministic (chain : Chain next null origin nodes) {again : List α}
    (second : Chain next null origin again) : nodes = again := by
  induction nodes generalizing origin again with
  | nil =>
      cases again with
      | nil => rfl
      | cons node again => exact absurd (second.1.symm.trans chain) second.2.1
  | cons node nodes ih =>
      cases again with
      | nil => exact absurd (chain.1.symm.trans second) chain.2.1
      | cons node' again =>
          obtain rfl := chain.1.symm.trans second.1
          rw [ih chain.2.2 second.2.2]

/-- A chain that ends does not come back to a node. -/
theorem Chain.nodup (chain : Chain next null origin nodes) : (origin :: nodes).Nodup := by
  induction nodes generalizing origin with
  | nil => exact List.nodup_singleton origin
  | cons node nodes ih =>
      refine List.nodup_cons.mpr ⟨fun again => ?_, ih chain.2.2⟩
      obtain ⟨front, rest, split⟩ := List.append_of_mem again
      have behind : Chain next null origin ((front ++ [origin]) ++ rest) := by
        rwa [List.append_assoc, List.singleton_append, ← split]
      have suffix := behind.drop
      rw [lastNode_append, lastNode_cons, lastNode_nil] at suffix
      have lengths := congrArg List.length (split.symm.trans (chain.deterministic suffix))
      rw [List.length_append, List.length_cons] at lengths
      omega

end Chain

end Ethersex.Library

/-!
## Segments of singly linked lists

Cells that hold the address of the next one, or none.  A segment is what following the links from
one place to another visits.  Inserting a cell changes the link in front of it and its own.
-/

namespace Ethersex.Library

variable {α : Type*}

/-- Following the links from `start` visits these cells and arrives at `stop`. -/
def Visits (next : α → Option α) : Option α → List α → Option α → Prop
  | start, [], stop => start = stop
  | start, cell :: rest, stop => start = some cell ∧ Visits next (next cell) rest stop

variable {next other : α → Option α} {start stop : Option α} {cells rest : List α} {cell : α}

theorem visits_append :
    Visits next start (cells ++ rest) stop ↔
      ∃ middle, Visits next start cells middle ∧ Visits next middle rest stop := by
  induction cells generalizing start with
  | nil =>
      refine ⟨fun visits => ⟨start, rfl, visits⟩, ?_⟩
      rintro ⟨_, rfl, visits⟩
      exact visits
  | cons cell cells ih =>
      rw [List.cons_append, Visits, ih]
      constructor
      · rintro ⟨here, middle, front, back⟩
        exact ⟨middle, ⟨here, front⟩, back⟩
      · rintro ⟨middle, ⟨here, front⟩, back⟩
        exact ⟨here, middle, front, back⟩

/-- A segment depends on the links of its own cells only. -/
theorem Visits.congr (visits : Visits next start cells stop)
    (same : ∀ cell ∈ cells, other cell = next cell) : Visits other start cells stop := by
  induction cells generalizing start with
  | nil => exact visits
  | cons cell cells ih =>
      rw [List.forall_mem_cons] at same
      exact ⟨visits.1, same.1 ▸ ih visits.2 same.2⟩

theorem Visits.start_eq (visits : Visits next start cells none) : start = cells.head? := by
  cases cells with
  | nil => exact visits
  | cons cell cells => exact visits.1

variable [DecidableEq α]

theorem Visits.update (visits : Visits next start cells stop) (outside : cell ∉ cells)
    (link : Option α) : Visits (Function.update next cell link) start cells stop :=
  visits.congr fun _ inside => Function.update_of_ne (ne_of_mem_of_not_mem inside outside) ..

/-- A new cell in front of the others. -/
theorem Visits.insertFront (visits : Visits next start cells stop) {new : α} (outside : new ∉ cells) :
    Visits (Function.update next new start) (some new) (new :: cells) stop :=
  ⟨rfl, by
    rw [Function.update_self]
    exact visits.update outside start⟩

/-- A new cell behind another one. -/
theorem Visits.insertBehind (visits : Visits next start (cells ++ cell :: rest) stop)
    (nodup : (cells ++ cell :: rest).Nodup) {new : α} (outside : new ∉ cells ++ cell :: rest) :
    Visits (Function.update (Function.update next new (next cell)) cell (some new)) start
      (cells ++ cell :: new :: rest) stop := by
  obtain ⟨middle, front, rfl, back⟩ := visits_append.mp visits
  obtain ⟨-, nodup, apart⟩ := List.nodup_append.mp nodup
  rw [List.nodup_cons] at nodup
  rw [List.mem_append, List.mem_cons, not_or, not_or] at outside
  obtain ⟨newFront, newCell, newRest⟩ := outside
  refine visits_append.mpr ⟨some cell, ?_, rfl, ?_⟩
  · exact (front.update newFront _).update (fun inside => apart _ inside _ List.mem_cons_self rfl) _
  · rw [Function.update_self]
    refine ⟨rfl, ?_⟩
    rw [Function.update_of_ne newCell, Function.update_self]
    exact (back.update newRest _).update nodup.1 _

end Ethersex.Library
