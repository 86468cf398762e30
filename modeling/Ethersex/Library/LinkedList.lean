import Mathlib

/-!
# Doubly linked lists

Lists of cells that are linked in both directions by hand.  The heap is a partial
function from addresses to cells, so that a cell that was freed cannot be read or
written any more.  A segment is a run of linked cells between two neighbours, and a
list is a segment without neighbours, together with the addresses of its two ends.
Every operation that relinks cells is described by what it does to segments.
-/

namespace Ethersex.LinkedList

/-- A cell with its links. -/
structure Cell (α β : Type) where
  next : Option α
  prev : Option α
  value : β

abbrev Heap (α β : Type) := α → Option (Cell α β)

variable {α β : Type}

/-! ## Ends of a run of nodes -/

/-- The address of the first node, or what follows when there is none. -/
def first : List (α × β) → Option α → Option α
  | [], behind => behind
  | node :: _, _ => some node.1

/-- The address of the last node, or what precedes when there is none. -/
def last : List (α × β) → Option α → Option α
  | [], before => before
  | node :: rest, _ => last rest (some node.1)

@[simp] theorem first_nil (behind : Option α) : first ([] : List (α × β)) behind = behind := rfl

@[simp] theorem first_cons (node : α × β) (rest : List (α × β)) (behind : Option α) :
    first (node :: rest) behind = some node.1 := rfl

@[simp] theorem last_nil (before : Option α) : last ([] : List (α × β)) before = before := rfl

@[simp] theorem last_cons (node : α × β) (rest : List (α × β)) (before : Option α) :
    last (node :: rest) before = last rest (some node.1) := rfl

theorem first_append (nodes rest : List (α × β)) (behind : Option α) :
    first (nodes ++ rest) behind = first nodes (first rest behind) := by
  cases nodes <;> rfl

theorem last_append (nodes rest : List (α × β)) (before : Option α) :
    last (nodes ++ rest) before = last rest (last nodes before) := by
  induction nodes generalizing before with
  | nil => rfl
  | cons node nodes ih => exact ih (some node.1)

theorem first_eq_none {nodes : List (α × β)} : first nodes none = none ↔ nodes = [] := by
  cases nodes <;> simp

theorem last_eq_none {nodes : List (α × β)} : last nodes none = none ↔ nodes = [] := by
  rcases List.eq_nil_or_concat' nodes with rfl | ⟨nodes, node, rfl⟩ <;> simp [last_append]

theorem first_mem {nodes : List (α × β)} {address : α} (is : first nodes none = some address) :
    address ∈ nodes.map Prod.fst := by
  cases nodes with
  | nil => exact nomatch is
  | cons node rest => simp [← Option.some.inj is]

/-! ## Segments -/

/-- The nodes are linked to each other, and at the two ends to `before` and `behind`. -/
def Segment (heap : Heap α β) : Option α → List (α × β) → Option α → Prop
  | _, [], _ => True
  | before, (address, value) :: rest, behind =>
      heap address = some ⟨first rest behind, before, value⟩ ∧
        Segment heap (some address) rest behind

section Segments

variable {heap other : Heap α β} {before behind : Option α} {nodes rest : List (α × β)}

theorem segment_append : Segment heap before (nodes ++ rest) behind ↔
    Segment heap before nodes (first rest behind) ∧
      Segment heap (last nodes before) rest behind := by
  induction nodes generalizing before with
  | nil => simp [Segment]
  | cons node nodes ih => simp only [List.cons_append, Segment, first_append, ih, last_cons, and_assoc]

/-- A segment depends on its own cells only. -/
theorem Segment.congr (segment : Segment heap before nodes behind)
    (same : ∀ address ∈ nodes.map Prod.fst, other address = heap address) :
    Segment other before nodes behind := by
  induction nodes generalizing before with
  | nil => trivial
  | cons node nodes ih =>
      rw [List.map_cons, List.forall_mem_cons] at same
      exact ⟨same.1.trans segment.1, ih segment.2 same.2⟩

/-- The cell of a node. -/
theorem Segment.cell {address : α} {value : β}
    (segment : Segment heap before (nodes ++ (address, value) :: rest) behind) :
    heap address = some ⟨first rest behind, last nodes before, value⟩ :=
  (segment_append.mp segment).2.1

theorem Segment.mem (segment : Segment heap before nodes behind) {node : α × β}
    (member : node ∈ nodes) : ∃ cell, heap node.1 = some cell ∧ cell.value = node.2 := by
  obtain ⟨front, back, rfl⟩ := List.append_of_mem member
  exact ⟨_, segment.cell, rfl⟩

end Segments

/-! ## Writes -/

section Writes

variable [DecidableEq α]

/-- Sets the `next` link of a cell. -/
def setNext (address : α) (next : Option α) (heap : Heap α β) : Option (Heap α β) :=
  (heap address).map fun cell => Function.update heap address (some { cell with next })

/-- Sets the `prev` link of a cell. -/
def setPrev (address : α) (prev : Option α) (heap : Heap α β) : Option (Heap α β) :=
  (heap address).map fun cell => Function.update heap address (some { cell with prev })

def setValue (address : α) (value : β) (heap : Heap α β) : Option (Heap α β) :=
  (heap address).map fun cell => Function.update heap address (some { cell with value })

def free (address : α) (heap : Heap α β) : Option (Heap α β) :=
  (heap address).map fun _ => Function.update heap address none

@[simp] theorem setNext_update (address : α) (next : Option α) (cell : Cell α β) (heap : Heap α β) :
    setNext address next (Function.update heap address (some cell)) =
      some (Function.update heap address (some { cell with next })) := by
  simp [setNext]

@[simp] theorem setPrev_update (address : α) (prev : Option α) (cell : Cell α β) (heap : Heap α β) :
    setPrev address prev (Function.update heap address (some cell)) =
      some (Function.update heap address (some { cell with prev })) := by
  simp [setPrev]

theorem setNext_of_ne {address : α} {next : Option α} {heap heap' : Heap α β}
    (write : setNext address next heap = some heap') {other : α} (different : other ≠ address) :
    heap' other = heap other := by
  obtain ⟨cell, -, rfl⟩ := Option.map_eq_some_iff.mp write
  exact Function.update_of_ne different _ _

/-- Setting the `prev` link leaves all the others alone. -/
theorem setPrev_next {address : α} {prev : Option α} {heap heap' : Heap α β}
    (write : setPrev address prev heap = some heap') (other : α) :
    (heap' other).map Cell.next = (heap other).map Cell.next := by
  obtain ⟨cell, is, rfl⟩ := Option.map_eq_some_iff.mp write
  by_cases same : other = address
  · rw [same, Function.update_self, is]
    rfl
  · rw [Function.update_of_ne same]

/-- A write through a pointer that may be null. -/
def ifSome (pointer : Option α) (write : α → Heap α β → Option (Heap α β)) (heap : Heap α β) :
    Option (Heap α β) :=
  match pointer with
  | none => some heap
  | some address => write address heap

variable {heap : Heap α β} {before behind : Option α} {nodes rest : List (α × β)}

theorem Segment.update (segment : Segment heap before nodes behind) {address : α}
    (outside : address ∉ nodes.map Prod.fst) (cell : Option (Cell α β)) :
    Segment (Function.update heap address cell) before nodes behind :=
  segment.congr fun _ member => Function.update_of_ne (ne_of_mem_of_not_mem member outside) _ _

/-- Relinking the front end. -/
theorem Segment.setPrev (segment : Segment heap before nodes none)
    (nodup : (nodes.map Prod.fst).Nodup) (link : Option α) :
    ∃ heap', ifSome (first nodes none) (LinkedList.setPrev · link) heap = some heap' ∧
      Segment heap' link nodes none ∧
      ∀ address ∉ nodes.map Prod.fst, heap' address = heap address := by
  cases nodes with
  | nil => exact ⟨heap, rfl, trivial, fun _ _ => rfl⟩
  | cons node nodes =>
      rw [List.map_cons, List.nodup_cons] at nodup
      refine ⟨Function.update heap node.1 (some ⟨first nodes none, link, node.2⟩), ?_, ?_, ?_⟩
      · simp [ifSome, LinkedList.setPrev, segment.1]
      · exact ⟨Function.update_self _ _ _, segment.2.update nodup.1 _⟩
      · intro address outside
        exact Function.update_of_ne (fun same => outside (by simp [same])) _ _

/-- Relinking the back end. -/
theorem Segment.setNext (segment : Segment heap none nodes behind)
    (nodup : (nodes.map Prod.fst).Nodup) (link : Option α) :
    ∃ heap', ifSome (last nodes none) (LinkedList.setNext · link) heap = some heap' ∧
      Segment heap' none nodes link ∧
      ∀ address ∉ nodes.map Prod.fst, heap' address = heap address := by
  rcases List.eq_nil_or_concat' nodes with rfl | ⟨nodes, node, rfl⟩
  · exact ⟨heap, rfl, trivial, fun _ _ => rfl⟩
  · obtain ⟨front, cell, -⟩ := segment_append.mp segment
    rw [List.map_append, List.nodup_append] at nodup
    have outside : node.1 ∉ nodes.map Prod.fst :=
      fun member => nodup.2.2 _ member _ (by simp) rfl
    refine ⟨Function.update heap node.1 (some ⟨link, last nodes none, node.2⟩), ?_, ?_, ?_⟩
    · simp [ifSome, LinkedList.setNext, last_append, cell]
    · exact segment_append.mpr ⟨front.update outside _, Function.update_self _ _ _, trivial⟩
    · intro address outside
      exact Function.update_of_ne (fun same => outside (by simp [same])) _ _

/-- Changing the value of a node. -/
theorem Segment.setValue {address : α} {value : β}
    (segment : Segment heap before (nodes ++ (address, value) :: rest) behind)
    (nodup : ((nodes ++ (address, value) :: rest).map Prod.fst).Nodup) (new : β) :
    ∃ heap', LinkedList.setValue address new heap = some heap' ∧
      Segment heap' before (nodes ++ (address, new) :: rest) behind ∧
      ∀ other ≠ address, heap' other = heap other := by
  obtain ⟨front, cell, back⟩ := segment_append.mp segment
  rw [List.map_append, List.map_cons, List.nodup_middle, List.nodup_cons, List.mem_append,
    not_or] at nodup
  refine ⟨Function.update heap address (some ⟨first rest behind, last nodes before, new⟩), ?_, ?_,
    fun _ different => Function.update_of_ne different _ _⟩
  · simp [LinkedList.setValue, cell]
  · exact segment_append.mpr ⟨front.update nodup.1.1 _, Function.update_self _ _ _,
      back.update nodup.1.2 _⟩

end Writes

/-! ## Lists -/

/-- The nodes of a list, in order, with the addresses of its ends. -/
structure Linked (heap : Heap α β) (head tail : Option α) (nodes : List (α × β)) : Prop where
  nodup : (nodes.map Prod.fst).Nodup
  segment : Segment heap none nodes none
  head : head = first nodes none
  tail : tail = last nodes none

section Linked

variable {heap : Heap α β} {head tail : Option α} {nodes rest : List (α × β)} {address : α} {value : β}

theorem linked_nil : Linked heap none none [] := ⟨List.nodup_nil, trivial, rfl, rfl⟩

/-- The cell of a node. -/
theorem Linked.cell (linked : Linked heap head tail (nodes ++ (address, value) :: rest)) :
    heap address = some ⟨first rest none, last nodes none, value⟩ :=
  linked.segment.cell

/-- A list whose cells are left alone. -/
theorem Linked.congr (linked : Linked heap head tail nodes) {other : Heap α β}
    (same : ∀ address ∈ nodes.map Prod.fst, other address = heap address) :
    Linked other head tail nodes :=
  { linked with segment := linked.segment.congr same }

theorem Linked.head_eq_none (linked : Linked heap head tail nodes) : head = none ↔ nodes = [] := by
  rw [linked.head, first_eq_none]

theorem Linked.tail_eq_none (linked : Linked heap head tail nodes) : tail = none ↔ nodes = [] := by
  rw [linked.tail, last_eq_none]

/-- Nothing precedes the first cell. -/
theorem Linked.head_prev (linked : Linked heap head tail nodes) {cell : Cell α β}
    (is : head = some address) (stored : heap address = some cell) : cell.prev = none := by
  cases nodes with
  | nil => exact nomatch linked.head.symm.trans is
  | cons node nodes =>
      obtain rfl := Option.some.inj (linked.head.symm.trans is)
      rw [linked.segment.1] at stored
      rw [← Option.some.inj stored]

/-- Nothing follows the last cell. -/
theorem Linked.tail_next (linked : Linked heap head tail nodes) {cell : Cell α β}
    (is : tail = some address) (stored : heap address = some cell) : cell.next = none := by
  rcases List.eq_nil_or_concat' nodes with rfl | ⟨nodes, node, rfl⟩
  · exact nomatch linked.tail.symm.trans is
  · have last := linked.tail.symm.trans is
    rw [last_append] at last
    obtain rfl := Option.some.inj last
    rw [linked.cell] at stored
    rw [← Option.some.inj stored]
    rfl

/-- The two links of neighbours belong together. -/
theorem Linked.inverse (linked : Linked heap head tail nodes) {other : α} {cell cell' : Cell α β}
    (stored : heap address = some cell) (stored' : heap other = some cell')
    (member : address ∈ nodes.map Prod.fst) (member' : other ∈ nodes.map Prod.fst) :
    cell.next = some other ↔ cell'.prev = some address := by
  obtain ⟨node, inNodes, rfl⟩ := List.mem_map.mp member
  obtain ⟨node', inNodes', rfl⟩ := List.mem_map.mp member'
  constructor
  · intro next
    obtain ⟨front, back, rfl⟩ := List.append_of_mem inNodes
    rw [linked.cell] at stored
    rw [← Option.some.inj stored] at next
    cases back with
    | nil => exact nomatch next
    | cons following back =>
        have same : following.1 = node'.1 := Option.some.inj next
        rw [List.append_cons] at linked
        rw [← same, linked.cell] at stored'
        rw [← Option.some.inj stored', last_append]
        rfl
  · intro prev
    obtain ⟨front, back, rfl⟩ := List.append_of_mem inNodes'
    rw [linked.cell] at stored'
    rw [← Option.some.inj stored'] at prev
    rcases List.eq_nil_or_concat' front with rfl | ⟨front, preceding, rfl⟩
    · exact nomatch prev
    · have same : preceding.1 = node.1 := by
        rw [last_append] at prev
        exact Option.some.inj prev
      rw [List.append_assoc, List.singleton_append] at linked
      rw [← same, linked.cell] at stored
      rw [← Option.some.inj stored]
      rfl

variable [DecidableEq α]

/-- Appending a cell that points to the last one. -/
theorem Linked.append (linked : Linked heap head tail nodes) (outside : address ∉ nodes.map Prod.fst)
    (new : heap address = some ⟨none, tail, value⟩) :
    ∃ heap', ifSome tail (setNext · (some address)) heap = some heap' ∧
      Linked heap' (first (nodes ++ [(address, value)]) none) (some address)
        (nodes ++ [(address, value)]) ∧
      ∀ other ∉ nodes.map Prod.fst, heap' other = heap other := by
  obtain ⟨heap', write, front, frame⟩ := linked.segment.setNext linked.nodup (some address)
  refine ⟨heap', linked.tail ▸ write, ⟨?_, ?_, rfl, ?_⟩, frame⟩
  · rw [List.map_append]
    refine linked.nodup.append (List.nodup_singleton address) ?_
    simpa using outside
  · refine segment_append.mpr ⟨front, ?_, trivial⟩
    rw [frame address outside, new, linked.tail]
    rfl
  · simp [last_append]

/-- The first node of a list without one of its nodes. -/
theorem Linked.head_erase (linked : Linked heap head tail (nodes ++ (address, value) :: rest)) :
    (if head = some address then first rest none else head) = first (nodes ++ rest) none := by
  rw [linked.head]
  cases nodes with
  | nil => simp
  | cons node nodes =>
      have nodup := linked.nodup
      rw [List.cons_append, List.map_cons, List.nodup_cons] at nodup
      have other : node.1 ≠ address := fun same => nodup.1 (by simp [same])
      simp [other]

/-- The last node of a list without one of its nodes. -/
theorem Linked.tail_erase (linked : Linked heap head tail (nodes ++ (address, value) :: rest)) :
    (if tail = some address then last nodes none else tail) = last (nodes ++ rest) none := by
  rw [linked.tail]
  rcases List.eq_nil_or_concat' rest with rfl | ⟨rest, node, rfl⟩
  · simp [last_append]
  · have nodup := linked.nodup
    rw [List.map_append, List.map_cons, List.nodup_middle, List.nodup_cons] at nodup
    have other : node.1 ≠ address := fun same => nodup.1 (by simp [same])
    simp [last_append, other]

/-- Unlinking a cell and freeing it.  Its own links stay as they are in between. -/
theorem Linked.erase (linked : Linked heap head tail (nodes ++ (address, value) :: rest)) :
    ∃ heap₁ heap₂, ifSome (last nodes none) (setNext · (first rest none)) heap = some heap₁ ∧
      heap₁ address = heap address ∧
      ifSome (first rest none) (setPrev · (last nodes none)) heap₁ = some heap₂ ∧
      heap₂ address = heap address ∧
      Linked (Function.update heap₂ address none) (first (nodes ++ rest) none)
        (last (nodes ++ rest) none) (nodes ++ rest) ∧
      ∀ other ∉ (nodes ++ (address, value) :: rest).map Prod.fst, heap₂ other = heap other := by
  have nodup := linked.nodup
  rw [List.map_append, List.map_cons, List.nodup_middle, List.nodup_cons, List.mem_append,
    not_or] at nodup
  obtain ⟨⟨notFront, notBack⟩, nodup⟩ := nodup
  obtain ⟨nodupFront, nodupBack, apart⟩ := List.nodup_append.mp nodup
  obtain ⟨front, -, back⟩ := segment_append.mp linked.segment
  obtain ⟨heap₁, write₁, front₁, frame₁⟩ := front.setNext nodupFront (first rest none)
  have back₁ : Segment heap₁ (some address) rest none :=
    back.congr fun _ member => frame₁ _ fun other => apart _ other _ member rfl
  obtain ⟨heap₂, write₂, back₂, frame₂⟩ := back₁.setPrev nodupBack (last nodes none)
  have front₂ : Segment heap₂ none nodes (first rest none) :=
    front₁.congr fun _ member => frame₂ _ fun other => apart _ member _ other rfl
  refine ⟨heap₁, heap₂, write₁, frame₁ _ notFront, write₂,
    (frame₂ _ notBack).trans (frame₁ _ notFront), ⟨?_, ?_, rfl, rfl⟩, ?_⟩
  · rwa [List.map_append]
  · exact segment_append.mpr ⟨front₂.update notFront _, back₂.update notBack _⟩
  · intro other outside
    simp only [List.map_append, List.map_cons, List.mem_append, List.mem_cons, not_or] at outside
    rw [frame₂ _ outside.2.2, frame₁ _ outside.1]

/-- Changing the value of a node. -/
theorem Linked.setValue (linked : Linked heap head tail (nodes ++ (address, value) :: rest))
    (new : β) :
    ∃ heap', LinkedList.setValue address new heap = some heap' ∧
      Linked heap' head tail (nodes ++ (address, new) :: rest) ∧
      ∀ other ≠ address, heap' other = heap other := by
  obtain ⟨heap', write, segment, frame⟩ := linked.segment.setValue linked.nodup new
  refine ⟨heap', write, ⟨?_, segment, ?_, ?_⟩, frame⟩
  · simpa using linked.nodup
  · rw [linked.head, first_append, first_append, first_cons, first_cons]
  · rw [linked.tail, last_append, last_append, last_cons, last_cons]

end Linked

/-! ## Walks -/

/-- Following one of the links from `start` on visits these addresses and ends. -/
inductive Walk (heap : Heap α β) (link : Cell α β → Option α) : Option α → List α → Prop where
  | nil : Walk heap link none []
  | cons {address : α} {cell : Cell α β} {visited : List α} (is : heap address = some cell)
      (walk : Walk heap link (link cell) visited) :
      Walk heap link (some address) (address :: visited)

section Walks

variable {heap : Heap α β} {link : Cell α β → Option α} {start : Option α} {visited : List α}

theorem Walk.deterministic (walk : Walk heap link start visited) {other : List α}
    (again : Walk heap link start other) : visited = other := by
  induction walk generalizing other with
  | nil => cases again; rfl
  | cons is walk ih =>
      cases again with
      | cons same rest =>
          rw [is] at same
          obtain rfl := Option.some.inj same
          rw [ih rest]

/-- A walk depends on the links of the cells it visits only. -/
theorem Walk.congr (walk : Walk heap link start visited) {other : Heap α β}
    (same : ∀ address ∈ visited, (other address).map link = (heap address).map link) :
    Walk other link start visited := by
  induction walk with
  | nil => exact .nil
  | @cons address cell visited is walk ih =>
      rw [List.forall_mem_cons, is, Option.map_some] at same
      obtain ⟨cell', is', link'⟩ := Option.map_eq_some_iff.mp same.1
      exact .cons is' (link' ▸ ih same.2)

theorem Segment.walk_next {before : Option α} {nodes : List (α × β)}
    (segment : Segment heap before nodes none) :
    Walk heap Cell.next (first nodes none) (nodes.map Prod.fst) := by
  induction nodes generalizing before with
  | nil => exact .nil
  | cons node nodes ih => exact .cons segment.1 (ih segment.2)

theorem Segment.walk_prev {behind : Option α} {nodes : List (α × β)}
    (segment : Segment heap none nodes behind) :
    Walk heap Cell.prev (last nodes none) (nodes.map Prod.fst).reverse := by
  induction nodes using List.reverseRecOn generalizing behind with
  | nil => exact .nil
  | append_singleton nodes node ih =>
      obtain ⟨front, cell, -⟩ := segment_append.mp segment
      rw [last_append, List.map_append, List.reverse_append]
      exact .cons cell (ih front)

/-- Both walks of a list visit its nodes, in opposite orders. -/
theorem Linked.walks {head tail : Option α} {nodes : List (α × β)}
    (linked : Linked heap head tail nodes) :
    Walk heap Cell.next head (nodes.map Prod.fst) ∧
      Walk heap Cell.prev tail (nodes.map Prod.fst).reverse := by
  rw [linked.head, linked.tail]
  exact ⟨linked.segment.walk_next, linked.segment.walk_prev⟩

end Walks

end Ethersex.LinkedList
