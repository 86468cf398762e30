import Mathlib

/-!
# The input queue

`tty_input_queue` is a string: what is waiting is in front of its terminator.
-/

namespace Ethersex.Tty.Input

/-- `tty_input_queue`, with a terminator in it. -/
structure Queue where
  chars : List UInt8
  size : chars.length = 8
  terminated : 0 ∈ chars

namespace Queue

/-- The characters in front of the terminator. -/
def waiting (queue : Queue) : List UInt8 := queue.chars.takeWhile (· ≠ 0)

/-- `strlen`. -/
def strlen (queue : Queue) : Nat := queue.waiting.length

theorem exists_chars_eq (queue : Queue) : ∃ rest, queue.chars = queue.waiting ++ 0 :: rest := by
  have stops : queue.chars.dropWhile (· ≠ 0) ≠ [] := by
    intro none
    have all := List.dropWhile_eq_nil_iff.mp none 0 queue.terminated
    exact of_decide_eq_true all rfl
  have head := List.head_dropWhile_not (fun ch : UInt8 => decide (ch ≠ 0)) stops
  rw [decide_eq_false_iff_not, not_not] at head
  have behind := List.cons_head_tail stops
  rw [head] at behind
  exact ⟨_, by rw [behind, waiting, List.takeWhile_append_dropWhile]⟩

theorem strlen_lt (queue : Queue) : queue.strlen < 8 := by
  obtain ⟨rest, split⟩ := queue.exists_chars_eq
  have size := queue.size
  rw [split, List.length_append, List.length_cons] at size
  rw [strlen]
  omega

theorem waiting_ne_zero (queue : Queue) : ∀ ch ∈ queue.waiting, ch ≠ 0 := by
  intro ch member
  rw [waiting] at member
  exact of_decide_eq_true (List.mem_takeWhile_imp (p := fun ch => decide (ch ≠ 0)) member)

/-- The string moved down. -/
def moved (queue : Queue) : List UInt8 := (queue.chars.drop 1).take queue.strlen ++ queue.chars.drop queue.strlen

theorem length_moved (queue : Queue) : queue.moved.length = 8 := by
  have inside := queue.strlen_lt
  rw [moved, List.length_append, List.length_take, List.length_drop, List.length_drop, queue.size]
  omega

theorem zero_mem_moved (queue : Queue) : 0 ∈ queue.moved := by
  obtain ⟨rest, split⟩ := queue.exists_chars_eq
  have behind : queue.chars.drop queue.strlen = 0 :: rest := by rw [strlen, split, List.drop_left]
  rw [moved, behind]
  exact List.mem_append_right _ List.mem_cons_self

/-- `getch`. -/
def getch (queue : Queue) : UInt8 × Queue :=
  let ch := queue.chars.headD 0
  if ch ≠ 0 then (ch, ⟨queue.moved, queue.length_moved, queue.zero_mem_moved⟩) else (ch, queue)

/-- The string with one more character. -/
def pushed (queue : Queue) (ch : UInt8) : List UInt8 := (queue.chars.set queue.strlen ch).set (queue.strlen + 1) 0

theorem length_pushed (queue : Queue) (ch : UInt8) : (queue.pushed ch).length = 8 := by
  rw [pushed, List.length_set, List.length_set, queue.size]

theorem zero_mem_pushed (queue : Queue) (ch : UInt8) (room : queue.strlen + 1 < 8) : 0 ∈ queue.pushed ch :=
  List.mem_set (by rw [List.length_set, queue.size]; exact room) 0

/-- `_getch_queue`. -/
def getchQueue (ch : UInt8) (queue : Queue) : UInt8 × Queue :=
  if room : queue.strlen + 1 < 8 then (0, ⟨queue.pushed ch, queue.length_pushed ch, queue.zero_mem_pushed ch room⟩)
  else (1, queue)

theorem zero_mem_empty : (0 : UInt8) ∈ List.replicate 8 0 := List.mem_replicate.mpr ⟨by decide, rfl⟩

/-- The queue at the start. -/
def empty : Queue := ⟨List.replicate 8 0, List.length_replicate, zero_mem_empty⟩

/-! ## What one call does -/

theorem waiting_eq {queue : Queue} {text rest : List UInt8} (split : queue.chars = text ++ 0 :: rest)
    (clean : ∀ ch ∈ text, ch ≠ 0) : queue.waiting = text := by
  rw [waiting, split, List.takeWhile_append_of_pos fun ch member => decide_eq_true (clean ch member),
    List.takeWhile_cons_of_neg (by simp), List.append_nil]

theorem getch_nil {queue : Queue} (none : queue.waiting = []) : queue.getch = (0, queue) := by
  obtain ⟨rest, split⟩ := queue.exists_chars_eq
  have first : queue.chars.headD 0 = 0 := by rw [split, none, List.nil_append, List.headD_cons]
  rw [getch, first]
  exact if_neg (not_not_intro rfl)

/-- The first character is returned, and the others wait. -/
theorem getch_cons {queue : Queue} {ch : UInt8} {text : List UInt8} (some : queue.waiting = ch :: text) :
    queue.getch.1 = ch ∧ queue.getch.2.waiting = text := by
  obtain ⟨rest, split⟩ := queue.exists_chars_eq
  have clean := queue.waiting_ne_zero
  rw [some] at split clean
  obtain ⟨nonzero, clean⟩ := List.forall_mem_cons.mp clean
  have first : queue.chars.headD 0 = ch := by rw [split, List.cons_append, List.headD_cons]
  have down : queue.moved = text ++ 0 :: 0 :: rest := by
    have front : (queue.chars.drop 1).take (text.length + 1) = text ++ [0] := by
      rw [split, List.cons_append, List.drop_succ_cons, List.drop_zero, List.take_append, List.take_of_length_le
        (Nat.le_succ _), Nat.add_sub_cancel_left]
      rfl
    have behind : queue.chars.drop (text.length + 1) = 0 :: rest := by
      rw [split, List.cons_append, List.drop_succ_cons, List.drop_left]
    rw [moved, strlen, some, List.length_cons, front, behind, List.append_assoc]
    rfl
  rw [getch, first, if_pos nonzero]
  exact ⟨rfl, waiting_eq down clean⟩

theorem getchQueue_full {queue : Queue} (full : queue.waiting.length = 7) (ch : UInt8) :
    queue.getchQueue ch = (1, queue) := by
  rw [getchQueue, dif_neg (by rw [strlen, full]; decide)]

/-- A character that is accepted waits behind the others. -/
theorem getchQueue_room {queue : Queue} (room : queue.waiting.length ≠ 7) {ch : UInt8} (nonzero : ch ≠ 0) :
    (queue.getchQueue ch).1 = 0 ∧ (queue.getchQueue ch).2.waiting = queue.waiting ++ [ch] := by
  obtain ⟨rest, split⟩ := queue.exists_chars_eq
  have inside := queue.strlen_lt
  have more : queue.strlen + 1 < 8 := by
    rw [strlen] at inside ⊢
    omega
  rw [getchQueue, dif_pos more]
  refine ⟨rfl, ?_⟩
  obtain _ | ⟨next, rest⟩ := rest
  · have size := queue.size
    rw [split, List.length_append, List.length_singleton] at size
    exact absurd (Nat.succ.inj size) room
  · have whole : queue.pushed ch = (queue.waiting ++ [ch]) ++ 0 :: rest := by
      rw [pushed, strlen, split, List.set_append_right _ _ le_rfl, Nat.sub_self, List.set_cons_zero,
        List.set_append_right _ _ (Nat.le_succ _), Nat.succ_eq_add_one, Nat.add_sub_cancel_left, List.append_assoc]
      rfl
    refine waiting_eq whole fun other member => ?_
    rcases List.mem_append.mp member with before | last
    · exact queue.waiting_ne_zero other before
    · rw [List.mem_singleton.mp last]
      exact nonzero

theorem getchQueue_refuses (queue : Queue) (ch : UInt8) :
    (queue.getchQueue ch).1 ≠ 0 ↔ queue.waiting.length = 7 := by
  have inside := queue.strlen_lt
  rw [strlen] at inside
  by_cases full : queue.waiting.length = 7
  · rw [getchQueue_full full]
    exact iff_of_true (by simp) full
  · have more : queue.strlen + 1 < 8 := by
      rw [strlen]
      omega
    rw [getchQueue, dif_pos more]
    exact iff_of_false (not_not_intro rfl) full

theorem getch_eq_zero_iff (queue : Queue) : queue.getch.1 = 0 ↔ queue.waiting = [] := by
  constructor
  · intro zero
    cases waits : queue.waiting with
    | nil => rfl
    | cons ch text =>
        have nonzero : ch ≠ 0 := queue.waiting_ne_zero ch (by rw [waits]; exact List.mem_cons_self)
        exact absurd ((getch_cons waits).1.symm.trans zero) nonzero
  · intro none
    rw [getch_nil none]

end Queue

/-! ## Runs -/

/-- A call. -/
inductive Op where
  | getchQueue (ch : UInt8)
  | getch

/-- The queue, with the characters that have been accepted and returned. -/
structure Trace where
  queue : Queue
  accepted : List UInt8
  returned : List UInt8

namespace Trace

/-- One call, with what comes of it. -/
def step (trace : Trace) : Op → Trace
  | .getchQueue ch =>
      let result := trace.queue.getchQueue ch
      { trace with
        queue := result.2
        accepted := if result.1 = 0 then trace.accepted ++ [ch] else trace.accepted }
  | .getch =>
      let result := trace.queue.getch
      { trace with
        queue := result.2
        returned := if result.1 = 0 then trace.returned else trace.returned ++ [result.1] }

def run (ops : List Op) : Trace := ops.foldl step ⟨.empty, [], []⟩

/-- What has been accepted has been returned or waits. -/
def Balanced (trace : Trace) : Prop := trace.accepted = trace.returned ++ trace.queue.waiting

theorem Balanced.step {trace : Trace} (balanced : trace.Balanced) {op : Op} (char : op ≠ .getchQueue 0) :
    (trace.step op).Balanced := by
  rw [Balanced] at balanced
  cases op with
  | getchQueue ch =>
      have nonzero : ch ≠ 0 := fun zero => char (congrArg Op.getchQueue zero)
      rw [Balanced, Trace.step]
      by_cases full : trace.queue.waiting.length = 7
      · rw [Queue.getchQueue_full full]
        exact balanced
      · obtain ⟨accepted, waits⟩ := Queue.getchQueue_room full nonzero
        simp only [accepted, if_true, waits, balanced, List.append_assoc]
  | getch =>
      rw [Balanced, Trace.step]
      cases waits : trace.queue.waiting with
      | nil =>
          rw [Queue.getch_nil waits]
          exact balanced
      | cons ch text =>
          obtain ⟨returned, rest⟩ := Queue.getch_cons waits
          have nonzero : ch ≠ 0 := trace.queue.waiting_ne_zero ch (by rw [waits]; exact List.mem_cons_self)
          rw [waits] at balanced
          simp only [returned, if_neg nonzero, rest, balanced, List.append_assoc, List.singleton_append]

theorem Balanced.foldl {trace : Trace} (balanced : trace.Balanced) {ops : List Op}
    (chars : ∀ op ∈ ops, op ≠ .getchQueue 0) : (ops.foldl Trace.step trace).Balanced := by
  induction ops generalizing trace with
  | nil => exact balanced
  | cons op rest ih =>
      obtain ⟨first, chars⟩ := List.forall_mem_cons.mp chars
      exact ih (balanced.step first) chars

theorem balanced_run {ops : List Op} (chars : ∀ op ∈ ops, op ≠ .getchQueue 0) : (run ops).Balanced :=
  @Balanced.foldl ⟨.empty, [], []⟩ rfl ops chars

end Trace

/-- In every run the characters that are returned are those that have been accepted, in order; the next one is refused
just if seven are waiting, and zero is returned just if none is. -/
theorem input_queue_fifo {ops : List Op} (chars : ∀ op ∈ ops, op ≠ .getchQueue 0) :
    (Trace.run ops).returned <+: (Trace.run ops).accepted ∧
      (∀ ch, ((Trace.run ops).queue.getchQueue ch).1 ≠ 0 ↔
        (Trace.run ops).accepted.length = (Trace.run ops).returned.length + 7) ∧
      (((Trace.run ops).queue.getch).1 = 0 ↔
        (Trace.run ops).accepted.length = (Trace.run ops).returned.length) := by
  have balanced := Trace.balanced_run chars
  rw [Trace.Balanced] at balanced
  have count : (Trace.run ops).accepted.length =
      (Trace.run ops).returned.length + (Trace.run ops).queue.waiting.length := by
    rw [balanced, List.length_append]
  refine ⟨⟨_, balanced.symm⟩, fun ch => ?_, ?_⟩
  · rw [count, Nat.add_left_cancel_iff]
    exact Queue.getchQueue_refuses _ ch
  · rw [count, Nat.add_eq_left, List.length_eq_zero_iff]
    exact Queue.getch_eq_zero_iff _

theorem input_queue_fifo_two :
    (∀ op ∈ [Op.getchQueue 97, .getchQueue 98, .getch], op ≠ .getchQueue 0) ∧
      (Trace.run [.getchQueue 97, .getchQueue 98, .getch]).returned <+:
        (Trace.run [.getchQueue 97, .getchQueue 98, .getch]).accepted :=
  ⟨by simp, (input_queue_fifo (by simp)).1⟩

end Ethersex.Tty.Input
