import Mathlib
import Ethersex.Mdns.Parsing

/-!
# Comparing names

`compare_label` says yes when the text ends first, as its comment announces, and also when the name in the packet
ends first.  So the text need not be in front of the name: either may be in front of the other.  With what
`append_label` has written for a text, that text compares equal.
-/

namespace Ethersex.Mdns

open Library

/-- One of two lists of labels is in front of the other one. -/
def Overlap (stored name : List Dns.Label) : Prop := stored <+: name ∨ name <+: stored

instance (stored name : List Dns.Label) : Decidable (Overlap stored name) := inferInstanceAs (Decidable (_ ∨ _))

theorem overlap_cons {first second : Dns.Label} {stored name : List Dns.Label} :
    Overlap (first :: stored) (second :: name) ↔ first = second ∧ Overlap stored name := by
  rw [Overlap, Overlap, List.cons_prefix_cons, List.cons_prefix_cons, and_or_left]
  refine or_congr_right (and_congr_left fun _ => eq_comm)

theorem overlap_nil_left (name : List Dns.Label) : Overlap [] name := .inl List.nil_prefix

theorem overlap_nil_right (stored : List Dns.Label) : Overlap stored [] := .inr List.nil_prefix

/-- The address in a pointer. -/
theorem target_word {goal : Nat} (small : goal < 0x4000) :
    target (UInt8.ofNat ((0xC000 + goal) / 256)) (UInt8.ofNat (0xC000 + goal)) = goal := by
  have high : (UInt8.ofNat ((0xC000 + goal) / 256)).toNat = 192 + goal / 256 := by
    rw [UInt8.toNat_ofNat']
    omega
  have low : (UInt8.ofNat (0xC000 + goal)).toNat = goal % 256 := by
    rw [UInt8.toNat_ofNat']
    omega
  have mask : (192 + goal / 256) &&& 63 = goal / 256 := by
    rw [show 63 = 2 ^ 6 - 1 from rfl, Nat.and_two_pow_sub_one_eq_mod]
    omega
  rw [target, UInt16.toNat_or, UInt16.toNat_shiftLeft, UInt8.toNat_toUInt16, UInt8.toNat_toUInt16,
    UInt8.toNat_and, high, low]
  change (((192 + goal / 256) &&& 63) <<< (8 % 16)) % 2 ^ 16 ||| goal % 256 = goal
  have fits : goal / 256 * 2 ^ (8 % 16) < 2 ^ 16 := by
    change goal / 256 * 256 < 65536
    omega
  rw [mask, Nat.shiftLeft_eq, Nat.mod_eq_of_lt fits]
  have parts := Nat.two_pow_add_eq_or_of_lt (show goal % 256 < 2 ^ 8 by omega) (goal / 256)
  rw [Nat.mul_comm, ← parts]
  omega

section Names

variable {packet : List UInt8} {pos stop : Nat} {data : List UInt8} {name : List Dns.Label}

/-- A label is the same as some bytes of its length, or it is not. -/
theorem sameBytes_label {start : Nat} {label bytes : List UInt8} (here : Dns.BytesAt packet start label)
    (size : bytes.length = label.length) : sameBytes packet start bytes = some (decide (bytes = label)) := by
  induction bytes generalizing start label with
  | nil =>
      obtain rfl := List.eq_nil_of_length_eq_zero size.symm
      rfl
  | cons ch rest ih =>
      obtain _ | ⟨byte, label⟩ := label
      · cases size
      obtain ⟨first, behind⟩ := Dns.bytesAt_cons.mp here
      rw [sameBytes, first, Option.bind_eq_bind, Option.bind_some]
      by_cases same : byte = ch
      · rw [if_neg (not_not_intro same), ih behind (Nat.succ.inj size), same]
        simp only [List.cons.injEq, true_and]
      · rw [if_pos same]
        refine congrArg some (decide_eq_false fun equal => same ?_).symm
        exact (List.cons.inj equal).1.symm

/-- The first label of a text, and what is behind it. -/
theorem labels_cases (text : List UInt8) :
    (DOT ∉ text ∧ labels text = [text]) ∨
      ∃ part rest, DOT ∉ part ∧ text = part ++ DOT :: rest ∧ labels text = part :: labels rest := by
  by_cases dot : DOT ∈ text
  · obtain ⟨part, rest, split, free⟩ := List.eq_append_cons_of_mem dot
    exact .inr ⟨part, rest, free, split, split ▸ labels_append free⟩
  · exact .inl ⟨dot, labels_eq_singleton dot⟩

theorem length_inj {first second : Dns.Label} (small : first.length < 64) (small' : second.length < 64) :
    UInt8.ofNat first.length = UInt8.ofNat second.length ↔ first.length = second.length := by
  refine ⟨fun same => ?_, congrArg _⟩
  have value := congrArg UInt8.toNat same
  rwa [Dns.toNat_length small, Dns.toNat_length small'] at value

/-- The label at a position, compared with the first one of a text. -/
theorem compare_label (data : List UInt8) (fuel : Nat) {label part : Dns.Label} (small : label.length < 64)
    (small' : part.length < 64) (here : Dns.BytesAt packet pos (UInt8.ofNat label.length :: label))
    (first : data.takeWhile (· ≠ DOT) = part) (front : data.take part.length = part) :
    compareLabelIn packet (fuel + 1) pos data =
      if part ≠ label then some false
      else if DOT ∉ data then some true
      else packet[pos + (label.length + 1)]?.bind fun next =>
        if next ≠ 0 then compareLabelIn packet fuel (pos + (label.length + 1)) (data.drop (label.length + 1))
        else some true := by
  obtain ⟨length, bytes⟩ := Dns.bytesAt_cons.mp here
  have place : pos + 1 + label.length = pos + (label.length + 1) := by omega
  rw [compareLabelIn_label length (length_plain small), first, Dns.toNat_length small, place]
  by_cases size : part.length = label.length
  · rw [if_neg (not_not_intro (congrArg UInt8.ofNat size)), ← size, front, sameBytes_label bytes size,
      Option.bind_some]
    by_cases same : part = label
    · rw [if_neg (not_not_intro same), decide_eq_true same, if_neg Bool.false_ne_true.symm]
    · rw [if_pos same, decide_eq_false same, if_pos rfl]
  · rw [if_pos fun same => size ((length_inj small' small).mp same),
      if_pos fun same => size (congrArg List.length same)]

/-- What a comparison of a text with a name comes to. -/
theorem compare_nameAt (legal : Dns.Legal (labels data)) (here : Dns.NameAt packet pos name stop)
    (start : packet[pos]? ≠ some 0) :
    ∃ fuel, compareLabelIn packet fuel pos data = some (decide (Overlap (labels data) name)) := by
  induction here generalizing data with
  | root here => exact absurd (Dns.bytesAt_cons.mp here).1 start
  | @label pos stop label rest positive small here behind ih =>
      obtain ⟨next, there⟩ := behind.inside
      rcases labels_cases data with ⟨free, parts⟩ | ⟨part, text, free, rfl, parts⟩
      · have small' : data.length < 64 := (legal data (by rw [parts]; exact List.mem_cons_self)).2
        refine ⟨1, ?_⟩
        rw [compare_label data 0 small small' here (takeWhile_text free) List.take_length, parts]
        by_cases same : data = label
        · rw [if_neg (not_not_intro same), if_pos free]
          exact congrArg some (decide_eq_true (overlap_cons.mpr ⟨same, overlap_nil_left rest⟩)).symm
        · rw [if_pos same]
          exact congrArg some (decide_eq_false fun both => same (overlap_cons.mp both).1).symm
      · rw [parts] at legal
        obtain ⟨first, legal⟩ := List.forall_mem_cons.mp legal
        have dot : ¬DOT ∉ part ++ DOT :: text := not_not_intro (List.mem_append_right part List.mem_cons_self)
        have compare (fuel : Nat) := compare_label (part ++ DOT :: text) fuel small first.2 here
          (takeWhile_part free) List.take_left
        by_cases same : part = label
        · subst same
          have behindText : (part ++ DOT :: text).drop (part.length + 1) = text := by
            rw [← List.drop_drop, List.drop_left, List.drop_one, List.tail_cons]
          by_cases ended : next = 0
          · obtain ⟨rfl, -⟩ := behind.of_zero (ended ▸ there)
            refine ⟨1, ?_⟩
            rw [compare, if_neg (not_not_intro rfl), if_neg dot, there, Option.bind_some,
              if_neg (not_not_intro ended), parts]
            exact congrArg some (decide_eq_true (overlap_cons.mpr ⟨rfl, overlap_nil_right _⟩)).symm
          · obtain ⟨fuel, found⟩ := ih legal fun zero => ended (Option.some.inj (there.symm.trans zero))
            refine ⟨fuel + 1, ?_⟩
            rw [compare, if_neg (not_not_intro rfl), if_neg dot, there, Option.bind_some, if_pos ended, behindText,
              found, parts]
            simp only [overlap_cons, true_and]
        · refine ⟨1, ?_⟩
          rw [compare, if_pos same, parts]
          exact congrArg some (decide_eq_false fun both => same (overlap_cons.mp both).1).symm
  | pointer _ small here there ih =>
      obtain ⟨high, rest⟩ := Dns.bytesAt_cons.mp here
      obtain ⟨next, first⟩ := there.inside
      have first' := first
      rw [← target_word small] at first'
      have step (fuel : Nat) := @compareLabelIn_pointer packet _ fuel data _ _ _ high (pointer_marked small)
        (Dns.bytesAt_cons.mp rest).1 first'
      rw [target_word small] at step
      by_cases ended : next = 0
      · obtain ⟨rfl, -⟩ := there.of_zero (ended ▸ first)
        refine ⟨1, ?_⟩
        rw [step, if_neg (not_not_intro ended)]
        exact congrArg some (decide_eq_true (overlap_nil_right _)).symm
      · obtain ⟨fuel, found⟩ := ih legal fun zero => ended (Option.some.inj (first.symm.trans zero))
        exact ⟨fuel + 1, by rw [step, if_pos ended, found]⟩

theorem start_labels {text : List UInt8} (legal : Dns.Legal (labels text))
    (here : Dns.BytesAt packet pos (appendLabel (some text))) :
    packet[pos]? ≠ some 0 ∧ ∃ stop, Dns.NameAt packet pos (labels text) stop := by
  have isText : IsText text := fun part member => (legal part member).2.trans (by decide)
  rw [appendLabel_eq isText] at here
  have read := Dns.NameAt.terminated legal here
  exact ⟨fun zero => labels_ne_nil text (read.of_zero zero).1, _, read⟩

end Names

/-! ## The answer of `compare_label` -/

section Memory

variable {memory : Memory} {base : UInt16} {packet data : List UInt8} {pos stop : Nat} {name : List Dns.Label}

/-- `compare_label` says yes. -/
def Matches (memory : Memory) (base label : UInt16) (data : List UInt8) : Prop :=
  ∃ fuel, compareLabel memory base fuel label data = some true

theorem compareLabel_unique {fuel fuel' : Nat} {label : UInt16} {result result' : Bool}
    (one : compareLabel memory base fuel label data = some result)
    (two : compareLabel memory base fuel' label data = some result') : result = result' := by
  induction fuel generalizing fuel' label data with
  | zero => cases one
  | succ fuel ih =>
      obtain _ | fuel' := fuel'
      · cases two
      rw [compareLabel] at one two
      simp only at one two
      split at one
      · rename_i mark
        rw [if_pos mark] at two
        split at one
        · rename_i more
          rw [if_pos more] at two
          exact ih one two
        · rename_i ended
          rw [if_neg ended] at two
          exact Option.some.inj (one.symm.trans two)
      · rename_i plain
        rw [if_neg plain] at two
        split at one
        · rename_i other
          rw [if_pos other] at two
          exact Option.some.inj (one.symm.trans two)
        · rename_i same
          rw [if_neg same] at two
          split at one
          · rename_i last
            rw [if_pos last] at two
            exact Option.some.inj (one.symm.trans two)
          · rename_i dot
            rw [if_neg dot] at two
            split at one
            · rename_i more
              rw [if_pos more] at two
              exact ih one two
            · rename_i ended
              rw [if_neg ended] at two
              exact Option.some.inj (one.symm.trans two)

/-- For a name in the packet, other than the root, `compare_label` says yes when the labels of the text are in front
of those of the name, or the other way round. -/
theorem matches_iff (held : Held memory base packet) (clean : ∀ ch ∈ data, ch ≠ 0)
    (legal : Dns.Legal (labels data)) (here : Dns.NameAt packet pos name stop) (start : packet[pos]? ≠ some 0) :
    Matches memory base (base + UInt16.ofNat pos) data ↔ Overlap (labels data) name := by
  obtain ⟨fuel, found⟩ := compare_nameAt legal here start
  have result := compareLabel_of_held held clean found
  constructor
  · rintro ⟨fuel', yes⟩
    exact of_decide_eq_true (compareLabel_unique result yes)
  · intro both
    exact ⟨fuel, result.trans (congrArg some (decide_eq_true both))⟩

/-- The text is in front of the name whenever `compare_label` says so, just if the name is not in front of a longer
text; and what has been written for the text compares equal. -/
theorem compareLabel_right_iff (held : Held memory base packet) (clean : ∀ ch ∈ data, ch ≠ 0)
    (legal : Dns.Legal (labels data)) (here : Dns.NameAt packet pos name stop) (nonroot : name ≠ []) :
    ((Matches memory base (base + UInt16.ofNat pos) data ↔ labels data <+: name) ↔
        ¬(name <+: labels data ∧ name ≠ labels data)) ∧
      ∀ place, Dns.BytesAt packet place (appendLabel (some data)) →
        Matches memory base (base + UInt16.ofNat place) data := by
  have start : packet[pos]? ≠ some 0 := fun zero => nonroot (here.of_zero zero).1
  constructor
  · rw [matches_iff held clean legal here start, Overlap]
    constructor
    · rintro right ⟨shorter, apart⟩
      have longer := right.mp (.inr shorter)
      exact apart (List.IsPrefix.eq_of_length_le shorter longer.length_le)
    · intro apart
      refine ⟨fun both => both.elim id fun shorter => ?_, .inl⟩
      by_cases same : name = labels data
      · exact same ▸ List.prefix_rfl
      · exact absurd ⟨shorter, same⟩ apart
  · intro place written
    obtain ⟨start, stop, read⟩ := start_labels legal written
    exact (matches_iff held clean legal read start).mpr (.inl List.prefix_rfl)

/-- A memory with a packet at its start. -/
def memoryOf (packet : List UInt8) : Memory := fun place => packet.getD place.toNat 0

theorem held_memoryOf (small : packet.length ≤ 65536) : Held (memoryOf packet) 0 packet := by
  intro k byte here
  obtain ⟨inside, -⟩ := List.getElem?_eq_some_iff.mp here
  have place : (0 + UInt16.ofNat k).toNat = k := by
    rw [UInt16.zero_add, UInt16.toNat_ofNat', Nat.mod_eq_of_lt (inside.trans_le small)]
  rw [memoryOf, place, List.getD_eq_getElem?_getD, here, Option.getD_some]

/-- The name `h.t` in a packet, and the texts `h` and `h.t`. -/
theorem compareLabel_right_host :
    ((Matches (memoryOf [1, 104, 1, 116, 0]) 0 (0 + UInt16.ofNat 0) [104] ↔ labels [104] <+: [[104], [116]]) ↔
        ¬([[104], [116]] <+: labels [104] ∧ [[104], [116]] ≠ labels [104])) ∧
      ∀ place, Dns.BytesAt [1, 104, 1, 116, 0] place (appendLabel (some [104])) →
        Matches (memoryOf [1, 104, 1, 116, 0]) 0 (0 + UInt16.ofNat place) [104] :=
  compareLabel_right_iff (held_memoryOf (by decide)) (by simp) (by decide)
    (.label (by decide) (by decide) ⟨_, rfl⟩ (.label (by decide) (by decide) ⟨_, rfl⟩ (.root ⟨_, rfl⟩)))
    (List.cons_ne_nil _ _)

/-- A question for `h` is taken for one for `h.t`. -/
theorem shorter_question_matches :
    Dns.NameAt [1, 104, 0] 0 [[104]] 3 ∧ Matches (memoryOf [1, 104, 0]) 0 (0 + UInt16.ofNat 0) [104, 46, 116] ∧
      ¬labels [104, 46, 116] <+: [[104]] :=
  ⟨.label (by decide) (by decide) ⟨_, rfl⟩ (.root ⟨_, rfl⟩), ⟨1, rfl⟩, by decide⟩

end Memory

end Ethersex.Mdns
