import Mathlib
import Ethersex.Mdns.Responses

/-!
# Names in a packet

`parse_name` and `compare_label` take the lengths of labels and the pointers as they find them, and compare no
address with the end of the packet.  Here they read a packet by offsets, and have no result once they read
outside of it; a result is that of the functions on the memory of the device.

A name that is only the root is passed over with one byte too much, and a pointer that leads to itself is followed
for ever.
-/

namespace Ethersex.Mdns

open Library

/-- Where a pointer leads to. -/
def target (high low : UInt8) : Nat := ((high &&& 0x3F).toUInt16 <<< 8 ||| low.toUInt16).toNat

section Checked

variable (packet : List UInt8)

/-- `parse_name`, inside the packet. -/
def parseNameIn : (fuel : Nat) → (query : Nat) → Option Nat
  | 0, _ => none
  | fuel + 1, query => do
      let n ← packet[query]?
      if n &&& 0xC0 ≠ 0 then some (query + 2)
      else
        let next ← packet[query + 1 + n.toNat]?
        if next ≠ 0 then parseNameIn fuel (query + 1 + n.toNat) else some (query + 1 + n.toNat + 1)

/-- Whether some bytes stand at an offset, up to the first difference. -/
def sameBytes : (start : Nat) → (bytes : List UInt8) → Option Bool
  | _, [] => some true
  | start, ch :: rest => do
      let byte ← packet[start]?
      if byte ≠ ch then some false else sameBytes (start + 1) rest

/-- `compare_label`, inside the packet. -/
def compareLabelIn : (fuel : Nat) → (label : Nat) → (data : List UInt8) → Option Bool
  | 0, _, _ => none
  | fuel + 1, label, data => do
      let n ← packet[label]?
      if n &&& 0xC0 ≠ 0 then
        let low ← packet[label + 1]?
        let next ← packet[target n low]?
        if next ≠ 0 then compareLabelIn fuel (target n low) data else some true
      else if UInt8.ofNat (data.takeWhile (· ≠ DOT)).length ≠ n then some false
      else
        let same ← sameBytes packet (label + 1) (data.take n.toNat)
        if same = false then some false
        else if DOT ∉ data then some true
        else
          let next ← packet[label + 1 + n.toNat]?
          if next ≠ 0 then compareLabelIn fuel (label + 1 + n.toNat) (data.drop (n.toNat + 1))
          else some true

end Checked

/-! ## The packet in the memory -/

/-- A packet that lies in the memory. -/
def Held (memory : Memory) (base : UInt16) (packet : List UInt8) : Prop :=
  ∀ k byte, packet[k]? = some byte → memory (base + UInt16.ofNat k) = byte

section Memory

variable {memory : Memory} {base : UInt16} {packet : List UInt8}

theorem ofNat_add_one (base : UInt16) (offset : Nat) :
    base + UInt16.ofNat offset + 1 = base + UInt16.ofNat (offset + 1) := by
  rw [UInt16.ofNat_add, ← UInt16.add_assoc]
  rfl

theorem ofNat_add_length (base : UInt16) (offset : Nat) (n : UInt8) :
    base + UInt16.ofNat offset + n.toUInt16 = base + UInt16.ofNat (offset + n.toNat) := by
  have value : UInt16.ofNat n.toNat = n.toUInt16 := by
    rw [← UInt16.toNat_inj, UInt16.toNat_ofNat']
    have := n.toNat_lt
    simp
  rw [UInt16.ofNat_add, value, UInt16.add_assoc]

/-- A result inside the packet is the one on the memory. -/
theorem parseName_of_held (held : Held memory base packet) {fuel query stop : Nat}
    (found : parseNameIn packet fuel query = some stop) :
    parseName memory fuel (base + UInt16.ofNat query) = some (base + UInt16.ofNat stop) := by
  induction fuel generalizing query with
  | zero => cases found
  | succ fuel ih =>
      rw [parseNameIn] at found
      obtain ⟨n, here, found⟩ := Option.bind_eq_some_iff.mp found
      rw [parseName]
      simp only [held query n here, ofNat_add_one, ofNat_add_length]
      split at found
      · rename_i pointer
        rw [if_pos pointer]
        exact congrArg (fun stop => some (base + UInt16.ofNat stop)) (Option.some.inj found)
      · rename_i plain
        obtain ⟨next, there, found⟩ := Option.bind_eq_some_iff.mp found
        rw [if_neg plain, held _ next there]
        split at found
        · rename_i more
          rw [if_pos more]
          exact ih found
        · rename_i ended
          rw [if_neg ended]
          exact congrArg (fun stop => some (base + UInt16.ofNat stop)) (Option.some.inj found)

/-- `strncmp` on the memory, up to the first difference. -/
theorem strncmp_of_held (held : Held memory base packet) {data : List UInt8} (clean : ∀ ch ∈ data, ch ≠ 0)
    {count start : Nat} (long : count ≤ data.length) {result : Bool}
    (found : sameBytes packet start (data.take count) = some result) :
    strncmp (fun k => memory (base + UInt16.ofNat start + UInt16.ofNat k)) (cString data) count = 0 ↔
      result = true := by
  induction count generalizing start data with
  | zero =>
      cases found
      exact iff_of_true rfl rfl
  | succ count ih =>
      obtain _ | ⟨ch, rest⟩ := data
      · cases long
      obtain ⟨nonzero, clean⟩ := List.forall_mem_cons.mp clean
      rw [List.take_succ_cons, sameBytes] at found
      obtain ⟨byte, here, found⟩ := Option.bind_eq_some_iff.mp found
      have first : memory (base + UInt16.ofNat start + UInt16.ofNat 0) = byte := by
        have zero : UInt16.ofNat 0 = 0 := rfl
        rw [zero, UInt16.add_zero, held start byte here]
      have text : cString (ch :: rest) 0 = ch := rfl
      have shift : (fun k => memory (base + UInt16.ofNat start + UInt16.ofNat (k + 1))) =
          fun k => memory (base + UInt16.ofNat (start + 1) + UInt16.ofNat k) := by
        funext k
        rw [UInt16.add_assoc, ← UInt16.ofNat_add, UInt16.add_assoc, ← UInt16.ofNat_add, Nat.add_assoc,
          Nat.add_comm 1 k]
      rw [strncmp]
      simp only [first, text]
      split at found
      · rename_i apart
        cases found
        rw [if_pos apart]
        refine iff_of_false (fun equal => ?_) Bool.false_ne_true
        exact apart (UInt8.toNat_inj.mp (by omega))
      · rename_i same
        rw [ne_eq, not_not] at same
        rw [same, if_neg (not_not_intro rfl), if_neg nonzero, shift]
        exact ih clean (Nat.le_of_succ_le_succ long) found

theorem compareLabel_of_held (held : Held memory base packet) {fuel label : Nat} {data : List UInt8} {result : Bool}
    (clean : ∀ ch ∈ data, ch ≠ 0) (found : compareLabelIn packet fuel label data = some result) :
    compareLabel memory base fuel (base + UInt16.ofNat label) data = some result := by
  induction fuel generalizing label data with
  | zero => cases found
  | succ fuel ih =>
      rw [compareLabelIn] at found
      obtain ⟨n, here, found⟩ := Option.bind_eq_some_iff.mp found
      rw [compareLabel]
      simp only [held label n here, ofNat_add_one, ofNat_add_length]
      split at found
      · rename_i pointer
        obtain ⟨low, second, found⟩ := Option.bind_eq_some_iff.mp found
        obtain ⟨next, there, found⟩ := Option.bind_eq_some_iff.mp found
        have address : base + ((n &&& 0x3F).toUInt16 <<< 8 ||| low.toUInt16) =
            base + UInt16.ofNat (target n low) := by rw [target, UInt16.ofNat_toNat]
        rw [if_pos pointer, held _ low second, address, held _ next there]
        split at found
        · rename_i more
          rw [if_pos more]
          exact ih clean found
        · rename_i ended
          rw [if_neg ended]
          exact found
      · rename_i plain
        rw [if_neg plain]
        split at found
        · rename_i other
          rw [if_pos (.inl other)]
          exact found
        · rename_i size
          rw [ne_eq, not_not] at size
          obtain ⟨same, compared, found⟩ := Option.bind_eq_some_iff.mp found
          have long : n.toNat ≤ data.length := by
            have part := (List.takeWhile_prefix (l := data) (· ≠ DOT)).length_le
            have value := congrArg UInt8.toNat size
            rw [UInt8.toNat_ofNat'] at value
            have := Nat.mod_le (data.takeWhile (· ≠ DOT)).length (2 ^ 8)
            omega
          have equal := strncmp_of_held held clean long compared
          split at found
          · rename_i different
            have apart : ¬same = true := by rw [different]; exact Bool.false_ne_true
            rw [if_pos (.inr fun zero => apart (equal.mp zero))]
            exact found
          · rename_i equalBytes
            have zero := equal.mpr (Bool.not_eq_false _ ▸ equalBytes)
            rw [if_neg (not_or.mpr ⟨not_not_intro size, not_not_intro zero⟩)]
            split at found
            · rename_i last
              rw [if_pos last]
              exact found
            · rename_i dot
              obtain ⟨next, there, found⟩ := Option.bind_eq_some_iff.mp found
              rw [if_neg dot, held _ next there]
              split at found
              · rename_i more
                rw [if_pos more]
                exact ih (fun ch member => clean ch (List.mem_of_mem_drop member)) found
              · rename_i ended
                rw [if_neg ended]
                exact found

end Memory

/-! ## Passing over a name -/

/-- Labels one behind the other lead to a zero or to a byte with a mark, inside the packet. -/
inductive Chain (packet : List UInt8) : Nat → Prop where
  | zero {pos : Nat} : packet[pos]? = some 0 → Chain packet pos
  | mark {pos : Nat} {n : UInt8} : packet[pos]? = some n → n &&& 0xC0 ≠ 0 → Chain packet pos
  | label {pos : Nat} {n : UInt8} : packet[pos]? = some n → n &&& 0xC0 = 0 → n ≠ 0 →
      Chain packet (pos + 1 + n.toNat) → Chain packet pos

/-- What is right for `parse_name` at a position: it comes to an end inside the packet, behind the name if there
is one. -/
structure ParsesRightly (packet : List UInt8) (query : Nat) : Prop where
  ends : ∃ fuel stop, parseNameIn packet fuel query = some stop
  behind : ∀ labels stop, Dns.NameAt packet query labels stop →
    ∃ fuel, parseNameIn packet fuel query = some stop

section Parse

variable {packet : List UInt8} {query stop fuel : Nat}

theorem parseNameIn_mark {n : UInt8} (here : packet[query]? = some n) (mark : n &&& 0xC0 ≠ 0) :
    parseNameIn packet (fuel + 1) query = some (query + 2) := by
  rw [parseNameIn, here, Option.bind_eq_bind, Option.bind_some, if_pos mark]

theorem parseNameIn_label {n next : UInt8} (here : packet[query]? = some n) (plain : n &&& 0xC0 = 0)
    (there : packet[query + 1 + n.toNat]? = some next) :
    parseNameIn packet (fuel + 1) query =
      if next ≠ 0 then parseNameIn packet fuel (query + 1 + n.toNat) else some (query + 1 + n.toNat + 1) := by
  rw [parseNameIn, here, Option.bind_eq_bind, Option.bind_some, if_neg (not_not_intro plain), there,
    Option.bind_some]

theorem parseNameIn_last {n : UInt8} (here : packet[query]? = some n) (plain : n &&& 0xC0 = 0)
    (there : packet[query + 1 + n.toNat]? = some 0) :
    parseNameIn packet (fuel + 1) query = some (query + 1 + n.toNat + 1) :=
  parseNameIn_label here plain there

theorem parseNameIn_next {n next : UInt8} (here : packet[query]? = some n) (plain : n &&& 0xC0 = 0)
    (there : packet[query + 1 + n.toNat]? = some next) (more : next ≠ 0) :
    parseNameIn packet (fuel + 1) query = parseNameIn packet fuel (query + 1 + n.toNat) :=
  (parseNameIn_label here plain there).trans (if_pos more)

/-- At least two bytes are passed over. -/
theorem add_two_le_parseNameIn (found : parseNameIn packet fuel query = some stop) : query + 2 ≤ stop := by
  induction fuel generalizing query with
  | zero => cases found
  | succ fuel ih =>
      obtain ⟨n, here, rest⟩ := Option.bind_eq_some_iff.mp found
      by_cases mark : n &&& 0xC0 = 0
      · rw [if_neg (not_not_intro mark)] at rest
        obtain ⟨next, there, -⟩ := Option.bind_eq_some_iff.mp rest
        rw [parseNameIn_label here mark there] at found
        split at found
        · have := ih found
          omega
        · cases found
          omega
      · rw [parseNameIn_mark here mark] at found
        cases found
        exact Nat.le_refl _

theorem chain_of_parseNameIn (found : parseNameIn packet fuel query = some stop)
    (start : packet[query]? ≠ some 0) : Chain packet query := by
  induction fuel generalizing query with
  | zero => cases found
  | succ fuel ih =>
      obtain ⟨n, here, rest⟩ := Option.bind_eq_some_iff.mp found
      have nonzero : n ≠ 0 := fun zero => start (here.trans (congrArg some zero))
      by_cases mark : n &&& 0xC0 = 0
      · rw [if_neg (not_not_intro mark)] at rest
        obtain ⟨next, there, -⟩ := Option.bind_eq_some_iff.mp rest
        rw [parseNameIn_label here mark there] at found
        refine .label here mark nonzero ?_
        by_cases ended : next = 0
        · exact .zero (ended ▸ there)
        · rw [if_pos ended] at found
          exact ih found fun zero => ended (Option.some.inj (there.symm.trans zero))
      · exact .mark here mark

theorem Chain.inside (chain : Chain packet query) : ∃ byte, packet[query]? = some byte := by
  cases chain with
  | zero here => exact ⟨0, here⟩
  | mark here _ => exact ⟨_, here⟩
  | label here _ _ _ => exact ⟨_, here⟩

theorem Chain.parse (chain : Chain packet query) (start : packet[query]? ≠ some 0) :
    ∃ fuel stop, parseNameIn packet fuel query = some stop := by
  induction chain with
  | zero here => exact absurd here start
  | mark here mark => exact ⟨1, _, parseNameIn_mark here mark⟩
  | label here plain _ chain ih =>
      obtain ⟨next, there⟩ := chain.inside
      by_cases ended : next = 0
      · exact ⟨1, _, parseNameIn_last here plain (ended ▸ there)⟩
      · obtain ⟨fuel, stop, found⟩ := ih fun zero => ended (Option.some.inj (there.symm.trans zero))
        exact ⟨fuel + 1, stop, (parseNameIn_next here plain there ended).trans found⟩

set_option maxRecDepth 2000 in
/-- The lengths of labels have no mark. -/
theorem marked_iff (n : UInt8) : n &&& 0xC0 = 0 ↔ n.toNat < 64 := by
  have value : ∀ n : Fin 256, n.val &&& 192 = 0 ↔ n.val < 64 := by decide
  have same := value ⟨n.toNat, n.toNat_lt⟩
  rw [← same, ← UInt8.toNat_inj, UInt8.toNat_and]
  rfl

theorem length_plain {label : Dns.Label} (small : label.length < 64) : UInt8.ofNat label.length &&& 0xC0 = 0 := by
  rw [marked_iff, Dns.toNat_length small]
  exact small

theorem pointer_marked {goal : Nat} (small : goal < 0x4000) : UInt8.ofNat ((0xC000 + goal) / 256) &&& 0xC0 ≠ 0 := by
  rw [ne_eq, marked_iff]
  have := Dns.toNat_pointer small
  omega

/-- A name that is not only the root is passed over exactly. -/
theorem parse_nameAt {labels : List Dns.Label} (name : Dns.NameAt packet query labels stop)
    (start : packet[query]? ≠ some 0) : ∃ fuel, parseNameIn packet fuel query = some stop := by
  induction name with
  | root here => exact absurd (Dns.bytesAt_cons.mp here).1 start
  | @label pos stop label rest positive small here behind ih =>
      obtain ⟨length, -⟩ := Dns.bytesAt_cons.mp here
      have plain := length_plain small
      have next : pos + (label.length + 1) = pos + 1 + (UInt8.ofNat label.length).toNat := by
        rw [Dns.toNat_length small]
        omega
      rw [next] at behind ih
      by_cases ended : packet[pos + 1 + (UInt8.ofNat label.length).toNat]? = some 0
      · obtain ⟨-, rfl⟩ := behind.of_zero ended
        exact ⟨1, parseNameIn_last length plain ended⟩
      · obtain ⟨fuel, found⟩ := ih ended
        obtain ⟨next, there⟩ := behind.inside
        exact ⟨fuel + 1, (parseNameIn_next length plain there fun zero => ended (zero ▸ there)).trans found⟩
  | pointer _ small here _ =>
      exact ⟨1, parseNameIn_mark (Dns.bytesAt_cons.mp here).1 (pointer_marked small)⟩

/-- `parse_name` is right where a chain of labels comes to an end inside the packet, unless the name is only the
root. -/
theorem parseName_right_iff : ParsesRightly packet query ↔ Chain packet query ∧ packet[query]? ≠ some 0 := by
  constructor
  · intro right
    have start : packet[query]? ≠ some 0 := by
      intro zero
      have root := Dns.NameAt.root (Dns.bytesAt_cons.mpr ⟨zero, Dns.bytesAt_nil _ _⟩)
      obtain ⟨fuel, found⟩ := right.behind [] (query + 1) root
      have := add_two_le_parseNameIn found
      omega
    obtain ⟨fuel, stop, found⟩ := right.ends
    exact ⟨chain_of_parseNameIn found start, start⟩
  · rintro ⟨chain, start⟩
    exact ⟨chain.parse start, fun labels stop name => parse_nameAt name start⟩

end Parse

/-! ## Comparing a name -/

/-- Pointers lead inside the packet from one position to another, which holds none. -/
inductive Leads (packet : List UInt8) : Nat → Nat → Prop where
  | here {pos : Nat} {n : UInt8} : packet[pos]? = some n → n &&& 0xC0 = 0 → Leads packet pos pos
  | pointer {pos goal : Nat} {high low : UInt8} : packet[pos]? = some high → high &&& 0xC0 ≠ 0 →
      packet[pos + 1]? = some low → Leads packet (target high low) goal → Leads packet pos goal

/-- Some bytes stand at a position up to a byte that differs, which is inside the packet. -/
def Differs (packet : List UInt8) (start : Nat) (bytes : List UInt8) : Prop :=
  ∃ before ch after byte, bytes = before ++ ch :: after ∧ Dns.BytesAt packet start before ∧
    packet[start + before.length]? = some byte ∧ byte ≠ ch

/-- What is compared of a text from a position on is inside the packet: the pointers lead inside of it and not in
a circle to a length, and so do those behind a label that is found to be the same, until a zero or a difference is
met or the text ends. -/
inductive Comparable (packet : List UInt8) : Nat → List UInt8 → Prop where
  | zero {pos goal : Nat} {data : List UInt8} : Leads packet pos goal → pos ≠ goal → packet[goal]? = some 0 →
      Comparable packet pos data
  | length {pos goal : Nat} {data : List UInt8} {n : UInt8} : Leads packet pos goal → packet[goal]? = some n →
      UInt8.ofNat (data.takeWhile (· ≠ DOT)).length ≠ n → Comparable packet pos data
  | differs {pos goal : Nat} {data : List UInt8} {n : UInt8} : Leads packet pos goal → packet[goal]? = some n →
      Differs packet (goal + 1) (data.take n.toNat) → Comparable packet pos data
  | last {pos goal : Nat} {data : List UInt8} {n : UInt8} : Leads packet pos goal → packet[goal]? = some n →
      Dns.BytesAt packet (goal + 1) (data.take n.toNat) → DOT ∉ data → Comparable packet pos data
  | ended {pos goal : Nat} {data : List UInt8} {n : UInt8} : Leads packet pos goal → packet[goal]? = some n →
      Dns.BytesAt packet (goal + 1) (data.take n.toNat) → packet[goal + 1 + n.toNat]? = some 0 →
      Comparable packet pos data
  | more {pos goal : Nat} {data : List UInt8} {n next : UInt8} : Leads packet pos goal →
      packet[goal]? = some n → Dns.BytesAt packet (goal + 1) (data.take n.toNat) →
      packet[goal + 1 + n.toNat]? = some next → next ≠ 0 →
      Comparable packet (goal + 1 + n.toNat) (data.drop (n.toNat + 1)) → Comparable packet pos data

section Compare

variable {packet : List UInt8} {pos goal start fuel : Nat} {data bytes : List UInt8}

theorem sameBytes_true : sameBytes packet start bytes = some true ↔ Dns.BytesAt packet start bytes := by
  induction bytes generalizing start with
  | nil => exact iff_of_true rfl (Dns.bytesAt_nil packet start)
  | cons ch rest ih =>
      rw [Dns.bytesAt_cons, ← ih, sameBytes, Option.bind_eq_bind]
      cases packet[start]? with
      | none => simp
      | some byte => by_cases same : byte = ch <;> simp [same]

theorem sameBytes_false : sameBytes packet start bytes = some false ↔ Differs packet start bytes := by
  induction bytes generalizing start with
  | nil =>
      refine iff_of_false (fun absurd => by cases absurd) ?_
      rintro ⟨before, ch, after, byte, split, -⟩
      exact absurd split (by simp)
  | cons first rest ih =>
      rw [sameBytes, Option.bind_eq_bind]
      constructor
      · intro found
        obtain ⟨byte, here, found⟩ := Option.bind_eq_some_iff.mp found
        split at found
        · rename_i apart
          exact ⟨[], first, rest, byte, rfl, Dns.bytesAt_nil packet start, here, apart⟩
        · rename_i same
          rw [ne_eq, not_not] at same
          obtain ⟨before, ch, after, other, rfl, front, there, apart⟩ := ih.mp found
          refine ⟨first :: before, ch, after, other, rfl, Dns.bytesAt_cons.mpr ⟨same ▸ here, front⟩, ?_, apart⟩
          rw [List.length_cons, ← there, Nat.add_assoc, Nat.add_comm 1]
      · rintro ⟨_ | ⟨head, before⟩, ch, after, byte, split, front, there, apart⟩
        · obtain ⟨rfl, rfl⟩ := List.cons.inj split
          have here : packet[start]? = some byte := there
          rw [here, Option.bind_some, if_pos apart]
        · obtain ⟨rfl, rfl⟩ := List.cons.inj split
          obtain ⟨here, front⟩ := Dns.bytesAt_cons.mp front
          rw [List.length_cons, Nat.add_comm before.length, ← Nat.add_assoc] at there
          rw [here, Option.bind_some, if_neg (not_not_intro rfl)]
          exact ih.mpr ⟨before, ch, after, byte, rfl, front, there, apart⟩

theorem Leads.plain (leads : Leads packet pos goal) : ∃ n, packet[goal]? = some n ∧ n &&& 0xC0 = 0 := by
  induction leads with
  | here here plain => exact ⟨_, here, plain⟩
  | pointer _ _ _ _ ih => exact ih

theorem compareLabelIn_pointer {high low next : UInt8} (here : packet[pos]? = some high)
    (mark : high &&& 0xC0 ≠ 0) (second : packet[pos + 1]? = some low)
    (there : packet[target high low]? = some next) :
    compareLabelIn packet (fuel + 1) pos data =
      if next ≠ 0 then compareLabelIn packet fuel (target high low) data else some true := by
  rw [compareLabelIn, here, Option.bind_eq_bind, Option.bind_some, if_pos mark, second, Option.bind_some, there,
    Option.bind_some]

/-- A comparison goes on where the pointers lead to. -/
theorem Leads.compare (leads : Leads packet pos goal) (data : List UInt8) (apart : pos ≠ goal) :
    (packet[goal]? = some 0 → ∃ fuel, compareLabelIn packet fuel pos data = some true) ∧
      ∀ fuel result, packet[goal]? ≠ some 0 → compareLabelIn packet fuel goal data = some result →
        ∃ fuel, compareLabelIn packet fuel pos data = some result := by
  induction leads with
  | here => exact absurd rfl apart
  | @pointer pos goal high low here mark second leads ih =>
      by_cases direct : target high low = goal
      · subst direct
        obtain ⟨n, there, -⟩ := leads.plain
        refine ⟨fun zero => ⟨1, compareLabelIn_pointer here mark second zero⟩, fun fuel result nonzero found => ?_⟩
        have more : n ≠ 0 := fun zero => nonzero (there.trans (congrArg some zero))
        exact ⟨fuel + 1, by rw [compareLabelIn_pointer here mark second there, if_pos more, found]⟩
      · obtain ⟨zero, other⟩ := ih direct
        obtain ⟨next, there, marked⟩ : ∃ next, packet[target high low]? = some next ∧ next &&& 0xC0 ≠ 0 := by
          cases leads with
          | here _ _ => exact absurd rfl direct
          | pointer there marked _ _ => exact ⟨_, there, marked⟩
        have nonzero : next ≠ 0 := by
          intro none_
          rw [none_] at marked
          exact marked rfl
        refine ⟨fun ends => ?_, fun fuel result more found => ?_⟩
        · obtain ⟨fuel, found⟩ := zero ends
          exact ⟨fuel + 1, by rw [compareLabelIn_pointer here mark second there, if_pos nonzero, found]⟩
        · obtain ⟨fuel, found⟩ := other fuel result more found
          exact ⟨fuel + 1, by rw [compareLabelIn_pointer here mark second there, if_pos nonzero, found]⟩

/-- The comparison of a label, with the one of what is behind it. -/
theorem compareLabelIn_label {n : UInt8} (here : packet[pos]? = some n) (plain : n &&& 0xC0 = 0) :
    compareLabelIn packet (fuel + 1) pos data =
      if UInt8.ofNat (data.takeWhile (· ≠ DOT)).length ≠ n then some false
      else (sameBytes packet (pos + 1) (data.take n.toNat)).bind fun same =>
        if same = false then some false
        else if DOT ∉ data then some true
        else packet[pos + 1 + n.toNat]?.bind fun next =>
          if next ≠ 0 then compareLabelIn packet fuel (pos + 1 + n.toNat) (data.drop (n.toNat + 1))
          else some true := by
  rw [compareLabelIn, here, Option.bind_eq_bind, Option.bind_some, if_neg (not_not_intro plain)]
  rfl

theorem comparable_of_compareLabelIn {result : Bool} (found : compareLabelIn packet fuel pos data = some result) :
    Comparable packet pos data := by
  induction fuel generalizing pos data with
  | zero => cases found
  | succ fuel ih =>
      obtain ⟨n, here, inner⟩ := Option.bind_eq_some_iff.mp found
      by_cases plain : n &&& 0xC0 = 0
      · rw [compareLabelIn_label here plain] at found
        have leads := Leads.here here plain
        split at found
        · rename_i other
          exact .length leads here other
        · obtain ⟨same, compared, found⟩ := Option.bind_eq_some_iff.mp found
          split at found
          · rename_i different
            exact .differs leads here (sameBytes_false.mp (different ▸ compared))
          · rename_i equal
            rw [Bool.not_eq_false] at equal
            have bytes := sameBytes_true.mp (equal ▸ compared)
            split at found
            · rename_i last
              exact .last leads here bytes last
            · obtain ⟨next, there, found⟩ := Option.bind_eq_some_iff.mp found
              by_cases ended : next = 0
              · exact .ended leads here bytes (ended ▸ there)
              · rw [if_pos ended] at found
                exact .more leads here bytes there ended (ih found)
      · rw [if_pos plain] at inner
        obtain ⟨low, second, inner⟩ := Option.bind_eq_some_iff.mp inner
        obtain ⟨next, there, -⟩ := Option.bind_eq_some_iff.mp inner
        rw [compareLabelIn_pointer here plain second there] at found
        have step {goal : Nat} (leads : Leads packet (target n low) goal) : Leads packet pos goal :=
          .pointer here plain second leads
        by_cases ended : next = 0
        · have zero : packet[target n low]? = some 0 := ended ▸ there
          refine .zero (step (.here zero rfl)) ?_ zero
          intro circle
          rw [← circle, here] at zero
          rw [Option.some.inj zero] at plain
          exact plain rfl
        · rw [if_pos ended] at found
          cases ih found with
          | zero leads apart zero =>
              refine .zero (step leads) ?_ zero
              intro circle
              rw [← circle, here] at zero
              rw [Option.some.inj zero] at plain
              exact plain rfl
          | length leads there other => exact .length (step leads) there other
          | differs leads there different => exact .differs (step leads) there different
          | last leads there bytes last => exact .last (step leads) there bytes last
          | ended leads there bytes zero => exact .ended (step leads) there bytes zero
          | more leads there bytes next nonzero rest => exact .more (step leads) there bytes next nonzero rest

/-- Where the label that a comparison has come to is inside, the comparison comes to an end if it does so from the
place behind it. -/
theorem compare_here {n : UInt8} (here : packet[goal]? = some n) (plain : n &&& 0xC0 = 0)
    (label : Differs packet (goal + 1) (data.take n.toNat) ∨ Dns.BytesAt packet (goal + 1) (data.take n.toNat))
    (behind : Dns.BytesAt packet (goal + 1) (data.take n.toNat) → DOT ∈ data →
      ∃ next, packet[goal + 1 + n.toNat]? = some next ∧
        (next ≠ 0 → ∃ fuel result, compareLabelIn packet fuel (goal + 1 + n.toNat) (data.drop (n.toNat + 1)) =
          some result)) :
    ∃ fuel result, compareLabelIn packet fuel goal data = some result := by
  rcases label with different | bytes
  · refine ⟨1, false, ?_⟩
    rw [compareLabelIn_label here plain, sameBytes_false.mpr different]
    split <;> rfl
  · have same := sameBytes_true.mpr bytes
    by_cases dot : DOT ∈ data
    · obtain ⟨next, there, more⟩ := behind bytes dot
      obtain ⟨fuel, result, found⟩ : ∃ fuel result,
          (if next ≠ 0 then compareLabelIn packet fuel (goal + 1 + n.toNat) (data.drop (n.toNat + 1))
            else some true) = some result := by
        by_cases ended : next = 0
        · exact ⟨0, true, if_neg (not_not_intro ended)⟩
        · obtain ⟨fuel, result, found⟩ := more ended
          exact ⟨fuel, result, (if_pos ended).trans found⟩
      refine ⟨fuel + 1, ?_⟩
      rw [compareLabelIn_label here plain]
      split
      · exact ⟨false, rfl⟩
      · rw [same, Option.bind_some, if_neg Bool.false_ne_true.symm, there, Option.bind_some]
        exact ⟨result, found⟩
    · refine ⟨1, ?_⟩
      rw [compareLabelIn_label here plain]
      split
      · exact ⟨false, rfl⟩
      · rw [same, Option.bind_some, if_neg Bool.false_ne_true.symm]
        exact ⟨true, rfl⟩

/-- The end of a comparison, from where the pointers lead to. -/
theorem Leads.ends (leads : Leads packet pos goal) {n : UInt8} (here : packet[goal]? = some n)
    (there : n ≠ 0 ∨ pos = goal → ∃ fuel result, compareLabelIn packet fuel goal data = some result) :
    ∃ fuel result, compareLabelIn packet fuel pos data = some result := by
  by_cases direct : pos = goal
  · obtain ⟨fuel, result, found⟩ := there (.inr direct)
    exact ⟨fuel, result, direct ▸ found⟩
  · obtain ⟨zero, other⟩ := leads.compare data direct
    by_cases ended : n = 0
    · obtain ⟨fuel, found⟩ := zero (ended ▸ here)
      exact ⟨fuel, true, found⟩
    · obtain ⟨fuel, result, found⟩ := there (.inl ended)
      have nonzero : packet[goal]? ≠ some 0 := fun zero => ended (Option.some.inj (here.symm.trans zero))
      obtain ⟨fuel, found⟩ := other fuel result nonzero found
      exact ⟨fuel, result, found⟩

theorem Comparable.ends (comparable : Comparable packet pos data) :
    ∃ fuel result, compareLabelIn packet fuel pos data = some result := by
  have plainAt {pos goal : Nat} {n : UInt8} (leads : Leads packet pos goal) (here : packet[goal]? = some n) :
      n &&& 0xC0 = 0 := by
    obtain ⟨other, there, plain⟩ := leads.plain
    rw [here] at there
    rwa [Option.some.inj there]
  induction comparable with
  | zero leads apart zero =>
      obtain ⟨fuel, found⟩ := (leads.compare _ apart).1 zero
      exact ⟨fuel, true, found⟩
  | length leads here other =>
      refine leads.ends here fun _ => ⟨1, false, ?_⟩
      rw [compareLabelIn_label here (plainAt leads here), if_pos other]
  | differs leads here different =>
      refine leads.ends here fun _ => compare_here here (plainAt leads here) (.inl different) fun bytes _ => ?_
      have equal := sameBytes_true.mpr bytes
      rw [sameBytes_false.mpr different] at equal
      cases equal
  | last leads here bytes last =>
      refine leads.ends here fun _ => compare_here here (plainAt leads here) (.inr bytes) fun _ dot => ?_
      exact absurd dot last
  | ended leads here bytes zero =>
      refine leads.ends here fun _ => compare_here here (plainAt leads here) (.inr bytes) fun _ _ => ?_
      exact ⟨0, zero, fun nonzero => absurd rfl nonzero⟩
  | more leads here bytes there _ _ ih =>
      refine leads.ends here fun _ => compare_here here (plainAt leads here) (.inr bytes) fun _ _ => ?_
      exact ⟨_, there, fun _ => ih⟩

/-- What is right for the two functions: `parse_name` comes to an end inside the packet and behind the name, and
`compare_label` comes to an end inside the packet. -/
theorem parsing_right_iff (packet : List UInt8) (pos : Nat) (data : List UInt8) :
    (ParsesRightly packet pos ↔ Chain packet pos ∧ packet[pos]? ≠ some 0) ∧
      ((∃ fuel result, compareLabelIn packet fuel pos data = some result) ↔ Comparable packet pos data) := by
  refine ⟨parseName_right_iff, ?_, Comparable.ends⟩
  rintro ⟨fuel, result, found⟩
  exact comparable_of_compareLabelIn found

/-- A pointer to itself is followed for ever. -/
theorem compareLabelIn_circle (data : List UInt8) (fuel : Nat) : compareLabelIn [0xC0, 0] fuel 0 data = none := by
  induction fuel with
  | zero => rfl
  | succ fuel ih => exact ih

/-- A name that is only the root is passed over with the byte behind it, and of a pointer that leads to itself
there is no end. -/
theorem root_and_circle :
    (Dns.NameAt [0, 0, 7] 0 [] 1 ∧ parseNameIn [0, 0, 7] 1 0 = some 2 ∧ ¬ParsesRightly [0, 0, 7] 0) ∧
      ∀ fuel, compareLabelIn [0xC0, 0] fuel 0 [104] = none := by
  refine ⟨⟨.root (Dns.bytesAt_cons.mpr ⟨rfl, Dns.bytesAt_nil _ _⟩), rfl, fun right => ?_⟩,
    compareLabelIn_circle [104]⟩
  exact (parseName_right_iff.mp right).2 rfl

end Compare

end Ethersex.Mdns
