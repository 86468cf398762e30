import Mathlib
import Ethersex.Snmp.Model

/-!
# The variables of a request

The parser looks at fixed offsets behind the name of the community, where the list of a request is whose number has
four bytes, and it takes the lengths as they are.  There is nothing by which a request would be rejected.
-/

namespace Ethersex.Snmp

open Library Ber

/-- The entries of bindings that begin at some place. -/
def entries : (place : Nat) → List Binding → List VarBinding
  | _, [] => []
  | place, b :: rest => ⟨UInt8.ofNat b.name.length, place + 4⟩ :: entries (place + b.encode.length) rest

/-- Where the bindings of a message begin. -/
def Message.listStart (m : Message) : Nat := m.community.length + m.id.length + 19

/-- The lengths in a request agree, and these are the entries of its bindings. -/
def Records (request : List UInt8) (binds : List VarBinding) : Prop :=
  ∃ m : Message, m.Consistent ∧ request = m.encode ∧ binds = entries m.listStart m.binds

/-- What is right for a request: it is read to an end, inside of it, and there is an entry for each binding.  As
nothing is rejected, nothing is right for a request whose lengths do not agree. -/
def ParsesRightly (request : List UInt8) : Prop :=
  ∃ fuel pkt buffer, snmpParse fuel request = some (pkt, buffer) ∧ Records request pkt.binds ∧
    pkt.var_count.toNat = pkt.binds.length

section Loops

variable {front : List UInt8} {binds : List Binding} {ptr var_len x : UInt16} {fuel : Nat}

theorem length_entries (place : Nat) (binds : List Binding) : (entries place binds).length = binds.length := by
  induction binds generalizing place with
  | nil => rfl
  | cons b rest ih => rw [entries, List.length_cons, ih, List.length_cons]

theorem toNat_add {a b : UInt16} (small : a.toNat + b.toNat < 65536) : (a + b).toNat = a.toNat + b.toNat := by
  rw [UInt16.toNat_add, Nat.mod_eq_of_lt small]

/-- The place behind a binding. -/
theorem toNat_step {b : Binding} (short : b.content.length < 128) (small : x.toNat + b.encode.length < 65536) :
    (x + (2 + (UInt8.ofNat b.content.length).toUInt16)).toNat = x.toNat + b.encode.length := by
  have size : (2 + (UInt8.ofNat b.content.length).toUInt16).toNat = b.encode.length := by
    have length : (UInt8.ofNat b.content.length).toUInt16.toNat = b.content.length := by
      rw [UInt8.toNat_toUInt16, toNat_length short]
    have two : (2 : UInt16).toNat = 2 := rfl
    rw [toNat_add (by rw [two, length]; omega), two, length, Binding.encode, length_tlv]
    omega
  rw [toNat_add (by rw [size]; exact small), size]

/-- The bytes of a binding at a place. -/
theorem get_binding (front : List UInt8) (b : Binding) (behind : List UInt8) (k : Nat) (inside : k < b.encode.length) :
    (front ++ (b.encode ++ behind))[front.length + k]? = b.encode[k]? := by
  rw [List.getElem?_append_right (Nat.le_add_right ..), Nat.add_sub_cancel_left, List.getElem?_append_left inside]

theorem get_length (front : List UInt8) (b : Binding) (behind : List UInt8) :
    (front ++ (b.encode ++ behind))[front.length + 1]? = some (UInt8.ofNat b.content.length) := by
  rw [get_binding front b behind 1 (by rw [Binding.length_encode]; omega)]
  rfl

theorem get_nameLength (front : List UInt8) (b : Binding) (behind : List UInt8) :
    (front ++ (b.encode ++ behind))[front.length + 3]? = some (UInt8.ofNat b.name.length) := by
  rw [get_binding front b behind 3 (by rw [Binding.length_encode]; omega)]
  rfl

theorem countBindings_run (short : ∀ b ∈ binds, b.content.length < 128)
    (small : front.length + (encodeAll binds).length < 65536) (place : ptr.toNat + x.toNat = front.length + 1)
    (rest : var_len.toNat = x.toNat + (encodeAll binds).length) (enough : binds.length < fuel) (count : UInt8) :
    countBindings (front ++ encodeAll binds) ptr var_len fuel x count = some (count + UInt8.ofNat binds.length) := by
  induction binds generalizing front x fuel count with
  | nil =>
      obtain _ | fuel := fuel
      · cases enough
      have ended : x = var_len := UInt16.toNat_inj.mp rest.symm
      rw [countBindings, if_neg (not_not_intro ended)]
      exact congrArg some (UInt8.add_zero count).symm
  | cons b binds ih =>
      obtain _ | fuel := fuel
      · cases enough
      obtain ⟨first, short⟩ := List.forall_mem_cons.mp short
      rw [encodeAll_cons, List.length_append] at small rest
      have positive := b.length_encode
      have limit := var_len.toNat_lt
      have more : x ≠ var_len := fun ended => by
        rw [ended] at rest
        omega
      have here : (ptr + x).toNat = front.length + 1 := by rw [toNat_add (by omega), place]
      have step := toNat_step first (by omega : x.toNat + b.encode.length < 65536)
      have behind := @ih (front ++ b.encode) (x + (2 + (UInt8.ofNat b.content.length).toUInt16)) fuel short
        (by rw [List.length_append]; omega) (by rw [step, List.length_append]; omega) (by rw [step]; omega)
        (Nat.lt_of_succ_lt_succ enough)
      rw [countBindings, if_pos more, here, encodeAll_cons, get_length, Option.bind_eq_bind, Option.bind_some,
        ← List.append_assoc, behind, List.length_cons, UInt8.ofNat_add, UInt8.add_assoc, UInt8.add_comm 1]
      rfl

theorem storeBindings_run (short : ∀ b ∈ binds, b.content.length < 128)
    (small : front.length + (encodeAll binds).length < 65536) (place : ptr.toNat + x.toNat = front.length + 1)
    (rest : var_len.toNat = x.toNat + (encodeAll binds).length) (enough : binds.length < fuel) :
    storeBindings (front ++ encodeAll binds) ptr var_len fuel x = some (entries front.length binds) := by
  induction binds generalizing front x fuel with
  | nil =>
      obtain _ | fuel := fuel
      · cases enough
      have ended : x = var_len := UInt16.toNat_inj.mp rest.symm
      rw [storeBindings, if_neg (ended ▸ UInt16.lt_irrefl x)]
      rfl
  | cons b binds ih =>
      obtain _ | fuel := fuel
      · cases enough
      obtain ⟨first, short⟩ := List.forall_mem_cons.mp short
      rw [encodeAll_cons, List.length_append] at small rest
      have positive := b.length_encode
      have limit := var_len.toNat_lt
      have more : x < var_len := by
        rw [UInt16.lt_iff_toNat_lt]
        omega
      have here : (ptr + x).toNat = front.length + 1 := by rw [toNat_add (by omega), place]
      have two : (ptr + x + 2).toNat = front.length + 3 := by
        have value : (2 : UInt16).toNat = 2 := rfl
        rw [toNat_add (by rw [here, value]; omega), here, value]
      have three : (ptr + x + 3).toNat = front.length + 4 := by
        have value : (3 : UInt16).toNat = 3 := rfl
        rw [toNat_add (by rw [here, value]; omega), here, value]
      have step := toNat_step first (by omega : x.toNat + b.encode.length < 65536)
      have behind := @ih (front ++ b.encode) (x + (2 + (UInt8.ofNat b.content.length).toUInt16)) fuel short
        (by rw [List.length_append]; omega) (by rw [step, List.length_append]; omega) (by rw [step]; omega)
        (Nat.lt_of_succ_lt_succ enough)
      rw [storeBindings, if_pos more, two, here, three, encodeAll_cons, get_nameLength, get_length, entries,
        ← List.append_assoc, Option.bind_eq_bind, Option.bind_some, Option.bind_eq_bind, Option.bind_some, behind,
        List.length_append]
      rfl

end Loops

/-! ## The fields in front of the variables -/

namespace Message

variable (m : Message)

theorem head_length_eq : m.head.length + 4 + m.id.length + 8 = m.listStart := by
  rw [length_head, listStart]
  omega

/-- What is in front of the bindings. -/
def front : List UInt8 :=
  m.head ++ ([m.type, UInt8.ofNat m.pdu.length, m.idTag, UInt8.ofNat m.id.length] ++ m.id ++ m.middle)

theorem encode_front : m.encode = m.front ++ encodeAll m.binds := by
  simp only [encode_eq, front, List.append_assoc]

theorem length_front : m.front.length = m.listStart := by
  rw [front, List.length_append, List.length_append, List.length_append, ← head_length_eq]
  simp only [middle, List.length_cons, List.length_nil]
  omega

theorem get_head (k : Nat) (inside : k < m.head.length) : m.encode[k]? = m.head[k]? := by
  rw [encode_eq, List.getElem?_append_left inside]

theorem get_pdu (k : Nat) (inside : k < 4) :
    m.encode[m.head.length + k]? = [m.type, UInt8.ofNat m.pdu.length, m.idTag, UInt8.ofNat m.id.length][k]? := by
  rw [encode_eq, List.getElem?_append_right (Nat.le_add_right ..), Nat.add_sub_cancel_left, List.append_assoc,
    List.append_assoc, List.getElem?_append_left inside]

theorem get_middle (k : Nat) (inside : k < 8) :
    m.encode[m.head.length + (4 + m.id.length + k)]? = m.middle[k]? := by
  have size : ([m.type, UInt8.ofNat m.pdu.length, m.idTag, UInt8.ofNat m.id.length] ++ m.id).length =
      4 + m.id.length := by
    rw [List.length_append]
    rfl
  rw [encode_eq, List.getElem?_append_right (Nat.le_add_right ..), Nat.add_sub_cancel_left, List.append_assoc,
    List.getElem?_append_right (by rw [size]; omega), size, Nat.add_sub_cancel_left, List.getElem?_append_left inside]

theorem drop_id : (m.encode.drop (m.head.length + 4)).take m.id.length = m.id := by
  have behind : m.encode.drop (m.head.length + 4) = m.id ++ (m.middle ++ encodeAll m.binds) := by
    rw [encode_eq, ← List.drop_drop, List.drop_left, List.append_assoc, List.append_assoc]
    rfl
  rw [behind, List.take_left]

/-- The request with another type. -/
theorem encode_set (type : UInt8) : m.encode.set m.head.length type = { m with type }.encode := by
  have same : { m with type }.head = m.head := by
    rw [head, head, Message.length_content, Message.length_content]
  rw [encode_eq, encode_eq, same, List.set_append_right _ _ le_rfl, Nat.sub_self]
  rfl

end Message

section Parse

variable {m : Message} {fuel : Nat}

theorem Message.Consistent.length_community (consistent : m.Consistent) : m.community.length < 128 := by
  have := m.length_content
  have := consistent.short
  omega

theorem Message.Consistent.encodeAll_lt (consistent : m.Consistent) : (encodeAll m.binds).length < 128 := by
  have := m.length_content
  have := consistent.short
  omega

theorem length_encode_le {b : Binding} {binds : List Binding} (member : b ∈ binds) :
    b.encode.length ≤ (encodeAll binds).length := by
  obtain ⟨before, behind, rfl⟩ := List.append_of_mem member
  rw [encodeAll, List.flatMap_append, List.flatMap_cons, List.length_append, List.length_append]
  omega

theorem length_binds_le (binds : List Binding) : binds.length ≤ (encodeAll binds).length := by
  induction binds with
  | nil => exact Nat.zero_le _
  | cons b rest ih =>
      rw [encodeAll_cons, List.length_append, Binding.length_encode, List.length_cons]
      omega

theorem Message.Consistent.bindings (consistent : m.Consistent) : ∀ b ∈ m.binds, b.content.length < 128 := by
  intro b member
  have whole := length_encode_le member
  have := consistent.encodeAll_lt
  rw [Binding.encode, length_tlv] at whole
  omega

theorem head_zeroed (m : Message) : { m with type := 0 }.head.length = m.head.length := by
  rw [Message.length_head, Message.length_head]

theorem front_zeroed (m : Message) : { m with type := 0 }.front.length = m.head.length + 12 + m.id.length := by
  have parts := { m with type := 0 }.head_length_eq
  rw [head_zeroed] at parts
  change m.head.length + 4 + m.id.length + 8 = _ at parts
  rw [Message.length_front]
  omega

/-- What the parser reads of a request, from the place of the protocol data on. -/
theorem snmpParse_encode (consistent : m.Consistent) :
    snmpParse fuel m.encode =
      (requestId { m with type := 0 }.encode (m.head.length + 4)).bind fun request_id =>
        { m with type := 0 }.encode[m.head.length + 15]?.bind fun var_len =>
          (countBindings { m with type := 0 }.encode (UInt16.ofNat (m.head.length + 17)) var_len.toUInt16 fuel 0 0).bind
            fun var_count =>
              (storeBindings { m with type := 0 }.encode (UInt16.ofNat (m.head.length + 17)) var_len.toUInt16 fuel
                0).bind fun binds =>
                  some (⟨m.version, 7, m.head.length, m.type, request_id, m.head.length + 14, var_count, binds⟩,
                    { m with type := 0 }.encode) := by
  have headLength := m.length_head
  have version : m.encode[4]? = some m.version := by
    rw [m.get_head 4 (by omega)]
    rfl
  have length : m.encode[6]? = some (UInt8.ofNat m.community.length) := by
    rw [m.get_head 6 (by omega)]
    rfl
  have tmp : (UInt8.ofNat m.community.length).toNat = m.community.length :=
    toNat_length consistent.length_community
  have type : m.encode[m.head.length]? = some m.type := m.get_pdu 0 (by decide)
  have pduPlace : 7 + m.community.length = m.head.length := by omega
  have places (k : Nat) : 6 + (1 + (m.community.length + k)) = m.head.length + k := by omega
  simp only [snmpParse, Nat.reduceAdd, version, length, tmp, Option.bind_eq_bind, Option.bind_some, pduPlace, type,
    m.encode_set 0, Nat.add_assoc, places]
  rfl

/-- A request whose number has four bytes is read as it is. -/
theorem snmpParse_of_four (consistent : m.Consistent) (four : m.id.length = 4) (enough : m.binds.length < fuel) :
    snmpParse fuel m.encode = some (⟨m.version, 7, m.head.length, m.type, m.id, m.head.length + 14,
      UInt8.ofNat m.binds.length, entries m.listStart m.binds⟩, { m with type := 0 }.encode) := by
  have community := consistent.length_community
  have list := consistent.encodeAll_lt
  have headLength := m.length_head
  have front := front_zeroed m
  have split : { m with type := 0 }.encode = { m with type := 0 }.front ++ encodeAll m.binds :=
    { m with type := 0 }.encode_front
  have copied : requestId { m with type := 0 }.encode (m.head.length + 4) = some m.id := by
    have id := { m with type := 0 }.drop_id
    rw [head_zeroed] at id
    change (_ : List UInt8).take m.id.length = m.id at id
    rw [four] at id
    rw [requestId, id, if_pos]
    rw [split, List.length_append, front]
    omega
  have var_len : { m with type := 0 }.encode[m.head.length + 15]? = some (UInt8.ofNat (encodeAll m.binds).length) := by
    have here := { m with type := 0 }.get_middle 7 (by decide)
    rw [head_zeroed] at here
    change { m with type := 0 }.encode[m.head.length + (4 + m.id.length + 7)]? = _ at here
    rw [four] at here
    exact here
  have first : (UInt16.ofNat (m.head.length + 17)).toNat + (0 : UInt16).toNat =
      { m with type := 0 }.front.length + 1 := by
    rw [front, four, UInt16.toNat_ofNat', Nat.mod_eq_of_lt (by omega)]
    rfl
  have small : { m with type := 0 }.front.length + (encodeAll m.binds).length < 65536 := by omega
  have rest : (UInt8.ofNat (encodeAll m.binds).length).toUInt16.toNat =
      (0 : UInt16).toNat + (encodeAll m.binds).length := by
    rw [UInt8.toNat_toUInt16, toNat_length list]
    exact (Nat.zero_add _).symm
  have counted := countBindings_run consistent.bindings small first rest enough 0
  have stored := storeBindings_run consistent.bindings small first rest enough
  have start : { m with type := 0 }.front.length = m.listStart := { m with type := 0 }.length_front
  rw [← split, UInt8.zero_add] at counted
  rw [← split, start] at stored
  rw [snmpParse_encode consistent, copied, Option.bind_some, var_len, Option.bind_some, counted, Option.bind_some,
    stored, Option.bind_some]

/-- The first entry is at a fixed place. -/
theorem storeBindings_first {buffer : List UInt8} {ptr var_len : UInt16} {bind : VarBinding} {rest : List VarBinding}
    (found : storeBindings buffer ptr var_len fuel 0 = some (bind :: rest)) : bind.data = (ptr + 3).toNat := by
  obtain _ | fuel := fuel
  · cases found
  rw [storeBindings] at found
  split at found
  · obtain ⟨len, -, found⟩ := Option.bind_eq_some_iff.mp found
    obtain ⟨n, -, found⟩ := Option.bind_eq_some_iff.mp found
    obtain ⟨behind, -, found⟩ := Option.bind_eq_some_iff.mp found
    cases found
    rw [UInt16.add_zero]
  · cases found

/-- Without variables there is nothing where the size of the list is looked for, unless it is there. -/
theorem binds_ne_nil {var_len : UInt8} (apart : m.id.length < 4)
    (here : { m with type := 0 }.encode[m.head.length + 15]? = some var_len) : m.binds ≠ [] := by
  intro inner
  obtain ⟨inside, -⟩ := List.getElem?_eq_some_iff.mp here
  have length : { m with type := 0 }.encode.length = m.head.length + 12 + m.id.length := by
    have split : { m with type := 0 }.encode = { m with type := 0 }.front ++ encodeAll m.binds :=
      { m with type := 0 }.encode_front
    rw [split, List.length_append, front_zeroed, inner]
    rfl
  omega

/-- Only a request whose number has four bytes is read as it is. -/
theorem four_of_snmpParse {pkt : Packet} {buffer : List UInt8} (consistent : m.Consistent)
    (found : snmpParse fuel m.encode = some (pkt, buffer)) (same : pkt.binds = entries m.listStart m.binds) :
    m.id.length = 4 := by
  have community := consistent.length_community
  have headLength := m.length_head
  have start := m.head_length_eq
  have small := consistent.small
  rw [snmpParse_encode consistent] at found
  obtain ⟨request_id, -, found⟩ := Option.bind_eq_some_iff.mp found
  obtain ⟨var_len, here, found⟩ := Option.bind_eq_some_iff.mp found
  obtain ⟨var_count, -, found⟩ := Option.bind_eq_some_iff.mp found
  obtain ⟨binds, stored, found⟩ := Option.bind_eq_some_iff.mp found
  cases found
  cases inner : m.binds with
  | nil =>
      rcases Nat.lt_or_ge m.id.length 4 with apart | four
      · exact absurd inner (binds_ne_nil apart here)
      · omega
  | cons b rest =>
      rw [inner] at same
      obtain rfl : binds = _ := same
      have place := storeBindings_first stored
      have value : (UInt16.ofNat (m.head.length + 17) + 3).toNat = m.head.length + 20 := by
        have three : (3 : UInt16).toNat = 3 := rfl
        have base : (UInt16.ofNat (m.head.length + 17)).toNat = m.head.length + 17 := by
          rw [UInt16.toNat_ofNat', Nat.mod_eq_of_lt (by omega)]
        rw [toNat_add (by rw [base, three]; omega), base, three]
      rw [value] at place
      change m.listStart + 4 = _ at place
      omega

/-- A request is read rightly just if its lengths agree and its number has four bytes. -/
theorem parsesRightly_iff (request : List UInt8) :
    ParsesRightly request ↔ ∃ m : Message, m.Consistent ∧ m.id.length = 4 ∧ request = m.encode := by
  constructor
  · rintro ⟨fuel, pkt, buffer, found, ⟨m, consistent, rfl, same⟩, -⟩
    exact ⟨m, consistent, four_of_snmpParse consistent found same, rfl⟩
  · rintro ⟨m, consistent, four, rfl⟩
    refine ⟨m.binds.length + 1, _, _, snmpParse_of_four consistent four (Nat.lt_succ_self _), ⟨m, consistent, rfl, rfl⟩,
      ?_⟩
    have few : m.binds.length < 256 := by
      have := length_binds_le m.binds
      have := consistent.encodeAll_lt
      omega
    change (UInt8.ofNat m.binds.length).toNat = (entries m.listStart m.binds).length
    rw [length_entries, UInt8.toNat_ofNat', Nat.mod_eq_of_lt few]

/-- A list that is announced to be longer than it is leads out of the request, and a request with a wrong length is
taken for a right one. -/
theorem wrong_lengths_taken :
    (∀ fuel, snmpParse fuel [0x30, 21, 2, 1, 0, 4, 0, 0xa0, 14, 2, 4, 0, 0, 0, 1, 2, 1, 0, 2, 1, 0, 0x30, 1] = none) ∧
      (∃ pkt, snmpParse 1 [0x30, 99, 2, 1, 0, 4, 0, 0xa0, 14, 2, 4, 0, 0, 0, 1, 2, 1, 0, 2, 1, 0, 0x30, 0] =
        some pkt) ∧
      ¬∃ m : Message, m.Consistent ∧
        [0x30, 99, 2, 1, 0, 4, 0, 0xa0, 14, 2, 4, 0, 0, 0, 1, 2, 1, 0, 2, 1, 0, 0x30, 0] = m.encode := by
  refine ⟨fun fuel => ?_, ⟨_, rfl⟩, ?_⟩
  · obtain _ | fuel := fuel <;> rfl
  · rintro ⟨m, consistent, same⟩
    have size := congrArg List.length same
    have byte := congrArg (fun bytes => bytes[1]?) same
    rw [Message.encode, length_tlv] at size
    have value : (99 : UInt8) = UInt8.ofNat m.content.length := Option.some.inj byte
    have number := congrArg UInt8.toNat value
    rw [toNat_length consistent.short] at number
    have : m.content.length = 21 := (Nat.succ.inj (Nat.succ.inj size)).symm
    rw [this] at number
    cases number

end Parse

end Ethersex.Snmp
