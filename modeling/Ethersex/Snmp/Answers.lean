import Mathlib
import Ethersex.Snmp.Parsing

/-!
# The answer in the packet buffer

The answer keeps what is in front of the list of variables and writes the list at a fixed offset, and then the
lengths around it, each in one byte.
-/

namespace Ethersex.Snmp

open Library Ber

/-- The tags of a message. -/
structure Message.Standard (m : Message) : Prop where
  tag : m.tag = 0x30
  versionTag : m.versionTag = 2
  communityTag : m.communityTag = 4
  idTag : m.idTag = 2
  statusTag : m.statusTag = 2
  indexTag : m.indexTag = 2
  listTag : m.listTag = 0x30
  binds : ∀ b ∈ m.binds, b.tag = 0x30 ∧ b.nameTag = 6

/-- The variable of an object: its name, with what is behind it, and its value. -/
def answerOf (type : Reaction) (data : List UInt8) : Binding where
  tag := 0x30
  nameTag := 6
  name := type.obj_name ++ data
  valueTag := (type.cb data).headD 0
  value := (type.cb data).drop 2

/-- The variables for the objects that are asked for. -/
def answers (reactions : List Reaction) (m : Message) : List Binding :=
  m.binds.filterMap fun b => (interpret m.type b.name reactions).map fun found => answerOf found.1 found.2

/-- The answer to a request. -/
def response (reactions : List Reaction) (m : Message) : Message :=
  { m with type := 0xa2, listTag := 0x30, binds := answers reactions m }

/-- What is right for a request: what is sent is an answer with these variables, the community and the number of the
request, in which each length is that of its content and is expressed by one byte. -/
def AnswersRightly (reactions : List Reaction) (behind : Bytes) (m : Message) : Prop :=
  (∃ fuel, snmpAnswer reactions behind fuel m.encode = some (response reactions m).encode) ∧
    (response reactions m).Consistent ∧ (response reactions m).Standard

/-! ## The buffer -/

/-- A memory begins with some bytes. -/
def Starts (memory : Bytes) (bytes : List UInt8) : Prop := ∀ k byte, bytes[k]? = some byte → memory k = byte

section Buffer

variable {memory : Bytes} {front bytes behind : List UInt8}

theorem put_of_lt (memory : Bytes) {start k : Nat} (before : k < start) (bytes : List UInt8) :
    put start bytes memory k = memory k := if_neg before.not_ge

theorem put_of_ge (memory : Bytes) {start k : Nat} {bytes : List UInt8} (after : start + bytes.length ≤ k) :
    put start bytes memory k = memory k := by
  rw [put, if_pos (by omega), List.getElem?_eq_none (by omega), Option.getD_none]

theorem put_add (memory : Bytes) (start : Nat) {bytes : List UInt8} {k : Nat} {byte : UInt8}
    (here : bytes[k]? = some byte) : put start bytes memory (start + k) = byte := by
  rw [put, if_pos (Nat.le_add_right ..), Nat.add_sub_cancel_left, here, Option.getD_some]

/-- Bytes that are put behind others. -/
theorem Starts.put (starts : Starts memory (front ++ behind)) (bytes : List UInt8) :
    Starts (put front.length bytes memory) (front ++ bytes) := by
  intro k byte here
  rcases Nat.lt_or_ge k front.length with before | after
  · rw [put_of_lt memory before]
    rw [List.getElem?_append_left before] at here
    exact starts k byte (by rw [List.getElem?_append_left before, here])
  · obtain ⟨j, rfl⟩ := Nat.exists_eq_add_of_le after
    rw [List.getElem?_append_right after, Nat.add_sub_cancel_left] at here
    exact put_add memory front.length here

/-- Bytes that are put over as many others. -/
theorem Starts.replace (starts : Starts memory (front ++ bytes ++ behind)) {other : List UInt8}
    (size : other.length = bytes.length) : Starts (Snmp.put front.length other memory) (front ++ other ++ behind) := by
  intro k byte here
  rcases Nat.lt_or_ge k (front.length + bytes.length) with inside | after
  · rw [List.append_assoc] at starts
    refine starts.put other k byte ?_
    rwa [List.getElem?_append_left (by rw [List.length_append]; omega)] at here
  · rw [put_of_ge memory (by omega)]
    refine starts k byte ?_
    rw [← here, List.getElem?_append_right (by rw [List.length_append]; omega),
      List.getElem?_append_right (by rw [List.length_append]; omega), List.length_append, List.length_append, size]

theorem Starts.bytesAt (starts : Starts memory bytes) : bytesAt memory 0 bytes.length = bytes := by
  refine List.ext_getElem (by rw [Snmp.bytesAt, List.length_map, List.length_range]) fun k inside inside' => ?_
  simp only [Snmp.bytesAt, List.getElem_map, List.getElem_range, Nat.zero_add]
  exact starts k _ (List.getElem?_eq_getElem inside')

theorem Starts.name (starts : Starts memory (front ++ bytes ++ behind)) :
    Snmp.bytesAt memory front.length bytes.length = bytes := by
  refine List.ext_getElem (by rw [Snmp.bytesAt, List.length_map, List.length_range]) fun k inside inside' => ?_
  simp only [Snmp.bytesAt, List.getElem_map, List.getElem_range]
  refine starts _ _ ?_
  rw [List.append_assoc, List.getElem?_append_right (Nat.le_add_right ..), Nat.add_sub_cancel_left,
    List.getElem?_append_left inside', List.getElem?_eq_getElem inside']

/-- The names that the entries lead to. -/
theorem map_entries {α : Type} (f : List UInt8 → α) {binds : List Binding}
    (short : ∀ b ∈ binds, b.content.length < 128) (starts : Starts memory (front ++ encodeAll binds)) :
    (entries front.length binds).map (fun bind => f (Snmp.bytesAt memory bind.data bind.len.toNat)) =
      binds.map fun b => f b.name := by
  induction binds generalizing front with
  | nil => rfl
  | cons b rest ih =>
      obtain ⟨first, short⟩ := List.forall_mem_cons.mp short
      rw [encodeAll_cons, ← List.append_assoc] at starts
      have behind := ih short starts
      rw [List.length_append] at behind
      have size : (UInt8.ofNat b.name.length).toNat = b.name.length := by
        rw [Binding.length_content] at first
        exact toNat_length (by omega)
      have parts : front ++ b.encode ++ encodeAll rest =
          front ++ [b.tag, UInt8.ofNat b.content.length, b.nameTag, UInt8.ofNat b.name.length] ++ b.name ++
            (tlv b.valueTag b.value ++ encodeAll rest) := by
        simp only [Binding.encode, Binding.content, tlv, List.append_assoc, List.cons_append, List.nil_append]
      rw [parts] at starts
      have here := starts.name
      rw [List.length_append] at here
      rw [entries, List.map_cons, List.map_cons, behind]
      refine congrArg (· :: _) (congrArg f ?_)
      rw [size]
      exact here

end Buffer

/-! ## The variables of the answer -/

section Assembly

variable {reactions : List Reaction} {type : Reaction} {data : List UInt8} {pdu_type bind_start k : Nat}
  {ptr size : UInt8} {types : List (Option (Reaction × List UInt8))} {memory : Bytes}

theorem interpret_mem {pdu : UInt8} {behind : List UInt8} (found : interpret pdu data reactions = some (type, behind)) :
    type ∈ reactions := by
  induction reactions with
  | nil => cases found
  | cons reaction rest ih =>
      rw [interpret] at found
      generalize (if reaction.obj_name.length > data.length then data.length else reaction.obj_name.length) = cmp_len
        at found
      split at found
      · obtain ⟨other, kind, same⟩ := Option.map_eq_some_iff.mp found
        obtain rfl := (Prod.mk.inj same).1
        split at kind
        · exact List.mem_cons_of_mem _ (List.mem_of_mem_head? kind)
        · cases kind
          exact List.mem_cons_self
      · exact List.mem_cons_of_mem _ (ih found)

theorem stringPgmReaction_tlv (userdata : List UInt8) :
    ∃ tag value, stringPgmReaction userdata = tlv tag value := by
  refine ⟨4, userdata.take (userdata.length % 256), ?_⟩
  have size : (userdata.take (userdata.length % 256)).length = userdata.length % 256 := by
    rw [List.length_take, Nat.min_eq_left (Nat.mod_le ..)]
  have byte : UInt8.ofNat (userdata.length % 256) = UInt8.ofNat userdata.length := by
    rw [← UInt8.toNat_inj, UInt8.toNat_ofNat', UInt8.toNat_ofNat', Nat.mod_mod]
  rw [stringPgmReaction, tlv, size, byte]
  rfl

/-- The reactions append values. -/
theorem cb_tlv (c : Config) (device : Device) (member : type ∈ snmpReactions c device) (data : List UInt8) :
    ∃ tag value, type.cb data = tlv tag value := by
  simp only [snmpReactions, List.mem_append, List.mem_cons, List.not_mem_nil, or_false] at member
  rcases member with ((adc | rfl) | uptime) | rfl | rfl | rfl
  · split at adc
    · obtain rfl := List.mem_singleton.mp adc
      cases data with
      | nil => exact ⟨2, [0, 0], rfl⟩
      | cons channel rest =>
          change ∃ tag value, (if channel < c.ADC_CHANNELS then _ else _) = tlv tag value
          split
          · exact ⟨2, [_, _], rfl⟩
          · exact ⟨2, [0, 0], rfl⟩
    · cases adc
  · exact stringPgmReaction_tlv _
  · split at uptime
    · obtain rfl := List.mem_singleton.mp uptime
      exact ⟨0x43, [_, _, _, _], rfl⟩
    · cases uptime
  · exact stringPgmReaction_tlv _
  · exact stringPgmReaction_tlv _
  · exact stringPgmReaction_tlv _

/-- A variable is assembled as the one for its object. -/
theorem assemble_eq (value : ∃ tag value, type.cb data = tlv tag value) :
    assemble type data = (answerOf type data).encode := by
  obtain ⟨tag, value, same⟩ := value
  have content : (answerOf type data).content.length = 2 + type.obj_name.length + data.length + (value.length + 2) := by
    rw [Binding.length_content, answerOf, same, List.length_append]
    change _ + value.length + 4 = _
    omega
  rw [assemble, Binding.encode, tlv, content, Binding.content, answerOf, same]
  simp only [tlv, List.length_append, List.length_cons, List.headD_cons, List.drop_succ_cons, List.drop_zero,
    List.cons_append, List.nil_append, List.append_assoc]

theorem assembleBindings_cons (rest : List (Option (Reaction × List UInt8))) :
    assembleBindings pdu_type ptr bind_start size (some (type, data) :: rest) memory =
      assembleBindings pdu_type (ptr + 1) (bind_start + (((assemble type data).getD 1 0).toNat + 2))
        (size + ((assemble type data).getD 1 0 + 2)) rest (put bind_start (assemble type data) memory) := rfl

theorem length_byte (b : Binding) : b.encode.getD 1 0 = UInt8.ofNat b.content.length := rfl

theorem put_of_ne (memory : Bytes) {start k : Nat} (apart : k ≠ start) (byte : UInt8) :
    put start [byte] memory k = memory k := by
  rcases Nat.lt_or_ge k start with before | after
  · exact put_of_lt memory before _
  · exact put_of_ge memory (by rw [List.length_singleton]; omega)

theorem put_self (memory : Bytes) (start : Nat) (byte : UInt8) : put start [byte] memory start = byte :=
  put_add memory start (k := 0) rfl

/-- The variables are put one behind the other. -/
theorem Starts.assemble (pdu_type : Nat) (ptr size : UInt8) {front behind : List UInt8} {binds : List Binding}
    {found : List (Reaction × List UInt8)} (same : found.map (fun p => Snmp.assemble p.1 p.2) =
    binds.map Binding.encode) (short : ∀ b ∈ binds, b.content.length < 128) (starts : Starts memory (front ++ behind)) :
    (assembleBindings pdu_type ptr front.length size (found.map some) memory).1 =
        size + UInt8.ofNat (encodeAll binds).length ∧
      Starts (assembleBindings pdu_type ptr front.length size (found.map some) memory).2
        (front ++ encodeAll binds) := by
  induction binds generalizing found front behind ptr size memory with
  | nil =>
      obtain rfl := List.map_eq_nil_iff.mp same
      refine ⟨(UInt8.add_zero size).symm, fun k byte here => starts k byte ?_⟩
      rw [encodeAll, List.flatMap_nil, List.append_nil] at here
      obtain ⟨inside, -⟩ := List.getElem?_eq_some_iff.mp here
      rw [List.getElem?_append_left inside, here]
  | cons b rest ih =>
      obtain _ | ⟨⟨type, data⟩, others⟩ := found
      · cases same
      obtain ⟨first, same⟩ := List.cons.inj same
      obtain ⟨small, short⟩ := List.forall_mem_cons.mp short
      have written := starts.put b.encode
      rw [← List.append_nil (front ++ b.encode)] at written
      obtain ⟨counted, whole⟩ := ih (ptr + 1) (size + (UInt8.ofNat b.content.length + 2)) same short written
      have next : front.length + (b.content.length + 2) = (front ++ b.encode).length := by
        rw [List.length_append, Binding.encode, length_tlv]
      change Snmp.assemble type data = b.encode at first
      rw [List.map_cons, assembleBindings_cons, first, length_byte, toNat_length small, next]
      refine ⟨counted.trans ?_, ?_⟩
      · rw [encodeAll_cons, List.length_append, UInt8.ofNat_add, UInt8.add_assoc, Binding.encode, length_tlv,
          UInt8.ofNat_add]
        rfl
      · rw [encodeAll_cons, ← List.append_assoc]
        exact whole

/-- What is in front of the variables is kept, but for the bytes of an error. -/
theorem assembleBindings_of_lt (before : k < bind_start) (status : k ≠ pdu_type + 10) (index : k ≠ pdu_type + 13) :
    (assembleBindings pdu_type ptr bind_start size types memory).2 k = memory k := by
  induction types generalizing ptr bind_start size memory with
  | nil => rfl
  | cons found rest ih =>
      cases found with
      | none =>
          change put (pdu_type + 13) [ptr] (put (pdu_type + 10) [2] memory) k = _
          rw [put_of_ne _ index, put_of_ne _ status]
      | some p =>
          obtain ⟨type, data⟩ := p
          rw [assembleBindings_cons, ih (by omega), put_of_lt memory before]

/-- Either a variable is written, or the list is left empty. -/
theorem assembleBindings_first (outside : pdu_type + 13 < bind_start) :
    (assembleBindings pdu_type ptr bind_start 0 types memory).1 = 0 ∨
      (assembleBindings pdu_type ptr bind_start 0 types memory).2 bind_start = 0x30 := by
  obtain _ | ⟨_ | ⟨type, data⟩, rest⟩ := types
  · exact .inl rfl
  · exact .inl rfl
  · right
    rw [assembleBindings_cons, assembleBindings_of_lt (by omega) (by omega) (by omega)]
    exact put_add memory bind_start (k := 0) rfl

end Assembly

/-! ## The whole answer -/

/-- The bytes of a message, with the lengths that are written into them. -/
def frame (m : Message) (type listTag total pdu size : UInt8) (list : List UInt8) : List UInt8 :=
  [m.tag, total, m.versionTag, 1, m.version, m.communityTag, UInt8.ofNat m.community.length] ++ m.community ++
    [type, pdu, m.idTag, UInt8.ofNat m.id.length] ++ m.id ++
    [m.statusTag, 1, m.status, m.indexTag, 1, m.index, listTag, size] ++ list

theorem Message.encode_frame (m : Message) :
    m.encode = frame m m.type m.listTag (UInt8.ofNat m.content.length) (UInt8.ofNat m.pdu.length)
      (UInt8.ofNat (encodeAll m.binds).length) (encodeAll m.binds) := by
  simp only [Message.encode_eq, frame, Message.head, Message.middle, List.append_assoc]

section Frame

variable {m : Message} {type listTag total pdu size : UInt8} {list : List UInt8} {memory : Bytes}

/-- The type of the protocol data is replaced. -/
theorem Starts.frame_type (starts : Starts memory (frame m type listTag total pdu size list)) (other : UInt8) :
    Starts (Snmp.put m.head.length [other] memory) (frame m other listTag total pdu size list) := by
  have split (byte : UInt8) : frame m byte listTag total pdu size list =
      [m.tag, total, m.versionTag, 1, m.version, m.communityTag, UInt8.ofNat m.community.length] ++ m.community ++
        [byte] ++ ([pdu, m.idTag, UInt8.ofNat m.id.length] ++ m.id ++
          [m.statusTag, 1, m.status, m.indexTag, 1, m.index, listTag, size] ++ list) := by
    simp only [frame, List.append_assoc, List.cons_append, List.nil_append]
  rw [split] at starts ⊢
  have place : ([m.tag, total, m.versionTag, 1, m.version, m.communityTag, UInt8.ofNat m.community.length] ++
      m.community).length = m.head.length := by
    rw [Message.length_head, List.length_append, Nat.add_comm]
    rfl
  rw [← place]
  exact starts.replace rfl

/-- The length of the protocol data is replaced. -/
theorem Starts.frame_pdu (starts : Starts memory (frame m type listTag total pdu size list)) (other : UInt8) :
    Starts (Snmp.put (m.head.length + 1) [other] memory) (frame m type listTag total other size list) := by
  have split (byte : UInt8) : frame m type listTag total byte size list =
      [m.tag, total, m.versionTag, 1, m.version, m.communityTag, UInt8.ofNat m.community.length] ++ m.community ++
        [type] ++ [byte] ++ ([m.idTag, UInt8.ofNat m.id.length] ++ m.id ++
          [m.statusTag, 1, m.status, m.indexTag, 1, m.index, listTag, size] ++ list) := by
    simp only [frame, List.append_assoc, List.cons_append, List.nil_append]
  rw [split] at starts ⊢
  have place : ([m.tag, total, m.versionTag, 1, m.version, m.communityTag, UInt8.ofNat m.community.length] ++
      m.community ++ [type]).length = m.head.length + 1 := by
    rw [Message.length_head, List.length_append, List.length_append, Nat.add_comm _ m.community.length]
    rfl
  rw [← place]
  exact starts.replace rfl

/-- The length of the whole message is replaced. -/
theorem Starts.frame_total (starts : Starts memory (frame m type listTag total pdu size list)) (other : UInt8) :
    Starts (Snmp.put 1 [other] memory) (frame m type listTag other pdu size list) := by
  have split (byte : UInt8) : frame m type listTag byte pdu size list =
      [m.tag] ++ [byte] ++ ([m.versionTag, 1, m.version, m.communityTag, UInt8.ofNat m.community.length] ++
        m.community ++ [type, pdu, m.idTag, UInt8.ofNat m.id.length] ++ m.id ++
          [m.statusTag, 1, m.status, m.indexTag, 1, m.index, listTag, size] ++ list) := by
    simp only [frame, List.append_assoc, List.cons_append, List.nil_append]
  rw [split] at starts ⊢
  exact @Starts.replace _ [m.tag] _ _ starts [other] rfl

theorem frame_list (m : Message) (type listTag total pdu size : UInt8) (list : List UInt8) :
    frame m type listTag total pdu size list = frame m type listTag total pdu size [] ++ list := by
  rw [frame, frame, List.append_nil]

theorem length_frame : (frame m type listTag total pdu size []).length = m.head.length + 12 + m.id.length := by
  simp only [frame, List.length_append, List.length_cons, List.length_nil, Message.length_head]
  omega

/-- The size of the list is replaced. -/
theorem Starts.frame_size (starts : Starts memory (frame m type listTag total pdu size list)) (other : UInt8) :
    Starts (Snmp.put (m.head.length + 11 + m.id.length) [other] memory)
      (frame m type listTag total pdu other list) := by
  have split (byte : UInt8) : frame m type listTag total pdu byte list =
      [m.tag, total, m.versionTag, 1, m.version, m.communityTag, UInt8.ofNat m.community.length] ++ m.community ++
        [type, pdu, m.idTag, UInt8.ofNat m.id.length] ++ m.id ++
          [m.statusTag, 1, m.status, m.indexTag, 1, m.index, listTag] ++ [byte] ++ list := by
    simp only [frame, List.append_assoc, List.cons_append, List.nil_append]
  rw [split] at starts ⊢
  have place : ([m.tag, total, m.versionTag, 1, m.version, m.communityTag, UInt8.ofNat m.community.length] ++
      m.community ++ [type, pdu, m.idTag, UInt8.ofNat m.id.length] ++ m.id ++
        [m.statusTag, 1, m.status, m.indexTag, 1, m.index, listTag]).length = m.head.length + 11 + m.id.length := by
    simp only [List.length_append, List.length_cons, List.length_nil, Message.length_head]
    omega
  rw [← place]
  exact starts.replace rfl

/-- The list is begun again. -/
theorem Starts.frame_start (starts : Starts memory (frame m type listTag total pdu size list)) :
    Starts (Snmp.put (m.head.length + 10 + m.id.length) [0x30, 0] memory) (frame m type 0x30 total pdu 0 []) := by
  have split (tag byte : UInt8) (list : List UInt8) : frame m type tag total pdu byte list =
      [m.tag, total, m.versionTag, 1, m.version, m.communityTag, UInt8.ofNat m.community.length] ++ m.community ++
        [type, pdu, m.idTag, UInt8.ofNat m.id.length] ++ m.id ++
          [m.statusTag, 1, m.status, m.indexTag, 1, m.index] ++ ([tag, byte] ++ list) := by
    simp only [frame, List.append_assoc, List.cons_append, List.nil_append]
  rw [split] at starts ⊢
  have place : ([m.tag, total, m.versionTag, 1, m.version, m.communityTag, UInt8.ofNat m.community.length] ++
      m.community ++ [type, pdu, m.idTag, UInt8.ofNat m.id.length] ++ m.id ++
        [m.statusTag, 1, m.status, m.indexTag, 1, m.index]).length = m.head.length + 10 + m.id.length := by
    simp only [List.length_append, List.length_cons, List.length_nil, Message.length_head]
    omega
  rw [← place, List.append_nil]
  exact starts.put [0x30, 0]

end Frame

section Answer

variable {reactions : List Reaction} {behind : Bytes} {m : Message} {fuel : Nat}

/-- An object is found for each name. -/
def Known (reactions : List Reaction) (m : Message) : Prop :=
  ∀ b ∈ m.binds, interpret m.type b.name reactions ≠ none

/-- The objects that are found. -/
def objectsOf (reactions : List Reaction) (m : Message) : List (Reaction × List UInt8) :=
  m.binds.filterMap fun b => interpret m.type b.name reactions

theorem map_of_forall_ne_none {α β : Type} {f : α → Option β} {l : List α} (known : ∀ a ∈ l, f a ≠ none) :
    l.map f = (l.filterMap f).map some := by
  induction l with
  | nil => rfl
  | cons a rest ih =>
      obtain ⟨first, known⟩ := List.forall_mem_cons.mp known
      obtain ⟨found, here⟩ := Option.ne_none_iff_exists'.mp first
      rw [List.map_cons, List.filterMap_cons, here, ih known]
      rfl

theorem answers_eq : answers reactions m = (objectsOf reactions m).map fun found => answerOf found.1 found.2 := by
  rw [answers, objectsOf, List.map_filterMap]

theorem map_assemble (values : ∀ type ∈ reactions, ∀ data, ∃ tag value, type.cb data = tlv tag value) :
    (objectsOf reactions m).map (fun p => assemble p.1 p.2) = (answers reactions m).map Binding.encode := by
  rw [answers_eq, List.map_map]
  refine List.map_congr_left fun found member => ?_
  obtain ⟨b, -, here⟩ := List.mem_filterMap.mp member
  exact assemble_eq (values found.1 (interpret_mem here) found.2)

/-- The answer to a request whose number has four bytes. -/
theorem snmpAnswer_of_four (consistent : m.Consistent) (four : m.id.length = 4) (known : Known reactions m)
    (values : ∀ type ∈ reactions, ∀ data, ∃ tag value, type.cb data = tlv tag value)
    (fits : (response reactions m).Consistent) :
    ∃ fuel, snmpAnswer reactions behind fuel m.encode = some (response reactions m).encode := by
  refine ⟨m.binds.length + 1, ?_⟩
  rw [snmpAnswer, snmpParse_of_four consistent four (Nat.lt_succ_self _), Option.map_some]
  refine congrArg some ?_
  obtain ⟨memory, memory_eq⟩ : ∃ memory : Bytes, memory = fun k => ({ m with type := 0 }.encode[k]?).getD (behind k) :=
    ⟨_, rfl⟩
  have starts : Starts memory { m with type := 0 }.encode := fun k byte here => by
    rw [memory_eq]
    simp only [here, Option.getD_some]
  have types : (entries m.listStart m.binds).map
      (fun bind => interpret m.type (bytesAt memory bind.data bind.len.toNat) reactions) =
        (objectsOf reactions m).map some := by
    rw [objectsOf, ← map_of_forall_ne_none known]
    have front := { m with type := 0 }.encode_front
    rw [front] at starts
    have found := map_entries (fun name => interpret m.type name reactions) consistent.bindings starts
    rw [Message.length_front] at found
    exact found
  rw [Message.encode_frame] at starts
  have begun := (starts.frame_type (m := m) 0xa2).frame_start
  have before : m.head.length + 10 + m.id.length = m.head.length + 14 := by omega
  have inside : m.head.length + 11 + m.id.length = m.head.length + 15 := by omega
  have after : m.head.length + 12 + m.id.length = m.head.length + 16 := by omega
  rw [before, ← List.append_nil (frame m _ _ _ _ _ [])] at begun
  obtain ⟨counted, written⟩ := begun.assemble m.head.length 0 0 (map_assemble values) fits.bindings
  rw [length_frame, after] at counted written
  rw [← frame_list] at written
  have sized := written.frame_size (UInt8.ofNat (encodeAll (answers reactions m)).length)
  have whole := (sized.frame_pdu (UInt8.ofNat (encodeAll (answers reactions m)).length + 14)).frame_total
    (UInt8.ofNat m.head.length + (UInt8.ofNat (encodeAll (answers reactions m)).length + 14))
  rw [inside] at whole
  have size : (response reactions m).pdu.length = (encodeAll (answers reactions m)).length + 14 := by
    rw [Message.length_pdu]
    change m.id.length + (encodeAll (answers reactions m)).length + 10 = _
    omega
  have total : (response reactions m).content.length = m.head.length + ((encodeAll (answers reactions m)).length + 14) := by
    rw [Message.length_content, Message.length_head]
    change m.community.length + m.id.length + (encodeAll (answers reactions m)).length + 17 = _
    omega
  have same : (response reactions m).encode = frame m 0xa2 0x30
      (UInt8.ofNat m.head.length + (UInt8.ofNat (encodeAll (answers reactions m)).length + 14))
      (UInt8.ofNat (encodeAll (answers reactions m)).length + 14)
      (UInt8.ofNat (encodeAll (answers reactions m)).length) (encodeAll (answers reactions m)) := by
    rw [Message.encode_frame, total, size, UInt8.ofNat_add, UInt8.ofNat_add]
    rfl
  rw [← same] at whole
  have length : (UInt8.ofNat m.head.length + (UInt8.ofNat (encodeAll (answers reactions m)).length + 14)).toNat + 2 =
      (response reactions m).encode.length := by
    rw [Message.encode, length_tlv, ← toNat_length fits.short, total, UInt8.ofNat_add, UInt8.ofNat_add]
    rfl
  have read := whole.bytesAt
  rw [← length] at read
  rw [UInt8.zero_add] at counted
  simp only [assembleAnswer, ← memory_eq, types, Nat.add_assoc, Nat.reduceAdd, counted]
  exact read

theorem starts_of_bytesAt {memory : Bytes} {count : Nat} {bytes : List UInt8} (same : bytesAt memory 0 count = bytes) :
    Starts memory bytes := by
  rintro k byte here
  rw [← same, bytesAt, List.getElem?_map] at here
  obtain ⟨j, index, rfl⟩ := Option.map_eq_some_iff.mp here
  obtain ⟨inside, rfl⟩ := List.getElem?_eq_some_iff.mp index
  rw [List.getElem_range, Nat.zero_add]

/-- What is written at the beginning of the list, whatever is in the request. -/
theorem assembleAnswer_list {pkt : Packet} {request : List UInt8} {place : Nat} {memory : Bytes}
    (same : (assembleAnswer reactions behind pkt request).2 = memory) (start : pkt.varbind_start = place + 14)
    (pdu : pkt.pdu_type = place) (positive : 0 < place) :
    memory (place + 14) = 0x30 ∧ (memory (place + 15) = 0 ∨ memory (place + 16) = 0x30) := by
  simp only [assembleAnswer, start, pdu, Nat.add_assoc, Nat.reduceAdd] at same
  rw [← same]
  refine ⟨?_, ?_⟩
  · rw [put_of_ne _ (by omega), put_of_ne _ (by omega), put_of_ne _ (by omega),
      assembleBindings_of_lt (by omega) (by omega) (by omega)]
    exact put_add _ (place + 14) (k := 0) rfl
  · rw [put_of_ne _ (by omega), put_of_ne _ (by omega), put_self, put_of_ne _ (by omega), put_of_ne _ (by omega),
      put_of_ne _ (by omega)]
    exact assembleBindings_first (by omega)

theorem toNat_ofNat_eq {n : Nat} {byte : UInt8} (same : UInt8.ofNat n = byte) (small : n < 256) : n = byte.toNat := by
  rw [← same, UInt8.toNat_ofNat', Nat.mod_eq_of_lt small]

/-- Only a request whose number has four bytes is answered as it should be. -/
theorem four_of_snmpAnswer (consistent : m.Consistent) (known : Known reactions m)
    (fits : (response reactions m).Consistent)
    (found : snmpAnswer reactions behind fuel m.encode = some (response reactions m).encode) : m.id.length = 4 := by
  obtain ⟨⟨pkt, buffer⟩, parsed, sent⟩ := Option.map_eq_some_iff.mp found
  have starts := starts_of_bytesAt sent
  rw [snmpParse_encode consistent] at parsed
  obtain ⟨request_id, -, parsed⟩ := Option.bind_eq_some_iff.mp parsed
  obtain ⟨var_len, here, parsed⟩ := Option.bind_eq_some_iff.mp parsed
  obtain ⟨var_count, -, parsed⟩ := Option.bind_eq_some_iff.mp parsed
  obtain ⟨binds, -, parsed⟩ := Option.bind_eq_some_iff.mp parsed
  obtain ⟨rfl, rfl⟩ := Prod.mk.inj (Option.some.inj parsed)
  have headLength := m.length_head
  generalize written : (assembleAnswer reactions behind _ _).2 = memory at starts
  obtain ⟨thirty, size⟩ := assembleAnswer_list written rfl rfl (by omega)
  have small := consistent.small
  by_contra apart
  obtain ⟨a, rest, inner⟩ : ∃ a rest, answers reactions m = a :: rest := by
    refine List.exists_cons_of_ne_nil fun none => ?_
    have count := congrArg List.length (map_of_forall_ne_none known)
    rw [answers_eq, List.map_eq_nil_iff] at none
    rw [← objectsOf, none, List.length_map] at count
    exact binds_ne_nil (by omega) here (List.eq_nil_of_length_eq_zero count)
  have member : a ∈ answers reactions m := inner ▸ List.mem_cons_self
  obtain ⟨tag, nameTag⟩ : a.tag = 0x30 ∧ a.nameTag = 6 := by
    rw [answers_eq] at member
    obtain ⟨object, -, rfl⟩ := List.mem_map.mp member
    exact ⟨rfl, rfl⟩
  have front : (response reactions m).front.length = m.head.length + 12 + m.id.length := by
    rw [Message.length_front, Message.listStart, headLength]
    change m.community.length + m.id.length + 19 = _
    omega
  have split : (response reactions m).encode = (response reactions m).front ++ (a.encode ++ encodeAll rest) := by
    rw [Message.encode_front, ← encodeAll_cons, ← inner]
    rfl
  have content := a.length_content
  have shortFirst : a.content.length < 128 := fits.bindings a member
  have shortList : (encodeAll (answers reactions m)).length < 128 := fits.encodeAll_lt
  have list : (encodeAll (answers reactions m)).length = a.content.length + 2 + (encodeAll rest).length := by
    rw [inner, encodeAll_cons, List.length_append, Binding.encode, length_tlv]
  have byte (k : Nat) (inside : k < a.encode.length) {value : UInt8} (there : a.encode[k]? = some value) :
      memory (m.head.length + 12 + m.id.length + k) = value := by
    refine starts _ _ ?_
    rw [split, ← front, get_binding _ a _ k inside, there]
  have encoded := a.length_encode
  have first := byte 0 (by omega) rfl
  have length := byte 1 (by omega) rfl
  have name := byte 2 (by omega) rfl
  have nameLength := byte 3 (by omega) rfl
  have listLength : memory (m.head.length + (4 + m.id.length + 7)) =
      UInt8.ofNat (encodeAll (answers reactions m)).length := by
    refine starts _ _ ?_
    have sameHead : (response reactions m).head.length = m.head.length := by
      rw [Message.length_head, headLength]
      rfl
    have there := (response reactions m).get_middle 7 (by decide)
    rw [sameHead] at there
    exact there
  obtain one | two | three : m.id.length = 1 ∨ m.id.length = 2 ∨ m.id.length = 3 := by
    have := consistent.positive
    omega
  · rw [one] at length name nameLength
    have value := toNat_ofNat_eq (length.symm.trans thirty) (by omega)
    rcases size with zero | again
    · rw [zero, nameTag] at name
      cases name
    · have := toNat_ofNat_eq (nameLength.symm.trans again) (by omega)
      change a.content.length = 48 at value
      change a.name.length = 48 at this
      omega
  · rw [two] at length name
    rcases size with zero | again
    · have value := toNat_ofNat_eq (length.symm.trans zero) (by omega)
      change a.content.length = 0 at value
      omega
    · rw [nameTag] at name
      have absurd := name.symm.trans again
      cases absurd
  · rw [three] at first length listLength
    have value := toNat_ofNat_eq (listLength.symm.trans thirty) (by omega)
    rcases size with zero | again
    · rw [tag] at first
      have absurd := first.symm.trans zero
      cases absurd
    · have := toNat_ofNat_eq (length.symm.trans again) (by omega)
      change (encodeAll (answers reactions m)).length = 48 at value
      change a.content.length = 48 at this
      omega

theorem Message.Standard.response (standard : m.Standard) : (response reactions m).Standard := by
  refine ⟨standard.tag, standard.versionTag, standard.communityTag, standard.idTag, standard.statusTag,
    standard.indexTag, rfl, fun b member => ?_⟩
  change b ∈ answers reactions m at member
  rw [answers_eq] at member
  obtain ⟨object, -, rfl⟩ := List.mem_map.mp member
  exact ⟨rfl, rfl⟩

theorem length_response : (response reactions m).content.length =
    m.community.length + m.id.length + (encodeAll (answers reactions m)).length + 17 :=
  Message.length_content _

end Answer

/-- A request that names objects is answered as it should be just if its number has four bytes and all of the answer
behind its first length byte has less than 128. -/
theorem snmpAnswer_right_iff (c : Config) (device : Device) (behind : Bytes) {m : Message} (consistent : m.Consistent)
    (standard : m.Standard) (known : Known (snmpReactions c device) m) :
    AnswersRightly (snmpReactions c device) behind m ↔ m.id.length = 4 ∧
      m.community.length +
        ((answers (snmpReactions c device) m).map fun b => b.name.length + b.value.length + 6).sum ≤ 106 := by
  rw [← length_encodeAll]
  have size := @length_response (snmpReactions c device) m
  constructor
  · rintro ⟨⟨fuel, found⟩, fits, -⟩
    have four := four_of_snmpAnswer consistent known fits found
    have := fits.short
    omega
  · rintro ⟨four, few⟩
    have fits : (response (snmpReactions c device) m).Consistent := ⟨consistent.positive, consistent.small, by omega⟩
    exact ⟨snmpAnswer_of_four consistent four known (fun type member => cb_tlv c device member) fits, fits,
      standard.response⟩

/-- A request for the description of the system. -/
def descriptionRequest (id : List UInt8) : Message where
  tag := 0x30
  versionTag := 2
  version := 0
  communityTag := 4
  community := [112, 117, 98]
  type := 0xa0
  idTag := 2
  id := id
  statusTag := 2
  status := 0
  indexTag := 2
  index := 0
  listTag := 0x30
  binds := [⟨0x30, 6, [0x2b, 0x06, 0x01, 0x02, 0x01, 0x01, 0x01], 5, []⟩]

theorem standard_descriptionRequest (id : List UInt8) : (descriptionRequest id).Standard := by
  refine ⟨rfl, rfl, rfl, rfl, rfl, rfl, rfl, fun b member => ?_⟩
  obtain rfl := List.mem_singleton.mp member
  exact ⟨rfl, rfl⟩

theorem consistent_descriptionRequest {id : List UInt8} (positive : 1 ≤ id.length) (small : id.length ≤ 4) :
    (descriptionRequest id).Consistent := by
  refine ⟨positive, small, ?_⟩
  rw [Message.length_content]
  change 3 + id.length + 13 + 17 < 128
  omega

/-- A device with a description and without more objects than needed. -/
def smallDevice : Config := ⟨false, false, [69], [], [], [], 0⟩

theorem known_descriptionRequest (device : Device) (id : List UInt8) :
    Known (snmpReactions smallDevice device) (descriptionRequest id) := by
  intro b member
  obtain rfl := List.mem_singleton.mp member
  exact Option.some_ne_none _

theorem snmpAnswer_right_description :
    AnswersRightly (snmpReactions smallDevice ⟨0, 0, fun _ => 0⟩) (fun _ => 0) (descriptionRequest [0, 0, 0, 1]) ↔
      (descriptionRequest [0, 0, 0, 1]).id.length = 4 ∧
        (descriptionRequest [0, 0, 0, 1]).community.length +
          ((answers (snmpReactions smallDevice ⟨0, 0, fun _ => 0⟩) (descriptionRequest [0, 0, 0, 1])).map fun b =>
            b.name.length + b.value.length + 6).sum ≤ 106 :=
  snmpAnswer_right_iff smallDevice ⟨0, 0, fun _ => 0⟩ (fun _ => 0)
    (consistent_descriptionRequest (by decide) (by decide)) (standard_descriptionRequest _)
    (known_descriptionRequest _ _)

/-- The same request with a number of one byte is not answered as it should be. -/
theorem short_number_not_answered :
    (descriptionRequest [1]).Consistent ∧ (descriptionRequest [1]).Standard ∧
      Known (snmpReactions smallDevice ⟨0, 0, fun _ => 0⟩) (descriptionRequest [1]) ∧
      ¬AnswersRightly (snmpReactions smallDevice ⟨0, 0, fun _ => 0⟩) (fun _ => 0) (descriptionRequest [1]) := by
  have consistent : (descriptionRequest [1]).Consistent := consistent_descriptionRequest (by decide) (by decide)
  have known := known_descriptionRequest ⟨0, 0, fun _ => 0⟩ [1]
  refine ⟨consistent, standard_descriptionRequest _, known, ?_⟩
  rintro ⟨⟨fuel, found⟩, fits, -⟩
  have four := four_of_snmpAnswer consistent known fits found
  cases four

end Ethersex.Snmp
