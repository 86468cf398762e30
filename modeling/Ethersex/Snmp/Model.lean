import Mathlib
import Ethersex.Library.TagLength
import Ethersex.Library.Bytes

/-!
# Messages

A message is an encoding of values in one another, whose lengths agree because each one is that of its content.  The
version, the error status and the error index are numbers of one byte.
-/

namespace Ethersex.Snmp

open Library Ber

/-- A name and a value, with their tags. -/
structure Binding where
  tag : UInt8
  nameTag : UInt8
  name : List UInt8
  valueTag : UInt8
  value : List UInt8

namespace Binding

def content (b : Binding) : List UInt8 := tlv b.nameTag b.name ++ tlv b.valueTag b.value

def encode (b : Binding) : List UInt8 := tlv b.tag b.content

theorem length_content (b : Binding) : b.content.length = b.name.length + b.value.length + 4 := by
  rw [content, List.length_append, length_tlv, length_tlv]
  omega

theorem length_encode (b : Binding) : b.encode.length = b.name.length + b.value.length + 6 := by
  rw [encode, length_tlv, length_content]

end Binding

/-- The bindings one behind the other. -/
def encodeAll (binds : List Binding) : List UInt8 := binds.flatMap Binding.encode

theorem encodeAll_cons (b : Binding) (binds : List Binding) : encodeAll (b :: binds) = b.encode ++ encodeAll binds :=
  List.flatMap_cons

theorem length_encodeAll (binds : List Binding) :
    (encodeAll binds).length = (binds.map fun b => b.name.length + b.value.length + 6).sum := by
  rw [encodeAll, List.length_flatMap]
  simp only [Binding.length_encode]

/-- A request or an answer, with the tags of its parts. -/
structure Message where
  tag : UInt8
  versionTag : UInt8
  version : UInt8
  communityTag : UInt8
  community : List UInt8
  type : UInt8
  idTag : UInt8
  id : List UInt8
  statusTag : UInt8
  status : UInt8
  indexTag : UInt8
  index : UInt8
  listTag : UInt8
  binds : List Binding

namespace Message

def pdu (m : Message) : List UInt8 :=
  tlv m.idTag m.id ++ tlv m.statusTag [m.status] ++ tlv m.indexTag [m.index] ++ tlv m.listTag (encodeAll m.binds)

def content (m : Message) : List UInt8 :=
  tlv m.versionTag [m.version] ++ tlv m.communityTag m.community ++ tlv m.type m.pdu

def encode (m : Message) : List UInt8 := tlv m.tag m.content

/-- The number of the request has one to four bytes, and each length is expressed by one byte. -/
structure Consistent (m : Message) : Prop where
  positive : 1 ≤ m.id.length
  small : m.id.length ≤ 4
  short : m.content.length < 128

theorem length_pdu (m : Message) : m.pdu.length = m.id.length + (encodeAll m.binds).length + 10 := by
  rw [pdu, List.length_append, List.length_append, List.length_append, length_tlv, length_tlv, length_tlv, length_tlv]
  simp only [List.length_singleton]
  omega

theorem length_content (m : Message) :
    m.content.length = m.community.length + m.id.length + (encodeAll m.binds).length + 17 := by
  rw [content, List.length_append, List.length_append, length_tlv, length_tlv, length_tlv, length_pdu,
    List.length_singleton]
  omega

/-- What is in front of the protocol data. -/
def head (m : Message) : List UInt8 :=
  [m.tag, UInt8.ofNat m.content.length, m.versionTag, 1, m.version, m.communityTag,
    UInt8.ofNat m.community.length] ++ m.community

/-- What is between the number of the request and the bindings. -/
def middle (m : Message) : List UInt8 :=
  [m.statusTag, 1, m.status, m.indexTag, 1, m.index, m.listTag, UInt8.ofNat (encodeAll m.binds).length]

theorem encode_eq (m : Message) :
    m.encode = m.head ++ ([m.type, UInt8.ofNat m.pdu.length, m.idTag, UInt8.ofNat m.id.length] ++ m.id ++ m.middle ++
      encodeAll m.binds) := by
  simp only [encode, tlv, content, pdu, head, middle, List.append_assoc, List.cons_append, List.nil_append]
  rfl

theorem length_head (m : Message) : m.head.length = m.community.length + 7 := by
  rw [head, List.length_append, Nat.add_comm]
  rfl

end Message

end Ethersex.Snmp

/-!
## SNMP

Every object has a name, with the identifier in its bytes, and a reaction that appends its value.
A variable of a request is answered by the first object in the table whose name begins with the
identifier, or with whose name the identifier begins.
-/

namespace Ethersex.Snmp

/-- The options that add objects, the texts of the others, and the number of channels. -/
structure Config where
  ADC_SUPPORT : Bool
  WHM_SUPPORT : Bool
  SNMP_VALUE_DESCRIPTION : List UInt8
  SNMP_VALUE_CONTACT : List UInt8
  SNMP_VALUE_LOCATION : List UInt8
  CONF_HOSTNAME : List UInt8
  ADC_CHANNELS : UInt8

/-- What the reactions read: the clock, and the converter for each channel. -/
structure Device where
  clock_get_time : UInt32
  clock_get_startup : UInt32
  adc : UInt8 → UInt16

/-! ## Reactions -/

def uptimeReaction (device : Device) : List UInt8 :=
  let seconds := (device.clock_get_time - device.clock_get_startup) * 100
  [0x43, 4, (seconds >>> 24).toUInt8, (seconds >>> 16).toUInt8, (seconds >>> 8).toUInt8, seconds.toUInt8]

/-- The channel is the first byte behind the name. -/
def adcReaction (c : Config) (device : Device) (data : List UInt8) : List UInt8 :=
  match data with
  | channel :: _ =>
      if channel < c.ADC_CHANNELS then
        [2, 2, (device.adc channel >>> 8).toUInt8, (device.adc channel).toUInt8]
      else [2, 2, 0, 0]
  | [] => [2, 2, 0, 0]

def stringPgmReaction (userdata : List UInt8) : List UInt8 :=
  [4, UInt8.ofNat userdata.length] ++ userdata.take (userdata.length % 256)

/-- `snmp_reaction`; the callback has what is behind the name. -/
structure Reaction where
  obj_name : List UInt8
  cb : List UInt8 → List UInt8

def ethersexExperimental : List UInt8 := [0x2b, 0x06, 0x01, 0x04, 0x01, 0x8f, 0x65, 0x0d, 0x17]

def snmpReactions (c : Config) (device : Device) : List Reaction :=
  (if c.ADC_SUPPORT then [⟨ethersexExperimental ++ [0x01], adcReaction c device⟩] else []) ++
    [⟨[0x2b, 0x06, 0x01, 0x02, 0x01, 0x01, 0x01],
      fun _ => stringPgmReaction c.SNMP_VALUE_DESCRIPTION⟩] ++
    (if c.WHM_SUPPORT then
      [⟨[0x2b, 0x06, 0x01, 0x02, 0x01, 0x01, 0x03], fun _ => uptimeReaction device⟩] else []) ++
    [⟨[0x2b, 0x06, 0x01, 0x02, 0x01, 0x01, 0x04], fun _ => stringPgmReaction c.SNMP_VALUE_CONTACT⟩,
      ⟨[0x2b, 0x06, 0x01, 0x02, 0x01, 0x01, 0x05], fun _ => stringPgmReaction c.CONF_HOSTNAME⟩,
      ⟨[0x2b, 0x06, 0x01, 0x02, 0x01, 0x01, 0x06], fun _ => stringPgmReaction c.SNMP_VALUE_LOCATION⟩]

/-! ## Requests -/

/-- The type of a variable, none if there is no object, and what is behind the name. -/
def interpret (pdu_type : UInt8) (data : List UInt8) : List Reaction → Option (Reaction × List UInt8)
  | [] => none
  | reaction :: rest =>
      let store_len := reaction.obj_name.length
      let request_len := data.length
      let cmp_len := if store_len > request_len then request_len else store_len
      if data.take cmp_len = reaction.obj_name.take cmp_len then
        let type := if pdu_type = 0xa1 ∧ request_len = store_len then rest.head? else some reaction
        type.map (·, if store_len < request_len then data.drop store_len else [])
      else interpret pdu_type data rest

/-- A variable of the answer: its identifier and its value. -/
def assemble (type : Reaction) (data : List UInt8) : List UInt8 :=
  let value := type.cb data
  [0x30, UInt8.ofNat (2 + type.obj_name.length + data.length + value.length), 0x06,
    UInt8.ofNat (type.obj_name.length + data.length)] ++ type.obj_name ++ data ++ value

/-- The variables of the answer, or the number of the one for which there is no object, with which
`NoSuchName` is answered. -/
def snmpNewData (reactions : List Reaction) (pdu_type : UInt8) :
    Nat → List (List UInt8) → Except Nat (List (List UInt8))
  | _, [] => .ok []
  | ptr, bind :: binds =>
      match interpret pdu_type bind reactions with
      | none => .error ptr
      | some (type, data) =>
          (snmpNewData reactions pdu_type (ptr + 1) binds).map (assemble type data :: ·)

end Ethersex.Snmp

/-!
## Requests and answers in the packet buffer

A request is looked at by offsets, and a read outside of it has no result here.  The answer is assembled in the
buffer of the request.
-/

namespace Ethersex.Snmp

open Library

/-! ## The request -/

/-- `struct snmp_varbinding`: the length of a name, and where it is in the request. -/
structure VarBinding where
  len : UInt8
  data : Nat

/-- `struct snmp_packet`, with offsets for pointers into the request. -/
structure Packet where
  version : UInt8
  community : Nat
  pdu_type : Nat
  type : UInt8
  request_id : List UInt8
  varbind_start : Nat
  var_count : UInt8
  binds : List VarBinding

section Parse

variable (request : List UInt8) (ptr var_len : UInt16)

/-- The loop that counts the variables. -/
def countBindings : (fuel : Nat) → (x : UInt16) → (var_count : UInt8) → Option UInt8
  | 0, _, _ => none
  | fuel + 1, x, var_count =>
      if x ≠ var_len then do
        let n ← request[(ptr + x).toNat]?
        countBindings fuel (x + (2 + n.toUInt16)) (var_count + 1)
      else some var_count

/-- The loop that stores them. -/
def storeBindings : (fuel : Nat) → (x : UInt16) → Option (List VarBinding)
  | 0, _ => none
  | fuel + 1, x =>
      if x < var_len then do
        let len ← request[(ptr + x + 2).toNat]?
        let n ← request[(ptr + x).toNat]?
        let rest ← storeBindings fuel (x + (2 + n.toUInt16))
        some (⟨len, (ptr + x + 3).toNat⟩ :: rest)
      else some []

end Parse

/-- `memcpy` of the number of the request. -/
def requestId (request : List UInt8) (ptr : Nat) : Option (List UInt8) :=
  if ptr + 4 ≤ request.length then some ((request.drop ptr).take 4) else none

/-- The first part of `snmp_new_data`, with the request as it is left. -/
def snmpParse (fuel : Nat) (request : List UInt8) : Option (Packet × List UInt8) := do
  let ptr := 4
  let version ← request[ptr]?
  let ptr := ptr + 2
  let tmp ← request[ptr]?
  let community := ptr + 1
  let pdu_type := ptr + 1 + tmp.toNat
  let type ← request[pdu_type]?
  let request := request.set pdu_type 0
  let ptr := ptr + (1 + tmp.toNat + 4)
  let request_id ← requestId request ptr
  let ptr := ptr + 11
  let varbind_start := ptr - 1
  let var_len ← request[ptr]?
  let ptr := UInt16.ofNat (ptr + 2)
  let var_count ← countBindings request ptr var_len.toUInt16 fuel 0 0
  let binds ← storeBindings request ptr var_len.toUInt16 fuel 0
  some (⟨version, community, pdu_type, type, request_id, varbind_start, var_count, binds⟩, request)

/-! ## The answer -/

/-- Some bytes in a memory, one behind the other. -/
def put (start : Nat) (bytes : List UInt8) (memory : Bytes) : Bytes := fun k =>
  if start ≤ k then (bytes[k - start]?).getD (memory k) else memory k

/-- The bytes at a place. -/
def bytesAt (memory : Bytes) (start count : Nat) : List UInt8 := (List.range count).map fun k => memory (start + k)

/-- The loop that assembles the variables, with the byte that is in `varbind_start[1]`; the first one for which there
is no object ends it. -/
def assembleBindings (pdu_type : Nat) :
    (ptr : UInt8) → (bind_start : Nat) → (size : UInt8) → List (Option (Reaction × List UInt8)) → Bytes → UInt8 × Bytes
  | _, _, size, [], memory => (size, memory)
  | ptr, _, _, none :: _, memory => (0, put (pdu_type + 13) [ptr] (put (pdu_type + 10) [2] memory))
  | ptr, bind_start, size, some (type, data) :: rest, memory =>
      let variable_ := assemble type data
      let length := variable_.getD 1 0
      assembleBindings pdu_type (ptr + 1) (bind_start + (length.toNat + 2)) (size + (length + 2)) rest
        (put bind_start variable_ memory)

/-- The second part of `snmp_new_data`: the length of the answer, and the buffer, whose content behind the request is
any. -/
def assembleAnswer (reactions : List Reaction) (behind : Bytes) (pkt : Packet) (request : List UInt8) : UInt8 × Bytes :=
  let memory : Bytes := fun k => (request[k]?).getD (behind k)
  let types := pkt.binds.map fun bind => interpret pkt.type (bytesAt memory bind.data bind.len.toNat) reactions
  let memory := put pkt.varbind_start [0x30, 0] (put pkt.pdu_type [0xa2] memory)
  let assembled := assembleBindings pkt.pdu_type 0 (pkt.varbind_start + 2) 0 types memory
  let memory := put (pkt.varbind_start + 1) [assembled.1] assembled.2
  let memory := put (pkt.pdu_type + 1) [assembled.1 + 14] memory
  let total := UInt8.ofNat pkt.pdu_type + (assembled.1 + 14)
  (total, put 1 [total] memory)

/-- `snmp_new_data`: what is sent. -/
def snmpAnswer (reactions : List Reaction) (behind : Bytes) (fuel : Nat) (request : List UInt8) :
    Option (List UInt8) :=
  (snmpParse fuel request).map fun parsed =>
    let answer := assembleAnswer reactions behind parsed.1 parsed.2
    bytesAt answer.2 0 (answer.1.toNat + 2)

end Ethersex.Snmp
