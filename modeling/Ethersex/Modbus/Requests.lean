import Mathlib
import Ethersex.Modbus.Model

/-!
# Requests and the registers that they name

What the Modbus specification prescribes for a request, next to what the client does with it.
The client keeps the start address and the quantity in eight bits, tests the bound of a
multiple write with the wrong comparison and answers it with the wrong command, so that it does
what is prescribed only where none of this shows.
-/

namespace Ethersex.Modbus

open Ethersex.Library

/-! ## What is prescribed -/

/-- A request for the station or for all, as the specification lays it out. -/
structure IsRequest (c : Config) (data : Bytes) (length : Nat) : Prop where
  addressed : data 0 = c.MODBUS_ADDRESS ∨ data 0 = c.MODBUS_BROADCAST
  command : data 1 = MODBUS_CMD_READ_HOLDING ∨ data 1 = MODBUS_CMD_READ_INPUTS ∨
    data 1 = MODBUS_CMD_WRITE_HOLDING ∨ data 1 = MODBUS_CMD_WRITE_MULTIPLE_HOLDING
  length : data 1 = MODBUS_CMD_WRITE_HOLDING → length = 6

def start (data : Bytes) : Nat := ntohs data 2

def quantity (data : Bytes) : Nat :=
  if data 1 = MODBUS_CMD_WRITE_HOLDING then 1 else ntohs data 4

/-- The number of registers in the space that the command is about. -/
def space (c : Config) (data : Bytes) : Nat :=
  if data 1 = MODBUS_CMD_READ_INPUTS then c.MODBUS_INPUT_REGISTERS else c.MODBUS_HOLD_REGISTERS

/-- The access to a register, at a position of the range. -/
def accessAt (data : Bytes) (k address : Nat) : Access :=
  if data 1 = MODBUS_CMD_READ_HOLDING then .readHolding address
  else if data 1 = MODBUS_CMD_READ_INPUTS then .readInput address
  else if data 1 = MODBUS_CMD_WRITE_HOLDING then
    .writeHolding address (UInt16.ofNat (ntohs data 4))
  else .writeHolding address (UInt16.ofNat (ntohs data (7 + 2 * k)))

/-- The value that a read of a register gives. -/
def readValue (holding : Bool) (r : Registers) (address : Nat) : UInt16 :=
  if holding then r.holding address else 0xf0f0

/-- The reply to a request that is carried out: the registers that are read, or the address and
the value or the quantity that were written. -/
def prescribedReply (data : Bytes) (r : Registers) : List UInt8 :=
  if data 1 = MODBUS_CMD_READ_HOLDING ∨ data 1 = MODBUS_CMD_READ_INPUTS then
    data 0 :: data 1 :: UInt8.ofNat (2 * quantity data) ::
      (List.range (quantity data)).flatMap fun k =>
        wordBytes (readValue (decide (data 1 = MODBUS_CMD_READ_HOLDING)) r (start data + k))
  else (List.range 6).map data

def exceptionReply (c : Config) (data : Bytes) : List UInt8 :=
  [c.MODBUS_ADDRESS, data 1 ||| 0x80, 2]

/-- The message in front of the checksum. -/
def Reply.Carries (reply : Reply) (message : List UInt8) : Prop :=
  reply.recvLen = message.length + 2 ∧ (List.range message.length).map reply.data = message

/-- The client does with a request what is prescribed: a range inside of the space is accessed,
register by register, and any other request is answered by an exception. -/
def Obeys (c : Config) (update : UInt16 → UInt8 → UInt16) (data : Bytes) (length : Nat)
    (r : Registers) : Prop :=
  ∃ next reply, modbusClientProcess c update data length r = some (next, reply) ∧
    if start data + quantity data ≤ space c data then
      next = r.perform ((List.range (quantity data)).map fun k => accessAt data k (start data + k)) ∧
        (data 0 = c.MODBUS_ADDRESS → reply.Carries (prescribedReply data r))
    else next = r ∧ reply.Carries (exceptionReply c data)

/-! ## When the client does it -/

/-- The range is named by eight bits without loss. -/
def Narrow (data : Bytes) : Prop :=
  quantity data < 256 ∧ (quantity data = 0 ∨ start data + quantity data ≤ 256)

instance (data : Bytes) : Decidable (Narrow data) :=
  inferInstanceAs (Decidable (_ ∧ (_ ∨ _)))

/-- A read inside of the space needs a narrow range and an answer that fits the buffer, and its
byte count must fit one byte.  A single write needs an address that fits one byte.  A multiple
write is done only for a broadcast, and only when it stays below the last register.  Outside of
the space, the narrowed range must be outside as well. -/
def Handled (c : Config) (data : Bytes) : Prop :=
  if data 1 = MODBUS_CMD_WRITE_HOLDING then
    start data + 1 ≤ space c data → start data < 256
  else if data 1 = MODBUS_CMD_WRITE_MULTIPLE_HOLDING then
    if start data + quantity data ≤ space c data then
      data 0 ≠ c.MODBUS_ADDRESS ∧ (quantity data = 0 ∨ Narrow data ∧
        start data % 256 + quantity data % 256 < space c data ∧
        7 + 2 * quantity data ≤ MODBUS_BUFFER_LEN)
    else space c data ≤ start data % 256 + quantity data % 256
  else
    if start data + quantity data ≤ space c data then
      Narrow data ∧ 2 * quantity data % 256 + 5 ≤ MODBUS_BUFFER_LEN ∧
        (data 0 = c.MODBUS_ADDRESS → quantity data < 128)
    else space c data < start data % 256 + quantity data % 256

instance (c : Config) (data : Bytes) : Decidable (Handled c data) :=
  inferInstanceAs (Decidable (ite _ _ _))

/-! ## Accesses -/

theorem perform_accesses (r : Registers) (accesses : List Access) :
    (r.perform accesses).accesses = r.accesses ++ accesses := by
  induction accesses generalizing r with
  | nil => rw [Registers.perform, List.foldl_nil, List.append_nil]
  | cons access rest ih =>
      rw [Registers.perform, List.foldl_cons, ← Registers.perform, ih, List.append_cons]
      cases access <;> rfl

theorem perform_inj {r : Registers} {left right : List Access} :
    r.perform left = r.perform right ↔ left = right := by
  refine ⟨fun same => ?_, congrArg _⟩
  have logs := congrArg Registers.accesses same
  rw [perform_accesses, perform_accesses] at logs
  exact List.append_cancel_left logs

def Access.address : Access → Nat
  | .readHolding address => address
  | .readInput address => address
  | .writeHolding address _ => address

theorem address_accessAt (data : Bytes) (k address : Nat) :
    (accessAt data k address).address = address := by
  unfold accessAt
  split_ifs <;> rfl

/-- Eight bits name every register of a range exactly when the range is narrow. -/
theorem narrow_iff (data : Bytes) :
    (List.range (quantity data % 256)).map (fun k => accessAt data k ((start data % 256 + k) % 256)) =
        (List.range (quantity data)).map (fun k => accessAt data k (start data + k)) ↔
      Narrow data := by
  constructor
  · intro same
    have count : quantity data % 256 = quantity data := by
      have lengths := congrArg List.length same
      rwa [List.length_map, List.length_map, List.length_range, List.length_range] at lengths
    refine ⟨by omega, ?_⟩
    rcases Nat.eq_zero_or_pos (quantity data) with none | some
    · exact .inl none
    · refine .inr ?_
      have addresses : ∀ k < quantity data, (start data % 256 + k) % 256 = start data + k := by
        intro k inside
        rw [count, List.map_inj_left] at same
        have here := congrArg Access.address (same k (List.mem_range.mpr inside))
        rwa [address_accessAt, address_accessAt] at here
      have := addresses (quantity data - 1) (by omega)
      omega
  · rintro ⟨small, none | fits⟩
    · rw [none]
      rfl
    · rw [Nat.mod_eq_of_lt small]
      refine List.map_congr_left fun k inside => ?_
      have := List.mem_range.mp inside
      rw [show (start data % 256 + k) % 256 = start data + k by omega]

/-! ## The two loops -/

def readAccess (holding : Bool) (address : Nat) : Access :=
  if holding then .readHolding address else .readInput address

theorem perform_cons (r : Registers) (first : Access) (rest : List Access) :
    r.perform (first :: rest) = (r.access first).perform rest := rfl

theorem readValue_access (holding : Bool) (r : Registers) (first address : Nat) :
    readValue holding (r.access (readAccess holding first)) address = readValue holding r address := by
  cases holding <;> rfl

theorem readRegisters_eq (holding : Bool) (ptr count i : Nat) (r : Registers) :
    readRegisters holding ptr count i r =
      ((List.range count).flatMap fun k => wordBytes (readValue holding r ((ptr + i + k) % 256)),
        r.perform ((List.range count).map fun k => readAccess holding ((ptr + i + k) % 256))) := by
  induction count generalizing i r with
  | zero => rfl
  | succ count ih =>
      have address : (UInt8.ofNat (ptr + i)).toNat = (ptr + i) % 256 := UInt8.toNat_ofNat'
      have first : (if holding then modbusReadHolding (UInt8.ofNat (ptr + i)) r
            else modbusReadInput (UInt8.ofNat (ptr + i)) r) =
          (readValue holding r ((ptr + i) % 256),
            r.access (readAccess holding ((ptr + i) % 256))) := by
        rw [← address]
        cases holding <;> rfl
      have next : ∀ k, ptr + (i + 1) + k = ptr + i + (k + 1) := by omega
      rw [readRegisters, first]
      dsimp only
      rw [ih, List.range_succ_eq_map, List.flatMap_cons, List.flatMap_map, List.map_cons,
        List.map_map, perform_cons]
      simp only [readValue_access, next, Function.comp_def, Nat.succ_eq_add_one, Nat.add_zero]

theorem writeRegisters_eq (data : Bytes) (ptr count i : Nat) (r : Registers) :
    writeRegisters data ptr count i r =
      if count = 0 ∨ 7 + 2 * (i + count) ≤ MODBUS_BUFFER_LEN then
        some (r.perform ((List.range count).map fun k =>
          .writeHolding ((ptr + i + k) % 256) (UInt16.ofNat (ntohs data (7 + 2 * (i + k))))))
      else none := by
  induction count generalizing i r with
  | zero => rfl
  | succ count ih =>
      have address : (UInt8.ofNat (ptr + i)).toNat = (ptr + i) % 256 := UInt8.toNat_ofNat'
      have next : ∀ k, ptr + (i + 1) + k = ptr + i + (k + 1) := by omega
      have word : ∀ k, i + 1 + k = i + (k + 1) := by omega
      rw [writeRegisters, ih]
      by_cases fits : 7 + 2 * (i + (count + 1)) ≤ MODBUS_BUFFER_LEN
      · rw [if_pos (by omega), if_pos (by omega), if_pos (.inr fits), List.range_succ_eq_map,
          List.map_cons, List.map_map, perform_cons, modbusWriteHolding, address]
        simp only [next, word, Function.comp_def, Nat.succ_eq_add_one, Nat.add_zero]
      · rw [if_neg (show ¬ (count + 1 = 0 ∨ _) by omega)]
        split
        · rw [if_neg (by omega)]
        · rfl

/-! ## Messages -/

section Messages

variable {c : Config} {update : UInt16 → UInt8 → UInt16} {data : Bytes} {length : Nat}
  {message : List UInt8}

/-- A message in the buffer with its checksum behind it. -/
def signed (update : UInt16 → UInt8 → UInt16) (data : Bytes) (length : Nat) : Reply where
  data := Function.update (Function.update data length (modbusCrcCalc update data length).toUInt8)
    (length + 1) (modbusCrcCalc update data length >>> 8).toUInt8
  recvLen := length + 2

theorem sendMessage_eq (unicast : data 0 ≠ c.MODBUS_BROADCAST) :
    sendMessage c update data length =
      if length + 2 ≤ MODBUS_BUFFER_LEN then some (signed update data length) else none := by
  rw [sendMessage, if_neg unicast]
  rfl

theorem carries_signed :
    (signed update data length).Carries message ↔
      length = message.length ∧ (List.range length).map data = message := by
  have kept : ∀ k < length, (signed update data length).data k = data k := by
    intro k inside
    rw [signed]
    dsimp only
    rw [Function.update_of_ne (by omega), Function.update_of_ne (by omega)]
  have same : (List.range length).map (signed update data length).data = (List.range length).map data :=
    List.map_congr_left fun k inside => kept k (List.mem_range.mp inside)
  constructor
  · rintro ⟨count, bytes⟩
    have lengths : length = message.length := by
      have := show ((length : Int) + 2 = message.length + 2) from count
      omega
    subst lengths
    exact ⟨rfl, same ▸ bytes⟩
  · rintro ⟨rfl, bytes⟩
    exact ⟨rfl, same.trans bytes⟩

theorem Reply.Carries.length_eq {reply : Reply} {other : List UInt8} (left : reply.Carries message)
    (right : reply.Carries other) : message.length = other.length := by
  have same := left.1.symm.trans right.1
  omega

theorem sendError_eq (code : UInt8) :
    ∃ reply, sendError c update code data = some reply ∧
      reply.Carries [c.MODBUS_ADDRESS, data 1 ||| 0x80, code] := by
  rw [sendError, sendMessage_eq (by exact c.address_ne_broadcast), if_pos (by decide)]
  exact ⟨_, rfl, carries_signed.mpr ⟨rfl, rfl⟩⟩

theorem map_memcpy (answer : List UInt8) :
    (List.range answer.length).map (memcpy data answer answer.length) = answer := by
  refine List.ext_getElem (by rw [List.length_map, List.length_range]) fun k _ inside => ?_
  rw [List.getElem_map, List.getElem_range, memcpy, if_pos inside, List.getD_eq_getElem _ _ inside]

theorem length_words (count : Nat) (value : Nat → UInt16) :
    ((List.range count).flatMap fun k => wordBytes (value k)).length = 2 * count := by
  induction count with
  | zero => rfl
  | succ count ih =>
      rw [List.range_succ, List.flatMap_append, List.length_append, ih, List.flatMap_singleton]
      rfl

end Messages

/-! ## The commands -/

section Commands

variable {c : Config} {update : UInt16 → UInt8 → UInt16} {data : Bytes} {length : Nat} {r : Registers}

/-- A refused request is answered by an exception. -/
theorem obeys_of_refused (outside : ¬ start data + quantity data ≤ space c data)
    (refused : modbusClientProcess c update data length r =
      (sendError c update 2 data).map (r, ·)) : Obeys c update data length r := by
  obtain ⟨reply, sent, carries⟩ := @sendError_eq c update data 2
  refine ⟨r, reply, by rw [refused, sent]; rfl, ?_⟩
  rw [if_neg outside]
  exact ⟨rfl, carries⟩

/-- Outside of the space it comes down to the refusal, as no answer is taken for an exception. -/
theorem obeys_iff_refused {refused fits : Prop} [Decidable refused] [Decidable fits]
    {answer : Registers × Reply} (outside : ¬ start data + quantity data ≤ space c data)
    (ran : modbusClientProcess c update data length r =
      if refused then (sendError c update 2 data).map (r, ·)
      else if fits then some answer else none)
    (different : ¬ answer.2.Carries (exceptionReply c data)) :
    Obeys c update data length r ↔ refused := by
  constructor
  · rintro ⟨next, reply, result, outcome⟩
    rw [if_neg outside] at outcome
    by_contra accepted
    rw [ran, if_neg accepted] at result
    split at result
    next =>
        cases result
        exact different outcome.2
    next => cases result
  · intro refusal
    exact obeys_of_refused outside (ran.trans (if_pos refusal))

/-- The answer to a read, before the checksum. -/
def readAnswer (c : Config) (data : Bytes) (r : Registers) : List UInt8 :=
  c.MODBUS_ADDRESS :: data 1 :: UInt8.ofNat (quantity data % 256 * 2) ::
    (List.range (quantity data % 256)).flatMap fun k => wordBytes
      (readValue (decide (data 1 = MODBUS_CMD_READ_HOLDING)) r ((start data % 256 + k) % 256))

theorem process_read
    (read : data 1 = MODBUS_CMD_READ_HOLDING ∨ data 1 = MODBUS_CMD_READ_INPUTS) :
    modbusClientProcess c update data length r =
      if space c data < start data % 256 + quantity data % 256 then
        (sendError c update 2 data).map (r, ·)
      else if 2 * quantity data % 256 + 5 ≤ MODBUS_BUFFER_LEN then
        some (r.perform ((List.range (quantity data % 256)).map fun k =>
            accessAt data k ((start data % 256 + k) % 256)),
          signed update (memcpy data (readAnswer c data r) (2 * quantity data % 256 + 3))
            (2 * quantity data % 256 + 3))
      else none := by
  have other : data 1 ≠ MODBUS_CMD_WRITE_HOLDING := by
    rcases read with same | same <;> rw [same] <;> decide
  have count : quantity data = ntohs data 4 := if_neg other
  have registers : (if decide (data 1 = MODBUS_CMD_READ_HOLDING) then c.MODBUS_HOLD_REGISTERS
      else c.MODBUS_INPUT_REGISTERS) = space c data := by
    unfold space
    rcases read with same | same <;> rw [same] <;> rfl
  have access : ∀ k address, readAccess (decide (data 1 = MODBUS_CMD_READ_HOLDING)) address =
      accessAt data k address := by
    intro k address
    unfold accessAt
    rcases read with same | same <;> rw [same] <;> rfl
  have bytes : ntohs data 4 % 256 * 2 % 256 = 2 * quantity data % 256 := by omega
  rw [modbusClientProcess, if_pos read]
  dsimp only
  rw [registers, readRegisters_eq, bytes, ← count]
  refine ite_congr rfl (fun _ => rfl) fun _ => ?_
  have first : ∀ answer : List UInt8,
      memcpy data (c.MODBUS_ADDRESS :: answer) (2 * quantity data % 256 + 3) 0 ≠
        c.MODBUS_BROADCAST := fun answer => by
    rw [memcpy, if_pos (Nat.succ_pos _)]
    exact c.address_ne_broadcast
  by_cases fits : 2 * quantity data % 256 + 5 ≤ MODBUS_BUFFER_LEN
  · rw [if_pos fits, if_pos (by omega), sendMessage_eq (first _), if_pos fits]
    simp only [← access, Nat.add_zero]
    rfl
  · rw [if_neg fits]
    split
    · rw [sendMessage_eq (first _), if_neg fits]
      rfl
    · rfl

/-- The answer to a narrow range has the registers of the range. -/
theorem readAnswer_eq (read : data 1 = MODBUS_CMD_READ_HOLDING ∨ data 1 = MODBUS_CMD_READ_INPUTS)
    (narrow : Narrow data) (unicast : data 0 = c.MODBUS_ADDRESS) :
    readAnswer c data r = prescribedReply data r := by
  obtain ⟨small, fits⟩ := narrow
  rw [readAnswer, prescribedReply, if_pos read, Nat.mod_eq_of_lt small, unicast,
    Nat.mul_comm 2]
  congr 3
  refine List.flatMap_congr fun k inside => ?_
  have := List.mem_range.mp inside
  rw [show (start data % 256 + k) % 256 = start data + k by omega]

theorem length_readAnswer : (readAnswer c data r).length = 2 * (quantity data % 256) + 3 := by
  rw [readAnswer, List.length_cons, List.length_cons, List.length_cons, length_words]

/-- An answer to a read is no exception: its byte count is not the code of one. -/
theorem readAnswer_ne_exception {count : Nat} (size : count = 2 * quantity data % 256 + 3) :
    ¬ (signed update (memcpy data (readAnswer c data r) count) count).Carries
      (exceptionReply c data) := by
  intro carries
  obtain ⟨three, bytes⟩ := carries_signed.mp carries
  rw [exceptionReply, List.length_cons, List.length_cons, List.length_singleton] at three
  subst three
  have third : UInt8.ofNat (quantity data % 256 * 2) = 2 := congrArg (fun message => message.getD 2 0) bytes
  have value := congrArg UInt8.toNat third
  rw [UInt8.toNat_ofNat'] at value
  have := show quantity data % 256 * 2 % 256 = 2 from value
  omega

theorem obeys_iff_read
    (read : data 1 = MODBUS_CMD_READ_HOLDING ∨ data 1 = MODBUS_CMD_READ_INPUTS) :
    Obeys c update data length r ↔
      if start data + quantity data ≤ space c data then
        Narrow data ∧ 2 * quantity data % 256 + 5 ≤ MODBUS_BUFFER_LEN ∧
          (data 0 = c.MODBUS_ADDRESS → quantity data < 128)
      else space c data < start data % 256 + quantity data % 256 := by
  have prescribed : prescribedReply data r =
      data 0 :: data 1 :: UInt8.ofNat (2 * quantity data) ::
        (List.range (quantity data)).flatMap fun k =>
          wordBytes (readValue (decide (data 1 = MODBUS_CMD_READ_HOLDING)) r (start data + k)) :=
    if_pos read
  have ran := @process_read c update data length r read
  by_cases inside : start data + quantity data ≤ space c data
  · rw [if_neg (show ¬ space c data < start data % 256 + quantity data % 256 by omega)] at ran
    rw [if_pos inside]
    constructor
    · rintro ⟨next, reply, result, outcome⟩
      rw [ran] at result
      split at result
      next fits =>
          cases result
          rw [if_pos inside, perform_inj, narrow_iff] at outcome
          obtain ⟨narrow, replies⟩ := outcome
          refine ⟨narrow, fits, fun unicast => ?_⟩
          obtain ⟨count, _⟩ := carries_signed.mp (replies unicast)
          rw [prescribed, List.length_cons, List.length_cons, List.length_cons, length_words] at count
          omega
      next => cases result
    · rintro ⟨narrow, fits, short⟩
      rw [if_pos fits] at ran
      refine ⟨_, _, ran, ?_⟩
      rw [if_pos inside, perform_inj, narrow_iff]
      refine ⟨narrow, fun unicast => carries_signed.mpr ?_⟩
      have small := short unicast
      have size : 2 * quantity data % 256 + 3 = (prescribedReply data r).length := by
        rw [← readAnswer_eq read narrow unicast, length_readAnswer]
        omega
      refine ⟨size, ?_⟩
      rw [readAnswer_eq read narrow unicast, size, map_memcpy]
  · rw [if_neg inside]
    exact obeys_iff_refused inside ran (readAnswer_ne_exception rfl)

/-- A reply whose message the specification copies from the request. -/
theorem prescribedReply_write (write : data 1 = MODBUS_CMD_WRITE_HOLDING ∨
    data 1 = MODBUS_CMD_WRITE_MULTIPLE_HOLDING) :
    prescribedReply data r = (List.range 6).map data := by
  refine if_neg fun read => ?_
  rcases write with same | same <;> rw [same] at read <;> revert read <;> decide

/-- The echo of a single write; a broadcast has no reply. -/
theorem sendMessage_echo :
    ∃ reply, sendMessage c update data 6 = some reply ∧
      (data 0 = c.MODBUS_ADDRESS → reply = signed update data 6) := by
  by_cases broadcast : data 0 = c.MODBUS_BROADCAST
  · refine ⟨_, if_pos broadcast, fun unicast => ?_⟩
    exact absurd (unicast.symm.trans broadcast) c.address_ne_broadcast
  · rw [sendMessage_eq broadcast]
    exact ⟨_, rfl, fun _ => rfl⟩

theorem obeys_iff_write (write : data 1 = MODBUS_CMD_WRITE_HOLDING)
    (request : IsRequest c data length) :
    Obeys c update data length r ↔ (start data + 1 ≤ space c data → start data < 256) := by
  have noRead : ¬ (data 1 = MODBUS_CMD_READ_HOLDING ∨ data 1 = MODBUS_CMD_READ_INPUTS) := by
    rw [write]
    decide
  have count : quantity data = 1 := if_pos write
  have registers : space c data = c.MODBUS_HOLD_REGISTERS :=
    if_neg fun read => noRead (.inr read)
  have access : ∀ address, accessAt data 0 address =
      .writeHolding address (UInt16.ofNat (ntohs data 4)) := fun address => by
    rw [accessAt, if_neg fun read => noRead (.inl read), if_neg fun read => noRead (.inr read),
      if_pos write]
  have place : (UInt8.ofNat (ntohs data 2)).toNat = start data % 256 := UInt8.toNat_ofNat'
  have ran : ¬ c.MODBUS_HOLD_REGISTERS ≤ ntohs data 2 → modbusClientProcess c update data length r =
      (sendMessage c update data 6).map (r.perform [accessAt data 0 (start data % 256)], ·) := by
    intro accepted
    rw [modbusClientProcess, if_neg noRead, if_pos write, if_neg accepted, request.length write,
      access, ← place]
    rfl
  by_cases inside : start data + quantity data ≤ space c data
  · have accepted : ¬ c.MODBUS_HOLD_REGISTERS ≤ ntohs data 2 := by
      rw [← registers]
      have : start data + 1 ≤ space c data := by omega
      exact Nat.not_le.mpr this
    have narrow : [accessAt data 0 (start data % 256)] =
        (List.range (quantity data)).map (fun k => accessAt data k (start data + k)) ↔
          start data < 256 := by
      rw [count, List.range_one, List.map_singleton, Nat.add_zero, List.cons.injEq]
      constructor
      · rintro ⟨same, _⟩
        have places := congrArg Access.address same
        rw [address_accessAt, address_accessAt] at places
        omega
      · intro small
        rw [Nat.mod_eq_of_lt small]
        exact ⟨rfl, rfl⟩
    obtain ⟨reply, sent, echo⟩ := @sendMessage_echo c update data
    have result := ran accepted
    rw [sent] at result
    constructor
    · rintro ⟨next, other, same, outcome⟩ _
      rw [result] at same
      cases same
      rw [if_pos inside, perform_inj, narrow] at outcome
      exact outcome.1
    · intro fits
      refine ⟨_, _, result, ?_⟩
      rw [if_pos inside, perform_inj, narrow, prescribedReply_write (.inl write)]
      refine ⟨fits (by omega), fun unicast => ?_⟩
      rw [echo unicast]
      exact carries_signed.mpr ⟨rfl, rfl⟩
  · have outside : c.MODBUS_HOLD_REGISTERS ≤ ntohs data 2 := by
      rw [← registers]
      have : space c data < start data + 1 := by omega
      exact Nat.lt_succ_iff.mp this
    refine iff_of_true (obeys_of_refused inside ?_) fun within => absurd (count ▸ within) inside
    rw [modbusClientProcess, if_neg noRead, if_pos write, if_pos outside]

/-- The answer to a multiple write, before the checksum. -/
def multipleAnswer (c : Config) (data : Bytes) : List UInt8 :=
  [c.MODBUS_ADDRESS, MODBUS_CMD_WRITE_HOLDING, 0, UInt8.ofNat (start data % 256), 0,
    UInt8.ofNat (quantity data % 256)]

theorem process_multiple (multiple : data 1 = MODBUS_CMD_WRITE_MULTIPLE_HOLDING) :
    modbusClientProcess c update data length r =
      if space c data ≤ start data % 256 + quantity data % 256 then
        (sendError c update 2 data).map (r, ·)
      else if quantity data % 256 = 0 ∨ 7 + 2 * (quantity data % 256) ≤ MODBUS_BUFFER_LEN then
        some (r.perform ((List.range (quantity data % 256)).map fun k =>
            accessAt data k ((start data % 256 + k) % 256)),
          signed update (memcpy data (multipleAnswer c data) 6) 6)
      else none := by
  have noRead : ¬ (data 1 = MODBUS_CMD_READ_HOLDING ∨ data 1 = MODBUS_CMD_READ_INPUTS) := by
    rw [multiple]
    decide
  have noWrite : data 1 ≠ MODBUS_CMD_WRITE_HOLDING := by
    rw [multiple]
    decide
  have count : quantity data = ntohs data 4 := if_neg noWrite
  have registers : space c data = c.MODBUS_HOLD_REGISTERS :=
    if_neg fun read => noRead (.inr read)
  have access : ∀ k address, accessAt data k address =
      .writeHolding address (UInt16.ofNat (ntohs data (7 + 2 * k))) := fun k address => by
    rw [accessAt, if_neg fun read => noRead (.inl read), if_neg fun read => noRead (.inr read),
      if_neg noWrite]
  rw [modbusClientProcess, if_neg noRead, if_neg noWrite, if_pos multiple]
  dsimp only
  rw [registers, ← count, writeRegisters_eq]
  refine ite_congr rfl (fun _ => rfl) fun _ => ?_
  by_cases fits : quantity data % 256 = 0 ∨ 7 + 2 * (quantity data % 256) ≤ MODBUS_BUFFER_LEN
  · rw [if_pos fits, if_pos (by omega), Option.bind_some, sendMessage_eq (by
      exact c.address_ne_broadcast), if_pos (by decide)]
    simp only [access, Nat.add_zero, Nat.zero_add]
    rfl
  · rw [if_neg fits, if_neg (by omega)]
    rfl

/-- A multiple write that is done as prescribed is a broadcast, as its answer is not the one to
the command; it names no register, or eight bits name all of them. -/
theorem broadcast_of_obeys (multiple : data 1 = MODBUS_CMD_WRITE_MULTIPLE_HOLDING)
    (inside : start data + quantity data ≤ space c data) (obeys : Obeys c update data length r) :
    data 0 ≠ c.MODBUS_ADDRESS ∧ (quantity data = 0 ∨ Narrow data ∧
      start data % 256 + quantity data % 256 < space c data ∧
      7 + 2 * quantity data ≤ MODBUS_BUFFER_LEN) := by
  obtain ⟨next, reply, result, outcome⟩ := obeys
  rw [if_pos inside, prescribedReply_write (.inr multiple)] at outcome
  rw [process_multiple multiple] at result
  split at result
  next refused =>
      obtain ⟨exception, sent, carries⟩ := @sendError_eq c update data 2
      rw [sent] at result
      cases result
      have mute : data 0 ≠ c.MODBUS_ADDRESS := fun unicast => by
        have lengths := show 3 = 6 from carries.length_eq (outcome.2 unicast)
        omega
      refine ⟨mute, ?_⟩
      have none := congrArg (fun r => r.accesses.length) outcome.1
      rw [perform_accesses, List.length_append, List.length_map, List.length_range] at none
      exact .inl (by omega)
  next accepted =>
      split at result
      next fits =>
          cases result
          rw [perform_inj, narrow_iff] at outcome
          obtain ⟨narrow, replies⟩ := outcome
          refine ⟨fun unicast => ?_, .inr ⟨narrow, Nat.not_le.mp accepted, ?_⟩⟩
          · obtain ⟨_, bytes⟩ := carries_signed.mp (replies unicast)
            have second : MODBUS_CMD_WRITE_HOLDING = data 1 :=
              congrArg (fun message => message.getD 1 0) bytes
            rw [multiple] at second
            revert second
            decide
          · have small := narrow.1
            have := show MODBUS_BUFFER_LEN = 100 from rfl
            omega
      next => cases result

/-- A broadcast that names no register changes nothing, refused or not. -/
theorem obeys_of_empty (multiple : data 1 = MODBUS_CMD_WRITE_MULTIPLE_HOLDING)
    (inside : start data + quantity data ≤ space c data) (broadcast : data 0 ≠ c.MODBUS_ADDRESS)
    (none : quantity data = 0) : Obeys c update data length r := by
  have ran := @process_multiple c update data length r multiple
  have nothing : ∀ reply : Reply, (if start data + quantity data ≤ space c data then
      r = r.perform ((List.range (quantity data)).map fun k => accessAt data k (start data + k)) ∧
        (data 0 = c.MODBUS_ADDRESS → reply.Carries (prescribedReply data r))
      else r = r ∧ reply.Carries (exceptionReply c data)) := fun reply => by
    rw [if_pos inside, none]
    exact ⟨rfl, fun unicast => absurd unicast broadcast⟩
  by_cases refused : space c data ≤ start data % 256 + quantity data % 256
  · obtain ⟨exception, sent, _⟩ := @sendError_eq c update data 2
    rw [if_pos refused, sent] at ran
    exact ⟨_, _, ran, nothing exception⟩
  · rw [if_neg refused, if_pos (.inl (by rw [none])), none] at ran
    exact ⟨_, _, ran, nothing _⟩

theorem obeys_iff_multiple (multiple : data 1 = MODBUS_CMD_WRITE_MULTIPLE_HOLDING) :
    Obeys c update data length r ↔
      if start data + quantity data ≤ space c data then
        data 0 ≠ c.MODBUS_ADDRESS ∧ (quantity data = 0 ∨ Narrow data ∧
          start data % 256 + quantity data % 256 < space c data ∧
          7 + 2 * quantity data ≤ MODBUS_BUFFER_LEN)
      else space c data ≤ start data % 256 + quantity data % 256 := by
  have ran := @process_multiple c update data length r multiple
  by_cases inside : start data + quantity data ≤ space c data
  · rw [if_pos inside]
    refine ⟨broadcast_of_obeys multiple inside, ?_⟩
    rintro ⟨broadcast, none | ⟨narrow, accepted, fits⟩⟩
    · exact obeys_of_empty multiple inside broadcast none
    · rw [if_neg (Nat.not_le.mpr accepted), if_pos (.inr (by have := narrow.1; omega))] at ran
      refine ⟨_, _, ran, ?_⟩
      rw [if_pos inside, perform_inj, narrow_iff]
      exact ⟨narrow, fun unicast => absurd unicast broadcast⟩
  · rw [if_neg inside]
    refine obeys_iff_refused inside ran fun carries => ?_
    have lengths := show 6 = 3 from (carries_signed.mp carries).1
    omega

/-- For every request and every contents of the registers, the client does what is prescribed
exactly when the condition holds. -/
theorem obeys_iff (request : IsRequest c data length) :
    Obeys c update data length r ↔ Handled c data := by
  have commands := request.command
  by_cases write : data 1 = MODBUS_CMD_WRITE_HOLDING
  · rw [Handled, if_pos write]
    exact obeys_iff_write write request
  by_cases multiple : data 1 = MODBUS_CMD_WRITE_MULTIPLE_HOLDING
  · rw [Handled, if_neg write, if_pos multiple]
    exact obeys_iff_multiple multiple
  · rw [Handled, if_neg write, if_neg multiple]
    refine obeys_iff_read ?_
    tauto

end Commands

/-! ## Requests in the configuration of the source -/

/-- Eleven holding and seven input registers, as the source has them. -/
def sourceConfig : Config where
  MODBUS_ADDRESS := 240
  MODBUS_BROADCAST := 255
  MODBUS_HOLD_REGISTERS := 11
  MODBUS_INPUT_REGISTERS := 7
  address_ne_broadcast := by decide

def frameOf (bytes : List UInt8) : Bytes := fun k => bytes.getD k 0

/-- Three holding registers from the eighth one on are read as prescribed. -/
theorem obeys_iff_three :
    Obeys sourceConfig crc16Update (frameOf [240, 3, 0, 8, 0, 3]) 6 ⟨fun _ => 0, []⟩ :=
  (obeys_iff ⟨.inl rfl, .inl rfl, fun _ => rfl⟩).mpr (by decide)

/-- A read at the address 256, a multiple write of the last register and one of the first. -/
theorem not_obeys :
    ¬ Obeys sourceConfig crc16Update (frameOf [240, 3, 1, 0, 0, 1]) 6 ⟨fun _ => 0, []⟩ ∧
      ¬ Obeys sourceConfig crc16Update (frameOf [240, 16, 0, 10, 0, 1, 2, 18, 52]) 9
          ⟨fun _ => 0, []⟩ ∧
      ¬ Obeys sourceConfig crc16Update (frameOf [240, 16, 0, 0, 0, 1, 2, 18, 52]) 9
          ⟨fun _ => 0, []⟩ := by
  rw [obeys_iff_read (.inl rfl), obeys_iff_multiple rfl, obeys_iff_multiple rfl]
  decide

end Ethersex.Modbus
