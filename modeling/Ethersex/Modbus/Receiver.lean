import Ethersex.Modbus.Model
import Ethersex.Modbus.Replies
import Ethersex.Library.Walks

/-!
# The receive buffer of the station

Between two silences of the line the buffer collects a frame, and a silence hands it over if it is a
request to the station.  That holds as long as no frame is too long or too short, valid frames of
others do not come, and no request of a caller starts within a frame.
-/

namespace Ethersex.Modbus

open Ethersex.Library

section Receiver

variable {Owner : Type} (c : Config) (update : UInt16 → UInt8 → UInt16)

/-! ## The property -/

/-- What came over the line: the frame that is not yet complete, those that are, and what the client
was given. -/
structure Traffic where
  current : List UInt8
  frames : List (List UInt8)
  handled : List (List UInt8)

/-- The driver together with what came over the line. -/
structure Reception (Owner : Type) where
  driver : Driver Owner
  traffic : Traffic

/-- The station is the one that a frame is for. -/
def Addressed (data : Bytes) : Prop := data 0 = c.MODBUS_ADDRESS ∨ data 0 = c.MODBUS_BROADCAST

instance (data : Bytes) : Decidable (Addressed c data) := inferInstanceAs (Decidable (_ ∨ _))

/-- A frame that the station has to obey. -/
def Requests (frame : List UInt8) : Bool :=
  2 ≤ frame.length ∧ ValidCrc update (frameOf frame) frame.length ∧ Addressed c (frameOf frame)

/-- What `modbus_periodic` gives to the client, when it finds the end of a frame. -/
def given (d : Driver Owner) : List (List UInt8) :=
  if ValidCrc update d.data d.len ∧ Addressed c d.data then [(List.range (d.len - 2)).map d.data] else []

/-- What came over the line, after an event. -/
def Traffic.next (traffic : Traffic) (d : Driver Owner) : Event Owner → Traffic
  | .receive error byte =>
      if error ∨ d.waiting then traffic else { traffic with current := traffic.current ++ [byte] }
  | .periodic =>
      if d.recvTimer = 1 then
        if d.waiting then { traffic with current := [] }
        else ⟨[], traffic.frames ++ [traffic.current], traffic.handled ++ given c update d⟩
      else traffic
  | _ => traffic

def Reception.step [DecidableEq Owner] (reception : Option (Reception Owner)) (event : Event Owner) :
    Option (Reception Owner) :=
  reception.bind fun reception =>
    (reception.driver.next c update event).map fun driver =>
      ⟨driver, reception.traffic.next c update reception.driver event⟩

/-- The next byte is stored behind those of the frame, a frame starts at index 0, and the client is
given the requests among the frames, without their checksums. -/
structure InStep (reception : Reception Owner) : Prop where
  inside : reception.driver.len ≤ MODBUS_BUFFER_LEN
  index : reception.driver.len = reception.traffic.current.length
  stored : AgreeTo reception.driver.len reception.driver.data (frameOf reception.traffic.current)
  handled : reception.traffic.handled =
    (reception.traffic.frames.filter (Requests c update)).map fun frame => frame.take (frame.length - 2)

/-! ## The condition -/

/-- The client stays inside of its buffers with a request. -/
def Answerable (data : Bytes) (len : Nat) (r : Registers) : Prop :=
  (modbusClientProcess c update data len r).isSome = true

/-- The request of a caller, after the station obeyed it if it is for the station. -/
def obeyed (data : Bytes) (len : Nat) (r : Registers) : Option Bytes :=
  if Addressed c data then (modbusClientProcess c update data len r).map (·.2.data) else some data

/-- A request of a caller leaves the client inside of its buffers, and comes between two frames if it
goes to the line. -/
def Passes (d : Driver Owner) (data : Bytes) (len : Nat) : Prop :=
  match obeyed c update data len d.registers with
  | none => False
  | some data => data 0 ≠ c.MODBUS_ADDRESS → d.crcLen = 0 → d.len = 0

instance (data : Bytes) (len : Nat) (r : Registers) : Decidable (Answerable c update data len r) :=
  inferInstanceAs (Decidable (_ = true))

instance (d : Driver Owner) (data : Bytes) (len : Nat) : Decidable (Passes c update d data len) := by
  unfold Passes
  split <;> infer_instance

def Sound (d : Driver Owner) : Event Owner → Prop
  | .receive error _ => error = false → d.waiting = false → d.len < MODBUS_BUFFER_LEN
  | .periodic =>
      d.waiting = false → d.recvTimer = 1 → 2 ≤ d.len ∧
        (ValidCrc update d.data d.len →
          Addressed c d.data ∧ Answerable c update d.data (d.len - 2) d.registers)
  | .transmit => True
  | .request _ data len _ => Passes c update d data len

instance (d : Driver Owner) : ∀ event, Decidable (Sound c update d event)
  | .receive _ _ => inferInstanceAs (Decidable (_ → _ → _))
  | .periodic => inferInstanceAs (Decidable (_ → _ → _ ∧ (_ → _ ∧ _)))
  | .transmit => isTrue trivial
  | .request _ data len _ => inferInstanceAs (Decidable (Passes c update d data len))

/-! ## The invariant -/

variable {c update} {reception : Reception Owner} {d : Driver Owner} {traffic : Traffic}

/-- While a caller waits, there is no frame of the station. -/
structure Inv (c : Config) (update : UInt16 → UInt8 → UInt16) (reception : Reception Owner) : Prop
    extends InStep c update reception where
  free : reception.driver.waiting = true → reception.driver.len = 0

theorem ValidCrc.congr {left right : Bytes} {len : Nat} (agree : AgreeTo len left right) (long : 2 ≤ len) :
    ValidCrc update left len ↔ ValidCrc update right len := by
  have same : modbusCrcCalc update left (len - 2) = modbusCrcCalc update right (len - 2) := by
    refine List.foldl_ext _ _ _ fun crc i inside => ?_
    have small := List.mem_range.mp inside
    rw [agree i (by omega)]
  rw [ValidCrc, ValidCrc, same, agree (len - 1) (by omega), agree (len - 2) (by omega)]

/-- What the client is given is the request in the frame. -/
theorem InStep.given (inStep : InStep c update ⟨d, traffic⟩) (long : 2 ≤ d.len) :
    given c update d =
      ([traffic.current].filter (Requests c update)).map fun frame => frame.take (frame.length - 2) := by
  have index : d.len = traffic.current.length := inStep.index
  have stored : AgreeTo d.len d.data (frameOf traffic.current) := inStep.stored
  have first : d.data 0 = frameOf traffic.current 0 := stored 0 (by omega)
  have same : (ValidCrc update d.data d.len ∧ Addressed c d.data) ↔
      Requests c update traffic.current = true := by
    rw [ValidCrc.congr stored long, index, Addressed, first]
    exact ⟨fun both => decide_eq_true ⟨index ▸ long, both⟩, fun all => (of_decide_eq_true all).2⟩
  have bytes : (List.range (d.len - 2)).map d.data = traffic.current.take (traffic.current.length - 2) := by
    refine List.ext_getElem (by simp [index]) fun k small inside => ?_
    rw [List.length_map, List.length_range] at small
    rw [List.getElem_map, List.getElem_range, stored k (by omega), frameOf, List.getElem_take,
      List.getD_eq_getElem _ _ (by omega)]
  rw [Modbus.given, bytes]
  by_cases request : Requests c update traffic.current = true
  · rw [if_pos (same.mpr request), List.filter_cons_of_pos request]
    rfl
  · rw [if_neg (mt same.mp request), List.filter_cons_of_neg request]
    rfl

/-! ## Steps -/

variable {next : Driver Owner}

/-- With nothing in the buffer, only its length matters. -/
theorem Inv.ofEmpty (inv : Inv c update ⟨d, traffic⟩) (empty : d.len = 0) (same : next.len = d.len) :
    Inv c update ⟨next, traffic⟩ where
  inside := same.trans_le inv.inside
  index := same.trans inv.index
  stored k small := absurd small (by
    show ¬k < next.len
    omega)
  handled := inv.handled
  free _ := same.trans empty

theorem Inv.ofSame (inv : Inv c update ⟨d, traffic⟩) (len : next.len = d.len) (data : next.data = d.data)
    (waiting : next.waiting = d.waiting) : Inv c update ⟨next, traffic⟩ where
  inside := len.trans_le inv.inside
  index := len.trans inv.index
  stored := by
    show AgreeTo next.len next.data _
    rw [len, data]
    exact inv.stored
  handled := inv.handled
  free held := len.trans (inv.free (waiting ▸ held))

/-- A frame is over, and was handed over if it is a request. -/
theorem Inv.ofEnd (inv : Inv c update ⟨d, traffic⟩) (long : 2 ≤ d.len) (empty : next.len = 0) :
    Inv c update ⟨next, ⟨[], traffic.frames ++ [traffic.current], traffic.handled ++ given c update d⟩⟩ where
  inside := empty.trans_le (Nat.zero_le _)
  index := empty
  stored k small := absurd small (by
    show ¬k < next.len
    omega)
  handled := by
    show traffic.handled ++ given c update d = _
    have before : traffic.handled = _ := inv.handled
    rw [List.filter_append, List.map_append, inv.given long, before]
  free _ := empty

/-! ### Of the station alone -/

theorem modbusPeriodic_of_running {s : Station} (running : s.recvTimer ≠ 0) (more : s.recvTimer ≠ 1) :
    modbusPeriodic c update s = some ({ s with recvTimer := s.recvTimer - 1 }, none) := by
  have left : s.recvTimer - 1 ≠ 0 := by omega
  rw [modbusPeriodic, if_neg running]
  exact if_pos left

/-- Behind a frame that is long enough and not for others, the buffer is empty. -/
theorem modbusPeriodic_of_ends {s : Station} (ends : s.recvTimer = 1) (long : 2 ≤ s.len)
    (valid : ValidCrc update s.data s.len →
      Addressed c s.data ∧ Answerable c update s.data (s.len - 2) s.registers) :
    ∃ after, modbusPeriodic c update s = some after ∧ after.1.len = 0 := by
  rw [modbusPeriodic, if_neg (by omega)]
  simp only [ends, Nat.sub_self, ne_eq, not_true_eq_false, if_false, frameEnd, if_neg (not_lt.mpr long)]
  by_cases crc : ValidCrc update s.data s.len
  · obtain ⟨addressed, answerable⟩ := valid crc
    obtain ⟨⟨registers, reply⟩, processed⟩ := Option.isSome_iff_exists.mp answerable
    rw [Addressed] at addressed
    rw [if_neg (not_not_intro crc), if_neg (not_not_intro addressed), processed]
    exact ⟨_, rfl, by dsimp only; split <;> rfl⟩
  · rw [if_pos crc]
    exact ⟨_, rfl, rfl⟩

/-! ### Of the driver -/

theorem Inv.periodic (inv : Inv c update ⟨d, traffic⟩) (sound : Sound c update d .periodic) :
    ∃ next, (d.modbusPeriodic c update).map Prod.fst = some next ∧
      Inv c update ⟨next, traffic.next c update d .periodic⟩ := by
  rw [Driver.modbusPeriodic, Traffic.next]
  by_cases waiting : d.waiting = true
  · have empty : d.len = 0 := inv.free waiting
    have none : traffic.current = [] := List.length_eq_zero_iff.mp (inv.index.symm.trans empty)
    have same : { traffic with current := [] } = traffic := by rw [← none]
    simp only [waiting, if_true, same, ite_self]
    split
    · exact ⟨d, rfl, inv⟩
    · split
      · exact ⟨_, rfl, inv.ofEmpty empty rfl⟩
      · exact ⟨_, rfl, inv.ofEmpty empty rfl⟩
  · rw [if_neg waiting, if_neg waiting]
    by_cases stopped : d.recvTimer = 0
    · have same : Modbus.modbusPeriodic c update d.toStation = some (d.toStation, none) := if_pos stopped
      rw [same, if_neg (by omega)]
      exact ⟨_, rfl, inv.ofSame rfl rfl rfl⟩
    by_cases ends : d.recvTimer = 1
    · obtain ⟨long, valid⟩ := sound (Bool.not_eq_true _ ▸ waiting) ends
      obtain ⟨after, handed, empty⟩ := modbusPeriodic_of_ends (s := d.toStation) ends long valid
      rw [handed, if_pos ends]
      exact ⟨_, rfl, inv.ofEnd long empty⟩
    · rw [modbusPeriodic_of_running stopped ends, if_neg ends]
      exact ⟨_, rfl, inv.ofSame rfl rfl rfl⟩

theorem Inv.transmit (inv : Inv c update ⟨d, traffic⟩) : Inv c update ⟨d.txVect.1, traffic⟩ := by
  rw [Driver.txVect]
  split
  · exact inv.ofSame rfl rfl rfl
  · split
    · exact inv.ofSame rfl rfl rfl
    · split
      · next waiting => exact inv.ofEmpty (inv.free waiting) rfl
      · exact inv.ofSame rfl rfl rfl

theorem Inv.startTransmission (inv : Inv c update ⟨d, traffic⟩) (owner : Owner) (len : Nat)
    (between : d.crcLen = 0 → d.len = 0) :
    Inv c update ⟨(d.startTransmission update owner len).1, traffic⟩ := by
  rw [Driver.startTransmission]
  split
  · exact inv
  · next free => exact inv.ofEmpty (between (not_not.mp free)) rfl

theorem inv_modbusInit (data : Bytes) (registers : Registers) (requests : Owner → Bytes) (recvLen : Int) :
    Inv c update ⟨Driver.modbusInit data registers requests recvLen, ⟨[], [], []⟩⟩ where
  inside := Nat.zero_le _
  index := rfl
  stored _ small := absurd small (Nat.not_lt_zero _)
  handled := rfl
  free _ := rfl

variable [DecidableEq Owner]

theorem store_len (d : Driver Owner) (index : Nat) (byte : UInt8) : (d.store index byte).len = d.len := by
  rw [Driver.store]
  cases d.owner <;> rfl

theorem Inv.receive (inv : Inv c update ⟨d, traffic⟩) {error : Bool} {byte : UInt8}
    (sound : Sound c update d (.receive error byte)) :
    ∃ next, d.rxVect error byte = some next ∧
      Inv c update ⟨next, traffic.next c update d (.receive error byte)⟩ := by
  rw [Driver.rxVect, Traffic.next]
  cases error with
  | true => exact ⟨d, rfl, inv⟩
  | false =>
      simp only [Bool.false_eq_true, if_false, false_or]
      by_cases waiting : d.waiting = true
      · rw [if_pos waiting, if_pos waiting]
        split
        · exact ⟨d, rfl, inv⟩
        · exact ⟨_, rfl, inv.ofEmpty (inv.free waiting) (store_len ..)⟩
      · have room : d.len < MODBUS_BUFFER_LEN := sound rfl (Bool.not_eq_true _ ▸ waiting)
        rw [if_neg waiting, if_neg waiting, Modbus.rxVect, if_pos room]
        have index : d.len = traffic.current.length := inv.index
        refine ⟨_, rfl, ?_⟩
        exact {
          inside := room
          index := by
            show d.len + 1 = (traffic.current ++ [byte]).length
            rw [List.length_append, index]
            rfl
          stored := fun k small => by
            have small : k < d.len + 1 := small
            show Function.update d.data d.len byte k = frameOf (traffic.current ++ [byte]) k
            by_cases last : k = d.len
            · rw [last, Function.update_self, frameOf, index, List.getD_append_right _ _ _ _ le_rfl,
                Nat.sub_self]
              rfl
            · rw [Function.update_of_ne last, frameOf, List.getD_append _ _ _ _ (by omega)]
              exact inv.stored k (by show k < d.len; omega)
          handled := inv.handled
          free := fun held => absurd held waiting }

theorem Inv.request (inv : Inv c update ⟨d, traffic⟩) {owner : Owner} {data : Bytes} {len : Nat}
    (sound : Passes c update d data len) :
    ∃ next, ((d.put owner data).modbusRxstart c update owner len).map Prod.fst = some next ∧
      Inv c update ⟨next, traffic⟩ := by
  have own : (d.put owner data).requests owner = data := Function.update_self ..
  rw [Driver.modbusRxstart, own]
  rw [Passes] at sound
  by_cases addressed : Addressed c data
  · rw [if_pos (show data 0 = _ ∨ data 0 = _ from addressed)]
    cases processed : modbusClientProcess c update data len d.registers with
    | none =>
        rw [obeyed, if_pos addressed, processed] at sound
        exact sound.elim
    | some answered =>
        have registers : (d.put owner data).registers = d.registers := rfl
        rw [obeyed, if_pos addressed, processed] at sound
        rw [registers, processed]
        refine ⟨_, rfl, ?_⟩
        dsimp only
        split
        · exact inv.ofSame rfl rfl rfl
        · next elsewhere =>
            refine Inv.startTransmission ?_ owner len (sound elsewhere)
            exact inv.ofSame rfl rfl rfl
  · rw [obeyed, if_neg addressed] at sound
    rw [if_neg (show ¬(data 0 = _ ∨ data 0 = _) from addressed)]
    have inv : Inv c update ⟨d.put owner data, traffic⟩ := inv.ofSame rfl rfl rfl
    exact ⟨_, rfl, inv.startTransmission owner len (sound fun own => addressed (.inl own))⟩

theorem Inv.step {reception : Reception Owner} (inv : Inv c update reception) {event : Event Owner}
    (sound : Sound c update reception.driver event) :
    ∃ after, Reception.step c update (some reception) event = some after ∧ Inv c update after := by
  obtain ⟨d, traffic⟩ := reception
  cases event with
  | receive error byte =>
      obtain ⟨next, received, inv⟩ := inv.receive sound
      exact ⟨_, congrArg (Option.map _) received, inv⟩
  | periodic =>
      obtain ⟨next, ticked, inv⟩ := inv.periodic sound
      exact ⟨_, congrArg (Option.map _) ticked, inv⟩
  | transmit =>
      refine ⟨_, rfl, ?_⟩
      show Inv c update ⟨if d.txcie then d.txVect.1 else d, traffic⟩
      split
      · exact inv.transmit
      · exact inv
  | request owner data len fits =>
      obtain ⟨next, started, inv⟩ := inv.request sound
      exact ⟨_, congrArg (Option.map _) started, inv⟩

/-- The condition in a state, if that is defined. -/
def SoundIn (c : Config) (update : UInt16 → UInt8 → UInt16) (reception : Option (Reception Owner))
    (event : Event Owner) : Prop :=
  match reception with
  | none => True
  | some reception => Sound c update reception.driver event

instance (reception : Option (Reception Owner)) (event : Event Owner) :
    Decidable (SoundIn c update reception event) := by
  unfold SoundIn
  split <;> infer_instance

variable (c update)

/-- As long as every step meets the condition, the run stays inside of the buffers, every frame starts
at index 0, and the client is given the requests to the station. -/
theorem handles_requests (data : Bytes) (registers : Registers) (requests : Owner → Bytes)
    (recvLen : Int) (events : List (Event Owner))
    (sound : EachMeets (Reception.step c update) (SoundIn c update)
      (some ⟨Driver.modbusInit data registers requests recvLen, ⟨[], [], []⟩⟩) events) :
    ∃ reception, events.foldl (Reception.step c update)
        (some ⟨Driver.modbusInit data registers requests recvLen, ⟨[], [], []⟩⟩) = some reception ∧
      InStep c update reception := by
  have keeps (reception : Option (Reception Owner)) (event : Event Owner)
      (reached : ∃ here, reception = some here ∧ Inv c update here) (sound : SoundIn c update reception event) :
      ∃ after, Reception.step c update reception event = some after ∧ Inv c update after := by
    obtain ⟨_, rfl, inv⟩ := reached
    exact inv.step sound
  obtain ⟨reception, run, inv⟩ :=
    sound.invariant keeps ⟨_, rfl, inv_modbusInit data registers requests recvLen⟩
  exact ⟨reception, run, inv.toInStep⟩

end Receiver

/-! ## Runs in the configuration of the source -/

/-- A frame with its checksum and the silence behind it, in a driver without callers. -/
def arrival (message : List UInt8) : List (Event Empty) :=
  (frameWithCrc message).map (fun byte => .receive false byte.1) ++ [.periodic, .periodic]

/-- The driver after reset, with empty buffers. -/
def reset : Reception Empty :=
  ⟨Driver.modbusInit (fun _ => 0) ⟨fun _ => 0, []⟩ (fun _ _ => 0) 0, ⟨[], [], []⟩⟩

/-- A command that the station does not know. -/
theorem handles_requests_unknown :
    ∃ reception, (arrival [240, 7, 1, 2, 3]).foldl (Reception.step sourceConfig crc16Update) (some reset) =
        some reception ∧ InStep sourceConfig crc16Update reception :=
  handles_requests sourceConfig crc16Update (fun _ => 0) ⟨fun _ => 0, []⟩ (fun _ _ => 0) 0
    (arrival [240, 7, 1, 2, 3]) (by decide +kernel)

/-- Behind a frame for another station, the next one does not start at index 0. -/
theorem not_handles_requests :
    ¬∀ (c : Config) (update : UInt16 → UInt8 → UInt16) (events : List (Event Empty)),
      ∃ reception, events.foldl (Reception.step c update) (some reset) = some reception ∧
        InStep c update reception := by
  intro always
  obtain ⟨reception, run, inStep⟩ := always sourceConfig crc16Update (arrival [17, 3, 0, 0, 0, 1])
  have lengths : ((arrival [17, 3, 0, 0, 0, 1]).foldl (Reception.step sourceConfig crc16Update)
      (some reset)).map (fun reception => (reception.driver.len, reception.traffic.current.length)) =
        some (8, 0) := by decide +kernel
  rw [run, Option.map_some, Option.some.injEq, Prod.mk.injEq] at lengths
  have index := inStep.index
  rw [lengths.1, lengths.2] at index
  exact absurd index (by decide)

end Ethersex.Modbus
