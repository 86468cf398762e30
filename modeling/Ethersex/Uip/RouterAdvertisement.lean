import Mathlib
import Ethersex.Library.Bytes

/-!
# Router advertisements

The loop over the options of a router advertisement.  It compares the length of an option, which counts
units of eight octets, with the octets that are left, takes options of no length, and reads the length of an
option before it knows whether there is one.

Offsets are into `uip_buf`, where the frame is, and behind the frame what was there before.
-/

namespace Ethersex.Uip

open Library

/-- A received frame with a router advertisement that `uip_process` accepts: the IP header does not report
more than was received. -/
structure Advertisement where
  uipBuf : Bytes
  received : Nat
  accepted : (uipBuf 18).toNat * 256 + (uipBuf 19).toNat ≤ received

/-- What the loop does with an option. -/
inductive Action where
  | neighborAdd (ipaddr mac : List UInt8)
  | autoconfig (addr : List UInt16) (draddr : List UInt8)
  deriving DecidableEq, Repr

/-- One pass of the loop: the bytes of the buffer that it reads, what it does, and the next option. -/
structure Pass where
  reads : List Nat
  action : Option Action
  next : Option Nat

namespace Advertisement

section Loop

variable (ra : Advertisement)

/-- `uip_len`, as `uip_process` has set it: without the link-layer header. -/
def uipLen : Nat := ((ra.uipBuf 18).toNat * 256 + (ra.uipBuf 19).toNat + 40) % 2 ^ 16

/-- Where the received packet ends. -/
def packetEnd : Nat := min ra.received (14 + ra.uipLen)

def slice (offset count : Nat) : List UInt8 := (List.range count).map fun k => ra.uipBuf (offset + k)

/-- Two bytes of a prefix. -/
def word (offset : Nat) : UInt16 :=
  (ra.uipBuf offset).toUInt16 <<< 8 ||| (ra.uipBuf (offset + 1)).toUInt16

def srcipaddr : List UInt8 := ra.slice 22 16

def type (option : Nat) : UInt8 := ra.uipBuf option

def length (option : Nat) : Nat := (ra.uipBuf (option + 1)).toNat

def prefixLength (option : Nat) : UInt8 := ra.uipBuf (option + 2)

def isntPrefix (option : Nat) : Bool := (ra.slice (option + 20) 4).any (· ≠ 0)

/-- A source link-layer address. -/
def source (option : Nat) : Pass :=
  if ra.length option ≠ 1 then ⟨[option + 1, option], none, none⟩
  else
    ⟨[option + 1, option] ++ List.range' (option + 2) 6 ++ List.range' 22 16,
      some (.neighborAdd ra.srcipaddr (ra.slice (option + 2) 6)), some (option + ra.length option * 8)⟩

/-- A prefix information. -/
def information (option : Nat) : Pass :=
  if ra.length option ≠ 4 then ⟨[option + 1, option], none, none⟩
  else if ra.prefixLength option ≠ 64 then ⟨[option + 1, option, option + 2], none, none⟩
  else
    ⟨[option + 1, option, option + 2] ++ List.range' (option + 16) 8 ++
        (if ra.isntPrefix option then List.range' (option + 16) 16 else List.range' 22 16),
      some (.autoconfig ((List.range 4).map fun k => ra.word (option + 16 + 2 * k))
        (if ra.isntPrefix option then ra.slice (option + 16) 16 else ra.srcipaddr)),
      some (option + ra.length option * 8)⟩

def pass (option : Nat) : Pass :=
  if option + ra.length option ≤ ra.uipLen then
    if ra.type option = 1 then ra.source option
    else if ra.type option = 3 then ra.information option
    else ⟨[option + 1, option], none, some (option + ra.length option * 8)⟩
  else ⟨[option + 1], none, none⟩

/-- The loop from an option on: the actions in turn, or none if it has not ended. -/
def loop : Nat → Nat → Option (List Action)
  | 0, _ => none
  | passes + 1, option =>
      match (ra.pass option).next with
      | none => some (ra.pass option).action.toList
      | some next => (loop passes next).map ((ra.pass option).action.toList ++ ·)

/-- `uip_router_parse_advertisement`, in at most so many passes. -/
def uipRouterParseAdvertisement (passes : Nat) : Option (List Action) := ra.loop passes 70

/-- The options that the loop comes to. -/
inductive Visits (start : Nat) : Nat → Prop where
  | start : Visits start start
  | next {option next : Nat} (before : Visits start option) (on : (ra.pass option).next = some next) :
      Visits start next

/-- The loop from an option on ends, reads nothing behind the packet, and uses only options inside it. -/
structure SafeFrom (start : Nat) : Prop where
  ends : ∃ passes, (ra.loop passes start).isSome
  reads : ∀ option, ra.Visits start option → ∀ offset ∈ (ra.pass option).reads, offset < ra.packetEnd
  acts : ∀ option, ra.Visits start option → (ra.pass option).action.isSome →
    option + 8 * ra.length option ≤ ra.packetEnd

/-- The loop stops at this option, without a byte from behind the packet. -/
def Stops (option : Nat) : Prop :=
  ra.uipLen < option + ra.length option ∨ ra.type option = 1 ∧ ra.length option ≠ 1 ∨
    ra.type option = 3 ∧
      (ra.length option ≠ 4 ∨ option + 2 < ra.packetEnd ∧ ra.prefixLength option ≠ 64)

/-- Options with a length that lie inside the packet, one behind the other, and then one that begins
inside and stops the loop. -/
inductive Stopped : Nat → Prop where
  | stop {option : Nat} (inside : option + 1 < ra.packetEnd) (stops : ra.Stops option) : Stopped option
  | option {option : Nat} (length : ra.length option ≠ 0)
      (inside : option + 8 * ra.length option ≤ ra.packetEnd)
      (rest : Stopped (option + 8 * ra.length option)) : Stopped option

end Loop

variable {ra : Advertisement} {option : Nat}

/-! ## One pass -/

/-- The ways through a pass. -/
inductive Turn (ra : Advertisement) (option : Nat) : Pass → Prop where
  | late (beyond : ra.uipLen < option + ra.length option) : Turn ra option ⟨[option + 1], none, none⟩
  | wrong (within : option + ra.length option ≤ ra.uipLen)
      (length : ra.type option = 1 ∧ ra.length option ≠ 1 ∨ ra.type option = 3 ∧ ra.length option ≠ 4) :
      Turn ra option ⟨[option + 1, option], none, none⟩
  | wrongPrefix (within : option + ra.length option ≤ ra.uipLen) (type : ra.type option = 3)
      (length : ra.length option = 4) (prefixLength : ra.prefixLength option ≠ 64) :
      Turn ra option ⟨[option + 1, option, option + 2], none, none⟩
  | on (within : option + ra.length option ≤ ra.uipLen)
      (source : ra.type option = 1 → ra.length option = 1)
      (information : ra.type option = 3 → ra.length option = 4 ∧ ra.prefixLength option = 64)
      {reads : List Nat} {action : Option Action}
      (near : ∀ offset ∈ reads, offset ≤ option ∨ offset < option + 8 * ra.length option ∨ offset < 38) :
      Turn ra option ⟨(option + 1) :: reads, action, some (option + 8 * ra.length option)⟩

theorem turn (ra : Advertisement) (option : Nat) : Turn ra option (ra.pass option) := by
  rw [pass]
  split_ifs with within source information
  · have differ : ra.type option ≠ 3 := by
      rw [source]
      decide
    rw [Advertisement.source, Nat.mul_comm]
    split_ifs with wrong
    · exact .wrong within (.inl ⟨source, wrong⟩)
    · have length := not_not.mp wrong
      have near : ∀ offset ∈ option :: (List.range' (option + 2) 6 ++ List.range' 22 16),
          offset ≤ option ∨ offset < option + 8 * ra.length option ∨ offset < 38 := by
        intro offset read
        rw [List.mem_cons, List.mem_append, List.mem_range'_1, List.mem_range'_1] at read
        omega
      exact .on within (fun _ => length) (absurd · differ) near
  · rw [Advertisement.information, Nat.mul_comm]
    split_ifs with wrong wrong' isntPrefix
    · exact .wrong within (.inr ⟨information, wrong⟩)
    · exact .wrongPrefix within information (not_not.mp wrong) wrong'
    · have length := not_not.mp wrong
      have near : ∀ offset ∈ option :: (option + 2) ::
            (List.range' (option + 16) 8 ++ List.range' (option + 16) 16),
          offset ≤ option ∨ offset < option + 8 * ra.length option ∨ offset < 38 := by
        intro offset read
        rw [List.mem_cons, List.mem_cons, List.mem_append, List.mem_range'_1, List.mem_range'_1] at read
        omega
      exact .on within (absurd · source) (fun _ => ⟨length, not_not.mp wrong'⟩) near
    · have length := not_not.mp wrong
      have near : ∀ offset ∈ option :: (option + 2) ::
            (List.range' (option + 16) 8 ++ List.range' 22 16),
          offset ≤ option ∨ offset < option + 8 * ra.length option ∨ offset < 38 := by
        intro offset read
        rw [List.mem_cons, List.mem_cons, List.mem_append, List.mem_range'_1, List.mem_range'_1] at read
        omega
      exact .on within (absurd · source) (fun _ => ⟨length, not_not.mp wrong'⟩) near
  · have near : ∀ offset ∈ [option],
        offset ≤ option ∨ offset < option + 8 * ra.length option ∨ offset < 38 := by
      intro offset read
      exact .inl (Nat.le_of_eq (List.mem_singleton.mp read))
    rw [Nat.mul_comm]
    exact .on within (absurd · source) (absurd · information) near
  · exact .late (not_le.mp within)

theorem pass_length : option + 1 ∈ (ra.pass option).reads := by
  have turn := turn ra option
  generalize ra.pass option = pass at turn
  cases turn <;> exact List.mem_cons_self

theorem pass_next {following : Nat} (goes : (ra.pass option).next = some following) :
    following = option + 8 * ra.length option := by
  have turn := turn ra option
  generalize ra.pass option = pass at turn goes
  cases turn with
  | on => exact (Option.some.inj goes).symm
  | late => cases goes
  | wrong => cases goes
  | wrongPrefix => cases goes

theorem action_of_none (last : (ra.pass option).next = none) : (ra.pass option).action = none := by
  have turn := turn ra option
  generalize ra.pass option = pass at turn last
  cases turn with
  | on => cases last
  | late => rfl
  | wrong => rfl
  | wrongPrefix => rfl

/-- Where the loop ends, the option is one that stops it, or there is a read behind the packet. -/
theorem stops_of_pass (last : (ra.pass option).next = none)
    (reads : ∀ offset ∈ (ra.pass option).reads, offset < ra.packetEnd) : ra.Stops option := by
  have turn := turn ra option
  generalize ra.pass option = pass at turn last reads
  cases turn with
  | late beyond => exact .inl beyond
  | wrong within length =>
    obtain source | ⟨type, length⟩ := length
    · exact .inr (.inl source)
    · exact .inr (.inr ⟨type, .inl length⟩)
  | wrongPrefix within type length prefixLength =>
    exact .inr (.inr ⟨type, .inr ⟨reads (option + 2) (by simp), prefixLength⟩⟩)
  | on => cases last

theorem pass_of_stops (stops : ra.Stops option) (inside : option + 1 < ra.packetEnd) :
    (ra.pass option).next = none ∧ ∀ offset ∈ (ra.pass option).reads, offset < ra.packetEnd := by
  have turn := turn ra option
  generalize ra.pass option = pass at turn
  cases turn with
  | late beyond =>
    refine ⟨rfl, fun offset read => ?_⟩
    rw [List.mem_singleton.mp read]
    exact inside
  | wrong within length =>
    refine ⟨rfl, fun offset read => ?_⟩
    simp only [List.mem_cons, List.not_mem_nil, or_false] at read
    omega
  | wrongPrefix within type length prefixLength =>
    refine ⟨rfl, fun offset read => ?_⟩
    obtain beyond | ⟨type', -⟩ | ⟨-, wrong | ⟨inside', -⟩⟩ := stops
    · omega
    · rw [type] at type'
      exact absurd type' (by decide)
    · exact absurd length wrong
    · simp only [List.mem_cons, List.not_mem_nil, or_false] at read
      omega
  | on within source information near =>
    obtain beyond | ⟨type, wrong⟩ | ⟨type, wrong | ⟨-, wrong⟩⟩ := stops
    · omega
    · exact absurd (source type) wrong
    · exact absurd (information type).1 wrong
    · exact absurd (information type).2 wrong

/-- An option inside the packet is read inside the packet. -/
theorem reads_of_inside (behind : 38 ≤ option) (length : ra.length option ≠ 0)
    (inside : option + 8 * ra.length option ≤ ra.packetEnd) :
    ∀ offset ∈ (ra.pass option).reads, offset < ra.packetEnd := by
  have turn := turn ra option
  generalize ra.pass option = pass at turn
  intro offset read
  cases turn with
  | late =>
    simp only [List.mem_cons, List.not_mem_nil, or_false] at read
    omega
  | wrong =>
    simp only [List.mem_cons, List.not_mem_nil, or_false] at read
    omega
  | wrongPrefix =>
    simp only [List.mem_cons, List.not_mem_nil, or_false] at read
    omega
  | on within source information near =>
    obtain rfl | read := List.mem_cons.mp read
    · omega
    · have close := near offset read
      omega

/-! ## The loop -/

/-- The options behind the first one. -/
theorem Visits.cases_start {start option : Nat} (visits : ra.Visits start option) :
    option = start ∨ ∃ next, (ra.pass start).next = some next ∧ ra.Visits next option := by
  induction visits with
  | start => exact .inl rfl
  | @next option next before on ih =>
    right
    obtain rfl | ⟨second, first, rest⟩ := ih
    · exact ⟨next, on, .start⟩
    · exact ⟨second, first, .next rest on⟩

theorem Visits.of_next {start next option : Nat} (on : (ra.pass start).next = some next)
    (visits : ra.Visits next option) : ra.Visits start option := by
  induction visits with
  | start => exact .next .start on
  | next before on' ih => exact .next ih on'

theorem safeFrom_of_none (last : (ra.pass option).next = none)
    (reads : ∀ offset ∈ (ra.pass option).reads, offset < ra.packetEnd) : ra.SafeFrom option := by
  constructor
  · exact ⟨1, by rw [loop, last]; rfl⟩
  · intro visited visits
    obtain rfl | ⟨next, on, -⟩ := visits.cases_start
    · exact reads
    · rw [last] at on
      cases on
  · intro visited visits acts
    obtain rfl | ⟨next, on, -⟩ := visits.cases_start
    · rw [action_of_none last] at acts
      cases acts
    · rw [last] at on
      cases on

theorem safeFrom_of_next {following : Nat} (on : (ra.pass option).next = some following)
    (reads : ∀ offset ∈ (ra.pass option).reads, offset < ra.packetEnd)
    (inside : option + 8 * ra.length option ≤ ra.packetEnd) (safe : ra.SafeFrom following) :
    ra.SafeFrom option := by
  constructor
  · obtain ⟨passes, ends⟩ := safe.ends
    refine ⟨passes + 1, ?_⟩
    rw [loop, on]
    dsimp only
    rw [Option.isSome_map]
    exact ends
  · intro visited visits
    obtain rfl | ⟨second, on', rest⟩ := visits.cases_start
    · exact reads
    · obtain rfl := Option.some.inj (on.symm.trans on')
      exact safe.reads visited rest
  · intro visited visits acts
    obtain rfl | ⟨second, on', rest⟩ := visits.cases_start
    · exact inside
    · obtain rfl := Option.some.inj (on.symm.trans on')
      exact safe.acts visited rest acts

theorem SafeFrom.following (safe : ra.SafeFrom option) {passes following : Nat}
    (on : (ra.pass option).next = some following)
    (ends : (ra.loop (passes + 1) option).isSome) :
    ra.SafeFrom following ∧ (ra.loop passes following).isSome := by
  rw [loop, on] at ends
  dsimp only at ends
  rw [Option.isSome_map] at ends
  refine ⟨⟨⟨passes, ends⟩, ?_, ?_⟩, ends⟩
  · intro visited visits
    exact safe.reads visited (.of_next on visits)
  · intro visited visits
    exact safe.acts visited (.of_next on visits)

theorem stopped_of_safeFrom {passes : Nat} (safe : ra.SafeFrom option)
    (ends : (ra.loop passes option).isSome) : ra.Stopped option := by
  induction passes generalizing option with
  | zero => cases ends
  | succ passes ih =>
    have reads := safe.reads option .start
    cases on : (ra.pass option).next with
    | none => exact .stop (reads _ pass_length) (stops_of_pass on reads)
    | some following =>
      obtain ⟨rest, ends⟩ := safe.following on ends
      have stopped := ih rest ends
      obtain rfl := pass_next on
      by_cases length : ra.length option = 0
      · rw [length, Nat.mul_zero, Nat.add_zero] at stopped
        exact stopped
      · have begins := rest.reads _ .start _ pass_length
        exact .option length (by omega) stopped

theorem safeFrom_of_stopped (stopped : ra.Stopped option) (behind : 38 ≤ option) : ra.SafeFrom option := by
  induction stopped with
  | stop inside stops =>
    obtain ⟨last, reads⟩ := pass_of_stops stops inside
    exact safeFrom_of_none last reads
  | @option option length inside rest ih =>
    have reads := reads_of_inside behind length inside
    cases on : (ra.pass option).next with
    | none => exact safeFrom_of_none on reads
    | some following =>
      obtain rfl := pass_next on
      exact safeFrom_of_next on reads inside (ih (Nat.le_add_right_of_le behind))

/-- The loop behaves exactly where some option inside the packet stops it. -/
theorem safe_iff (ra : Advertisement) : ra.SafeFrom 70 ↔ ra.Stopped 70 := by
  constructor
  · intro safe
    obtain ⟨passes, ends⟩ := safe.ends
    exact stopped_of_safeFrom safe ends
  · intro stopped
    exact safeFrom_of_stopped stopped (by decide)

/-- An advertisement with an option of no length. -/
def noLength : Advertisement where
  uipBuf := fun k => if k = 19 then 32 else 0
  received := 86
  accepted := by decide

theorem noLength_unsafe : ¬noLength.SafeFrom 70 := by
  intro safe
  obtain ⟨passes, ends⟩ := safe.ends
  cases stopped_of_safeFrom safe ends with
  | stop inside stops => exact absurd stops (by unfold Stops; decide)
  | option length => exact length rfl

end Advertisement

end Ethersex.Uip
