import Mathlib
import Ethersex.Library.Bytes
import Ethersex.Library.Walks

/-!
# The MSR1 meter

Two kinds of records are requested in turn, and an interrupt receives them.  It may come between any two
statements of the periodic function.
-/

namespace Ethersex.Msr1

open Library

/-- `enum msr1_state`, which is also the kind of a record. -/
inductive Request where
  | e8
  | c0
deriving DecidableEq

/-- The length of the array in a record. -/
def Request.size : Request → Nat
  | .e8 => 22
  | .c0 => 76

/-- The first byte of a record. -/
def Request.first : Request → UInt8
  | .e8 => 5
  | .c0 => 0

/-- `struct msr1_e8_info` and `struct msr1_c0_info`. -/
structure Record where
  data : Bytes
  len : UInt8
  chksum : UInt8

/-- The place in `msr1_periodic`: outside, behind the assignment to `state`, behind that to `chksum`, and
behind that to `len`. -/
inductive Place where
  | outside
  | flipped
  | cleared
  | emptied
deriving DecidableEq

/-- The variables, where `data` are `e8_data` and `c0_data`, and `data_new` are `e8_data_new` and
`c0_data_new`.  `received` are the bytes since the last request, if there was one. -/
structure Meter where
  state : Request
  data : Request → Record
  data_new : Request → Record
  place : Place
  received : Option (List UInt8)

/-- Static variables. -/
def Meter.start : Meter := ⟨.e8, fun _ => ⟨fun _ => 0, 0, 0⟩, fun _ => ⟨fun _ => 0, 0, 0⟩, .outside, none⟩

/-- One statement is executed; a byte is received; or one is received with an error. -/
inductive Event where
  | statement
  | byte (data : UInt8)
  | error

/-- The next statement of `msr1_periodic`. -/
def Meter.periodic (m : Meter) : Meter :=
  let record := m.data_new m.state
  match m.place with
  | .outside =>
      { m with
        state := if m.state = .c0 then .e8 else .c0
        place := .flipped }
  | .flipped =>
      { m with
        data_new := Function.update m.data_new m.state { record with chksum := 0 }
        place := .cleared }
  | .cleared =>
      { m with
        data_new := Function.update m.data_new m.state { record with len := 0 }
        place := .emptied }
  | .emptied =>
      { m with
        place := .outside
        received := some [] }

/-- A byte for a record: the new record, and the one that is shown. -/
def Request.receive (kind : Request) (data : UInt8) (new shown : Record) : Record × Record :=
  let new : Record :=
    { data := Function.update new.data new.len.toNat data
      len := new.len + 1
      chksum := new.chksum ^^^ data }
  if new.len.toNat = kind.size then
    if new.data 0 = kind.first ∧ new.chksum = 0 then
      (new, { new with data := Function.update new.data 0 0 })
    else (new, { shown with data := Function.update shown.data 0 (shown.data 0 + 1) })
  else (new, shown)

/-- The interrupt; `none` if it stores the byte behind the array. -/
def Meter.interrupt (data : UInt8) (m : Meter) : Option Meter :=
  let new := m.data_new m.state
  if new.len.toNat < m.state.size then
    let (new, shown) := m.state.receive data new (m.data m.state)
    some { m with
      data := Function.update m.data m.state shown
      data_new := Function.update m.data_new m.state new
      received := m.received.map (· ++ [data]) }
  else none

def Meter.step (m : Meter) : Event → Option Meter
  | .statement => some m.periodic
  | .byte data => m.interrupt data
  | .error => some m

/-- A run, up to a byte that is stored behind the array. -/
def step (m : Option Meter) (event : Event) : Option Meter := m.bind fun m => m.step event

end Ethersex.Msr1

/-!
## Whole records

What is shown is replaced by whole records alone, as long as no surplus byte is received and no byte hits
`msr1_periodic` where it resets the record.
-/

namespace Ethersex.Msr1

open Library

/-- The bytes are a whole record. -/
structure Whole (kind : Request) (received : List UInt8) : Prop where
  length : received.length = kind.size
  first : received.head? = some kind.first
  xor : received.foldl (· ^^^ ·) 0 = 0

/-- The two records agree up to the first byte, which counts the errors. -/
def Agree (kind : Request) (data other : Bytes) : Prop := ∀ k, 0 < k → k < kind.size → data k = other k

/-- What is shown stays, or it is replaced by a whole record that was received since the last request. -/
def Replaced (kind : Request) (m next : Meter) : Prop :=
  Agree kind (next.data kind).data (m.data kind).data ∨
    ∃ received, next.received = some received ∧ Whole kind received ∧
      Agree kind (next.data kind).data (received.getD · 0)

/-- The byte is stored inside of the array, and what is shown is replaced by whole records alone. -/
def Sound (m : Option Meter) (event : Event) : Prop :=
  ∀ now ∈ m, ∃ next, now.step event = some next ∧ ∀ kind, Replaced kind now next

/-- A byte finds space in its record.  Before the first request, and within `msr1_periodic`, it is not the
last one of a record; between the resets of the checksum and of the length it is zero, and there is none
between the length and the request. -/
def Meter.Careful (now : Meter) (event : Event) : Prop :=
  let len := (now.data_new now.state).len.toNat
  match event with
  | .statement | .error => True
  | .byte data => len < now.state.size ∧
      (now.place ≠ .outside ∨ now.received = none → len + 1 < now.state.size) ∧
      (now.place = .cleared → data = 0) ∧ now.place ≠ .emptied

def Careful (m : Option Meter) (event : Event) : Prop := ∀ now ∈ m, now.Careful event

instance (now : Meter) : (event : Event) → Decidable (now.Careful event)
  | .statement => isTrue trivial
  | .byte _ => inferInstanceAs (Decidable (_ ∧ _))
  | .error => isTrue trivial

instance : (m : Option Meter) → (event : Event) → Decidable (Careful m event)
  | none, _ => isTrue fun now is => absurd is (Option.not_mem_none now)
  | some m, event => decidable_of_iff (m.Careful event) (by simp [Careful])

/-- What the record holds that is being received. -/
structure Holds (kind : Request) (received : List UInt8) (record : Record) : Prop where
  len : record.len.toNat = received.length
  fits : received.length ≤ kind.size
  data : ∀ k, k < received.length → record.data k = received.getD k 0
  chksum : record.chksum = received.foldl (· ^^^ ·) 0

/-- The record since the last request, and how far it is reset for the next one. -/
def Inv (m : Meter) : Prop :=
  let record := m.data_new m.state
  match m.place with
  | .outside => ∀ received, m.received = some received → Holds m.state received record
  | .flipped => True
  | .cleared => record.chksum = 0
  | .emptied => record.chksum = 0 ∧ record.len = 0

section Steps

variable {kind : Request} {m next : Meter} {data : UInt8} {received : List UInt8} {new shown : Record}

theorem Agree.refl (kind : Request) (data : Bytes) : Agree kind data data := fun _ _ _ => rfl

theorem agree_update (kind : Request) (data : Bytes) (value : UInt8) :
    Agree kind (Function.update data 0 value) data := fun _ positive _ =>
  Function.update_of_ne (Nat.pos_iff_ne_zero.mp positive) _ _

theorem size_lt (kind : Request) : kind.size < 256 := by cases kind <;> decide

theorem len_succ (inside : new.len.toNat < kind.size) : (new.len + 1).toNat = new.len.toNat + 1 := by
  rw [UInt8.toNat_add]
  exact Nat.mod_eq_of_lt (Nat.lt_of_le_of_lt inside (size_lt kind))

/-- A byte that is not the last one of a record. -/
theorem receive_more (more : new.len.toNat + 1 < kind.size) :
    (kind.receive data new shown).1.chksum = new.chksum ^^^ data ∧
      (kind.receive data new shown).2 = shown := by
  have last : ¬(new.len + 1).toNat = kind.size := by
    rw [len_succ (Nat.lt_of_succ_lt more)]
    exact Nat.ne_of_lt more
  rw [Request.receive, if_neg last]
  exact ⟨rfl, rfl⟩

/-- The record that is received holds one byte more. -/
theorem Holds.receive (holds : Holds kind received new) (inside : new.len.toNat < kind.size) :
    Holds kind (received ++ [data]) (kind.receive data new shown).1 := by
  have same : (kind.receive data new shown).1 =
      ⟨Function.update new.data new.len.toNat data, new.len + 1, new.chksum ^^^ data⟩ := by
    unfold Request.receive
    dsimp only
    split_ifs <;> rfl
  rw [same]
  refine ⟨?_, ?_, ?_, ?_⟩
  · rw [len_succ inside, holds.len, List.length_append, List.length_singleton]
  · rw [List.length_append, List.length_singleton, ← holds.len]
    exact inside
  · intro k small
    dsimp only
    rw [holds.len]
    rw [List.length_append, List.length_singleton] at small
    obtain before | rfl := Nat.lt_succ_iff_lt_or_eq.mp small
    · rw [Function.update_of_ne (Nat.ne_of_lt before), holds.data k before,
        List.getD_append received [data] 0 k before]
    · rw [Function.update_self, List.getD_append_right received [data] 0 _ le_rfl, Nat.sub_self]
      rfl
  · rw [holds.chksum, List.foldl_append]
    rfl

/-- What is shown is replaced by a record that is whole. -/
theorem Holds.replaces (holds : Holds kind received new) (inside : new.len.toNat < kind.size) :
    Agree kind (kind.receive data new shown).2.data shown.data ∨
      Whole kind (received ++ [data]) ∧
        Agree kind (kind.receive data new shown).2.data ((received ++ [data]).getD · 0) := by
  have holds' := @Holds.receive kind data received new shown holds inside
  revert holds'
  unfold Request.receive
  dsimp only
  split_ifs with last right
  · intro holds'
    have length : (received ++ [data]).length = kind.size := holds'.len.symm.trans last
    have positive : 0 < (received ++ [data]).length := by simp
    refine .inr ⟨⟨length, ?_, holds'.chksum.symm.trans right.2⟩, ?_⟩
    · have head : Function.update new.data new.len.toNat data 0 = (received ++ [data]).getD 0 0 :=
        holds'.data 0 positive
      rw [right.1, List.getD_eq_getElem _ _ positive] at head
      rw [List.head?_eq_getElem?, List.getElem?_eq_getElem positive, ← head]
    · intro k later small
      exact (agree_update kind _ 0 k later small).trans (holds'.data k (length ▸ small))
  · exact fun _ => .inl (agree_update kind shown.data _)
  · exact fun _ => .inl (Agree.refl kind shown.data)

theorem Inv.periodic (inv : Inv m) : Inv m.periodic := by
  unfold Inv at inv ⊢
  unfold Meter.periodic
  cases place : m.place with
  | outside => trivial
  | flipped =>
      dsimp only
      rw [Function.update_self]
  | cleared =>
      rw [place] at inv
      dsimp only
      rw [Function.update_self]
      exact ⟨inv, rfl⟩
  | emptied =>
      rw [place] at inv
      dsimp only at inv ⊢
      intro received is
      obtain rfl := Option.some.inj is
      exact ⟨congrArg UInt8.toNat inv.2, Nat.zero_le _, fun k small => absurd small (Nat.not_lt_zero k), inv.1⟩

/-- `msr1_periodic` leaves what is shown. -/
theorem replaced_periodic (m : Meter) (kind : Request) : Replaced kind m m.periodic := by
  refine .inl ?_
  unfold Meter.periodic
  cases m.place <;> exact Agree.refl kind _

/-- What an interrupt shows of the other kind stays. -/
theorem replaced_of_state {new shown : Record}
    (next_ : next = { m with
      data := Function.update m.data m.state shown
      data_new := Function.update m.data_new m.state new
      received := m.received.map (· ++ [data]) })
    (replaced : Agree m.state shown.data (m.data m.state).data ∨ ∃ received,
      next.received = some received ∧ Whole m.state received ∧ Agree m.state shown.data (received.getD · 0))
    (kind : Request) : Replaced kind m next := by
  obtain rfl := next_
  unfold Replaced
  dsimp only
  by_cases same : kind = m.state
  · obtain rfl := same
    rw [Function.update_self]
    exact replaced
  · rw [Function.update_of_ne same]
    exact .inl (Agree.refl kind _)

theorem interrupt_eq (inside : (m.data_new m.state).len.toNat < m.state.size) :
    m.interrupt data = some { m with
      data := Function.update m.data m.state
        (m.state.receive data (m.data_new m.state) (m.data m.state)).2
      data_new := Function.update m.data_new m.state
        (m.state.receive data (m.data_new m.state) (m.data m.state)).1
      received := m.received.map (· ++ [data]) } := by
  rw [Meter.interrupt, if_pos inside]

theorem Inv.interrupt (inv : Inv m) (careful : m.Careful (.byte data)) :
    ∃ next, m.interrupt data = some next ∧ Inv next ∧ ∀ kind, Replaced kind m next := by
  obtain ⟨inside, early, zero, closed⟩ := careful
  unfold Inv at inv
  dsimp only at inv
  cases place : m.place with
  | outside =>
      rw [place] at inv
      refine ⟨_, interrupt_eq inside, ?_, ?_⟩
      · unfold Inv
        dsimp only
        rw [place, Function.update_self]
        intro received is
        obtain ⟨before, was, rfl⟩ := Option.map_eq_some_iff.mp is
        exact (inv before was).receive inside
      · refine replaced_of_state rfl ?_
        cases was : m.received with
        | none => exact .inl (by rw [(receive_more (early (.inr was))).2]; exact Agree.refl _ _)
        | some received =>
            refine ((inv received was).replaces inside).imp id fun whole => ⟨_, ?_, whole⟩
            rfl
  | flipped =>
      have more := early (.inl (by rw [place]; decide))
      refine ⟨_, interrupt_eq inside, ?_, ?_⟩
      · unfold Inv
        rw [place]
        trivial
      · refine replaced_of_state rfl (.inl ?_)
        rw [(receive_more more).2]
        exact Agree.refl _ _
  | cleared =>
      rw [place] at inv
      have more := early (.inl (by rw [place]; decide))
      obtain rfl := zero place
      refine ⟨_, interrupt_eq inside, ?_, ?_⟩
      · unfold Inv
        dsimp only
        rw [place, Function.update_self]
        exact (receive_more more).1.trans (by rw [inv]; rfl)
      · refine replaced_of_state rfl (.inl ?_)
        rw [(receive_more more).2]
        exact Agree.refl _ _
  | emptied =>
      exact absurd place closed

theorem Inv.step (inv : Inv m) {event : Event} (careful : m.Careful event) :
    ∃ next, m.step event = some next ∧ Inv next ∧ ∀ kind, Replaced kind m next := by
  cases event with
  | statement => exact ⟨m.periodic, rfl, inv.periodic, replaced_periodic m⟩
  | byte data => exact inv.interrupt careful
  | error => exact ⟨m, rfl, inv, fun kind => .inl (Agree.refl kind _)⟩

end Steps

theorem each_sound {m : Meter} (inv : Inv m) {events : List Event}
    (careful : EachMeets step Careful (some m) events) : EachMeets step Sound (some m) events := by
  induction events generalizing m with
  | nil => trivial
  | cons event events ih =>
      obtain ⟨now, later⟩ := careful
      obtain ⟨next, stepped, inv', replaced⟩ := inv.step (now m rfl)
      have taken : step (some m) event = some next := stepped
      refine ⟨?_, ?_⟩
      · intro other is
        obtain rfl := Option.some.inj is
        exact ⟨next, stepped, replaced⟩
      · rw [taken] at later ⊢
        exact ih inv' later

/-- Every byte is stored inside of its array, and what is shown is replaced by whole records alone, in every
run in which no surplus byte is received and none hits `msr1_periodic` where it matters. -/
theorem sound_of_careful (events : List Event) (careful : EachMeets step Careful (some .start) events) :
    EachMeets step Sound (some .start) events := by
  refine each_sound ?_ careful
  intro received is
  exact absurd is (Option.some_ne_none received).symm

/-- An E8 record behind its request. -/
def oneRecord : List Event :=
  List.replicate 8 Event.statement ++ Event.byte 5 :: (List.replicate 20 (Event.byte 0) ++ [Event.byte 5])

theorem sound_of_careful_oneRecord : EachMeets step Sound (some .start) oneRecord :=
  sound_of_careful oneRecord (by decide)

theorem isSome_of_sound {m : Meter} {events : List Event} (sound : EachMeets step Sound (some m) events) :
    (events.foldl step (some m)).isSome = true := by
  induction events generalizing m with
  | nil => rfl
  | cons event events ih =>
      obtain ⟨next, stepped, -⟩ := sound.1 m rfl
      have taken : step (some m) event = some next := stepped
      have later := sound.2
      rw [taken] at later
      rw [List.foldl_cons, taken]
      exact ih later

/-- A surplus byte is stored behind the record. -/
theorem surplus_not_sound : ¬EachMeets step Sound (some .start) (oneRecord ++ [.byte 0]) := by
  intro sound
  have inside := isSome_of_sound sound
  have outside : ((oneRecord ++ [Event.byte 0]).foldl step (some .start)).isSome = false := by decide
  exact Bool.false_ne_true (outside.symm.trans inside)

end Ethersex.Msr1
