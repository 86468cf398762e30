import Mathlib
import Ethersex.Library.Bytes
import Ethersex.Library.Walks

/-!
# The I2C slave

The interrupt of a slave on the I2C bus, and what a master can do on the bus.
-/

namespace Ethersex.I2cSlave

open Library

/-- `I2C_SLAVE_MAXDATAPAKETLEN`. -/
def maxDataPaketLen : Nat := 34

/-- `struct i2c_slave_data` with the data register and `cfg.request_bootloader`.  `orders` are the values
that `kommando` was set to. -/
structure Slave where
  TWDR : UInt8
  byteanzahl : UInt8
  smbuscommand : UInt8
  smbuscount : UInt8
  kommando : UInt8
  buf : Bytes
  request_bootloader : Bool
  orders : List UInt8

namespace Slave

/-- The status 0x80: a data byte was received. -/
def received (s : Slave) : Option Slave :=
  let s := if s.byteanzahl = 0 then { s with smbuscommand := s.TWDR }
    else if s.byteanzahl = 1 then { s with smbuscount := s.TWDR }
    else s
  let stored : Option Slave :=
    if s.smbuscommand = 0xF0 ∧ s.smbuscount = 1 ∧ 0xF1 = s.TWDR then
      some { s with request_bootloader := true }
    else if s.smbuscommand = 0x40 ∧ s.byteanzahl > 1 then
      let index := s.byteanzahl.toNat - 2
      if index < maxDataPaketLen then
        let s := { s with
          buf := Function.update s.buf index s.TWDR
          smbuscount := s.smbuscount - 1 }
        if s.smbuscount = 0 then
          some { s with
            kommando := s.buf 0
            orders := s.orders ++ [s.buf 0] }
        else some s
      else none
    else some s
  stored.map fun s => { s with byteanzahl := s.byteanzahl + 1 }

/-- The status 0xB8: a byte was sent, and the master wants another one. -/
def sent (s : Slave) : Option Slave :=
  let loaded : Option Slave :=
    if s.smbuscommand = 0x44 then
      if s.smbuscount < 0x20 then
        let index := s.smbuscount.toNat
        if index < maxDataPaketLen then
          some { s with
            TWDR := s.buf index
            smbuscount := s.smbuscount + 1 }
        else none
      else some s
    else some { s with TWDR := s.TWDR + 1 }
  loaded.map fun s => { s with byteanzahl := s.byteanzahl + 1 }

/-- `SIGNAL (SIG_2WIRE_SERIAL)`; `none` if the buffer is accessed outside. -/
def interrupt (status : UInt8) (s : Slave) : Option Slave :=
  if status = 0x80 then s.received
  else if status = 0x60 then some { s with byteanzahl := 0 }
  else if status = 0xA8 then
    if s.smbuscommand = 0x44 then
      some { s with
        TWDR := 0x20
        smbuscount := 0 }
    else some { s with TWDR := 0x10 }
  else if status = 0xB8 then s.sent
  else some s

end Slave

/-- The slave is not addressed, it receives, or it sends. -/
inductive Mode where
  | idle
  | receiving
  | sending
deriving DecidableEq

/-- The slave at the bus, with the bytes that were written since it was addressed. -/
structure Bus where
  slave : Slave
  mode : Mode
  written : List UInt8

/-- What a master does: it addresses the slave to write or to read; it sends a byte; it takes one, and
acknowledges it or not; or it stops. -/
inductive Event where
  | write
  | data (value : UInt8)
  | read
  | take (ack : Bool)
  | stop

def Bus.start : Bus := ⟨⟨0, 0, 0, 0, 0, fun _ => 0, false, []⟩, .idle, []⟩

/-- The status that the event causes, if it concerns the slave. -/
def Bus.step (b : Bus) : Event → Option Bus
  | .write => (b.slave.interrupt 0x60).map fun slave => ⟨slave, .receiving, []⟩
  | .data value =>
      if b.mode = .receiving then
        ({ b.slave with TWDR := value }.interrupt 0x80).map fun slave =>
          { b with
            slave
            written := b.written ++ [value] }
      else some b
  | .read => (b.slave.interrupt 0xA8).map fun slave =>
      { b with
        slave
        mode := .sending }
  | .take ack =>
      if b.mode = .sending then
        if ack then (b.slave.interrupt 0xB8).map fun slave => { b with slave }
        else (b.slave.interrupt 0xC0).map fun slave =>
          { b with
            slave
            mode := .idle }
      else some b
  | .stop =>
      if b.mode = .receiving then (b.slave.interrupt 0xA0).map fun slave =>
        { b with
          slave
          mode := .idle }
      else some { b with mode := .idle }

/-- A run, up to an access outside of the buffer. -/
def step (b : Option Bus) (event : Event) : Option Bus := b.bind fun b => b.step event

end Ethersex.I2cSlave

/-!
## Block writes

The buffer is accessed inside of its bounds, and an order is accepted only behind a complete block, exactly
if no block is longer than the buffer and no order is read behind the wrap of the counter.
-/

namespace Ethersex.I2cSlave

open Library

/-- A block write whose data starts with the order, and is complete. -/
def Complete (written : List UInt8) (order : UInt8) : Prop :=
  ∃ count rest, written = 0x40 :: count :: order :: rest ∧ rest.length + 1 = count.toNat

/-- `kommando` stays, or it is set to the order of a complete block. -/
def Accepts (s next : Slave) (written : List UInt8) : Prop :=
  next.orders = s.orders ∧ next.kommando = s.kommando ∨
    ∃ order, next.orders = s.orders ++ [order] ∧ next.kommando = order ∧ Complete written order

/-- The buffer is accessed inside, and `kommando` is set only to the order of a complete block. -/
def Sound (b : Option Bus) (event : Event) : Prop :=
  ∀ now ∈ b, ∃ next, now.step event = some next ∧ Accepts now.slave next.slave next.written

/-- A byte for a block finds space in the buffer, and the one that completes it is among the first 256
since the slave was addressed. -/
def Bus.Careful (now : Bus) : Event → Prop
  | .data _ => now.mode = .receiving → now.slave.smbuscommand = 0x40 → 1 < now.slave.byteanzahl →
      now.slave.byteanzahl < 36 ∧ (now.slave.smbuscount = 1 → now.written.length < 256)
  | _ => True

def Careful (b : Option Bus) (event : Event) : Prop := ∀ now ∈ b, now.Careful event

instance (now : Bus) : (event : Event) → Decidable (now.Careful event)
  | .data _ => inferInstanceAs (Decidable (_ → _))
  | .write | .read | .take _ | .stop => isTrue trivial

instance : (b : Option Bus) → (event : Event) → Decidable (Careful b event)
  | none, _ => isTrue fun now is => absurd is (Option.not_mem_none now)
  | some b, event => decidable_of_iff (b.Careful event) (by simp [Careful])

/-! ## One byte -/

section Received

variable {s : Slave}

theorem received_first (first : s.byteanzahl = 0) : ∃ request_bootloader,
    s.received = some { s with
      smbuscommand := s.TWDR
      request_bootloader
      byteanzahl := s.byteanzahl + 1 } := by
  have early : ¬s.byteanzahl > 1 := by rw [first]; decide
  unfold Slave.received
  simp only [if_pos first, early, and_false, if_false]
  split_ifs
  · exact ⟨true, rfl⟩
  · exact ⟨s.request_bootloader, rfl⟩

theorem received_second (second : s.byteanzahl = 1) : ∃ request_bootloader,
    s.received = some { s with
      smbuscount := s.TWDR
      request_bootloader
      byteanzahl := s.byteanzahl + 1 } := by
  have later : ¬s.byteanzahl = 0 := by rw [second]; decide
  have early : ¬s.byteanzahl > 1 := by rw [second]; decide
  unfold Slave.received
  simp only [if_neg later, if_pos second, early, and_false, if_false]
  split_ifs
  · exact ⟨true, rfl⟩
  · exact ⟨s.request_bootloader, rfl⟩

/-- A byte that belongs to another command. -/
theorem received_other (later : 1 < s.byteanzahl) (other : s.smbuscommand ≠ 0x40) : ∃ request_bootloader,
    s.received = some { s with
      request_bootloader
      byteanzahl := s.byteanzahl + 1 } := by
  have first : ¬s.byteanzahl = 0 := fun first => by rw [first] at later; exact absurd later (by decide)
  have second : ¬s.byteanzahl = 1 := fun second => by rw [second] at later; exact absurd later (by decide)
  unfold Slave.received
  simp only [if_neg first, if_neg second, other, false_and, if_false]
  split_ifs
  · exact ⟨true, rfl⟩
  · exact ⟨s.request_bootloader, rfl⟩

/-- A byte of a block. -/
theorem received_block (later : 1 < s.byteanzahl) (block : s.smbuscommand = 0x40) :
    s.received =
      if s.byteanzahl.toNat - 2 < maxDataPaketLen then
        let buf := Function.update s.buf (s.byteanzahl.toNat - 2) s.TWDR
        some { s with
          buf
          smbuscount := s.smbuscount - 1
          kommando := if s.smbuscount - 1 = 0 then buf 0 else s.kommando
          orders := if s.smbuscount - 1 = 0 then s.orders ++ [buf 0] else s.orders
          byteanzahl := s.byteanzahl + 1 }
      else none := by
  have first : ¬s.byteanzahl = 0 := fun first => by rw [first] at later; exact absurd later (by decide)
  have second : ¬s.byteanzahl = 1 := fun second => by rw [second] at later; exact absurd later (by decide)
  have boot : ¬(s.smbuscommand = 0xF0 ∧ s.smbuscount = 1 ∧ 0xF1 = s.TWDR) := by
    rw [block]
    exact fun both => absurd both.1 (by decide)
  unfold Slave.received
  simp only [if_neg first, if_neg second, if_neg boot]
  rw [if_pos ⟨block, later⟩]
  split_ifs <;> rfl

end Received

/-! ## Transfers -/

/-- What the slave makes of the bytes that were written since it was addressed. -/
structure Receives (s : Slave) (written : List UInt8) : Prop where
  counter : s.byteanzahl.toNat = written.length % 256
  bounded : ∀ rest, written = 0x40 :: rest → written.length ≤ 36
  command : ∀ first rest, written = first :: rest → written.length ≤ 256 → s.smbuscommand = first
  count : ∀ count data, written = 0x40 :: count :: data → s.smbuscount = count - UInt8.ofNat data.length
  order : ∀ count order rest, written = 0x40 :: count :: order :: rest → s.buf 0 = order

section Receives

variable {s next : Slave} {written : List UInt8} {value : UInt8}

/-- The slave stands at the start of a block, or somewhere in it, or it is no block. -/
theorem Receives.place (receives : Receives s written) :
    (∀ rest, written ≠ 0x40 :: rest) ∨
      written = [0x40] ∧ s.byteanzahl.toNat = 1 ∧ s.smbuscommand = 0x40 ∨
      ∃ count data, written = 0x40 :: count :: data ∧ s.byteanzahl.toNat = data.length + 2 ∧
        s.smbuscommand = 0x40 := by
  by_cases block : ∃ rest, written = 0x40 :: rest
  · obtain ⟨rest, is⟩ := block
    have short := receives.bounded rest is
    have counter := receives.counter
    have command := receives.command 0x40 rest is (short.trans (by decide))
    rw [Nat.mod_eq_of_lt (Nat.lt_of_le_of_lt short (by decide))] at counter
    subst is
    cases rest with
    | nil => exact .inr (.inl ⟨rfl, counter, command⟩)
    | cons count data => exact .inr (.inr ⟨count, data, rfl, counter, command⟩)
  · exact .inl fun rest is => block ⟨rest, is⟩

theorem Receives.counter_succ (receives : Receives s written) (next_ : next.byteanzahl = s.byteanzahl + 1) :
    next.byteanzahl.toNat = (written ++ [value]).length % 256 := by
  rw [next_, UInt8.toNat_add, receives.counter, List.length_append, List.length_singleton]
  exact (Nat.mod_add_mod _ _ _)

/-- A byte that is the first one, or that does not belong to a block. -/
theorem Receives.push_other (receives : Receives s written) (other : ∀ rest, written ≠ 0x40 :: rest)
    (next_ : next.byteanzahl = s.byteanzahl + 1)
    (command : next.smbuscommand = if s.byteanzahl = 0 then value else s.smbuscommand) :
    Receives next (written ++ [value]) := by
  have front : ∀ rest, written ++ [value] = 0x40 :: rest → written = [] ∧ rest = [] := by
    intro rest is
    obtain ⟨empty, single⟩ | ⟨tail, is, -⟩ := List.append_eq_cons_iff.mp is
    · exact ⟨empty, (List.cons.inj single).2.symm⟩
    · exact absurd is (other tail)
  refine ⟨receives.counter_succ next_, ?_, ?_, ?_, ?_⟩
  · intro rest is
    rw [(front rest is).1]
    simp
  · intro first rest is small
    obtain ⟨rfl, single⟩ | ⟨tail, rfl, -⟩ := List.append_eq_cons_iff.mp is
    · have start : s.byteanzahl = 0 := UInt8.toNat_inj.mp receives.counter
      rw [command, if_pos start]
      exact (List.cons.inj single).1
    · rw [List.length_append, List.length_singleton] at small
      have later : s.byteanzahl ≠ 0 := by
        intro zero
        have counter := receives.counter
        rw [zero, Nat.mod_eq_of_lt (Nat.lt_of_succ_le small)] at counter
        exact absurd counter.symm (Nat.succ_ne_zero _)
      rw [command, if_neg later]
      exact receives.command first tail rfl (Nat.le_of_succ_le small)
  · intro count data is
    exact absurd (front _ is).2 (List.cons_ne_nil _ _)
  · intro count order rest is
    exact absurd (front _ is).2 (List.cons_ne_nil _ _)

/-- The announced number of data bytes. -/
theorem Receives.push_count (counter : s.byteanzahl.toNat = 1) (next_ : next.byteanzahl = s.byteanzahl + 1)
    (command : next.smbuscommand = 0x40) (count : next.smbuscount = value) : Receives next [0x40, value] := by
  refine ⟨?_, ?_, ?_, ?_, ?_⟩
  · rw [next_, UInt8.toNat_add, counter]
    rfl
  · exact fun _ _ => by simp
  · rintro first rest is -
    exact command.trans (List.cons.inj is).1
  · intro other data is
    obtain ⟨rfl, rfl⟩ := List.cons.inj (List.cons.inj is).2
    rw [count]
    exact (sub_zero _).symm
  · intro other order rest is
    exact absurd (List.cons.inj (List.cons.inj is).2).2 (List.cons_ne_nil _ _).symm

/-- A data byte of a block. -/
theorem Receives.push_data {count : UInt8} {data : List UInt8}
    (receives : Receives s (0x40 :: count :: data)) (counter : s.byteanzahl.toNat = data.length + 2)
    (small : data.length < 34) (next_ : next.byteanzahl = s.byteanzahl + 1)
    (command : next.smbuscommand = 0x40) (counts : next.smbuscount = s.smbuscount - 1)
    (stores : next.buf = Function.update s.buf data.length value) :
    Receives next (0x40 :: count :: (data ++ [value])) := by
  refine ⟨?_, ?_, ?_, ?_, ?_⟩
  · have counted : next.byteanzahl.toNat = (0x40 :: count :: data ++ [value]).length % 256 :=
      receives.counter_succ next_
    exact counted
  · intro rest _
    simp only [List.length_cons, List.length_append, List.length_nil]
    omega
  · rintro first rest is -
    exact command.trans (List.cons.inj is).1
  · intro other data' is
    obtain ⟨rfl, rfl⟩ := List.cons.inj (List.cons.inj is).2
    rw [counts, receives.count count data rfl, List.length_append, List.length_singleton,
      UInt8.ofNat_add, sub_sub]
    rfl
  · intro other order rest is
    obtain ⟨rfl, same⟩ := List.cons.inj (List.cons.inj is).2
    rw [stores]
    cases data with
    | nil =>
        rw [List.length_nil, Function.update_self]
        exact (List.cons.inj same).1
    | cons first data =>
        rw [List.length_cons, Function.update_of_ne (Nat.succ_ne_zero _).symm, receives.order count first data rfl]
        exact (List.cons.inj same).1

/-- The byte may be received. -/
def Fits (s : Slave) (written : List UInt8) : Prop :=
  s.smbuscommand = 0x40 → 1 < s.byteanzahl →
    s.byteanzahl < 36 ∧ (s.smbuscount = 1 → written.length < 256)

theorem index_lt (s : Slave) : s.byteanzahl.toNat - 2 < maxDataPaketLen ↔ s.byteanzahl < 36 := by
  have limit : (36 : UInt8).toNat = 36 := rfl
  rw [UInt8.lt_iff_toNat_lt, maxDataPaketLen]
  omega

theorem Receives.received (receives : Receives s written) (fits : Fits s written) :
    ∃ next, s.received = some next ∧ Receives next (written ++ [s.TWDR]) ∧
      Accepts s next (written ++ [s.TWDR]) := by
  obtain first | later := Decidable.em (s.byteanzahl = 0)
  · obtain ⟨boot, is⟩ := received_first first
    refine ⟨_, is, ?_, .inl ⟨rfl, rfl⟩⟩
    obtain other | ⟨-, counter, -⟩ | ⟨count, data, -, counter, -⟩ := receives.place
    · exact receives.push_other other rfl (if_pos first).symm
    · rw [first] at counter
      exact absurd counter (by decide)
    · rw [first] at counter
      exact absurd counter (Nat.succ_ne_zero _).symm
  obtain second | later' := Decidable.em (s.byteanzahl = 1)
  · obtain ⟨boot, is⟩ := received_second second
    refine ⟨_, is, ?_, .inl ⟨rfl, rfl⟩⟩
    obtain other | ⟨rfl, counter, command⟩ | ⟨count, data, -, counter, -⟩ := receives.place
    · exact receives.push_other other rfl (if_neg later).symm
    · exact Receives.push_count counter rfl command rfl
    · rw [second] at counter
      exact absurd (Nat.succ.inj counter) (Nat.succ_ne_zero _).symm
  have late : 1 < s.byteanzahl := by
    have positive := mt UInt8.toNat_inj.mp later
    have more := mt UInt8.toNat_inj.mp later'
    rw [UInt8.lt_iff_toNat_lt]
    exact Nat.lt_of_le_of_ne (Nat.one_le_iff_ne_zero.mpr positive) (Ne.symm more)
  obtain block | other := Decidable.em (s.smbuscommand = 0x40)
  · obtain ⟨inside, early⟩ := fits block late
    have is := received_block late block
    rw [if_pos ((index_lt s).mpr inside)] at is
    refine ⟨_, is, ?_⟩
    obtain none_ | ⟨-, counter, -⟩ | ⟨count, data, rfl, counter, -⟩ := receives.place
    · -- The counter has wrapped, and this is not the end of what looks like a block.
      refine ⟨receives.push_other none_ rfl (if_neg later).symm, .inl ?_⟩
      have open_ : ¬s.smbuscount - 1 = 0 := by
        intro last
        have short := early (sub_eq_zero.mp last)
        cases written with
        | nil => exact later (UInt8.toNat_inj.mp receives.counter)
        | cons first rest =>
            have command := receives.command first rest rfl (Nat.le_of_lt short)
            exact none_ rest (by rw [← command, block])
      exact ⟨if_neg open_, if_neg open_⟩
    · rw [UInt8.lt_iff_toNat_lt, counter] at late
      exact absurd late (by decide)
    · have index : s.byteanzahl.toNat - 2 = data.length := by rw [counter, Nat.add_sub_cancel]
      have small : data.length < 34 := index ▸ (index_lt s).mpr inside
      refine ⟨receives.push_data counter small rfl block rfl (by rw [index]), ?_⟩
      by_cases last : s.smbuscount - 1 = 0
      · refine .inr ⟨_, if_pos last, if_pos last, ?_⟩
        have announced : count.toNat = data.length + 1 := by
          have counts := receives.count count data rfl
          have whole : count = UInt8.ofNat (data.length + 1) := by
            rw [UInt8.ofNat_add, ← sub_eq_iff_eq_add', ← counts]
            exact sub_eq_zero.mp last
          rw [whole]
          exact UInt8.toNat_ofNat_of_lt' (Nat.lt_of_le_of_lt small (by decide))
        rw [index]
        cases data with
        | nil => exact ⟨count, [], by simp, announced.symm⟩
        | cons first data =>
            refine ⟨count, data ++ [s.TWDR], ?_, ?_⟩
            · rw [List.length_cons, Function.update_of_ne (Nat.succ_ne_zero _).symm,
                receives.order count first data rfl]
              rfl
            · rw [List.length_append, List.length_singleton, announced]
              rfl
      · exact .inl ⟨if_neg last, if_neg last⟩
  · obtain ⟨boot, is⟩ := received_other late other
    refine ⟨_, is, ?_, .inl ⟨rfl, rfl⟩⟩
    obtain none_ | ⟨-, -, command⟩ | ⟨count, data, -, -, command⟩ := receives.place
    · exact receives.push_other none_ rfl (if_neg later).symm
    · exact absurd command other
    · exact absurd command other

/-- A byte that does not fit goes behind the buffer, or it ends what is no block. -/
theorem Receives.fits (receives : Receives s written) (received : s.received = some next)
    (accepts : Accepts s next (written ++ [s.TWDR])) : Fits s written := by
  intro block late
  have is := received_block late block
  rw [received] at is
  by_cases inside : s.byteanzahl < 36
  · refine ⟨inside, fun last => ?_⟩
    rw [if_pos ((index_lt s).mpr inside), last] at is
    obtain rfl := Option.some.inj is
    obtain ⟨same, -⟩ | ⟨order, -, -, count, rest, is, -⟩ := accepts
    · exact absurd same (by simp)
    · by_contra long
      obtain ⟨rfl, -⟩ | ⟨tail, rfl, -⟩ := List.append_eq_cons_iff.mp is
      · exact long (by decide)
      · exact long (Nat.lt_of_le_of_lt (receives.bounded tail rfl) (by decide))
  · rw [if_neg (mt (index_lt s).mp inside)] at is
    exact absurd is (Option.some_ne_none next)

end Receives

/-! ## Runs -/

/-- A slave that is written to has received all bytes so far. -/
def Inv (b : Bus) : Prop := b.mode = .receiving → Receives b.slave b.written

section Events

variable {b : Bus} {event : Event}

/-- A byte that is sent is read inside of the buffer. -/
theorem sent_eq (s : Slave) :
    ∃ next, s.sent = some next ∧ next.orders = s.orders ∧ next.kommando = s.kommando := by
  unfold Slave.sent
  dsimp only
  split_ifs with block more inside
  · exact ⟨_, rfl, rfl, rfl⟩
  · have small : s.smbuscount.toNat < 32 := UInt8.lt_iff_toNat_lt.mp more
    exact absurd (Nat.lt_trans small (by decide)) inside
  · exact ⟨_, rfl, rfl, rfl⟩
  · exact ⟨_, rfl, rfl, rfl⟩

theorem receives_nil {s : Slave} (start : s.byteanzahl = 0) : Receives s [] where
  counter := congrArg UInt8.toNat start
  bounded := fun _ is => absurd is (List.cons_ne_nil _ _).symm
  command := fun _ _ is => absurd is (List.cons_ne_nil _ _).symm
  count := fun _ _ is => absurd is (List.cons_ne_nil _ _).symm
  order := fun _ _ _ is => absurd is (List.cons_ne_nil _ _).symm

/-- What is not a byte for the slave. -/
theorem Inv.other (inv : Inv b) (other : ∀ value, event = .data value → b.mode ≠ .receiving) :
    ∃ next, b.step event = some next ∧ Inv next ∧ Accepts b.slave next.slave next.written := by
  cases event with
  | write => exact ⟨_, rfl, fun _ => receives_nil rfl, .inl ⟨rfl, rfl⟩⟩
  | data value =>
      refine ⟨b, ?_, inv, .inl ⟨rfl, rfl⟩⟩
      rw [Bus.step, if_neg (other value rfl)]
  | read =>
      have answered : ∃ next, b.slave.interrupt 0xA8 = some next ∧ next.orders = b.slave.orders ∧
          next.kommando = b.slave.kommando := by
        unfold Slave.interrupt
        simp only [show ¬(0xA8 : UInt8) = 0x80 by decide, show ¬(0xA8 : UInt8) = 0x60 by decide, if_false,
          if_true]
        split_ifs
        · exact ⟨_, rfl, rfl, rfl⟩
        · exact ⟨_, rfl, rfl, rfl⟩
      obtain ⟨slave, is, same⟩ := answered
      refine ⟨⟨slave, .sending, b.written⟩, ?_, fun mode => (by cases mode), .inl same⟩
      exact Option.map_eq_some_iff.mpr ⟨slave, is, rfl⟩
  | take ack =>
      by_cases mode : b.mode = .sending
      · cases ack with
        | true =>
            obtain ⟨slave, is, same⟩ := sent_eq b.slave
            refine ⟨{ b with slave }, ?_, fun mode' => ?_, .inl same⟩
            · rw [Bus.step, if_pos mode]
              exact Option.map_eq_some_iff.mpr ⟨slave, is, rfl⟩
            · exact absurd (mode.symm.trans mode') (by decide)
        | false =>
            refine ⟨{ b with mode := .idle }, ?_, fun mode' => (by cases mode'), .inl ⟨rfl, rfl⟩⟩
            rw [Bus.step, if_pos mode]
            rfl
      · refine ⟨b, ?_, inv, .inl ⟨rfl, rfl⟩⟩
        rw [Bus.step, if_neg mode]
  | stop =>
      refine ⟨{ b with mode := .idle }, ?_, fun mode => (by cases mode), .inl ⟨rfl, rfl⟩⟩
      rw [Bus.step]
      split_ifs
      · rfl
      · rfl

theorem Inv.data (inv : Inv b) (value : UInt8) (mode : b.mode = .receiving)
    (careful : b.Careful (.data value)) :
    ∃ next, b.step (.data value) = some next ∧ Inv next ∧ Accepts b.slave next.slave next.written := by
  have receives : Receives { b.slave with TWDR := value } b.written :=
    ⟨(inv mode).counter, (inv mode).bounded, (inv mode).command, (inv mode).count, (inv mode).order⟩
  obtain ⟨slave, received, receives', accepts⟩ := receives.received (careful mode)
  refine ⟨⟨slave, b.mode, b.written ++ [value]⟩, ?_, fun _ => receives', accepts⟩
  rw [Bus.step, if_pos mode]
  exact Option.map_eq_some_iff.mpr ⟨slave, received, rfl⟩

theorem Inv.step (inv : Inv b) (careful : b.Careful event) :
    ∃ next, b.step event = some next ∧ Inv next ∧ Accepts b.slave next.slave next.written := by
  by_cases byte : ∃ value, event = .data value ∧ b.mode = .receiving
  · obtain ⟨value, rfl, mode⟩ := byte
    exact inv.data value mode careful
  · exact inv.other fun value is mode => byte ⟨value, is, mode⟩

/-- An event that is sound is careful. -/
theorem Inv.careful (inv : Inv b) {next : Bus} (stepped : b.step event = some next)
    (accepts : Accepts b.slave next.slave next.written) : b.Careful event := by
  cases event with
  | data value =>
      intro mode
      have receives : Receives { b.slave with TWDR := value } b.written :=
        ⟨(inv mode).counter, (inv mode).bounded, (inv mode).command, (inv mode).count, (inv mode).order⟩
      rw [Bus.step, if_pos mode] at stepped
      obtain ⟨slave, received, rfl⟩ := Option.map_eq_some_iff.mp stepped
      exact receives.fits received accepts
  | write | read | take _ | stop => trivial

end Events

theorem sound_iff {b : Bus} (inv : Inv b) (events : List Event) :
    EachMeets step Sound (some b) events ↔ EachMeets step Careful (some b) events := by
  induction events generalizing b with
  | nil => exact Iff.rfl
  | cons event events ih =>
      constructor
      · rintro ⟨now, later⟩
        obtain ⟨next, stepped, accepts⟩ := now b rfl
        have careful := inv.careful stepped accepts
        obtain ⟨next', stepped', inv', -⟩ := inv.step careful
        have taken : I2cSlave.step (some b) event = some next' := stepped'
        rw [taken] at later
        refine ⟨fun other is => Option.some.inj is ▸ careful, ?_⟩
        rw [taken]
        exact (ih inv').mp later
      · rintro ⟨now, later⟩
        obtain ⟨next, stepped, inv', accepts⟩ := inv.step (now b rfl)
        have taken : I2cSlave.step (some b) event = some next := stepped
        rw [taken] at later
        refine ⟨fun other is => ?_, ?_⟩
        · obtain rfl := Option.some.inj is
          exact ⟨next, stepped, accepts⟩
        · rw [taken]
          exact (ih inv').mpr later

/-- The buffer is accessed inside, and `kommando` is set only to the order of a complete block, exactly if
every byte fits. -/
theorem blocks_sound_iff (events : List Event) :
    EachMeets step Sound (some .start) events ↔ EachMeets step Careful (some .start) events :=
  sound_iff (fun mode => absurd mode (by decide)) events

/-- A block write with more data than the buffer holds. -/
def longBlock : List Event :=
  Event.write :: Event.data 0x40 :: Event.data 35 :: List.replicate 35 (Event.data 1)

theorem longBlock_not_sound : ¬EachMeets step Sound (some .start) longBlock := fun sound =>
  absurd ((sound_iff (fun mode => absurd mode (by decide)) longBlock).mp sound) (by decide)

end Ethersex.I2cSlave
