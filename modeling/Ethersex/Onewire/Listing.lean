import Ethersex.Onewire.Model
import Ethersex.Ecmd.Usart
import Ethersex.Library.Walks

/-!
# Listing the devices

`onewire list` names one device in each call and is called again until the search ends.  Between
the calls the search is kept in `ow_global`, and the lock tells a call that one has been begun.

Nothing is assumed about the bus here: in every search each slot may read as anything.
-/

namespace Ethersex.Onewire

open Ethersex.Library
open Ethersex.Ecmd.Usart (ECMD_AGAIN isEcmdAgain)

/-! ## A search on any line -/

/-- What the line shows in a search: whether something answers the reset, and what the slots that
are left to the devices read as. -/
structure Answer where
  present : Bool
  slots : Nat → Bool

/-- The code so far and the branch found so far. -/
structure Partway where
  ow_global : OwGlobal
  discrepancy : UInt8

namespace Answer

/-- One pass of the loop, with the two bits that are read in it. -/
def searchBit (answer : Answer) (i : UInt8) (found : Partway) : Except OwGlobal Partway :=
  let set (val : UInt8) : OwGlobal :=
    { found.ow_global with current_rom := owSetAddressBit found.ow_global.current_rom i val }
  let bit1 := (answer.slots (2 * i.toNat)).toUInt8
  let bit2 := (answer.slots (2 * i.toNat + 1)).toUInt8
  let bits := bit2 <<< 1 ||| bit1
  let last := found.ow_global.last_discrepancy.toInt
  if bits = 3 then .error found.ow_global
  else if bits = 0 then
    if (i.toNat : Int) = last then .ok { found with ow_global := set 1 }
    else if (i.toNat : Int) > last then .ok ⟨set 0, i⟩
    else
      let rom_bit := found.ow_global.current_rom.byte (i / 8).toNat &&& 1 <<< (i % 8)
      .ok { found with discrepancy := if rom_bit = 0 then i else found.discrepancy }
  else .ok { found with ow_global := set bit1 }

def searchBits (answer : Answer) (count : Nat) (found : Partway) : Except OwGlobal Partway :=
  (List.range count).foldlM (fun found i => answer.searchBit (UInt8.ofNat i) found) found

/-- `ow_search_rom`, with what it leaves. -/
def owSearchRom (answer : Answer) (first : Bool) (ow_global : OwGlobal) : Int8 × OwGlobal :=
  let ow_global := if first then ⟨-1, ⟨.replicate 8 0⟩⟩ else ow_global
  if first = false ∧ ow_global.last_discrepancy < 0 then (0, ow_global)
  else if answer.present = false then (-1, ow_global)
  else
    match answer.searchBits 64 ⟨ow_global, -1⟩ with
    | .error ow_global => (0, ow_global)
    | .ok found => (1, { found.ow_global with last_discrepancy := found.discrepancy.toInt8 })

/-- Something answers the reset and every bit of a code. -/
def Complete (answer : Answer) : Prop :=
  answer.present = true ∧
    ∀ i < 64, answer.slots (2 * i) = false ∨ answer.slots (2 * i + 1) = false

end Answer

/-! ## The command -/

def OW_FAMILY_DS1820 : UInt8 := 0x10
def OW_FAMILY_DS18B20 : UInt8 := 0x28
def OW_FAMILY_DS1822 : UInt8 := 0x22
def OW_FAMILY_DS2502E48 : UInt8 := 0x89

def OW_LIST_TYPE_ALL : Int8 := 0
def OW_LIST_TYPE_TEMP_SENSOR : Int8 := 1
def OW_LIST_TYPE_EEPROM : Int8 := 2

def owTempSensor (rom : OwRomCode) : Bool :=
  rom.byte 0 = OW_FAMILY_DS1820 ∨ rom.byte 0 = OW_FAMILY_DS1822 ∨ rom.byte 0 = OW_FAMILY_DS18B20

def owEeprom (rom : OwRomCode) : Bool := rom.byte 0 = OW_FAMILY_DS2502E48

/-- `ow_global` with the fields of the command. -/
structure Listing extends OwGlobal where
  lock : UInt8
  list_type : Int8

/-- `ow_search_rom` within the command. -/
def Listing.search (ow_global : Listing) (answer : Answer) (first : Bool) : Int8 × Listing :=
  let found := answer.owSearchRom first ow_global.toOwGlobal
  (found.1, { ow_global with toOwGlobal := found.2 })

@[simp] theorem Listing.search_lock (ow_global : Listing) (answer : Answer) (first : Bool) :
    (ow_global.search answer first).2.lock = ow_global.lock := rfl

/-- One call of the command: its parameters, the room for its output, and what the line shows in
one search after another. -/
structure Call where
  cmd : List UInt8
  len : Nat
  answers : List Answer

/-- What comes of a call. -/
structure Reply where
  ret : Int
  output : List UInt8
  ow_global : Listing

/-- What the caller gets. -/
def Reply.shown (reply : Reply) : Int × List UInt8 := (reply.ret, reply.output)

/-- `switch (*cmd)`: the kind of device that is asked for. -/
def parseListType (cmd : List UInt8) : Option Int8 :=
  let first := (cmd.dropWhile (· = 0x20)).headD 0
  if first = 0x74 then some OW_LIST_TYPE_TEMP_SENSOR
  else if first = 0x65 then some OW_LIST_TYPE_EEPROM
  else if first = 0 then some OW_LIST_TYPE_ALL
  else none

def hexDigit (digit : UInt8) : UInt8 := if digit < 10 then 0x30 + digit else 0x57 + digit

/-- `"%02x%02x%02x%02x%02x%02x%02x%02x"`. -/
def romText (rom : OwRomCode) : List UInt8 :=
  rom.bytewise.toList.flatMap fun byte => [hexDigit (byte / 16), hexDigit (byte % 16)]

section Command

variable (ONEWIRE_DS2502_SUPPORT : Bool)

/-- What the parameters make of `list_type`. -/
def Listing.listType (ow_global : Listing) (cmd : List UInt8) : Option Int8 :=
  if ONEWIRE_DS2502_SUPPORT then parseListType cmd else some ow_global.list_type

/-- Whether the device that was found is to be printed. -/
def Listing.matches (ow_global : Listing) : Bool :=
  !ONEWIRE_DS2502_SUPPORT || ow_global.list_type = OW_LIST_TYPE_ALL ||
    (ow_global.list_type = OW_LIST_TYPE_TEMP_SENSOR && owTempSensor ow_global.current_rom) ||
    (ow_global.list_type = OW_LIST_TYPE_EEPROM && owEeprom ow_global.current_rom)

/-- `snprintf_P` of the code, whose result is the length of the whole text, and what is returned then. -/
def Listing.print (ow_global : Listing) (len : Nat) : Reply :=
  let text := romText ow_global.current_rom
  let ret : Int := text.length
  ⟨if ret > 0 then ECMD_AGAIN ret else ret, text.take (len - 1), ow_global⟩

/-- What follows a search.  A device that is not asked for is passed over, by `goto list_next`. -/
def afterSearch (len : Nat) (ret : Int8) (ow_global : Listing) (listNext : Listing → Option Reply) :
    Option Reply :=
  if ret = 1 then
    if ow_global.matches ONEWIRE_DS2502_SUPPORT then some (ow_global.print len) else listNext ow_global
  else if ret = 0 then some ⟨0, [], { ow_global with lock := 0 }⟩
  else some ⟨-1, [], ow_global⟩

/-- `list_next`.  A call that searches on and on has no reply. -/
def listNext (len : Nat) : List Answer → Listing → Option Reply
  | [], _ => none
  | answer :: rest, ow_global =>
      let next := ow_global.search answer false
      afterSearch ONEWIRE_DS2502_SUPPORT len next.1 next.2 (listNext len rest)

/-- `parse_cmd_onewire_list`. -/
def parseCmdOnewireList (ow_global : Listing) (call : Call) : Option Reply :=
  if ow_global.lock = 0 then
    let ow_global := { ow_global with lock := 1 }
    match ow_global.listType ONEWIRE_DS2502_SUPPORT call.cmd with
    | none => some ⟨-1, [], ow_global⟩
    | some list_type =>
        match call.answers with
        | [] => none
        | answer :: rest =>
            let found := { ow_global with list_type }.search answer true
            if found.1 ≤ 0 then some ⟨0, [], found.2⟩
            else
              afterSearch ONEWIRE_DS2502_SUPPORT call.len found.1 found.2
                (listNext ONEWIRE_DS2502_SUPPORT call.len rest)
  else listNext ONEWIRE_DS2502_SUPPORT call.len call.answers ow_global

/-! ## Calls that release the lock -/

/-- A call that ends the listing leaves the lock open. -/
def Opens (result : Option Reply) : Prop :=
  ∀ reply ∈ result, isEcmdAgain reply.ret = false → reply.ow_global.lock = 0

/-- As long as devices are passed over, something answers each reset. -/
def EachPresent : List Answer → Listing → Prop
  | [], _ => True
  | answer :: rest, ow_global =>
      let next := ow_global.search answer false
      (0 ≤ ow_global.last_discrepancy → answer.present = true) ∧
        (next.1 = 1 → next.2.matches ONEWIRE_DS2502_SUPPORT = false → EachPresent rest next.2)

/-- The parameters of a first call are accepted, its first search finds a device, and no later search finds
the bus empty. -/
def Undisturbed (ow_global : Listing) (call : Call) : Prop :=
  if ow_global.lock = 0 then
    ∃ list_type, ow_global.listType ONEWIRE_DS2502_SUPPORT call.cmd = some list_type ∧
      ∀ answer rest, call.answers = answer :: rest → answer.Complete ∧
        let begun := ({ ow_global with lock := 1, list_type }.search answer true).2
        begun.matches ONEWIRE_DS2502_SUPPORT = false → EachPresent ONEWIRE_DS2502_SUPPORT rest begun
  else EachPresent ONEWIRE_DS2502_SUPPORT call.answers ow_global

end Command

namespace Answer

variable (answer : Answer)

theorem searchBit_isOk (i : UInt8) (found : Partway) :
    (answer.searchBit i found).isOk = true ↔
      answer.slots (2 * i.toNat) = false ∨ answer.slots (2 * i.toNat + 1) = false := by
  have both (bit1 bit2 : Bool) : bit2.toUInt8 <<< 1 ||| bit1.toUInt8 = 3 ↔ bit1 = true ∧ bit2 = true := by
    revert bit1 bit2
    decide
  rw [searchBit]
  simp only [both]
  split_ifs with ones <;> simp [Except.isOk, Except.toBool, ← Bool.not_eq_true, ← not_and_or, ones]

theorem searchBits_succ (count : Nat) (found : Partway) :
    answer.searchBits (count + 1) found =
      (answer.searchBits count found).bind (answer.searchBit (UInt8.ofNat count)) := by
  rw [searchBits, List.range_succ, List.foldlM_append]
  simp only [List.foldlM_cons, List.foldlM_nil, bind_pure]
  rfl

theorem searchBits_isOk (count : Nat) (small : count ≤ 256) (found : Partway) :
    (answer.searchBits count found).isOk = true ↔
      ∀ i < count, answer.slots (2 * i) = false ∨ answer.slots (2 * i + 1) = false := by
  induction count with
  | zero => simp [searchBits, Except.isOk, Except.toBool, pure, Except.pure]
  | succ count ih =>
      have value : (UInt8.ofNat count).toNat = count := UInt8.toNat_ofNat_of_lt' (by change _ < 256; omega)
      rw [searchBits_succ, Nat.forall_lt_succ_right, ← ih (by omega)]
      cases answer.searchBits count found with
      | error => simp [Except.bind, Except.isOk, Except.toBool]
      | ok before =>
          rw [Except.bind, searchBit_isOk, value]
          simp [Except.isOk, Except.toBool]

theorem owSearchRom_result (first : Bool) (ow_global : OwGlobal) :
    (answer.owSearchRom first ow_global).1 = 1 ∨ (answer.owSearchRom first ow_global).1 = 0 ∨
      (answer.owSearchRom first ow_global).1 = -1 := by
  unfold owSearchRom
  generalize (if first = true then (⟨-1, ⟨.replicate 8 0⟩⟩ : OwGlobal) else ow_global) = start
  dsimp only
  split_ifs with done empty
  · exact .inr (.inl rfl)
  · exact .inr (.inr rfl)
  · cases answer.searchBits 64 ⟨start, -1⟩ with
    | error => exact .inr (.inl rfl)
    | ok => exact .inl rfl

/-- The first search finds a device just if one answers all the time. -/
theorem owSearchRom_first_eq_one_iff (ow_global : OwGlobal) :
    (answer.owSearchRom true ow_global).1 = 1 ↔ answer.Complete := by
  have bits := answer.searchBits_isOk 64 (by decide) ⟨⟨-1, ⟨.replicate 8 0⟩⟩, -1⟩
  rw [owSearchRom, Complete, if_neg (by simp), if_pos rfl]
  cases answer.present with
  | false => simp
  | true =>
      rw [← bits, if_neg (by decide)]
      cases answer.searchBits 64 ⟨⟨-1, ⟨.replicate 8 0⟩⟩, -1⟩ with
      | error => simp [Except.isOk, Except.toBool]
      | ok => simp [Except.isOk, Except.toBool]

/-- A later search fails just if nothing answers its reset. -/
theorem owSearchRom_next_eq_neg_one_iff (ow_global : OwGlobal) :
    (answer.owSearchRom false ow_global).1 = -1 ↔
      0 ≤ ow_global.last_discrepancy ∧ answer.present = false := by
  rw [owSearchRom]
  simp only [Bool.false_eq_true, if_false, true_and]
  split_ifs with done empty
  · exact iff_of_false (by simp) fun failed => absurd failed.1 (Int8.not_le.mpr done)
  · exact iff_of_true rfl ⟨Int8.not_lt.mp done, empty⟩
  · refine iff_of_false ?_ fun failed => empty failed.2
    cases answer.searchBits 64 ⟨ow_global, -1⟩ with
    | error => simp
    | ok => simp

end Answer

variable {ONEWIRE_DS2502_SUPPORT : Bool}

theorem length_romText (rom : OwRomCode) : (romText rom).length = 16 := by
  rw [romText, List.length_flatMap]
  simp

theorem print_ret (ow_global : Listing) (len : Nat) : (ow_global.print len).ret = -26 := by
  rw [Listing.print, length_romText]
  rfl

theorem afterSearch_opens {len : Nat} {ret : Int8} {ow_global : Listing} {next : Listing → Option Reply}
    (locked : ow_global.lock ≠ 0) :
    Opens (afterSearch ONEWIRE_DS2502_SUPPORT len ret ow_global next) ↔
      (ret = 1 → ow_global.matches ONEWIRE_DS2502_SUPPORT = false → Opens (next ow_global)) ∧
        (ret = 1 ∨ ret = 0) := by
  rw [afterSearch]
  split_ifs with found listed ended
  · simp [found, listed, Opens, print_ret, isEcmdAgain, Ecmd.Usart.ECMD_AGAIN_MAGIC]
  · simp [found, listed]
  · simp [ended, Opens]
  · simp [found, ended, Opens, locked, isEcmdAgain, Ecmd.Usart.ECMD_AGAIN_MAGIC]

theorem listNext_opens (len : Nat) (answers : List Answer) {ow_global : Listing} (locked : ow_global.lock ≠ 0) :
    Opens (listNext ONEWIRE_DS2502_SUPPORT len answers ow_global) ↔
      EachPresent ONEWIRE_DS2502_SUPPORT answers ow_global := by
  induction answers generalizing ow_global with
  | nil => simp [listNext, Opens, EachPresent]
  | cons answer rest ih =>
      have answered : (0 ≤ ow_global.last_discrepancy → answer.present = true) ↔
          (ow_global.search answer false).1 = 1 ∨ (ow_global.search answer false).1 = 0 := by
        have fails := answer.owSearchRom_next_eq_neg_one_iff ow_global.toOwGlobal
        have results := answer.owSearchRom_result false ow_global.toOwGlobal
        rw [← not_iff_not, Classical.not_imp, Bool.not_eq_true, ← fails, Listing.search]
        rcases results with found | ended | failed
        · simp [found]
        · simp [ended]
        · simp [failed]
      have still : (ow_global.search answer false).2.lock ≠ 0 := locked
      rw [listNext, EachPresent, afterSearch_opens still, answered, and_comm]
      exact and_congr_right fun _ => forall₂_congr fun _ _ => ih still

theorem listed_first_opens (len : Nat) (rest : List Answer) {begun : Int8 × Listing} (locked : begun.2.lock ≠ 0)
    (results : begun.1 = 1 ∨ begun.1 = 0 ∨ begun.1 = -1) :
    Opens (if begun.1 ≤ 0 then some ⟨0, [], begun.2⟩
      else afterSearch ONEWIRE_DS2502_SUPPORT len begun.1 begun.2 (listNext ONEWIRE_DS2502_SUPPORT len rest)) ↔
      begun.1 = 1 ∧ (begun.2.matches ONEWIRE_DS2502_SUPPORT = false →
        EachPresent ONEWIRE_DS2502_SUPPORT rest begun.2) := by
  rcases results with found | ended | failed
  · rw [if_neg (by rw [found]; decide), afterSearch_opens locked, listNext_opens _ _ locked]
    simp [found]
  · rw [if_pos (by rw [ended]; decide)]
    simp [ended, Opens, locked, isEcmdAgain, Ecmd.Usart.ECMD_AGAIN_MAGIC]
  · rw [if_pos (by rw [failed]; decide)]
    simp [failed, Opens, locked, isEcmdAgain, Ecmd.Usart.ECMD_AGAIN_MAGIC]

theorem taken_ne_zero : (1 : UInt8) ≠ 0 := by decide

/-- A call that ends the listing opens the lock just if nothing disturbs it. -/
theorem parseCmdOnewireList_opens (ow_global : Listing) (call : Call) :
    Opens (parseCmdOnewireList ONEWIRE_DS2502_SUPPORT ow_global call) ↔
      Undisturbed ONEWIRE_DS2502_SUPPORT ow_global call := by
  rw [parseCmdOnewireList, Undisturbed]
  split_ifs with free
  · have chosen : Listing.listType ONEWIRE_DS2502_SUPPORT { ow_global with lock := 1 } call.cmd =
        ow_global.listType ONEWIRE_DS2502_SUPPORT call.cmd := rfl
    dsimp only
    rw [chosen]
    cases ow_global.listType ONEWIRE_DS2502_SUPPORT call.cmd with
    | none => simp [Opens, isEcmdAgain, Ecmd.Usart.ECMD_AGAIN_MAGIC]
    | some list_type =>
        cases call.answers with
        | nil => simp [Opens]
        | cons answer rest =>
            have complete := answer.owSearchRom_first_eq_one_iff ow_global.toOwGlobal
            have first := @listed_first_opens ONEWIRE_DS2502_SUPPORT call.len rest
              (({ ow_global with lock := 1, list_type } : Listing).search answer true) taken_ne_zero
              (answer.owSearchRom_result true ow_global.toOwGlobal)
            refine first.trans ((and_congr_left' complete).trans ?_)
            constructor
            · rintro ⟨answered, present⟩
              refine ⟨list_type, rfl, fun _ _ same => ?_⟩
              cases same
              exact ⟨answered, present⟩
            · rintro ⟨_, same, undisturbed⟩
              cases same
              exact undisturbed answer rest rfl
  · exact listNext_opens _ _ free

/-! ## Runs -/

section Runs

variable (ONEWIRE_DS2502_SUPPORT)

/-- One call after another.  Behind a call that never returns there is no other one. -/
def listStep (state : Option Listing) (call : Call) : Option Listing :=
  state.bind fun ow_global => (parseCmdOnewireList ONEWIRE_DS2502_SUPPORT ow_global call).map Reply.ow_global

/-- The call opens the lock if it ends the listing. -/
def OpensIn (state : Option Listing) (call : Call) : Prop :=
  ∀ ow_global ∈ state, Opens (parseCmdOnewireList ONEWIRE_DS2502_SUPPORT ow_global call)

def UndisturbedIn (state : Option Listing) (call : Call) : Prop :=
  ∀ ow_global ∈ state, Undisturbed ONEWIRE_DS2502_SUPPORT ow_global call

end Runs

/-! ## A new search -/

/-- Two states that differ in nothing that the search and the choice of devices look at. -/
def Alike (ONEWIRE_DS2502_SUPPORT : Bool) (left right : Listing) : Prop :=
  left.toOwGlobal = right.toOwGlobal ∧ (ONEWIRE_DS2502_SUPPORT = true → left.list_type = right.list_type)

section Alike

variable {left right : Listing}

theorem Alike.matches (alike : Alike ONEWIRE_DS2502_SUPPORT left right) :
    left.matches ONEWIRE_DS2502_SUPPORT = right.matches ONEWIRE_DS2502_SUPPORT := by
  obtain ⟨same, kind⟩ := alike
  cases ONEWIRE_DS2502_SUPPORT with
  | false => rfl
  | true => rw [Listing.matches, Listing.matches, same, kind rfl]

theorem Alike.search (alike : Alike ONEWIRE_DS2502_SUPPORT left right) (answer : Answer) (first : Bool) :
    (left.search answer first).1 = (right.search answer first).1 ∧
      Alike ONEWIRE_DS2502_SUPPORT (left.search answer first).2 (right.search answer first).2 := by
  rw [Alike, Listing.search, Listing.search, alike.1]
  exact ⟨rfl, rfl, alike.2⟩

theorem Alike.afterSearch (alike : Alike ONEWIRE_DS2502_SUPPORT left right) {len : Nat} {ret : Int8}
    {next next' : Listing → Option Reply} (follows : (next left).map Reply.shown = (next' right).map Reply.shown) :
    (afterSearch ONEWIRE_DS2502_SUPPORT len ret left next).map Reply.shown =
      (afterSearch ONEWIRE_DS2502_SUPPORT len ret right next').map Reply.shown := by
  rw [Onewire.afterSearch, Onewire.afterSearch, alike.matches]
  split_ifs
  · simp only [Option.map_some, Reply.shown, Listing.print, alike.1]
  · exact follows
  · rfl
  · rfl

theorem Alike.listNext (alike : Alike ONEWIRE_DS2502_SUPPORT left right) (len : Nat) (answers : List Answer) :
    (listNext ONEWIRE_DS2502_SUPPORT len answers left).map Reply.shown =
      (listNext ONEWIRE_DS2502_SUPPORT len answers right).map Reply.shown := by
  induction answers generalizing left right with
  | nil => rfl
  | cons answer rest ih =>
      obtain ⟨ret, alike⟩ := alike.search answer false
      rw [Onewire.listNext, Onewire.listNext, ret]
      exact alike.afterSearch (ih alike)

theorem Alike.first {begun begun' : Int8 × Listing} (ret : begun.1 = begun'.1)
    (alike : Alike ONEWIRE_DS2502_SUPPORT begun.2 begun'.2) (len : Nat) (rest : List Answer) :
    (if begun.1 ≤ 0 then some ⟨0, [], begun.2⟩
      else Onewire.afterSearch ONEWIRE_DS2502_SUPPORT len begun.1 begun.2
        (Onewire.listNext ONEWIRE_DS2502_SUPPORT len rest)).map Reply.shown =
      (if begun'.1 ≤ 0 then some ⟨0, [], begun'.2⟩
        else Onewire.afterSearch ONEWIRE_DS2502_SUPPORT len begun'.1 begun'.2
          (Onewire.listNext ONEWIRE_DS2502_SUPPORT len rest)).map Reply.shown := by
  rw [ret]
  split_ifs
  · rfl
  · exact alike.afterSearch (alike.listNext len rest)

/-- With the lock open nothing that an earlier search has left counts. -/
theorem parseCmdOnewireList_starts (leftOpen : left.lock = 0) (rightOpen : right.lock = 0) (call : Call) :
    (parseCmdOnewireList ONEWIRE_DS2502_SUPPORT left call).map Reply.shown =
      (parseCmdOnewireList ONEWIRE_DS2502_SUPPORT right call).map Reply.shown := by
  rw [parseCmdOnewireList, parseCmdOnewireList, if_pos leftOpen, if_pos rightOpen]
  cases ONEWIRE_DS2502_SUPPORT with
  | false =>
      dsimp only [Listing.listType]
      cases call.answers with
      | nil => rfl
      | cons answer rest =>
          exact @Alike.first false (({ left with lock := 1 } : Listing).search answer true)
            (({ right with lock := 1 } : Listing).search answer true) rfl
            ⟨rfl, fun other => absurd other Bool.false_ne_true⟩ call.len rest
  | true =>
      dsimp only [Listing.listType]
      cases parseListType call.cmd with
      | none => rfl
      | some list_type =>
          cases call.answers with
          | nil => rfl
          | cons answer rest =>
              exact @Alike.first true (({ left with lock := 1, list_type } : Listing).search answer true)
                (({ right with lock := 1, list_type } : Listing).search answer true) rfl ⟨rfl, fun _ => rfl⟩
                call.len rest

end Alike

/-! ## The bus with its devices -/

/-- What the line shows while the devices of a bus answer a search. -/
def answerOf (present : Bool) (start : Search) : Answer where
  present := present
  slots slot :=
    match searchBits (slot / 2) start with
    | .error _ => true
    | .ok search => if slot % 2 = 0 then search.bus.read.1 else search.bus.read.2.read.1

theorem answerOf_present (present : Bool) (start : Search) : (answerOf present start).present = present := rfl

def Search.found (search : Search) : Partway := ⟨search.ow_global, search.discrepancy⟩

/-- What a search has come to, without the bus. -/
def foundOf : Except Search Search → Except OwGlobal Partway
  | .error search => .error search.ow_global
  | .ok search => .ok search.found

theorem searchBit_found {answer : Answer} {i : UInt8} {search : Search}
    (first : answer.slots (2 * i.toNat) = search.bus.read.1)
    (second : answer.slots (2 * i.toNat + 1) = search.bus.read.2.read.1) :
    answer.searchBit i search.found = foundOf (searchBit i search) := by
  simp only [Answer.searchBit, searchBit, owRead, first, second, Search.found, apply_ite foundOf]
  rfl

theorem searchBits_found (present : Bool) (start : Search) (count : Nat) (small : count ≤ 256) :
    (answerOf present start).searchBits count start.found = foundOf (searchBits count start) := by
  induction count with
  | zero => rfl
  | succ count ih =>
      have value : (UInt8.ofNat count).toNat = count := UInt8.toNat_ofNat_of_lt' (by change _ < 256; omega)
      have last : searchBits (count + 1) start =
          (searchBits count start).bind (searchBit (UInt8.ofNat count)) := by
        rw [searchBits, List.range_succ, List.foldlM_append]
        simp only [List.foldlM_cons, List.foldlM_nil, bind_pure]
        rfl
      rw [Answer.searchBits_succ, ih (by omega), last]
      cases before : searchBits count start with
      | error => rfl
      | ok search =>
          refine searchBit_found ?_ ?_
          · rw [value, answerOf]
            dsimp only
            rw [Nat.mul_div_cancel_left count two_pos, before, Nat.mul_mod_right]
            rfl
          · have index : (2 * count + 1) / 2 = count := by omega
            have place : (2 * count + 1) % 2 = 1 := by omega
            rw [value, answerOf]
            dsimp only
            rw [index, before, place]
            rfl

/-- A search on the bus with its devices is one that a line can show. -/
theorem owSearchRom_answer (first : Bool) (ow_global : OwGlobal) (bus : Bus) :
    ∃ answer : Answer, answer.owSearchRom first ow_global =
      ((owSearchRom first ow_global bus).1, (owSearchRom first ow_global bus).2.1) := by
  refine ⟨answerOf (resetOnewire bus).1
    ⟨if first then ⟨-1, ⟨.replicate 8 0⟩⟩ else ow_global, -1,
      owWriteByte OW_ROM_SEARCH_ROM (resetOnewire bus).2⟩, ?_⟩
  rw [Answer.owSearchRom, owSearchRom]
  dsimp only
  generalize (if first = true then (⟨-1, ⟨.replicate 8 0⟩⟩ : OwGlobal) else ow_global) = start
  rw [answerOf_present]
  split_ifs
  · rfl
  · rfl
  · have bits := searchBits_found (resetOnewire bus).1
      ⟨start, -1, owWriteByte OW_ROM_SEARCH_ROM (resetOnewire bus).2⟩ 64 (by decide)
    dsimp only [Search.found] at bits
    rw [bits]
    cases searchBits 64 ⟨start, -1, owWriteByte OW_ROM_SEARCH_ROM (resetOnewire bus).2⟩ with
    | error => rfl
    | ok => rfl

/-! ## The lock -/

/-- In every run the calls that end a listing open the lock just if no call is disturbed; and where the lock is open,
a call answers what it answers in any other state in which it is. -/
theorem listing_opens_lock (ONEWIRE_DS2502_SUPPORT : Bool) (ow_global : Listing) (calls : List Call) :
    (EachMeets (listStep ONEWIRE_DS2502_SUPPORT) (OpensIn ONEWIRE_DS2502_SUPPORT) (some ow_global) calls ↔
      EachMeets (listStep ONEWIRE_DS2502_SUPPORT) (UndisturbedIn ONEWIRE_DS2502_SUPPORT) (some ow_global) calls) ∧
      ∀ left right : Listing, left.lock = 0 → right.lock = 0 → ∀ call,
        (parseCmdOnewireList ONEWIRE_DS2502_SUPPORT left call).map Reply.shown =
          (parseCmdOnewireList ONEWIRE_DS2502_SUPPORT right call).map Reply.shown :=
  ⟨EachMeets.congr fun _ _ => forall₂_congr fun _ _ => parseCmdOnewireList_opens _ _,
    fun _ _ => parseCmdOnewireList_starts⟩

/-- `onewire list x`. -/
theorem wrong_parameter_keeps_lock :
    ¬EachMeets (listStep true) (OpensIn true) (some ⟨⟨-1, ⟨.replicate 8 0⟩⟩, 0, 0⟩) [⟨[0x78], 50, []⟩] := by
  intro each
  exact absurd (each.1 _ rfl ⟨-1, [], ⟨⟨-1, ⟨.replicate 8 0⟩⟩, 1, 0⟩⟩ rfl rfl) taken_ne_zero

end Ethersex.Onewire
