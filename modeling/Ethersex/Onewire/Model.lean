import Mathlib

/-!
# The 1-Wire bus and the search for devices

The bus with its devices, as far as the search command goes: in two time slots the devices that
still take part answer with their next bit and with its complement, and a third slot tells them
which bit the master chose.  A slot reads as one unless a device pulls the line low.
-/

namespace Ethersex.Onewire

def OW_ROM_SEARCH_ROM : UInt8 := 0xF0

/-- The code of a device, the least significant bit of the first byte first. -/
structure OwRomCode where
  bytewise : Vector UInt8 8
deriving DecidableEq

namespace OwRomCode

def byte (rom : OwRomCode) (index : Nat) : UInt8 := rom.bytewise[index]?.getD 0

def bit (rom : OwRomCode) (idx : Nat) : Bool := (rom.byte (idx / 8)).toNat.testBit (idx % 8)

end OwRomCode

structure OwGlobal where
  last_discrepancy : Int8
  current_rom : OwRomCode
deriving DecidableEq

/-! ## The bus -/

/-- The devices on the bus, the ones that take part in a search, and the time slots since the
search was commanded. -/
structure Bus where
  devices : Finset OwRomCode
  searching : Finset OwRomCode
  slot : Nat

namespace Bus

/-- The devices that do not have the chosen bit drop out. -/
def select (bus : Bus) (value : Bool) : Bus :=
  { bus with
    searching := bus.searching.filter fun device => device.bit (bus.slot / 3) = value
    slot := bus.slot + 1 }

/-- A time slot in which the master leaves the line to the devices.  Where they expect to be told
a bit it is a one. -/
def read (bus : Bus) : Bool × Bus :=
  match bus.slot % 3 with
  | 0 => (decide (∀ device ∈ bus.searching, device.bit (bus.slot / 3) = true),
      { bus with slot := bus.slot + 1 })
  | 1 => (decide (∀ device ∈ bus.searching, device.bit (bus.slot / 3) = false),
      { bus with slot := bus.slot + 1 })
  | _ => (true, bus.select true)

/-- A time slot in which the master writes. -/
def write (bus : Bus) (value : Bool) : Bus :=
  if bus.slot % 3 = 2 then bus.select value else { bus with slot := bus.slot + 1 }

end Bus

/-- A reset ends every search.  Every device on the bus answers it. -/
def resetOnewire (bus : Bus) : Bool × Bus :=
  (decide bus.devices.Nonempty, { bus with searching := ∅ })

/-- The command that follows a reset.  Only the search keeps devices waiting for slots to answer. -/
def owWriteByte (value : UInt8) (bus : Bus) : Bus :=
  { bus with
    searching := if value = OW_ROM_SEARCH_ROM then bus.devices else ∅
    slot := 0 }

def owWrite (value : UInt8) (bus : Bus) : Bus := bus.write (decide (value > 0))

def owRead (bus : Bus) : UInt8 × Bus := (bus.read.1.toUInt8, bus.read.2)

/-! ## The search -/

def owSetAddressBit (rom : OwRomCode) (idx val : UInt8) : OwRomCode :=
  let byte := (idx / 8).toNat
  let mask : UInt8 := 1 <<< (idx % 8)
  if val = 0 then
    ⟨rom.bytewise.setIfInBounds byte (rom.byte byte &&& ~~~mask)⟩
  else
    ⟨rom.bytewise.setIfInBounds byte (rom.byte byte ||| mask)⟩

/-- The state within a search: the global variables, the branch found so far, and the bus. -/
structure Search where
  ow_global : OwGlobal
  discrepancy : UInt8
  bus : Bus

namespace Search

/-- One bit of the code is set. -/
def setAddressBit (search : Search) (idx val : UInt8) : Search :=
  { search with
    ow_global.current_rom := owSetAddressBit search.ow_global.current_rom idx val }

/-- The bit is written to the bus. -/
def selectBit (search : Search) (value : UInt8) : Search :=
  { search with bus := owWrite value search.bus }

end Search

/-- One pass of the loop.  Without a device the search returns in the middle of it. -/
def searchBit (i : UInt8) (search : Search) : Except Search Search :=
  let (bit1, bus) := owRead search.bus
  let (bit2, bus) := owRead bus
  let bits := bit2 <<< 1 ||| bit1
  let search := { search with bus }
  let last := search.ow_global.last_discrepancy.toInt
  if bits = 3 then .error search
  else if bits = 0 then
    if (i.toNat : Int) = last then .ok ((search.setAddressBit i 1).selectBit 1)
    else if (i.toNat : Int) > last then
      .ok ({ search.setAddressBit i 0 with discrepancy := i }.selectBit bit1)
    else
      let rom_bit := search.ow_global.current_rom.byte (i / 8).toNat &&& 1 <<< (i % 8)
      .ok ({ search with discrepancy := if rom_bit = 0 then i else search.discrepancy }.selectBit
        rom_bit)
  else .ok ((search.setAddressBit i bit1).selectBit bit1)

/-- The loop over the bits of a code. -/
def searchBits (count : Nat) (search : Search) : Except Search Search :=
  (List.range count).foldlM (fun search i => searchBit (UInt8.ofNat i) search) search

/-- The search for the first device or for the next one. -/
def owSearchRom (first : Bool) (ow_global : OwGlobal) (bus : Bus) : Int8 × OwGlobal × Bus :=
  let ow_global := if first then ⟨-1, ⟨.replicate 8 0⟩⟩ else ow_global
  if first = false ∧ ow_global.last_discrepancy < 0 then (0, ow_global, bus)
  else
    let (present, bus) := resetOnewire bus
    if present = false then (-1, ow_global, bus)
    else
      match searchBits 64 ⟨ow_global, -1, owWriteByte OW_ROM_SEARCH_ROM bus⟩ with
      | .error search => (0, search.ow_global, search.bus)
      | .ok search =>
          (1, { search.ow_global with last_discrepancy := search.discrepancy.toInt8 }, search.bus)

/-- Further searches one after another: what they return, and the code that each one leaves. -/
def searchNext : Nat → OwGlobal → Bus → List (Int8 × OwRomCode)
  | 0, _, _ => []
  | count + 1, ow_global, bus =>
      let (result, ow_global, bus) := owSearchRom false ow_global bus
      (result, ow_global.current_rom) :: searchNext count ow_global bus

/-- A first search and further ones. -/
def searchAll (further : Nat) (ow_global : OwGlobal) (bus : Bus) : List (Int8 × OwRomCode) :=
  let (result, ow_global, bus) := owSearchRom true ow_global bus
  (result, ow_global.current_rom) :: searchNext further ow_global bus

end Ethersex.Onewire
