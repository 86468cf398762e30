import Mathlib
import Ethersex.Tty.Calls

/-!
# The HD44780 driver

Definitions of `hardware/lcd/hd44780.c` for a controller of the DISPTECH kind,
and the low-level TTY calls that `core/tty/tty-hd44780.h` maps to them.

The controller is modelled by its display data RAM and the address counter.  Of
its commands only those matter that change one of the two: clear display, return
home and set DDRAM address.
-/

namespace Ethersex.Lcd

open Tty

/-- The controller with its display RAM, and the driver's `current_pos`. -/
structure Controller where
  ddram : UInt8 → UInt8
  address : UInt8
  currentPos : UInt8

/-- `CMD_SETDRAMADR`. -/
def cmdSetdramadr (addr : UInt8) : UInt8 := (0x80 : UInt8) ||| addr

/-- `CMD_CLEAR_DISPLAY`. -/
def cmdClearDisplay : UInt8 := 0x01

/-- `CMD_ENTRY_MODE`. -/
def cmdEntryMode (dir shift : UInt8) : UInt8 := (0x04 : UInt8) ||| shift ||| (dir <<< 1)

/-- `CMD_POWER`. -/
def cmdPower (display cursor blink : UInt8) : UInt8 :=
  (0x08 : UInt8) ||| (display <<< 2) ||| (cursor <<< 1) ||| blink

/-- `CMD_FUNCTIONSET`. -/
def cmdFunctionset (datalength lines font : UInt8) : UInt8 :=
  (0x20 : UInt8) ||| (datalength <<< 4) ||| (lines <<< 3) ||| (font <<< 2)

/-- What the controller does with a byte: data goes to the addressed cell, the
highest bit that is set selects the command. -/
def outputByte (rs : Bool) (data : UInt8) (lcd : Controller) : Controller :=
  if rs then
    { lcd with ddram := Function.update lcd.ddram lcd.address data, address := lcd.address + 1 }
  else if 0x80 ≤ data then { lcd with address := data &&& 0x7f }
  else if data = 0x01 then { lcd with ddram := fun _ => 0x20, address := 0 }
  else if data = 0x02 ∨ data = 0x03 then { lcd with address := 0 }
  else lcd

/-- `hd44780_clear`. -/
def hd44780Clear (lcd : Controller) : Controller := outputByte false cmdClearDisplay lcd

/-- `hd44780_goto`. -/
def hd44780Goto (line pos : UInt8) (lcd : Controller) : Controller :=
  { lcd with currentPos := UInt8.ofNat ((line.toNat * 20 + pos.toNat) % 80) }

/-- `hd44780_config`. -/
def hd44780Config (cursor blink : UInt8) (lcd : Controller) : Controller :=
  outputByte false (cmdPower 1 cursor blink) lcd

/-- `hd44780_init`. -/
def hd44780Init (lcd : Controller) : Controller :=
  let lcd := outputByte false (cmdFunctionset 0 1 0) lcd
  let lcd := hd44780Config 0 0 lcd
  let lcd := hd44780Clear lcd
  let lcd := outputByte false (cmdEntryMode 1 0) lcd
  let lcd := outputByte false (cmdSetdramadr 0) lcd
  { lcd with currentPos := 0 }

/-- The DDRAM address of a virtual position (`HD44780_DISPTECH`). -/
def start (currentPos : UInt8) : UInt8 :=
  if currentPos ≤ 19 then 0x00 - 0 + currentPos
  else if currentPos ≤ 39 then 0x40 - 20 + currentPos
  else if currentPos ≤ 59 then 0x10 - 40 + currentPos
  else if currentPos ≤ 79 then 0x50 - 60 + currentPos
  else 0

/-- `hd44780_put` for a character that is neither line feed nor carriage return. -/
def putChar (d : UInt8) (lcd : Controller) : Controller :=
  let lcd := outputByte false (cmdSetdramadr (start lcd.currentPos)) lcd
  let lcd := outputByte true d lcd
  let next := lcd.currentPos + 1
  { lcd with currentPos := if next = 80 then 0 else next }

/-- The padding loop of a line feed: a line has 20 columns. -/
def padLine : Nat → Controller → Controller
  | 0, lcd => lcd
  | count + 1, lcd =>
      if lcd.currentPos.toNat % 20 > 0 then padLine count (putChar 32 lcd) else lcd

/-- `hd44780_put`. -/
def hd44780Put (d : UInt8) (lcd : Controller) : Controller :=
  if d = 10 then
    let lcd := padLine 20 lcd
    if lcd.currentPos ≥ 80 then { lcd with currentPos := lcd.currentPos - 80 } else lcd
  else if d = 13 then
    { lcd with currentPos := lcd.currentPos - UInt8.ofNat (lcd.currentPos.toNat % 20) }
  else putChar d lcd

/-- `tty_hd44780_clear`, `tty_hd44780_goto` and `tty_hd44780_put`. -/
def llCall (lcd : Controller) : LlCall → Controller
  | .clear => hd44780Clear lcd
  | .goto y x => hd44780Goto y x lcd
  | .put _ _ ch => hd44780Put ch lcd

/-- The controller after the low-level calls that a screen has recorded. -/
def display (power : Controller) (calls : List LlCall) : Controller := calls.foldl llCall power

@[simp] theorem display_append (power : Controller) (calls later : List LlCall) :
    display power (calls ++ later) = later.foldl llCall (display power calls) :=
  List.foldl_append

/-- The DDRAM address that `hd44780_put` uses for a line and column. -/
def cellAddress (line col : Nat) : UInt8 := start (UInt8.ofNat ((line * 20 + col) % 80))

/-! ## Effect of the driver -/

/-- No byte that is sent to the controller moves the driver's position. -/
@[simp] theorem outputByte_currentPos (rs : Bool) (data : UInt8) (lcd : Controller) :
    (outputByte rs data lcd).currentPos = lcd.currentPos := by
  unfold outputByte
  split_ifs <;> rfl

@[simp] theorem hd44780Clear_ddram (lcd : Controller) : (hd44780Clear lcd).ddram = fun _ => 32 := by
  simp [hd44780Clear, outputByte, cmdClearDisplay]

@[simp] theorem hd44780Clear_currentPos (lcd : Controller) :
    (hd44780Clear lcd).currentPos = lcd.currentPos :=
  outputByte_currentPos _ _ _

@[simp] theorem hd44780Goto_ddram (line pos : UInt8) (lcd : Controller) :
    (hd44780Goto line pos lcd).ddram = lcd.ddram := rfl

theorem start_lt (pos : UInt8) : (start pos).toNat < 128 := by
  revert pos
  decide +kernel

/-- A character is stored at the address of the virtual position. -/
theorem putChar_ddram (d : UInt8) (lcd : Controller) :
    (putChar d lcd).ddram = Function.update lcd.ddram (start lcd.currentPos) d := by
  have command : ∀ addr : UInt8, addr.toNat < 128 →
      0x80 ≤ cmdSetdramadr addr ∧ cmdSetdramadr addr &&& 0x7f = addr := by decide +kernel
  obtain ⟨large, low⟩ := command _ (start_lt lcd.currentPos)
  simp [putChar, outputByte, large, low]

theorem putChar_currentPos (d : UInt8) (lcd : Controller) :
    (putChar d lcd).currentPos = if lcd.currentPos + 1 = 80 then 0 else lcd.currentPos + 1 := by
  simp only [putChar, outputByte_currentPos]

theorem hd44780Init_ddram (power : Controller) : (hd44780Init power).ddram = fun _ => 32 := rfl

theorem hd44780Init_currentPos (power : Controller) : (hd44780Init power).currentPos = 0 := rfl

end Ethersex.Lcd

/-!
## The display mirrors the image

The TTY layer writes a cell to the display only if the image changes, and moves
the display's position only if it believes that to be necessary.  The invariant
`Mirrors` keeps both beliefs true: the driver's virtual position is the one of the
low-level cursor, and every display cell holds its image cell.
-/

namespace Ethersex.Lcd

open Tty

/-- A display cell shows an image cell; a cell of the image that has never been
written shows as the blank of a cleared display. -/
def ShowsCell (lines cols : Nat) (controller : Controller) (screen : Screen) : Prop :=
  ∀ line < lines, ∀ col < cols,
    controller.ddram (cellAddress line col) = screen.image (line * cols + col) ∨
      (screen.image (line * cols + col) = 0 ∧ screen.written (line * cols + col) = false ∧
        controller.ddram (cellAddress line col) = 32)

/-- The display shows the image and is positioned at the low-level cursor. -/
structure Mirrors (lines cols : Nat) (power : Controller) (screen : Screen) : Prop where
  cells : ShowsCell lines cols (display power screen.calls) screen
  position : (display power screen.calls).currentPos.toNat =
    (screen.llY.toNat * 20 + screen.llX.toNat) % 80

/-! ## Addresses -/

/-- On the first two lines of 20 columns the address map is injective. -/
theorem start_inj (left right : Fin 40) :
    start (UInt8.ofNat left) = start (UInt8.ofNat right) ↔ left = right := by
  revert left right
  decide

theorem cellAddress_inj {line col otherLine otherCol : Nat} (lineIn : line < 2) (colIn : col < 20)
    (otherLineIn : otherLine < 2) (otherColIn : otherCol < 20) :
    cellAddress line col = cellAddress otherLine otherCol ↔ line = otherLine ∧ col = otherCol := by
  have injective := start_inj ⟨line * 20 + col, by omega⟩ ⟨otherLine * 20 + otherCol, by omega⟩
  rw [cellAddress, cellAddress, Nat.mod_eq_of_lt (by omega), Nat.mod_eq_of_lt (by omega),
    injective, Fin.mk.injEq]
  omega

/-! ## Low-level calls -/

section LowLevel

variable {lines cols : Nat} {power : Controller} {tty : Session}

theorem Mirrors.ttyLlGoto (mirrors : Mirrors lines cols power tty.screen) (y x : UInt8) :
    Mirrors lines cols power (ttyLlGoto y x tty).screen := by
  simp only [Tty.ttyLlGoto]
  split
  · exact mirrors
  · refine ⟨fun line lineIn col colIn => ?_, ?_⟩
    · simp only [display_append, List.foldl_cons, List.foldl_nil, llCall, hd44780Goto_ddram]
      exact mirrors.cells line lineIn col colIn
    · simp only [display_append, List.foldl_cons, List.foldl_nil, llCall, hd44780Goto]
      rw [UInt8.toNat_ofNat_of_lt' (show _ < 256 by omega)]

/-- Before a character is sent, the display is positioned at its cell. -/
theorem positioned (position : (display power tty.screen.calls).currentPos.toNat =
      (tty.screen.llY.toNat * 20 + tty.screen.llX.toNat) % 80) (row col : UInt8) :
    ∃ calls, (if row ≠ tty.screen.llY ∨ col ≠ tty.screen.llX then Tty.ttyLlGoto row col tty
        else tty).screen = { tty.screen with calls, llY := row, llX := col } ∧
      (display power calls).ddram = (display power tty.screen.calls).ddram ∧
      (display power calls).currentPos = UInt8.ofNat ((row.toNat * 20 + col.toNat) % 80) := by
  by_cases here : row = tty.screen.llY ∧ col = tty.screen.llX
  · refine ⟨tty.screen.calls, ?_, rfl, ?_⟩
    · rw [if_neg (by simp [here]), here.1, here.2]
    · rw [← UInt8.toNat_inj, position, here.1, here.2,
        UInt8.toNat_ofNat_of_lt' (show _ < 256 by omega)]
  · refine ⟨tty.screen.calls ++ [.goto row col], ?_, ?_, ?_⟩
    · rw [if_pos (not_and_or.mp here), Tty.ttyLlGoto, if_neg here]
    · simp only [display_append, List.foldl_cons, List.foldl_nil, llCall, hd44780Goto_ddram]
    · simp only [display_append, List.foldl_cons, List.foldl_nil, llCall, hd44780Goto]

/-- Storing a character in the image and sending it to the display. -/
theorem Mirrors.put (mirrors : Mirrors lines cols power tty.screen) (low : lines ≤ 2)
    (narrow : cols ≤ 20) {y x : Nat} {row col : UInt8} (line : row.toNat = y + tty.win.begy.toNat)
    (column : col.toNat = x + tty.win.begx.toNat) (lineIn : row.toNat < lines)
    (colIn : col.toNat < cols) {ch : UInt8} (printed : Printed ch) :
    Mirrors lines cols power (ttyLlPut row col ch (tty.setMap cols y x ch)).screen := by
  obtain ⟨calls, screen, ddram, position⟩ :=
    @positioned power (tty.setMap cols y x ch) mirrors.position row col
  have small : row.toNat * 20 + col.toNat < 40 := by omega
  have address : start (display power calls).currentPos = cellAddress row.toNat col.toNat := by
    rw [position, cellAddress]
  have target : tty.index cols y x = row.toNat * cols + col.toNat := by
    rw [Session.index, line, column]
  have after : (ttyLlPut row col ch (tty.setMap cols y x ch)).screen =
      { (tty.setMap cols y x ch).screen with
        calls := calls ++ [.put row col ch], llY := row, llX := col + 1 } := by
    simp only [ttyLlPut, screen]
  rw [after]
  have sent : display power (calls ++ [.put row col ch]) = putChar ch (display power calls) := by
    simp only [display_append, List.foldl_cons, List.foldl_nil, llCall, hd44780Put,
      if_neg printed.1, if_neg printed.2]
  refine ⟨fun otherLine otherLineIn otherCol otherColIn => ?_, ?_⟩
  · simp only [sent, putChar_ddram, address, ddram, Session.setMap, Session.access]
    by_cases here : otherLine = row.toNat ∧ otherCol = col.toNat
    · left
      rw [here.1, here.2, Function.update_self]
      change ch = Function.update tty.screen.image (tty.index cols y x) ch _
      rw [target, Function.update_self]
    · have elsewhere : cellAddress otherLine otherCol ≠ cellAddress row.toNat col.toNat := by
        rw [Ne, cellAddress_inj (by omega) (by omega) (by omega) (by omega)]
        exact here
      have otherCell : otherLine * cols + otherCol ≠ tty.index cols y x := by
        rw [target, Ne, image_index_inj otherColIn colIn]
        exact here
      rw [Function.update_of_ne elsewhere]
      have kept := mirrors.cells otherLine otherLineIn otherCol otherColIn
      change _ = Function.update tty.screen.image (tty.index cols y x) ch _ ∨
        Function.update tty.screen.image (tty.index cols y x) ch _ = 0 ∧
          Function.update tty.screen.written (tty.index cols y x) true _ = false ∧ _
      rwa [Function.update_of_ne otherCell, Function.update_of_ne otherCell]
  · rw [sent, putChar_currentPos, position, Nat.mod_eq_of_lt (by omega)]
    have next : (UInt8.ofNat (row.toNat * 20 + col.toNat) + 1).toNat =
        row.toNat * 20 + col.toNat + 1 := by
      rw [UInt8.toNat_add, UInt8.toNat_ofNat_of_lt' (show _ < 256 by omega), UInt8.toNat_one]
      omega
    have llX : (col + 1).toNat = col.toNat + 1 := by
      rw [UInt8.toNat_add, UInt8.toNat_one]
      omega
    rw [if_neg, next, llX]
    · simp only
      omega
    · rw [← UInt8.toNat_inj, next, show (80 : UInt8).toNat = 80 from rfl]
      omega

theorem Mirrors.storeChar (mirrors : Mirrors lines cols power tty.screen) (low : lines ≤ 2)
    (narrow : cols ≤ 20) (on : tty.win.OnScreen lines cols) (rowIn : tty.win.y ≤ tty.win.maxy)
    (columnIn : tty.win.x ≤ tty.win.maxx) {ch : UInt8} (printed : Printed ch) :
    Mirrors lines cols power (storeChar cols ch tty).screen := by
  have rows := on.rows
  have columns := on.columns
  rw [UInt8.le_iff_toNat_le] at rowIn columnIn
  simp only [Tty.storeChar]
  split
  · have line : (tty.win.y + tty.win.begy).toNat = tty.win.y.toNat + tty.win.begy.toNat := by
      rw [UInt8.toNat_add]
      omega
    have column : (tty.win.x + tty.win.begx).toNat = tty.win.x.toNat + tty.win.begx.toNat := by
      rw [UInt8.toNat_add]
      omega
    exact @Mirrors.put lines cols power (tty.access tty.win.y.toNat tty.win.x.toNat) mirrors low narrow
      _ _ _ _ line column (by omega) (by omega) _ printed
  · exact mirrors

/-- The cleared display shows the cleared image. -/
theorem Mirrors.clearRoot (mirrors : Mirrors lines cols power tty.screen) :
    Mirrors lines cols power (clearRoot lines cols tty).screen := by
  refine ⟨fun line lineIn col colIn => ?_, ?_⟩
  · left
    have inside : line * cols + col < lines * cols := by
      have := Nat.mul_le_mul_right cols (Nat.succ_le_of_lt lineIn)
      rw [Nat.succ_mul] at this
      omega
    simp only [Tty.clearRoot, ttyLlClear, Session.setCursor, display_append, List.foldl_cons,
      List.foldl_nil, llCall, hd44780Clear_ddram, if_pos inside]
  · simp only [Tty.clearRoot, ttyLlClear, Session.setCursor, display_append, List.foldl_cons,
      List.foldl_nil, llCall, hd44780Clear_currentPos]
    exact mirrors.position

/-- Every primitive step of the layer keeps display and image together. -/
theorem preserved_mirrors (low : lines ≤ 2) (narrow : cols ≤ 20) (power : Controller) :
    Preserved lines cols (Carried lines cols (Mirrors lines cols power)) :=
  preserved_carried (fun y x mirrors => mirrors.ttyLlGoto y x)
    (fun on rowIn columnIn printed mirrors => mirrors.storeChar low narrow on rowIn columnIn printed)
    Mirrors.clearRoot

end LowLevel

/-! ## From power-up -/

/-- The controller when `hd44780_init` has run after `initscr`. -/
def started (lines cols : Nat) (power : Controller) : Controller :=
  hd44780Init (display power (Desk.initial lines cols).screen.calls)

/-- The desk at that time, recording the low-level calls that follow. -/
def startDesk (lines cols : Nat) : Desk :=
  { Desk.initial lines cols with screen := { (Desk.initial lines cols).screen with calls := [] } }

theorem startDesk_sound {lines cols : Nat} (tall : 0 < lines) (wide : 0 < cols) (low : lines ≤ 2)
    (narrow : cols ≤ 20) (power : Controller) :
    (startDesk lines cols).Sound lines cols (Mirrors lines cols (started lines cols power)) := by
  refine ⟨fun win member => ?_, fun _ => show Printed 0 by decide, ?_, ?_⟩
  · rw [List.mem_singleton.mp member]
    exact initscr_usable tall wide (by omega) (by omega)
  · intro line _ col _
    refine Or.inr ⟨rfl, rfl, ?_⟩
    change (hd44780Init _).ddram _ = 32
    rw [hd44780Init_ddram]
  · change (hd44780Init _).currentPos.toNat = _
    rw [hd44780Init_currentPos]
    rfl

/-- After any calls on the root window and on sub-windows the display shows the
image. -/
theorem display_mirrors_image (lines cols : Nat) (tall : 0 < lines) (wide : 0 < cols)
    (low : lines ≤ 2) (narrow : cols ≤ 20) (power : Controller) (depth : Nat)
    (actions : List Action) (inBounds : ∀ action ∈ actions, action.InBounds lines cols) :
    ∃ desk, (startDesk lines cols).run lines cols (depth + 2) actions = some desk ∧
      ShowsCell lines cols (display (started lines cols power) desk.screen.calls) desk.screen := by
  obtain ⟨desk, run, sound⟩ :=
    (startDesk_sound tall wide low narrow power).run depth (preserved_mirrors low narrow _)
      (by omega) (by omega) inBounds
  exact ⟨desk, run, sound.holds.cells⟩

/-- Two lines of 16 columns, with a sub-window that is written past its end. -/
theorem display_mirrors_image_of_subwin :
    ∃ desk,
      (startDesk 2 16).run 2 16 2
        [.subwin 1 8 0 4, .on 1 (.waddstr [72, 101, 108, 108, 111, 10, 72, 105]),
          .on 0 (.leaveok false), .on 0 (.wmove 1 3), .on 0 (.wscroll 0)] = some desk ∧
      ShowsCell 2 16 (display (started 2 16 ⟨fun _ => 0, 0, 0⟩) desk.screen.calls) desk.screen :=
  display_mirrors_image 2 16 (by decide) (by decide) (by decide) (by decide) _ 0 _ fun action member => by
    simp only [List.mem_cons, List.not_mem_nil, or_false] at member
    rcases member with rfl | rfl | rfl | rfl | rfl <;> simp [Action.InBounds]

end Ethersex.Lcd
