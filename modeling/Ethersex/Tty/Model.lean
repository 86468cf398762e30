import Mathlib
import Ethersex.Library.Loop

/-!
# The TTY layer

Definitions of `core/tty/tty.c`, under the names of that file.

A call runs on one window and on the screen all windows share.  The low-level
driver calls are recorded in order, so that a driver can be run on them
afterwards.  `tty_image` is a function of the flat index that `map` computes.

`waddch` and `wscroll` call each other.  Each function that is part of this
recursion takes the `waddch` it calls as a parameter, and `waddch` closes the
recursion over the nesting depth.  A result `none` means that the depth was
exceeded or that a loop does not end.
-/

namespace Ethersex.Tty

open Library

/-- `WINDOW`. -/
structure Window where
  subwin : Bool
  linewrap : Bool
  scrollok : Bool
  leaveok : Bool
  y : UInt8
  x : UInt8
  maxy : UInt8
  maxx : UInt8
  begy : UInt8
  begx : UInt8
  deriving DecidableEq, Repr

/-- A call into the low-level driver. -/
inductive LlCall where
  | clear
  | goto (y x : UInt8)
  | put (y x ch : UInt8)
  deriving DecidableEq, Repr

/-- The state all windows share: `tty_image`, the low-level cursor and the driver
calls made so far.  `written` marks the cells of the image that have been
assigned to; the code does not read it. -/
structure Screen where
  image : Nat → UInt8
  written : Nat → Bool
  llY : UInt8
  llX : UInt8
  calls : List LlCall

/-- What a call on a window does with `map` and with the cursor, in order.  The
positions are those of the window. -/
inductive Event where
  | access (y x : Nat)
  | cursor (y x : UInt8)
  deriving DecidableEq, Repr

/-- The state of a call: its window, the screen and the events so far. -/
structure Session where
  win : Window
  screen : Screen
  events : List Event

namespace Session

/-- Assign to the cursor of the window. -/
def setCursor (tty : Session) (y x : UInt8) : Session :=
  { tty with
    win := { tty.win with y, x }
    events := tty.events ++ [.cursor y x] }

/-- Flat image index of a window position. -/
def index (cols : Nat) (tty : Session) (y x : Nat) : Nat :=
  (y + tty.win.begy.toNat) * cols + (x + tty.win.begx.toNat)

/-- Value of `map(win, y, x)`. -/
def cell (cols : Nat) (tty : Session) (y x : Nat) : UInt8 :=
  tty.screen.image (tty.index cols y x)

/-- Note an access through `map(win, y, x)`. -/
def access (tty : Session) (y x : Nat) : Session :=
  { tty with events := tty.events ++ [.access y x] }

/-- `map(win, y, x) = ch`. -/
def setMap (cols : Nat) (tty : Session) (y x : Nat) (ch : UInt8) : Session :=
  let tty := tty.access y x
  { tty with
    screen :=
      { tty.screen with
        image := Function.update tty.screen.image (tty.index cols y x) ch
        written := Function.update tty.screen.written (tty.index cols y x) true } }

end Session

/-! ## Low-level output -/

/-- `tty_ll_clear`. -/
def ttyLlClear (tty : Session) : Session :=
  { tty with screen := { tty.screen with calls := tty.screen.calls ++ [.clear] } }

/-- `tty_ll_goto`. -/
def ttyLlGoto (y x : UInt8) (tty : Session) : Session :=
  if y = tty.screen.llY ∧ x = tty.screen.llX then tty
  else
    { tty with
      screen := { tty.screen with calls := tty.screen.calls ++ [.goto y x], llY := y, llX := x } }

/-- `tty_ll_put`. -/
def ttyLlPut (y x ch : UInt8) (tty : Session) : Session :=
  let tty :=
    if y ≠ tty.screen.llY ∨ x ≠ tty.screen.llX then ttyLlGoto y x tty else tty
  { tty with
    screen :=
      { tty.screen with
        calls := tty.screen.calls ++ [.put y x ch]
        llX := tty.screen.llX + 1 } }

/-- Value of a `char`, which is signed, in an `int` comparison. -/
def charToInt (ch : UInt8) : Int :=
  if ch.toNat < 128 then ch.toNat else ch.toNat - 256

/-! ## Cursor movement -/

/-- `wmove`. -/
def wmove (y x : UInt8) (tty : Session) : Session :=
  if y > tty.win.maxy ∨ x > tty.win.maxx then tty
  else
    let tty := tty.setCursor y x
    if !tty.win.leaveok then ttyLlGoto (y + tty.win.begy) (x + tty.win.begx) tty else tty

/-! ## Clearing and scrolling, with the `waddch` they call -/

section Recursive

variable (lines cols : Nat) (add : UInt8 → Session → Option Session)

/-- `wspacetoeol`. -/
def wspacetoeol (tty : Session) : Option Session :=
  times (add 32) (tty.win.maxx - tty.win.x + 1).toNat tty

/-- `wclrtoeol`. -/
def wclrtoeol (tty : Session) : Option Session :=
  let y := tty.win.y
  let x := tty.win.x
  (wspacetoeol add tty).map (wmove y x)

/-- `wclrtobot`. -/
def wclrtobot (tty : Session) : Option Session :=
  let y := tty.win.y
  let x := tty.win.x
  (wspacetoeol add tty).bind fun tty =>
    (forUpTo (fun row tty => wspacetoeol add (wmove row 0 tty)) (y + 1) tty.win.maxy tty).map
      (wmove y x)

/-- The branch of `wclear` for the root window. -/
def clearRoot (tty : Session) : Session :=
  let tty :=
    { tty with
      screen :=
        { tty.screen with
          image := fun i => if i < lines * cols then 32 else tty.screen.image i
          written := fun i => decide (i < lines * cols) || tty.screen.written i } }
  (ttyLlClear tty).setCursor 0 0

/-- `wclear`. -/
def wclear (tty : Session) : Option Session :=
  if !tty.win.subwin then some (clearRoot lines cols tty)
  else wclrtobot add (wmove 0 0 tty)

/-- One column of the copy loop of `wscroll`. -/
def copyCell (y count : UInt8) (tty : Session) : Option Session :=
  let x := tty.win.x.toNat
  let source := y.toNat + count.toNat
  add (tty.cell cols source x) (tty.access source x)

/-- `wscroll`. -/
def wscroll (count : UInt8) (tty : Session) : Option Session :=
  if count > tty.win.maxy then wclear lines cols add tty
  else
    (forUpTo
        (fun y tty => forUpTo (fun _ tty => copyCell cols add y count tty) 0 tty.win.maxx
          (wmove y 0 tty))
        0 (tty.win.maxy - count) tty).bind fun tty =>
      wclrtobot add (wmove (tty.win.maxy - count + 1) 0 tty)

end Recursive

/-! ## Output -/

/-- The update of the off-screen map for a printed character, suppressed when the
map already holds it. -/
def storeChar (cols : Nat) (ch : UInt8) (tty : Session) : Session :=
  let y := tty.win.y
  let x := tty.win.x
  let tty := tty.access y.toNat x.toNat
  if ((tty.cell cols y.toNat x.toNat).toNat : Int) ≠ charToInt ch then
    ttyLlPut (y + tty.win.begy) (x + tty.win.begx) ch (tty.setMap cols y.toNat x.toNat ch)
  else tty

/-- The part of `waddch` after the scroll: the `switch` over the character. -/
def updateMap (cols : Nat) (ch : UInt8) (tty : Session) : Session :=
  let toCursor (tty : Session) : Session :=
    if !tty.win.leaveok then
      ttyLlGoto (tty.win.y + tty.win.begy) (tty.win.x + tty.win.begx) tty
    else tty
  if ch = 10 then
    let tty := tty.setCursor (tty.win.y + 1) tty.win.x
    toCursor (tty.setCursor tty.win.y 0)
  else if ch = 13 then
    toCursor (tty.setCursor tty.win.y 0)
  else
    let tty := storeChar cols ch tty
    if tty.win.x = tty.win.maxx then
      let tty :=
        if tty.win.linewrap then
          let tty := tty.setCursor (tty.win.y + 1) tty.win.x
          tty.setCursor tty.win.y 0
        else tty
      if !tty.win.leaveok then ttyLlGoto (tty.win.y + tty.win.begy) tty.win.begx tty else tty
    else tty.setCursor tty.win.y (tty.win.x + 1)

/-- `waddch`, nested at most `depth` deep. -/
def waddch (lines cols : Nat) : (depth : Nat) → UInt8 → Session → Option Session
  | 0, _, _ => none
  | depth + 1, ch, tty =>
      if tty.win.y > tty.win.maxy then
        if !tty.win.scrollok then some tty
        else
          (wscroll lines cols (waddch lines cols depth) (tty.win.y - tty.win.maxy) tty).map
            (updateMap cols ch)
      else some (updateMap cols ch tty)

/-- `waddch` for each character of a string in turn. -/
def addString (lines cols depth : Nat) : List UInt8 → Session → Option Session
  | [], tty => some tty
  | ch :: rest, tty =>
      (waddch lines cols depth ch tty).bind (addString lines cols depth rest)

/-- `waddstr`: the characters in front of the terminating zero. -/
def waddstr (lines cols depth : Nat) (text : List UInt8) : Session → Option Session :=
  addString lines cols depth (text.takeWhile (· ≠ 0))

/-! ## Windows -/

/-- `initscr`, on zero-initialised globals and a screen of `lines × cols`. -/
def initscr (lines cols : Nat) : Session :=
  ttyLlClear
    { win :=
        { subwin := false
          linewrap := true
          scrollok := true
          leaveok := true
          y := 0
          x := 0
          maxy := UInt8.ofNat (lines - 1)
          maxx := UInt8.ofNat (cols - 1)
          begy := 0
          begx := 0 }
      screen := { image := fun _ => 0, written := fun _ => false, llY := 0, llX := 0, calls := [] }
      events := [] }

/-- `subwin`, where its `malloc` succeeds. -/
def subwin (lines cols begy begx : UInt8) : Window where
  subwin := true
  linewrap := true
  scrollok := true
  leaveok := true
  y := 0
  x := 0
  maxy := lines - 1
  maxx := cols - 1
  begy := begy
  begx := begx

end Ethersex.Tty
