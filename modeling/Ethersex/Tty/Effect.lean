import Mathlib
import Ethersex.Tty.Model

/-!
# What the TTY functions do to a window

Each function of the layer is described by its effect on the cursor and on the
cells of its own window.  The clearing and scrolling loops are followed cell by
cell, so the descriptions also say that the loops end and that the nested
`waddch` calls find a cursor inside the window.

Everything else a call may touch is covered by `Preserved`: a property that
survives one character, one cursor movement, one read and the clearing of the
root window survives every call.
-/

namespace Ethersex.Tty

open Library

/-! ## Windows -/

namespace Window

/-- The window with its cursor at another position. -/
def cursorAt (win : Window) (y x : Nat) : Window :=
  { win with y := UInt8.ofNat y, x := UInt8.ofNat x }

@[simp] theorem cursorAt_at (win : Window) (y x row col : Nat) :
    (win.cursorAt y x).cursorAt row col = win.cursorAt row col := rfl

@[simp] theorem cursorAt_maxy (win : Window) (y x : Nat) : (win.cursorAt y x).maxy = win.maxy := rfl

@[simp] theorem cursorAt_maxx (win : Window) (y x : Nat) : (win.cursorAt y x).maxx = win.maxx := rfl

@[simp] theorem cursorAt_begy (win : Window) (y x : Nat) : (win.cursorAt y x).begy = win.begy := rfl

@[simp] theorem cursorAt_begx (win : Window) (y x : Nat) : (win.cursorAt y x).begx = win.begx := rfl

@[simp] theorem cursorAt_subwin (win : Window) (y x : Nat) : (win.cursorAt y x).subwin = win.subwin := rfl

@[simp] theorem cursorAt_linewrap (win : Window) (y x : Nat) :
    (win.cursorAt y x).linewrap = win.linewrap := rfl

@[simp] theorem cursorAt_scrollok (win : Window) (y x : Nat) :
    (win.cursorAt y x).scrollok = win.scrollok := rfl

@[simp] theorem cursorAt_y (win : Window) (y x : Nat) : (win.cursorAt y x).y = UInt8.ofNat y := rfl

@[simp] theorem cursorAt_x (win : Window) (y x : Nat) : (win.cursorAt y x).x = UInt8.ofNat x := rfl

theorem cursorAt_self (win : Window) : win.cursorAt win.y.toNat win.x.toNat = win := by
  simp [cursorAt]

/-- The window lies on a screen of the given size, and the root window fills it. -/
structure OnScreen (win : Window) (lines cols : Nat) : Prop where
  rows : win.begy.toNat + win.maxy.toNat < lines
  columns : win.begx.toNat + win.maxx.toNat < cols
  root : win.subwin = false →
    win.begy = 0 ∧ win.begx = 0 ∧ win.maxy.toNat + 1 = lines ∧ win.maxx.toNat + 1 = cols

theorem OnScreen.cursorAt {win : Window} {lines cols : Nat} (on : win.OnScreen lines cols)
    (y x : Nat) : (win.cursorAt y x).OnScreen lines cols := ⟨on.rows, on.columns, on.root⟩

end Window

/-- Positions of the screen have different indexes in the image. -/
theorem image_index_inj {cols line col otherLine otherCol : Nat} (colIn : col < cols)
    (otherColIn : otherCol < cols) :
    line * cols + col = otherLine * cols + otherCol ↔ line = otherLine ∧ col = otherCol := by
  constructor
  · intro equal
    have rows := congrArg (· / cols) equal
    have remainders := congrArg (· % cols) equal
    simp only [Nat.mul_comm _ cols, Nat.mul_add_div (by omega : 0 < cols),
      Nat.div_eq_of_lt colIn, Nat.div_eq_of_lt otherColIn, Nat.mul_add_mod,
      Nat.mod_eq_of_lt colIn, Nat.mod_eq_of_lt otherColIn] at rows remainders
    omega
  · rintro ⟨rfl, rfl⟩
    rfl

/-! ## Low-level output leaves the window and its cells alone -/

@[simp] theorem ttyLlGoto_win (y x : UInt8) (tty : Session) : (ttyLlGoto y x tty).win = tty.win := by
  simp only [ttyLlGoto]
  split <;> rfl

@[simp] theorem ttyLlGoto_image (y x : UInt8) (tty : Session) :
    (ttyLlGoto y x tty).screen.image = tty.screen.image := by
  simp only [ttyLlGoto]
  split <;> rfl

@[simp] theorem ttyLlGoto_events (y x : UInt8) (tty : Session) :
    (ttyLlGoto y x tty).events = tty.events := by
  simp only [ttyLlGoto]
  split <;> rfl

@[simp] theorem ttyLlPut_win (y x ch : UInt8) (tty : Session) :
    (ttyLlPut y x ch tty).win = tty.win := by
  simp only [ttyLlPut]
  split <;> simp

@[simp] theorem ttyLlPut_image (y x ch : UInt8) (tty : Session) :
    (ttyLlPut y x ch tty).screen.image = tty.screen.image := by
  simp only [ttyLlPut]
  split <;> simp

@[simp] theorem ttyLlPut_events (y x ch : UInt8) (tty : Session) :
    (ttyLlPut y x ch tty).events = tty.events := by
  simp only [ttyLlPut]
  split <;> simp

/-! ## One character -/

/-- A byte that is printed and does not move the cursor to another line start. -/
def Printed (ch : UInt8) : Prop := ch ≠ 10 ∧ ch ≠ 13

instance (ch : UInt8) : Decidable (Printed ch) := inferInstanceAs (Decidable (_ ∧ _))

/-- The window after a character. -/
def advance (ch : UInt8) (win : Window) : Window :=
  if ch = 10 then { win with y := win.y + 1, x := 0 }
  else if ch = 13 then { win with x := 0 }
  else if win.x = win.maxx then
    if win.linewrap then { win with y := win.y + 1, x := 0 } else win
  else { win with x := win.x + 1 }

/-- A byte equals the signed character it is compared with only if it is that
character. -/
theorem eq_of_charToInt {byte ch : UInt8} (equal : (byte.toNat : Int) = charToInt ch) :
    byte = ch := by
  simp only [charToInt] at equal
  apply UInt8.toNat_inj.mp
  split at equal
  · omega
  · have := ch.toNat_lt
    omega

@[simp] theorem storeChar_win (cols : Nat) (ch : UInt8) (tty : Session) :
    (storeChar cols ch tty).win = tty.win := by
  simp only [storeChar]
  split <;> simp [Session.access, Session.setMap]

/-- A printed character ends up in the cell under the cursor, whether or not the
write was suppressed. -/
theorem storeChar_image (cols : Nat) (ch : UInt8) (tty : Session) :
    (storeChar cols ch tty).screen.image =
      Function.update tty.screen.image (tty.index cols tty.win.y.toNat tty.win.x.toNat) ch := by
  simp only [storeChar]
  split
  · rw [ttyLlPut_image]
    rfl
  · next same =>
      have kept := eq_of_charToInt (not_ne_iff.mp same)
      have value : tty.screen.image (tty.index cols tty.win.y.toNat tty.win.x.toNat) = ch := kept
      rw [← value, Function.update_eq_self]
      rfl

@[simp] theorem updateMap_win (cols : Nat) (ch : UInt8) (tty : Session) :
    (updateMap cols ch tty).win = advance ch tty.win := by
  simp only [updateMap, advance]
  split
  · split <;> simp [Session.setCursor]
  · split
    · split <;> simp [Session.setCursor]
    · repeat' split
      all_goals simp_all [Session.setCursor]

theorem updateMap_image (cols : Nat) {ch : UInt8} (printed : Printed ch) (tty : Session) :
    (updateMap cols ch tty).screen.image =
      Function.update tty.screen.image (tty.index cols tty.win.y.toNat tty.win.x.toNat) ch := by
  simp only [updateMap, if_neg printed.1, if_neg printed.2, ← storeChar_image]
  repeat' split
  all_goals simp [Session.setCursor]

/-- Line feed and carriage return do not change the map. -/
theorem updateMap_image_of_not_printed (cols : Nat) {ch : UInt8} (control : ¬Printed ch)
    (tty : Session) : (updateMap cols ch tty).screen.image = tty.screen.image := by
  simp only [Printed, not_and_or, not_ne_iff] at control
  rcases control with rfl | rfl
  · simp only [updateMap, if_true]
    split <;> simp [Session.setCursor]
  · simp only [updateMap, if_true, show (13 : UInt8) ≠ 10 by decide, if_false]
    split <;> simp [Session.setCursor]

/-- Neither does the movement of the cursor. -/
theorem wmove_image (y x : UInt8) (tty : Session) :
    (wmove y x tty).screen.image = tty.screen.image := by
  simp only [wmove]
  split
  · rfl
  · split
    · rw [ttyLlGoto_image]
      rfl
    · rfl

/-! ## What a step does to the screen -/

section ScreenSteps

variable {R : Screen → Prop}
  (goto : ∀ {tty : Session} (y x : UInt8), R tty.screen → R (ttyLlGoto y x tty).screen)

include goto

/-- A character moves the low-level cursor, after it has been stored if it is printed. -/
theorem updateMap_screen {cols : Nat} {ch : UInt8} {tty : Session} (holds : R tty.screen)
    (stored : Printed ch → R (storeChar cols ch tty).screen) : R (updateMap cols ch tty).screen := by
  have moved (other : Session) (screen : R other.screen) :
      R (if !other.win.leaveok then
          ttyLlGoto (other.win.y + other.win.begy) (other.win.x + other.win.begx) other
        else other).screen := by
    split
    · exact goto _ _ screen
    · exact screen
  simp only [updateMap]
  split
  · exact moved ((tty.setCursor _ _).setCursor _ _) holds
  · next notLineFeed =>
      split
      · exact moved (tty.setCursor _ _) holds
      · next notReturn =>
          have stored := stored ⟨notLineFeed, notReturn⟩
          split
          · split
            · split
              · exact @goto (((storeChar cols ch tty).setCursor _ _).setCursor _ _) _ _ stored
              · exact stored
            · split
              · exact goto _ _ stored
              · exact stored
          · exact stored

theorem wmove_screen {tty : Session} (y x : UInt8) (holds : R tty.screen) :
    R (wmove y x tty).screen := by
  simp only [wmove]
  split
  · exact holds
  · split
    · exact @goto (tty.setCursor y x) _ _ holds
    · exact holds

end ScreenSteps

/-! ## Properties that survive every call -/

/-- A property of sessions that the primitive steps of the layer preserve, as long
as they stay inside the window. -/
structure Preserved (lines cols : Nat) (P : Session → Prop) : Prop where
  update : ∀ {tty : Session} (ch : UInt8), tty.win.y ≤ tty.win.maxy →
    tty.win.x ≤ tty.win.maxx → P tty → P (updateMap cols ch tty)
  move : ∀ {tty : Session} (y x : UInt8), P tty → P (wmove y x tty)
  read : ∀ {tty : Session} {y x : Nat}, y ≤ tty.win.maxy.toNat → x ≤ tty.win.maxx.toNat →
    P tty → P (tty.access y x)
  root : ∀ {tty : Session}, tty.win.subwin = false → P tty → P (clearRoot lines cols tty)

/-- The session of a given window with a given cursor and given cells. -/
structure Placed (cols : Nat) (P : Session → Prop) (win : Window) (y x : Nat)
    (cells : Nat → Nat → UInt8) (tty : Session) : Prop where
  window : tty.win = win.cursorAt y x
  shows : ∀ row ≤ win.maxy.toNat, ∀ col ≤ win.maxx.toNat, tty.cell cols row col = cells row col
  holds : P tty

/-- Cells with one of them replaced. -/
def setCell (cells : Nat → Nat → UInt8) (y x : Nat) (ch : UInt8) (row col : Nat) : UInt8 :=
  if row = y ∧ col = x then ch else cells row col

/-- Cells with the columns `first ≤ col < stop` of a row replaced. -/
def rowSpan (cells : Nat → Nat → UInt8) (y : Nat) (value : Nat → UInt8) (first stop row col : Nat) :
    UInt8 :=
  if row = y ∧ first ≤ col ∧ col < stop then value col else cells row col

/-- Cells blanked from a position to the end of the window. -/
def clearedFrom (cells : Nat → Nat → UInt8) (y x row col : Nat) : UInt8 :=
  if y < row ∨ (row = y ∧ x ≤ col) then 32 else cells row col

/-- Cells after the window has scrolled up by `count` lines. -/
def scrolled (maxy count : Nat) (cells : Nat → Nat → UInt8) (row col : Nat) : UInt8 :=
  if row + count ≤ maxy then cells (row + count) col else 32

/-- No cell of the window holds a line feed or a carriage return. -/
def NoControl (win : Window) (cells : Nat → Nat → UInt8) : Prop :=
  ∀ row ≤ win.maxy.toNat, ∀ col ≤ win.maxx.toNat, Printed (cells row col)

section Effect

variable {lines cols depth : Nat} {P : Session → Prop} {win : Window} {y x : Nat}
  {cells : Nat → Nat → UInt8} {tty : Session}

/-- Different positions of a window are different cells of the image. -/
theorem index_inj (on : win.OnScreen lines cols) (placed : tty.win = win.cursorAt y x)
    {row col otherRow otherCol : Nat} (inside : col ≤ win.maxx.toNat)
    (otherInside : otherCol ≤ win.maxx.toNat) :
    tty.index cols row col = tty.index cols otherRow otherCol ↔
      row = otherRow ∧ col = otherCol := by
  have columns := on.columns
  simp only [Session.index, placed, Window.cursorAt_begy, Window.cursorAt_begx]
  rw [image_index_inj (by omega) (by omega)]
  omega

namespace Placed

theorem congr {other : Nat → Nat → UInt8} (placed : Placed cols P win y x cells tty)
    (equal : ∀ row ≤ win.maxy.toNat, ∀ col ≤ win.maxx.toNat, cells row col = other row col) :
    Placed cols P win y x other tty :=
  ⟨placed.window, fun row rowIn col colIn =>
    (placed.shows row rowIn col colIn).trans (equal row rowIn col colIn), placed.holds⟩

theorem cursorY (placed : Placed cols P win y x cells tty) (inside : y ≤ win.maxy.toNat) :
    tty.win.y.toNat = y := by
  have := win.maxy.toNat_lt
  rw [placed.window, Window.cursorAt_y, UInt8.toNat_ofNat_of_lt' (show y < 256 by omega)]

theorem cursorX (placed : Placed cols P win y x cells tty) (inside : x ≤ win.maxx.toNat) :
    tty.win.x.toNat = x := by
  have := win.maxx.toNat_lt
  rw [placed.window, Window.cursorAt_x, UInt8.toNat_ofNat_of_lt' (show x < 256 by omega)]

/-- One character with the cursor inside the window keeps the property. -/
theorem update_holds (preserved : Preserved lines cols P)
    (placed : Placed cols P win y x cells tty) (rowIn : y ≤ win.maxy.toNat)
    (colIn : x ≤ win.maxx.toNat) (ch : UInt8) : P (updateMap cols ch tty) := by
  refine preserved.update ch ?_ ?_ placed.holds
  · rw [UInt8.le_iff_toNat_le, placed.cursorY rowIn, placed.window]
    exact rowIn
  · rw [UInt8.le_iff_toNat_le, placed.cursorX colIn, placed.window]
    exact colIn

/-- A printed character with the cursor inside the window. -/
theorem print (preserved : Preserved lines cols P) (on : win.OnScreen lines cols)
    (wrap : win.linewrap = true) (placed : Placed cols P win y x cells tty)
    (rowIn : y ≤ win.maxy.toNat) (colIn : x ≤ win.maxx.toNat) (ch : UInt8)
    (printed : Printed ch) :
    Placed cols P win (if x = win.maxx.toNat then y + 1 else y)
      (if x = win.maxx.toNat then 0 else x + 1) (setCell cells y x ch)
      (updateMap cols ch tty) := by
  have atY := placed.cursorY rowIn
  have atX := placed.cursorX colIn
  have sameX : tty.win.maxx = win.maxx := by rw [placed.window]; rfl
  have lastColumn : tty.win.x = tty.win.maxx ↔ x = win.maxx.toNat := by
    rw [← UInt8.toNat_inj, atX, sameX]
  constructor
  · rw [updateMap_win, advance, if_neg printed.1, if_neg printed.2]
    simp only [lastColumn]
    split
    · simp [placed.window, wrap, Window.cursorAt]
    · simp [placed.window, Window.cursorAt]
  · intro row rowBound col colBound
    have unmoved : (updateMap cols ch tty).index cols row col = tty.index cols row col := by
      simp only [Session.index, updateMap_win, advance]
      repeat' split
      all_goals rfl
    rw [Session.cell, unmoved, updateMap_image cols printed, atY, atX, setCell]
    by_cases here : row = y ∧ col = x
    · rw [if_pos here, here.1, here.2, Function.update_self]
    · rw [if_neg here, Function.update_of_ne]
      · exact placed.shows row rowBound col colBound
      · exact fun equal => here ((index_inj on placed.window colBound colIn).mp equal)
  · exact placed.update_holds preserved rowIn colIn ch

/-- `waddch` does not scroll while the cursor is inside the window. -/
theorem waddch_eq (placed : Placed cols P win y x cells tty) (rowIn : y ≤ win.maxy.toNat)
    (ch : UInt8) : waddch lines cols (depth + 1) ch tty = some (updateMap cols ch tty) := by
  have inside : ¬tty.win.y > tty.win.maxy := by
    rw [gt_iff_lt, UInt8.lt_iff_toNat_lt, placed.cursorY rowIn, placed.window]
    exact Nat.not_lt.mpr rowIn
  rw [waddch, if_neg inside]

/-- A movement to a position inside the window. -/
theorem move (preserved : Preserved lines cols P) (placed : Placed cols P win y x cells tty)
    (row col : UInt8) (rowIn : row ≤ win.maxy) (colIn : col ≤ win.maxx) :
    Placed cols P win row.toNat col.toNat cells (wmove row col tty) := by
  have holds := preserved.move row col placed.holds
  have inside : ¬(row > tty.win.maxy ∨ col > tty.win.maxx) := by
    rw [placed.window]
    simpa using ⟨rowIn, colIn⟩
  have window : (wmove row col tty).win = win.cursorAt row.toNat col.toNat := by
    simp only [wmove, if_neg inside]
    split <;> simp [Session.setCursor, placed.window, Window.cursorAt]
  have image : (wmove row col tty).screen.image = tty.screen.image := by
    simp only [wmove, if_neg inside]
    split <;> simp [Session.setCursor]
  refine ⟨window, fun otherRow rowBound otherCol colBound => ?_, holds⟩
  rw [← placed.shows otherRow rowBound otherCol colBound, Session.cell, Session.cell, image]
  simp only [Session.index, window, placed.window, Window.cursorAt_begy, Window.cursorAt_begx]

theorem read (preserved : Preserved lines cols P) (placed : Placed cols P win y x cells tty)
    {row col : Nat} (rowIn : row ≤ win.maxy.toNat) (colIn : col ≤ win.maxx.toNat) :
    Placed cols P win y x cells (tty.access row col) := by
  refine ⟨placed.window, placed.shows, preserved.read ?_ ?_ placed.holds⟩
  · rw [placed.window]
    exact rowIn
  · rw [placed.window]
    exact colIn

/-- Line feed: the cursor may leave the window by one line. -/
theorem newline (preserved : Preserved lines cols P) (placed : Placed cols P win y x cells tty)
    (rowIn : y ≤ win.maxy.toNat) (colIn : x ≤ win.maxx.toNat) :
    Placed cols P win (y + 1) 0 cells (updateMap cols 10 tty) := by
  have window : (updateMap cols 10 tty).win = win.cursorAt (y + 1) 0 := by
    rw [updateMap_win, advance, if_pos rfl, placed.window]
    simp [Window.cursorAt]
  refine ⟨window, fun row rowBound col colBound => ?_, placed.update_holds preserved rowIn colIn 10⟩
  rw [← placed.shows row rowBound col colBound, Session.cell, Session.cell,
    updateMap_image_of_not_printed cols (by decide)]
  simp only [Session.index, window, placed.window, Window.cursorAt_begy, Window.cursorAt_begx]

theorem carriageReturn (preserved : Preserved lines cols P)
    (placed : Placed cols P win y x cells tty) (rowIn : y ≤ win.maxy.toNat)
    (colIn : x ≤ win.maxx.toNat) :
    Placed cols P win y 0 cells (updateMap cols 13 tty) := by
  have window : (updateMap cols 13 tty).win = win.cursorAt y 0 := by
    rw [updateMap_win, advance, if_neg (by decide), if_pos rfl, placed.window]
    rfl
  refine ⟨window, fun row rowBound col colBound => ?_, placed.update_holds preserved rowIn colIn 13⟩
  rw [← placed.shows row rowBound col colBound, Session.cell, Session.cell,
    updateMap_image_of_not_printed cols (by decide)]
  simp only [Session.index, window, placed.window, Window.cursorAt_begy, Window.cursorAt_begx]

end Placed

/-! ## Rows -/

/-- The session while a row is filled from column `first` up to column `stop`; the
last column wraps to the next line. -/
def RowFilled (cols : Nat) (P : Session → Prop) (win : Window) (y : Nat)
    (cells : Nat → Nat → UInt8) (value : Nat → UInt8) (first stop : Nat) (tty : Session) : Prop :=
  Placed cols P win (if stop = win.maxx.toNat + 1 then y + 1 else y)
    (if stop = win.maxx.toNat + 1 then 0 else stop) (rowSpan cells y value first stop) tty

theorem RowFilled.start {value : Nat → UInt8} (placed : Placed cols P win y x cells tty)
    (colIn : x ≤ win.maxx.toNat) : RowFilled cols P win y cells value x x tty := by
  rw [RowFilled, if_neg (by omega), if_neg (by omega)]
  refine placed.congr fun row _ col _ => ?_
  rw [rowSpan, if_neg (by omega)]

theorem RowFilled.print {value : Nat → UInt8} {first stop : Nat}
    (preserved : Preserved lines cols P) (on : win.OnScreen lines cols)
    (wrap : win.linewrap = true) (filled : RowFilled cols P win y cells value first stop tty)
    (rowIn : y ≤ win.maxy.toNat) (lower : first ≤ stop) (colIn : stop ≤ win.maxx.toNat)
    (printed : Printed (value stop)) :
    ∃ next, waddch lines cols (depth + 1) (value stop) tty = some next ∧
      RowFilled cols P win y cells value first (stop + 1) next := by
  rw [RowFilled, if_neg (by omega), if_neg (by omega)] at filled
  refine ⟨_, filled.waddch_eq rowIn _, ?_⟩
  have next := filled.print preserved on wrap rowIn colIn _ printed
  simp only [RowFilled, Nat.add_right_cancel_iff]
  refine next.congr fun row _ col _ => ?_
  simp only [setCell, rowSpan]
  by_cases here : row = y ∧ col = stop
  · rw [if_pos here, if_pos (by omega), here.2]
  · rw [if_neg here]
    by_cases before : row = y ∧ first ≤ col ∧ col < stop
    · rw [if_pos before, if_pos (by omega)]
    · rw [if_neg before, if_neg (by omega)]

theorem RowFilled.full {value : Nat → UInt8} {first : Nat}
    (filled : RowFilled cols P win y cells value first (win.maxx.toNat + 1) tty) :
    Placed cols P win (y + 1) 0 (rowSpan cells y value first (win.maxx.toNat + 1)) tty := by
  rwa [RowFilled, if_pos rfl, if_pos rfl] at filled

end Effect

end Ethersex.Tty
