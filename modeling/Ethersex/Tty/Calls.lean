import Mathlib
import Ethersex.Tty.Scrolling

/-!
# Sequences of calls

A desk is the screen with all its windows.  Every call on a window that wraps and
scrolls ends, also when the cursor is on the line below the window, where
clearing and scrolling print through a `waddch` that scrolls itself.  A property
that the primitive steps of the layer preserve therefore survives every sequence
of calls (`Desk.Sound.run`).
-/

namespace Ethersex.Tty

open Library

/-- A call of the TTY layer on a window, or an assignment to its `leaveok`. -/
inductive Call where
  | waddch (ch : UInt8)
  | waddstr (text : List UInt8)
  | wmove (y x : UInt8)
  | wclear
  | wclrtoeol
  | wclrtobot
  | wscroll (lines : UInt8)
  | leaveok (flag : Bool)

/-- Run a call. -/
def Call.run (lines cols depth : Nat) (call : Call) (tty : Session) : Option Session :=
  let add := Tty.waddch lines cols depth
  match call with
  | .waddch ch => add ch tty
  | .waddstr text => Tty.waddstr lines cols depth text tty
  | .wmove y x => some (Tty.wmove y x tty)
  | .wclear => Tty.wclear lines cols add tty
  | .wclrtoeol => Tty.wclrtoeol add tty
  | .wclrtobot => Tty.wclrtobot add tty
  | .wscroll count => Tty.wscroll lines cols add count tty
  | .leaveok flag => some { tty with win := { tty.win with leaveok := flag } }

/-- All windows, the root window first, and the screen they share. -/
structure Desk where
  windows : List Window
  screen : Screen

/-- A call on one of the windows, or the creation of a sub-window. -/
inductive Action where
  | on (window : Nat) (call : Call)
  | subwin (lines cols begy begx : UInt8)

/-- The desk after `initscr`. -/
def Desk.initial (lines cols : Nat) : Desk :=
  ⟨[(initscr lines cols).win], (initscr lines cols).screen⟩

/-- Perform an action.  There is no effect without the window. -/
def Desk.perform (lines cols depth : Nat) (desk : Desk) : Action → Option Desk
  | .on window call =>
      match desk.windows[window]? with
      | none => some desk
      | some win =>
          (call.run lines cols depth ⟨win, desk.screen, []⟩).map fun tty =>
            ⟨desk.windows.set window tty.win, tty.screen⟩
  | .subwin height width begy begx =>
      some { desk with windows := desk.windows ++ [Tty.subwin height width begy begx] }

/-- Perform a sequence of actions. -/
def Desk.run (lines cols depth : Nat) : List Action → Desk → Option Desk
  | [], desk => some desk
  | action :: rest, desk => (desk.perform lines cols depth action).bind (run lines cols depth rest)

/-- Sub-windows are not empty and lie on the screen. -/
def Action.InBounds (lines cols : Nat) : Action → Prop
  | .on _ _ => True
  | .subwin height width begy begx =>
      0 < height.toNat ∧ 0 < width.toNat ∧
        begy.toNat + height.toNat ≤ lines ∧ begx.toNat + width.toNat ≤ cols

/-! ## Calls from any position of the cursor -/

/-- The cursor is inside the window or on the line below it, and no cell holds a
control character. -/
def Settled (cols : Nat) (P : Session → Prop) (win : Window) (tty : Session) : Prop :=
  ∃ y x cells, Placed cols P win y x cells tty ∧ NoControl win cells ∧
    y ≤ win.maxy.toNat + 1 ∧ x ≤ win.maxx.toNat

section Settled

variable {lines cols : Nat} (depth : Nat) {P : Session → Prop} {win : Window} {y x : Nat}
  {cells : Nat → Nat → UInt8} {tty : Session}

theorem Placed.settled_update (preserved : Preserved lines cols P) (on : win.OnScreen lines cols)
    (wrap : win.linewrap = true) (placed : Placed cols P win y x cells tty)
    (clean : NoControl win cells) (rowIn : y ≤ win.maxy.toNat) (colIn : x ≤ win.maxx.toNat)
    (ch : UInt8) : Settled cols P win (updateMap cols ch tty) := by
  by_cases lineFeed : ch = 10
  · subst lineFeed
    exact ⟨_, _, _, placed.newline preserved rowIn colIn, clean, Nat.succ_le_succ rowIn,
      Nat.zero_le _⟩
  by_cases home : ch = 13
  · subst home
    exact ⟨_, _, _, placed.carriageReturn preserved rowIn colIn, clean, Nat.le_succ_of_le rowIn,
      Nat.zero_le _⟩
  have printed : Printed ch := ⟨lineFeed, home⟩
  refine ⟨_, _, _, placed.print preserved on wrap rowIn colIn _ printed, clean.setCell printed, ?_, ?_⟩
  · split <;> omega
  · split <;> omega

theorem Settled.waddch (preserved : Preserved lines cols P) (on : win.OnScreen lines cols)
    (wrap : win.linewrap = true) (scrolls : win.scrollok = true) (fits : win.Fits)
    (settled : Settled cols P win tty) (ch : UInt8) :
    ∃ next, waddch lines cols (depth + 2) ch tty = some next ∧ Settled cols P win next := by
  obtain ⟨y, x, cells, placed, clean, rowIn, colIn⟩ := settled
  by_cases pending : y = win.maxy.toNat + 1
  · subst pending
    obtain ⟨mid, printed, moved⟩ :=
      waddch_pending depth preserved on wrap scrolls fits placed clean ch
    exact ⟨_, printed, moved.settled_update preserved on wrap (clean.scrolled 1) (le_refl _)
      (Nat.zero_le _) ch⟩
  · have inside : y ≤ win.maxy.toNat := by omega
    exact ⟨_, placed.waddch_eq inside ch,
      placed.settled_update preserved on wrap clean inside colIn ch⟩

theorem Settled.move (preserved : Preserved lines cols P) (settled : Settled cols P win tty)
    (row col : UInt8) : Settled cols P win (wmove row col tty) := by
  obtain ⟨y, x, cells, placed, clean, rowIn, colIn⟩ := settled
  by_cases inside : row ≤ win.maxy ∧ col ≤ win.maxx
  · exact ⟨_, _, _, placed.move preserved _ _ inside.1 inside.2, clean,
      Nat.le_succ_of_le (UInt8.le_iff_toNat_le.mp inside.1), UInt8.le_iff_toNat_le.mp inside.2⟩
  · have refused : wmove row col tty = tty := by
      rw [wmove, if_pos]
      rw [placed.window, Window.cursorAt_maxy, Window.cursorAt_maxx]
      rwa [not_and_or, UInt8.not_le, UInt8.not_le] at inside
    rw [refused]
    exact ⟨y, x, cells, placed, clean, rowIn, colIn⟩

theorem Settled.size (settled : Settled cols P win tty) :
    tty.win.maxy = win.maxy ∧ tty.win.maxx = win.maxx := by
  obtain ⟨y, x, cells, placed, -⟩ := settled
  rw [placed.window]
  exact ⟨rfl, rfl⟩

theorem Settled.access (preserved : Preserved lines cols P) (settled : Settled cols P win tty)
    (row : Nat) (rowIn : row ≤ win.maxy.toNat) :
    Settled cols P win (tty.access row tty.win.x.toNat) := by
  obtain ⟨y, x, cells, placed, clean, cursorRow, colIn⟩ := settled
  have atX := placed.cursorX colIn
  rw [atX]
  exact ⟨y, x, cells, placed.read preserved rowIn colIn, clean, cursorRow, colIn⟩


section Calls

variable (preserved : Preserved lines cols P) (on : win.OnScreen lines cols)
  (wrap : win.linewrap = true) (scrolls : win.scrollok = true) (countable : win.Countable)

include preserved on wrap scrolls countable

theorem Settled.wspacetoeol (settled : Settled cols P win tty) :
    ∃ next, wspacetoeol (Tty.waddch lines cols (depth + 2)) tty = some next ∧
      Settled cols P win next :=
  times_invariant (fun _ => Settled cols P win) _ _
    (fun _ _ _ settled => settled.waddch depth preserved on wrap scrolls countable.fits 32) settled

theorem Settled.wclrtoeol (settled : Settled cols P win tty) :
    ∃ next, wclrtoeol (Tty.waddch lines cols (depth + 2)) tty = some next ∧
      Settled cols P win next := by
  obtain ⟨next, blanks, done⟩ :=
    settled.wspacetoeol depth preserved on wrap scrolls countable
  exact ⟨_, by rw [Tty.wclrtoeol, blanks]; rfl, done.move preserved _ _⟩

theorem Settled.wclrtobot (settled : Settled cols P win tty) :
    ∃ next, wclrtobot (Tty.waddch lines cols (depth + 2)) tty = some next ∧
      Settled cols P win next := by
  have low := countable.rows
  obtain ⟨first, blanks, firstDone⟩ :=
    settled.wspacetoeol depth preserved on wrap scrolls countable
  obtain ⟨last, loop, lastDone⟩ := forUpTo_invariant (fun _ => Settled cols P win)
    (fun row tty => Tty.wspacetoeol (Tty.waddch lines cols (depth + 2)) (wmove row 0 tty))
    (tty.win.y + 1) first.win.maxy
    (by rw [firstDone.size.1]; omega)
    (fun row state _ _ settled =>
      (settled.move preserved row 0).wspacetoeol depth preserved on wrap scrolls countable)
    firstDone
  exact ⟨_, by rw [Tty.wclrtobot, blanks, Option.bind_some, loop]; rfl, lastDone.move preserved _ _⟩

omit scrolls in
theorem Settled.wclear (settled : Settled cols P win tty) :
    ∃ next, wclear lines cols (Tty.waddch lines cols (depth + 2)) tty = some next ∧
      Settled cols P win next := by
  obtain ⟨y, x, cells, placed, clean, rowIn, colIn⟩ := settled
  obtain ⟨next, cleared, done⟩ :=
    wclear_spec (depth + 1) preserved on wrap countable placed
  exact ⟨next, cleared, 0, 0, _, done, fun _ _ _ _ => show Printed 32 by decide,
    Nat.zero_le _, Nat.zero_le _⟩

theorem Settled.wscroll (settled : Settled cols P win tty) (count : UInt8) :
    ∃ next, wscroll lines cols (Tty.waddch lines cols (depth + 2)) count tty = some next ∧
      Settled cols P win next := by
  have low := countable.rows
  have narrow := countable.columns
  rw [Tty.wscroll, settled.size.1]
  by_cases all : count > win.maxy
  · rw [if_pos all]
    exact settled.wclear depth preserved on wrap countable
  rw [if_neg all]
  have fits : count ≤ win.maxy := UInt8.not_lt.mp all
  have lastRow : (win.maxy - count).toNat = win.maxy.toNat - count.toNat :=
    UInt8.toNat_sub_of_le _ _ fits
  rw [UInt8.le_iff_toNat_le] at fits
  obtain ⟨copied, loop, copiedDone⟩ := forUpTo_invariant (fun _ => Settled cols P win)
    (fun y tty =>
      forUpTo (fun _ tty => copyCell cols (Tty.waddch lines cols (depth + 2)) y count tty) 0
        tty.win.maxx (wmove y 0 tty))
    0 (win.maxy - count)
    (by rw [lastRow]; omega)
    (fun row state _ upper settled => by
      rw [lastRow] at upper
      rw [settled.size.2]
      obtain ⟨next, columns, done⟩ := forUpTo_invariant (fun _ => Settled cols P win)
        (fun _ tty => copyCell cols (Tty.waddch lines cols (depth + 2)) row count tty) 0 win.maxx
        (by omega)
        (fun _ state _ _ settled =>
          (settled.access preserved (row.toNat + count.toNat) (by omega)).waddch depth
            preserved on wrap scrolls countable.fits _)
        (settled.move preserved row 0)
      exact ⟨next, columns, done⟩)
    settled
  rw [loop, Option.bind_some, copiedDone.size.1]
  exact (copiedDone.move preserved _ _).wclrtobot depth preserved on wrap scrolls countable

theorem Settled.addString (settled : Settled cols P win tty) (text : List UInt8) :
    ∃ next, addString lines cols (depth + 2) text tty = some next ∧ Settled cols P win next := by
  induction text generalizing tty with
  | nil => exact ⟨tty, rfl, settled⟩
  | cons ch rest ih =>
      obtain ⟨next, printed, step⟩ :=
        settled.waddch depth preserved on wrap scrolls countable.fits ch
      obtain ⟨final, loop, done⟩ := ih step
      exact ⟨final, by rw [Tty.addString, printed, Option.bind_some, loop], done⟩

end Calls

end Settled

/-! ## Desks -/

/-- A window as `initscr` and `subwin` create it and calls leave it. -/
structure Window.Usable (lines cols : Nat) (win : Window) : Prop where
  onScreen : win.OnScreen lines cols
  linewrap : win.linewrap = true
  scrollok : win.scrollok = true
  row : win.y.toNat ≤ win.maxy.toNat + 1
  column : win.x ≤ win.maxx

/-- A property of the screen during a call on some window of it. -/
structure Carried (lines cols : Nat) (Q : Screen → Prop) (tty : Session) : Prop where
  onScreen : tty.win.OnScreen lines cols
  clean : ∀ i, Printed (tty.screen.image i)
  holds : Q tty.screen

/-- The windows are usable, and the screen has the property. -/
structure Desk.Sound (lines cols : Nat) (Q : Screen → Prop) (desk : Desk) : Prop where
  windows : ∀ win ∈ desk.windows, win.Usable lines cols
  clean : ∀ i, Printed (desk.screen.image i)
  holds : Q desk.screen

section Desk

variable {lines cols : Nat} (depth : Nat) {Q : Screen → Prop} {win : Window} {tty : Session} {desk : Desk}

theorem Window.OnScreen.countable (on : win.OnScreen lines cols) (low : lines ≤ 255)
    (narrow : cols ≤ 255) : win.Countable := by
  have rows := on.rows
  have columns := on.columns
  exact ⟨by omega, by omega⟩

theorem Carried.settled (carried : Carried lines cols Q tty) (usable : tty.win.Usable lines cols) :
    Settled cols (Carried lines cols Q) tty.win tty :=
  ⟨_, _, _, ⟨(tty.win.cursorAt_self).symm, fun _ _ _ _ => rfl, carried⟩,
    fun _ _ _ _ => carried.clean _, usable.row, UInt8.le_iff_toNat_le.mp usable.column⟩

theorem Settled.usable (settled : Settled cols (Carried lines cols Q) win tty) (low : lines ≤ 255)
    (wrap : win.linewrap = true) (scrolls : win.scrollok = true) :
    tty.win.Usable lines cols ∧ Carried lines cols Q tty := by
  obtain ⟨y, x, cells, placed, -, rowIn, colIn⟩ := settled
  have on := placed.holds.onScreen
  have rows := on.rows
  have maxx := win.maxx.toNat_lt
  rw [placed.window, Window.cursorAt_maxy] at rows
  refine ⟨⟨on, ?_, ?_, ?_, ?_⟩, placed.holds⟩
  · rw [placed.window]
    exact wrap
  · rw [placed.window]
    exact scrolls
  · rw [placed.window, Window.cursorAt_y, Window.cursorAt_maxy,
      UInt8.toNat_ofNat_of_lt' (show y < 256 by omega)]
    exact rowIn
  · rw [placed.window, Window.cursorAt_x, Window.cursorAt_maxx, UInt8.le_iff_toNat_le,
      UInt8.toNat_ofNat_of_lt' (show x < 256 by omega)]
    exact colIn

/-- A property of the screen only has to survive the movement of the low-level cursor, a
character that is stored and the clearing of the screen. -/
theorem preserved_carried
    (goto : ∀ {tty : Session} (y x : UInt8), Q tty.screen → Q (ttyLlGoto y x tty).screen)
    (store : ∀ {tty : Session} {ch : UInt8}, tty.win.OnScreen lines cols → tty.win.y ≤ tty.win.maxy →
      tty.win.x ≤ tty.win.maxx → Printed ch → Q tty.screen → Q (storeChar cols ch tty).screen)
    (root : ∀ {tty : Session}, Q tty.screen → Q (clearRoot lines cols tty).screen) :
    Preserved lines cols (Carried lines cols Q) where
  update := by
    intro tty ch rowIn columnIn carried
    have on := carried.onScreen
    refine ⟨?_, fun i => ?_, ?_⟩
    · rw [updateMap_win]
      simp only [advance]
      repeat' split
      all_goals exact ⟨on.rows, on.columns, on.root⟩
    · by_cases printed : Printed ch
      · rw [updateMap_image cols printed]
        rcases eq_or_ne i (tty.index cols tty.win.y.toNat tty.win.x.toNat) with rfl | other
        · rwa [Function.update_self]
        · rw [Function.update_of_ne other]
          exact carried.clean i
      · rw [updateMap_image_of_not_printed cols printed]
        exact carried.clean i
    · exact updateMap_screen goto carried.holds
        fun printed => store on rowIn columnIn printed carried.holds
  move := by
    intro tty y x carried
    have on := carried.onScreen
    refine ⟨?_, fun i => ?_, wmove_screen goto y x carried.holds⟩
    · rw [wmove]
      split
      · exact on
      · dsimp only
        split
        · rw [ttyLlGoto_win]
          exact ⟨on.rows, on.columns, on.root⟩
        · exact ⟨on.rows, on.columns, on.root⟩
    · rw [wmove_image]
      exact carried.clean i
  read := fun _ _ carried => ⟨carried.onScreen, carried.clean, carried.holds⟩
  root := by
    intro tty _ carried
    have on := carried.onScreen
    refine ⟨⟨on.rows, on.columns, on.root⟩, fun i => ?_, root carried.holds⟩
    simp only [clearRoot, ttyLlClear, Session.setCursor]
    split
    · decide
    · exact carried.clean i

/-- Every call ends and keeps the window usable. -/
theorem Call.run_carried (preserved : Preserved lines cols (Carried lines cols Q))
    (low : lines ≤ 255) (narrow : cols ≤ 255) (usable : tty.win.Usable lines cols)
    (carried : Carried lines cols Q tty) (call : Call) :
    ∃ next, call.run lines cols (depth + 2) tty = some next ∧
      next.win.Usable lines cols ∧ Carried lines cols Q next := by
  have settled := carried.settled usable
  have on := usable.onScreen
  have countable := on.countable low narrow
  have wrap := usable.linewrap
  have scrolls := usable.scrollok
  have finish {result : Option Session}
      (done : ∃ next, result = some next ∧ Settled cols (Carried lines cols Q) tty.win next) :
      ∃ next, result = some next ∧ next.win.Usable lines cols ∧ Carried lines cols Q next := by
    obtain ⟨next, run, rest⟩ := done
    exact ⟨next, run, rest.usable low wrap scrolls⟩
  cases call with
  | waddch ch => exact finish (settled.waddch depth preserved on wrap scrolls countable.fits ch)
  | waddstr text => exact finish (settled.addString depth preserved on wrap scrolls countable _)
  | wmove y x => exact finish ⟨_, rfl, settled.move preserved y x⟩
  | wclear => exact finish (settled.wclear depth preserved on wrap countable)
  | wclrtoeol => exact finish (settled.wclrtoeol depth preserved on wrap scrolls countable)
  | wclrtobot => exact finish (settled.wclrtobot depth preserved on wrap scrolls countable)
  | wscroll count => exact finish (settled.wscroll depth preserved on wrap scrolls countable count)
  | leaveok flag =>
      exact ⟨_, rfl, ⟨⟨on.rows, on.columns, on.root⟩, wrap, scrolls, usable.row, usable.column⟩,
        ⟨on.rows, on.columns, on.root⟩, carried.clean, carried.holds⟩

theorem subwin_usable {height width begy begx : UInt8} (tall : 0 < height.toNat)
    (wide : 0 < width.toNat) (rows : begy.toNat + height.toNat ≤ lines)
    (columns : begx.toNat + width.toNat ≤ cols) :
    (subwin height width begy begx).Usable lines cols := by
  have maxy : (height - 1).toNat = height.toNat - 1 :=
    UInt8.toNat_sub_of_le _ _ (by rw [UInt8.le_iff_toNat_le]; exact tall)
  have maxx : (width - 1).toNat = width.toNat - 1 :=
    UInt8.toNat_sub_of_le _ _ (by rw [UInt8.le_iff_toNat_le]; exact wide)
  refine ⟨⟨?_, ?_, fun isRoot => absurd isRoot (by simp [subwin])⟩, rfl, rfl, Nat.zero_le _, ?_⟩
  · simp only [subwin, maxy]
    omega
  · simp only [subwin, maxx]
    omega
  · simp [subwin]

theorem initscr_usable (tall : 0 < lines) (wide : 0 < cols) (low : lines ≤ 256)
    (narrow : cols ≤ 256) : (initscr lines cols).win.Usable lines cols := by
  have maxy : (UInt8.ofNat (lines - 1)).toNat = lines - 1 :=
    UInt8.toNat_ofNat_of_lt' (show lines - 1 < 256 by omega)
  have maxx : (UInt8.ofNat (cols - 1)).toNat = cols - 1 :=
    UInt8.toNat_ofNat_of_lt' (show cols - 1 < 256 by omega)
  refine ⟨⟨?_, ?_, fun _ => ⟨rfl, rfl, ?_, ?_⟩⟩, rfl, rfl, Nat.zero_le _, ?_⟩
  · simp only [initscr, ttyLlClear, maxy, UInt8.toNat_zero]
    omega
  · simp only [initscr, ttyLlClear, maxx, UInt8.toNat_zero]
    omega
  · simp only [initscr, ttyLlClear, maxy]
    omega
  · simp only [initscr, ttyLlClear, maxx]
    omega
  · simp [initscr, ttyLlClear]

/-- Every action ends and keeps the desk sound. -/
theorem Desk.Sound.perform (preserved : Preserved lines cols (Carried lines cols Q))
    (low : lines ≤ 255) (narrow : cols ≤ 255) (sound : desk.Sound lines cols Q) {action : Action}
    (inBounds : action.InBounds lines cols) :
    ∃ next, desk.perform lines cols (depth + 2) action = some next ∧ next.Sound lines cols Q := by
  cases action with
  | on window call =>
      cases found : desk.windows[window]? with
      | none => exact ⟨desk, by simp only [Desk.perform, found], sound⟩
      | some win =>
          have usable : (Session.mk win desk.screen []).win.Usable lines cols :=
            sound.windows win (List.mem_of_getElem? found)
          obtain ⟨next, run, usableNext, carried⟩ := call.run_carried depth preserved low narrow
            usable ⟨usable.onScreen, sound.clean, sound.holds⟩
          refine ⟨⟨desk.windows.set window next.win, next.screen⟩,
            by simp only [Desk.perform, found, run, Option.map_some], ?_, carried.clean,
            carried.holds⟩
          intro other member
          rcases List.mem_or_eq_of_mem_set member with old | rfl
          · exact sound.windows other old
          · exact usableNext
  | subwin height width begy begx =>
      obtain ⟨tall, wide, rows, columns⟩ := inBounds
      refine ⟨_, rfl, fun other member => ?_, sound.clean, sound.holds⟩
      rcases List.mem_append.mp member with old | new
      · exact sound.windows other old
      · rw [List.mem_singleton.mp new]
        exact subwin_usable tall wide rows columns

/-- Every sequence of actions ends and keeps the desk sound. -/
theorem Desk.Sound.run (preserved : Preserved lines cols (Carried lines cols Q))
    (low : lines ≤ 255) (narrow : cols ≤ 255) (sound : desk.Sound lines cols Q)
    {actions : List Action} (inBounds : ∀ action ∈ actions, action.InBounds lines cols) :
    ∃ next, desk.run lines cols (depth + 2) actions = some next ∧ next.Sound lines cols Q := by
  induction actions generalizing desk with
  | nil => exact ⟨desk, rfl, sound⟩
  | cons action rest ih =>
      obtain ⟨next, performed, step⟩ :=
        sound.perform depth preserved low narrow (inBounds action List.mem_cons_self)
      obtain ⟨final, loop, done⟩ :=
        ih step fun later member => inBounds later (List.mem_cons_of_mem _ member)
      exact ⟨final, by rw [Desk.run, performed, Option.bind_some, loop], done⟩

end Desk

end Ethersex.Tty
