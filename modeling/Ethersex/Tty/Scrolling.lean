import Mathlib
import Ethersex.Tty.Effect

/-!
# Clearing and scrolling

Specifications of `wspacetoeol`, `wclrtoeol`, `wclrtobot`, `wclear` and `wscroll`
for windows of at most 255 lines and columns, and from these the specification of
`waddch`.  The functions print through the `waddch` they are given; one level of
nesting is enough for them, because the cursor is inside the window whenever they
print.
-/

namespace Ethersex.Tty

open Library

/-- The loops over the lines and columns of the window end: their counters have
eight bits. -/
structure Window.Countable (win : Window) : Prop where
  rows : win.maxy.toNat ≤ 254
  columns : win.maxx.toNat ≤ 254

/-- The counters can count the lines and columns of the window, or the window is
cleared as a whole instead of being scrolled. -/
def Window.Fits (win : Window) : Prop :=
  (win.maxy.toNat ≤ 254 ∧ win.maxx.toNat ≤ 254) ∨ (win.subwin = false ∧ win.maxy = 0)

instance (win : Window) : Decidable win.Fits := inferInstanceAs (Decidable (_ ∨ _))

theorem Window.Fits.rows {win : Window} (fits : win.Fits) : win.maxy.toNat ≤ 254 := by
  rcases fits with ⟨rows, -⟩ | ⟨-, single⟩
  · exact rows
  · rw [single]
    decide

theorem Window.Countable.fits {win : Window} (countable : win.Countable) : win.Fits :=
  Or.inl ⟨countable.rows, countable.columns⟩

theorem NoControl.scrolled {win : Window} {cells : Nat → Nat → UInt8} (clean : NoControl win cells)
    (count : Nat) : NoControl win (scrolled win.maxy.toNat count cells) := by
  intro row _ col colBound
  rw [Tty.scrolled]
  split
  · next kept => exact clean _ kept _ colBound
  · decide

theorem NoControl.setCell {win : Window} {cells : Nat → Nat → UInt8} (clean : NoControl win cells)
    {y x : Nat} {ch : UInt8} (printed : Printed ch) : NoControl win (setCell cells y x ch) := by
  intro row rowBound col colBound
  rw [Tty.setCell]
  split
  · exact printed
  · exact clean row rowBound col colBound

section Scrolling

variable {lines cols : Nat} (depth : Nat) {P : Session → Prop} {win : Window} {y x : Nat}
  {cells : Nat → Nat → UInt8} {tty : Session}

/-- Blanks up to the end of the line; the cursor wraps to the next line. -/
theorem wspacetoeol_spec (preserved : Preserved lines cols P) (on : win.OnScreen lines cols)
    (wrap : win.linewrap = true) (countable : win.Countable)
    (placed : Placed cols P win y x cells tty) (rowIn : y ≤ win.maxy.toNat)
    (colIn : x ≤ win.maxx.toNat) :
    ∃ next, wspacetoeol (waddch lines cols (depth + 1)) tty = some next ∧
      Placed cols P win (y + 1) 0
        (rowSpan cells y (fun _ => 32) x (win.maxx.toNat + 1)) next := by
  have narrow := countable.columns
  have count : (tty.win.maxx - tty.win.x + 1).toNat = win.maxx.toNat + 1 - x := by
    have atX := placed.cursorX colIn
    have sameX : tty.win.maxx = win.maxx := by rw [placed.window]; rfl
    have ordered : tty.win.x ≤ tty.win.maxx := by
      rw [UInt8.le_iff_toNat_le, atX, sameX]
      exact colIn
    rw [UInt8.toNat_add, UInt8.toNat_sub_of_le _ _ ordered, atX, sameX]
    simp only [UInt8.toNat_one]
    omega
  rw [wspacetoeol, count]
  obtain ⟨next, loop, filled⟩ := times_invariant
    (fun pass => RowFilled cols P win y cells (fun _ => 32) x (x + pass))
    (waddch lines cols (depth + 1) 32) (win.maxx.toNat + 1 - x)
    (fun pass state bound filled => filled.print preserved on wrap rowIn (by omega) (by omega)
      (by decide))
    (RowFilled.start placed colIn)
  rw [show x + (win.maxx.toNat + 1 - x) = win.maxx.toNat + 1 by omega] at filled
  exact ⟨next, loop, filled.full⟩

/-- `wmove` back to a position taken from the cursor. -/
theorem Placed.restore (preserved : Preserved lines cols P) {before : Session} {row col : Nat}
    {other : Nat → Nat → UInt8} (saved : Placed cols P win y x cells before)
    (placed : Placed cols P win row col other tty) (rowIn : y ≤ win.maxy.toNat)
    (colIn : x ≤ win.maxx.toNat) :
    Placed cols P win y x other (wmove before.win.y before.win.x tty) := by
  have atY := saved.cursorY rowIn
  have atX := saved.cursorX colIn
  have moved := placed.move preserved before.win.y before.win.x
    (by rw [UInt8.le_iff_toNat_le, atY]; exact rowIn)
    (by rw [UInt8.le_iff_toNat_le, atX]; exact colIn)
  rwa [atY, atX] at moved

/-- `wclrtoeol` blanks the rest of the line and keeps the cursor. -/
theorem wclrtoeol_spec (preserved : Preserved lines cols P) (on : win.OnScreen lines cols)
    (wrap : win.linewrap = true) (countable : win.Countable)
    (placed : Placed cols P win y x cells tty) (rowIn : y ≤ win.maxy.toNat)
    (colIn : x ≤ win.maxx.toNat) :
    ∃ next, wclrtoeol (waddch lines cols (depth + 1)) tty = some next ∧
      Placed cols P win y x (rowSpan cells y (fun _ => 32) x (win.maxx.toNat + 1)) next := by
  obtain ⟨next, blanks, filled⟩ :=
    wspacetoeol_spec depth preserved on wrap countable placed rowIn colIn
  exact ⟨_, by rw [wclrtoeol, blanks]; rfl, placed.restore preserved filled rowIn colIn⟩

/-- `wclrtobot` blanks everything from the cursor on and keeps the cursor. -/
theorem wclrtobot_spec (preserved : Preserved lines cols P) (on : win.OnScreen lines cols)
    (wrap : win.linewrap = true) (countable : win.Countable)
    (placed : Placed cols P win y x cells tty) (rowIn : y ≤ win.maxy.toNat)
    (colIn : x ≤ win.maxx.toNat) :
    ∃ next, wclrtobot (waddch lines cols (depth + 1)) tty = some next ∧
      Placed cols P win y x (clearedFrom cells y x) next := by
  have low := countable.rows
  obtain ⟨first, blanks, filled⟩ :=
    wspacetoeol_spec depth preserved on wrap countable placed rowIn colIn
  have atY := placed.cursorY rowIn
  have below : (tty.win.y + 1).toNat = y + 1 := by
    rw [UInt8.toNat_add, atY, UInt8.toNat_one]
    omega
  have sameY : first.win.maxy = win.maxy := by rw [filled.window]; rfl
  -- The lines in front of `row` are done; the cursor is wherever the last line left it.
  let inv (row : Nat) (state : Session) : Prop :=
    ∃ atRow atCol, Placed cols P win atRow atCol
      (fun r c => if (r = y ∧ x ≤ c) ∨ (y < r ∧ r < row) then 32 else cells r c) state
  have start : inv (tty.win.y + 1).toNat first := by
    refine ⟨_, _, filled.congr fun row _ col colBound => ?_⟩
    simp only [rowSpan, below]
    by_cases here : row = y ∧ x ≤ col
    · rw [if_pos (by omega), if_pos (by omega)]
    · rw [if_neg (by omega), if_neg (by omega)]
  obtain ⟨last, loop, atRow, atCol, done⟩ := forUpTo_invariant inv
    (fun row tty => wspacetoeol (waddch lines cols (depth + 1)) (wmove row 0 tty))
    (tty.win.y + 1) first.win.maxy
    (by rw [sameY]; omega)
    (fun row state lower upper reached => by
      obtain ⟨atRow, atCol, holds⟩ := reached
      rw [below] at lower
      rw [sameY] at upper
      have moved := holds.move preserved row 0
        (by rw [UInt8.le_iff_toNat_le]; exact upper) (by simp)
      obtain ⟨next, blanks, filled⟩ :=
        wspacetoeol_spec depth preserved on wrap countable moved upper (Nat.zero_le _)
      refine ⟨next, blanks, _, _, filled.congr fun r _ c colBound => ?_⟩
      simp only [rowSpan, UInt8.toNat_zero]
      by_cases here : r = row.toNat
      · rw [if_pos (by omega), if_pos (by omega)]
      · rw [if_neg (by omega)]
        by_cases done : (r = y ∧ x ≤ c) ∨ (y < r ∧ r < row.toNat)
        · rw [if_pos done, if_pos (by omega)]
        · rw [if_neg done, if_neg (by omega)])
    start
  have restored := placed.restore preserved done rowIn colIn
  refine ⟨_, by rw [wclrtobot, blanks, Option.bind_some, loop]; rfl,
    restored.congr fun row rowBound col colBound => ?_⟩
  simp only [clearedFrom, below, sameY]
  by_cases here : y < row ∨ (row = y ∧ x ≤ col)
  · rw [if_pos here, if_pos (by omega)]
  · rw [if_neg here, if_neg (by omega)]

/-- `clearRoot` blanks the root window, which is the whole image. -/
theorem Placed.clearRoot (preserved : Preserved lines cols P) (on : win.OnScreen lines cols)
    (isRoot : win.subwin = false) (placed : Placed cols P win y x cells tty) :
    Placed cols P win 0 0 (fun _ _ => 32) (clearRoot lines cols tty) := by
  refine ⟨?_, fun row rowBound col colBound => ?_, ?_⟩
  · simp [Tty.clearRoot, ttyLlClear, Session.setCursor, placed.window, Window.cursorAt]
  · obtain ⟨-, -, rows, columns⟩ := on.root isRoot
    have position : (Tty.clearRoot lines cols tty).index cols row col = row * cols + col := by
      obtain ⟨begy, begx, -, -⟩ := on.root isRoot
      simp [Session.index, Tty.clearRoot, ttyLlClear, Session.setCursor, placed.window, begy, begx]
    have inside : row * cols + col < lines * cols := by
      have upTo : row + 1 ≤ lines := by omega
      have := Nat.mul_le_mul_right cols upTo
      rw [Nat.succ_mul] at this
      omega
    rw [Session.cell, position]
    simp [Tty.clearRoot, ttyLlClear, Session.setCursor, inside]
  · refine preserved.root ?_ placed.holds
    rw [placed.window]
    exact isRoot

/-- `wclear` blanks the window and homes the cursor. -/
theorem wclear_spec (preserved : Preserved lines cols P) (on : win.OnScreen lines cols)
    (wrap : win.linewrap = true) (countable : win.Countable)
    (placed : Placed cols P win y x cells tty) :
    ∃ next, wclear lines cols (waddch lines cols (depth + 1)) tty = some next ∧
      Placed cols P win 0 0 (fun _ _ => 32) next := by
  have sub : tty.win.subwin = win.subwin := by rw [placed.window]; rfl
  cases isRoot : win.subwin with
  | false =>
      exact ⟨_, by simp [wclear, sub, isRoot], placed.clearRoot preserved on isRoot⟩
  | true =>
      have moved := placed.move preserved 0 0 (by simp) (by simp)
      obtain ⟨next, cleared, done⟩ := wclrtobot_spec depth preserved on wrap countable moved
        (Nat.zero_le _) (Nat.zero_le _)
      refine ⟨next, by simp [wclear, sub, isRoot, cleared], done.congr fun row _ col _ => ?_⟩
      rw [clearedFrom, if_pos]
      simp only [UInt8.toNat_zero]
      omega

/-- One line of the copy loop of `wscroll`, from the beginning of the line. -/
theorem copyRow_spec (preserved : Preserved lines cols P) (on : win.OnScreen lines cols)
    (wrap : win.linewrap = true) (countable : win.Countable) {row count : UInt8}
    (placed : Placed cols P win row.toNat 0 cells tty) (positive : 0 < count.toNat)
    (source : row.toNat + count.toNat ≤ win.maxy.toNat)
    (printed : ∀ col ≤ win.maxx.toNat, Printed (cells (row.toNat + count.toNat) col)) :
    ∃ next, forUpTo (fun _ tty => copyCell cols (waddch lines cols (depth + 1)) row count tty) 0
        win.maxx tty = some next ∧
      Placed cols P win (row.toNat + 1) 0
        (rowSpan cells row.toNat (cells (row.toNat + count.toNat)) 0 (win.maxx.toNat + 1)) next := by
  have narrow := countable.columns
  obtain ⟨next, columns, filled⟩ := forUpTo_invariant
    (fun col => RowFilled cols P win row.toNat cells (cells (row.toNat + count.toNat)) 0 col)
    (fun _ tty => copyCell cols (waddch lines cols (depth + 1)) row count tty) 0 win.maxx
    (by omega)
    (fun column state _ bound filled => by
      have here := filled
      rw [RowFilled, if_neg (by omega), if_neg (by omega)] at here
      -- The source line is below the line being filled, so it is still intact.
      have shown : state.cell cols (row.toNat + count.toNat) column.toNat =
          cells (row.toNat + count.toNat) column.toNat := by
        rw [here.shows _ source _ bound, rowSpan, if_neg (by omega)]
      have looked : RowFilled cols P win row.toNat cells (cells (row.toNat + count.toNat)) 0
          column.toNat (state.access (row.toNat + count.toNat) column.toNat) := by
        rw [RowFilled, if_neg (by omega), if_neg (by omega)]
        exact here.read preserved source bound
      rw [copyCell, here.cursorX bound, shown]
      exact looked.print preserved on wrap (by omega) (Nat.zero_le _) bound (printed _ bound))
    (RowFilled.start placed (Nat.zero_le _))
  rw [UInt8.toNat_zero, Nat.max_eq_right (Nat.zero_le _)] at filled
  exact ⟨next, columns, filled.full⟩

/-- `wscroll` moves the lines up and leaves the cursor at the first blank one. -/
theorem wscroll_spec (preserved : Preserved lines cols P) (on : win.OnScreen lines cols)
    (wrap : win.linewrap = true) (countable : win.Countable)
    (placed : Placed cols P win y x cells tty) (clean : NoControl win cells) {count : UInt8}
    (positive : 0 < count) :
    ∃ next, wscroll lines cols (waddch lines cols (depth + 1)) count tty = some next ∧
      Placed cols P win (win.maxy.toNat + 1 - count.toNat) 0
        (scrolled win.maxy.toNat count.toNat cells) next := by
  have sameY : tty.win.maxy = win.maxy := by rw [placed.window]; rfl
  have low := countable.rows
  have narrow := countable.columns
  rw [UInt8.lt_iff_toNat_lt, UInt8.toNat_zero] at positive
  by_cases all : count > tty.win.maxy
  · obtain ⟨next, cleared, done⟩ :=
      wclear_spec depth preserved on wrap countable placed
    rw [gt_iff_lt, UInt8.lt_iff_toNat_lt, sameY] at all
    rw [wscroll, if_pos (by rwa [gt_iff_lt, UInt8.lt_iff_toNat_lt, sameY])]
    refine ⟨next, cleared, ?_⟩
    rw [Nat.sub_eq_zero_of_le (by omega)]
    refine done.congr fun row _ col _ => ?_
    rw [scrolled, if_neg (by omega)]
  · have fits : count ≤ win.maxy := by rwa [← sameY, ← UInt8.not_lt]
    have lastRow : (win.maxy - count).toNat = win.maxy.toNat - count.toNat :=
      UInt8.toNat_sub_of_le _ _ fits
    rw [UInt8.le_iff_toNat_le] at fits
    have firstBlank : (win.maxy - count + 1).toNat = win.maxy.toNat + 1 - count.toNat := by
      rw [UInt8.toNat_add, lastRow, UInt8.toNat_one]
      omega
    -- The rows in front of `row` are copied; the cursor is wherever the last row left it.
    let inv (row : Nat) (state : Session) : Prop :=
      ∃ atRow atCol, Placed cols P win atRow atCol
        (fun r c => if r < row then cells (r + count.toNat) c else cells r c) state
    obtain ⟨copied, loop, atRow, atCol, done⟩ := forUpTo_invariant inv
      (fun y tty =>
        forUpTo (fun _ tty => copyCell cols (waddch lines cols (depth + 1)) y count tty) 0
          tty.win.maxx (wmove y 0 tty))
      0 (tty.win.maxy - count)
      (by rw [sameY, lastRow]; omega)
      (fun row state _ upper ⟨atRow, atCol, holds⟩ => by
        rw [sameY, lastRow] at upper
        have target : row.toNat ≤ win.maxy.toNat := by omega
        have source : row.toNat + count.toNat ≤ win.maxy.toNat := by omega
        have moved := holds.move preserved row 0
          (by rw [UInt8.le_iff_toNat_le]; exact target) (by simp)
        have sameX : state.win.maxx = win.maxx := by rw [holds.window]; rfl
        obtain ⟨next, columns, filled⟩ := copyRow_spec depth preserved on wrap countable moved positive
          source
          (fun col bound => by
            rw [if_neg (by omega)]
            exact clean _ source _ bound)
        rw [← sameX] at columns
        refine ⟨next, columns, _, _, filled.congr fun r _ c colBound => ?_⟩
        simp only [rowSpan]
        by_cases here : r = row.toNat
        · rw [if_pos (by omega), if_neg (by omega), if_pos (by omega), here]
        · rw [if_neg (by omega)]
          by_cases before : r < row.toNat
          · rw [if_pos before, if_pos (by omega)]
          · rw [if_neg before, if_neg (by omega)])
      ⟨y, x, placed.congr fun row _ col _ => by rw [UInt8.toNat_zero, if_neg (by omega)]⟩
    have moved := done.move preserved (win.maxy - count + 1) 0
      (by rw [UInt8.le_iff_toNat_le, firstBlank]; omega) (by simp)
    obtain ⟨next, cleared, blank⟩ := wclrtobot_spec depth preserved on wrap countable moved
      (by rw [firstBlank]; omega) (Nat.zero_le _)
    have lastMaxy : copied.win.maxy = win.maxy := by rw [done.window]; rfl
    rw [wscroll, if_neg all, loop, Option.bind_some, lastMaxy, cleared]
    refine ⟨next, rfl, ?_⟩
    rw [firstBlank, UInt8.toNat_zero] at blank
    refine blank.congr fun row rowBound col colBound => ?_
    simp only [clearedFrom, scrolled, sameY, lastRow]
    by_cases kept : row + count.toNat ≤ win.maxy.toNat
    · rw [if_neg (by omega), if_pos (by omega), if_pos kept]
    · rw [if_pos (by omega), if_neg kept]

/-- A scroll by one line, also of a single-line root window. -/
theorem wscroll_one (preserved : Preserved lines cols P) (on : win.OnScreen lines cols)
    (wrap : win.linewrap = true) (fits : win.Fits) {y x : Nat} {cells : Nat → Nat → UInt8}
    (placed : Placed cols P win y x cells tty) (clean : NoControl win cells) :
    ∃ next, wscroll lines cols (waddch lines cols (depth + 1)) 1 tty = some next ∧
      Placed cols P win win.maxy.toNat 0 (scrolled win.maxy.toNat 1 cells) next := by
  rcases fits with ⟨rows, columns⟩ | ⟨isRoot, single⟩
  · exact wscroll_spec depth preserved on wrap ⟨rows, columns⟩ placed clean (by decide)
  · have sub : tty.win.subwin = false := by rw [placed.window]; exact isRoot
    have sameY : tty.win.maxy = 0 := by rw [placed.window]; exact single
    refine ⟨clearRoot lines cols tty, by simp [wscroll, wclear, sameY, sub], ?_⟩
    rw [single]
    refine (placed.clearRoot preserved on isRoot).congr fun row _ col _ => ?_
    simp [scrolled]

/-- `waddch` on the line below the window scrolls by one line first. -/
theorem waddch_pending (preserved : Preserved lines cols P) (on : win.OnScreen lines cols)
    (wrap : win.linewrap = true) (scrolls : win.scrollok = true) (fits : win.Fits)
    (placed : Placed cols P win (win.maxy.toNat + 1) x cells tty) (clean : NoControl win cells)
    (ch : UInt8) :
    ∃ mid, waddch lines cols (depth + 2) ch tty = some (updateMap cols ch mid) ∧
      Placed cols P win win.maxy.toNat 0 (scrolled win.maxy.toNat 1 cells) mid := by
  have low := fits.rows
  have atY : tty.win.y.toNat = win.maxy.toNat + 1 := by
    rw [placed.window, Window.cursorAt_y,
      UInt8.toNat_ofNat_of_lt' (show win.maxy.toNat + 1 < 256 by omega)]
  have sameY : tty.win.maxy = win.maxy := by rw [placed.window]; rfl
  have outside : tty.win.y > tty.win.maxy := by
    rw [gt_iff_lt, UInt8.lt_iff_toNat_lt, atY, sameY]
    omega
  have one : tty.win.y - tty.win.maxy = 1 := by
    rw [← UInt8.toNat_inj, UInt8.toNat_sub_of_le _ _ (UInt8.le_of_lt outside), atY, sameY]
    simp
  have mayScroll : tty.win.scrollok = true := by rw [placed.window]; exact scrolls
  obtain ⟨mid, scroll, moved⟩ :=
    wscroll_one depth preserved on wrap fits placed clean
  refine ⟨mid, ?_, moved⟩
  rw [waddch, if_pos outside, mayScroll, one, scroll]
  rfl

end Scrolling

end Ethersex.Tty
