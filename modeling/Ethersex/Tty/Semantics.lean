import Mathlib
import Ethersex.Library.Terminal
import Ethersex.Tty.Scrolling

/-!
# Windows as terminals

A window shows the last lines of a terminal of unbounded height, and everything
`waddch` does on the way stays inside the window.  This holds for all windows of
at most 255 lines and columns, and for a root window of a single line of any
width.  The cursor and the loop counters have eight bits, so it fails for every
window of 256 lines or columns otherwise; `showsTerminal_iff` is the exact
statement.
-/

namespace Ethersex.Tty

open Library

/-- 0 and 32 are both blank. -/
def Blank (ch : UInt8) : Prop := ch = 0 ∨ ch = 32

instance (ch : UInt8) : Decidable (Blank ch) := inferInstanceAs (Decidable (_ ∨ _))

/-- Bytes that look the same on the screen. -/
def SameGlyph (left right : UInt8) : Prop := left = right ∨ (Blank left ∧ Blank right)

instance (left right : UInt8) : Decidable (SameGlyph left right) :=
  inferInstanceAs (Decidable (_ ∨ _))

/-- What a terminal receives for a byte. -/
def keyOf (ch : UInt8) : Key UInt8 :=
  if ch = 10 then .newline else if ch = 13 then .carriageReturn else .print ch

/-- Width of the terminal behind a window. -/
def Window.width (win : Window) : Nat := win.maxx.toNat + 1

/-- Height of the part of the terminal that a window shows. -/
def Window.height (win : Window) : Nat := win.maxy.toNat + 1

/-- The terminal after a text. -/
def terminalAfter (win : Window) (text : List UInt8) : Terminal UInt8 :=
  (text.map keyOf).foldl (Terminal.feed win.width win.height) (Terminal.blank 32)

/-- Every cell of the window looks like the terminal. -/
def Shows (cols : Nat) (win : Window) (term : Terminal UInt8) (tty : Session) : Prop :=
  ∀ row ≤ win.maxy.toNat, ∀ col ≤ win.maxx.toNat,
    SameGlyph (tty.cell cols row col) (term.text (term.top + row) col)

/-- The access or the cursor position is inside the window; the cursor may be on
the line below. -/
def Event.Inside (win : Window) : Event → Prop
  | .access y x => y ≤ win.maxy.toNat ∧ x ≤ win.maxx.toNat
  | .cursor y x => y.toNat ≤ win.maxy.toNat + 1 ∧ x ≤ win.maxx

/-- The window keeps its size and only accesses its own cells. -/
structure StaysInside (win : Window) (tty : Session) : Prop where
  maxy : tty.win.maxy = win.maxy
  maxx : tty.win.maxx = win.maxx
  events : ∀ event ∈ tty.events, event.Inside win

/-- A clear window with the cursor home, before anything has happened to it. -/
structure Fresh (cols : Nat) (win : Window) (tty : Session) : Prop where
  window : tty.win = win.cursorAt 0 0
  clear : ∀ row ≤ win.maxy.toNat, ∀ col ≤ win.maxx.toNat, Blank (tty.cell cols row col)
  quiet : tty.events = []

/-- Every text produces the window a terminal produces, inside the window. -/
def ShowsTerminal (lines cols : Nat) (win : Window) (start : Session) : Prop :=
  ∀ depth text, ∃ tty, addString lines cols (depth + 2) text start = some tty ∧
    Shows cols win (terminalAfter win text) tty ∧ StaysInside win tty

/-! ## Staying inside -/

section Inside

variable {lines cols : Nat} {win : Window} {tty : Session}

theorem StaysInside.setCursor (inside : StaysInside win tty) {y x : UInt8}
    (row : y.toNat ≤ win.maxy.toNat + 1) (column : x ≤ win.maxx) :
    StaysInside win (tty.setCursor y x) := by
  refine ⟨inside.maxy, inside.maxx, fun event member => ?_⟩
  rcases List.mem_append.mp member with earlier | now
  · exact inside.events event earlier
  · rw [List.mem_singleton.mp now]
    exact ⟨row, column⟩

theorem StaysInside.access (inside : StaysInside win tty) {y x : Nat}
    (row : y ≤ win.maxy.toNat) (column : x ≤ win.maxx.toNat) :
    StaysInside win (tty.access y x) := by
  refine ⟨inside.maxy, inside.maxx, fun event member => ?_⟩
  rcases List.mem_append.mp member with earlier | now
  · exact inside.events event earlier
  · rw [List.mem_singleton.mp now]
    exact ⟨row, column⟩

theorem StaysInside.ttyLlGoto (inside : StaysInside win tty) (y x : UInt8) :
    StaysInside win (ttyLlGoto y x tty) := by
  refine ⟨?_, ?_, ?_⟩ <;> simp [inside.maxy, inside.maxx]
  exact inside.events

theorem StaysInside.storeChar (cols : Nat) (inside : StaysInside win tty) (row : tty.win.y ≤ win.maxy)
    (column : tty.win.x ≤ win.maxx) (ch : UInt8) : StaysInside win (storeChar cols ch tty) := by
  have looked := inside.access (y := tty.win.y.toNat) (x := tty.win.x.toNat)
    (UInt8.le_iff_toNat_le.mp row) (UInt8.le_iff_toNat_le.mp column)
  have stored := looked.access (y := tty.win.y.toNat) (x := tty.win.x.toNat)
    (UInt8.le_iff_toNat_le.mp row) (UInt8.le_iff_toNat_le.mp column)
  simp only [Tty.storeChar]
  split
  · exact ⟨by simp [Session.setMap, Session.access, inside.maxy],
      by simp [Session.setMap, Session.access, inside.maxx],
      fun event member => stored.events event (by simpa [Session.setMap] using member)⟩
  · exact looked

/-- The events of every function of the layer are inside the window. -/
theorem preserved_staysInside (lines cols : Nat) (win : Window) :
    Preserved lines cols (StaysInside win) where
  update := by
    intro tty ch row column inside
    rw [inside.maxy] at row
    rw [inside.maxx] at column
    have below : (tty.win.y + 1).toNat ≤ win.maxy.toNat + 1 := by
      rw [UInt8.le_iff_toNat_le] at row
      rw [UInt8.toNat_add, UInt8.toNat_one]
      have := Nat.mod_le (tty.win.y.toNat + 1) (2 ^ 8)
      omega
    have here : tty.win.y.toNat ≤ win.maxy.toNat + 1 :=
      Nat.le_succ_of_le (UInt8.le_iff_toNat_le.mp row)
    have home : (0 : UInt8) ≤ win.maxx := by simp
    simp only [updateMap]
    split
    · have moved := (inside.setCursor below column).setCursor below home
      split
      · exact moved.ttyLlGoto _ _
      · exact moved
    · split
      · have moved := inside.setCursor here home
        split
        · exact moved.ttyLlGoto _ _
        · exact moved
      · have stored := inside.storeChar cols row column ch
        simp only [storeChar_win]
        split
        · next last =>
            have wrapped := (stored.setCursor below column).setCursor below home
            repeat' split
            all_goals first
              | exact wrapped.ttyLlGoto _ _
              | exact wrapped
              | exact stored.ttyLlGoto _ _
              | exact stored
        · next more =>
            refine stored.setCursor here ?_
            rw [inside.maxx, ← UInt8.toNat_inj] at more
            rw [UInt8.le_iff_toNat_le] at column ⊢
            have := win.maxx.toNat_lt
            rw [UInt8.toNat_add, UInt8.toNat_one]
            omega
  move := by
    intro tty y x inside
    simp only [wmove]
    split
    · exact inside
    · next accepted =>
        rw [inside.maxy, inside.maxx, gt_iff_lt, gt_iff_lt, not_or, UInt8.not_lt, UInt8.not_lt]
          at accepted
        have moved := inside.setCursor
          (Nat.le_succ_of_le (UInt8.le_iff_toNat_le.mp accepted.1)) accepted.2
        split
        · exact moved.ttyLlGoto _ _
        · exact moved
  read := by
    intro tty y x row column inside
    rw [inside.maxy] at row
    rw [inside.maxx] at column
    exact inside.access row column
  root := by
    intro tty _ inside
    have blank : StaysInside win (ttyLlClear { tty with screen :=
        { tty.screen with
          image := fun i => if i < lines * cols then 32 else tty.screen.image i
          written := fun i => decide (i < lines * cols) || tty.screen.written i } }) :=
      ⟨inside.maxy, inside.maxx, inside.events⟩
    exact blank.setCursor (Nat.zero_le _) (by simp)

end Inside

/-! ## Following a terminal -/

section Follows

variable {lines cols : Nat} (depth : Nat) {P : Session → Prop} {win : Window} {term : Terminal UInt8}
  {tty : Session}

theorem SameGlyph.refl (ch : UInt8) : SameGlyph ch ch := Or.inl rfl

/-- The window shows the terminal and has its cursor at the same place. -/
structure Follows (cols : Nat) (P : Session → Prop) (win : Window) (term : Terminal UInt8)
    (y x : Nat) (cells : Nat → Nat → UInt8) (tty : Session) : Prop where
  placed : Placed cols P win y x cells tty
  clean : NoControl win cells
  row : term.row = term.top + y
  column : term.col = x
  home : y = win.maxy.toNat + 1 → x = 0
  shown : ∀ row ≤ win.maxy.toNat, ∀ col ≤ win.maxx.toNat,
    SameGlyph (cells row col) (term.text (term.top + row) col)
  sound : term.Sound 32 win.width win.height

theorem Follows.colIn {y x : Nat} {cells : Nat → Nat → UInt8}
    (follows : Follows cols P win term y x cells tty) : x ≤ win.maxx.toNat := by
  have := follows.sound.column
  rw [follows.column, Window.width] at this
  omega

/-- `waddch` first makes room, then acts on the character inside the window. -/
theorem Follows.makeRoom (preserved : Preserved lines cols P) (on : win.OnScreen lines cols)
    (wrap : win.linewrap = true) (scrolls : win.scrollok = true) (fits : win.Fits) {y x : Nat}
    {cells : Nat → Nat → UInt8} (follows : Follows cols P win term y x cells tty) (ch : UInt8) :
    ∃ mid row col other, waddch lines cols (depth + 2) ch tty = some (updateMap cols ch mid) ∧
      row ≤ win.maxy.toNat ∧
      Follows cols P win (term.makeRoom win.height) row col other mid := by
  have sound := follows.sound
  have reach := sound.reach
  rw [follows.row, Window.height] at reach
  by_cases pending : y = win.maxy.toNat + 1
  · have full : term.row = term.top + win.height := by rw [follows.row, pending, Window.height]
    have room : term.makeRoom win.height = { term with top := term.top + 1 } := by
      rw [Terminal.makeRoom, if_pos full]
    have roomy := sound.makeRoom (by rw [Window.height]; omega)
    rw [room] at roomy ⊢
    rw [pending] at follows
    obtain ⟨mid, printed, placed⟩ :=
      waddch_pending depth preserved on wrap scrolls fits follows.placed follows.clean ch
    refine ⟨mid, win.maxy.toNat, 0, scrolled win.maxy.toNat 1 cells, printed, le_refl _, placed,
      follows.clean.scrolled 1, ?_, ?_, fun _ => rfl, ?_, roomy⟩
    · simp only [follows.row]
      omega
    · exact follows.column.trans (follows.home rfl)
    · intro row rowBound col colBound
      rw [scrolled]
      split
      · next kept =>
          have same := follows.shown _ kept _ colBound
          rwa [show term.top + (row + 1) = term.top + 1 + row by omega] at same
      · next last =>
          rw [sound.empty (term.top + 1 + row) (Or.inr (by rw [Window.height]; omega)) col]
          exact SameGlyph.refl _
  · have inside : y ≤ win.maxy.toNat := by omega
    have room : term.makeRoom win.height = term := by
      rw [Terminal.makeRoom, if_neg]
      rw [follows.row, Window.height]
      omega
    rw [room]
    exact ⟨tty, y, x, cells, follows.placed.waddch_eq inside ch, inside, follows⟩

/-- A character inside the window acts on window and terminal alike. -/
theorem Follows.act (preserved : Preserved lines cols P) (on : win.OnScreen lines cols)
    (wrap : win.linewrap = true) {y x : Nat} {cells : Nat → Nat → UInt8}
    (follows : Follows cols P win term y x cells tty) (inside : y ≤ win.maxy.toNat) (ch : UInt8) :
    ∃ row col other,
      Follows cols P win (Terminal.act win.width (keyOf ch) term) row col other
        (updateMap cols ch tty) := by
  have colIn := follows.colIn
  have sound := follows.sound.act (by rw [follows.row, Window.height]; omega)
    (by rw [Window.width]; omega) (keyOf ch)
  by_cases lineFeed : ch = 10
  · subst lineFeed
    exact ⟨y + 1, 0, cells, follows.placed.newline preserved inside colIn, follows.clean,
      by simp only [keyOf, Terminal.act, if_true, follows.row]; omega, rfl, fun _ => rfl,
      follows.shown, sound⟩
  by_cases home : ch = 13
  · subst home
    exact ⟨y, 0, cells, follows.placed.carriageReturn preserved inside colIn, follows.clean,
      follows.row, rfl, fun _ => rfl, follows.shown, sound⟩
  have printed : Printed ch := ⟨lineFeed, home⟩
  have key : keyOf ch = .print ch := by rw [keyOf, if_neg lineFeed, if_neg home]
  have last : term.col + 1 = win.width ↔ x = win.maxx.toNat := by
    rw [follows.column, Window.width, Nat.add_right_cancel_iff]
  rw [key] at sound ⊢
  refine ⟨_, _, _, follows.placed.print preserved on wrap inside colIn _ printed, ?_, ?_, ?_, ?_, ?_,
    sound⟩
  · exact follows.clean.setCell printed
  · simp only [Terminal.act, last, follows.row]
    split <;> omega
  · simp only [Terminal.act, last]
    rw [follows.column]
  · intro below
    split at below
    · next atEnd => rw [if_pos atEnd]
    · omega
  · intro row rowBound col colBound
    have same := follows.shown row rowBound col colBound
    simp only [Terminal.act, setCell, follows.row, follows.column, Nat.add_left_cancel_iff]
    split
    · exact SameGlyph.refl _
    · exact same

/-- `waddch` sends the character to the terminal. -/
theorem Follows.waddch (preserved : Preserved lines cols P) (on : win.OnScreen lines cols)
    (wrap : win.linewrap = true) (scrolls : win.scrollok = true) (fits : win.Fits) {y x : Nat}
    {cells : Nat → Nat → UInt8} (follows : Follows cols P win term y x cells tty) (ch : UInt8) :
    ∃ next row col other, waddch lines cols (depth + 2) ch tty = some next ∧
      Follows cols P win (term.feed win.width win.height (keyOf ch)) row col other next := by
  obtain ⟨mid, row, col, other, printed, inside, room⟩ :=
    follows.makeRoom depth preserved on wrap scrolls fits ch
  obtain ⟨row, col, other, acted⟩ := room.act preserved on wrap inside ch
  exact ⟨_, row, col, other, printed, acted⟩

/-- A text sends all its characters to the terminal. -/
theorem Follows.addString (preserved : Preserved lines cols P) (on : win.OnScreen lines cols)
    (wrap : win.linewrap = true) (scrolls : win.scrollok = true) (fits : win.Fits) {y x : Nat}
    {cells : Nat → Nat → UInt8} (follows : Follows cols P win term y x cells tty)
    (text : List UInt8) :
    ∃ final row col other, addString lines cols (depth + 2) text tty = some final ∧
      Follows cols P win
        ((text.map keyOf).foldl (Terminal.feed win.width win.height) term) row col other final := by
  induction text generalizing term tty y x cells with
  | nil => exact ⟨tty, y, x, cells, rfl, follows⟩
  | cons ch rest ih =>
      obtain ⟨next, row, col, other, printed, step⟩ :=
        follows.waddch depth preserved on wrap scrolls fits ch
      obtain ⟨final, row, col, other, done, shown⟩ := ih step
      exact ⟨final, row, col, other, by rw [Tty.addString, printed, Option.bind_some, done], shown⟩

/-- A clear window follows the empty terminal. -/
theorem Fresh.follows (fresh : Fresh cols win tty) (holds : P tty) :
    Follows cols P win (Terminal.blank 32) 0 0 (tty.cell cols) tty := by
  refine ⟨⟨fresh.window, fun _ _ _ _ => rfl, holds⟩, ?_, rfl, rfl, fun _ => rfl, ?_,
    Terminal.sound_blank (Nat.succ_pos _)⟩
  · intro row rowBound col colBound
    rcases fresh.clear row rowBound col colBound with zero | space
    · rw [zero]
      decide
    · rw [space]
      decide
  · intro row rowBound col colBound
    exact Or.inr ⟨fresh.clear row rowBound col colBound, Or.inr rfl⟩

end Follows

/-! ## Windows that show a terminal -/

section Exact

variable {lines cols : Nat} {win : Window} {start : Session}

theorem Fresh.staysInside (fresh : Fresh cols win start) : StaysInside win start := by
  refine ⟨by rw [fresh.window]; rfl, by rw [fresh.window]; rfl, fun event member => ?_⟩
  rw [fresh.quiet] at member
  exact absurd member (by simp)

theorem showsTerminal_of_fits (on : win.OnScreen lines cols) (wrap : win.linewrap = true)
    (scrolls : win.scrollok = true) (fresh : Fresh cols win start) (fits : win.Fits) :
    ShowsTerminal lines cols win start := by
  intro depth text
  obtain ⟨tty, row, col, cells, printed, follows⟩ :=
    (fresh.follows fresh.staysInside).addString depth (preserved_staysInside lines cols win) on wrap
      scrolls fits text
  refine ⟨tty, printed, fun row rowBound col colBound => ?_, follows.placed.holds⟩
  rw [follows.placed.shows row rowBound col colBound]
  exact follows.shown row rowBound col colBound

theorem addString_append (depth : Nat) (first second : List UInt8) (tty : Session) :
    addString lines cols depth (first ++ second) tty =
      (addString lines cols depth first tty).bind (addString lines cols depth second) := by
  induction first generalizing tty with
  | nil => rfl
  | cons ch rest ih =>
      rw [List.cons_append, addString, addString, Option.bind_assoc]
      exact Option.bind_congr fun next _ => ih next

theorem preserved_true (lines cols : Nat) : Preserved lines cols fun _ => True :=
  ⟨fun _ _ _ _ => trivial, fun _ _ _ => trivial, fun _ _ _ => trivial, fun _ _ => trivial⟩

theorem Fresh.placed (fresh : Fresh cols win start) :
    Placed cols (fun _ => True) win 0 0 (start.cell cols) start :=
  ⟨fresh.window, fun _ _ _ _ => rfl, trivial⟩

/-- Newlines move the cursor down to the line below the window. -/
theorem Placed.newlines {y : Nat} {cells : Nat → Nat → UInt8} {tty : Session}
    (placed : Placed cols (fun _ => True) win y 0 cells tty) (lines depth count : Nat)
    (few : y + count ≤ win.maxy.toNat + 1) :
    ∃ next, addString lines cols (depth + 1) (List.replicate count 10) tty = some next ∧
      Placed cols (fun _ => True) win (y + count) 0 cells next := by
  induction count with
  | zero => exact ⟨tty, rfl, placed⟩
  | succ count ih =>
      obtain ⟨next, printed, moved⟩ := ih (by omega)
      have inside : y + count ≤ win.maxy.toNat := by omega
      refine ⟨_, ?_, moved.newline (preserved_true lines cols) inside (Nat.zero_le _)⟩
      rw [List.replicate_succ', addString_append, printed, Option.bind_some, addString,
        moved.waddch_eq inside]
      rfl

theorem terminalAfter_newlines {count : Nat} (few : count ≤ win.height) (text : List UInt8) :
    terminalAfter win (List.replicate count 10 ++ text) =
      (text.map keyOf).foldl (Terminal.feed win.width win.height) ⟨fun _ _ => 32, 0, count, 0⟩ := by
  rw [terminalAfter, List.map_append, List.foldl_append, List.map_replicate,
    show keyOf 10 = .newline from rfl, Terminal.newlines 32 few]

/-- The 256th newline in a window of 256 lines takes the cursor back to the first
line. -/
theorem not_showsTerminal_of_tall (on : win.OnScreen lines cols) (wrap : win.linewrap = true)
    (fresh : Fresh cols win start) (tall : win.maxy = 255) :
    ¬ShowsTerminal lines cols win start := by
  intro shows
  have height : win.maxy.toNat = 255 := by rw [tall]; rfl
  obtain ⟨below, newlines, placed⟩ := fresh.placed.newlines lines 1 256 (by omega)
  have wrapped : Placed cols (fun _ => True) win 0 0 (start.cell cols) below :=
    ⟨placed.window, placed.shows, trivial⟩
  have printed := wrapped.print (preserved_true lines cols) on wrap (Nat.zero_le _)
    (Nat.zero_le _) 120 (by decide)
  obtain ⟨tty, run, shown, -⟩ := shows 0 (List.replicate 256 10 ++ [120])
  rw [addString_append, newlines, Option.bind_some, addString,
    wrapped.waddch_eq (Nat.zero_le _)] at run
  obtain rfl := Option.some.inj run
  have corner := shown 0 (Nat.zero_le _) 0 (Nat.zero_le _)
  rw [printed.shows 0 (Nat.zero_le _) 0 (Nat.zero_le _),
    terminalAfter_newlines (by rw [Window.height]; omega)] at corner
  revert corner
  simp [setCell, keyOf, Terminal.feed, Terminal.makeRoom, Terminal.act, Window.height, height]
  decide

/-- In a window of 256 columns the copy loop of `wscroll` does not end. -/
theorem not_showsTerminal_of_wide (scrolls : win.scrollok = true) (fresh : Fresh cols win start)
    (wide : win.maxx = 255) (low : win.maxy.toNat ≤ 254) (several : 0 < win.maxy.toNat) :
    ¬ShowsTerminal lines cols win start := by
  intro shows
  obtain ⟨below, newlines, placed⟩ := fresh.placed.newlines lines 1
    (win.maxy.toNat + 1) (by omega)
  rw [Nat.zero_add] at placed
  obtain ⟨tty, run, -⟩ := shows 0 (List.replicate (win.maxy.toNat + 1) 10 ++ [120])
  have sameY : below.win.maxy = win.maxy := by rw [placed.window]; rfl
  have sameX : below.win.maxx = 255 := by rw [placed.window]; exact wide
  have mayScroll : below.win.scrollok = true := by rw [placed.window]; exact scrolls
  have atY : below.win.y = win.maxy + 1 := by
    rw [placed.window, Window.cursorAt_y, UInt8.ofNat_add, UInt8.ofNat_toNat]
    rfl
  have outside : below.win.y > below.win.maxy := by
    rw [gt_iff_lt, UInt8.lt_iff_toNat_lt, sameY, atY, UInt8.toNat_add, UInt8.toNat_one]
    omega
  have one : below.win.y - below.win.maxy = 1 := by
    rw [sameY, atY, add_sub_cancel_left]
  have copies : ¬(1 : UInt8) > below.win.maxy := by
    rw [gt_iff_lt, UInt8.lt_iff_toNat_lt, sameY, UInt8.toNat_one]
    omega
  have endless : wscroll lines cols (waddch lines cols 1) 1 below = none := by
    have finite : below.win.maxy - 1 ≠ 255 := by
      intro full
      have := congrArg UInt8.toNat full
      rw [sameY, UInt8.toNat_sub_of_le _ _ (by rw [UInt8.le_iff_toNat_le]; exact several)] at this
      simp only [UInt8.toNat_one, UInt8.reduceToNat] at this
      omega
    rw [wscroll, if_neg copies]
    simp [forUpTo, finite, forCount, sameX]
  rw [addString_append, newlines, Option.bind_some, addString, waddch, if_pos outside, mayScroll,
    one, endless] at run
  exact absurd run (by simp)

/-- In a sub-window of one line and 256 columns `wclear` blanks nothing. -/
theorem not_showsTerminal_of_wide_line (on : win.OnScreen lines cols) (wrap : win.linewrap = true)
    (scrolls : win.scrollok = true) (fresh : Fresh cols win start) (wide : win.maxx = 255)
    (single : win.maxy = 0) (sub : win.subwin = true) : ¬ShowsTerminal lines cols win start := by
  intro shows
  have columns : win.maxx.toNat = 255 := by rw [wide]; rfl
  have rows : win.maxy.toNat = 0 := by rw [single]; rfl
  have preserved := preserved_true lines cols
  have one := fresh.placed.print preserved on wrap (Nat.zero_le _) (Nat.zero_le _) 120
    (by decide)
  rw [if_neg (by omega), if_neg (by omega)] at one
  have two := one.print preserved on wrap (Nat.zero_le _) (by omega) 120 (by decide)
  rw [if_neg (by omega), if_neg (by omega)] at two
  have three := two.newline preserved (Nat.zero_le _) (by omega)
  set below := updateMap cols 10 (updateMap cols 120 (updateMap cols 120 start)) with below_def
  have sameY : below.win.maxy = 0 := by rw [three.window]; exact single
  have atY : below.win.y = 1 := by rw [three.window]; rfl
  have mayScroll : below.win.scrollok = true := by rw [three.window]; exact scrolls
  have isSub : below.win.subwin = true := by rw [three.window]; exact sub
  have home := three.move preserved 0 0 (by simp) (by simp)
  have again := home.move preserved 0 0 (by simp) (by simp)
  have last := again.print preserved on wrap (Nat.zero_le _) (Nat.zero_le _) 121
    (by decide)
  -- 255 - 0 + 1 blanks are none, and there are no lines below.
  have nothing : wclear lines cols (waddch lines cols 1) below =
      some (wmove 0 0 (wmove 0 0 below)) := by
    have cursor : (wmove 0 0 below).win = win.cursorAt 0 0 := home.window
    simp [wclear, isSub, wclrtobot, wspacetoeol, forUpTo, forCount, cursor, wide, single]
  obtain ⟨tty, run, shown, -⟩ := shows 0 [120, 120, 10, 121]
  rw [addString, fresh.placed.waddch_eq (Nat.zero_le _), Option.bind_some, addString,
    one.waddch_eq (Nat.zero_le _), Option.bind_some, addString, two.waddch_eq (Nat.zero_le _),
    Option.bind_some, ← below_def, addString, waddch, sameY, atY, mayScroll, wscroll, sameY,
    show (1 : UInt8) - 0 = 1 from rfl, if_pos (by decide), if_neg (by decide),
    if_pos (by decide), nothing] at run
  obtain rfl := Option.some.inj run
  have second := shown 0 (Nat.zero_le _) 1 (by omega)
  rw [last.shows 0 (Nat.zero_le _) 1 (by omega)] at second
  revert second
  simp [setCell, terminalAfter, keyOf, Terminal.feed, Terminal.makeRoom, Terminal.act,
    Terminal.blank, Window.height, Window.width, rows, columns]
  decide

/-- A window with wrapping and scrolling behaves like a terminal exactly if the
counters can count its lines and columns or it is a root window of one line. -/
theorem showsTerminal_iff (lines cols : Nat) (win : Window) (start : Session)
    (on : win.OnScreen lines cols) (wrap : win.linewrap = true) (scrolls : win.scrollok = true)
    (fresh : Fresh cols win start) :
    ShowsTerminal lines cols win start ↔ win.Fits := by
  constructor
  · intro shows
    by_contra unfit
    simp only [Window.Fits, not_or, not_and_or, Bool.not_eq_false] at unfit
    obtain ⟨counters, notRoot⟩ := unfit
    by_cases tall : win.maxy = 255
    · exact not_showsTerminal_of_tall on wrap fresh tall shows
    have low : win.maxy.toNat ≤ 254 := by
      have := win.maxy.toNat_lt
      rw [← UInt8.toNat_inj, show (255 : UInt8).toNat = 255 from rfl] at tall
      omega
    have wide : win.maxx = 255 := by
      have := win.maxx.toNat_lt
      rw [← UInt8.toNat_inj, show (255 : UInt8).toNat = 255 from rfl]
      omega
    by_cases single : win.maxy = 0
    · have sub : win.subwin = true := notRoot.resolve_right (not_not_intro single)
      exact not_showsTerminal_of_wide_line on wrap scrolls fresh wide single sub shows
    · have several : 0 < win.maxy.toNat := by
        rw [← UInt8.toNat_inj, UInt8.toNat_zero] at single
        omega
      exact not_showsTerminal_of_wide scrolls fresh wide low several shows
  · exact showsTerminal_of_fits on wrap scrolls fresh

/-- A root window of 24 lines and 80 columns on a screen of that size. -/
def textScreen : Window where
  subwin := false
  linewrap := true
  scrollok := true
  leaveok := true
  y := 0
  x := 0
  maxy := 23
  maxx := 79
  begy := 0
  begx := 0

/-- A root window of 256 lines and one column. -/
def tallScreen : Window := { textScreen with maxy := 255, maxx := 0 }

/-- A window on a screen whose image is zero. -/
def cleared (win : Window) : Session := ⟨win, ⟨fun _ => 0, fun _ => false, 0, 0, []⟩, []⟩

theorem showsTerminal_textScreen :
    textScreen.OnScreen 24 80 ∧ Fresh 80 textScreen (cleared textScreen) ∧
      (ShowsTerminal 24 80 textScreen (cleared textScreen) ↔ textScreen.Fits) := by
  have on : textScreen.OnScreen 24 80 :=
    ⟨by decide, by decide, fun _ => ⟨rfl, rfl, rfl, rfl⟩⟩
  have fresh : Fresh 80 textScreen (cleared textScreen) :=
    ⟨rfl, fun _ _ _ _ => Or.inl rfl, rfl⟩
  exact ⟨on, fresh, showsTerminal_iff 24 80 textScreen (cleared textScreen) on rfl rfl fresh⟩

/-- 256 newlines and an `x` do not scroll a window of 256 lines. -/
theorem tallScreen_not_showsTerminal :
    tallScreen.OnScreen 256 1 ∧ Fresh 1 tallScreen (cleared tallScreen) ∧
      ¬ShowsTerminal 256 1 tallScreen (cleared tallScreen) := by
  have on : tallScreen.OnScreen 256 1 :=
    ⟨by decide, by decide, fun _ => ⟨rfl, rfl, rfl, rfl⟩⟩
  have fresh : Fresh 1 tallScreen (cleared tallScreen) :=
    ⟨rfl, fun _ _ _ _ => Or.inl rfl, rfl⟩
  exact ⟨on, fresh, not_showsTerminal_of_tall on rfl fresh rfl⟩

end Exact

end Ethersex.Tty
