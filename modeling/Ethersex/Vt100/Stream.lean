import Mathlib
import Ethersex.Library.Ansi
import Ethersex.Tty.Rectangles
import Ethersex.Tty.Semantics

/-!
# The byte stream for a VT100

The low-level driver of `core/tty/tty-vt100.c` turns the calls of the TTY layer into bytes.
A terminal that reads them shows the image, as long as three things hold at every call:
data memory happens to hold the clear sequence at the address where program memory does,
since `vt100_putstr_P` reads the one and sends the other; the low-level cursor is at home
when the screen is cleared, since the terminal's cursor goes there and the layer's does not;
and nothing is sent to column 255, behind which the layer's cursor is back in column 0.
-/

namespace Ethersex.Vt100

open Library Tty

/-! ## The driver -/

/-- `vt100_clr_str`. -/
def clrStr : List UInt8 := [27, 91, 50, 74, 27, 91, 72]

/-- `vt100_putstr_P`: for each character in program memory, it sends the byte at that
address in data memory. -/
def putstrP (text : List UInt8) (ram : Nat → UInt8) : List UInt8 := (List.range text.length).map ram

/-- The bytes that were sent, and the number of times that the screen was cleared. -/
structure Output where
  clears : Nat
  bytes : List UInt8

/-- `tty_vt100_clear`, `tty_vt100_goto` and `tty_vt100_put`.  `ram n` is what data memory
holds at the address of the clear sequence when it is sent for the nth time. -/
def Output.send (ram : Nat → Nat → UInt8) (output : Output) : LlCall → Output
  | .clear => ⟨output.clears + 1, output.bytes ++ putstrP clrStr (ram output.clears)⟩
  | .goto y x => { output with bytes := output.bytes ++ Ansi.cursorPosition (y.toNat + 1) (x.toNat + 1) }
  | .put _ _ ch => { output with bytes := output.bytes ++ [ch] }

/-- The stream for a sequence of calls. -/
def stream (ram : Nat → Nat → UInt8) (calls : List LlCall) : Output := calls.foldl (Output.send ram) ⟨0, []⟩

theorem stream_append (ram : Nat → Nat → UInt8) (calls : List LlCall) (call : LlCall) :
    stream ram (calls ++ [call]) = (stream ram calls).send ram call :=
  List.foldl_concat ..

/-! ## Where the stream goes wrong -/

/-- The low-level cursor after a call. -/
def moved : UInt8 × UInt8 → LlCall → UInt8 × UInt8
  | cursor, .clear => cursor
  | _, .goto y x => (y, x)
  | cursor, .put _ _ _ => (cursor.1, cursor.2 + 1)

/-- The low-level cursor after a sequence of calls. -/
def cursorAfter (calls : List LlCall) : UInt8 × UInt8 := calls.foldl moved (0, 0)

/-- What the driver relies on when a call is made after other ones. -/
def Sane (ram : Nat → Nat → UInt8) (ignoresNul : Bool) (before : List LlCall) : LlCall → Prop
  | .clear => cursorAfter before = (0, 0) ∧ ∀ k < clrStr.length, ram (stream ram before).clears k = clrStr[k]!
  | .goto _ _ => True
  | .put _ _ ch => (cursorAfter before).2 ≠ 255 ∧ (ch = 0 → ignoresNul = false)

/-- Every call has found what the driver relies on. -/
def AllSane (ram : Nat → Nat → UInt8) (ignoresNul : Bool) (calls : List LlCall) : Prop :=
  ∀ before call after, calls = before ++ call :: after → Sane ram ignoresNul before call

instance (ram : Nat → Nat → UInt8) (ignoresNul : Bool) (before : List LlCall) (call : LlCall) :
    Decidable (Sane ram ignoresNul before call) :=
  match call with
  | .clear => inferInstanceAs (Decidable (_ ∧ _))
  | .goto _ _ => .isTrue trivial
  | .put _ _ _ => inferInstanceAs (Decidable (_ ∧ _))

theorem allSane_iff {ram : Nat → Nat → UInt8} {ignoresNul : Bool} {calls : List LlCall} :
    (∀ k (inside : k < calls.length), Sane ram ignoresNul (calls.take k) calls[k]) ↔
      AllSane ram ignoresNul calls := by
  constructor
  · rintro each before call after rfl
    have one := each before.length (by simp)
    rw [List.take_left, List.getElem_append_right le_rfl] at one
    simpa only [Nat.sub_self, List.getElem_cons_zero] using one
  · intro sane k inside
    exact sane _ _ (calls.drop (k + 1)) (by rw [List.getElem_cons_drop, List.take_append_drop])

instance (ram : Nat → Nat → UInt8) (ignoresNul : Bool) (calls : List LlCall) :
    Decidable (AllSane ram ignoresNul calls) :=
  decidable_of_iff _ allSane_iff

theorem AllSane.append {ram : Nat → Nat → UInt8} {ignoresNul : Bool} {calls : List LlCall} {call : LlCall}
    (sane : AllSane ram ignoresNul (calls ++ [call])) :
    AllSane ram ignoresNul calls ∧ Sane ram ignoresNul calls call :=
  ⟨fun before other after split => sane before other (after ++ [call]) (by rw [split]; simp),
    sane calls call [] rfl⟩

theorem putstrP_eq {text : List UInt8} {ram : Nat → UInt8} (same : ∀ k < text.length, ram k = text[k]!) :
    putstrP text ram = text := by
  refine List.ext_getElem (by simp [putstrP]) fun k _ inside => ?_
  simp only [putstrP, List.getElem_map, List.getElem_range]
  rw [same k inside, getElem!_pos text k inside]

/-! ## The terminal shows the image -/

/-- The terminal has its cursor where the layer has it, or at the edge of the screen, and
shows the image. -/
structure Showing (lines cols : Nat) (size : Ansi.Size) (screen : Screen) (display : Ansi.Display) :
    Prop where
  ground : display.mode = .ground
  row : display.row = min screen.llY.toNat (size.rows - 1)
  col : display.col = min screen.llX.toNat (size.columns - 1)
  cells : ∀ line < lines, ∀ col < cols,
    SameGlyph (display.cells line col) (screen.at cols line col)

/-- The cursor is the one of the calls made so far; and the terminal shows the image, if
all these calls have found what the driver relies on. -/
structure Mirrored (lines cols : Nat) (size : Ansi.Size) (ram : Nat → Nat → UInt8)
    (power : Ansi.Display) (screen : Screen) : Prop where
  cursor : cursorAfter screen.calls = (screen.llY, screen.llX)
  shows : AllSane ram size.ignoresNul screen.calls →
    Showing lines cols size screen (power.feedAll size (stream ram screen.calls).bytes)

/-- The terminal is larger than the screen. -/
structure Holds (lines cols : Nat) (size : Ansi.Size) : Prop where
  rows : lines ≤ size.rows
  columns : cols < size.columns

section Mirrored

variable {lines cols : Nat} {size : Ansi.Size} {ram : Nat → Nat → UInt8} {power : Ansi.Display}
  {tty : Session}

theorem cursorAfter_append (calls : List LlCall) (call : LlCall) :
    cursorAfter (calls ++ [call]) = moved (cursorAfter calls) call := List.foldl_concat ..

theorem Mirrored.ttyLlGoto (mirrored : Mirrored lines cols size ram power tty.screen) (y x : UInt8) :
    Mirrored lines cols size ram power (ttyLlGoto y x tty).screen := by
  rw [Tty.ttyLlGoto]
  split
  · exact mirrored
  · refine ⟨by rw [cursorAfter_append]; rfl, fun sane => ?_⟩
    have showing := mirrored.shows sane.append.1
    simp only [stream_append, Output.send, Ansi.feedAll_append,
      Ansi.feedAll_cursorPosition showing.ground]
    exact ⟨showing.ground, rfl, rfl, showing.cells⟩

/-- The screen when the cursor is where a character is to be put. -/
def aimed (y x : UInt8) (tty : Session) : Screen :=
  (if y ≠ tty.screen.llY ∨ x ≠ tty.screen.llX then Tty.ttyLlGoto y x tty else tty).screen

theorem aimed_cursor (y x : UInt8) (tty : Session) : (aimed y x tty).llY = y ∧ (aimed y x tty).llX = x := by
  rw [aimed]
  split_ifs with away
  · rw [Tty.ttyLlGoto, if_neg (not_and_or.mpr away)]
    exact ⟨rfl, rfl⟩
  · rw [not_or, not_not, not_not] at away
    exact ⟨away.1.symm, away.2.symm⟩

theorem Mirrored.aimed (mirrored : Mirrored lines cols size ram power tty.screen) (y x : UInt8) :
    Mirrored lines cols size ram power (aimed y x tty) := by
  rw [Vt100.aimed]
  split
  · exact mirrored.ttyLlGoto y x
  · exact mirrored

/-- The screen after a character has been stored and put. -/
theorem ttyLlPut_setMap (y x ch : UInt8) (row col : Nat) (tty : Session) :
    (ttyLlPut y x ch (tty.setMap cols row col ch)).screen =
      { aimed y x tty with
        calls := (aimed y x tty).calls ++ [.put y x ch]
        llX := (aimed y x tty).llX + 1
        image := Function.update tty.screen.image (tty.index cols row col) ch
        written := Function.update tty.screen.written (tty.index cols row col) true } := by
  by_cases here : y = tty.screen.llY ∧ x = tty.screen.llX
  · have stays : ¬(y ≠ tty.screen.llY ∨ x ≠ tty.screen.llX) :=
      not_or.mpr ⟨not_not.mpr here.1, not_not.mpr here.2⟩
    rw [ttyLlPut, aimed, if_neg stays]
    dsimp only
    rw [if_neg (show ¬(y ≠ (tty.setMap cols row col ch).screen.llY ∨
      x ≠ (tty.setMap cols row col ch).screen.llX) from stays)]
    rfl
  · have goes : y ≠ tty.screen.llY ∨ x ≠ tty.screen.llX := not_and_or.mp here
    rw [ttyLlPut, aimed, if_pos goes]
    dsimp only
    rw [if_pos (show y ≠ (tty.setMap cols row col ch).screen.llY ∨
      x ≠ (tty.setMap cols row col ch).screen.llX from goes), Tty.ttyLlGoto, Tty.ttyLlGoto, if_neg here,
      if_neg (show ¬(y = (tty.setMap cols row col ch).screen.llY ∧
        x = (tty.setMap cols row col ch).screen.llX) from here)]
    rfl

theorem aimed_image (y x : UInt8) (tty : Session) : (aimed y x tty).image = tty.screen.image := by
  rw [aimed]
  split_ifs
  · exact ttyLlGoto_image y x tty
  · rfl

/-- A character appears on the terminal as in the image. -/
theorem sameGlyph_update {display : Ansi.Display} {image : Nat → UInt8} {row col line column : Nat}
    (inside : col < cols) (columnIn : column < cols) (ch : UInt8)
    (shows : SameGlyph (display.cells line column) (image (line * cols + column))) :
    SameGlyph (Function.update display.cells row (Function.update (display.cells row) col ch) line column)
      (Function.update image (row * cols + col) ch (line * cols + column)) := by
  by_cases here : line = row ∧ column = col
  · obtain ⟨rfl, rfl⟩ := here
    simp only [Function.update_self]
    exact SameGlyph.refl ch
  · have apart : line * cols + column ≠ row * cols + col := by
      rwa [Ne, image_index_inj columnIn inside]
    rw [Function.update_of_ne apart]
    rcases eq_or_ne line row with rfl | otherLine
    · rw [Function.update_self, Function.update_of_ne fun is => here ⟨rfl, is⟩]
      exact shows
    · rwa [Function.update_of_ne otherLine]

/-- Storing a character in the image and sending it. -/
theorem Mirrored.put (mirrored : Mirrored lines cols size ram power tty.screen)
    (holds : Holds lines cols size) {y x ch : UInt8} {row col : Nat}
    (index : tty.index cols row col = y.toNat * cols + x.toNat) (lineIn : y.toNat < lines)
    (colIn : x.toNat < cols) (plain : ch ≠ 27) :
    Mirrored lines cols size ram power (ttyLlPut y x ch (tty.setMap cols row col ch)).screen := by
  obtain ⟨atY, atX⟩ := aimed_cursor y x tty
  have aims := mirrored.aimed y x
  rw [ttyLlPut_setMap]
  refine ⟨?_, fun sane => ?_⟩
  · rw [cursorAfter_append, aims.cursor]
    rfl
  · obtain ⟨before, notLast, shown⟩ := sane.append
    have showing := aims.shows before
    have row := showing.row
    have col := showing.col
    have tall := holds.rows
    have wide := holds.columns
    rw [aims.cursor, atX] at notLast
    have below : x.toNat ≠ 255 := fun is => notLast (UInt8.toNat_inj.mp is)
    rw [atY, Nat.min_eq_left (by omega)] at row
    rw [atX, Nat.min_eq_left (by omega)] at col
    simp only [stream_append, Output.send, Ansi.feedAll_append, Ansi.feedAll_cons, Ansi.feedAll_nil,
      Ansi.feed_character showing.ground plain shown]
    refine ⟨showing.ground, ?_, ?_, fun line lineIn column columnIn => ?_⟩
    · simp only [Ansi.Display.print, row, atY]
      omega
    · have next := x.toNat_lt
      simp only [Ansi.Display.print, col, atX, UInt8.toNat_add, UInt8.toNat_one]
      omega
    · have shown := showing.cells line lineIn column columnIn
      rw [Screen.at, aimed_image] at shown
      simp only [Ansi.Display.print, Screen.at, row, col, index]
      exact sameGlyph_update colIn columnIn ch shown

theorem Mirrored.storeChar (mirrored : Mirrored lines cols size ram power tty.screen)
    (holds : Holds lines cols size) (on : tty.win.OnScreen lines cols) (narrow : cols ≤ 256)
    (low : lines ≤ 256) (rowIn : tty.win.y ≤ tty.win.maxy) (columnIn : tty.win.x ≤ tty.win.maxx)
    {ch : UInt8} (plain : ch ≠ 27) :
    Mirrored lines cols size ram power (storeChar cols ch tty).screen := by
  have rows := on.rows
  have columns := on.columns
  rw [UInt8.le_iff_toNat_le] at rowIn columnIn
  have line : (tty.win.y + tty.win.begy).toNat = tty.win.y.toNat + tty.win.begy.toNat := by
    rw [UInt8.toNat_add]
    omega
  have column : (tty.win.x + tty.win.begx).toNat = tty.win.x.toNat + tty.win.begx.toNat := by
    rw [UInt8.toNat_add]
    omega
  have lineIn : (tty.win.y + tty.win.begy).toNat < lines := by omega
  have colIn : (tty.win.x + tty.win.begx).toNat < cols := by omega
  simp only [Tty.storeChar]
  split
  · refine @Mirrored.put lines cols size ram power (tty.access tty.win.y.toNat tty.win.x.toNat) mirrored
      holds _ _ _ _ _ ?_ lineIn colIn plain
    simp only [Session.index, Session.access, line, column]
  · exact mirrored

theorem Mirrored.clearRoot (mirrored : Mirrored lines cols size ram power tty.screen) :
    Mirrored lines cols size ram power (clearRoot lines cols tty).screen := by
  refine ⟨?_, fun sane => ?_⟩
  · simp only [Tty.clearRoot, ttyLlClear, Session.setCursor, cursorAfter_append, mirrored.cursor]
    rfl
  · obtain ⟨before, home, same⟩ := AllSane.append sane
    have showing := mirrored.shows before
    rw [mirrored.cursor, Prod.mk.injEq] at home
    simp only [Tty.clearRoot, ttyLlClear, Session.setCursor, stream_append, Output.send, putstrP_eq same,
      Ansi.feedAll_append]
    rw [clrStr, Ansi.feedAll_clear showing.ground]
    refine ⟨showing.ground, ?_, ?_, fun line lineIn col colIn => ?_⟩
    · simp only [home.1]
      rfl
    · simp only [home.2]
      rfl
    · have inside : line * cols + col < lines * cols := by
        have := Nat.mul_le_mul_right cols (Nat.succ_le_of_lt lineIn)
        rw [Nat.succ_mul] at this
        omega
      simp only [Screen.at, if_pos inside]
      exact SameGlyph.refl 32

end Mirrored

/-! ## Sequences of calls -/

/-- A character that is printed, or 0, which the image holds at first. -/
def Glyph (ch : UInt8) : Prop := ch = 0 ∨ (32 ≤ ch ∧ ch ≠ 127)

instance (ch : UInt8) : Decidable (Glyph ch) := inferInstanceAs (Decidable (_ ∨ _))

/-- What calls may print: printable characters, line feed and carriage return. -/
def Text (ch : UInt8) : Prop := Glyph ch ∨ ch = 10 ∨ ch = 13

/-- During a call the image holds glyphs, and the terminal follows. -/
structure Streaming (lines cols : Nat) (size : Ansi.Size) (ram : Nat → Nat → UInt8)
    (power : Ansi.Display) (start tty : Session) : Prop where
  confined : Confined cols start tty
  glyphs : ∀ i, Glyph (tty.screen.image i)
  mirrored : Mirrored lines cols size ram power tty.screen

section Runs

variable {lines cols depth : Nat} {size : Ansi.Size} {ram : Nat → Nat → UInt8} {power : Ansi.Display}
  {start tty : Session} {desk next : Desk}

theorem Glyph.of_text {ch : UInt8} (text : Text ch) (printed : Printed ch) : Glyph ch :=
  text.resolve_right fun control => control.elim printed.1 printed.2

theorem Glyph.plain {ch : UInt8} (glyph : Glyph ch) : ch ≠ 27 := by
  rintro rfl
  exact absurd glyph (by decide)

theorem kept_streaming (holds : Holds lines cols size) (low : lines ≤ 256) (narrow : cols ≤ 256)
    (on : start.win.OnScreen lines cols) :
    Kept lines cols start Text (Streaming lines cols size ram power start) where
  update := by
    intro tty ch text rowIn columnIn streaming
    refine ⟨(preserved_confined on).update ch rowIn columnIn streaming.confined, fun i => ?_,
      updateMap_screen (fun y x mirrored => mirrored.ttyLlGoto y x) streaming.mirrored fun printed => ?_⟩
    · by_cases printed : Printed ch
      · rw [updateMap_image cols printed]
        rcases eq_or_ne i (tty.index cols tty.win.y.toNat tty.win.x.toNat) with rfl | other
        · rw [Function.update_self]
          exact .of_text text printed
        · rw [Function.update_of_ne other]
          exact streaming.glyphs i
      · rw [updateMap_image_of_not_printed cols printed]
        exact streaming.glyphs i
    · exact streaming.mirrored.storeChar holds (streaming.confined.sited on).onScreen narrow low rowIn
        columnIn (Glyph.of_text text printed).plain
  move := fun y x streaming =>
    ⟨(preserved_confined on).move y x streaming.confined,
      fun i => by rw [wmove_image]; exact streaming.glyphs i,
      wmove_screen (fun y x mirrored => mirrored.ttyLlGoto y x) y x streaming.mirrored⟩
  read := fun row column streaming =>
    ⟨(preserved_confined on).read row column streaming.confined, streaming.glyphs, streaming.mirrored⟩
  root := by
    intro tty isRoot streaming
    refine ⟨(preserved_confined on).root isRoot streaming.confined, fun i => ?_,
      streaming.mirrored.clearRoot⟩
    simp only [clearRoot, ttyLlClear, Session.setCursor]
    split
    · exact .inr (by decide)
    · exact streaming.glyphs i
  confined := Streaming.confined
  blank := .inl (.inr (by decide))
  cells := fun streaming _ _ => .inl (streaming.glyphs _)

/-- The desk between calls. -/
structure Ready (lines cols : Nat) (size : Ansi.Size) (ram : Nat → Nat → UInt8)
    (power : Ansi.Display) (desk : Desk) : Prop where
  sited : desk.Sited lines cols
  glyphs : ∀ i, Glyph (desk.screen.image i)
  mirrored : Mirrored lines cols size ram power desk.screen

/-- An action creates a window on the screen, or prints text. -/
def Proper (lines cols : Nat) : Action → Prop
  | .on _ call => call.Prints Text
  | action => action.InBounds lines cols

theorem Ready.perform (ready : Ready lines cols size ram power desk) (holds : Holds lines cols size)
    (low : lines ≤ 256) (narrow : cols ≤ 256) {action : Action} (proper : Proper lines cols action)
    (performed : desk.perform lines cols depth action = some next) :
    Ready lines cols size ram power next := by
  have inBounds : action.InBounds lines cols := by
    cases action with
    | on window call => trivial
    | subwin => exact proper
  have sited := ready.sited.perform inBounds performed
  cases action with
  | on window call =>
      rw [Desk.perform] at performed
      cases found : desk.windows[window]? with
      | none =>
          simp only [found] at performed
          exact Option.some.inj performed ▸ ready
      | some win =>
          simp only [found] at performed
          obtain ⟨tty, ends, rfl⟩ := Option.map_eq_some_iff.mp performed
          have here : (Session.mk win desk.screen []).win.Sited lines cols :=
            ready.sited win (List.mem_of_getElem? found)
          have streaming := (kept_streaming holds low narrow here.onScreen).call
            (fun flag streaming => ⟨streaming.confined.setLeaveok flag, streaming.glyphs, streaming.mirrored⟩)
            proper ends ⟨here.confined, ready.glyphs, ready.mirrored⟩
          exact ⟨sited, streaming.glyphs, streaming.mirrored⟩
  | subwin height width begy begx =>
      obtain rfl := Option.some.inj performed
      exact ⟨sited, ready.glyphs, ready.mirrored⟩

theorem Ready.run (ready : Ready lines cols size ram power desk) (holds : Holds lines cols size)
    (low : lines ≤ 256) (narrow : cols ≤ 256) {actions : List Action}
    (proper : ∀ action ∈ actions, Proper lines cols action)
    (runs : desk.run lines cols depth actions = some next) : Ready lines cols size ram power next := by
  induction actions generalizing desk with
  | nil => exact Option.some.inj runs ▸ ready
  | cons action rest ih =>
      rw [List.forall_mem_cons] at proper
      obtain ⟨between, performed, runs⟩ := Option.bind_eq_some_iff.mp runs
      exact ih (ready.perform holds low narrow proper.1 performed) proper.2 runs

/-- After `initscr`, which clears the terminal. -/
theorem initial_ready (tall : 0 < lines) (wide : 0 < cols) (low : lines ≤ 256) (narrow : cols ≤ 256)
    (size : Ansi.Size) (ram : Nat → Nat → UInt8) {power : Ansi.Display} (ground : power.mode = .ground) :
    Ready lines cols size ram power (Desk.initial lines cols) := by
  refine ⟨fun win member => ?_, fun i => .inl rfl, rfl, fun sane => ?_⟩
  · have usable := initscr_usable tall wide low narrow
    rw [List.mem_singleton.mp member]
    exact ⟨usable.onScreen, usable.row, usable.column⟩
  · obtain ⟨-, same⟩ := sane [] .clear [] rfl
    have bytes : (stream ram (Desk.initial lines cols).screen.calls).bytes = clrStr := putstrP_eq same
    rw [bytes, clrStr, Ansi.feedAll_clear ground]
    exact ⟨ground, (Nat.zero_min _).symm ▸ rfl, (Nat.zero_min _).symm ▸ rfl,
      fun _ _ _ _ => .inr ⟨.inr rfl, .inl rfl⟩⟩

end Runs

/-- In every run in which each low-level call finds what the driver relies on, a terminal
that reads the stream shows the image. -/
theorem terminal_shows_image (lines cols : Nat) (tall : 0 < lines) (wide : 0 < cols) (low : lines ≤ 256)
    (narrow : cols ≤ 256) (size : Ansi.Size) (rows : lines ≤ size.rows) (columns : cols < size.columns)
    (ram : Nat → Nat → UInt8) (power : Ansi.Display) (ground : power.mode = .ground) (depth : Nat)
    (actions : List Action) (proper : ∀ action ∈ actions, Proper lines cols action) (desk : Desk)
    (runs : (Desk.initial lines cols).run lines cols depth actions = some desk)
    (sane : AllSane ram size.ignoresNul desk.screen.calls) :
    ∀ line < lines, ∀ col < cols,
      SameGlyph ((power.feedAll size (stream ram desk.screen.calls).bytes).cells line col)
        (desk.screen.at cols line col) := by
  have ready := (initial_ready tall wide low narrow size ram ground).run ⟨rows, columns⟩ low narrow
    proper runs
  exact (ready.mirrored.shows sane).cells

/-- A blank terminal of two rows and nine columns. -/
def smallTerminal : Ansi.Display := ⟨fun _ _ => 32, 0, 0, .ground⟩

theorem terminal_shows_image_text :
    ∃ desk, (Desk.initial 2 8).run 2 8 2 [.on 0 (.waddstr [72, 105, 10]), .on 0 (.waddch 33)] = some desk ∧
      ∀ line < 2, ∀ col < 8,
        SameGlyph ((smallTerminal.feedAll ⟨2, 9, true⟩
            (stream (fun _ k => clrStr[k]!) desk.screen.calls).bytes).cells line col)
          (desk.screen.at 8 line col) := by
  have checked : ((Desk.initial 2 8).run 2 8 2 [.on 0 (.waddstr [72, 105, 10]), .on 0 (.waddch 33)]).map
      (fun desk => decide (AllSane (fun _ k => clrStr[k]!) true desk.screen.calls)) = some true := by
    decide +kernel
  obtain ⟨desk, runs, sane⟩ := Option.map_eq_some_iff.mp checked
  refine ⟨desk, runs, terminal_shows_image 2 8 (by decide) (by decide) (by decide) (by decide)
    ⟨2, 9, true⟩ (by decide) (by decide) _ smallTerminal rfl 2 _ ?_ desk runs (of_decide_eq_true sane)⟩
  rw [List.forall_mem_cons, List.forall_mem_cons]
  exact ⟨show ∀ ch ∈ [72, 105, 10], Text ch by simp [Text, Glyph], show Text 33 from .inl (.inr (by decide)),
    nofun⟩

/-- `A`, the screen is cleared, and `B` in column 1: the layer takes the terminal's cursor to
be there already.  And what data memory holds is shown when the screen is cleared. -/
theorem terminal_misses_image :
    (∃ desk, (Desk.initial 2 8).run 2 8 2
        [.on 0 (.waddch 65), .on 0 .wclear, .on 0 (.wmove 0 1), .on 0 (.waddch 66)] = some desk ∧
      ¬SameGlyph ((smallTerminal.feedAll ⟨2, 9, true⟩
          (stream (fun _ k => clrStr[k]!) desk.screen.calls).bytes).cells 0 1) (desk.screen.at 8 0 1)) ∧
    ¬SameGlyph ((smallTerminal.feedAll ⟨2, 9, true⟩
        (stream (fun _ _ => 65) (Desk.initial 2 8).screen.calls).bytes).cells 0 0)
      ((Desk.initial 2 8).screen.at 8 0 0) := by
  refine ⟨?_, by decide +kernel⟩
  have checked : ((Desk.initial 2 8).run 2 8 2
        [.on 0 (.waddch 65), .on 0 .wclear, .on 0 (.wmove 0 1), .on 0 (.waddch 66)]).map
      (fun desk => decide (SameGlyph ((smallTerminal.feedAll ⟨2, 9, true⟩
        (stream (fun _ k => clrStr[k]!) desk.screen.calls).bytes).cells 0 1) (desk.screen.at 8 0 1))) =
      some false := by
    decide +kernel
  obtain ⟨desk, runs, differs⟩ := Option.map_eq_some_iff.mp checked
  exact ⟨desk, runs, of_decide_eq_false differs⟩

end Ethersex.Vt100
