import Mathlib
import Ethersex.Tty.Calls

/-!
# Windows keep to their rectangles

Clearing and scrolling print through `waddch`, which may itself scroll, and they leave the
cursor on the line below the window in between.  Whatever they do, no call writes to a cell
outside the rectangle of its window.  This needs no bound on the size of the window: it is
said of every call that ends.
-/

namespace Ethersex.Tty

open Library

/-- The window lies on the screen, with its cursor inside or on the line below. -/
structure Window.Sited (lines cols : Nat) (win : Window) : Prop where
  onScreen : win.OnScreen lines cols
  row : win.y.toNat ≤ win.maxy.toNat + 1
  column : win.x ≤ win.maxx

/-- The positions on the screen that belong to a window. -/
def Window.rectangle (win : Window) : Set (Nat × Nat) :=
  Set.Icc win.begy.toNat (win.begy.toNat + win.maxy.toNat) ×ˢ
    Set.Icc win.begx.toNat (win.begx.toNat + win.maxx.toNat)

/-- The image at a position on the screen. -/
def Screen.at (cols : Nat) (screen : Screen) (row col : Nat) : UInt8 :=
  screen.image (row * cols + col)

/-- The screens differ in the rectangle of a window only. -/
def SameOutside (cols : Nat) (win : Window) (before after : Screen) : Prop :=
  ∀ row col, col < cols → (row, col) ∉ win.rectangle → after.at cols row col = before.at cols row col

/-- A call on a window has moved the cursor, to the inside or the line below, and changed
the image in the rectangle of the window. -/
structure Confined (cols : Nat) (start tty : Session) : Prop where
  window : tty.win =
    { start.win with leaveok := tty.win.leaveok, y := tty.win.y, x := tty.win.x }
  row : tty.win.y.toNat ≤ start.win.maxy.toNat + 1
  column : tty.win.x ≤ start.win.maxx
  outside : SameOutside cols start.win start.screen tty.screen

section Confined

variable {lines cols : Nat} {start tty : Session}

theorem Confined.maxy (confined : Confined cols start tty) : tty.win.maxy = start.win.maxy := by
  rw [confined.window]

theorem Confined.maxx (confined : Confined cols start tty) : tty.win.maxx = start.win.maxx := by
  rw [confined.window]

/-- A cell of the window has its position in the rectangle. -/
theorem Confined.index_mem (confined : Confined cols start tty) (on : start.win.OnScreen lines cols)
    {y x row col : Nat} (rowIn : y ≤ start.win.maxy.toNat) (columnIn : x ≤ start.win.maxx.toNat)
    (inside : col < cols) (is : row * cols + col = tty.index cols y x) :
    (row, col) ∈ start.win.rectangle := by
  have columns := on.columns
  rw [Session.index, confined.window, image_index_inj inside (by simp only; omega)] at is
  simp only [Window.rectangle, Set.mem_prod, Set.mem_Icc]
  simp only at is
  omega

theorem SameOutside.update (outside : SameOutside cols start.win start.screen tty.screen)
    {index : Nat} (inside : ∀ row col, col < cols → row * cols + col = index →
      (row, col) ∈ start.win.rectangle) (ch : UInt8) {row col : Nat} (column : col < cols)
    (elsewhere : (row, col) ∉ start.win.rectangle) :
    Function.update tty.screen.image index ch (row * cols + col) = start.screen.at cols row col := by
  rw [Function.update_of_ne fun is => elsewhere (inside row col column is)]
  exact outside row col column elsewhere

theorem advance_confined {win : Window} (rowIn : win.y ≤ win.maxy) (columnIn : win.x ≤ win.maxx)
    (ch : UInt8) :
    advance ch win = { win with y := (advance ch win).y, x := (advance ch win).x } ∧
      (advance ch win).y.toNat ≤ win.maxy.toNat + 1 ∧ (advance ch win).x ≤ win.maxx := by
  rw [UInt8.le_iff_toNat_le] at rowIn columnIn
  have below : (win.y + 1).toNat ≤ win.maxy.toNat + 1 := by
    rw [UInt8.toNat_add, UInt8.toNat_one]
    exact (Nat.mod_le _ _).trans (Nat.succ_le_succ rowIn)
  have here : win.y.toNat ≤ win.maxy.toNat + 1 := Nat.le_succ_of_le rowIn
  have home : (0 : UInt8) ≤ win.maxx := UInt8.zero_le
  simp only [advance]
  split_ifs with lineFeed carriageReturn last wraps
  · exact ⟨rfl, below, home⟩
  · exact ⟨rfl, here, home⟩
  · exact ⟨rfl, below, home⟩
  · exact ⟨rfl, here, columnIn⟩
  · refine ⟨rfl, here, ?_⟩
    have different : win.x.toNat ≠ win.maxx.toNat := fun is => last (UInt8.toNat_inj.mp is)
    rw [UInt8.le_iff_toNat_le, UInt8.toNat_add, UInt8.toNat_one]
    have := win.maxx.toNat_lt
    omega

theorem Confined.ttyLlGoto (confined : Confined cols start tty) (y x : UInt8) :
    Confined cols start (ttyLlGoto y x tty) := by
  refine ⟨?_, ?_, ?_, fun row col inside elsewhere => ?_⟩
  · rw [ttyLlGoto_win]
    exact confined.window
  · rw [ttyLlGoto_win]
    exact confined.row
  · rw [ttyLlGoto_win]
    exact confined.column
  · rw [Screen.at, ttyLlGoto_image]
    exact confined.outside row col inside elsewhere

/-- The primitive steps of the layer are confined. -/
theorem preserved_confined (on : start.win.OnScreen lines cols) :
    Preserved lines cols (Confined cols start) where
  update := by
    intro tty ch rowIn columnIn confined
    obtain ⟨window, row, column⟩ := advance_confined rowIn columnIn ch
    refine ⟨?_, ?_, ?_, fun line col inside elsewhere => ?_⟩
    · rw [updateMap_win, window, confined.window]
    · rwa [updateMap_win, ← confined.maxy]
    · rwa [updateMap_win, ← confined.maxx]
    · rw [confined.maxy, UInt8.le_iff_toNat_le] at rowIn
      rw [confined.maxx, UInt8.le_iff_toNat_le] at columnIn
      rw [Screen.at]
      by_cases printed : Printed ch
      · rw [updateMap_image cols printed]
        exact confined.outside.update
          (fun _ _ inside is => confined.index_mem on rowIn columnIn inside is) ch inside elsewhere
      · rw [updateMap_image_of_not_printed cols printed]
        exact confined.outside line col inside elsewhere
  move := by
    intro tty y x confined
    rw [wmove]
    split_ifs with refused
    · exact confined
    · rw [not_or, confined.maxy, confined.maxx] at refused
      have row : y ≤ start.win.maxy := UInt8.not_lt.mp refused.1
      have moved : Confined cols start (tty.setCursor y x) :=
        ⟨by simp only [Session.setCursor]; rw [confined.window],
          Nat.le_succ_of_le (UInt8.le_iff_toNat_le.mp row), UInt8.not_lt.mp refused.2,
          confined.outside⟩
      dsimp only
      split
      · exact moved.ttyLlGoto _ _
      · exact moved
  read := fun _ _ confined => ⟨confined.window, confined.row, confined.column, confined.outside⟩
  root := by
    intro tty isRoot confined
    have same : tty.win.subwin = start.win.subwin := by rw [confined.window]
    obtain ⟨begy, begx, tall, wide⟩ := on.root (same.symm.trans isRoot)
    refine ⟨?_, Nat.zero_le _, UInt8.zero_le, fun row col inside elsewhere => ?_⟩
    · simp only [clearRoot, ttyLlClear, Session.setCursor]
      rw [confined.window]
    · have below : lines ≤ row := by
        by_contra above
        refine elsewhere ?_
        simp only [Window.rectangle, Set.mem_prod, Set.mem_Icc, begy, begx, UInt8.toNat_zero]
        omega
      have beyond : ¬row * cols + col < lines * cols :=
        Nat.not_lt.mpr ((Nat.mul_le_mul_right cols below).trans (Nat.le_add_right _ _))
      simp only [Screen.at, clearRoot, ttyLlClear, Session.setCursor, if_neg beyond]
      exact confined.outside row col inside elsewhere

end Confined

/-! ## Calls that end -/

/-- A property that the primitive steps on a window keep, for characters of an alphabet
which the cells of the window and the blank belong to. -/
structure Kept (lines cols : Nat) (start : Session) (alphabet : UInt8 → Prop) (P : Session → Prop) :
    Prop where
  update : ∀ {tty : Session} {ch : UInt8}, alphabet ch → tty.win.y ≤ tty.win.maxy →
    tty.win.x ≤ tty.win.maxx → P tty → P (updateMap cols ch tty)
  move : ∀ {tty : Session} (y x : UInt8), P tty → P (wmove y x tty)
  read : ∀ {tty : Session} {y x : Nat}, y ≤ tty.win.maxy.toNat → x ≤ tty.win.maxx.toNat →
    P tty → P (tty.access y x)
  root : ∀ {tty : Session}, tty.win.subwin = false → P tty → P (clearRoot lines cols tty)
  confined : ∀ {tty : Session}, P tty → Confined cols start tty
  blank : alphabet 32
  cells : ∀ {tty : Session} {y x : Nat}, P tty → y ≤ start.win.maxy.toNat →
    x ≤ start.win.maxx.toNat → alphabet (tty.cell cols y x)

/-- The `waddch` that the other functions call keeps the property. -/
def KeptBy (alphabet : UInt8 → Prop) (P : Session → Prop)
    (add : UInt8 → Session → Option Session) : Prop :=
  ∀ {ch : UInt8} {tty next : Session}, alphabet ch → add ch tty = some next → P tty → P next

/-- A movement inside the window is carried out. -/
theorem Confined.move_y {cols : Nat} {start tty : Session} (confined : Confined cols start tty)
    {y x : UInt8} (row : y ≤ start.win.maxy) (column : x ≤ start.win.maxx) :
    (wmove y x tty).win.y = y := by
  rw [wmove, if_neg]
  · dsimp only
    split
    · rw [ttyLlGoto_win]
      rfl
    · rfl
  · rw [not_or, confined.maxy, confined.maxx]
    exact ⟨UInt8.not_lt.mpr row, UInt8.not_lt.mpr column⟩

namespace Kept

variable {lines cols depth : Nat} {start tty next : Session} {alphabet : UInt8 → Prop}
  {P : Session → Prop} {add : UInt8 → Session → Option Session} {call : Call}

section Loops

variable (kept : Kept lines cols start alphabet P) (adds : KeptBy alphabet P add)

include kept adds

theorem wspacetoeol (ends : wspacetoeol add tty = some next) (holds : P tty) : P next :=
  times_preserves (adds kept.blank) ends holds

theorem wclrtoeol (ends : wclrtoeol add tty = some next) (holds : P tty) : P next := by
  obtain ⟨blanked, loop, rfl⟩ := Option.map_eq_some_iff.mp ends
  exact kept.move _ _ (kept.wspacetoeol adds loop holds)

/-- Clearing comes back to a cursor inside the window. -/
theorem wclrtobot (ends : wclrtobot add tty = some next) (holds : P tty) :
    P next ∧ (tty.win.y ≤ start.win.maxy → next.win.y = tty.win.y) := by
  obtain ⟨first, blanks, ends⟩ := Option.bind_eq_some_iff.mp ends
  obtain ⟨last, loop, rfl⟩ := Option.map_eq_some_iff.mp ends
  have cleared : P last := forUpTo_preserves
    (fun _ pass state => kept.wspacetoeol adds pass (kept.move _ _ state)) loop
    (kept.wspacetoeol adds blanks holds)
  exact ⟨kept.move _ _ cleared,
    fun inside => (kept.confined cleared).move_y inside (kept.confined holds).column⟩

theorem wclear (ends : wclear lines cols add tty = some next) (holds : P tty) :
    P next ∧ next.win.y = 0 := by
  rw [Tty.wclear] at ends
  split_ifs at ends with root
  · obtain rfl := Option.some.inj ends
    exact ⟨kept.root (by simpa using root) holds, rfl⟩
  · have top := (kept.confined holds).move_y (UInt8.zero_le : 0 ≤ start.win.maxy)
      (UInt8.zero_le : 0 ≤ start.win.maxx)
    obtain ⟨cleared, row⟩ := kept.wclrtobot adds ends (kept.move 0 0 holds)
    rw [top] at row
    exact ⟨cleared, row UInt8.zero_le⟩

/-- A scroll by at least one line leaves the cursor inside the window. -/
theorem wscroll {count : UInt8} (ends : wscroll lines cols add count tty = some next) (holds : P tty) :
    P next ∧ (count ≠ 0 → next.win.y ≤ start.win.maxy) := by
  rw [Tty.wscroll, (kept.confined holds).maxy] at ends
  split_ifs at ends with all
  · obtain ⟨cleared, row⟩ := kept.wclear adds ends holds
    rw [row]
    exact ⟨cleared, fun _ => UInt8.zero_le⟩
  · obtain ⟨copied, loop, ends⟩ := Option.bind_eq_some_iff.mp ends
    have fits : count ≤ start.win.maxy := UInt8.not_lt.mp all
    have last := UInt8.toNat_sub_of_le _ _ fits
    rw [UInt8.le_iff_toNat_le] at fits
    have moved : P copied := by
      refine forUpTo_preserves (fun {y} _ _ inside row state => ?_) loop holds
      refine forUpTo_preserves (fun {_} before _ _ pass state => ?_) row (kept.move y 0 state)
      rw [UInt8.le_iff_toNat_le, last] at inside
      have source : y.toNat + count.toNat ≤ start.win.maxy.toNat := by omega
      have confined := kept.confined state
      have column : before.win.x.toNat ≤ start.win.maxx.toNat :=
        UInt8.le_iff_toNat_le.mp confined.column
      refine adds (kept.cells state source column) pass (kept.read ?_ ?_ state)
      · rwa [confined.maxy]
      · rwa [confined.maxx]
    have confined := kept.confined moved
    obtain ⟨cleared, row⟩ := kept.wclrtobot adds ends (kept.move _ _ moved)
    refine ⟨cleared, fun some => ?_⟩
    have inside : copied.win.maxy - count + 1 ≤ start.win.maxy := by
      have positive : count.toNat ≠ 0 := fun is => some (UInt8.toNat_inj.mp is)
      have := start.win.maxy.toNat_lt
      rw [confined.maxy, UInt8.le_iff_toNat_le, UInt8.toNat_add, last, UInt8.toNat_one]
      omega
    rw [row (by rwa [confined.move_y inside UInt8.zero_le]), confined.move_y inside UInt8.zero_le]
    exact inside

end Loops

variable (kept : Kept lines cols start alphabet P)

include kept

theorem waddch (depth : Nat) : KeptBy alphabet P (waddch lines cols depth) := by
  induction depth with
  | zero => exact fun _ ends => nomatch ends
  | succ depth ih =>
      intro ch tty next belongs ends holds
      have confined := kept.confined holds
      rw [Tty.waddch] at ends
      split_ifs at ends with below fixed
      · exact Option.some.inj ends ▸ holds
      · obtain ⟨scrolled, scroll, rfl⟩ := Option.map_eq_some_iff.mp ends
        obtain ⟨moved, row⟩ := kept.wscroll ih scroll holds
        have some : tty.win.y - tty.win.maxy ≠ 0 :=
          fun is => UInt8.ne_of_lt below (sub_eq_zero.mp is).symm
        have after := kept.confined moved
        refine kept.update belongs ?_ ?_ moved
        · rw [after.maxy]
          exact row some
        · rw [after.maxx]
          exact after.column
      · obtain rfl := Option.some.inj ends
        refine kept.update belongs (UInt8.not_lt.mp below) ?_ holds
        rw [confined.maxx]
        exact confined.column

theorem addString {text : List UInt8} (belong : ∀ ch ∈ text, alphabet ch)
    (ends : addString lines cols depth text tty = some next) (holds : P tty) : P next := by
  induction text generalizing tty with
  | nil => exact Option.some.inj ends ▸ holds
  | cons ch rest ih =>
      rw [List.forall_mem_cons] at belong
      obtain ⟨between, first, rest⟩ := Option.bind_eq_some_iff.mp ends
      exact ih belong.2 rest (kept.waddch depth belong.1 first holds)

end Kept

/-- The characters that a call prints belong to an alphabet. -/
def Call.Prints (alphabet : UInt8 → Prop) : Call → Prop
  | .waddch ch => alphabet ch
  | .waddstr text => ∀ ch ∈ text, alphabet ch
  | _ => True

/-- A call that ends keeps the property. -/
theorem Kept.call {lines cols depth : Nat} {start tty next : Session} {alphabet : UInt8 → Prop}
    {P : Session → Prop} (kept : Kept lines cols start alphabet P)
    (leaveok : ∀ {tty : Session} (flag : Bool), P tty → P { tty with win := { tty.win with leaveok := flag } })
    {call : Call} (prints : call.Prints alphabet) (ends : call.run lines cols depth tty = some next)
    (holds : P tty) : P next := by
  have adds : KeptBy alphabet P (Tty.waddch lines cols depth) := kept.waddch depth
  cases call with
  | waddch ch => exact adds prints ends holds
  | waddstr text =>
      exact kept.addString (fun ch member => prints ch (List.takeWhile_subset _ member)) ends holds
  | wmove y x => exact Option.some.inj ends ▸ kept.move y x holds
  | wclear => exact (kept.wclear adds ends holds).1
  | wclrtoeol => exact kept.wclrtoeol adds ends holds
  | wclrtobot => exact (kept.wclrtobot adds ends holds).1
  | wscroll count => exact (kept.wscroll adds ends holds).1
  | leaveok flag => exact Option.some.inj ends ▸ leaveok flag holds

section Calls

variable {lines cols depth : Nat} {start tty next : Session}

theorem kept_confined (on : start.win.OnScreen lines cols) :
    Kept lines cols start (fun _ => True) (Confined cols start) where
  update := fun _ row column confined => (preserved_confined on).update _ row column confined
  move := fun y x confined => (preserved_confined on).move y x confined
  read := fun row column confined => (preserved_confined on).read row column confined
  root := fun isRoot confined => (preserved_confined on).root isRoot confined
  confined := id
  blank := trivial
  cells := fun _ _ _ => trivial

theorem Confined.setLeaveok (confined : Confined cols start tty) (flag : Bool) :
    Confined cols start { tty with win := { tty.win with leaveok := flag } } :=
  ⟨by simp only; rw [confined.window], confined.row, confined.column, confined.outside⟩

/-- The window stays where it is. -/
theorem Confined.sited (confined : Confined cols start tty) (on : start.win.OnScreen lines cols) :
    tty.win.Sited lines cols := by
  refine ⟨?_, ?_, ?_⟩
  · rw [confined.window]
    exact ⟨on.rows, on.columns, on.root⟩
  · rw [confined.maxy]
    exact confined.row
  · rw [confined.maxx]
    exact confined.column

theorem Window.Sited.confined (sited : start.win.Sited lines cols) : Confined cols start start :=
  ⟨rfl, sited.row, sited.column, fun _ _ _ _ => rfl⟩

theorem Call.prints_all (call : Call) : call.Prints fun _ => True := by
  cases call with
  | waddstr text => exact fun _ _ => trivial
  | _ => trivial

/-- Every call that ends is confined. -/
theorem Call.run_confined {call : Call} (sited : start.win.Sited lines cols)
    (ends : call.run lines cols depth start = some next) : Confined cols start next :=
  (kept_confined sited.onScreen).call (fun flag confined => confined.setLeaveok flag)
    call.prints_all ends sited.confined

end Calls

/-! ## Sequences of calls -/

section Desk

variable {lines cols depth : Nat} {desk next : Desk}

/-- All windows lie on the screen. -/
def Desk.Sited (lines cols : Nat) (desk : Desk) : Prop := ∀ win ∈ desk.windows, win.Sited lines cols

theorem Desk.Sited.perform (sited : desk.Sited lines cols) {action : Action}
    (inBounds : action.InBounds lines cols)
    (performed : desk.perform lines cols depth action = some next) : next.Sited lines cols := by
  cases action with
  | on window call =>
      rw [Desk.perform] at performed
      cases found : desk.windows[window]? with
      | none =>
          simp only [found] at performed
          exact Option.some.inj performed ▸ sited
      | some win =>
          simp only [found] at performed
          obtain ⟨tty, ends, rfl⟩ := Option.map_eq_some_iff.mp performed
          have here := sited win (List.mem_of_getElem? found)
          intro other member
          rcases List.mem_or_eq_of_mem_set member with old | rfl
          · exact sited other old
          · exact (Call.run_confined here ends).sited here.onScreen
  | subwin height width begy begx =>
      obtain ⟨tall, wide, rows, columns⟩ := inBounds
      obtain rfl := Option.some.inj performed
      intro other member
      rcases List.mem_append.mp member with old | new
      · exact sited other old
      · have usable := subwin_usable tall wide rows columns
        rw [List.mem_singleton.mp new]
        exact ⟨usable.onScreen, usable.row, usable.column⟩

theorem Desk.Sited.run (sited : desk.Sited lines cols) {actions : List Action}
    (inBounds : ∀ action ∈ actions, action.InBounds lines cols)
    (runs : desk.run lines cols depth actions = some next) : next.Sited lines cols := by
  induction actions generalizing desk with
  | nil => exact Option.some.inj runs ▸ sited
  | cons action rest ih =>
      obtain ⟨between, performed, runs⟩ := Option.bind_eq_some_iff.mp runs
      exact ih (sited.perform (inBounds action List.mem_cons_self) performed)
        (fun later member => inBounds later (List.mem_cons_of_mem _ member)) runs

/-- A call changes only the rectangle of its window, and so no window that does not overlap
it. -/
def CallsConfined (cols : Nat) (window : Nat) (desk next : Desk) : Prop :=
  ∀ win, desk.windows[window]? = some win →
    SameOutside cols win desk.screen next.screen ∧
      ∀ other beside, desk.windows[other]? = some beside → other ≠ window →
        next.windows[other]? = some beside ∧
          (Disjoint beside.rectangle win.rectangle → ∀ row col, (row, col) ∈ beside.rectangle →
            next.screen.at cols row col = desk.screen.at cols row col)

theorem Desk.Sited.callsConfined (sited : desk.Sited lines cols) {window : Nat} {call : Call}
    (performed : desk.perform lines cols depth (.on window call) = some next) :
    CallsConfined cols window desk next := by
  intro win found
  rw [Desk.perform] at performed
  simp only [found] at performed
  obtain ⟨tty, ends, rfl⟩ := Option.map_eq_some_iff.mp performed
  have here := sited win (List.mem_of_getElem? found)
  refine ⟨(Call.run_confined here ends).outside, fun other beside another different => ⟨?_, fun disjoint row col inside => ?_⟩⟩
  · simp only [List.getElem?_set_ne different.symm, another]
  · have columns := (sited beside (List.mem_of_getElem? another)).onScreen.columns
    refine (Call.run_confined here ends).outside row col ?_ (Set.disjoint_left.mp disjoint inside)
    have last := (Set.mem_Icc.mp (Set.mem_prod.mp inside).2).2
    simp only at last
    omega

/-- Windows that wrap and scroll on a screen of at most 255 lines and columns: their calls end. -/
theorem Desk.calls_end (low : lines ≤ 255) (narrow : cols ≤ 255)
    (usable : ∀ win ∈ desk.windows, win.Usable lines cols)
    (clean : ∀ i, Printed (desk.screen.image i)) {actions : List Action}
    (inBounds : ∀ action ∈ actions, action.InBounds lines cols) :
    ∃ next, desk.run lines cols (depth + 2) actions = some next := by
  have sound : desk.Sound lines cols fun _ => True := ⟨usable, clean, trivial⟩
  obtain ⟨next, runs, -⟩ := sound.run depth
    (preserved_carried (fun _ _ _ => trivial) (fun _ _ _ _ _ => trivial) fun _ => trivial)
    low narrow inBounds
  exact ⟨next, runs⟩

end Desk

/-- Whatever has been done to windows on the screen, a call that ends changes the image in
the rectangle of its window only; and on a screen of at most 255 lines and columns every call
on windows that wrap and scroll does end. -/
theorem windows_keep_to_their_rectangles (lines cols depth : Nat) (desk : Desk)
    (sited : desk.Sited lines cols) (actions : List Action)
    (inBounds : ∀ action ∈ actions, action.InBounds lines cols) :
    (∀ before, desk.run lines cols depth actions = some before → ∀ window call after,
      before.perform lines cols depth (.on window call) = some after →
        CallsConfined cols window before after) ∧
    (lines ≤ 255 → cols ≤ 255 → (∀ win ∈ desk.windows, win.linewrap ∧ win.scrollok) →
      (∀ i, Printed (desk.screen.image i)) →
      ∃ after, desk.run lines cols (depth + 2) actions = some after) := by
  refine ⟨fun before runs window call after performed =>
    (sited.run inBounds runs).callsConfined performed, fun low narrow flags clean => ?_⟩
  refine Desk.calls_end low narrow (fun win member => ?_) clean inBounds
  have here := sited win member
  exact ⟨here.onScreen, (flags win member).1, (flags win member).2, here.row, here.column⟩

/-- Two windows side by side; the text scrolls in one of them. -/
theorem windows_keep_to_their_rectangles_side_by_side :
    ∃ before after, (Desk.initial 2 8).run 2 8 2 [.subwin 2 4 0 0, .subwin 2 4 0 4] = some before ∧
      before.perform 2 8 2 (.on 1 (.waddstr [72, 105, 10, 10, 72])) = some after ∧
      CallsConfined 8 1 before after := by
  have sited : (Desk.initial 2 8).Sited 2 8 := fun win member => by
    have usable := @initscr_usable 2 8 (by decide) (by decide) (by decide) (by decide)
    rw [List.mem_singleton.mp member]
    exact ⟨usable.onScreen, usable.row, usable.column⟩
  have inBounds : ∀ action ∈ [Action.subwin 2 4 0 0, .subwin 2 4 0 4], action.InBounds 2 8 := by
    simp [Action.InBounds]
  have ends : (((Desk.initial 2 8).run 2 8 2 [.subwin 2 4 0 0, .subwin 2 4 0 4]).bind fun before =>
      before.perform 2 8 2 (.on 1 (.waddstr [72, 105, 10, 10, 72]))).isSome := by decide
  obtain ⟨after, ends⟩ := Option.isSome_iff_exists.mp ends
  obtain ⟨before, runs, performed⟩ := Option.bind_eq_some_iff.mp ends
  exact ⟨before, after, runs, performed, (windows_keep_to_their_rectangles 2 8 2 _ sited _ inBounds).1
    before runs 1 _ after performed⟩

end Ethersex.Tty
