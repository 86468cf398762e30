import Mathlib

/-!
# A terminal of unbounded height

The terminal prints glyphs into lines of a fixed width and wraps right after the
last column.  A window of a fixed height shows the lines from `top` on.  The top
line is dropped only when a key arrives while the cursor is on the line below
the window.
-/

namespace Ethersex.Library

/-- What a terminal is sent. -/
inductive Key (Glyph : Type*) where
  | newline
  | carriageReturn
  | print (glyph : Glyph)

/-- The text printed so far, the first visible line and the cursor. -/
structure Terminal (Glyph : Type*) where
  text : Nat → Nat → Glyph
  top : Nat
  row : Nat
  col : Nat

namespace Terminal

variable {Glyph : Type*}

/-- The empty terminal. -/
def blank (space : Glyph) : Terminal Glyph := ⟨fun _ _ => space, 0, 0, 0⟩

/-- Drop the top line if the cursor is below the window. -/
def makeRoom (height : Nat) (term : Terminal Glyph) : Terminal Glyph :=
  if term.row = term.top + height then { term with top := term.top + 1 } else term

/-- Act on a key with the cursor inside the window. -/
def act (width : Nat) (key : Key Glyph) (term : Terminal Glyph) : Terminal Glyph :=
  match key with
  | .newline => { term with row := term.row + 1, col := 0 }
  | .carriageReturn => { term with col := 0 }
  | .print glyph =>
      { term with
        text := fun row col =>
          if row = term.row ∧ col = term.col then glyph else term.text row col
        row := if term.col + 1 = width then term.row + 1 else term.row
        col := if term.col + 1 = width then 0 else term.col + 1 }

/-- Send a key to a terminal. -/
def feed (width height : Nat) (term : Terminal Glyph) (key : Key Glyph) : Terminal Glyph :=
  act width key (makeRoom height term)

/-- The cursor is in the window or at the line below it, and nothing has been
printed below the cursor or below the window. -/
structure Sound (space : Glyph) (width height : Nat) (term : Terminal Glyph) : Prop where
  column : term.col < width
  above : term.top ≤ term.row
  reach : term.row ≤ term.top + height
  empty : ∀ row, term.row < row ∨ term.top + height ≤ row → ∀ col, term.text row col = space

variable {space : Glyph} {width height : Nat} {term : Terminal Glyph}

theorem sound_blank (wide : 0 < width) : Sound space width height (blank space) :=
  ⟨wide, le_refl _, Nat.zero_le _, fun _ _ _ => rfl⟩

theorem Sound.makeRoom (sound : Sound space width height term) (tall : 0 < height) :
    Sound space width height (makeRoom height term) := by
  rw [Terminal.makeRoom]
  split
  · next pending =>
      refine ⟨sound.column, by simp only; omega, by simp only; omega, fun row below => ?_⟩
      exact sound.empty row (by simp only at below; omega)
  · exact sound

/-- After the top line is dropped the cursor is inside the window. -/
theorem Sound.row_lt (sound : Sound space width height term) :
    (Terminal.makeRoom height term).row < (Terminal.makeRoom height term).top + height := by
  have := sound.reach
  rw [Terminal.makeRoom]
  split
  · simp only
    omega
  · omega

theorem Sound.act (sound : Sound space width height term) (inside : term.row < term.top + height)
    (wide : 0 < width) (key : Key Glyph) : Sound space width height (act width key term) := by
  have above := sound.above
  have column := sound.column
  cases key with
  | newline =>
      exact ⟨wide, by simp only [Terminal.act]; omega, by simp only [Terminal.act]; omega,
        fun row below => sound.empty row (by simp only [Terminal.act] at below; omega)⟩
  | carriageReturn => exact ⟨wide, above, sound.reach, sound.empty⟩
  | print glyph =>
      refine ⟨?_, ?_, ?_, fun row below col => ?_⟩
      · simp only [Terminal.act]
        split <;> omega
      · simp only [Terminal.act]
        split <;> omega
      · simp only [Terminal.act]
        split <;> omega
      · simp only [Terminal.act] at below ⊢
        have later : term.row < row := by split at below <;> omega
        rw [if_neg (by omega)]
        exact sound.empty row (Or.inl later) col

theorem Sound.feed (sound : Sound space width height term) (wide : 0 < width) (tall : 0 < height)
    (key : Key Glyph) : Sound space width height (feed width height term key) :=
  (sound.makeRoom tall).act sound.row_lt wide key

/-- Newlines alone do not drop a line until the cursor is below the window. -/
theorem newlines (space : Glyph) {count : Nat} (few : count ≤ height) :
    (List.replicate count .newline).foldl (feed width height) (blank space) =
      ⟨fun _ _ => space, 0, count, 0⟩ := by
  induction count with
  | zero => rfl
  | succ count ih =>
      rw [List.replicate_succ', List.foldl_append, ih (by omega)]
      simp only [List.foldl_cons, List.foldl_nil, feed, makeRoom, act]
      rw [if_neg (by omega)]

end Terminal

end Ethersex.Library
