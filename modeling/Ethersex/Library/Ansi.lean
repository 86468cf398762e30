import Mathlib

/-!
# A terminal that obeys escape sequences

The terminal has some number of rows and columns, and a cursor that never leaves them.  It
knows two control sequences, `CSI row ; column H`, whose parameters count from one, and
`CSI 2 J`, which clears the screen; it reads over other ones.  Every other byte is a
character; a terminal may pass over the byte 0.
-/

namespace Ethersex.Library

namespace Ansi

/-- Where a terminal is in an escape sequence; the parameters it has read, and the one it
is reading. -/
inductive Mode where
  | ground
  | escape
  | csi (parameters : List Nat) (current : Nat)
  deriving DecidableEq, Repr

/-- The size of a terminal, and whether it passes over zeros. -/
structure Size where
  rows : Nat
  columns : Nat
  ignoresNul : Bool

/-- The screen, the cursor and the mode. -/
structure Display where
  cells : Nat → Nat → UInt8
  row : Nat
  col : Nat
  mode : Mode

namespace Display

variable (size : Size)

/-- Move the cursor, but not off the screen. -/
def moveTo (row col : Nat) (display : Display) : Display :=
  { display with row := min row (size.rows - 1), col := min col (size.columns - 1) }

def clear (display : Display) : Display := { display with cells := fun _ _ => 32 }

/-- A character is shown at the cursor, which advances. -/
def print (ch : UInt8) (display : Display) : Display :=
  { display with
    cells := Function.update display.cells display.row
      (Function.update (display.cells display.row) display.col ch)
    col := min (display.col + 1) (size.columns - 1) }

/-- The end of a control sequence. -/
def execute (parameters : List Nat) (final : UInt8) (display : Display) : Display :=
  if final = 72 then
    display.moveTo size ((parameters[0]?.getD 1) - 1) ((parameters[1]?.getD 1) - 1)
  else if final = 74 ∧ parameters = [2] then display.clear
  else display

/-- One byte. -/
def feed (display : Display) (byte : UInt8) : Display :=
  match display.mode with
  | .ground =>
      if byte = 27 then { display with mode := .escape }
      else if byte = 0 ∧ size.ignoresNul then display
      else display.print size byte
  | .escape => { display with mode := if byte = 91 then .csi [] 0 else .ground }
  | .csi parameters current =>
      if 48 ≤ byte ∧ byte ≤ 57 then
        { display with mode := .csi parameters (10 * current + (byte.toNat - 48)) }
      else if byte = 59 then { display with mode := .csi (parameters ++ [current]) 0 }
      else { display.execute size (parameters ++ [current]) byte with mode := .ground }

def feedAll (bytes : List UInt8) (display : Display) : Display := bytes.foldl (feed size) display

end Display

/-- A number in decimal digits. -/
def decimal (value : Nat) : List UInt8 := (Nat.toDigits 10 value).map fun digit => UInt8.ofNat digit.toNat

/-- The sequence that moves the cursor to a row and a column, counted from one. -/
def cursorPosition (row col : Nat) : List UInt8 := [27, 91] ++ decimal row ++ [59] ++ decimal col ++ [72]

section Sequences

variable {size : Size} {display : Display}

@[simp] theorem feedAll_nil : display.feedAll size [] = display := rfl

@[simp] theorem feedAll_cons (byte : UInt8) (bytes : List UInt8) :
    display.feedAll size (byte :: bytes) = (display.feed size byte).feedAll size bytes := rfl

theorem feedAll_append (first second : List UInt8) :
    display.feedAll size (first ++ second) = (display.feedAll size first).feedAll size second :=
  List.foldl_append

theorem digit_toNat {digit : Nat} (small : digit < 10) :
    (UInt8.ofNat (Nat.digitChar digit).toNat).toNat = 48 + digit := by
  interval_cases digit <;> rfl

theorem feed_digit {digit current : Nat} (small : digit < 10) {parameters : List Nat} :
    ({ display with mode := .csi parameters current }).feed size (UInt8.ofNat (Nat.digitChar digit).toNat) =
      { display with mode := .csi parameters (10 * current + digit) } := by
  have value := digit_toNat small
  have isDigit : (48 : UInt8) ≤ UInt8.ofNat (Nat.digitChar digit).toNat ∧
      UInt8.ofNat (Nat.digitChar digit).toNat ≤ 57 := by
    rw [UInt8.le_iff_toNat_le, UInt8.le_iff_toNat_le, value]
    exact ⟨Nat.le_add_right 48 digit, by simp only [UInt8.reduceToNat]; omega⟩
  simp only [Display.feed, if_pos isDigit, value, Nat.add_sub_cancel_left]

/-- The terminal reads a decimal number. -/
theorem feedAll_decimal (value : Nat) (parameters : List Nat) :
    ({ display with mode := .csi parameters 0 }).feedAll size (decimal value) =
      { display with mode := .csi parameters value } := by
  induction value using Nat.strong_induction_on with
  | _ value ih =>
      rw [decimal, Nat.toDigits_eq_if (by decide)]
      split_ifs with small
      · simp only [List.map_cons, List.map_nil, feedAll_cons, feedAll_nil, feed_digit small,
          Nat.mul_zero, Nat.zero_add]
      · rw [List.map_append, feedAll_append, ← decimal, ih (value / 10) (by omega)]
        simp only [List.map_cons, List.map_nil, feedAll_cons, feedAll_nil,
          feed_digit (Nat.mod_lt value (by decide : 0 < 10)), Nat.div_add_mod]

/-- A control sequence begins. -/
theorem feedAll_introducer (ground : display.mode = .ground) :
    display.feedAll size [27, 91] = { display with mode := .csi [] 0 } := by
  simp [Display.feed, ground]

/-- The sequence for the cursor moves it. -/
theorem feedAll_cursorPosition (ground : display.mode = .ground) (row col : Nat) :
    display.feedAll size (cursorPosition (row + 1) (col + 1)) = display.moveTo size row col := by
  have separates (display : Display) (value : Nat) :
      ({ display with mode := .csi [] value }).feedAll size [59] =
        { display with mode := .csi [value] 0 } := by
    simp [Display.feed]
  have ends (display : Display) (first second : Nat) :
      ({ display with mode := .csi [first] second }).feedAll size [72] =
        { display.moveTo size (first - 1) (second - 1) with mode := .ground } := by
    simp [Display.feed, Display.execute, Display.moveTo]
  rw [cursorPosition, feedAll_append, feedAll_append, feedAll_append, feedAll_append,
    feedAll_introducer ground, feedAll_decimal, separates, feedAll_decimal, ends]
  rw [Nat.add_sub_cancel, Nat.add_sub_cancel, ← ground]
  rfl

/-- The sequences that clear the screen and take the cursor home. -/
theorem feedAll_clear (ground : display.mode = .ground) :
    display.feedAll size [27, 91, 50, 74, 27, 91, 72] = display.clear.moveTo size 0 0 := by
  simp [Display.feed, Display.execute, Display.clear, Display.moveTo, ground]

/-- A byte that is no escape, and no zero that the terminal passes over, is shown. -/
theorem feed_character (ground : display.mode = .ground) {ch : UInt8} (plain : ch ≠ 27)
    (shown : ch = 0 → size.ignoresNul = false) : display.feed size ch = display.print size ch := by
  simp only [Display.feed, ground, if_neg plain]
  rw [if_neg]
  rintro ⟨zero, ignored⟩
  rw [shown zero] at ignored
  exact Bool.false_ne_true ignored

end Sequences

end Ansi

end Ethersex.Library
