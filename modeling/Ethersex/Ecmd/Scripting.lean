import Mathlib
import Ethersex.Library.Lines
import Ethersex.Ecmd.Segments

/-!
# Lines of a script

A script is a file that stays open while its lines are executed.  Every line is looked for in a piece of the
file as long as the buffer, from where the last one ended, and the end of a line that is longer than the piece is
taken to be the character behind it.  `goto` reads lines until it has counted enough of them or has read an empty
one.
-/

namespace Ethersex.Ecmd.Scripting

open Library

/-- The end of a line. -/
def newline : UInt8 := 0x0a

/-- An open file; it ends early enough for a `vfs_size_t` to point behind its end. -/
structure Handle where
  content : List UInt8
  pos : Nat
  sized : content.length + 2 < 2 ^ 32

/-- `vfs_fseek` with `SEEK_SET`, which does not go behind the end of the file. -/
def Handle.fseek (handle : Handle) (offset : Nat) : Handle where
  content := handle.content
  pos := if offset ≤ handle.content.length then offset else handle.pos
  sized := handle.sized

/-- What `vfs_read` reads. -/
def Handle.chunk (handle : Handle) (length : Nat) : List UInt8 := (handle.content.drop handle.pos).take length

/-- The file after `vfs_read`. -/
def Handle.read (handle : Handle) (length : Nat) : Handle where
  content := handle.content
  pos := handle.pos + (handle.chunk length).length
  sized := handle.sized

/-- `current_script`, with an open file. -/
structure Script where
  handle : Handle
  linenumber : Nat
  filepointer : Nat

/-- `vfs_fgets`: the characters in front of the first end of a line, whose number it returns. -/
def vfsFgets (handle : Handle) (pos : Nat) : List UInt8 × Handle :=
  (((handle.fseek pos).chunk (ecmdInputbufLength - 1)).takeWhile (· ≠ newline),
    (handle.fseek pos).read (ecmdInputbufLength - 1))

/-- `readline`: the characters in the buffer, whose number it returns. -/
def readline (script : Script) : List UInt8 × Script :=
  if ecmdInputbufLength ≤ (vfsFgets script.handle script.filepointer).1.length then
    ([], { script with handle := (vfsFgets script.handle script.filepointer).2 })
  else
    ((vfsFgets script.handle script.filepointer).1,
      { handle := (vfsFgets script.handle script.filepointer).2
        linenumber := (script.linenumber + 1) % 2 ^ 16
        filepointer :=
          (script.filepointer + ((vfsFgets script.handle script.filepointer).1.length + 1)) % 2 ^ 32 })

/-- The calls of `readline` from a position on, while it is inside the file; nothing, when there are more of them
than `fuel`. -/
def readAll : (fuel : Nat) → Script → Option (List (List UInt8))
  | 0, _ => none
  | fuel + 1, script =>
      if script.filepointer < script.handle.content.length then
        (readAll fuel (readline script).2).map ((readline script).1 :: ·)
      else some []

/-- The loop of `parse_cmd_goto`; nothing, when it takes more rounds than `fuel`. -/
def seekLine (maxlines gotoline : Nat) : (fuel : Nat) → Script → Option Script
  | 0, _ => none
  | fuel + 1, script =>
      if script.linenumber ≠ gotoline ∧ script.linenumber < maxlines then
        if (readline script).1.length = 0 then some (readline script).2
        else seekLine maxlines gotoline fuel (readline script).2
      else some script

/-- The start of a script. -/
def Script.rewind (script : Script) : Script where
  handle := script.handle.fseek 0
  linenumber := 0
  filepointer := 0

/-- `parse_cmd_goto` for a number, of which `gotoline` keeps eight bits; `maxlines` is `ECMD_SCRIPT_MAXLINES`. -/
def parseCmdGoto (maxlines number : Nat) (script : Script) : Option Script :=
  seekLine maxlines (number % 256) 256
    (if number % 256 < script.linenumber then script.rewind else script)

/-! ## One call -/

section Readline

variable {script : Script}

/-- What a call reads: the line from here on, as far as the buffer holds it. -/
def Script.piece (script : Script) : List UInt8 :=
  ((script.handle.content.drop script.filepointer).takeWhile (· ≠ newline)).take (ecmdInputbufLength - 1)

/-- A script whose next line is in the file, or at its end. -/
structure Script.Inside (script : Script) : Prop where
  placed : script.filepointer ≤ script.handle.content.length + 1
  stopped : script.handle.content.length < script.filepointer → script.handle.pos = script.handle.content.length

theorem vfsFgets_piece (inside : script.Inside) :
    (vfsFgets script.handle script.filepointer).1 = script.piece := by
  rw [Script.piece, vfsFgets, Handle.chunk, List.take_takeWhile, Handle.fseek]
  split
  · rfl
  · rename_i behind
    have placed := inside.placed
    have stopped := inside.stopped (by omega)
    rw [stopped, List.drop_length, List.drop_of_length_le (by omega)]

theorem length_piece_lt (script : Script) : script.piece.length < ecmdInputbufLength := by
  rw [Script.piece, List.length_take, ecmdInputbufLength]
  omega

theorem length_piece_le (script : Script) :
    script.piece.length ≤ script.handle.content.length - script.filepointer := by
  have line := List.takeWhile_prefix (l := script.handle.content.drop script.filepointer) (· ≠ newline)
  have bound := line.length_le
  rw [List.length_drop] at bound
  rw [Script.piece, List.length_take]
  omega

theorem readline_eq (inside : script.Inside) :
    readline script = (script.piece,
      { handle := (vfsFgets script.handle script.filepointer).2
        linenumber := (script.linenumber + 1) % 2 ^ 16
        filepointer := script.filepointer + (script.piece.length + 1) }) := by
  have small := length_piece_lt script
  have part := length_piece_le script
  have sized := script.handle.sized
  have placed := inside.placed
  have noWrap : (script.filepointer + (script.piece.length + 1)) % 2 ^ 32 =
      script.filepointer + (script.piece.length + 1) := Nat.mod_eq_of_lt (by omega)
  rw [readline, vfsFgets_piece inside, if_neg (by omega), noWrap]

@[simp] theorem readline_content (script : Script) :
    (readline script).2.handle.content = script.handle.content := by
  rw [readline]
  split <;> rfl

/-- A call inside the file leaves the script inside the file or at its end. -/
theorem Script.Inside.readline (inside : script.Inside)
    (more : script.filepointer ≤ script.handle.content.length) : (readline script).2.Inside := by
  have part := length_piece_le script
  constructor
  · rw [readline_content, readline_eq inside]
    simp only
    omega
  · intro behind
    rw [readline_content] at behind ⊢
    rw [readline_eq inside] at behind ⊢
    simp only [vfsFgets, Handle.read, Handle.fseek, Handle.chunk, if_pos more, List.length_take,
      List.length_drop] at behind ⊢
    have piece := length_piece_lt script
    have small : script.piece.length ≤ ecmdInputbufLength - 1 := by omega
    omega

end Readline

/-! ## All calls -/

/-- The text is delivered in order and whole: every line that fits the buffer in one piece, a longer one in
consecutive pieces. -/
def Delivered (content : List UInt8) (pieces : List (List UInt8)) : Prop :=
  ∃ groups : List (List (List UInt8)),
    pieces = groups.flatten ∧ groups.map List.flatten = linesOf newline content ∧
      ∀ group ∈ groups, group.flatten.length < ecmdInputbufLength → group = [group.flatten]

/-- No line is longer than the buffer, which has room for a terminator. -/
def ShortLines (content : List UInt8) : Prop :=
  ∀ line ∈ linesOf newline content, line.length < ecmdInputbufLength

section ReadAll

variable {script : Script} {fuel : Nat}

/-- The text from the next line on. -/
def Script.text (script : Script) : List UInt8 := script.handle.content.drop script.filepointer

/-- The text behind a piece and the character that is taken to be its end. -/
theorem text_readline (inside : script.Inside) :
    (readline script).2.text = script.text.drop (script.piece.length + 1) := by
  rw [Script.text, readline_content, readline_eq inside, Script.text, List.drop_drop]

theorem text_ne_nil (more : script.filepointer < script.handle.content.length) : script.text ≠ [] := by
  rw [Script.text, ne_eq, List.drop_eq_nil_iff, not_le]
  exact more

theorem piece_eq_line (short : (script.text.takeWhile (· ≠ newline)).length < ecmdInputbufLength) :
    script.piece = script.text.takeWhile (· ≠ newline) :=
  List.take_of_length_le (Nat.le_sub_one_of_lt short)

/-- Short lines are read one by one. -/
theorem readAll_short (fuel : Nat) (inside : script.Inside) (short : ShortLines script.text)
    (enough : script.handle.content.length + 1 < fuel + script.filepointer) :
    readAll fuel script = some (linesOf newline script.text) := by
  induction fuel generalizing script with
  | zero =>
      have placed := inside.placed
      omega
  | succ fuel ih =>
      rw [readAll]
      split
      · rename_i more
        have split_ := linesOf_cons newline (text_ne_nil more)
        rw [ShortLines, split_, List.forall_mem_cons] at short
        have line := piece_eq_line short.1
        have next := inside.readline (Nat.le_of_lt more)
        have rest := text_readline inside
        have shortRest : ShortLines (readline script).2.text := by
          rw [rest, line]
          exact short.2
        have moved : (readline script).2.filepointer = script.filepointer + (script.piece.length + 1) := by
          rw [readline_eq inside]
        rw [ih next shortRest (by rw [readline_content, moved]; omega), rest, line, split_, readline_eq inside,
          line]
        rfl
      · rename_i ended
        have empty : script.text = [] := List.drop_of_length_le (Nat.le_of_not_lt ended)
        rw [empty]
        rfl

/-- A line that is too long has a piece as long as the buffer, and a character behind it that is lost. -/
theorem piece_of_long (long : ecmdInputbufLength ≤ (script.text.takeWhile (· ≠ newline)).length) :
    script.piece.length + 1 = ecmdInputbufLength ∧
      (script.text.filter (· ≠ newline)).length =
        ecmdInputbufLength + ((script.text.drop ecmdInputbufLength).filter (· ≠ newline)).length := by
  have size : script.piece.length = ecmdInputbufLength - 1 := by
    rw [Script.piece, List.length_take]
    exact Nat.min_eq_left (Nat.le_trans (Nat.sub_le _ _) long)
  refine ⟨by rw [size, ecmdInputbufLength], ?_⟩
  have unmarked : (script.text.take ecmdInputbufLength).takeWhile (· ≠ newline) =
      script.text.take ecmdInputbufLength := by
    have part := List.takeWhile_prefix (l := script.text.take ecmdInputbufLength) (· ≠ newline)
    apply part.eq_of_length_le
    rw [← List.take_takeWhile, List.length_take, List.length_take, Nat.min_eq_left long]
    exact Nat.min_le_left _ _
  have length : (script.text.take ecmdInputbufLength).length = ecmdInputbufLength := by
    rw [List.length_take, Nat.min_eq_left (long.trans (List.takeWhile_prefix _).length_le)]
  have kept := List.filter_eq_self.mpr (List.takeWhile_eq_self_iff.mp unmarked)
  calc (script.text.filter (· ≠ newline)).length
      = ((script.text.take ecmdInputbufLength ++ script.text.drop ecmdInputbufLength).filter
          (· ≠ newline)).length := by rw [List.take_append_drop]
    _ = ecmdInputbufLength + ((script.text.drop ecmdInputbufLength).filter (· ≠ newline)).length := by
        rw [List.filter_append, List.length_append, kept, length]

/-- The calls deliver at most the characters of the text, and fewer if a line is too long. -/
theorem readAll_loses (inside : script.Inside) {pieces : List (List UInt8)}
    (ended : readAll fuel script = some pieces) :
    pieces.flatten.length ≤ (script.text.filter (· ≠ newline)).length ∧
      (¬ShortLines script.text → pieces.flatten.length < (script.text.filter (· ≠ newline)).length) := by
  induction fuel generalizing script pieces with
  | zero => cases ended
  | succ fuel ih =>
      rw [readAll] at ended
      split at ended
      · rename_i more
        obtain ⟨others, later, rfl⟩ := Option.map_eq_some_iff.mp ended
        have next := inside.readline (Nat.le_of_lt more)
        obtain ⟨bound, loses⟩ := ih next later
        have first : (readline script).1 = script.piece := by rw [readline_eq inside]
        have rest := text_readline inside
        rw [rest] at bound loses
        rw [List.flatten_cons, List.length_append, first]
        rcases Nat.lt_or_ge (script.text.takeWhile (· ≠ newline)).length ecmdInputbufLength with fits | long
        · have line := piece_eq_line fits
          have split_ := linesOf_cons newline (text_ne_nil more)
          have whole := flatten_linesOf newline script.text
          rw [split_, List.flatten_cons, flatten_linesOf, ← line] at whole
          have sizes := congrArg List.length whole
          rw [List.length_append] at sizes
          refine ⟨by omega, fun notShort => ?_⟩
          have restLong : ¬ShortLines (script.text.drop (script.piece.length + 1)) := by
            intro shortRest
            apply notShort
            rw [ShortLines, split_, List.forall_mem_cons]
            rw [← line]
            exact ⟨length_piece_lt script, shortRest⟩
          have := loses restLong
          omega
        · obtain ⟨size, count⟩ := piece_of_long long
          rw [size] at bound
          omega
      · cases ended
        rename_i outside
        have empty : script.text = [] := List.drop_of_length_le (Nat.le_of_not_lt outside)
        rw [empty]
        refine ⟨Nat.zero_le _, fun notShort => absurd ?_ notShort⟩
        intro line member
        cases member

/-- The calls from the start of a file deliver it exactly if no line is longer than the buffer. -/
theorem readAll_delivers_iff (inside : script.Inside) (start : script.filepointer = 0) :
    (∃ fuel pieces, readAll fuel script = some pieces ∧ Delivered script.handle.content pieces) ↔
      ShortLines script.handle.content := by
  have text : script.text = script.handle.content := by rw [Script.text, start, List.drop_zero]
  constructor
  · rintro ⟨fuel, pieces, ended, groups, rfl, lines, -⟩
    by_contra long
    rw [← text] at long
    have lost := (readAll_loses inside ended).2 long
    have whole : groups.flatten.flatten = script.text.filter (· ≠ newline) := by
      rw [← flatten_linesOf newline, text, ← lines, List.flatten_flatten]
    rw [whole] at lost
    exact absurd lost (Nat.lt_irrefl _)
  · intro short
    rw [← text] at short
    refine ⟨_, _, readAll_short (script.handle.content.length + 2) inside short (by omega), ?_⟩
    refine ⟨(linesOf newline script.text).map ([·]), ?_, ?_, ?_⟩
    · rw [← List.flatMap_def, List.flatMap_singleton']
    · simp [text, Function.comp_def]
    · intro group member _
      obtain ⟨line, -, rfl⟩ := List.mem_map.mp member
      simp

end ReadAll

/-! ## Going to a line -/

/-- A script in front of a line, or at its end; the line number has sixteen bits. -/
structure Script.At (script : Script) (index : Nat) : Prop where
  counted : script.linenumber = index % 2 ^ 16
  placed : script.filepointer = lineStart (linesOf newline script.handle.content) index
  inside : script.Inside

/-- A script in front of a line, which the next call reads. -/
structure Script.Lands (script : Script) (content : List UInt8) (index : Nat) : Prop where
  counted : script.linenumber = index
  placed : script.filepointer = lineStart (linesOf newline content) index
  reads : some (readline script).1 = (linesOf newline content)[index]?

/-- From one line, the loop of `goto` gets to another: there is nothing to do, or the limit is not exceeded and no
line before the last one that is passed over is empty. -/
def Reaches (maxlines : Nat) (lines : List (List UInt8)) (start index : Nat) : Prop :=
  start = index ∨ index ≤ maxlines ∧ ∀ i, start ≤ i → i + 1 < index → lines[i]? ≠ some []

section Goto

variable {script : Script} {maxlines gotoline fuel index : Nat}

theorem Script.At.start (script : Script) : script.rewind.At 0 where
  counted := rfl
  placed := rfl
  inside := ⟨Nat.zero_le _, fun behind => absurd behind (Nat.not_lt_zero _)⟩

/-- The next line is read whole, if it fits the buffer. -/
theorem Script.At.readline (here : script.At index) (short : ShortLines script.handle.content)
    (more : index < (linesOf newline script.handle.content).length) :
    (readline script).1 = (linesOf newline script.handle.content)[index] ∧
      (readline script).2.At (index + 1) := by
  have before := lineStart_lt more
  have line : script.text.takeWhile (· ≠ newline) = (linesOf newline script.handle.content)[index] := by
    rw [getElem_linesOf more, Script.text, here.placed]
  have fits := short _ (List.getElem_mem more)
  have piece : script.piece = (linesOf newline script.handle.content)[index] := by
    rw [← line]
    exact piece_eq_line (by rw [line]; exact fits)
  refine ⟨by rw [readline_eq here.inside, piece], ?_, ?_, ?_⟩
  · rw [readline_eq here.inside]
    simp only [here.counted]
    omega
  · rw [readline_content, readline_eq here.inside, lineStart_succ more, piece]
    simp only [here.placed]
    omega
  · exact here.inside.readline (by rw [here.placed]; omega)

/-- One line that is passed over. -/
theorem reaches_succ (maxlines : Nat) {lines : List (List UInt8)} {start goal : Nat} (inside : start < lines.length)
    (before : start < goal) (allowed : start < maxlines) (filled : lines[start] ≠ []) :
    Reaches maxlines lines (start + 1) goal ↔ Reaches maxlines lines start goal := by
  constructor
  · rintro (same | ⟨limit, others⟩)
    · exact .inr ⟨by omega, fun i _ within => absurd within (by omega)⟩
    · refine .inr ⟨limit, fun i behind within => ?_⟩
      rcases Nat.lt_or_eq_of_le behind with later | rfl
      · exact others i later within
      · rw [List.getElem?_eq_getElem inside]
        exact fun absent => filled (Option.some.inj absent)
  · rintro (same | ⟨limit, others⟩)
    · omega
    · exact .inr ⟨limit, fun i behind within => others i (by omega) within⟩

/-- The loop in front of a line that exists, from a line that is not behind it. -/
theorem seekLine_at (maxlines : Nat) (here : script.At index) (short : ShortLines script.handle.content)
    (goal : gotoline < (linesOf newline script.handle.content).length) (small : gotoline < 2 ^ 16)
    (before : index ≤ gotoline) (enough : gotoline < fuel + index) :
    ∃ after, seekLine maxlines gotoline fuel script = some after ∧
      after.handle.content = script.handle.content ∧
        (Reaches maxlines (linesOf newline script.handle.content) index gotoline ∧ after.At gotoline ∨
          ¬Reaches maxlines (linesOf newline script.handle.content) index gotoline ∧
            after.linenumber < gotoline) := by
  induction fuel generalizing script index with
  | zero => omega
  | succ fuel ih =>
      have counted : script.linenumber = index := by
        rw [here.counted]
        omega
      rw [seekLine, counted]
      rcases Nat.lt_or_eq_of_le before with earlier | rfl
      · by_cases allowed : index < maxlines
        · rw [if_pos ⟨by omega, allowed⟩]
          obtain ⟨line, next⟩ := here.readline short (by omega)
          by_cases empty : (readline script).1.length = 0
          · -- The empty line has been counted before the loop is left.
            rw [if_pos empty]
            refine ⟨_, rfl, readline_content script, ?_⟩
            by_cases last : index + 1 = gotoline
            · rw [last] at next
              exact .inl ⟨.inr ⟨by omega, fun i _ within => absurd within (by omega)⟩, next⟩
            · refine .inr ⟨?_, ?_⟩
              · rintro (same | ⟨-, filled⟩)
                · omega
                · rw [line] at empty
                  apply filled index (Nat.le_refl _) (by omega)
                  rw [List.getElem?_eq_getElem (by omega), List.length_eq_zero_iff.mp empty]
              · rw [next.counted]
                omega
          · rw [if_neg empty]
            have content := readline_content script
            rw [← content] at goal short
            obtain ⟨after, found, same, outcome⟩ := ih next short goal (by omega) (by omega)
            rw [content] at same outcome
            have filled : (linesOf newline script.handle.content)[index] ≠ [] := by
              intro absent
              rw [line, absent] at empty
              exact empty rfl
            have step := reaches_succ maxlines (by omega) earlier allowed filled
            rw [step] at outcome
            exact ⟨after, found, same, outcome⟩
        · rw [if_neg (by omega)]
          refine ⟨script, rfl, rfl, .inr ⟨?_, by omega⟩⟩
          rintro (same | ⟨limit, -⟩) <;> omega
      · rw [if_neg (by omega)]
        exact ⟨script, rfl, rfl, .inl ⟨.inl rfl, here⟩⟩

/-- The loop does not count beyond its goal. -/
theorem linenumber_seekLine_le {after : Script} (small : gotoline < 2 ^ 16)
    (found : seekLine maxlines gotoline fuel script = some after) (before : script.linenumber ≤ gotoline) :
    after.linenumber ≤ gotoline := by
  induction fuel generalizing script with
  | zero => cases found
  | succ fuel ih =>
      have step : script.linenumber ≠ gotoline → (readline script).2.linenumber ≤ gotoline := by
        intro other
        rw [readline]
        split
        · exact before
        · simp only
          omega
      rw [seekLine] at found
      split at found
      · rename_i more
        split at found
        · cases found
          exact step more.1
        · exact ih found (step more.1)
      · cases found
        exact before

/-- The loop does not go back. -/
theorem filepointer_le_seekLine {after : Script} (inside : script.Inside)
    (found : seekLine maxlines gotoline fuel script = some after) : script.filepointer ≤ after.filepointer := by
  induction fuel generalizing script with
  | zero => cases found
  | succ fuel ih =>
      have moved : script.filepointer + (script.piece.length + 1) = (readline script).2.filepointer := by
        rw [readline_eq inside]
      rw [seekLine] at found
      split at found
      · split at found
        · cases found
          omega
        · rename_i nonempty
          have part := length_piece_le script
          have piece : (readline script).1 = script.piece := by rw [readline_eq inside]
          rw [piece] at nonempty
          have := ih (inside.readline (by omega)) found
          omega
      · cases found
        exact Nat.le_refl _

theorem Script.At.lands (here : script.At index) (short : ShortLines script.handle.content)
    (more : index < (linesOf newline script.handle.content).length) (small : index < 2 ^ 16) :
    script.Lands script.handle.content index where
  counted := by
    rw [here.counted]
    omega
  placed := here.placed
  reads := by rw [(here.readline short more).1, List.getElem?_eq_getElem more]

/-- The loop gets in front of its line exactly where it can be reached. -/
theorem seekLine_lands_iff (maxlines fuel : Nat) (here : script.At index) (short : ShortLines script.handle.content)
    (goal : gotoline < (linesOf newline script.handle.content).length) (small : gotoline < 2 ^ 16)
    (before : index ≤ gotoline) (enough : gotoline < fuel + index) :
    (∃ after, seekLine maxlines gotoline fuel script = some after ∧ after.Lands script.handle.content gotoline) ↔
      Reaches maxlines (linesOf newline script.handle.content) index gotoline := by
  obtain ⟨after, found, same, outcome⟩ := seekLine_at maxlines here short goal small before enough
  rw [found]
  rcases outcome with ⟨reaches, there⟩ | ⟨stuck, earlier⟩
  · have lands : after.Lands after.handle.content gotoline :=
      there.lands (same ▸ short) (by rw [same]; exact goal) small
    rw [same] at lands
    exact iff_of_true ⟨after, rfl, lands⟩ reaches
  · refine iff_of_false ?_ stuck
    rintro ⟨other, found, lands⟩
    have counted := lands.counted
    rw [← Option.some.inj found] at counted
    omega

/-- `goto` gets to the numbers that eight bits hold, from the start where the number is below the one of the
current line, else from the current line, unless an empty line or the limit is in the way. -/
theorem parseCmdGoto_lands_iff {number : Nat} (here : script.At index) (short : ShortLines script.handle.content)
    (inside : index ≤ (linesOf newline script.handle.content).length)
    (goal : number < (linesOf newline script.handle.content).length) :
    (∃ after, parseCmdGoto maxlines number script = some after ∧ after.Lands script.handle.content number) ↔
      number < 256 ∧
        (number < index % 2 ^ 16 ∧ Reaches maxlines (linesOf newline script.handle.content) 0 number ∨
          index ≤ number ∧ Reaches maxlines (linesOf newline script.handle.content) index number) := by
  rcases Nat.lt_or_ge number 256 with small | large
  · have byte : number % 256 = number := Nat.mod_eq_of_lt small
    rw [parseCmdGoto, byte, here.counted]
    by_cases back : number < index % 2 ^ 16
    · rw [if_pos back]
      have fromStart := seekLine_lands_iff maxlines 256 (Script.At.start script) short
        goal (by omega) (Nat.zero_le _) (by omega)
      have behind : ¬index ≤ number := by omega
      refine fromStart.trans ⟨fun reaches => ⟨small, .inl ⟨back, reaches⟩⟩, ?_⟩
      rintro ⟨-, ⟨-, reaches⟩ | ⟨before, -⟩⟩
      · exact reaches
      · exact absurd before behind
    · rw [if_neg back]
      by_cases before : index ≤ number
      · refine (seekLine_lands_iff maxlines 256 here short goal (by omega) before (by omega)).trans
          ⟨fun reaches => ⟨small, .inr ⟨before, reaches⟩⟩, ?_⟩
        rintro ⟨-, ⟨behind, -⟩ | ⟨-, reaches⟩⟩
        · exact absurd behind back
        · exact reaches
      · -- The line number has wrapped around, and the loop goes on behind the line.
        refine iff_of_false ?_ ?_
        · rintro ⟨after, found, lands⟩
          have forward := filepointer_le_seekLine here.inside found
          have apart := lineStart_lt_lineStart (Nat.lt_of_not_le before) inside
          rw [here.placed, lands.placed] at forward
          omega
        · rintro ⟨-, ⟨behind, -⟩ | ⟨behind, -⟩⟩
          · exact back behind
          · exact before behind
  · refine iff_of_false ?_ fun condition => absurd condition.1 (by omega)
    rintro ⟨after, found, lands⟩
    have counted := lands.counted
    have wrapped : number % 256 < 256 := Nat.mod_lt _ (by omega)
    rw [parseCmdGoto] at found
    have bound : after.linenumber ≤ number % 256 := by
      apply linenumber_seekLine_le (by omega) found
      split
      · exact Nat.zero_le _
      · omega
    omega

/-- Scripts are read and gone about in as they should be in exactly these cases: all lines fit the buffer, and the
number has eight bits and can be reached. -/
theorem script_lines_iff (file : Handle) :
    ((∃ fuel pieces, readAll fuel ⟨file, 0, 0⟩ = some pieces ∧ Delivered file.content pieces) ↔
      ShortLines file.content) ∧
    (ShortLines file.content → ∀ (maxlines index number : Nat) (script : Script),
      script.handle.content = file.content → script.At index →
        index ≤ (linesOf newline file.content).length → number < (linesOf newline file.content).length →
          ((∃ after, parseCmdGoto maxlines number script = some after ∧ after.Lands file.content number) ↔
            number < 256 ∧
              (number < index % 2 ^ 16 ∧ Reaches maxlines (linesOf newline file.content) 0 number ∨
                index ≤ number ∧ Reaches maxlines (linesOf newline file.content) index number))) := by
  constructor
  · exact readAll_delivers_iff ⟨Nat.zero_le _, fun behind => absurd behind (Nat.not_lt_zero _)⟩ rfl
  · intro short maxlines index number script same here inside goal
    rw [← same] at short inside goal ⊢
    exact parseCmdGoto_lands_iff here short inside goal

end Goto

/-- The lines `a` and `b`. -/
def twoLines : Handle where
  content := [97, 10, 98]
  pos := 0
  sized := by simp

theorem script_lines_two :
    (∃ fuel pieces, readAll fuel ⟨twoLines, 0, 0⟩ = some pieces ∧ Delivered twoLines.content pieces) ∧
      ∃ after, parseCmdGoto 128 1 ⟨twoLines, 0, 0⟩ = some after ∧ after.Lands twoLines.content 1 := by
  have short : ShortLines twoLines.content := by
    simp [ShortLines, twoLines, linesOf, newline, ecmdInputbufLength]
  have start : Script.At ⟨twoLines, 0, 0⟩ 0 := ⟨rfl, rfl, Nat.zero_le _, fun behind => absurd behind (by decide)⟩
  obtain ⟨reads, goes⟩ := script_lines_iff twoLines
  refine ⟨reads.mpr short, (goes short 128 0 1 ⟨twoLines, 0, 0⟩ rfl start (by decide) (by decide)).mpr ?_⟩
  exact ⟨by decide, .inr ⟨by decide, .inr ⟨by decide, fun i _ within => absurd within (by omega)⟩⟩⟩

/-- Fifty letters `a` and a `b`, in one line. -/
def longLine : Handle where
  content := List.replicate 50 97 ++ [98]
  pos := 0
  sized := by simp

/-- Two empty lines in front of a third one. -/
def emptyLines : Handle where
  content := [10, 10, 99]
  pos := 0
  sized := by simp

/-- The last `a` of the long line is lost, and behind an empty line, `goto` stops. -/
theorem script_lines_fail :
    readAll 3 ⟨longLine, 0, 0⟩ = some [List.replicate 49 97, [98]] ∧
      (¬∃ fuel pieces, readAll fuel ⟨longLine, 0, 0⟩ = some pieces ∧ Delivered longLine.content pieces) ∧
      ¬∃ after, parseCmdGoto 128 2 ⟨emptyLines, 0, 0⟩ = some after ∧ after.Lands emptyLines.content 2 := by
  refine ⟨rfl, ?_, ?_⟩
  · intro delivered
    have inside : Script.Inside ⟨longLine, 0, 0⟩ := ⟨Nat.zero_le _, fun behind => absurd behind (by decide)⟩
    have short := (readAll_delivers_iff inside rfl).mp delivered
    exact absurd (short (List.replicate 50 97 ++ [98]) (by decide)) (by decide)
  · rintro ⟨after, found, lands⟩
    have counted := lands.counted
    have stopped : (parseCmdGoto 128 2 ⟨emptyLines, 0, 0⟩).map Script.linenumber = some 1 := rfl
    rw [found, Option.map_some, counted] at stopped
    exact absurd stopped (by decide)

end Ethersex.Ecmd.Scripting
