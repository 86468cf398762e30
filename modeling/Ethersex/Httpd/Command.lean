import Mathlib
import Ethersex.Library.CString
import Ethersex.Ecmd.Segments

/-!
# Commands in a request

`httpd_handle_ecmd_setup` decodes the command behind `ecmd?` into the buffer of the connection.  It hands the
two characters behind a percent sign to `strtoul` by cutting the text behind them for the time of the call, and
passes over them whether they are there or not.
-/

namespace Ethersex.Httpd.Command

open Library Ecmd

/-! ## The digits of a text -/

/-- `isspace`. -/
def isspace (ch : UInt8) : Bool := ch == 32 || (9 ≤ ch && ch ≤ 13)

/-- `isxdigit`. -/
def isxdigit (ch : UInt8) : Bool := (48 ≤ ch && ch ≤ 57) || (65 ≤ ch && ch ≤ 70) || (97 ≤ ch && ch ≤ 102)

/-- The value of a hexadecimal digit. -/
def digitValue (ch : UInt8) : Nat :=
  if ch ≤ 57 then ch.toNat - 48 else if ch ≤ 70 then ch.toNat - 55 else ch.toNat - 87

/-- What is left of a number behind its sign. -/
def afterSign (text : List UInt8) : List UInt8 :=
  if text.head? = some 43 ∨ text.head? = some 45 then text.tail else text

/-- What is left of a number behind `0x`. -/
def afterPrefix (text : List UInt8) : List UInt8 :=
  if text[0]? = some 48 ∧ (text[1]? = some 120 ∨ text[1]? = some 88) then text.drop 2 else text

/-- `strtoul` with base 16. -/
def strtoul (text : List UInt8) : UInt32 :=
  let number := text.dropWhile isspace
  let digits := (afterPrefix (afterSign number)).takeWhile isxdigit
  let value := min (digits.foldl (fun value ch => 16 * value + digitValue ch) 0) (2 ^ 32 - 1)
  if number.head? = some 45 then -UInt32.ofNat value else UInt32.ofNat value

theorem digit_range {ch : UInt8} (digit : isxdigit ch) :
    (48 ≤ ch.toNat ∧ ch.toNat ≤ 57) ∨ (65 ≤ ch.toNat ∧ ch.toNat ≤ 70) ∨ (97 ≤ ch.toNat ∧ ch.toNat ≤ 102) := by
  simp [isxdigit, UInt8.le_iff_toNat_le] at digit
  omega

theorem digitValue_lt {ch : UInt8} (digit : isxdigit ch) : digitValue ch < 16 := by
  have range := digit_range digit
  rw [digitValue]
  simp only [UInt8.le_iff_toNat_le]
  split_ifs <;> simp_all <;> omega

theorem strtoul_digits {high low : UInt8} (highDigit : isxdigit high) (lowDigit : isxdigit low) :
    strtoul [high, low] = UInt32.ofNat (16 * digitValue high + digitValue low) := by
  have highRange := digit_range highDigit
  have lowRange := digit_range lowDigit
  have whole : [high, low].dropWhile isspace = [high, low] := by
    have noSpace : isspace high = false := by
      simp [isspace, UInt8.le_iff_toNat_le, ← UInt8.toNat_inj]
      omega
    simp [noSpace]
  have noMinus : high ≠ 45 := by
    simp [← UInt8.toNat_inj]
    omega
  have signless : afterSign [high, low] = [high, low] := by
    have noPlus : high ≠ 43 := by
      simp [← UInt8.toNat_inj]
      omega
    simp [afterSign, noPlus, noMinus]
  have markless : afterPrefix [high, low] = [high, low] := by
    have noMark : low ≠ 120 ∧ low ≠ 88 := by
      simp [← UInt8.toNat_inj]
      omega
    simp [afterPrefix, noMark]
  have digits : [high, low].takeWhile isxdigit = [high, low] := by simp [highDigit, lowDigit]
  have value : min (16 * digitValue high + digitValue low) (2 ^ 32 - 1) =
      16 * digitValue high + digitValue low := by
    have := digitValue_lt highDigit
    have := digitValue_lt lowDigit
    omega
  simp only [strtoul, whole, signless, markless, digits, List.foldl_cons, List.foldl_nil, Nat.mul_zero,
    Nat.zero_add, value]
  simp [noMinus]

/-! ## The decoder -/

/-- What has happened to the buffers: the bytes that are stored from the start of the buffer of the
connection, the places of the memory that were read or written, and whether the handler is installed. -/
structure Setup where
  input : List UInt8
  touched : List Nat
  installed : Bool

/-- The text that `strtoul` finds behind a percent sign, with a zero put behind two characters. -/
def behindPercent (memory : Bytes) (encodedCmd : Nat) : List UInt8 :=
  fieldText 3 fun k => Function.update memory (encodedCmd + 3) 0 (encodedCmd + 1 + k)

/-- One more byte stored, and the places touched for it. -/
def Setup.cons (byte : UInt8) (touched : List Nat) (rest : Setup) : Setup where
  input := byte :: rest.input
  touched := touched ++ rest.touched
  installed := rest.installed

/-- The loop of the decoder, with `maxlen` bytes of the buffer left.  The byte that is cut off the text for
`strtoul` is put back at once. -/
def decodeLoop (memory : Bytes) : (maxlen encodedCmd : Nat) → Setup
  | 0, encodedCmd => ⟨[], [encodedCmd], false⟩
  | maxlen + 1, encodedCmd =>
      if memory encodedCmd = 0 then ⟨[0], [encodedCmd], true⟩
      else if memory encodedCmd = 43 then .cons 32 [encodedCmd] (decodeLoop memory maxlen (encodedCmd + 1))
      else if memory encodedCmd = 37 then
        let text := behindPercent memory encodedCmd
        .cons (strtoul text).toUInt8
          (encodedCmd :: (encodedCmd + 3) :: List.range' (encodedCmd + 1) (text.length + 1))
          (decodeLoop memory maxlen (encodedCmd + 3))
      else .cons (memory encodedCmd) [encodedCmd] (decodeLoop memory maxlen (encodedCmd + 1))

/-- `httpd_handle_ecmd_setup`. -/
def httpdHandleEcmdSetup (memory : Bytes) (encodedCmd : Nat) : Setup :=
  decodeLoop memory ecmdInputbufLength encodedCmd

/-! ## What a command means -/

/-- A command with its percent signs resolved.  For a percent sign without two digits behind it, only that it
gives one byte matters. -/
def urlDecode : List UInt8 → List UInt8
  | [] => []
  | ch :: rest =>
      if ch = 37 then
        match rest with
        | high :: low :: rest => UInt8.ofNat (16 * digitValue high + digitValue low) :: urlDecode rest
        | _ => [0]
      else (if ch = 43 then 32 else ch) :: urlDecode rest

theorem urlDecode_percent (high low : UInt8) (rest : List UInt8) :
    urlDecode (37 :: high :: low :: rest) =
      UInt8.ofNat (16 * digitValue high + digitValue low) :: urlDecode rest := by
  rw [urlDecode.eq_def]
  rfl

theorem urlDecode_char {ch : UInt8} (other : ch ≠ 37) (rest : List UInt8) :
    urlDecode (ch :: rest) = (if ch = 43 then 32 else ch) :: urlDecode rest := by
  rw [urlDecode.eq_def]
  exact if_neg other

/-- Every percent sign is followed by two hexadecimal digits. -/
def WellFormed (text : List UInt8) : Prop :=
  ∀ before behind, text = before ++ 37 :: behind →
    ∃ high low rest, behind = high :: low :: rest ∧ isxdigit high ∧ isxdigit low

/-- Every percent sign among the first characters is followed by two more, where such a group counts as
one. -/
def PercentsFollowed : Nat → List UInt8 → Prop
  | 0, _ => True
  | _ + 1, [] => True
  | count + 1, ch :: rest =>
      if ch = 37 then 2 ≤ rest.length ∧ PercentsFollowed count (rest.drop 2) else PercentsFollowed count rest

section Decoding

variable {memory : Bytes} {start count : Nat} {ch : UInt8} {text : List UInt8}

/-- What `strtoul` is given behind a percent sign that two characters follow. -/
theorem behindPercent_pair {first second : UInt8} (at_ : TextAt memory start (ch :: first :: second :: text)) :
    behindPercent memory start = [first, second] := by
  have firstChar := at_.tail.head
  have secondChar := at_.tail.tail.head
  have firstSet : first ≠ 0 := at_.clean first (by simp)
  have secondSet : second ≠ 0 := at_.clean second (by simp)
  simp [behindPercent, fieldText, firstChar, firstSet, secondChar, secondSet]

theorem length_behindPercent (memory : Bytes) (start : Nat) : (behindPercent memory start).length ≤ 2 := by
  simp only [behindPercent, fieldText]
  split_ifs <;> simp_all

/-- Where a percent sign is not followed by two characters, the place behind them is behind the text. -/
theorem cut_off {rest : List UInt8} (short : ¬2 ≤ rest.length) (start : Nat) :
    start + (ch :: rest).length < start + 3 := by
  rw [List.length_cons]
  omega

/-! What the loop does with a text, one unit at a time. -/

theorem decodeLoop_nil (at_ : TextAt memory start []) :
    decodeLoop memory (count + 1) start = ⟨[0], [start], true⟩ := by
  have zero : memory start = 0 := at_.ends
  rw [decodeLoop, if_pos zero]

theorem decodeLoop_char (at_ : TextAt memory start (ch :: text)) (other : ch ≠ 37) :
    decodeLoop memory (count + 1) start =
      .cons (if ch = 43 then 32 else ch) [start] (decodeLoop memory count (start + 1)) := by
  have nonzero : ch ≠ 0 := at_.clean ch List.mem_cons_self
  rw [decodeLoop, at_.head, if_neg nonzero, if_neg other]
  split <;> rfl

theorem decodeLoop_percent (at_ : TextAt memory start (37 :: text)) :
    decodeLoop memory (count + 1) start =
      .cons (strtoul (behindPercent memory start)).toUInt8
        (start :: (start + 3) :: List.range' (start + 1) ((behindPercent memory start).length + 1))
        (decodeLoop memory count (start + 3)) := by
  rw [decodeLoop, at_.head, if_neg (by decide), if_neg (by decide), if_pos rfl]

/-- The text behind a percent sign and two characters. -/
theorem behindPercent_text (at_ : TextAt memory start (ch :: text)) (long : 2 ≤ text.length) :
    TextAt memory (start + 3) (text.drop 2) :=
  at_.drop (Nat.succ_le_succ long)

theorem touched_inside (at_ : TextAt memory start text) (followed : PercentsFollowed count text) :
    ∀ place ∈ (decodeLoop memory count start).touched, start ≤ place ∧ place ≤ start + text.length := by
  induction count generalizing start text with
  | zero => simp [decodeLoop]
  | succ count ih =>
      cases text with
      | nil => simp [decodeLoop_nil at_]
      | cons ch rest =>
          by_cases percent : ch = 37
          · subst percent
            rw [PercentsFollowed, if_pos rfl] at followed
            obtain ⟨long, more⟩ := followed
            intro place member
            have short := length_behindPercent memory start
            simp only [decodeLoop_percent at_, Setup.cons, List.cons_append, List.mem_cons, List.mem_append,
              List.mem_range'_1] at member
            rw [List.length_cons]
            rcases member with rfl | rfl | inside | later
            · omega
            · omega
            · omega
            · have found := ih (behindPercent_text at_ long) more place later
              rw [List.length_drop] at found
              omega
          · rw [PercentsFollowed, if_neg percent] at followed
            intro place member
            simp only [decodeLoop_char at_ percent, Setup.cons, List.cons_append, List.nil_append,
              List.mem_cons] at member
            rw [List.length_cons]
            rcases member with rfl | later
            · omega
            · have found := ih at_.tail followed place later
              omega

theorem touched_outside (at_ : TextAt memory start text) (cut : ¬PercentsFollowed count text) :
    ∃ place ∈ (decodeLoop memory count start).touched, start + text.length < place := by
  induction count generalizing start text with
  | zero => exact absurd trivial cut
  | succ count ih =>
      cases text with
      | nil => exact absurd trivial cut
      | cons ch rest =>
          by_cases percent : ch = 37
          · subst percent
            rw [PercentsFollowed, if_pos rfl, not_and_or] at cut
            rw [decodeLoop_percent at_]
            by_cases long : 2 ≤ rest.length
            · obtain ⟨place, member, behind⟩ := ih (behindPercent_text at_ long) (cut.resolve_left (not_not_intro long))
              refine ⟨place, List.mem_append_right _ member, ?_⟩
              rw [List.length_drop] at behind
              rw [List.length_cons]
              omega
            · exact ⟨start + 3, by simp [Setup.cons], cut_off long start⟩
          · rw [PercentsFollowed, if_neg percent] at cut
            obtain ⟨place, member, behind⟩ := ih at_.tail cut
            rw [decodeLoop_char at_ percent]
            refine ⟨place, List.mem_append_right _ member, ?_⟩
            rw [List.length_cons]
            omega

theorem length_input (memory : Bytes) (count start : Nat) :
    (decodeLoop memory count start).input.length ≤ count := by
  fun_induction decodeLoop memory count start <;> simp [Setup.cons, *]

theorem WellFormed.tail (wellFormed : WellFormed (ch :: text)) : WellFormed text :=
  fun before behind split => wellFormed (ch :: before) behind (by rw [split, List.cons_append])

theorem decodeLoop_wellFormed (at_ : TextAt memory start text) (wellFormed : WellFormed text)
    (fits : (urlDecode text).length < count) :
    (decodeLoop memory count start).input = urlDecode text ++ [0] ∧
      (decodeLoop memory count start).installed = true := by
  induction count generalizing start text with
  | zero => omega
  | succ count ih =>
      cases text with
      | nil => simp [decodeLoop_nil at_, urlDecode]
      | cons ch rest =>
          by_cases percent : ch = 37
          · subst percent
            obtain ⟨high, low, more, rfl, highDigit, lowDigit⟩ := wellFormed [] rest rfl
            rw [urlDecode_percent] at fits ⊢
            obtain ⟨stored, installed⟩ := ih at_.tail.tail.tail wellFormed.tail.tail.tail
              (Nat.lt_of_succ_lt_succ fits)
            rw [decodeLoop_percent at_, behindPercent_pair at_, strtoul_digits highDigit lowDigit]
            simp [Setup.cons, stored, installed]
          · rw [urlDecode_char percent] at fits ⊢
            obtain ⟨stored, installed⟩ := ih at_.tail wellFormed.tail (Nat.lt_of_succ_lt_succ fits)
            rw [decodeLoop_char at_ percent]
            simp [Setup.cons, stored, installed]

theorem decodeLoop_rejects (at_ : TextAt memory start text) (long : count ≤ (urlDecode text).length) :
    (decodeLoop memory count start).installed = false := by
  induction count generalizing start text with
  | zero => rfl
  | succ count ih =>
      cases text with
      | nil => simp [urlDecode] at long
      | cons ch rest =>
          by_cases percent : ch = 37
          · subst percent
            rw [decodeLoop_percent at_]
            obtain _ | ⟨first, _ | ⟨second, more⟩⟩ := rest
            · have last : count = 0 := by simpa [urlDecode] using long
              subst last
              rfl
            · have last : count = 0 := by simpa [urlDecode] using long
              subst last
              rfl
            · rw [urlDecode_percent] at long
              exact ih at_.tail.tail.tail (Nat.le_of_succ_le_succ long)
          · rw [urlDecode_char percent] at long
            rw [decodeLoop_char at_ percent]
            exact ih at_.tail (Nat.le_of_succ_le_succ long)

/-- What is right for a call: it touches the text and its terminator only, stores into the buffer only, decodes
a command whose percent signs are followed by digits, and does not accept one that is too long. -/
structure DecodesRightly (setup : Setup) (start : Nat) (text : List UInt8) : Prop where
  safe : ∀ place ∈ setup.touched, start ≤ place ∧ place ≤ start + text.length
  fits : setup.input.length ≤ ecmdInputbufLength
  decoded : WellFormed text → (urlDecode text).length < ecmdInputbufLength →
    setup.input = urlDecode text ++ [0] ∧ setup.installed = true
  rejected : ecmdInputbufLength ≤ (urlDecode text).length → setup.installed = false

/-- The decoder is right for exactly the texts whose percent signs are followed by two more characters, as far
as it gets. -/
theorem httpdHandleEcmdSetup_right_iff (memory : Bytes) (encodedCmd : Nat) (text : List UInt8)
    (at_ : TextAt memory encodedCmd text) :
    DecodesRightly (httpdHandleEcmdSetup memory encodedCmd) encodedCmd text ↔
      PercentsFollowed ecmdInputbufLength text := by
  constructor
  · intro right
    by_contra cut
    obtain ⟨place, member, behind⟩ := touched_outside at_ cut
    have := right.safe place member
    omega
  · intro followed
    exact ⟨touched_inside at_ followed, length_input memory ecmdInputbufLength encodedCmd,
      decodeLoop_wellFormed at_, decodeLoop_rejects at_⟩

end Decoding

/-- `ip+%41`. -/
def encodedCommand : List UInt8 := [105, 112, 43, 37, 52, 49]

theorem httpdHandleEcmdSetup_right_encoded :
    TextAt (cString encodedCommand) 0 encodedCommand ∧
      DecodesRightly (httpdHandleEcmdSetup (cString encodedCommand) 0) 0 encodedCommand :=
  have at_ : TextAt (cString encodedCommand) 0 encodedCommand := ⟨by decide, by decide, by simp [encodedCommand]⟩
  have followed : PercentsFollowed ecmdInputbufLength encodedCommand := by
    simp [ecmdInputbufLength, PercentsFollowed, encodedCommand]
  ⟨at_, (httpdHandleEcmdSetup_right_iff _ 0 encodedCommand at_).mpr followed⟩

/-- The request `GET /ecmd?% HTTP`, whose second blank has become the terminator: the decoder passes over it and
goes on in the rest of the request. -/
theorem httpdHandleEcmdSetup_passes_terminator :
    TextAt (cString [37, 0, 72, 84, 84, 80]) 0 [37] ∧
      (httpdHandleEcmdSetup (cString [37, 0, 72, 84, 84, 80]) 0).input = [0, 84, 84, 80, 0] ∧
      ¬DecodesRightly (httpdHandleEcmdSetup (cString [37, 0, 72, 84, 84, 80]) 0) 0 [37] := by
  refine ⟨⟨by decide, by decide, by simp⟩, rfl, ?_⟩
  intro right
  have inside := right.safe 3 (by decide)
  simp at inside

end Ethersex.Httpd.Command
