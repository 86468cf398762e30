import Mathlib
import Ethersex.Library.CString
import Ethersex.Uip.Connection
import Ethersex.Library.Lines

/-!
# Commands over TCP

The application behind the ECMD port collects a line in a buffer, has it parsed, and sends the
output; a command that has more to say is called again when its output was acknowledged.
-/

namespace Ethersex.Ecmd

open Library Uip

/-! ## The parser -/

/-- `ECMD_INPUTBUF_LENGTH` and `ECMD_OUTPUTBUF_LENGTH`. -/
def ecmdInputbufLength : Nat := 50

def ecmdOutputbufLength : Nat := 50

/-- What a call of `ecmd_parse_command` does: whether it wants to be called again, the output its
result counts (none for an error), the text it leaves in the buffer of the command, where an
alias may have been put, and the state of the device. -/
structure Answer (Device : Type) where
  again : Bool
  output : List UInt8
  command : List UInt8
  device : Device

/-- `ecmd_parse_command`, for the text of a command. -/
abbrev Parser (Device : Type) := List UInt8 → Device → Answer Device

/-! ## The application -/

/-- `ecmd_connection_state_t`; `outbuf` has `out_len` bytes. -/
structure State where
  inbuf : Bytes
  inLen : Nat
  outbuf : List UInt8
  parseAgain : Bool
  closeRequested : Bool

/-- A connection that was just opened. -/
def State.connected : State := ⟨fun _ => 0, 0, [], false, false⟩

/-- A line that begins with an exclamation mark is parsed from its second character on. -/
def skipLength (line : List UInt8) : Nat := if line.head? = some 33 then 1 else 0

section Application

variable {Device : Type} (parse : Parser Device)

/-- The call of the parser: the text it is called with, its answer, and the state with the buffer
of the command as the parser leaves it. -/
def ecmdParse (state : State) (device : Device) : List UInt8 × Answer Device × State :=
  let line := fieldText ecmdInputbufLength state.inbuf
  let skip := skipLength line
  let answer := parse (line.drop skip) device
  (line.drop skip, answer,
    { state with
      closeRequested := state.closeRequested || skip = 1
      inbuf := overlay ecmdInputbufLength skip (answer.command.length + 1) (cString answer.command) state.inbuf })

/-- A line feed is put behind the output, if there is any. -/
def State.noteOutput (state : State) (output : List UInt8) : State :=
  if output = [] then state else { state with outbuf := output ++ [10] }

/-- `newdata` copies what fits into the buffer. -/
def State.copy (appdata : List UInt8) (state : State) : State :=
  let copied := appdata.take (ecmdInputbufLength - state.inLen)
  { state with
    inbuf := overlay ecmdInputbufLength state.inLen copied.length (cString copied) state.inbuf
    inLen := state.inLen + copied.length }

/-- The first line feed in the buffer. -/
def State.lf (state : State) : Option Nat :=
  (List.range state.inLen).find? fun k => decide (state.inbuf k = 10)

/-- The line in the buffer is made a string. -/
def State.terminate (state : State) : State :=
  let inbuf := Function.update state.inbuf (state.lf.getD (ecmdInputbufLength - 1)) 0
  { state with inbuf := fun k => if inbuf k = 13 then 0 else inbuf k }

/-- `newdata`: the texts the parser is called with, the state and the device. -/
def newdata (appdata : List UInt8) (state : State) (device : Device) : List (List UInt8) × State × Device :=
  let state := state.copy appdata
  if state.lf.isSome ∨ 10 ∈ appdata then
    let (text, answer, state) := ecmdParse parse state.terminate device
    let state := { state with parseAgain := state.parseAgain || answer.again }
    let state := state.noteOutput answer.output
    let state := if state.parseAgain then state else { state with inbuf := fun _ => 0, inLen := 0 }
    ([text], state, answer.device)
  else ([], state, device)

/-- What `ecmd_net_main` does when the output was acknowledged. -/
def acked (state : State) (device : Device) : List (List UInt8) × State × Device :=
  let state := { state with outbuf := [] }
  if state.parseAgain then
    let (text, answer, state) := ecmdParse parse state device
    let state := { state with parseAgain := answer.again, inLen := if answer.again then state.inLen else 0 }
    ([text], state.noteOutput answer.output, answer.device)
  else ([], state, device)

/-- What `ecmd_net_main` answers in the end. -/
def State.reply (state : State) : Reply :=
  if state.outbuf ≠ [] then .send state.outbuf
  else if state.closeRequested then .close
  else .silent

/-- `ecmd_net_main`, when a packet arrived with an acknowledgement, with data, or with both. -/
def ecmdNetMain (isAcked : Bool) (appdata : List UInt8) (state : State) (device : Device) :
    List (List UInt8) × State × Device × Reply :=
  let (texts, state, device) := if isAcked then acked parse state device else ([], state, device)
  let (texts', state, device) :=
    if appdata ≠ [] then newdata parse appdata state device else ([], state, device)
  (texts ++ texts', state, device, state.reply)

end Application

end Ethersex.Ecmd

/-!
## Commands and the segments they arrive in

What a command line leads to should not depend on how it was cut into segments.  The application
has one buffer for the line and one for the output: what arrives behind a line feed in the same
segment is thrown away, and what arrives while a command is not finished is mixed up with it.
-/

namespace Ethersex.Ecmd

open Library Uip

/-! ## Connections -/

/-- The application and the device, the segment in flight, everything that the client has sent,
everything that the parser was called with, and everything that the client has acknowledged. -/
structure Connection (Device : Type) where
  state : State
  device : Device
  inFlight : List UInt8
  stream : List UInt8
  calls : List (List UInt8)
  received : List UInt8
  established : Bool

/-- A packet arrives, with an acknowledgement of the segment in flight, with data, or with both; or
the segment in flight has to be sent again, or there is none and the application is polled. -/
inductive Event where
  | packet (isAcked : Bool) (appdata : List UInt8) (mss : Nat) (stale : Bytes)
  | rexmit (stale : Bytes)
  | poll (mss : Nat) (stale : Bytes)

section Connections

variable {Device : Type} (parse : Parser Device)

def Connection.start (device : Device) : Connection Device := ⟨.connected, device, [], [], [], [], true⟩

/-- What becomes of the answer of the application. -/
def Connection.send (isAcked : Bool) (mss : Nat) (stale : Bytes) (reply : Reply) (c : Connection Device) :
    Connection Device :=
  match (appsend isAcked mss stale c.inFlight.length reply).2 with
  | .segment data => { c with inFlight := data }
  | .nothing => c
  | _ => { c with inFlight := [], established := false }

def Connection.step (c : Connection Device) : Event → Connection Device
  | .packet isAcked appdata mss stale =>
      let isAcked := isAcked && !c.inFlight.isEmpty
      let c := { c with stream := c.stream ++ appdata }
      if c.established = false ∨ isAcked = false ∧ appdata = [] then c
      else
        let c := if isAcked then { c with received := c.received ++ c.inFlight, inFlight := [] } else c
        let (texts, state, device, reply) := ecmdNetMain parse isAcked appdata c.state c.device
        { c with state, device, calls := c.calls ++ texts }.send isAcked mss stale reply
  | .rexmit stale =>
      if c.established = false ∨ c.inFlight = [] then c
      else
        match apprexmit stale c.inFlight.length c.state.reply with
        | .segment data => { c with inFlight := data }
        | _ => c
  | .poll mss stale =>
      if c.established = false ∨ c.inFlight ≠ [] then c else c.send false mss stale c.state.reply

def Connection.run (events : List Event) (c : Connection Device) : Connection Device :=
  events.foldl (step parse) c

/-! ## What a stream of lines should lead to -/

/-- The text of a line: it ends where there is a carriage return. -/
def lineText (line : List UInt8) : List UInt8 :=
  (line.map fun ch => if ch = 13 then 0 else ch).takeWhile (· ≠ 0)

/-- What the parser is given of a line. -/
def commandText (line : List UInt8) : List UInt8 := line.drop (skipLength line)

/-- The line when the parser has left a text in place of the command. -/
def leftOver (line command : List UInt8) : List UInt8 := line.take (skipLength line) ++ command

/-- The output with the line feed behind it. -/
def framed (output : List UInt8) : List UInt8 := if output = [] then [] else output ++ [10]

/-- A command was executed, once and then as long as it wanted to be called again. -/
inductive Executed : (line : List UInt8) → Device → List (List UInt8) → (output : List UInt8) → Device → Prop
  | last {line : List UInt8} {device : Device} (ends : (parse (commandText line) device).again = false) :
      Executed line device [commandText line] (framed (parse (commandText line) device).output)
        (parse (commandText line) device).device
  | again {line output : List UInt8} {device final : Device} {calls : List (List UInt8)}
      (goesOn : (parse (commandText line) device).again = true)
      (rest : Executed (leftOver line (parse (commandText line) device).command)
        (parse (commandText line) device).device calls output final) :
      Executed line device (commandText line :: calls)
        (framed (parse (commandText line) device).output ++ output) final

/-- A command was called and has to be called again, with what is in the buffer now. -/
inductive Partway : (line : List UInt8) → Device → List (List UInt8) → (output : List UInt8) →
    (left : List UInt8) → Device → Prop
  | first {line : List UInt8} {device : Device} (goesOn : (parse (commandText line) device).again = true) :
      Partway line device [commandText line] (framed (parse (commandText line) device).output)
        (leftOver line (parse (commandText line) device).command) (parse (commandText line) device).device
  | again {line output left : List UInt8} {device later : Device} {calls : List (List UInt8)}
      (before : Partway line device calls output left later)
      (goesOn : (parse (commandText left) later).again = true) :
      Partway line device (calls ++ [commandText left]) (output ++ framed (parse (commandText left) later).output)
        (leftOver left (parse (commandText left) later).command) (parse (commandText left) later).device

/-- One command after the other was executed. -/
inductive ExecutedAll : (lines : List (List UInt8)) → Device → List (List UInt8) → (output : List UInt8) →
    Device → Prop
  | nil {device : Device} : ExecutedAll [] device [] [] device
  | cons {line output output' : List UInt8} {lines : List (List UInt8)} {device later final : Device}
      {calls calls' : List (List UInt8)} (first : Executed parse line device calls output later)
      (rest : ExecutedAll lines later calls' output' final) :
      ExecutedAll (line :: lines) device (calls ++ calls') (output ++ output') final

/-- The lines that have arrived were executed, except that the last one may have to be called again,
and all of the output was acknowledged or is in flight. -/
def Served (start : Device) (c : Connection Device) : Prop :=
  ∃ lines rest, Lines 10 c.stream lines rest ∧
    (ExecutedAll parse (lines.map lineText) start c.calls (c.received ++ c.inFlight) c.device ∨
      c.inFlight ≠ [] ∧ ∃ front last calls calls' output output' left device, lines = front ++ [last] ∧
        ExecutedAll parse (front.map lineText) start calls output device ∧
        Partway parse (lineText last) device calls' output' left c.device ∧
        c.calls = calls ++ calls' ∧ c.received ++ c.inFlight = output ++ output')

/-! ## Steps that go well -/

/-- The output fits a segment, there is some when the command has to be called again, and the text
that is left of the command fits the buffer. -/
structure Answer.Sane (mss : Nat) (answer : Answer Device) : Prop where
  short : answer.output.length < ecmdOutputbufLength
  fits : (framed answer.output).length ≤ mss
  answers : answer.again = true → answer.output ≠ []
  text : ∀ ch ∈ answer.command, ch ≠ 0
  room : answer.command.length + 1 < ecmdInputbufLength

/-- The line that is parsed when a packet arrives. -/
def Connection.nextLine (c : Connection Device) (isAcked : Bool) (appdata : List UInt8) : Option (List UInt8) :=
  if isAcked ∧ c.state.parseAgain then some (fieldText ecmdInputbufLength c.state.inbuf)
  else if 10 ∈ appdata then
    some (lineText ((List.range c.state.inLen).map c.state.inbuf ++ appdata.dropLast))
  else none

/-- Data arrive when there is no command to be called again, the end of a line when all output was
acknowledged; a line feed is the last byte of its segment, and a line fits the buffer; and the
answer of the parser is sane. -/
def Connection.Meets (c : Connection Device) : Event → Prop
  | .packet isAcked appdata mss _ =>
      (appdata ≠ [] → c.established = true ∧ c.state.parseAgain = false ∧
        (10 ∈ appdata → isAcked = true ∨ c.inFlight = []) ∧ 10 ∉ appdata.dropLast ∧
        c.state.inLen + appdata.length ≤ ecmdInputbufLength) ∧
      ∀ line, c.nextLine isAcked appdata = some line → (parse (commandText line) c.device).Sane mss
  | _ => True

/-- All events of a run meet the condition. -/
def Connection.AllMeet : List Event → Connection Device → Prop
  | [], _ => True
  | event :: rest, c => c.Meets parse event ∧ AllMeet rest (c.step parse event)

end Connections

/-! ## Executions -/

section Executions

variable {Device : Type} {parse : Parser Device}

/-- What a command leads to is determined. -/
theorem Executed.unique {line output output' : List UInt8} {device final final' : Device}
    {calls calls' : List (List UInt8)} (executed : Executed parse line device calls output final)
    (executed' : Executed parse line device calls' output' final') :
    calls = calls' ∧ output = output' ∧ final = final' := by
  induction executed generalizing calls' output' final' with
  | last ends =>
      cases executed' with
      | last _ => exact ⟨rfl, rfl, rfl⟩
      | again goesOn _ => exact absurd (ends.symm.trans goesOn) Bool.false_ne_true
  | again goesOn rest ih =>
      cases executed' with
      | last ends => exact absurd (ends.symm.trans goesOn) Bool.false_ne_true
      | again _ rest' =>
          obtain ⟨rfl, rfl, rfl⟩ := ih rest'
          exact ⟨rfl, rfl, rfl⟩

theorem ExecutedAll.unique {lines : List (List UInt8)} {output output' : List UInt8} {device final final' : Device}
    {calls calls' : List (List UInt8)} (executed : ExecutedAll parse lines device calls output final)
    (executed' : ExecutedAll parse lines device calls' output' final') :
    calls = calls' ∧ output = output' ∧ final = final' := by
  induction executed generalizing calls' output' final' with
  | nil =>
      cases executed'
      exact ⟨rfl, rfl, rfl⟩
  | cons first rest ih =>
      cases executed' with
      | cons first' rest' =>
          obtain ⟨rfl, rfl, rfl⟩ := first.unique first'
          obtain ⟨rfl, rfl, rfl⟩ := ih rest'
          exact ⟨rfl, rfl, rfl⟩

/-- One more command. -/
theorem ExecutedAll.snoc {lines : List (List UInt8)} {line output output' : List UInt8}
    {device later final : Device} {calls calls' : List (List UInt8)}
    (executed : ExecutedAll parse lines device calls output later)
    (last : Executed parse line later calls' output' final) :
    ExecutedAll parse (lines ++ [line]) device (calls ++ calls') (output ++ output') final := by
  induction executed with
  | nil => simpa using ExecutedAll.cons last .nil
  | cons first rest ih =>
      rw [List.append_assoc, List.append_assoc]
      exact .cons first (ih last)

/-- A command that was called is executed when the rest of it is. -/
theorem Partway.executed {line left output output' : List UInt8} {device later final : Device}
    {calls calls' : List (List UInt8)} (partway : Partway parse line device calls output left later)
    (rest : Executed parse left later calls' output' final) :
    Executed parse line device (calls ++ calls') (output ++ output') final := by
  induction partway generalizing calls' output' with
  | first goesOn => exact .again goesOn rest
  | again before goesOn ih =>
      rw [List.append_assoc, List.append_assoc]
      exact ih (.again goesOn rest)

end Executions

/-! ## The buffer -/

section Buffer

variable {state : State}

/-- The buffer holds the beginning of a line, which has no line feed. -/
structure Holds (rest : List UInt8) (state : State) : Prop where
  inLen : state.inLen = rest.length
  fits : rest.length ≤ ecmdInputbufLength
  bytes : AgreeTo rest.length state.inbuf (cString rest)

theorem cString_append (rest more : List UInt8) (k : Nat) :
    cString (rest ++ more) (rest.length + k) = cString more k := by
  rw [cString, cString, List.getD_append_right _ _ _ _ (Nat.le_add_right _ _), Nat.add_sub_cancel_left]

theorem Holds.copy {rest : List UInt8} (holds : Holds rest state) (appdata : List UInt8)
    (room : state.inLen + appdata.length ≤ ecmdInputbufLength) :
    Holds (rest ++ appdata) (state.copy appdata) := by
  have length := holds.inLen
  have all : appdata.take (ecmdInputbufLength - state.inLen) = appdata := List.take_of_length_le (by omega)
  refine ⟨?_, ?_, fun k small => ?_⟩
  · rw [State.copy, all, List.length_append, holds.inLen]
  · rw [List.length_append]
    omega
  · rw [List.length_append] at small
    simp only [State.copy, all]
    rw [overlay_apply room]
    split
    next inside =>
      rw [show k = rest.length + (k - state.inLen) by omega, cString_append]
      congr 1
      omega
    next outside =>
      have before : k < rest.length := by omega
      rw [holds.bytes k before, cString, cString, List.getD_append _ _ _ _ before]

/-- The bytes in the buffer. -/
theorem Holds.range_map {rest : List UInt8} (holds : Holds rest state) :
    (List.range state.inLen).map state.inbuf = rest := by
  refine List.ext_getElem (by simp [holds.inLen]) fun k small inside => ?_
  rw [List.getElem_map, List.getElem_range, holds.bytes k inside, cString, List.getD_eq_getElem _ _ inside]

theorem Holds.lf_eq_none {rest : List UInt8} (holds : Holds rest state) (open_ : (10 : UInt8) ∉ rest) :
    state.lf = none := by
  refine List.find?_eq_none.mpr fun k member => ?_
  rw [List.mem_range, holds.inLen] at member
  rw [decide_eq_true_eq, holds.bytes k member, cString, List.getD_eq_getElem _ _ member]
  exact fun newline => open_ (newline ▸ List.getElem_mem member)

theorem Holds.lf_eq {line : List UInt8} (holds : Holds (line ++ [10]) state) (open_ : (10 : UInt8) ∉ line) :
    state.lf = some line.length := by
  have length := holds.inLen
  rw [List.length_append, List.length_singleton] at length
  have prior : (List.range line.length).find? (fun k => decide (state.inbuf k = 10)) = none := by
    refine List.find?_eq_none.mpr fun k member => ?_
    rw [List.mem_range] at member
    rw [decide_eq_true_eq, holds.bytes k (by rw [List.length_append]; omega), cString,
      List.getD_append _ _ _ _ member, List.getD_eq_getElem _ _ member]
    exact fun newline => open_ (newline ▸ List.getElem_mem member)
  have here : state.inbuf line.length = 10 := by
    rw [holds.bytes line.length (by rw [List.length_append]; exact Nat.lt_succ_self _)]
    exact cString_append line [10] 0
  rw [State.lf, length, List.range_succ, List.find?_append, prior, List.find?_singleton, here]
  rfl

/-- The string that a line becomes. -/
theorem Holds.terminate {line : List UInt8} (holds : Holds (line ++ [10]) state) (open_ : (10 : UInt8) ∉ line) :
    fieldText ecmdInputbufLength state.terminate.inbuf = lineText line := by
  have short := holds.fits
  rw [List.length_append, List.length_singleton] at short
  rw [lineText]
  refine fieldText_eq_takeWhile (fun k small => ?_) ?_ (by rwa [List.length_map])
  · rw [List.length_map] at small
    have byte : state.inbuf k = cString line k := by
      rw [holds.bytes k (by rw [List.length_append]; omega), cString, List.getD_append _ _ _ _ small, cString]
    simp only [State.terminate, holds.lf_eq open_, Option.getD_some]
    rw [Function.update_of_ne (Nat.ne_of_lt small), byte, cString, cString]
    exact (List.getD_map line 0 fun ch : UInt8 => if ch = 13 then 0 else ch).symm
  · rw [List.length_map]
    simp only [State.terminate, holds.lf_eq open_, Option.getD_some]
    rw [Function.update_self, if_neg (by decide)]

/-- What is left in the buffer when the parser was called. -/
theorem fieldText_leftOver {Device : Type} {line : List UInt8} {inbuf : Bytes} {answer : Answer Device} {mss : Nat}
    (text : fieldText ecmdInputbufLength inbuf = line) (sane : answer.Sane mss) :
    fieldText ecmdInputbufLength (overlay ecmdInputbufLength (skipLength line) (answer.command.length + 1)
      (cString answer.command) inbuf) = leftOver line answer.command := by
  have room := sane.room
  have skip : skipLength line ≤ 1 := by
    rw [skipLength]
    split <;> decide
  have fits : skipLength line + (answer.command.length + 1) ≤ ecmdInputbufLength := by omega
  have command : answer.command.takeWhile (· ≠ 0) = answer.command := by
    simpa using sane.text
  have zero : cString answer.command answer.command.length = 0 := by
    rw [cString, List.getD_eq_default _ _ le_rfl]
  by_cases mark : line.head? = some 33
  · have one : skipLength line = 1 := if_pos mark
    have first : inbuf 0 = 33 := by
      rw [← text, ecmdInputbufLength, fieldText] at mark
      split at mark
      · cases mark
      · exact Option.some.inj mark
    have front : line.take 1 = [33] := by
      cases line with
      | nil => cases mark
      | cons ch others =>
          rw [Option.some.inj mark]
          rfl
    rw [leftOver, one, front]
    rw [one] at fits
    refine (@fieldText_eq_takeWhile (33 :: answer.command) _ _ (fun k small => ?_) ?_ ?_).trans ?_
    · rw [List.length_cons] at small
      rw [overlay_apply fits]
      split
      next inside =>
        obtain ⟨k, rfl⟩ : ∃ other, k = other + 1 := ⟨k - 1, by omega⟩
        rfl
      next outside =>
        obtain rfl : k = 0 := by omega
        exact first
    · rw [List.length_cons, overlay_apply fits, if_pos (by omega), Nat.add_sub_cancel, zero]
    · rw [List.length_cons]
      omega
    · rw [List.takeWhile_cons_of_pos (by decide), command]
      rfl
  · have none : skipLength line = 0 := if_neg mark
    rw [leftOver, none, List.take_zero, List.nil_append]
    rw [none] at fits
    refine (fieldText_eq_takeWhile (fun k small => ?_) ?_ (by omega)).trans command
    · rw [overlay_apply fits, if_pos (by omega), Nat.sub_zero]
    · rw [overlay_apply fits, if_pos (by omega), Nat.sub_zero, zero]

end Buffer

/-! ## Calls of the application -/

section Calls

variable {Device : Type} {parse : Parser Device} {state : State} {device : Device} {line : List UInt8} {mss : Nat}

/-- The state after a call of the parser for a line. -/
structure Outcome (line : List UInt8) (answer : Answer Device) (state : State) : Prop where
  again : state.parseAgain = answer.again
  outbuf : state.outbuf = framed answer.output
  left : answer.again = true → fieldText ecmdInputbufLength state.inbuf = leftOver line answer.command
  cleared : answer.again = false → state.inLen = 0

theorem noteOutput_outbuf (empty : state.outbuf = []) (output : List UInt8) :
    (state.noteOutput output).outbuf = framed output := by
  rw [State.noteOutput, framed]
  split
  · exact empty
  · rfl

theorem noteOutput_eq (output : List UInt8) :
    (state.noteOutput output).inbuf = state.inbuf ∧ (state.noteOutput output).inLen = state.inLen ∧
      (state.noteOutput output).parseAgain = state.parseAgain := by
  rw [State.noteOutput]
  split <;> exact ⟨rfl, rfl, rfl⟩

/-- A command is called again when its output was acknowledged. -/
theorem acked_again (again : state.parseAgain = true) (text : fieldText ecmdInputbufLength state.inbuf = line)
    (sane : (parse (commandText line) device).Sane mss) :
    ∃ state', acked parse state device =
        ([commandText line], state', (parse (commandText line) device).device) ∧
      Outcome line (parse (commandText line) device) state' := by
  rw [acked, if_pos again, ecmdParse]
  dsimp only
  rw [text]
  refine ⟨_, rfl, ?_, noteOutput_outbuf rfl _, fun _ => ?_, fun ends => ?_⟩
  · rw [(noteOutput_eq _).2.2]
    rfl
  · rw [(noteOutput_eq _).1]
    exact fieldText_leftOver text sane
  · rw [(noteOutput_eq _).2.1]
    exact if_neg (ends ▸ Bool.false_ne_true)

/-- A part of a line arrives. -/
theorem newdata_part {rest appdata : List UInt8} (holds : Holds rest state) (begun : (10 : UInt8) ∉ rest)
    (open_ : (10 : UInt8) ∉ appdata) (room : state.inLen + appdata.length ≤ ecmdInputbufLength) :
    newdata parse appdata state device = ([], state.copy appdata, device) := by
  have none := (holds.copy appdata room).lf_eq_none (List.not_mem_append begun open_)
  rw [newdata]
  dsimp only
  rw [none, if_neg (by simpa using open_)]

/-- The end of a line arrives. -/
theorem newdata_line {rest more : List UInt8} (holds : Holds rest state) (begun : (10 : UInt8) ∉ rest)
    (open_ : (10 : UInt8) ∉ more) (room : state.inLen + (more ++ [10]).length ≤ ecmdInputbufLength)
    (idle : state.parseAgain = false) (empty : state.outbuf = []) (same : line = lineText (rest ++ more))
    (sane : (parse (commandText line) device).Sane mss) :
    ∃ state', newdata parse (more ++ [10]) state device =
        ([commandText line], state', (parse (commandText line) device).device) ∧
      Outcome line (parse (commandText line) device) state' := by
  have copied := holds.copy (more ++ [10]) room
  rw [← List.append_assoc] at copied
  have text := copied.terminate (List.not_mem_append begun open_)
  rw [← same] at text
  rw [newdata, ecmdParse]
  dsimp only
  rw [if_pos (.inr (List.mem_append_right _ List.mem_cons_self)), text]
  have stays : ((state.copy (more ++ [10])).terminate).parseAgain = false := idle
  have clean : ((state.copy (more ++ [10])).terminate).outbuf = [] := empty
  refine ⟨_, rfl, ?_⟩
  rw [(noteOutput_eq _).2.2, stays, Bool.false_or]
  split
  next goesOn =>
    refine ⟨?_, ?_, fun _ => ?_, fun ends => ?_⟩
    · rw [(noteOutput_eq _).2.2]
      rfl
    · refine noteOutput_outbuf ?_ _
      exact clean
    · rw [(noteOutput_eq _).1]
      exact fieldText_leftOver text sane
    · exact absurd (ends.symm.trans goesOn) Bool.false_ne_true
  next ends =>
    refine ⟨rfl, ?_, fun goesOn => absurd goesOn ends, fun _ => rfl⟩
    refine noteOutput_outbuf ?_ _
    exact clean

end Calls

/-! ## Runs -/

section Runs

variable {Device : Type} {parse : Parser Device} {start : Device} {c : Connection Device}

/-- There is no command to be called again. -/
structure Idle (parse : Parser Device) (start : Device) (lines : List (List UInt8)) (rest : List UInt8)
    (c : Connection Device) : Prop where
  split : Lines 10 c.stream lines rest
  idle : c.state.parseAgain = false
  holds : Holds rest c.state
  executed : ExecutedAll parse (lines.map lineText) start c.calls (c.received ++ c.inFlight) c.device

/-- The last command has to be called again, with what is in the buffer. -/
structure Busy (parse : Parser Device) (start : Device) (front : List (List UInt8)) (last : List UInt8)
    (c : Connection Device) : Prop where
  split : Lines 10 c.stream (front ++ [last]) []
  again : c.state.parseAgain = true
  answered : c.inFlight ≠ []
  executed : ∃ calls calls' output output' left device,
    ExecutedAll parse (front.map lineText) start calls output device ∧
      Partway parse (lineText last) device calls' output' left c.device ∧
      c.calls = calls ++ calls' ∧ c.received ++ c.inFlight = output ++ output' ∧
      fieldText ecmdInputbufLength c.state.inbuf = left

/-- What holds in every state of a run. -/
structure Sound (parse : Parser Device) (start : Device) (c : Connection Device) : Prop where
  outbuf : c.state.outbuf = c.inFlight
  progress : (∃ lines rest, Idle parse start lines rest c) ∨ ∃ front last, Busy parse start front last c

theorem Sound.served (sound : Sound parse start c) : Served parse start c := by
  rcases sound.progress with ⟨lines, rest, idle⟩ | ⟨front, last, busy⟩
  · exact ⟨lines, rest, idle.split, .inl idle.executed⟩
  · obtain ⟨calls, calls', output, output', left, device, executed, partway, texts, sent, -⟩ := busy.executed
    exact ⟨_, _, busy.split, .inr ⟨busy.answered, front, last, calls, calls', output, output', left, device, rfl,
      executed, partway, texts, sent⟩⟩

theorem sound_start (start : Device) : Sound parse start (.start start) where
  outbuf := rfl
  progress := .inl ⟨[], [], .nil, rfl, ⟨rfl, Nat.zero_le _, fun _ => nofun⟩, .nil⟩

/-- The last command was called, for the first time or again. -/
theorem sound_called {front : List (List UInt8)} {last left output output' : List UInt8}
    {calls calls' : List (List UInt8)} {device later : Device}
    (executed : ExecutedAll parse (front.map lineText) start calls output device)
    (begun : calls' = [] ∧ output' = [] ∧ left = lineText last ∧ later = device ∨
      Partway parse (lineText last) device calls' output' left later)
    (split : Lines 10 c.stream (front ++ [last]) [])
    (texts : c.calls = calls ++ (calls' ++ [commandText left]))
    (sent : c.received ++ c.inFlight = output ++ (output' ++ framed (parse (commandText left) later).output))
    (state : c.device = (parse (commandText left) later).device) (outbuf : c.state.outbuf = c.inFlight)
    (outcome : Outcome left (parse (commandText left) later) c.state)
    (answers : (parse (commandText left) later).again = true → (parse (commandText left) later).output ≠ []) :
    Sound parse start c := by
  refine ⟨outbuf, ?_⟩
  cases goesOn : (parse (commandText left) later).again with
  | true =>
      refine .inr ⟨front, last, split, outcome.again.trans goesOn, ?_, calls, _, output, _, _, device, executed,
        ?_, texts, sent, outcome.left goesOn⟩
      · rw [← outbuf, outcome.outbuf, framed, if_neg (answers goesOn)]
        exact List.append_ne_nil_of_right_ne_nil _ (List.cons_ne_nil _ _)
      · rw [state]
        rcases begun with ⟨rfl, rfl, rfl, rfl⟩ | partway
        · exact .first goesOn
        · exact .again partway goesOn
  | false =>
      have all : Executed parse (lineText last) device (calls' ++ [commandText left])
          (output' ++ framed (parse (commandText left) later).output) c.device := by
        rw [state]
        rcases begun with ⟨rfl, rfl, rfl, rfl⟩ | partway
        · exact .last goesOn
        · exact partway.executed (.last goesOn)
      refine .inl ⟨front ++ [last], [], split, outcome.again.trans goesOn,
        ⟨outcome.cleared goesOn, Nat.zero_le _, fun _ => nofun⟩, ?_⟩
      rw [List.map_append, texts, sent]
      exact executed.snoc all

/-- Being sound does not depend on whether the connection is established. -/
theorem Sound.with_established (sound : Sound parse start c) (established : Bool) :
    Sound parse start { c with established } := by
  refine ⟨sound.outbuf, ?_⟩
  rcases sound.progress with ⟨lines, rest, idle⟩ | ⟨front, last, busy⟩
  · exact .inl ⟨lines, rest, { idle with }⟩
  · exact .inr ⟨front, last, { busy with }⟩

/-- The output goes out when nothing is in flight. -/
theorem send_eq (idle : c.inFlight = []) {mss : Nat} (fits : c.state.outbuf.length ≤ mss) (isAcked : Bool)
    (stale : Bytes) :
    ∃ established, c.send isAcked mss stale c.state.reply =
      { c with inFlight := c.state.outbuf, established } := by
  by_cases some : c.state.outbuf = []
  · by_cases close : c.state.closeRequested = true
    · have reply : c.state.reply = .close := by
        rw [State.reply, if_neg (not_not_intro some), if_pos close]
      rw [Connection.send, reply, some]
      exact ⟨false, rfl⟩
    · have reply : c.state.reply = .silent := by
        rw [State.reply, if_neg (not_not_intro some), if_neg close]
      rw [Connection.send, reply, some, ← idle]
      exact ⟨c.established, rfl⟩
  · have reply : c.state.reply = .send c.state.outbuf := if_pos some
    have goes := @appsend_fits isAcked mss c.inFlight.length _ stale some fits
      (.inr (List.length_eq_zero_iff.mpr idle))
    rw [Connection.send, reply, goes]
    exact ⟨c.established, rfl⟩

/-- A segment with a line feed only at its end. -/
theorem append_newline {appdata : List UInt8} (newline : (10 : UInt8) ∈ appdata)
    (last : (10 : UInt8) ∉ appdata.dropLast) : appdata.dropLast ++ [10] = appdata := by
  have some := List.ne_nil_of_mem newline
  have whole := List.dropLast_concat_getLast some
  rw [← whole, List.mem_append, List.mem_singleton] at newline
  rw [newline.resolve_left last, whole]

/-- When there is no command to be called again, an acknowledgement only makes room for output. -/
theorem ecmdNetMain_idle {state : State} (idle : state.parseAgain = false) {isAcked : Bool}
    (room : isAcked = true ∨ state.outbuf = []) (appdata : List UInt8) (device : Device) :
    ecmdNetMain parse isAcked appdata state device =
      let (texts, state, device) :=
        if appdata ≠ [] then newdata parse appdata { state with outbuf := [] } device
        else ([], { state with outbuf := [] }, device)
      (texts, state, device, state.reply) := by
  have stage : (if isAcked then acked parse state device else ([], state, device)) =
      ([], { state with outbuf := [] }, device) := by
    cases isAcked with
    | true =>
        rw [if_pos rfl, acked]
        exact if_neg (by rw [idle]; exact Bool.false_ne_true)
    | false => rw [if_neg Bool.false_ne_true, ← room.resolve_left Bool.false_ne_true]
  rw [ecmdNetMain, stage]
  rfl

/-- A packet for a connection without a command to be called again. -/
theorem Sound.packet_idle {lines : List (List UInt8)} {rest : List UInt8} (sound : Sound parse start c)
    (idle : Idle parse start lines rest c) {isAcked : Bool} {appdata : List UInt8} {mss : Nat}
    (room : isAcked = true ∨ c.inFlight = []) (stale : Bytes)
    (meets : c.Meets parse (.packet isAcked appdata mss stale)) :
    let (texts, state, device, reply) := ecmdNetMain parse isAcked appdata c.state c.device
    Sound parse start (Connection.send isAcked mss stale reply
      ⟨state, device, [], c.stream ++ appdata, c.calls ++ texts, c.received ++ c.inFlight, c.established⟩) := by
  have holds : Holds rest { c.state with outbuf := [] } := ⟨idle.holds.inLen, idle.holds.fits, idle.holds.bytes⟩
  rw [ecmdNetMain_idle idle.idle (by rwa [sound.outbuf])]
  by_cases none : appdata = []
  · subst none
    obtain ⟨established, sent⟩ := @send_eq Device
      ⟨{ c.state with outbuf := [] }, c.device, [], c.stream ++ [], c.calls ++ [], c.received ++ c.inFlight,
        c.established⟩ rfl mss (Nat.zero_le mss) isAcked stale
    rw [if_neg (not_not_intro rfl)]
    dsimp only at sent ⊢
    rw [sent, List.append_nil, List.append_nil]
    refine ⟨rfl, .inl ⟨lines, rest, idle.split, idle.idle, holds, ?_⟩⟩
    rw [List.append_nil]
    exact idle.executed
  · obtain ⟨-, -, -, last, fits⟩ := meets.1 none
    rw [if_pos none]
    by_cases newline : (10 : UInt8) ∈ appdata
    · have whole := append_newline newline last
      have next : c.nextLine isAcked appdata = some (lineText (rest ++ appdata.dropLast)) := by
        rw [Connection.nextLine, if_neg (by simp [idle.idle]), if_pos newline, idle.holds.range_map]
      have sane := meets.2 _ next
      rw [← whole] at fits
      obtain ⟨state', called, outcome⟩ := newdata_line holds idle.split.unfinished last fits idle.idle rfl rfl sane
      rw [whole] at called
      obtain ⟨established, sent⟩ := @send_eq Device
        ⟨state', (parse (commandText (lineText (rest ++ appdata.dropLast))) c.device).device, [],
          c.stream ++ appdata, c.calls ++ [commandText (lineText (rest ++ appdata.dropLast))],
          c.received ++ c.inFlight, c.established⟩ rfl mss (outcome.outbuf ▸ sane.fits) isAcked stale
      rw [called]
      dsimp only at sent ⊢
      rw [sent]
      refine sound_called idle.executed (.inl ⟨rfl, rfl, rfl, rfl⟩) ?_ rfl ?_ rfl rfl outcome sane.answers
      · have split := idle.split.line last
        rw [whole] at split
        exact split
      · rw [← outcome.outbuf]
        rfl
    · obtain ⟨established, sent⟩ := @send_eq Device
        ⟨State.copy appdata { c.state with outbuf := [] }, c.device, [], c.stream ++ appdata, c.calls ++ [],
          c.received ++ c.inFlight, c.established⟩ rfl mss (Nat.zero_le mss) isAcked stale
      rw [newdata_part holds idle.split.unfinished newline fits]
      dsimp only at sent ⊢
      rw [sent, List.append_nil]
      refine ⟨rfl, .inl ⟨lines, rest ++ appdata, idle.split.part newline, idle.idle, holds.copy appdata fits, ?_⟩⟩
      rw [show (State.copy appdata { c.state with outbuf := [] }).outbuf = [] from rfl, List.append_nil]
      exact idle.executed

/-- A part of a line arrives while the output is in flight. -/
theorem Sound.packet_part {lines : List (List UInt8)} {rest : List UInt8} (sound : Sound parse start c)
    (idle : Idle parse start lines rest c) {appdata : List UInt8} (some : appdata ≠ [])
    (open_ : (10 : UInt8) ∉ appdata) (fits : c.state.inLen + appdata.length ≤ ecmdInputbufLength)
    (flight : c.inFlight ≠ []) (mss : Nat) (stale : Bytes) :
    let (texts, state, device, reply) := ecmdNetMain parse false appdata c.state c.device
    Sound parse start (Connection.send false mss stale reply
      { c with state, device, stream := c.stream ++ appdata, calls := c.calls ++ texts }) := by
  have reply : (c.state.copy appdata).reply = .send c.inFlight := by
    rw [← sound.outbuf] at flight ⊢
    exact if_pos flight
  rw [ecmdNetMain]
  simp only [Bool.false_eq_true, if_false, if_pos some, newdata_part idle.holds idle.split.unfinished open_ fits]
  rw [reply, Connection.send, appsend_same mss stale flight, List.append_nil, List.append_nil]
  exact ⟨sound.outbuf, .inl ⟨lines, rest ++ appdata, idle.split.part open_, idle.idle,
    idle.holds.copy appdata fits, idle.executed⟩⟩

/-- An acknowledgement for a connection with a command to be called again. -/
theorem Busy.packet {front : List (List UInt8)} {last : List UInt8} (busy : Busy parse start front last c)
    {mss : Nat} (stale : Bytes)
    (meets : c.Meets parse (.packet true [] mss stale)) :
    let (texts, state, device, reply) := ecmdNetMain parse true [] c.state c.device
    Sound parse start (Connection.send true mss stale reply
      ⟨state, device, [], c.stream ++ [], c.calls ++ texts, c.received ++ c.inFlight, c.established⟩) := by
  obtain ⟨calls, calls', output, output', left, device, executed, partway, texts, sent, text⟩ := busy.executed
  have next : c.nextLine true [] = some left := by
    rw [Connection.nextLine, if_pos ⟨rfl, busy.again⟩, text]
  have sane := meets.2 left next
  obtain ⟨state', called, outcome⟩ := acked_again busy.again text sane
  obtain ⟨established, goes⟩ := @send_eq Device
    ⟨state', (parse (commandText left) c.device).device, [], c.stream ++ [], c.calls ++ ([commandText left] ++ []),
      c.received ++ c.inFlight, c.established⟩ rfl mss (outcome.outbuf ▸ sane.fits) true stale
  rw [ecmdNetMain, if_pos rfl, called]
  dsimp only at goes ⊢
  rw [if_neg (not_not_intro rfl)]
  dsimp only
  rw [goes]
  refine sound_called executed (.inr partway) ?_ ?_ ?_ rfl rfl outcome sane.answers
  · rw [List.append_nil]
    exact busy.split
  · rw [texts, List.append_assoc]
    rfl
  · rw [← outcome.outbuf, sent, List.append_assoc]

theorem Sound.packet (sound : Sound parse start c) {isAcked : Bool} {appdata : List UInt8} {mss : Nat}
    {stale : Bytes} (meets : c.Meets parse (.packet isAcked appdata mss stale)) :
    Sound parse start (c.step parse (.packet isAcked appdata mss stale)) := by
  rw [Connection.step]
  dsimp only
  split
  next ignored =>
    have none : appdata = [] := by
      rcases ignored with closed | quiet
      · by_contra some
        exact absurd (closed.symm.trans (meets.1 some).1) (by decide)
      · exact quiet.2
    rw [none, List.append_nil]
    exact sound
  next called =>
    rw [not_or, not_and'] at called
    by_cases room : (isAcked && !c.inFlight.isEmpty) = true ∨ c.inFlight = []
    · have delivered : (if (isAcked && !c.inFlight.isEmpty) = true then
          { c with stream := c.stream ++ appdata, received := c.received ++ c.inFlight, inFlight := [] }
          else { c with stream := c.stream ++ appdata }) =
            { c with stream := c.stream ++ appdata, received := c.received ++ c.inFlight, inFlight := [] } := by
        split
        · rfl
        next unacked =>
          have idle := room.resolve_left unacked
          rw [idle, List.append_nil]
      rw [delivered]
      rcases sound.progress with ⟨lines, rest, idle⟩ | ⟨front, last, busy⟩
      · refine sound.packet_idle idle room stale ⟨fun some => ?_, fun line next => meets.2 line ?_⟩
        · obtain ⟨open_, again, -, rest⟩ := meets.1 some
          exact ⟨open_, again, fun _ => room, rest⟩
        · rw [Connection.nextLine, if_neg (by simp [idle.idle])] at next ⊢
          exact next
      · have flight : c.inFlight.isEmpty = false := by simpa using busy.answered
        have none : appdata = [] := by
          by_contra some
          exact absurd (busy.again.symm.trans (meets.1 some).2.1) (by decide)
        have yes : isAcked = true := by
          have := room.resolve_right busy.answered
          rwa [flight, Bool.not_false, Bool.and_true] at this
        subst none yes
        rw [flight]
        exact busy.packet stale meets
    · obtain ⟨unacked, flight⟩ := not_or.mp room
      rw [Bool.not_eq_true] at unacked
      have some : appdata ≠ [] := fun none => called.2 none unacked
      obtain ⟨-, again, ready, -, fits⟩ := meets.1 some
      have open_ : (10 : UInt8) ∉ appdata := by
        intro newline
        rcases ready newline with yes | idle
        · exact absurd (unacked.symm.trans (by simp [yes, flight])) Bool.false_ne_true
        · exact flight idle
      rcases sound.progress with ⟨lines, rest, idle⟩ | ⟨front, last, busy⟩
      · rw [unacked]
        exact sound.packet_part idle some open_ fits flight mss stale
      · exact absurd (busy.again.symm.trans again) (by decide)

theorem Sound.step (sound : Sound parse start c) {event : Event} (meets : c.Meets parse event) :
    Sound parse start (c.step parse event) := by
  cases event with
  | packet isAcked appdata mss stale => exact sound.packet meets
  | rexmit stale =>
      rw [Connection.step]
      split
      · exact sound
      next outstanding =>
        -- the output is sent again as it is
        rw [not_or] at outstanding
        have some : c.state.outbuf ≠ [] := sound.outbuf ▸ outstanding.2
        have reply : c.state.reply = .send c.state.outbuf := if_pos some
        rw [reply, ← sound.outbuf, apprexmit_same stale some, sound.outbuf]
        exact sound
  | poll mss stale =>
      rw [Connection.step]
      split
      · exact sound
      next idle =>
        rw [not_or, not_not] at idle
        obtain ⟨established, sent⟩ := @send_eq Device c idle.2 mss
          (by rw [sound.outbuf, idle.2]; exact Nat.zero_le mss) false stale
        rw [sent, sound.outbuf]
        exact sound.with_established established

theorem Sound.run (sound : Sound parse start c) {events : List Event} (meet : c.AllMeet parse events) :
    Sound parse start (c.run parse events) := by
  induction events generalizing c with
  | nil => exact sound
  | cons event rest ih => exact ih (sound.step meet.1) meet.2

/-- Two connections that were sent the same, and have no output in flight. -/
theorem Served.unique {c' : Connection Device} (served : Served parse start c) (served' : Served parse start c')
    (same : c.stream = c'.stream) (done : c.inFlight = []) (done' : c'.inFlight = []) :
    c.calls = c'.calls ∧ c.received = c'.received ∧ c.device = c'.device := by
  obtain ⟨lines, rest, split, all⟩ := served
  obtain ⟨lines', rest', split', all'⟩ := served'
  obtain ⟨rfl, -⟩ := split.unique (same ▸ split')
  have executed := all.resolve_right fun busy => busy.1 done
  have executed' := all'.resolve_right fun busy => busy.1 done'
  rw [done, List.append_nil] at executed
  rw [done', List.append_nil] at executed'
  exact executed.unique executed'

end Runs

/-- In every run whose steps meet the condition, the commands that have arrived are executed in their
order, each once and as long as it wants to be called again, and the client gets their output; so two
such runs of one stream lead to the same. -/
theorem ecmd_segmentation {Device : Type} (parse : Parser Device) (device : Device) (events : List Event)
    (meet : (Connection.start device).AllMeet parse events) :
    Served parse device ((Connection.start device).run parse events) ∧
    ∀ events', (Connection.start device).AllMeet parse events' →
      ((Connection.start device).run parse events).stream = ((Connection.start device).run parse events').stream →
      ((Connection.start device).run parse events).inFlight = [] →
      ((Connection.start device).run parse events').inFlight = [] →
      ((Connection.start device).run parse events).calls = ((Connection.start device).run parse events').calls ∧
      ((Connection.start device).run parse events).received =
        ((Connection.start device).run parse events').received ∧
      ((Connection.start device).run parse events).device =
        ((Connection.start device).run parse events').device := by
  have served := ((sound_start device).run meet).served
  refine ⟨served, fun events' meet' same done done' => ?_⟩
  exact served.unique ((sound_start device).run meet').served same done done'

/-! ## Two streams -/

/-- A parser whose first command has to be called twice. -/
def twice : Parser Nat := fun _ device => ⟨device = 0, [97], [], device + 1⟩

theorem twice_sane (line : List UInt8) (device : Nat) : (twice (commandText line) device).Sane 50 :=
  ⟨(by decide : 1 < ecmdOutputbufLength), (by decide : 2 ≤ 50), fun _ => List.cons_ne_nil _ _, nofun,
    (by decide : 1 < ecmdInputbufLength)⟩

/-- A line in two segments, a segment that is sent again, and a line that comes with an
acknowledgement. -/
def twoLines : List Event :=
  [.packet false [97, 98] 50 fun _ => 0, .packet false [10] 50 fun _ => 0, .rexmit fun _ => 0,
    .packet true [] 50 fun _ => 0, .packet true [99, 10] 50 fun _ => 0, .packet true [] 50 fun _ => 0]

/-- The same lines in segments of their own. -/
def twoSegments : List Event :=
  [.packet false [97, 98, 10] 50 fun _ => 0, .packet true [] 50 fun _ => 0, .packet true [] 50 fun _ => 0,
    .poll 50 fun _ => 0, .packet false [99, 10] 50 fun _ => 0, .packet true [] 50 fun _ => 0]

theorem twoLines_meet : (Connection.start 0).AllMeet twice twoLines :=
  ⟨⟨fun _ => by decide, fun line _ => twice_sane line _⟩, ⟨fun _ => by decide, fun line _ => twice_sane line _⟩,
    trivial, ⟨fun some => absurd rfl some, fun line _ => twice_sane line _⟩,
    ⟨fun _ => by decide, fun line _ => twice_sane line _⟩,
    ⟨fun some => absurd rfl some, fun line _ => twice_sane line _⟩, trivial⟩

theorem twoSegments_meet : (Connection.start 0).AllMeet twice twoSegments :=
  ⟨⟨fun _ => by decide, fun line _ => twice_sane line _⟩,
    ⟨fun some => absurd rfl some, fun line _ => twice_sane line _⟩,
    ⟨fun some => absurd rfl some, fun line _ => twice_sane line _⟩, trivial,
    ⟨fun _ => by decide, fun line _ => twice_sane line _⟩,
    ⟨fun some => absurd rfl some, fun line _ => twice_sane line _⟩, trivial⟩

theorem ecmd_segmentation_two :
    Served twice 0 ((Connection.start 0).run twice twoLines) ∧
      ((Connection.start 0).run twice twoLines).calls = ((Connection.start 0).run twice twoSegments).calls := by
  obtain ⟨served, same⟩ := ecmd_segmentation twice 0 twoLines twoLines_meet
  exact ⟨served, (same twoSegments twoSegments_meet (by decide) (by decide) (by decide)).1⟩

/-- A parser that answers with the command. -/
def echo : Parser Unit := fun text device => ⟨false, text, text, device⟩

/-- Two lines in one segment: the second one is lost; in two segments, both are executed. -/
theorem ecmd_line_lost :
    let one := (Connection.start ()).run echo
      [.packet false [97, 10, 98, 10] 50 fun _ => 0, .packet true [] 50 fun _ => 0]
    let two := (Connection.start ()).run echo
      [.packet false [97, 10] 50 fun _ => 0, .packet true [98, 10] 50 fun _ => 0, .packet true [] 50 fun _ => 0]
    one.stream = two.stream ∧ one.inFlight = [] ∧ two.inFlight = [] ∧ one.calls = [[97]] ∧
      two.calls = [[97], [98]] := by
  decide

end Ethersex.Ecmd
