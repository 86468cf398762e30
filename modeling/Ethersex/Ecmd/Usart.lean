import Mathlib
import Ethersex.Library.CString

/-!
# Commands over the serial line

The receive interrupt collects a line, the main loop has it parsed and prepares the reply, and the
transmit interrupt sends it.  Interrupts come between any two steps of the main loop.

`size` is `ECMD_SERIAL_USART_BUFFER_LEN`.  An access outside a buffer is not defined, `none`.
-/

namespace Ethersex.Ecmd.Usart

open Ethersex.Library

/-! ## Results of commands -/

def ECMD_AGAIN_MAGIC : Int := -10

def ECMD_AGAIN (len : Int) : Int := ECMD_AGAIN_MAGIC - len

def isEcmdAgain (len : Int) : Bool := len ≤ ECMD_AGAIN_MAGIC

def isEcmdErr (len : Int) : Bool := ECMD_AGAIN_MAGIC < len ∧ len < 0

/-- What a command does when it has `room` for its output: its result, what it writes there, and
what it makes of the buffer with its text. -/
structure Answer (room : Nat) where
  ret : Int
  output : List UInt8
  edits : Bytes → Bytes
  proper : ECMD_AGAIN room ≤ ret ∧ ret ≤ room
  fits : output.length ≤ room

/-! ## The state -/

/-- What comes next in `ecmd_serial_usart_periodic`. -/
inductive Periodic where
  /-- It was not called, or it returned. -/
  | idle
  | clearMustParse
  | testRecvLen
  | dropLine
  | call
  /-- `ecmd_parse_command` was called with this text. -/
  | called (cmd : List UInt8)
  | testResult
  | convertAgain
  | clearRecvLen
  | startReply
deriving DecidableEq

structure State where
  recv_buffer : Bytes
  write_buffer : Bytes
  recv_len : UInt8
  sent : UInt8
  write_len : Int
  must_parse : Bool
  /-- Whether the transmit interrupt is enabled. -/
  TXCIE : Bool
  /-- What was written to `UDR`. -/
  transmitted : List UInt8
  periodic : Periodic

/-- After `ecmd_serial_usart_init`. -/
def ecmdSerialUsartInit (recv_buffer write_buffer : Bytes) : State where
  recv_buffer
  write_buffer
  recv_len := 0
  sent := 0
  write_len := 0
  must_parse := false
  TXCIE := false
  transmitted := []
  periodic := .idle

variable {size : Nat}

/-! ## The parser -/

/-- The result of `ecmd_parse_command` for a text, with the answer of the command that it names, if it
names one. -/
def result (cmd : List UInt8) (func : Option (Answer (size + 2))) : Int :=
  if cmd.length < 2 then 0
  else
    match (func.map Answer.ret).getD (-1) with
    | -1 => 11
    | 0 => 2
    | ret => ret

/-- "parse error" -/
def parseErrorText : List UInt8 := [112, 97, 114, 115, 101, 32, 101, 114, 114, 111, 114]

/-- "OK" -/
def okText : List UInt8 := [79, 75]

/-- The buffers after a command. -/
def apply (answer : Answer (size + 2)) (state : State) : State :=
  { state with
    recv_buffer := answer.edits state.recv_buffer
    write_buffer := overlay (size + 2) 0 answer.output.length (cString answer.output) state.write_buffer }

/-- A text of the parser itself, behind which there is no zero. -/
def print (size : Nat) (text : List UInt8) (state : State) : Option State :=
  if text.length ≤ size + 2 then
    some { state with
      write_buffer := overlay (size + 2) 0 text.length (cString text) state.write_buffer }
  else none

def ecmdParseCommand (cmd : List UInt8) (func : Option (Answer (size + 2))) (state : State) :
    Option State :=
  if cmd.length < 2 then some state
  else
    let state := func.elim state (apply · state)
    match (func.map Answer.ret).getD (-1) with
    | -1 => print size parseErrorText state
    | 0 => print size okText state
    | _ => some state

/-! ## The main loop -/

/-- A step of `ecmd_serial_usart_periodic`.  Neighbouring statements are one step where an interrupt
between them makes no difference. -/
def periodicStep (func : Option (Answer (size + 2))) (state : State) : Option State :=
  match state.periodic with
  | .idle => some <|
      if state.must_parse ∧ state.write_len = 0 then { state with periodic := .clearMustParse } else state
  | .clearMustParse => some { state with must_parse := false, periodic := .testRecvLen }
  | .testRecvLen => some { state with periodic := if state.recv_len ≤ 1 then .dropLine else .call }
  | .dropLine => some { state with recv_len := 0, periodic := .idle }
  | .call =>
      let cmd := fieldText size state.recv_buffer
      if cmd.length < size then some { state with periodic := .called cmd } else none
  | .called cmd =>
      (ecmdParseCommand cmd func state).map fun state =>
        { state with write_len := result cmd func, periodic := .testResult }
  | .testResult =>
      some { state with
        periodic :=
          if isEcmdAgain state.write_len then .convertAgain
          else if isEcmdErr state.write_len then .idle
          else .clearRecvLen }
  | .convertAgain =>
      some { state with write_len := ECMD_AGAIN state.write_len, must_parse := true, periodic := .startReply }
  | .clearRecvLen => some { state with recv_len := 0, periodic := .startReply }
  | .startReply =>
      if 0 ≤ state.write_len ∧ state.write_len + 1 < size + 2 then
        let last := state.write_len.toNat
        let write_buffer := Function.update (Function.update state.write_buffer last 13) (last + 1) 10
        some { state with
          write_buffer
          write_len := state.write_len + 2
          sent := 1
          transmitted := state.transmitted ++ [write_buffer 0]
          TXCIE := true
          periodic := .idle }
      else none

/-! ## The interrupts -/

def endsLine (data : UInt8) : Bool := data = 10 ∨ data = 13

/-- The receive interrupt, with an error of the receiver or without. -/
def rxVect (size : Nat) (error : Bool) (data : UInt8) (state : State) : Option State :=
  if error ∨ state.must_parse then some state
  else if endsLine data ∨ state.recv_len.toNat = size then
    if state.recv_len.toNat < size then
      some { state with
        recv_buffer := Function.update state.recv_buffer state.recv_len.toNat 0
        must_parse := true
        transmitted := state.transmitted ++ [13, 10] }
    else none
  else
    if state.recv_len.toNat < size then
      some { state with
        transmitted := state.transmitted ++ [data]
        recv_buffer := Function.update state.recv_buffer state.recv_len.toNat data
        recv_len := state.recv_len + 1 }
    else none

/-- The transmit interrupt, when it is enabled. -/
def txVect (size : Nat) (state : State) : Option State :=
  if ¬state.TXCIE then some state
  else if state.sent.toNat < state.write_len then
    if state.sent.toNat < size + 2 then
      some { state with
        transmitted := state.transmitted ++ [state.write_buffer state.sent.toNat]
        sent := state.sent + 1 }
    else none
  else some { state with TXCIE := false, write_len := 0 }

/-! ## Runs -/

inductive Event (size : Nat) where
  | receive (error : Bool) (data : UInt8)
  | transmit
  /-- A step of the main loop, with the answer of a command that returns in it. -/
  | periodic (func : Option (Answer (size + 2)))

def next (state : State) : Event size → Option State
  | .receive error data => rxVect size error data state
  | .transmit => txVect size state
  | .periodic func => periodicStep func state

/-- The line that came over the wire since the last one was done with. -/
inductive Line where
  | collecting (bytes : List UInt8)
  | complete (bytes : List UInt8)
  /-- The command wants to be called again. -/
  | again
deriving DecidableEq

def Line.receive (data : UInt8) : Line → Line
  | .collecting bytes => if endsLine data then .complete bytes else .collecting (bytes ++ [data])
  | line => line

/-- The state together with what happened: the line, and the calls of the parser, each with its text
and the line at that time. -/
structure System where
  state : State
  line : Line
  calls : List (List UInt8 × Line)

/-- The line after a step of the main loop.  A line is done with when it is dropped, or when its
command fails or does not want to be called again. -/
def lineAfter (state : State) (line : Line) : Line :=
  match state.periodic with
  | .dropLine | .clearRecvLen => .collecting []
  | .testResult => if isEcmdErr state.write_len then .collecting [] else line
  | .convertAgain => .again
  | _ => line

def history (system : System) : Event size → Line × List (List UInt8 × Line)
  | .receive error data =>
      (if error then system.line else system.line.receive data, system.calls)
  | .transmit => (system.line, system.calls)
  | .periodic _ =>
      (lineAfter system.state system.line,
        if system.state.periodic = .call then
          system.calls ++ [(fieldText size system.state.recv_buffer, system.line)]
        else system.calls)

def step (system : Option System) (event : Event size) : Option System :=
  system.bind fun system =>
    (next system.state event).map fun state =>
      ⟨state, (history system event).1, (history system event).2⟩

def start (recv_buffer write_buffer : Bytes) : System :=
  ⟨ecmdSerialUsartInit recv_buffer write_buffer, .collecting [], []⟩

end Ethersex.Ecmd.Usart
