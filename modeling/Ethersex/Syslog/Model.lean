import Mathlib
import Ethersex.Library.Slots

/-!
# The syslog client

Messages wait in a table of callbacks until a flush hands one of them to UDP.  Messages that are
formatted at run time share one buffer, which one callback sends as a whole.

Texts are given by their characters, without the zero at the end.  Where a text does not fit into
the packet buffer the result is not defined, `none`.
-/

namespace Ethersex.Syslog

open Ethersex.Library

def MAX_DYNAMIC_SYSLOG_BUFFER : Nat := 500

def SYSLOG_CALLBACKS : Nat := 3

abbrev Text := List UInt8

inductive Callback where
  | syslogSendCbP
  | syslogSendCb
deriving DecidableEq

/-- What a callback sends: the send buffer, or a text elsewhere, which stays as it is. -/
inductive Data where
  | sendBuffer
  | message (text : Text)
deriving DecidableEq

structure SyslogCallbackCtx where
  callback : Callback
  data : Data
deriving DecidableEq

/-- The client, the messages that it accepted so far, and the datagrams that it handed to UDP. -/
structure State where
  send_buffer : Text
  syslog_callbacks : List (Option SyslogCallbackCtx)
  accepted : List Text
  datagrams : List Text
deriving DecidableEq

def start : State := ⟨[], List.replicate SYSLOG_CALLBACKS none, [], []⟩

namespace State

def text (state : State) : Data → Text
  | .sendBuffer => state.send_buffer
  | .message text => text

/-- A call returned 1. -/
def accept (state : State) (message : Text) (result : Bool) : State :=
  if result then { state with accepted := state.accepted ++ [message] } else state

end State

def syslogInsertCallback (callback : Callback) (data : Data) (state : State) : Bool × State :=
  match insertSlot ⟨callback, data⟩ state.syslog_callbacks with
  | some syslog_callbacks => (true, { state with syslog_callbacks })
  | none => (false, state)

def syslogSendP (message : Text) (state : State) : Bool × State :=
  syslogInsertCallback .syslogSendCbP (.message message) state

def syslogSendPtr (message : Text) (state : State) : Bool × State :=
  syslogInsertCallback .syslogSendCb (.message message) state

def syslogSend (message : Text) (state : State) : Bool × State :=
  let offset := state.send_buffer.length
  if message.length + offset + 1 > MAX_DYNAMIC_SYSLOG_BUFFER then (false, state)
  else
    let state := { state with send_buffer := state.send_buffer ++ message }
    if offset = 0 then syslogInsertCallback .syslogSendCb .sendBuffer state else (true, state)

/-- `syslog_sendf`, called with a format and arguments that give a text. -/
def syslogSendf (text : Text) (state : State) : Bool × State :=
  let offset := state.send_buffer.length
  let printed := text.take (MAX_DYNAMIC_SYSLOG_BUFFER - offset - 1)
  let state := { state with send_buffer := state.send_buffer ++ printed }
  if offset = 0 then syslogInsertCallback .syslogSendCb .sendBuffer state else (true, state)

/-- A callback copies its text to the packet buffer, which has `appdata` bytes behind the headers. -/
def call (appdata : Nat) (ctx : SyslogCallbackCtx) (state : State) : Option (Text × State) :=
  let text := state.text ctx.data
  if text.length + 1 > appdata then none
  else
    match ctx with
    | ⟨.syslogSendCb, .sendBuffer⟩ => some (text, { state with send_buffer := [] })
    | _ => some (text, state)

/-- `syslog_flush`, when the address of the server is known or not.  An empty text sends nothing. -/
def syslogFlush (appdata : Nat) (known : Bool) (state : State) : Option State :=
  if known then
    match takeSlot state.syslog_callbacks with
    | none => some state
    | some (ctx, rest) =>
        (call appdata ctx state).map fun (text, state) =>
          { state with
            syslog_callbacks := rest
            datagrams := if text = [] then state.datagrams else state.datagrams ++ [text] }
  else some state

inductive Event where
  | send (message : Text)
  | sendf (text : Text)
  | sendP (message : Text)
  | sendPtr (message : Text)
  | flush (known : Bool)

/-- A call, and the message if it was accepted. -/
def logged (message : Text) (called : Bool × State) : State := called.2.accept message called.1

def step (appdata : Nat) (state : Option State) (event : Event) : Option State :=
  state.bind fun state =>
    match event with
    | .send message => some (logged message (syslogSend message state))
    | .sendf text => some (logged text (syslogSendf text state))
    | .sendP message => some (logged message (syslogSendP message state))
    | .sendPtr message => some (logged message (syslogSendPtr message state))
    | .flush known => syslogFlush appdata known state

end Ethersex.Syslog
