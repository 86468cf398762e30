import Mathlib
import Ethersex.Library.CString
import Ethersex.Library.Search

/-!
# The Jabber client

The client logs in to its server, has commands in messages parsed, and sends the answers and the
messages of the program from one buffer.
-/

namespace Ethersex.Jabber

open Library

/-- A text of the program. -/
def PSTR (text : String) : List UInt8 := text.toList.map fun ch => ch.toNat.toUInt8

def TARGET_BUDDY_MAXLEN : Nat := 40

def ECMD_OUTPUTBUF_LENGTH : Nat := 50

/-- The two buffers of a connection, which lie behind each other. -/
def BUFFERS : Nat := TARGET_BUDDY_MAXLEN + ECMD_OUTPUTBUF_LENGTH

/-- The configuration, with the room that the packet buffer has for data. -/
structure Config where
  CONF_HOSTNAME : List UInt8
  CONF_JABBER_HOSTNAME : List UInt8
  CONF_JABBER_USERNAME : List UInt8
  CONF_JABBER_RESOURCE : List UInt8
  CONF_JABBER_PASSWORD : List UInt8
  CONF_JABBER_BUDDY : List UInt8
  jabber_known_buddies : List (List UInt8)
  room : Nat

namespace Config

variable (c : Config)

def jabber_stream_text : List UInt8 :=
  PSTR "<?xml version='1.0'?>" ++
    PSTR "<stream:stream xmlns:stream='http://etherx.jabber.org/streams' " ++
    PSTR "xmlns='jabber:client' to='" ++ c.CONF_JABBER_HOSTNAME ++ PSTR "' " ++
    PSTR "from='" ++ c.CONF_HOSTNAME ++ PSTR "' xml:lang='en' >"

def jabber_get_auth_text : List UInt8 :=
  PSTR "<iq id='ga' type='get'><query xmlns='jabber:iq:auth'>" ++
    PSTR "<username>" ++ c.CONF_JABBER_USERNAME ++ PSTR "</username></query></iq>"

def jabber_set_auth_text : List UInt8 :=
  PSTR "<iq id='sa' type='set'><query xmlns='jabber:iq:auth'>" ++
    PSTR "<resource>" ++ c.CONF_JABBER_RESOURCE ++ PSTR "</resource>" ++
    PSTR "<username>" ++ c.CONF_JABBER_USERNAME ++ PSTR "</username>" ++
    PSTR "<password>" ++ c.CONF_JABBER_PASSWORD ++ PSTR "</password></query></iq>"

def jabber_set_presence_text : List UInt8 := PSTR "<presence><priority>1</priority></presence>"

def jabber_startup_text : List UInt8 :=
  PSTR "Your Ethersex '" ++ c.CONF_HOSTNAME ++ PSTR "' is now UP :)"

end Config

/-! ## The state of a connection -/

inductive Stage where
  | INIT
  | OPEN_STREAM
  | GET_AUTH
  | SET_AUTH
  | SET_PRESENCE
  | CONNECTED
deriving DecidableEq

namespace Stage

/-- The value in the enumeration. -/
def value : Stage → Nat
  | INIT => 0
  | OPEN_STREAM => 1
  | GET_AUTH => 2
  | SET_AUTH => 3
  | SET_PRESENCE => 4
  | CONNECTED => 5

/-- `stage ++`, except for the last one. -/
def next : Stage → Stage
  | INIT => OPEN_STREAM
  | OPEN_STREAM => GET_AUTH
  | GET_AUTH => SET_AUTH
  | SET_AUTH => SET_PRESENCE
  | SET_PRESENCE => CONNECTED
  | CONNECTED => CONNECTED

end Stage

/-- `jabber_connection_state_t`; `target` comes first in the buffers, then `outbuf`. -/
structure Appstate where
  stage : Stage
  sent : Stage
  buffers : Bytes

namespace Appstate

/-- The text at `target`. -/
def target (s : Appstate) : List UInt8 := fieldText BUFFERS s.buffers

/-- The text in `outbuf`. -/
def outbuf (s : Appstate) : List UInt8 :=
  fieldText ECMD_OUTPUTBUF_LENGTH fun k => s.buffers (TARGET_BUDDY_MAXLEN + k)

/-- `strcpy` to an offset in the buffers. -/
def strcpy (offset : Nat) (text : List UInt8) (s : Appstate) : Appstate :=
  { s with buffers := overlay BUFFERS offset (text.length + 1) (cString text) s.buffers }

/-- A zero is written to a place in `outbuf`. -/
def terminate (k : Nat) (s : Appstate) : Appstate :=
  { s with buffers := Function.update s.buffers (TARGET_BUDDY_MAXLEN + k) 0 }

end Appstate

/-! ## Commands -/

/-- What a call of `ecmd_parse_command` does: the length of its output, none for an error, what it
leaves in `outbuf`, whether it closed the connection, and the state of the device. -/
structure Answer (Device : Type) where
  len : Option Nat
  outbuf : Bytes
  closes : Bool
  device : Device

/-- `ecmd_parse_command`. -/
abbrev Parser (Device : Type) := List UInt8 → Device → Answer Device

/-- What the parsing of a packet leaves: whether it failed, whether it closed the connection, and
the command that was executed. -/
structure Parsed (Device : Type) where
  appstate : Appstate
  device : Device
  fails : Bool
  closes : Bool
  command : Option (List UInt8)

section Client

variable {Device : Type} (c : Config) (ecmd_parse_command : Parser Device)

/-- Whether commands of a sender are executed. -/
def auth (sender : List UInt8) : Bool :=
  c.jabber_known_buddies = [] ∨ sender ∈ c.jabber_known_buddies

def jabberParseEcmd (sender message : List UInt8) (s : Appstate) (device : Device) : Parsed Device :=
  if sender.length > TARGET_BUDDY_MAXLEN then ⟨s, device, false, false, none⟩
  else
    let s := s.strcpy 0 sender
    if ¬auth c sender then
      ⟨s.strcpy TARGET_BUDDY_MAXLEN (PSTR "permission denied"), device, false, false, none⟩
    else
      let answer := ecmd_parse_command message device
      let s := { s with
        buffers := overlay BUFFERS TARGET_BUDDY_MAXLEN ECMD_OUTPUTBUF_LENGTH answer.outbuf s.buffers }
      let s := match answer.len with
        | none => s.strcpy TARGET_BUDDY_MAXLEN (PSTR "parse error")
        | some len => s.terminate len
      ⟨s, answer.device, false, answer.closes, some message⟩

/-- The text at a place of the packet. -/
def textAt (memory : Bytes) (start : Nat) : List UInt8 :=
  fieldText (c.room - start) fun k => memory (start + k)

/-- `strstr`, and `strchr` for a single character: the place that is found. -/
def find (pattern : List UInt8) (memory : Bytes) (start : Nat) : Option Nat :=
  (strstr pattern (textAt c memory start)).map fun found =>
    start + ((textAt c memory start).length - found.length)

/-- The sender and the text of a message, if the packet has them.  Zeros are put behind both. -/
def message (memory : Bytes) : Option (List UInt8 × List UInt8) := do
  let sender ← find c (PSTR "from=") memory 0
  let body ← find c (PSTR "<body>") memory 0
  let ptr ← find c (PSTR "</bod") memory 0
  let memory := Function.update memory ptr 0
  let ptr ← find c (PSTR "/") memory (sender + 6) <|> find c (PSTR "'") memory (sender + 6) <|>
    find c (PSTR "\"") memory (sender + 6)
  let memory := Function.update memory ptr 0
  return (textAt c memory (sender + 6), textAt c memory (body + 6))

def jabberParse (memory : Bytes) (s : Appstate) (device : Device) : Parsed Device :=
  let failed : Parsed Device := ⟨s, device, true, false, none⟩
  let passed : Parsed Device := ⟨{ s with stage := s.stage.next }, device, false, false, none⟩
  let text := textAt c memory 0
  match s.stage with
  | .INIT => failed
  | .OPEN_STREAM => if strstr (PSTR "<stream:stream") text = none then failed else passed
  | .GET_AUTH => if strstr (PSTR "<password/>") text = none then failed else passed
  | .SET_AUTH => if strstr (PSTR "result") text = none then failed else passed
  | .SET_PRESENCE | .CONNECTED =>
      if strncmp memory (cString (PSTR "<mess")) 5 = 0 then
        match message c memory with
        | none => passed
        | some (sender, body) =>
            let parsed := jabberParseEcmd c ecmd_parse_command sender body s device
            { parsed with appstate := { parsed.appstate with stage := s.stage.next } }
      else passed

end Client

/-- The data of a packet with the zero behind them, in front of what was in the buffer before. -/
def received (data : List UInt8) (stale : Bytes) : Bytes := fun k =>
  if k = data.length then 0 else data[k]?.getD (stale k)

end Ethersex.Jabber
