import Mathlib
import Ethersex.Library.CString
import Ethersex.Library.Search

/-!
# Basic authentication

`httpd_handle_input` parses a request in the segment it has arrived in.  It looks for the credentials
behind the first `Authorization: `, and when there are none in the first segment, in the next one, with
the file already open.  The password is compared up to the length of the right one only.
-/

namespace Ethersex.Httpd.Auth

open Library

/-! ## The texts -/

/-- `Authorization: `. -/
def authorization : List UInt8 := [65, 117, 116, 104, 111, 114, 105, 122, 97, 116, 105, 111, 110, 58, 32]

/-- `Basic `. -/
def basic : List UInt8 := [66, 97, 115, 105, 99, 32]

/-- The end of a line, and the one of the header. -/
def crlf : List UInt8 := [13, 10]

def crlfcrlf : List UInt8 := [13, 10, 13, 10]

/-- `GET /`, in lower case. -/
def get : List UInt8 := [103, 101, 116, 32, 47]

/-- `HTTPD_INDEX`, and `ECMD_INDEX` with a question mark. -/
def httpdIndex : List UInt8 := [105, 100, 120, 46, 104, 116]

def ecmdIndex : List UInt8 := [101, 99, 109, 100, 63]

def toLower (ch : UInt8) : UInt8 := if 65 ≤ ch ∧ ch ≤ 90 then ch + 32 else ch

/-- `strncasecmp` finds `GET /`. -/
def IsGet (text : List UInt8) : Prop := (text.take 5).map toLower = get

instance (text : List UInt8) : Decidable (IsGet text) := inferInstanceAs (Decidable (_ = _))

/-! ## The server -/

/-- `CONF_HTTPD_USERNAME` with a colon behind it, the password, what `base64_str_decode` makes of a
text, and what lies in data memory at the address of `Authorization: ` in program memory; the files,
and whether a command fits its buffer. -/
structure Config where
  username : List UInt8
  password : List UInt8
  decode : List UInt8 → List UInt8
  ram : Bytes
  vfsOpen : List UInt8 → Bool
  ecmdSetup : List UInt8 → Bool
  named : ∀ ch ∈ username, ch ≠ 0
  secret : ∀ ch ∈ password, ch ≠ 0

/-- The handlers: `httpd_handle_400`, `401` and `404`, the ones for files, and the one for commands. -/
inductive Handler where
  | badRequest
  | unauthorized
  | notFound
  | vfs
  | ecmd
  deriving DecidableEq, Repr

structure State where
  handler : Option Handler
  headerReparse : Bool
  deriving DecidableEq, Repr

section Server

variable (config : Config)

/-- What is behind the label `after_auth`: the handler for a file name. -/
def afterAuth (filename : List UInt8) (state : State) : State :=
  let filename := if filename = [] then httpdIndex else filename
  if ecmdIndex <+: filename then
    if config.ecmdSetup (filename.drop 5) then { state with handler := some .ecmd } else state
  else if config.vfsOpen filename then { state with handler := some .vfs }
  else if config.vfsOpen (filename ++ (if filename.getLast? = some 47 then [] else [47]) ++ httpdIndex) then
    { state with handler := some .vfs }
  else { state with handler := some .notFound }

/-- `auth_failed`. -/
def authFailed : State := ⟨some .unauthorized, false⟩

/-- The last line of a text. -/
def lastLine (line : List UInt8) : List UInt8 → List UInt8
  | [] => line
  | ch :: rest => if crlf <+: ch :: rest then lastLine rest.tail rest else lastLine line rest

/-- The last line is taken for the beginning of `Authorization: `. -/
def Splits (start : List UInt8) : Prop :=
  strncmp (cString (lastLine start start)) config.ram (lastLine start start).length = 0

instance (start : List UInt8) : Decidable (Splits config start) := inferInstanceAs (Decidable (_ = _))

/-- The user name and the password are the right ones. -/
def Accepts (credentials : List UInt8) : Prop :=
  strncmp (cString credentials) (cString config.username) config.username.length = 0 ∧
    strncmp (cString config.password) (cString (credentials.drop config.username.length))
      config.password.length = 0

instance (credentials : List UInt8) : Decidable (Accepts config credentials) := inferInstanceAs (Decidable (_ ∧ _))

/-- The text behind `Basic `, up to the end of the line. -/
def token (found : List UInt8) : Option (List UInt8) :=
  (strstr [10] (found.drop 21)).map fun nl => (found.drop 21).take ((found.drop 21).length - nl.length)

/-- What is behind the label `start_auth`; nothing when there is no file name to go on with. -/
def startAuth (filename : Option (List UInt8)) (start : List UInt8) (state : State) : Option State :=
  match strstr authorization start with
  | none =>
      if (strstr crlfcrlf start).isSome then some authFailed
      else if Splits config start then some authFailed
      else filename.map fun filename => afterAuth config filename { state with headerReparse := true }
  | some found =>
      if ¬basic <+: found.drop 15 then some authFailed
      else
        match token found with
        | none => some authFailed
        | some token =>
            if ¬Accepts config (config.decode token) then some authFailed
            else if state.headerReparse then some { state with headerReparse := false }
            else filename.map fun filename => afterAuth config filename state

/-- The file name of a request, and the text behind it. -/
def request (text : List UInt8) : Option (List UInt8 × List UInt8) :=
  if IsGet text then
    (strstr [32] (text.drop 5)).map fun ptr => ((text.drop 5).take ((text.drop 5).length - ptr.length), ptr.tail)
  else none

/-- `httpd_handle_input`.  Behind the segment lies what was in the buffer before; a string ends at the
first zero. -/
def httpdHandleInput (segment stale : List UInt8) (state : State) : Option State :=
  let text := (segment ++ stale).takeWhile (· ≠ 0)
  if state.headerReparse then startAuth config none text state
  else if segment.length < 6 then some { state with handler := some .badRequest }
  else
    match request text with
    | none => some { state with handler := some .badRequest }
    | some (filename, start) => startAuth config (some filename) start state

/-! ## A connection -/

/-- The handlers that give something away. -/
def Serves (handler : Option Handler) : Prop := handler = some .vfs ∨ handler = some .ecmd

instance (handler : Option Handler) : Decidable (Serves handler) := inferInstanceAs (Decidable (_ ∨ _))

/-- The state, all that has arrived, and whether a handler was run that gives something away. -/
structure Connection where
  state : State
  stream : List UInt8
  served : Bool
  deriving DecidableEq, Repr

def Connection.start : Connection := ⟨⟨none, false⟩, [], false⟩

/-- A segment arrives, or the application is called for another reason. -/
inductive Event where
  | segment (segment stale : List UInt8)
  | other

/-- The handler is run. -/
def Connection.handle (c : Connection) : Connection :=
  if Serves c.state.handler ∧ c.state.headerReparse = false then { c with served := true } else c

/-- `httpd_main`; nothing when a file name is used that was never set. -/
def Connection.step (c : Connection) : Event → Option Connection
  | .segment segment stale =>
      let c := { c with stream := c.stream ++ segment }
      if c.state.handler = none ∨ c.state.headerReparse = true then
        (httpdHandleInput config segment stale c.state).map fun state => { c with state }.handle
      else some c.handle
  | .other => some c.handle

def Connection.run : List Event → Connection → Option Connection
  | [], c => some c
  | event :: rest, c => (c.step config event).bind (run rest)

/-! ## Authorized requests -/

/-- The header names the method and the credentials are the configured ones. -/
def AuthorizedAt (found : List UInt8) : Prop :=
  basic <+: found.drop 15 ∧
    ∃ credentials, token found = some credentials ∧ config.decode credentials = config.username ++ config.password

/-- The first `Authorization: ` of a header is right. -/
def Authorized (start : List UInt8) : Prop :=
  ∃ found, strstr authorization start = some found ∧ AuthorizedAt config found

/-- What has arrived asks for something that is there, and is authorized. -/
def Grants (stream : List UInt8) : Prop :=
  ∃ filename start, request stream = some (filename, start) ∧
    Serves (afterAuth config filename ⟨none, false⟩).handler ∧ Authorized config start

/-! ## Segments that are dealt with as the stream they are part of -/

/-- The request line is in the segment, or it is seen to be none. -/
def HasRequestLine (segment : List UInt8) : Prop :=
  (IsGet segment → 32 ∈ segment.drop 5) ∧ (¬IsGet segment → ¬segment.map toLower <+: get)

/-- The line of the header has arrived, and no password that is longer than the right one begins with it. -/
def LineComplete (found : List UInt8) : Prop :=
  10 ∈ found.drop 15 ∧
    ∀ credentials, token found = some credentials → Accepts config (config.decode credentials) →
      (config.decode credentials).length ≤ config.username.length + config.password.length

/-- The segment is text, and what is behind it in the buffer is not taken for part of it. -/
def Delimited (segment stale : List UInt8) : Prop := (∀ ch ∈ segment, ch ≠ 0) ∧ stale.headD 0 = 0

/-- The condition on the next segment. -/
def Meets (c : Connection) : Event → Prop
  | .segment segment stale =>
      if c.state.headerReparse = true then
        Delimited segment stale ∧
          (∀ found, strstr authorization segment = some found → LineComplete config found) ∧
          (strstr authorization segment = none → (strstr crlfcrlf segment).isSome ∨ Splits config segment) ∧
          ∀ filename start, request c.stream = some (filename, start) →
            strstr authorization (start ++ segment) = strstr authorization segment
      else if c.state.handler = none then
        Delimited segment stale ∧ c.stream = [] ∧ HasRequestLine segment ∧
          ∀ filename start, request segment = some (filename, start) →
            (∀ found, strstr authorization start = some found → LineComplete config found) ∧
              (strstr authorization start = none → (strstr crlfcrlf start).isSome ∨ ¬Splits config start)
      else
        ∀ filename start, request c.stream = some (filename, start) → strstr authorization start = none →
          strstr authorization (start ++ segment) = none
  | .other => True

/-- A run in which every segment meets it. -/
def Conforms : List Event → Connection → Prop
  | [], _ => True
  | event :: rest, c => Meets config c event ∧ ∀ next, c.step config event = some next → Conforms rest next

end Server

end Ethersex.Httpd.Auth
