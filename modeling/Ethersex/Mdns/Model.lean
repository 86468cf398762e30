import Mathlib
import Ethersex.Library.CString
import Ethersex.Library.Dns

/-!
# Service discovery

The questions of a packet are looked up in the table of services, and the records asked for are
assembled over the packet.
-/

namespace Ethersex.Mdns

open Library

/-- A text of the program. -/
def PSTR (text : String) : List UInt8 := text.toList.map fun ch => ch.toNat.toUInt8

/-- `'.'` -/
def DOT : UInt8 := 46

/-- The parts of a text between its dots. -/
def labels (text : List UInt8) : List Dns.Label := text.splitOn DOT

/-- A text that is the name of something. -/
def IsName (text : List UInt8) : Prop := Dns.Legal (labels text) ∧ text.length ≤ 253

instance (text : List UInt8) : Decidable (IsName text) := inferInstanceAs (Decidable (_ ∧ _))

/-- The lengths in front of the strings of a text record are bytes. -/
def IsText (text : List UInt8) : Prop := ∀ part ∈ labels text, part.length < 256

instance (text : List UInt8) : Decidable (IsText text) :=
  inferInstanceAs (Decidable (∀ part ∈ labels text, part.length < 256))

/-- `struct mdns_service`. -/
structure Service where
  service : List UInt8
  name : List UInt8
  text : Option (List UInt8)
  port : Nat
  state : UInt8
  service_isName : IsName service
  name_isName : IsName name
  text_isText : ∀ chars ∈ text, IsText chars

def MDNS_STATE_SERVICE : UInt8 := 1
def MDNS_STATE_NAME : UInt8 := 2
def MDNS_STATE_SRV : UInt8 := 4
def MDNS_STATE_TEXT : UInt8 := 8

def DNS_FLAG1_RESPONSE : UInt8 := 0x80
def DNS_FLAG1_AUTHORATIVE : UInt8 := 0x04

/-- The configuration of the device and its own address.  `flash0` is the text that the program
memory begins with. -/
structure Config where
  CONF_HOSTNAME : List UInt8
  NET_MAX_FRAME_LENGTH : UInt16
  UIP_LLH_LEN : Nat
  IPV6_SUPPORT : Bool
  uip_hostaddr : List UInt8
  flash0 : List UInt8
  hostname_isName : IsName (CONF_HOSTNAME ++ PSTR ".local")
  hostaddr_length : uip_hostaddr.length = if IPV6_SUPPORT then 16 else 4

namespace Config

variable (c : Config)

/-- `CONF_HOSTNAME ".local"`. -/
def host : List UInt8 := c.CONF_HOSTNAME ++ PSTR ".local"

def UIP_IPUDPH_LEN : Nat := if c.IPV6_SUPPORT then 48 else 28

/-- What `uip_buf` has behind the headers. -/
def room : Nat := c.NET_MAX_FRAME_LENGTH.toNat + 2 - c.UIP_LLH_LEN - c.UIP_IPUDPH_LEN

end Config

def services_name : List UInt8 := PSTR "_services._dns-sd._udp.local"

/-! ## The question -/

/-- The bytes of the device, by their addresses. -/
abbrev Memory := UInt16 → UInt8

section Query

variable (fuel : Nat) (memory : Memory) (base : UInt16)

/-- A number in network byte order. -/
def ntohs (ptr : UInt16) : UInt16 := (memory ptr).toUInt16 <<< 8 ||| (memory (ptr + 1)).toUInt16

/-- The address behind a name. -/
def parseName (memory : Memory) : (fuel : Nat) → (query : UInt16) → Option UInt16
  | 0, _ => none
  | fuel + 1, query =>
      let n := memory query
      let query := query + 1
      if n &&& 0xC0 ≠ 0 then some (query + 1)
      else
        let query := query + n.toUInt16
        if memory query ≠ 0 then parseName memory fuel query else some (query + 1)

/-- Whether the labels at an address are those of a text. -/
def compareLabel (memory : Memory) (base : UInt16) :
    (fuel : Nat) → (label : UInt16) → (data : List UInt8) → Option Bool
  | 0, _, _ => none
  | fuel + 1, label, data =>
      let n := memory label
      let label := label + 1
      if n &&& 0xC0 ≠ 0 then
        let label := base + ((n &&& 0x3F).toUInt16 <<< 8 ||| (memory label).toUInt16)
        if memory label ≠ 0 then compareLabel memory base fuel label data else some true
      else
        let pgm_len := UInt8.ofNat (data.takeWhile (· ≠ DOT)).length
        if pgm_len ≠ n ∨
            strncmp (fun k => memory (label + UInt16.ofNat k)) (cString data) n.toNat ≠ 0 then
          some false
        else if DOT ∉ data then some true
        else
          let label := label + n.toUInt16
          let data := data.drop (n.toNat + 1)
          if memory label ≠ 0 then compareLabel memory base fuel label data else some true

/-- `struct dns_question` and `struct dns_answer`: where the name is, and where what follows it is. -/
structure Entry where
  label : UInt16
  info : UInt16

/-- The questions of a packet and the address behind them. -/
def questions (fuel : Nat) (memory : Memory) : (count : Nat) → UInt16 → Option (List Entry × UInt16)
  | 0, nameptr => some ([], nameptr)
  | count + 1, nameptr => do
      let info ← parseName memory fuel nameptr
      let (rest, nameptr') ← questions fuel memory count (info + 4)
      return (⟨nameptr, info⟩ :: rest, nameptr')

/-- The answers of a packet. -/
def answers (fuel : Nat) (memory : Memory) : (count : Nat) → UInt16 → Option (List Entry)
  | 0, _ => some []
  | count + 1, nameptr => do
      let info ← parseName memory fuel nameptr
      let rest ← answers fuel memory count (info + 10 + ntohs memory (info + 8))
      return ⟨nameptr, info⟩ :: rest

/-- `struct dns_body`. -/
structure Body where
  quests : List Entry
  ans : List Entry

/-- Whether an answer with some data is among those of the packet. -/
def answered (label : List UInt8) (type : UInt16) (data : List UInt8) : List Entry → Option Bool
  | [] => some false
  | entry :: rest => do
      if ntohs memory entry.info = type then
        if ← compareLabel memory base fuel entry.label label then
          if ← compareLabel memory base fuel (entry.info + 10) data then
            return true
      answered label type data rest

/-- Whether nothing has to be answered to the questions from some one on. -/
def hasAnswer (ans : List Entry) (label : List UInt8) (type : UInt16) (data : List UInt8)
    (only_question : Bool) : List Entry → Option Bool
  | [] => some true
  | quest :: rest => do
      if ntohs memory quest.info = type then
        if ← compareLabel memory base fuel quest.label label then
          if only_question then return false
          return ← answered fuel memory base label type data ans
      hasAnswer ans label type data only_question rest

/-- The bits of a service that is asked for are set. -/
def request (c : Config) (body : Body) (s : Service) : Option Service := do
  let has := hasAnswer fuel memory base body.ans
  let service ← has services_name 0xC s.service false body.quests
  let name ← has s.service 0x0C s.name false body.quests
  let srv ← has s.name 0x21 c.flash0 true body.quests
  let text ← has s.name 0x10 (s.text.getD c.flash0) false body.quests
  let state := if service then s.state else s.state ||| MDNS_STATE_SERVICE
  let state := if name then state else state ||| MDNS_STATE_NAME
  let state := if srv then state else state ||| MDNS_STATE_SRV
  let state := if text then state else state ||| MDNS_STATE_TEXT
  return { s with state := state }

/-- The packet is parsed and looked up in the table.  The index of the table is a byte, which does
not get beyond 255 services. -/
def requests (c : Config) (services : List Service) : Option (List Service) := do
  let numquestions := (ntohs memory (base + 4)).toUInt8
  let numanswers := (ntohs memory (base + 6)).toUInt8
  let (quests, nameptr) ← questions fuel memory numquestions.toNat (base + 12)
  let ans ← answers fuel memory numanswers.toNat nameptr
  if 255 < services.length then none
  else services.mapM (request fuel memory base c ⟨quests, ans⟩)

end Query

/-! ## The answer -/

/-- The bytes written for a text, `len` being a byte. -/
def segments : (fuel : Nat) → (label : List UInt8) → List UInt8
  | 0, _ => []
  | fuel + 1, label =>
      let len := UInt8.ofNat (label.takeWhile (· ≠ DOT)).length
      len :: label.take len.toNat ++
        if DOT ∈ label then segments fuel (label.drop (len.toNat + 1)) else []

def appendLabel : Option (List UInt8) → List UInt8
  | none => [0]
  | some label => segments (label.length + 1) label ++ [0]

/-- The record up to the field with the length, which is behind it. -/
def appendAnswerHeader (label1 : List UInt8) (label2 : Option (List UInt8)) (cls type ttl : Nat) :
    List UInt8 :=
  let name := match label2 with
    | some label2 => (appendLabel (some label1)).dropLast ++ appendLabel (some label2)
    | none => appendLabel (some label1)
  name ++ Dns.word type ++ Dns.word cls ++ [0, 0] ++ Dns.word ttl

/-- The message that is assembled: what is behind the header, up to `nameptr`. -/
structure Assembly where
  body : List UInt8
  answers : UInt8
  need_ip : Bool

namespace Assembly

/-- `nameptr`, from the header on. -/
def nameptr (a : Assembly) : Nat := 12 + a.body.length

/-- A record is written, with the length of its data. -/
def record (header data : List UInt8) (a : Assembly) : Assembly :=
  { a with
    body := a.body ++ (header ++ Dns.word data.length ++ data)
    answers := a.answers + 1 }

end Assembly

section Response

variable (c : Config)

def answerService (s : Service) (a : Assembly) : Assembly :=
  a.record (appendAnswerHeader services_name none 1 0xC 600) (appendLabel (some s.service))

/-- The zero of the name is overwritten by a pointer to the name of the record. -/
def answerName (s : Service) (a : Assembly) : Assembly :=
  a.record (appendAnswerHeader s.service none 1 0xC 600)
    ((appendLabel (some s.name)).dropLast ++ Dns.word (0xC000 ||| a.nameptr))

def answerSrv (s : Service) (a : Assembly) : Assembly :=
  { a.record (appendAnswerHeader s.name (some s.service) 0x8001 0x21 600)
      (Dns.word 0 ++ Dns.word 0 ++ Dns.word s.port ++ appendLabel (some c.host)) with need_ip := true }

def answerText (s : Service) (a : Assembly) : Assembly :=
  a.record (appendAnswerHeader s.name (some s.service) 0x8001 0x10 600) (appendLabel s.text)

/-- The records a service is asked for. -/
def answerAll (s : Service) (a : Assembly) : Assembly :=
  let a := if s.state &&& MDNS_STATE_SERVICE ≠ 0 then answerService s a else a
  let a := if s.state &&& MDNS_STATE_NAME ≠ 0 then answerName s a else a
  let a := if s.state &&& MDNS_STATE_SRV ≠ 0 then answerSrv c s a else a
  if s.state &&& MDNS_STATE_TEXT ≠ 0 then answerText s a else a

/-- The loop over the table, with the table it leaves, and the service it stops at. -/
def assemble : List Service → Assembly → Assembly × List Service × Option Service
  | [], a => (a, [], none)
  | s :: rest, a =>
      let a := answerAll c s a
      let s := { s with state := 0 }
      if a.nameptr > 512 then (a, s :: rest, some s)
      else
        let (a, rest, stopped) := assemble rest a
        (a, s :: rest, stopped)

/-- The address of the host.  The second label is that of the service the loop has stopped at. -/
def answerHost (stopped : Option Service) (a : Assembly) : Assembly :=
  a.record (appendAnswerHeader c.host (stopped.map Service.service) 0x8001
    (if c.IPV6_SUPPORT then 0x1c else 0x01) 600) c.uip_hostaddr

/-- The header of the answer, with the number of records. -/
def header (memory : Memory) (base : UInt16) (numanswers : UInt8) : List UInt8 :=
  [memory base, memory (base + 1),
    memory (base + 2) ||| DNS_FLAG1_RESPONSE ||| DNS_FLAG1_AUTHORATIVE, memory (base + 3)] ++
  Dns.word 0 ++ Dns.word numanswers.toNat ++ Dns.word 0 ++ Dns.word 0

/-- The answer is assembled behind the header.  It is sent if it has records. -/
def respond (memory : Memory) (base : UInt16) (services : List Service) :
    List Service × Option (List UInt8) :=
  let (a, services, stopped) := assemble c services ⟨[], 0, false⟩
  let a := if a.need_ip then answerHost c stopped a else a
  if a.answers = 0 then (services, none)
  else (services, some (header memory base a.answers ++ a.body))

/-- `mdns_new_data`: the table it leaves and the message it sends.  There is none where a loop over
the packet does not end. -/
def mdnsNewData (fuel : Nat) (memory : Memory) (base : UInt16) (services : List Service) :
    Option (List Service × Option (List UInt8)) :=
  if memory (base + 2) &&& DNS_FLAG1_RESPONSE ≠ 0 then some (services, none)
  else (requests fuel memory base c services).map (respond c memory base)

end Response

end Ethersex.Mdns
