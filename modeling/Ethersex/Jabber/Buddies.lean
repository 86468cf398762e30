import Ethersex.Jabber.Model
import Ethersex.Library.Xml

/-!
# Whose commands are executed

A message is not parsed, it is searched for the beginning of its sender and of its body.  What is
found first need not be what the message says.
-/

namespace Ethersex.Jabber

open Library Library.Xml

/-! ## Messages -/

/-- A message. -/
structure Stanza where
  attributes : List Attribute
  space : List UInt8
  children : List Node
  final : List UInt8

/-- The content of a body. -/
def bodyOf : Node → Option (List UInt8)
  | .element name _ _ children _ => if name = PSTR "body" then some (contentText children) else none
  | .empty name _ _ => if name = PSTR "body" then some [] else none
  | _ => none

namespace Stanza

variable (stanza : Stanza)

def node : Node :=
  .element (PSTR "message") stanza.attributes stanza.space stanza.children stanza.final

/-- The sender without the resource. -/
def bareFrom : Option (List UInt8) :=
  (stanza.attributes.find? fun attr => attr.name = PSTR "from").map fun attr =>
    attr.value.takeWhile (· ≠ 47)

/-- The content of the body. -/
def body : Option (List UInt8) := stanza.children.findSome? bodyOf

end Stanza

/-! ## What is found -/

/-- The place where a pattern occurs first. -/
def index (pattern text : List UInt8) : Option Nat :=
  (strstr pattern text).map fun found => text.length - found.length

/-- A text from `start` on, in front of a zero at `stop`. -/
def cut (text : List UInt8) (start stop : Nat) : List UInt8 :=
  if stop < start then text else text.take (stop - start)

/-- The end of an address: a slash, or a quote if there is none. -/
def delimiter (text : List UInt8) : Option Nat :=
  index (PSTR "/") text <|> index (PSTR "'") text <|> index (PSTR "\"") text

/-- Behind the first `from=` and one more character there is an address with a delimiter, and a text
behind the first `<body>`.  Both end at the first `</bod`, and the text ends at the delimiter, too. -/
def Sees (text address command : List UInt8) : Prop :=
  ∃ sender body stop,
    index (PSTR "from=") text = some sender ∧ index (PSTR "<body>") text = some body ∧
      index (PSTR "</bod") text = some stop ∧
      ∃ length, delimiter (cut (text.drop (sender + 6)) (sender + 6) stop) = some length ∧
        address = (cut (text.drop (sender + 6)) (sender + 6) stop).take length ∧
        command = cut (cut (text.drop (body + 6)) (body + 6) stop) (body + 6) (sender + 6 + length)

/-- A known buddy's address is seen, but the message is another one's, or its body is another text. -/
def Mistaken (c : Config) (stanza : Stanza) : Prop :=
  ∃ address ∈ c.jabber_known_buddies, address.length ≤ TARGET_BUDDY_MAXLEN ∧
    ∃ command, Sees stanza.node.text address command ∧
      ((∀ sender ∈ stanza.bareFrom, sender ∉ c.jabber_known_buddies) ∨ stanza.body ≠ some command)

section Client

variable {Device : Type} (c : Config) (ecmd_parse_command : Parser Device)

/-- Commands are executed for known buddies only, and they are what the body says. -/
def OnlyBuddies (stanza : Stanza) (stale : Bytes) (s : Appstate) (device : Device) : Prop :=
  ∀ command,
    (jabberParse c ecmd_parse_command (received stanza.node.text stale) s device).command =
        some command →
      (∃ sender ∈ stanza.bareFrom, sender ∈ c.jabber_known_buddies) ∧ stanza.body = some command

end Client

/-! ## Searching in the packet -/

variable {c : Config} {text : List UInt8} {memory : Bytes}

/-- The text from a place on. -/
def textFrom (text : List UInt8) (start : Nat) : List UInt8 := (text.drop start).takeWhile (· ≠ 0)

/-- The packet has this text, with a zero behind it. -/
abbrev Has (memory : Bytes) (text : List UInt8) : Prop := AgreeTo (text.length + 1) memory (cString text)

theorem cString_length (text : List UInt8) : cString text text.length = 0 := by simp [cString]

theorem has_received (text : List UInt8) (stale : Bytes) : Has (received text stale) text := by
  intro k small
  rw [received]
  split
  · next last => rw [last, cString_length]
  · next other =>
      have inside : k < text.length := by omega
      simp [cString, inside]

/-- A zero is written into the packet. -/
theorem Has.update (has : Has memory text) (k : Nat) :
    Has (Function.update memory k 0) (text.set k 0) := by
  intro j small
  rw [List.length_set] at small
  by_cases same : j = k
  · subst same
    rw [Function.update_self]
    by_cases inside : j < text.length
    · simp [cString, inside]
    · simp [cString, inside]
  · rw [Function.update_of_ne same, has j small]
    simp [cString, Ne.symm same]

theorem Has.textAt (has : Has memory text) (fits : text.length < c.room) {start : Nat}
    (inside : start ≤ text.length) : textAt c memory start = textFrom text start := by
  have behind : (text.drop start).length = text.length - start := List.length_drop
  refine fieldText_eq_takeWhile (fun k small => ?_) ?_ (by omega)
  · rw [has (start + k) (by omega)]
    simp [cString]
  · rw [behind, Nat.add_sub_cancel' inside, has _ (Nat.lt_succ_self _), cString_length]

theorem Has.find (has : Has memory text) (fits : text.length < c.room) (pattern : List UInt8)
    {start : Nat} (inside : start ≤ text.length) :
    find c pattern memory start = (index pattern (textFrom text start)).map (start + ·) := by
  rw [Jabber.find, has.textAt fits inside, index, Option.map_map]
  rfl

/-- A zero ends the text in front of it. -/
theorem takeWhile_set (text : List UInt8) (k : Nat) :
    (text.set k 0).takeWhile (· ≠ 0) = (text.takeWhile (· ≠ 0)).take k := by
  induction text generalizing k with
  | nil => simp
  | cons ch rest ih =>
      cases k with
      | zero => simp
      | succ k =>
          rw [List.set_cons_succ, List.takeWhile_cons, List.takeWhile_cons, ih]
          split
          · rfl
          · rfl

theorem textFrom_set (text : List UInt8) (start stop : Nat) :
    textFrom (text.set stop 0) start = cut (textFrom text start) start stop := by
  rw [textFrom, List.drop_set, cut]
  split
  · rfl
  · exact takeWhile_set ..

theorem textFrom_of_nonzero (nonzero : ∀ ch ∈ text, ch ≠ 0) (start : Nat) :
    textFrom text start = text.drop start :=
  List.takeWhile_eq_self_iff.mpr fun ch member =>
    decide_eq_true (nonzero ch (List.mem_of_mem_drop member))

theorem index_eq_some {pattern : List UInt8} {k : Nat} (occurs : index pattern text = some k) :
    k + pattern.length ≤ text.length ∧ pattern <+: text.drop k := by
  obtain ⟨found, search, rfl⟩ := Option.map_eq_some_iff.mp occurs
  obtain ⟨front, rfl, starts⟩ := strstr_eq_some search
  have long := starts.length_le
  rw [List.length_append, Nat.add_sub_cancel]
  exact ⟨by omega, by rwa [List.drop_left]⟩

/-- The pattern in front of an address is not the end of a text that ends with a tag. -/
theorem add_six_le {sender : Nat} (ends : text.getLast? = some 62)
    (occurs : index (PSTR "from=") text = some sender) : sender + 6 ≤ text.length := by
  obtain ⟨long, starts⟩ := index_eq_some occurs
  have five : (PSTR "from=").length = 5 := by decide
  rw [five] at long
  by_contra short
  have whole : text.drop sender = PSTR "from=" := by
    refine (starts.eq_of_length ?_).symm
    rw [five, List.length_drop]
    omega
  rw [← List.take_append_drop sender text, whole, List.getLast?_append] at ends
  exact absurd ends (by simp [PSTR])

theorem cut_add (text : List UInt8) (start length : Nat) :
    cut text start (start + length) = text.take length := by
  rw [cut, if_neg (Nat.not_lt.mpr (Nat.le_add_right ..)), Nat.add_sub_cancel_left]

/-- The delimiter is searched for in what a zero leaves of the text. -/
theorem Has.delimiter (has : Has memory text) (nonzero : ∀ ch ∈ text, ch ≠ 0)
    (fits : text.length < c.room) {start : Nat} (inside : start ≤ text.length) (stop : Nat) :
    (Jabber.find c (PSTR "/") (Function.update memory stop 0) start <|>
        Jabber.find c (PSTR "'") (Function.update memory stop 0) start <|>
          Jabber.find c (PSTR "\"") (Function.update memory stop 0) start) =
      (delimiter (cut (text.drop start) start stop)).map (start + ·) := by
  have found (pattern : List UInt8) : Jabber.find c pattern (Function.update memory stop 0) start =
      (index pattern (cut (text.drop start) start stop)).map (start + ·) := by
    rw [(has.update stop).find (by rwa [List.length_set]) pattern (by rwa [List.length_set]),
      textFrom_set, textFrom_of_nonzero nonzero]
  rw [found, found, found, Jabber.delimiter]
  cases index (PSTR "/") (cut (text.drop start) start stop) with
  | some k => rfl
  | none => cases index (PSTR "'") (cut (text.drop start) start stop) <;> rfl

/-- Two zeros end a text. -/
theorem Has.textAt_cut (has : Has memory text) (nonzero : ∀ ch ∈ text, ch ≠ 0)
    (fits : text.length < c.room) {start : Nat} (inside : start ≤ text.length) (stop ptr : Nat) :
    Jabber.textAt c (Function.update (Function.update memory stop 0) ptr 0) start =
      cut (cut (text.drop start) start stop) start ptr := by
  have twice := (has.update stop).update ptr
  rw [twice.textAt (by simpa using fits) (by simpa using inside), textFrom_set, textFrom_set,
    textFrom_of_nonzero nonzero]

/-- What the search finds is what is seen in the text. -/
theorem message_eq_some_iff (nonzero : ∀ ch ∈ text, ch ≠ 0) (fits : text.length < c.room)
    (ends : text.getLast? = some 62) {stale : Bytes} {address command : List UInt8} :
    message c (received text stale) = some (address, command) ↔ Sees text address command := by
  have has := has_received text stale
  have found (pattern : List UInt8) : find c pattern (received text stale) 0 = index pattern text := by
    rw [has.find fits pattern (Nat.zero_le _), textFrom_of_nonzero nonzero, List.drop_zero]
    simp
  rw [message, found, found, found, Sees]
  simp only [Option.bind_eq_bind, Option.bind_eq_some_iff]
  constructor
  · rintro ⟨sender, first, body, second, stop, third, ptr, ended, read⟩
    have inside := add_six_le ends first
    have bodyInside : body + 6 ≤ text.length := (index_eq_some second).1
    rw [has.delimiter nonzero fits inside, Option.map_eq_some_iff] at ended
    obtain ⟨length, ended, rfl⟩ := ended
    rw [has.textAt_cut nonzero fits inside, has.textAt_cut nonzero fits bodyInside, cut_add] at read
    obtain ⟨rfl, rfl⟩ := Prod.mk.inj (Option.some.inj read)
    exact ⟨sender, body, stop, first, second, third, length, ended, rfl, rfl⟩
  · rintro ⟨sender, body, stop, first, second, third, length, ended, rfl, rfl⟩
    have inside := add_six_le ends first
    have bodyInside : body + 6 ≤ text.length := (index_eq_some second).1
    refine ⟨sender, first, body, second, stop, third, sender + 6 + length, ?_, ?_⟩
    · rw [has.delimiter nonzero fits inside, ended]
      rfl
    · rw [has.textAt_cut nonzero fits inside, has.textAt_cut nonzero fits bodyInside, cut_add]
      rfl

/-! ## Commands -/

variable {Device : Type} {ecmd_parse_command : Parser Device} {s : Appstate} {device : Device}

/-- A command is executed for an address that is known and not too long. -/
theorem jabberParseEcmd_command (known : c.jabber_known_buddies ≠ [])
    {sender message command : List UInt8} :
    (jabberParseEcmd c ecmd_parse_command sender message s device).command = some command ↔
      sender ∈ c.jabber_known_buddies ∧ sender.length ≤ TARGET_BUDDY_MAXLEN ∧ message = command := by
  have checked : auth c sender = true ↔ sender ∈ c.jabber_known_buddies := by simp [auth, known]
  rw [jabberParseEcmd, ← checked]
  split
  · next long => simp [Nat.not_le.mpr long]
  · next short =>
      cases auth c sender with
      | false => simp
      | true => simp [Nat.not_lt.mp short]

/-- A packet that begins like a message is searched. -/
theorem jabberParse_command (connected : s.stage = .CONNECTED)
    (begins : strncmp memory (cString (PSTR "<mess")) 5 = 0) {command : List UInt8} :
    (jabberParse c ecmd_parse_command memory s device).command = some command ↔
      ∃ address text, message c memory = some (address, text) ∧
        (jabberParseEcmd c ecmd_parse_command address text s device).command = some command := by
  rw [jabberParse, connected]
  simp only [begins, if_true]
  cases message c memory with
  | none => simp
  | some found =>
      obtain ⟨address, text⟩ := found
      simp

theorem Stanza.text_ends (stanza : Stanza) : stanza.node.text.getLast? = some 62 := by
  rw [Stanza.node, Node.text, List.getLast?_append]
  rfl

theorem Stanza.text_begins (stanza : Stanza) (stale : Bytes) :
    strncmp (received stanza.node.text stale) (cString (PSTR "<mess")) 5 = 0 := by
  have first : stanza.node.text = PSTR "<mess" ++ (PSTR "age" ++
      stanza.attributes.flatMap Attribute.text ++ stanza.space ++ 62 :: contentText stanza.children ++
      60 :: 47 :: PSTR "message" ++ stanza.final ++ [62]) := by
    rw [Stanza.node, Node.text, tag, show 60 :: PSTR "message" = PSTR "<mess" ++ PSTR "age" by decide]
    simp only [List.append_assoc]
  have five : (PSTR "<mess").length = 5 := by decide
  rw [strncmp_eq_zero_iff]
  refine fieldText_congr fun k small => ?_
  rw [has_received _ stale k (by rw [first, List.length_append, five]; omega), first]
  simp only [cString]
  rw [List.getD_append _ _ _ _ (five ▸ small)]

/-- One known buddy. -/
def oneBuddy : Config where
  CONF_HOSTNAME := []
  CONF_JABBER_HOSTNAME := []
  CONF_JABBER_USERNAME := []
  CONF_JABBER_RESOURCE := []
  CONF_JABBER_PASSWORD := []
  CONF_JABBER_BUDDY := []
  jabber_known_buddies := [PSTR "b@h"]
  room := 200

def attr (name value : String) : Attribute := ⟨[32], PSTR name, [], [], 39, PSTR value⟩

/-- A message with the body `x`. -/
def chat (attributes : List Attribute) : Stanza :=
  ⟨attributes, [], [.element (PSTR "body") [] [] [.chars (PSTR "x")] []], []⟩

def answerNothing : Parser Unit := fun _ _ => ⟨some 0, fun _ => 0, false, ()⟩

def connectedState : Appstate := ⟨.CONNECTED, .CONNECTED, fun _ => 0⟩

theorem chat_wellFormed {attributes : List Attribute} (well : Attributes attributes) :
    (chat attributes).node.WellFormed := by
  have tagged (name : List UInt8) (named : name ≠ []) (chars : ∀ ch ∈ name, NameChar ch)
      {attributes : List Attribute} (well : Attributes attributes) : Tag name attributes [] :=
    ⟨named, chars, well, fun _ none => absurd none List.not_mem_nil⟩
  have body : Tag (PSTR "body") [] [] :=
    tagged _ (by decide) (by decide +kernel) ⟨fun _ none => absurd none List.not_mem_nil, List.nodup_nil⟩
  simp only [chat, Stanza.node, Node.WellFormed, ContentWellFormed]
  exact ⟨tagged _ (by decide) (by decide +kernel) well,
    ⟨⟨body, ⟨by decide +kernel, trivial⟩, fun _ none => absurd none List.not_mem_nil⟩, trivial⟩,
    fun _ none => absurd none List.not_mem_nil⟩

theorem attr_wellFormed {name value : String} (named : PSTR name ≠ [])
    (chars : ∀ ch ∈ PSTR name, NameChar ch) (legal : ∀ ch ∈ PSTR value, Legal ch ∧ ch ≠ 60 ∧ ch ≠ 39) :
    (attr name value).WellFormed where
  separated := List.cons_ne_nil _ _
  space := by simp [attr, Space]
  named := named
  name := chars
  before _ none := absurd none List.not_mem_nil
  after _ none := absurd none List.not_mem_nil
  quote := .inl rfl
  value := legal

/-- The message of a buddy. -/
def honest : Stanza := chat [attr "from" "b@h/r"]

theorem honest_wellFormed : honest.node.WellFormed := by
  refine chat_wellFormed ⟨fun item member => ?_, by decide⟩
  rw [List.mem_singleton.mp member]
  exact attr_wellFormed (by decide) (by decide +kernel) (by decide +kernel)

/-- The message of somebody who writes the buddy's address into another attribute. -/
def forged : Stanza := chat [attr "id" "from=.b@h/", attr "from" "e@h/r"]

theorem forged_wellFormed : forged.node.WellFormed := by
  refine chat_wellFormed ⟨fun item member => ?_, by decide⟩
  rcases List.mem_pair.mp member with rfl | rfl
  · exact attr_wellFormed (by decide) (by decide +kernel) (by decide +kernel)
  · exact attr_wellFormed (by decide) (by decide +kernel) (by decide +kernel)

end Ethersex.Jabber
