import Mathlib
import Ethersex.Library.TagLength

/-!
# The reply of a BOOTP server

The vendor area is read up to an end tag.  It is part of the datagram to the end of which it extends, and reading
behind that end has no result here.
-/

namespace Ethersex.Bootp

def BOOTREPLY : UInt8 := 2
def HTYPE_ETHERNET : UInt8 := 1

def TAG_PAD : UInt8 := 0
def TAG_SUBNET_MASK : UInt8 := 1
def TAG_GATEWAY : UInt8 := 3
def TAG_DOMAIN_SERVER : UInt8 := 6
def TAG_NTP_SERVER : UInt8 := 42
def TAG_END : UInt8 := 255

def replycookie : List UInt8 := [0x63, 0x82, 0x53, 0x63]

/-- The parts of the device that are there. -/
structure Config where
  DNS_SUPPORT : Bool
  NTP_SUPPORT : Bool
  BOOTP_TO_EEPROM_SUPPORT : Bool
  TFTP_SUPPORT : Bool
  BOOTLOADER_SUPPORT : Bool

/-- What an option configures. -/
inductive Setting where
  | netmask
  | gateway
  | dns_server
  | ntp_server
  deriving DecidableEq

/-- The tags that are looked for. -/
def Config.setting (c : Config) (tag : UInt8) : Option Setting :=
  if tag = TAG_SUBNET_MASK then some .netmask
  else if tag = TAG_GATEWAY then some .gateway
  else if c.DNS_SUPPORT ∧ tag = TAG_DOMAIN_SERVER then some .dns_server
  else if c.NTP_SUPPORT ∧ tag = TAG_NTP_SERVER then some .ntp_server
  else none

/-- Whether a setting is written to the EEPROM. -/
def Config.saves (c : Config) : Setting → Bool
  | .netmask | .gateway => true
  | .dns_server => c.DNS_SUPPORT
  | .ntp_server => c.NTP_SUPPORT

/-- `struct bootp`, as far as it is looked at.  `bp_vend` extends to the end of the packet. -/
structure Packet where
  bp_op : UInt8
  bp_htype : UInt8
  bp_xid : List UInt8
  bp_yiaddr : List UInt8
  bp_siaddr : List UInt8
  bp_file : List UInt8
  bp_vend : List UInt8

/-- What a reply changes: the addresses in use and in the EEPROM, the connection, and the download that is
requested. -/
structure State where
  xid : List UInt8
  hostaddr : List UInt8
  settings : Setting → List UInt8
  eeprom_ip : List UInt8
  eeprom : Setting → List UInt8
  connected : Bool
  tftpomatic : Option (List UInt8 × List UInt8)

/-- `memcpy` of an address. -/
def memcpy (vend : List UInt8) (start : Nat) : Option (List UInt8) :=
  if start + 4 ≤ vend.length then some ((vend.drop start).take 4) else none

/-- The addresses on the stack and the device, with an address for a setting. -/
def configure (ips : Setting → List UInt8) (s : State) (setting : Setting) (addr : List UInt8) :
    (Setting → List UInt8) × State :=
  (Function.update ips setting addr, { s with settings := Function.update s.settings setting addr })

/-- The `switch` over the tag of an option. -/
def bootpOption (c : Config) (vend : List UInt8) (ptr : Nat) (tag : UInt8) (ips : Setting → List UInt8) (s : State) :
    Option ((Setting → List UInt8) × State) :=
  match c.setting tag with
  | some setting => (memcpy vend (ptr + 2)).map (configure ips s setting)
  | none => some (ips, s)

/-- The loop over the options. -/
def bootpOptions (c : Config) (vend : List UInt8) :
    (fuel : Nat) → (ptr : Nat) → (Setting → List UInt8) × State → Option ((Setting → List UInt8) × State)
  | 0, _, _ => none
  | fuel + 1, ptr, (ips, s) => do
      let tag ← vend[ptr]?
      if tag = 0xFF then some (ips, s)
      else
        let next ← bootpOption c vend ptr tag ips s
        let len ← vend[ptr + 1]?
        bootpOptions c vend fuel (ptr + len.toNat + 2) next

/-- The loop over the session id and the cookie. -/
def sameSession (pk : Packet) (xid : List UInt8) : List Nat → Option Bool
  | [] => some true
  | i :: rest =>
      if pk.bp_xid[i]? ≠ xid[i]? then some false
      else do
        let byte ← pk.bp_vend[i]?
        if some byte ≠ replycookie[i]? then some false else sameSession pk xid rest

/-- What is written to the EEPROM. -/
def eepromSave (c : Config) (addr : List UInt8) (ips : Setting → List UInt8) (s : State) : State :=
  if c.BOOTP_TO_EEPROM_SUPPORT then
    { s with
      eeprom_ip := addr
      eeprom := fun setting => if c.saves setting then ips setting else s.eeprom setting }
  else s

/-- The download of the boot file. -/
def fireTftp (c : Config) (pk : Packet) (s : State) : State :=
  if c.TFTP_SUPPORT ∧ c.BOOTLOADER_SUPPORT ∧ pk.bp_file.head? ≠ some 0 then
    { s with tftpomatic := some (pk.bp_siaddr, pk.bp_file) }
  else s

/-- `bootp_handle_reply`. -/
def bootpHandleReply (c : Config) (fuel : Nat) (pk : Packet) (s : State) : Option State :=
  if pk.bp_op ≠ BOOTREPLY then some s
  else if pk.bp_htype ≠ HTYPE_ETHERNET then some s
  else do
    let same ← sameSession pk s.xid [0, 1, 2, 3]
    if same = false then some s
    else
      let configured ← bootpOptions c pk.bp_vend fuel 4
        (fun _ => [0, 0, 0, 0], { s with hostaddr := pk.bp_yiaddr })
      some (fireTftp c pk (eepromSave c pk.bp_yiaddr configured.1 { configured.2 with connected := false }))

end Ethersex.Bootp

/-!
## The options of a reply

The loop takes the byte behind a tag for a length, also behind a byte of padding, and four bytes behind it for an
address, also when the option has fewer, and it goes on until it finds an end tag.
-/

namespace Ethersex.Bootp

open Library TagLength

/-- The data of the last option for a setting. -/
def lastOption (c : Config) (setting : Setting) (area : List UInt8) : Option (List UInt8) :=
  last (fun tag => c.setting tag = some setting) (read TAG_PAD TAG_END area).1

/-- A reply that is accepted. -/
structure Accepted (pk : Packet) (xid : List UInt8) : Prop where
  op : pk.bp_op = BOOTREPLY
  htype : pk.bp_htype = HTYPE_ETHERNET
  session : pk.bp_xid = xid
  cookie : replycookie <+: pk.bp_vend

/-- The options behind the cookie. -/
def Packet.area (pk : Packet) : List UInt8 := pk.bp_vend.drop 4

/-- What is right for a reply: it is read inside the datagram, and each setting is that of the last option for it,
or as before. -/
def ConfiguresRightly (c : Config) (pk : Packet) (s : State) : Prop :=
  ∃ fuel next, bootpHandleReply c fuel pk s = some next ∧
    ∀ setting, next.settings setting = ((lastOption c setting pk.area).map (·.take 4)).getD (s.settings setting)

/-- The end tag is there, and the last option for a setting has an address. -/
structure Whole (c : Config) (area : List UInt8) : Prop where
  ends : (read TAG_PAD TAG_END area).2 = true
  addresses : ∀ setting data, lastOption c setting area = some data → 4 ≤ data.length

section Loop

variable {c : Config} {front area rest : List UInt8} {tag len : UInt8} {fuel : Nat}
  {ips : Setting → List UInt8} {s : State} {next : (Setting → List UInt8) × State}

theorem TAG_PAD_ne : TAG_PAD ≠ TAG_END := by decide

theorem setting_pad (c : Config) : c.setting TAG_PAD = none := by
  rw [Config.setting, if_neg (by decide), if_neg (by decide), if_neg (by rintro ⟨-, same⟩; cases same),
    if_neg (by rintro ⟨-, same⟩; cases same)]

theorem memcpy_append (front : List UInt8) (tag len : UInt8) (rest : List UInt8) :
    memcpy (front ++ tag :: len :: rest) (front.length + 2) = if 4 ≤ rest.length then some (rest.take 4) else none := by
  have behind : (front ++ tag :: len :: rest).drop (front.length + 2) = rest := by
    rw [List.drop_append, List.drop_of_length_le (by omega), Nat.add_sub_cancel_left]
    rfl
  have size : (front ++ tag :: len :: rest).length = front.length + 2 + rest.length := by
    rw [List.length_append, List.length_cons, List.length_cons]
    omega
  rw [memcpy, behind, size]
  simp only [Nat.add_le_add_iff_left]

theorem get_tag (front : List UInt8) (tag : UInt8) (rest : List UInt8) :
    (front ++ tag :: rest)[front.length]? = some tag := by
  rw [List.getElem?_append_right le_rfl, Nat.sub_self, List.getElem?_cons_zero]

theorem get_len (front : List UInt8) (tag len : UInt8) (rest : List UInt8) :
    (front ++ tag :: len :: rest)[front.length + 1]? = some len := by
  rw [List.getElem?_append_right (Nat.le_add_right ..), Nat.add_sub_cancel_left]
  rfl

theorem bootpOptions_stop : bootpOptions c (front ++ TAG_END :: rest) (fuel + 1) front.length (ips, s) =
    some (ips, s) := by
  rw [bootpOptions, get_tag, Option.bind_eq_bind, Option.bind_some]
  exact if_pos rfl

/-- One turn of the loop. -/
theorem bootpOptions_step (inner : tag ≠ TAG_END) :
    bootpOptions c (front ++ tag :: len :: rest) (fuel + 1) front.length (ips, s) =
      (bootpOption c (front ++ tag :: len :: rest) front.length tag ips s).bind
        (bootpOptions c (front ++ tag :: len :: rest) fuel (front.length + len.toNat + 2)) := by
  have other : ¬tag = 0xFF := inner
  rw [bootpOptions, get_tag, Option.bind_eq_bind, Option.bind_some, if_neg other, get_len]
  rfl

/-- A pair of bytes of padding is passed over. -/
theorem bootpOptions_pads : bootpOptions c (front ++ TAG_PAD :: TAG_PAD :: rest) (fuel + 1) front.length (ips, s) =
    bootpOptions c (front ++ [TAG_PAD, TAG_PAD] ++ rest) fuel (front ++ [TAG_PAD, TAG_PAD]).length (ips, s) := by
  rw [bootpOptions_step TAG_PAD_ne, bootpOption, setting_pad, Option.bind_some, List.append_assoc,
    List.length_append]
  rfl

/-- The place behind an option. -/
theorem bootpOptions_option {data : List UInt8} (inner : tag ≠ TAG_END) (small : data.length < 256) :
    bootpOptions c (front ++ tag :: UInt8.ofNat data.length :: (data ++ rest)) (fuel + 1) front.length (ips, s) =
      (bootpOption c (front ++ tag :: UInt8.ofNat data.length :: (data ++ rest)) front.length tag ips s).bind
        (bootpOptions c (front ++ tag :: UInt8.ofNat data.length :: data ++ rest) fuel
          (front ++ tag :: UInt8.ofNat data.length :: data).length) := by
  have value : (UInt8.ofNat data.length).toNat = data.length := by
    rw [UInt8.toNat_ofNat', Nat.mod_eq_of_lt small]
  have size : (front ++ tag :: UInt8.ofNat data.length :: data).length = front.length + data.length + 2 := by
    rw [List.length_append, List.length_cons, List.length_cons]
    omega
  rw [bootpOptions_step inner, value, size, List.append_assoc]
  rfl

theorem lastOption_option {data : List UInt8} (plain : tag ≠ TAG_PAD) (inner : tag ≠ TAG_END)
    (small : data.length < 256) (setting : Setting) :
    lastOption c setting (tag :: UInt8.ofNat data.length :: (data ++ rest)) =
      (lastOption c setting rest).or (if c.setting tag = some setting then some data else none) := by
  rw [lastOption, read_option plain inner small, last, ← lastOption]
  simp only [decide_eq_true_eq]

theorem lastOption_pads (setting : Setting) (rest : List UInt8) :
    lastOption c setting (TAG_PAD :: TAG_PAD :: rest) = lastOption c setting rest := by
  rw [lastOption, read_pad TAG_PAD_ne, read_pad TAG_PAD_ne, lastOption]

theorem lastOption_stop (setting : Setting) (rest : List UInt8) :
    lastOption c setting (TAG_END :: rest) = none := by
  rw [lastOption, read_stop]
  rfl

/-- An area that is whole is read inside the datagram, and each setting is that of the last option for it. -/
theorem bootpOptions_of_whole (even : PaddedEvenly TAG_PAD TAG_END area) (whole : Whole c area)
    (front : List UInt8) (ips : Setting → List UInt8) (s : State) :
    ∃ fuel next, bootpOptions c (front ++ area) fuel front.length (ips, s) = some next ∧
      ∀ setting, next.2.settings setting = ((lastOption c setting area).map (·.take 4)).getD (s.settings setting) := by
  induction even generalizing front ips s with
  | nil =>
      have ends := whole.ends
      rw [read_nil] at ends
      cases ends
  | stop rest =>
      refine ⟨1, (ips, s), bootpOptions_stop, fun setting => ?_⟩
      rw [lastOption_stop, Option.map_none, Option.getD_none]
  | @pads rest _ ih =>
      have inner : Whole c rest := by
        constructor
        · have ends := whole.ends
          rwa [read_pad TAG_PAD_ne, read_pad TAG_PAD_ne] at ends
        · intro setting data found
          exact whole.addresses setting data (by rw [lastOption_pads, found])
      obtain ⟨fuel, next, found, right⟩ := ih inner (front ++ [TAG_PAD, TAG_PAD]) ips s
      refine ⟨fuel + 1, next, bootpOptions_pads.trans found, fun setting => ?_⟩
      rw [right, lastOption_pads]
  | @option tag data rest plain stop small _ ih =>
      have inner : Whole c rest := by
        constructor
        · have ends := whole.ends
          rwa [read_option plain stop small] at ends
        · intro setting other found
          exact whole.addresses setting other (by rw [lastOption_option plain stop small, found, Option.some_or])
      cases kind : c.setting tag with
      | none =>
          obtain ⟨fuel, next, found, right⟩ := ih inner (front ++ tag :: UInt8.ofNat data.length :: data) ips s
          refine ⟨fuel + 1, next, ?_, fun setting => ?_⟩
          · rw [bootpOptions_option stop small, bootpOption, kind, Option.bind_some, found]
          · rw [right, lastOption_option plain stop small, kind, if_neg (by simp), Option.or_none]
      | some target =>
          have long : 4 ≤ (data ++ rest).length := by
            rw [List.length_append]
            cases later : lastOption c target rest with
            | some other =>
                have := inner.addresses target other later
                have := length_last_lt later
                omega
            | none =>
                have here := whole.addresses target data
                  (by rw [lastOption_option plain stop small, later, Option.none_or, if_pos kind])
                omega
          obtain ⟨fuel, next, found, right⟩ := ih inner (front ++ tag :: UInt8.ofNat data.length :: data)
            (Function.update ips target ((data ++ rest).take 4))
            { s with settings := Function.update s.settings target ((data ++ rest).take 4) }
          refine ⟨fuel + 1, next, ?_, fun setting => ?_⟩
          · rw [bootpOptions_option stop small, bootpOption, kind, memcpy_append, if_pos long]
            exact found
          · rw [right, lastOption_option plain stop small, kind]
            cases later : lastOption c setting rest with
            | some other => rw [Option.some_or]; rfl
            | none =>
                rw [Option.none_or, Option.map_none, Option.getD_none]
                by_cases same : target = setting
                · have here := whole.addresses setting data
                    (by rw [lastOption_option plain stop small, later, Option.none_or, kind, if_pos (congrArg some same)])
                  rw [if_pos (congrArg some same), Option.map_some, Option.getD_some, same,
                    List.take_append_of_le_length here]
                  exact Function.update_self ..
                · rw [if_neg fun equal => same (Option.some.inj equal), Option.map_none, Option.getD_none]
                  exact Function.update_of_ne (Ne.symm same) _ _
  | cut plain stop short =>
      have ends := whole.ends
      rw [read_cut plain stop short] at ends
      cases ends
  | last plain stop =>
      have ends := whole.ends
      rw [read_last stop] at ends
      cases ends

theorem length_memcpy {vend addr : List UInt8} {start : Nat} (found : memcpy vend start = some addr) :
    addr.length = 4 := by
  rw [memcpy] at found
  split at found
  · cases found
    rw [List.length_take, List.length_drop]
    omega
  · cases found

theorem length_bootpOption {vend : List UInt8} {ptr : Nat} (found : bootpOption c vend ptr tag ips s = some next)
    (setting : Setting) (four : (s.settings setting).length = 4 ∨ c.setting tag = some setting) :
    (next.2.settings setting).length = 4 := by
  rw [bootpOption] at found
  cases kind : c.setting tag with
  | none =>
      rw [kind] at four found
      cases found
      exact four.resolve_right (by simp)
  | some target =>
      rw [kind] at four found
      obtain ⟨addr, copied, rfl⟩ := Option.map_eq_some_iff.mp found
      change (Function.update s.settings target addr setting).length = 4
      by_cases same : setting = target
      · rw [same, Function.update_self, length_memcpy copied]
      · rw [Function.update_of_ne same]
        exact four.resolve_right fun equal => same (Option.some.inj equal).symm

/-- An address stays one. -/
theorem length_bootpOptions {vend : List UInt8} {ptr : Nat}
    (found : bootpOptions c vend fuel ptr (ips, s) = some next) (setting : Setting)
    (four : (s.settings setting).length = 4) : (next.2.settings setting).length = 4 := by
  induction fuel generalizing ptr ips s with
  | zero => cases found
  | succ fuel ih =>
      rw [bootpOptions] at found
      obtain ⟨tag, -, found⟩ := Option.bind_eq_some_iff.mp found
      split at found
      · cases found
        exact four
      · obtain ⟨middle, changed, found⟩ := Option.bind_eq_some_iff.mp found
        obtain ⟨len, -, found⟩ := Option.bind_eq_some_iff.mp found
        exact ih found (length_bootpOption changed setting (.inl four))

/-- Nothing is found behind the datagram. -/
theorem bootpOptions_outside {vend : List UInt8} {ptr : Nat} (outside : vend.length ≤ ptr)
    (state : (Setting → List UInt8) × State) : bootpOptions c vend fuel ptr state = none := by
  cases fuel with
  | zero => rfl
  | succ fuel =>
      rw [bootpOptions, List.getElem?_eq_none outside]
      rfl

/-- If an area is read inside the datagram, the end tag is there, and an address for each setting that has an
option. -/
theorem ends_of_bootpOptions (even : PaddedEvenly TAG_PAD TAG_END area) {front : List UInt8}
    (found : bootpOptions c (front ++ area) fuel front.length (ips, s) = some next) :
    (read TAG_PAD TAG_END area).2 = true ∧
      ∀ setting data, lastOption c setting area = some data → (next.2.settings setting).length = 4 := by
  induction even generalizing fuel front ips s with
  | nil =>
      rw [List.append_nil, bootpOptions_outside le_rfl] at found
      cases found
  | stop rest =>
      refine ⟨by rw [read_stop], fun setting data here => ?_⟩
      rw [lastOption_stop] at here
      cases here
  | pads _ ih =>
      obtain _ | fuel := fuel
      · cases found
      rw [bootpOptions_pads] at found
      obtain ⟨ends, addresses⟩ := ih found
      refine ⟨by rw [read_pad TAG_PAD_ne, read_pad TAG_PAD_ne, ends], fun setting data here => ?_⟩
      rw [lastOption_pads] at here
      exact addresses setting data here
  | @option tag data rest plain stop small _ ih =>
      obtain _ | fuel := fuel
      · cases found
      rw [bootpOptions_option stop small] at found
      obtain ⟨⟨stack, middle⟩, changed, found⟩ := Option.bind_eq_some_iff.mp found
      obtain ⟨ends, addresses⟩ := ih found
      refine ⟨by rw [read_option plain stop small, ends], fun setting other here => ?_⟩
      cases later : lastOption c setting rest with
      | some last => exact addresses setting last later
      | none =>
          rw [lastOption_option plain stop small, later, Option.none_or] at here
          split at here
          · rename_i kind
            exact length_bootpOptions found setting (length_bootpOption changed setting (.inr kind))
          · cases here
  | cut plain stop short =>
      obtain _ | fuel := fuel
      · cases found
      rw [bootpOptions_step stop] at found
      obtain ⟨middle, -, found⟩ := Option.bind_eq_some_iff.mp found
      rw [bootpOptions_outside] at found
      · cases found
      · rw [List.length_append, List.length_cons, List.length_cons]
        omega
  | @last tag plain stop =>
      obtain _ | fuel := fuel
      · cases found
      have other : ¬tag = 0xFF := stop
      rw [bootpOptions, get_tag, Option.bind_eq_bind, Option.bind_some, if_neg other] at found
      obtain ⟨middle, -, found⟩ := Option.bind_eq_some_iff.mp found
      rw [List.getElem?_eq_none (by rw [List.length_append, List.length_singleton])] at found
      cases found

/-- The loop comes to an end at an end tag only. -/
theorem stop_mem_of_bootpOptions {ptr : Nat} (found : bootpOptions c (front ++ area) fuel ptr (ips, s) = some next)
    (behind : front.length ≤ ptr) : TAG_END ∈ area := by
  induction fuel generalizing ptr ips s with
  | zero => cases found
  | succ fuel ih =>
      rw [bootpOptions] at found
      obtain ⟨tag, here, found⟩ := Option.bind_eq_some_iff.mp found
      split at found
      · rename_i stop
        rw [List.getElem?_append_right behind, stop] at here
        exact List.mem_of_getElem? here
      · obtain ⟨⟨stack, middle⟩, -, found⟩ := Option.bind_eq_some_iff.mp found
        obtain ⟨len, -, found⟩ := Option.bind_eq_some_iff.mp found
        exact ih found (by omega)

end Loop

/-! ## The reply -/

section Reply

variable {c : Config} {pk : Packet} {s next : State} {fuel : Nat}

theorem Accepted.vend (accepted : Accepted pk s.xid) : pk.bp_vend = replycookie ++ pk.area := by
  obtain ⟨rest, split⟩ := accepted.cookie
  rw [Packet.area, ← split]
  rfl

theorem Accepted.sameSession (accepted : Accepted pk s.xid) {places : List Nat} (inside : ∀ i ∈ places, i < 4) :
    sameSession pk s.xid places = some true := by
  induction places with
  | nil => rfl
  | cons i rest ih =>
      obtain ⟨first, inside⟩ := List.forall_mem_cons.mp inside
      have here : pk.bp_vend[i]? = replycookie[i]? := by
        rw [accepted.vend, List.getElem?_append_left first]
      have cookie : replycookie[i]? = some replycookie[i] := List.getElem?_eq_getElem first
      rw [Bootp.sameSession, accepted.session, if_neg (not_not_intro rfl), here, cookie, Option.bind_eq_bind,
        Option.bind_some, if_neg (not_not_intro rfl), ih inside]

theorem fireTftp_settings (c : Config) (pk : Packet) (s : State) : (fireTftp c pk s).settings = s.settings := by
  rw [fireTftp]
  split <;> rfl

theorem eepromSave_settings (c : Config) (addr : List UInt8) (ips : Setting → List UInt8) (s : State) :
    (eepromSave c addr ips s).settings = s.settings := by
  rw [eepromSave]
  split <;> rfl

/-- What is configured by a reply that is accepted is what the loop configures. -/
theorem Accepted.handled (accepted : Accepted pk s.xid) :
    bootpHandleReply c fuel pk s =
      (bootpOptions c (replycookie ++ pk.area) fuel replycookie.length
        (fun _ => [0, 0, 0, 0], { s with hostaddr := pk.bp_yiaddr })).map fun configured =>
          fireTftp c pk (eepromSave c pk.bp_yiaddr configured.1 { configured.2 with connected := false }) := by
  rw [bootpHandleReply, if_neg (not_not_intro accepted.op), if_neg (not_not_intro accepted.htype),
    accepted.sameSession (by decide), ← accepted.vend, Option.bind_eq_bind, Option.bind_some, if_neg Bool.false_ne_true.symm]
  rw [Option.map_eq_bind]
  rfl

/-- What is right for a reply is right for the loop. -/
theorem configuresRightly_iff (accepted : Accepted pk s.xid) :
    ConfiguresRightly c pk s ↔ ∃ fuel next, bootpOptions c (replycookie ++ pk.area) fuel replycookie.length
        (fun _ => [0, 0, 0, 0], { s with hostaddr := pk.bp_yiaddr }) = some next ∧
      ∀ setting, next.2.settings setting =
        ((lastOption c setting pk.area).map (·.take 4)).getD (s.settings setting) := by
  constructor
  · rintro ⟨fuel, next, found, right⟩
    rw [accepted.handled] at found
    obtain ⟨inner, looped, rfl⟩ := Option.map_eq_some_iff.mp found
    refine ⟨fuel, inner, looped, fun setting => ?_⟩
    rw [← right, fireTftp_settings, eepromSave_settings]
  · rintro ⟨fuel, next, looped, right⟩
    refine ⟨fuel, _, accepted.handled.trans (congrArg _ looped), fun setting => ?_⟩
    rw [← right, fireTftp_settings, eepromSave_settings]

/-- A reply whose bytes of padding come in pairs configures what it should just if the end tag is there and the last
option for each setting has an address.  Without any end tag no reply is read inside the datagram. -/
theorem bootpHandleReply_right_iff (accepted : Accepted pk s.xid) :
    (PaddedEvenly TAG_PAD TAG_END pk.area → (ConfiguresRightly c pk s ↔ Whole c pk.area)) ∧
      (ConfiguresRightly c pk s → TAG_END ∈ pk.area) := by
  rw [configuresRightly_iff accepted]
  refine ⟨fun even => ⟨?_, fun whole => bootpOptions_of_whole even whole replycookie _ _⟩, ?_⟩
  · rintro ⟨fuel, next, looped, right⟩
    obtain ⟨ends, addresses⟩ := ends_of_bootpOptions even looped
    refine ⟨ends, fun setting data found => ?_⟩
    have four := addresses setting data found
    rw [right, found, Option.map_some, Option.getD_some, List.length_take] at four
    omega
  · rintro ⟨fuel, next, looped, -⟩
    exact stop_mem_of_bootpOptions looped le_rfl

/-- A device that has sent its request. -/
def waiting : State where
  xid := [1, 2, 3, 4]
  hostaddr := [0, 0, 0, 0]
  settings := fun _ => [0, 0, 0, 0]
  eeprom_ip := [0, 0, 0, 0]
  eeprom := fun _ => [0, 0, 0, 0]
  connected := true
  tftpomatic := none

/-- A reply to that request. -/
def replyWith (area : List UInt8) : Packet where
  bp_op := BOOTREPLY
  bp_htype := HTYPE_ETHERNET
  bp_xid := [1, 2, 3, 4]
  bp_yiaddr := [192, 168, 0, 2]
  bp_siaddr := [192, 168, 0, 1]
  bp_file := [0]
  bp_vend := replycookie ++ area

theorem accepted_replyWith (area : List UInt8) : Accepted (replyWith area) waiting.xid :=
  ⟨rfl, rfl, rfl, List.prefix_append ..⟩

def allParts : Config := ⟨true, true, true, true, true⟩

theorem bootpHandleReply_right_netmask :
    (PaddedEvenly TAG_PAD TAG_END (replyWith [1, 4, 255, 255, 255, 0, 255]).area →
        (ConfiguresRightly allParts (replyWith [1, 4, 255, 255, 255, 0, 255]) waiting ↔
          Whole allParts (replyWith [1, 4, 255, 255, 255, 0, 255]).area)) ∧
      (ConfiguresRightly allParts (replyWith [1, 4, 255, 255, 255, 0, 255]) waiting →
        TAG_END ∈ (replyWith [1, 4, 255, 255, 255, 0, 255]).area) :=
  bootpHandleReply_right_iff (accepted_replyWith _)

/-- The netmask behind a single byte of padding is passed over, and an area without an end tag is left. -/
theorem padded_netmask_lost :
    lastOption allParts .netmask (replyWith [0, 1, 4, 255, 255, 255, 0, 255]).area = some [255, 255, 255, 0] ∧
      ¬ConfiguresRightly allParts (replyWith [0, 1, 4, 255, 255, 255, 0, 255]) waiting ∧
      ∀ fuel, bootpHandleReply allParts fuel (replyWith [1, 4, 255, 255, 255, 0]) waiting = none := by
  have netmask : lastOption allParts .netmask (replyWith [0, 1, 4, 255, 255, 255, 0, 255]).area =
      some [255, 255, 255, 0] := by
    have one : replyWith [0, 1, 4, 255, 255, 255, 0, 255] = replyWith (TAG_PAD :: 1 ::
      UInt8.ofNat ([255, 255, 255, 0] : List UInt8).length :: ([255, 255, 255, 0] ++ [TAG_END])) := rfl
    rw [one, Packet.area]
    change lastOption allParts .netmask (TAG_PAD :: _) = _
    rw [lastOption, read_pad TAG_PAD_ne, ← lastOption, lastOption_option (by decide) (by decide) (by decide),
      lastOption_stop]
    rfl
  refine ⟨netmask, ?_, fun fuel => ?_⟩
  · rw [configuresRightly_iff (accepted_replyWith _)]
    rintro ⟨_ | _ | fuel, next, looped, right⟩
    · cases looped
    · cases looped
    · cases looped
      have here := right .netmask
      rw [netmask] at here
      cases here
  · rw [(accepted_replyWith _).handled]
    obtain _ | _ | fuel := fuel <;> rfl

end Reply

end Ethersex.Bootp
