import Mathlib
import Ethersex.Arp.Model
import Ethersex.Library.Slots

/-!
# What the table knows

An address with a word that is zero is taken neither for one in use nor for an unused entry, so that it may stand
in the table several times.  Each other address stands in it once, with what was heard from it last.
-/

namespace Ethersex.Arp

open Library

/-- Both words are different from zero. -/
def Plain (ip : Ip) : Prop := ip.1 ≠ 0 ∧ ip.2 ≠ 0

instance : DecidablePred Plain := fun _ => inferInstanceAs (Decidable (_ ∧ _))

section Update

variable {table : List Entry} {arptime : UInt8} {ip : Ip} {ethaddr : Mac}

/-- Each plain address stands in the table once. -/
abbrev Once (table : List Entry) : Prop := OnceOn Entry.ipaddr Plain table

theorem inUse_some {i : Nat} (found : inUse table ip = some i) :
    ∃ inside : i < table.length, table[i].ipaddr = ip ∧ Plain ip := by
  obtain ⟨inside, here, -⟩ := List.findIdx?_eq_some_iff_getElem.mp found
  rw [decide_eq_true_eq] at here
  exact ⟨inside, here.2.2.symm, here.2.2 ▸ ⟨here.1, here.2.1⟩⟩

theorem inUse_none (absent : inUse table ip = none) (plain : Plain ip) : ∀ entry ∈ table, entry.ipaddr ≠ ip := by
  intro entry member same
  have no := List.findIdx?_eq_none_iff.mp absent entry member
  rw [decide_eq_false_iff_not] at no
  exact no ⟨same ▸ plain.1, same ▸ plain.2, same.symm⟩

theorem unused_some {i : Nat} (found : unused table = some i) :
    ∃ inside : i < table.length, table[i].ipaddr = (0, 0) := by
  obtain ⟨inside, here, -⟩ := List.findIdx?_eq_some_iff_getElem.mp found
  rw [decide_eq_true_eq] at here
  exact ⟨inside, Prod.ext here.1 here.2⟩

theorem unused_none (absent : unused table = none) : ∀ entry ∈ table, entry.ipaddr ≠ (0, 0) := by
  intro entry member same
  have no := List.findIdx?_eq_none_iff.mp absent entry member
  rw [decide_eq_false_iff_not] at no
  exact no (by rw [same]; exact ⟨rfl, rfl⟩)

theorem oldestFrom_lt (arptime : UInt8) (rest : List Entry) {index bound : Nat} {found : Int × Nat}
    (small : found.2 < bound) (fits : index + rest.length ≤ bound) : oldestFrom arptime index rest found < bound := by
  induction rest generalizing index found with
  | nil => exact small
  | cons entry rest ih =>
    rw [List.length_cons] at fits
    rw [oldestFrom]
    refine ih ?_ (by omega)
    split_ifs
    · dsimp only
      omega
    · exact small

/-- What is learned takes one place, where the address stands already, or an unused one if there is any. -/
theorem update_eq (filled : table ≠ []) (arptime : UInt8) (ip : Ip) (ethaddr : Mac) :
    ∃ place, ∃ inside : place < table.length, update table arptime ip ethaddr = table.set place ⟨ip, ethaddr, arptime⟩ ∧
      (Plain ip ∧ table[place].ipaddr = ip ∨ (Plain ip → ∀ entry ∈ table, entry.ipaddr ≠ ip)) ∧
      (table[place].ipaddr = ip ∨ table[place].ipaddr = (0, 0) ∨ ∀ entry ∈ table, entry.ipaddr ≠ (0, 0)) := by
  rw [update]
  cases found : inUse table ip with
  | some i =>
    obtain ⟨inside, here, plain⟩ := inUse_some found
    refine ⟨i, inside, ?_, .inl ⟨plain, here⟩, .inl here⟩
    dsimp only
    rw [List.modify_eq_set_getElem? , List.getElem?_eq_getElem inside]
    simp [here]
  | none =>
    have alone := inUse_none found
    cases free : unused table with
    | some i =>
      obtain ⟨inside, here⟩ := unused_some free
      exact ⟨i, inside, rfl, .inr alone, .inr (.inl here)⟩
    | none =>
      have inside : oldest table arptime < table.length := by
        refine oldestFrom_lt arptime table ?_ (by omega)
        exact List.length_pos_iff.mpr filled
      exact ⟨oldest table arptime, inside, rfl, .inr alone, .inr (.inr (unused_none free))⟩

/-- The entries behind an update: the new one, and those in the other places. -/
theorem mem_update (once : Once table) (filled : table ≠ []) {entry : Entry}
    (member : entry ∈ update table arptime ip ethaddr) :
    entry = ⟨ip, ethaddr, arptime⟩ ∨ entry ∈ table ∧ (Plain ip → entry.ipaddr ≠ ip) := by
  obtain ⟨place, inside, same, alone, -⟩ := update_eq filled arptime ip ethaddr
  rw [same] at member
  obtain ⟨i, small, rfl⟩ := List.getElem_of_mem member
  rw [List.length_set] at small
  rw [List.getElem_set]
  split_ifs with here
  · exact .inl rfl
  · refine .inr ⟨List.getElem_mem small, fun plain => ?_⟩
    rcases alone with ⟨-, standing⟩ | none
    · intro again
      refine here (once place i inside small ?_ (standing.trans again.symm))
      exact standing.symm ▸ plain
    · exact none plain _ (List.getElem_mem small)

theorem Once.update (once : Once table) (filled : table ≠ []) : Once (update table arptime ip ethaddr) := by
  obtain ⟨place, inside, same, alone, -⟩ := update_eq filled arptime ip ethaddr
  rw [same]
  refine OnceOn.set once fun i small different plain again => ?_
  rcases alone with ⟨-, standing⟩ | none
  · exact different (once i place small inside (again.symm ▸ plain) (again.trans standing.symm))
  · exact none plain _ (List.getElem_mem small) again

theorem not_plain_zero : ¬Plain (0, 0) := fun plain => plain.1 rfl

theorem Plain.or_ne_zero (plain : Plain ip) : (ip.1 ||| ip.2) ≠ 0 := by
  intro zero
  rw [UInt16.or_eq_zero_iff] at zero
  exact plain.1 zero.1

/-- The entries behind a tick: the old ones, but for those that are unused now. -/
theorem mem_expire {entry : Entry} (member : entry ∈ expire table arptime) :
    entry ∈ table ∧ (Plain entry.ipaddr → age arptime entry < UIP_ARP_MAXAGE) ∨ entry.ipaddr = (0, 0) := by
  obtain ⟨old, there, rfl⟩ := List.mem_map.mp member
  split_ifs with aged
  · exact .inr rfl
  · refine .inl ⟨there, fun plain => ?_⟩
    by_contra late
    exact aged ⟨plain.or_ne_zero, not_lt.mp late⟩

theorem mem_expire_of_young {entry : Entry} (member : entry ∈ table) (young : age arptime entry < UIP_ARP_MAXAGE) :
    entry ∈ expire table arptime := by
  refine List.mem_map.mpr ⟨entry, member, ?_⟩
  rw [if_neg]
  rintro ⟨-, late⟩
  exact not_lt.mpr late young

theorem Once.expire (once : Once table) : Once (expire table arptime) := by
  refine OnceOn.map once fun entry plain => ?_
  split_ifs at plain ⊢
  · exact absurd plain not_plain_zero
  · rfl

end Update

/-! ## Runs -/

/-- What happens to a node. -/
inductive Event where
  | ip (srcipaddr : Ip) (src : Mac)
  | arp (len : Nat) (packet : ArpPacket)
  | tick

/-- A pair of addresses that a node has learned, when its time was `time`, and the ticks since then. -/
structure Heard where
  ipaddr : Ip
  ethaddr : Mac
  time : UInt8
  ticks : Nat

/-- A node, and what it has learned, the last pair first. -/
structure Lan where
  node : Node
  heard : List Heard

/-- What was heard last of an address. -/
def last (heard : List Heard) (ip : Ip) : Option Heard := heard.find? fun pair => pair.ipaddr = ip

namespace Lan

/-- The node after an event. -/
def after (node : Node) : Event → Node
  | .ip srcipaddr src => node.ipin srcipaddr src
  | .arp len packet => (node.arpin len packet).1
  | .tick => node.timer

def older (pair : Heard) : Heard := { pair with ticks := pair.ticks + 1 }

/-- What a node has learned after an event. -/
def hear (node : Node) (heard : List Heard) : Event → List Heard
  | .ip srcipaddr src =>
    if maskcmp srcipaddr node.hostaddr node.netmask then ⟨srcipaddr, src, node.arptime, 0⟩ :: heard else heard
  | .arp len packet =>
    if sizeofArpHdr ≤ len ∧ (packet.opcode = ARP_REQUEST ∨ packet.opcode = ARP_REPLY) ∧
        packet.dipaddr = node.hostaddr then
      ⟨packet.sipaddr, packet.shwaddr, node.arptime, 0⟩ :: heard
    else heard
  | .tick => heard.map older

def next (lan : Lan) (event : Event) : Lan := ⟨after lan.node event, hear lan.node lan.heard event⟩

/-- A run from a node whose table has been initialised. -/
def run (node : Node) (events : List Event) : Lan := events.foldl next ⟨node.init, []⟩

/-- A run keeps what each event keeps. -/
theorem run_keeps {node : Node} {Kept : Lan → Prop} (start : Kept ⟨node.init, []⟩)
    (step : ∀ lan event, Kept lan → Kept (lan.next event)) (events : List Event) : Kept (run node events) := by
  rw [run]
  generalize (⟨node.init, []⟩ : Lan) = lan at start ⊢
  induction events generalizing lan with
  | nil => exact start
  | cons event rest ih => exact ih _ (step lan event start)

/-- Whatever happens, nothing changes, a node learns a pair of addresses, or the time goes on. -/
theorem next_cases (lan : Lan) (event : Event) :
    lan.next event = lan ∨
      (∃ ip ethaddr, lan.next event = ⟨lan.node.learn ip ethaddr, ⟨ip, ethaddr, lan.node.arptime, 0⟩ :: lan.heard⟩) ∨
      lan.next event = ⟨lan.node.timer, lan.heard.map older⟩ := by
  rw [next]
  cases event with
  | ip srcipaddr src =>
    rw [after, Node.ipin, hear]
    split_ifs
    · exact .inr (.inl ⟨_, _, rfl⟩)
    · exact .inl rfl
  | arp len packet =>
    rw [after, Node.arpin, hear]
    by_cases taken : sizeofArpHdr ≤ len ∧ (packet.opcode = ARP_REQUEST ∨ packet.opcode = ARP_REPLY) ∧
        packet.dipaddr = lan.node.hostaddr
    · obtain ⟨long, kind, mine⟩ := taken
      rw [if_neg (not_lt.mpr long), if_pos (show _ ∧ _ ∧ _ from ⟨long, kind, mine⟩)]
      refine .inr (.inl ⟨packet.sipaddr, packet.shwaddr, ?_⟩)
      rcases kind with request | reply
      · rw [if_pos request, if_pos mine]
      · rw [if_neg (by rw [reply]; decide), if_pos reply, if_pos mine]
    · rw [if_neg taken]
      refine .inl ?_
      split_ifs with short request mine reply mine
      · rfl
      · exact absurd ⟨not_lt.mp short, .inl request, mine⟩ taken
      · rfl
      · exact absurd ⟨not_lt.mp short, .inr reply, mine⟩ taken
      · rfl
      · rfl
  | tick => exact .inr (.inr rfl)

end Lan

theorem last_cons_self (pair : Heard) (heard : List Heard) : last (pair :: heard) pair.ipaddr = some pair :=
  List.find?_cons_of_pos (decide_eq_true rfl)

theorem last_cons_of_ne {pair : Heard} {ip : Ip} (different : pair.ipaddr ≠ ip) (heard : List Heard) :
    last (pair :: heard) ip = last heard ip :=
  List.find?_cons_of_neg (by rwa [decide_eq_true_eq])

theorem last_map_older (heard : List Heard) (ip : Ip) : last (heard.map Lan.older) ip = (last heard ip).map Lan.older := by
  rw [last, List.find?_map]
  rfl

theorem mem_of_last {heard : List Heard} {ip : Ip} {pair : Heard} (found : last heard ip = some pair) :
    pair ∈ heard ∧ pair.ipaddr = ip := by
  have same := List.find?_some found
  exact ⟨List.mem_of_find?_eq_some found, of_decide_eq_true same⟩

theorem lookup_some {table : List Entry} {ip : Ip} {entry : Entry} (found : lookup table ip = some entry) :
    entry ∈ table ∧ entry.ipaddr = ip := by
  have same := List.find?_some found
  exact ⟨List.mem_of_find?_eq_some found, (of_decide_eq_true same).symm⟩

theorem Once.lookup {table : List Entry} (once : Once table) {entry : Entry} (member : entry ∈ table)
    (plain : Plain entry.ipaddr) : lookup table entry.ipaddr = some entry := by
  cases found : Arp.lookup table entry.ipaddr with
  | none => exact absurd rfl (of_decide_eq_false ((List.find?_eq_none.mp found) entry member |> eq_false_of_ne_true))
  | some other =>
    obtain ⟨there, same⟩ := lookup_some found
    rw [once.eq_of_mem there member (same ▸ plain) same]

/-! ## What is told -/

/-- What the table tells of a plain address was heard last from there. -/
structure Latest (lan : Lan) : Prop where
  filled : lan.node.table ≠ []
  once : Once lan.node.table
  tells : ∀ entry ∈ lan.node.table, Plain entry.ipaddr →
    ∃ pair, last lan.heard entry.ipaddr = some pair ∧ pair.ethaddr = entry.ethaddr ∧ pair.time = entry.time

theorem Latest.learn {lan : Lan} (latest : Latest lan) (ip : Ip) (ethaddr : Mac) :
    Latest ⟨lan.node.learn ip ethaddr, ⟨ip, ethaddr, lan.node.arptime, 0⟩ :: lan.heard⟩ := by
  refine ⟨?_, latest.once.update latest.filled, fun entry member plain => ?_⟩
  · obtain ⟨place, -, same, -⟩ := update_eq latest.filled lan.node.arptime ip ethaddr
    simp [Node.learn, same, latest.filled]
  · rcases mem_update latest.once latest.filled member with rfl | ⟨old, other⟩
    · exact ⟨_, last_cons_self _ _, rfl, rfl⟩
    · have different : entry.ipaddr ≠ ip := fun same => other (same ▸ plain) same
      rw [last_cons_of_ne different.symm]
      exact latest.tells entry old plain

theorem Latest.tick {lan : Lan} (latest : Latest lan) : Latest ⟨lan.node.timer, lan.heard.map Lan.older⟩ := by
  refine ⟨?_, latest.once.expire, fun entry member plain => ?_⟩
  · simpa [Node.timer, expire] using latest.filled
  · rcases mem_expire member with ⟨old, -⟩ | zero
    · obtain ⟨pair, found, same⟩ := latest.tells entry old plain
      exact ⟨Lan.older pair, by rw [last_map_older, found]; rfl, same⟩
    · exact absurd (zero ▸ plain) not_plain_zero

theorem Latest.next {lan : Lan} (latest : Latest lan) (event : Event) : Latest (lan.next event) := by
  rcases lan.next_cases event with same | ⟨ip, ethaddr, learned⟩ | ticked
  · rw [same]
    exact latest
  · rw [learned]
    exact latest.learn ip ethaddr
  · rw [ticked]
    exact latest.tick

theorem mem_init {node : Node} {entry : Entry} (member : entry ∈ node.init.table) : entry.ipaddr = (0, 0) := by
  obtain ⟨old, -, rfl⟩ := List.mem_map.mp (show entry ∈ node.table.map _ from member)
  rfl

theorem Latest.init {node : Node} (filled : node.table ≠ []) : Latest ⟨node.init, []⟩ where
  filled := by simpa [Node.init] using filled
  once := by
    refine fun i j first second plain _ => absurd ?_ not_plain_zero
    simpa [Node.init] using plain
  tells _ member plain := absurd (mem_init member ▸ plain) not_plain_zero

theorem latest_run {node : Node} (filled : node.table ≠ []) (events : List Event) : Latest (Lan.run node events) :=
  Lan.run_keeps (.init filled) (fun _ event latest => latest.next event) events

/-- In every state that a node reaches, whatever it has heard: a packet that goes out to a single host, or to the
default router, has the Ethernet address that was heard last from there. -/
theorem out_latest (node : Node) (filled : node.table ≠ []) (events : List Event) (destipaddr : Ip) (len : Nat)
    {dest src : Mac} {type total : Nat} :
    let lan := Lan.run node events
    lan.node.group destipaddr = none → Plain (lan.node.hop destipaddr) →
      lan.node.out destipaddr len = .ip dest src type total →
        (last lan.heard (lan.node.hop destipaddr)).map Heard.ethaddr = some dest ∧ src = lan.node.ethaddr ∧
          type = UIP_ETHTYPE_IP ∧ total = len + sizeofEthHdr := by
  intro lan single plain sent
  have latest := latest_run filled events
  rw [Node.out, single] at sent
  dsimp only at sent
  cases found : lookup lan.node.table (lan.node.hop destipaddr) with
  | none => rw [found] at sent; cases sent
  | some entry =>
    rw [found] at sent
    cases sent
    obtain ⟨member, same⟩ := lookup_some found
    obtain ⟨pair, heard, ethaddr, -⟩ := latest.tells entry member (same ▸ plain)
    rw [← same, heard, Option.map_some, ethaddr]
    exact ⟨rfl, rfl, rfl, rfl⟩

/-- A host on its network, with room for two other ones. -/
def desk : Node where
  hostaddr := (0x000a, 0x0100)
  netmask := (0xffff, 0x00ff)
  draddr := (0x000a, 0xfe00)
  ethaddr := ![0xac, 0xde, 0x48, 0xfd, 0x0f, 0xd0]
  table := List.replicate 2 ⟨(0, 0), fun _ => 0, 0⟩
  arptime := 0

def lamp : Ip × Mac := ((0x000a, 0x0200), ![0xac, 0xde, 0x48, 0xfd, 0x0f, 0xd1])

theorem out_latest_lamp :
    (last (Lan.run desk [.ip lamp.1 (fun _ => 1), .tick, .ip lamp.1 lamp.2]).heard lamp.1).map Heard.ethaddr =
      some lamp.2 :=
  (out_latest desk (by decide) [.ip lamp.1 (fun _ => 1), .tick, .ip lamp.1 lamp.2] lamp.1 40 rfl (by decide) rfl).1

/-! ## What is forgotten -/

/-- The time of what was learned has not come yet.  The difference between two bytes of which the second one is 136 or
more does not reach 120, so that it does not come at all for what was learned then. -/
def Lives (pair : Heard) : Prop := pair.ticks < 120 ∨ 136 ≤ pair.time.toNat

instance : DecidablePred Lives := fun _ => inferInstanceAs (Decidable (_ ∨ _))

/-- The addresses that were heard have no zeros, and there is an entry for each of them. -/
structure Few (lan : Lan) : Prop where
  plain : ∀ pair ∈ lan.heard, Plain pair.ipaddr
  card : (lan.heard.map Heard.ipaddr).toFinset.card ≤ lan.node.table.length

/-- The table tells exactly what was heard last, as long as that lives. -/
structure Exact (lan : Lan) : Prop extends Latest lan where
  lives : ∀ entry ∈ lan.node.table, Plain entry.ipaddr → ∀ pair, last lan.heard entry.ipaddr = some pair → Lives pair
  kept : ∀ ip pair, last lan.heard ip = some pair → Lives pair → ∃ entry ∈ lan.node.table, entry.ipaddr = ip
  clock : ∀ pair ∈ lan.heard, lan.node.arptime.toNat = (pair.time.toNat + pair.ticks) % 256
  zeros : ∀ entry ∈ lan.node.table, Plain entry.ipaddr ∨ entry.ipaddr = (0, 0)

theorem length_update (filled : table ≠ []) (arptime : UInt8) (ip : Ip) (ethaddr : Mac) :
    (update table arptime ip ethaddr).length = table.length := by
  obtain ⟨place, -, same, -⟩ := update_eq filled arptime ip ethaddr
  rw [same, List.length_set]

/-- A difference that has reached the age, when the time goes on. -/
theorem late_iff {time arptime : UInt8} {ticks : Nat} (clock : arptime.toNat = (time.toNat + ticks) % 256)
    (lives : ticks < 120 ∨ 136 ≤ time.toNat) :
    UIP_ARP_MAXAGE ≤ ((arptime + 1).toNat : Int) - time.toNat ↔ ¬(ticks + 1 < 120 ∨ 136 ≤ time.toNat) := by
  have small := time.toNat_lt
  rw [UInt8.toNat_add, show (1 : UInt8).toNat = 1 from rfl, clock, UIP_ARP_MAXAGE]
  omega

/-- There is a place for what is learned, which no other address has. -/
theorem Exact.not_full {lan : Lan} (exact : Exact lan) {pair : Heard} {node : Node}
    (few : Few ⟨node, pair :: lan.heard⟩) (same : node.table.length = lan.node.table.length)
    (full : ∀ entry ∈ lan.node.table, entry.ipaddr ≠ (0, 0)) :
    ∃ entry ∈ lan.node.table, entry.ipaddr = pair.ipaddr := by
  by_contra none
  have keys := few.card
  rw [same, List.map_cons, List.toFinset_cons] at keys
  have less := Finset.card_erase_lt_of_mem (Finset.mem_insert_self pair.ipaddr (lan.heard.map Heard.ipaddr).toFinset)
  obtain ⟨entry, member, bad⟩ := exact.once.exists_not_good (lt_of_lt_of_le less keys) fun entry member plain => by
    obtain ⟨old, heard, -⟩ := exact.tells entry member plain
    obtain ⟨there, again⟩ := mem_of_last heard
    refine Finset.mem_erase.mpr ⟨fun here => none ⟨entry, member, here⟩, Finset.mem_insert_of_mem ?_⟩
    exact List.mem_toFinset.mpr (again ▸ List.mem_map_of_mem there)
  exact (exact.zeros entry member).elim bad (full entry member)

theorem Exact.learn {lan : Lan} (exact : Exact lan) (ip : Ip) (ethaddr : Mac)
    (few : Few ⟨lan.node.learn ip ethaddr, ⟨ip, ethaddr, lan.node.arptime, 0⟩ :: lan.heard⟩) :
    Exact ⟨lan.node.learn ip ethaddr, ⟨ip, ethaddr, lan.node.arptime, 0⟩ :: lan.heard⟩ := by
  have plain : Plain ip := few.plain _ List.mem_cons_self
  refine ⟨exact.toLatest.learn ip ethaddr, ?_, ?_, ?_, ?_⟩
  · rintro entry member standing pair found
    rcases mem_update exact.once exact.filled member with rfl | ⟨old, other⟩
    · obtain rfl : _ = pair := Option.some.inj ((last_cons_self _ _).symm.trans found)
      exact .inl (Nat.zero_lt_succ _)
    · rw [last_cons_of_ne (other plain).symm] at found
      exact exact.lives entry old standing pair found
  · intro other pair found lives
    obtain ⟨place, inside, same, alone, choice⟩ := update_eq exact.filled lan.node.arptime ip ethaddr
    by_cases here : ip = other
    · refine ⟨⟨ip, ethaddr, lan.node.arptime⟩, ?_, here⟩
      simp only [Node.learn, same]
      exact List.mem_set inside _
    · rw [last_cons_of_ne here] at found
      obtain ⟨entry, member, rfl⟩ := exact.kept other pair found lives
      have matters : Plain entry.ipaddr := by
        obtain ⟨there, again⟩ := mem_of_last found
        exact again ▸ few.plain pair (List.mem_cons_of_mem _ there)
      refine ⟨entry, ?_, rfl⟩
      obtain ⟨i, small, rfl⟩ := List.getElem_of_mem member
      have apart : place ≠ i := by
        rintro rfl
        rcases choice with standing | zero | full
        · exact here standing.symm
        · exact absurd (zero ▸ matters) not_plain_zero
        · obtain ⟨entry, there, again⟩ := exact.not_full few (length_update exact.filled _ _ _) full
          rcases alone with ⟨-, standing⟩ | none
          · exact here standing.symm
          · exact none plain entry there again
      simp only [Node.learn, same]
      rw [List.mem_iff_getElem]
      exact ⟨i, by rwa [List.length_set], List.getElem_set_ne apart _⟩
  · rintro pair member
    rcases List.mem_cons.mp member with rfl | old
    · have small := lan.node.arptime.toNat_lt
      show lan.node.arptime.toNat = (lan.node.arptime.toNat + 0) % 256
      omega
    · exact exact.clock pair old
  · intro entry member
    rcases mem_update exact.once exact.filled member with rfl | ⟨old, -⟩
    · exact .inl plain
    · exact exact.zeros entry old

theorem Exact.tick {lan : Lan} (exact : Exact lan) (few : Few lan) :
    Exact ⟨lan.node.timer, lan.heard.map Lan.older⟩ := by
  refine ⟨exact.toLatest.tick, ?_, ?_, ?_, ?_⟩
  · intro entry member plain pair found
    rw [last_map_older] at found
    obtain ⟨old, heard, rfl⟩ := Option.map_eq_some_iff.mp found
    rcases mem_expire member with ⟨there, young⟩ | zero
    · have lives := exact.lives entry there plain old heard
      obtain ⟨again, told, -, same⟩ := exact.tells entry there plain
      obtain rfl : old = again := Option.some.inj (heard.symm.trans told)
      have clock := exact.clock old (mem_of_last heard).1
      by_contra dead
      refine not_le.mpr (young plain) ?_
      rw [age, ← same]
      exact (late_iff clock lives).mpr dead
    · exact absurd (zero ▸ plain) not_plain_zero
  · intro ip pair found lives
    rw [last_map_older] at found
    obtain ⟨old, heard, rfl⟩ := Option.map_eq_some_iff.mp found
    have before : Lives old := lives.imp_left fun less => Nat.lt_of_succ_lt less
    obtain ⟨entry, member, rfl⟩ := exact.kept ip old heard before
    have plain : Plain entry.ipaddr := by
      obtain ⟨there, same⟩ := mem_of_last heard
      exact same ▸ few.plain old there
    refine ⟨entry, mem_expire_of_young member ?_, rfl⟩
    obtain ⟨again, told, -, same⟩ := exact.tells entry member plain
    obtain rfl : old = again := Option.some.inj (heard.symm.trans told)
    have clock := exact.clock old (mem_of_last heard).1
    rw [age, ← same, ← not_le, late_iff clock before, not_not]
    exact lives
  · intro pair member
    obtain ⟨old, there, rfl⟩ := List.mem_map.mp member
    have clock := exact.clock old there
    show (lan.node.arptime + 1).toNat = (old.time.toNat + (old.ticks + 1)) % 256
    rw [UInt8.toNat_add, show (1 : UInt8).toNat = 1 from rfl, clock]
    omega
  · intro entry member
    rcases mem_expire member with ⟨old, -⟩ | zero
    · exact exact.zeros entry old
    · exact .inr zero

theorem exact_init {node : Node} (filled : node.table ≠ []) : Exact ⟨node.init, []⟩ where
  toLatest := .init filled
  lives _ member plain := absurd (mem_init member ▸ plain) not_plain_zero
  kept _ _ found := absurd found (Option.some_ne_none _).symm
  clock _ member := absurd member List.not_mem_nil
  zeros _ member := .inr (mem_init member)

theorem Few.of_learn {lan : Lan} (filled : lan.node.table ≠ []) {ip : Ip} {ethaddr : Mac}
    (few : Few ⟨lan.node.learn ip ethaddr, ⟨ip, ethaddr, lan.node.arptime, 0⟩ :: lan.heard⟩) : Few lan where
  plain pair member := few.plain pair (List.mem_cons_of_mem _ member)
  card := by
    have card := few.card
    rw [Node.learn, length_update filled, List.map_cons, List.toFinset_cons] at card
    exact (Finset.card_le_card (Finset.subset_insert _ _)).trans card

theorem Few.of_tick {lan : Lan} (few : Few ⟨lan.node.timer, lan.heard.map Lan.older⟩) : Few lan where
  plain pair member := few.plain (Lan.older pair) (List.mem_map_of_mem member)
  card := by
    have card := few.card
    rw [List.map_map, Node.timer, expire, List.length_map] at card
    exact card

theorem exact_run {node : Node} (filled : node.table ≠ []) (events : List Event) (few : Few (Lan.run node events)) :
    Exact (Lan.run node events) := by
  refine (@Lan.run_keeps node (fun lan => Latest lan ∧ (Few lan → Exact lan)) ?_ ?_ events).2 few
  · exact ⟨.init filled, fun _ => exact_init filled⟩
  rintro lan event ⟨latest, kept⟩
  refine ⟨latest.next event, fun few => ?_⟩
  rcases lan.next_cases event with same | ⟨ip, ethaddr, learned⟩ | ticked
  · rw [same] at few ⊢
    exact kept few
  · rw [learned] at few ⊢
    exact (kept (few.of_learn latest.filled)).learn ip ethaddr few
  · rw [ticked] at few ⊢
    exact (kept few.of_tick).tick few.of_tick

/-- As long as there is an entry for each address that was heard, the table tells of an address exactly what was heard
last of it, if that is less than 120 ticks ago, or if it was heard at a time of 136 or more. -/
theorem lookup_lives (node : Node) (filled : node.table ≠ []) (events : List Event) (few : Few (Lan.run node events))
    (ip : Ip) (used : ip ≠ (0, 0)) :
    let lan := Lan.run node events
    (lookup lan.node.table ip).map Entry.ethaddr = ((last lan.heard ip).filter fun pair => Lives pair).map Heard.ethaddr := by
  intro lan
  have exact : Exact lan := exact_run filled events few
  cases heard : last lan.heard ip with
  | none =>
    rw [Option.filter_none, Option.map_none, Option.map_eq_none_iff]
    by_contra known
    obtain ⟨entry, found⟩ := Option.ne_none_iff_exists'.mp known
    obtain ⟨member, rfl⟩ := lookup_some found
    obtain ⟨pair, told, -⟩ := exact.tells entry member ((exact.zeros entry member).resolve_right used)
    rw [heard] at told
    cases told
  | some pair =>
    obtain ⟨there, rfl⟩ := mem_of_last heard
    have plain := few.plain pair there
    by_cases lives : Lives pair
    · rw [Option.filter_some, if_pos (decide_eq_true lives)]
      obtain ⟨entry, member, same⟩ := exact.kept _ pair heard lives
      rw [← same] at heard plain ⊢
      obtain ⟨again, told, ethaddr, -⟩ := exact.tells entry member plain
      rw [exact.once.lookup member plain, Option.map_some, Option.map_some, ← ethaddr]
      rw [Option.some.inj (heard.symm.trans told)]
    · rw [Option.filter_some, if_neg (by rwa [decide_eq_true_eq]), Option.map_none, Option.map_eq_none_iff]
      by_contra known
      obtain ⟨entry, found⟩ := Option.ne_none_iff_exists'.mp known
      obtain ⟨member, same⟩ := lookup_some found
      rw [← same] at heard plain
      exact lives (exact.lives entry member plain pair heard)

theorem lookup_lives_lamp :
    (lookup (Lan.run desk [.ip lamp.1 lamp.2, .tick, .tick]).node.table lamp.1).map Entry.ethaddr = some lamp.2 :=
  lookup_lives desk (by decide) [.ip lamp.1 lamp.2, .tick, .tick] ⟨by decide, by decide⟩ lamp.1 (by decide)

/-! ## Who is asked -/

/-- What is learned of an address is told of it. -/
theorem lookup_update {table : List Entry} (filled : table ≠ []) (arptime : UInt8) (ip : Ip) (ethaddr : Mac)
    (alone : Once table ∧ Plain ip ∨ ∀ entry ∈ table, entry.ipaddr ≠ ip) :
    lookup (update table arptime ip ethaddr) ip = some ⟨ip, ethaddr, arptime⟩ := by
  have member : ⟨ip, ethaddr, arptime⟩ ∈ update table arptime ip ethaddr := by
    obtain ⟨place, inside, same, -⟩ := update_eq filled arptime ip ethaddr
    rw [same]
    exact List.mem_set inside _
  rcases alone with ⟨once, plain⟩ | none
  · exact (once.update filled).lookup member plain
  · cases found : lookup (update table arptime ip ethaddr) ip with
    | none => exact absurd rfl (of_decide_eq_false (eq_false_of_ne_true (List.find?_eq_none.mp found _ member)))
    | some other =>
      obtain ⟨there, same⟩ := lookup_some found
      obtain ⟨place, -, set, -⟩ := update_eq filled arptime ip ethaddr
      rw [set] at there
      rcases List.mem_or_eq_of_mem_set there with old | rfl
      · exact absurd same (none other old)
      · rfl

theorem ne_of_lookup {table : List Entry} {ip : Ip} (unknown : lookup table ip = none) :
    ∀ entry ∈ table, entry.ipaddr ≠ ip := by
  intro entry member same
  exact List.find?_eq_none.mp unknown entry member (decide_eq_true same.symm)

/-- A packet goes to the address that has been learned. -/
theorem Node.out_learn {node : Node} (filled : node.table ≠ []) {ip : Ip} (ethaddr : Mac)
    (alone : Once node.table ∧ Plain ip ∨ ∀ entry ∈ node.table, entry.ipaddr ≠ ip) {destipaddr : Ip}
    (single : node.group destipaddr = none) (towards : node.hop destipaddr = ip) (len : Nat) :
    (node.learn ip ethaddr).out destipaddr len = .ip ethaddr node.ethaddr UIP_ETHTYPE_IP (len + sizeofEthHdr) := by
  have single' : (node.learn ip ethaddr).group destipaddr = none := single
  have towards' : (node.learn ip ethaddr).hop destipaddr = ip := towards
  have told : lookup (node.learn ip ethaddr).table ip = some ⟨ip, ethaddr, node.arptime⟩ :=
    lookup_update filled node.arptime ip ethaddr alone
  rw [Node.out, single', towards', told]
  rfl

theorem Node.arpin_request {node : Node} {packet : ArpPacket} (request : packet.opcode = ARP_REQUEST)
    (mine : packet.dipaddr = node.hostaddr) :
    ∃ reply, node.arpin sizeofArpHdr packet = (node.learn packet.sipaddr packet.shwaddr, some reply) ∧
      reply.opcode = ARP_REPLY ∧ reply.dest = packet.shwaddr ∧ reply.dipaddr = packet.sipaddr ∧
      reply.sipaddr = node.hostaddr ∧ reply.shwaddr = node.ethaddr := by
  rw [Node.arpin, if_neg (lt_irrefl _), if_pos request, if_pos mine]
  exact ⟨_, rfl, rfl, rfl, rfl, mine, rfl⟩

theorem Node.arpin_reply {node : Node} {packet : ArpPacket} (reply : packet.opcode = ARP_REPLY)
    (mine : packet.dipaddr = node.hostaddr) :
    node.arpin sizeofArpHdr packet = (node.learn packet.sipaddr packet.shwaddr, none) := by
  have other : packet.opcode ≠ ARP_REQUEST := by
    rw [reply]
    decide
  rw [Node.arpin, if_neg (lt_irrefl _), if_neg other, if_pos reply, if_pos mine]

/-- The other host on the network. -/
def bench : Node := { desk with hostaddr := lamp.1, ethaddr := lamp.2 }

end Ethersex.Arp
