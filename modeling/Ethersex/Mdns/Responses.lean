import Mathlib
import Ethersex.Mdns.Model

/-!
# The answers of service discovery

Each record that is written is read back as a record of the wanted name and type.  The message as a
whole is well formed unless it does not fit in the packet buffer, or the loop over the table has
stopped before its end while the address of the host is still to come.
-/

namespace Ethersex.Mdns

open Library

/-! ## Texts -/

theorem labels_append {part rest : List UInt8} (free : DOT ∉ part) :
    labels (part ++ DOT :: rest) = part :: labels rest :=
  List.splitOn_append_cons_self_of_not_mem free rest

theorem labels_eq_singleton {text : List UInt8} (free : DOT ∉ text) : labels text = [text] :=
  List.splitOn_eq_singleton free

theorem labels_ne_nil (text : List UInt8) : labels text ≠ [] := List.splitOn_ne_nil DOT text

theorem takeWhile_part {part rest : List UInt8} (free : DOT ∉ part) :
    (part ++ DOT :: rest).takeWhile (· ≠ DOT) = part := by
  rw [List.takeWhile_append_of_pos, List.takeWhile_cons_of_neg, List.append_nil]
  · simp
  · intro ch member
    exact decide_eq_true fun same => free (same ▸ member)

theorem takeWhile_text {text : List UInt8} (free : DOT ∉ text) : text.takeWhile (· ≠ DOT) = text :=
  List.takeWhile_eq_self_iff.mpr fun _ member => decide_eq_true fun same => free (same ▸ member)

theorem toNat_length {n : Nat} (small : n < 256) : (UInt8.ofNat n).toNat = n := by
  rw [UInt8.toNat_ofNat', Nat.mod_eq_of_lt small]

theorem segments_eq {text : List UInt8} (isText : IsText text) {fuel : Nat} (enough : text.length < fuel) :
    segments fuel text = Dns.encode (labels text) := by
  induction fuel generalizing text with
  | zero => exact absurd enough (Nat.not_lt_zero _)
  | succ fuel ih =>
      rw [segments]
      by_cases dot : DOT ∈ text
      · obtain ⟨part, rest, rfl, free⟩ := List.eq_append_cons_of_mem dot
        have parts : labels (part ++ DOT :: rest) = part :: labels rest := labels_append free
        have small : part.length < 256 := isText part (by rw [parts]; exact List.mem_cons_self)
        have short : rest.length < fuel := by
          rw [List.length_append, List.length_cons] at enough
          omega
        have behind : (part ++ DOT :: rest).drop (part.length + 1) = rest := by
          rw [← List.drop_drop, List.drop_left, List.drop_one, List.tail_cons]
        rw [takeWhile_part free, if_pos dot, toNat_length small, behind, List.take_left, parts,
          ih (fun other member => isText other (by rw [parts]; exact List.mem_cons_of_mem _ member)) short]
        rfl
      · have parts := labels_eq_singleton dot
        have small : text.length < 256 := isText text (by rw [parts]; exact List.mem_cons_self)
        rw [takeWhile_text dot, if_neg dot, toNat_length small, List.take_length, parts]
        rfl

theorem length_encode_labels (text : List UInt8) :
    (Dns.encode (labels text)).length = text.length + 1 := by
  induction size : text.length using Nat.strong_induction_on generalizing text with
  | _ n ih =>
      subst size
      by_cases dot : DOT ∈ text
      · obtain ⟨part, rest, rfl, free⟩ := List.eq_append_cons_of_mem dot
        have shorter : rest.length < (part ++ DOT :: rest).length := by
          rw [List.length_append, List.length_cons]
          omega
        rw [labels_append free, Dns.encode, List.flatMap_cons, ← Dns.encode, List.length_append,
          ih _ shorter rest rfl, List.length_append, List.length_cons, List.length_cons]
        omega
      · rw [labels_eq_singleton dot, Dns.encode, List.flatMap_singleton, List.length_cons]

theorem IsName.isText {text : List UInt8} (isName : IsName text) : IsText text := fun part member =>
  lt_trans (isName.1 part member).2 (by decide)

theorem appendLabel_eq {text : List UInt8} (isText : IsText text) :
    appendLabel (some text) = Dns.encode (labels text) ++ [0] := by
  rw [appendLabel, segments_eq isText (Nat.lt_succ_self _)]

theorem length_appendLabel {text : List UInt8} (isText : IsText text) :
    (appendLabel (some text)).length = text.length + 2 := by
  rw [appendLabel_eq isText, List.length_append, length_encode_labels]
  rfl

theorem encode_append (first second : List Dns.Label) :
    Dns.encode (first ++ second) = Dns.encode first ++ Dns.encode second := List.flatMap_append

/-! ## Records -/

/-- The names of one or of two texts. -/
def names (label1 : List UInt8) (label2 : Option (List UInt8)) : List Dns.Label :=
  labels label1 ++ label2.elim [] labels

theorem appendAnswerHeader_eq {label1 : List UInt8} {label2 : Option (List UInt8)} (isName : IsName label1)
    (isName' : ∀ text ∈ label2, IsName text) (cls type ttl : Nat) :
    appendAnswerHeader label1 label2 cls type ttl =
      Dns.encode (names label1 label2) ++ [0] ++ Dns.word type ++ Dns.word cls ++ [0, 0] ++ Dns.word ttl := by
  rw [names, encode_append]
  cases label2 with
  | none =>
      change appendLabel (some label1) ++ _ ++ _ ++ _ ++ _ = _ ++ [] ++ _ ++ _ ++ _ ++ _ ++ _
      rw [appendLabel_eq isName.isText, List.append_nil]
  | some text =>
      change (appendLabel (some label1)).dropLast ++ appendLabel (some text) ++ _ ++ _ ++ _ ++ _ = _
      rw [appendLabel_eq isName.isText, List.dropLast_concat, appendLabel_eq (isName' text rfl).isText,
        Option.elim_some]
      simp only [List.append_assoc]

theorem legal_names {label1 : List UInt8} {label2 : Option (List UInt8)} (isName : IsName label1)
    (isName' : ∀ text ∈ label2, IsName text) : Dns.Legal (names label1 label2) := by
  refine isName.1.append ?_
  cases label2 with
  | none => exact fun _ member => absurd member List.not_mem_nil
  | some text => exact (isName' text rfl).1

/-- The records that have been written, in any message that goes on with them behind its header. -/
structure Assembled (a : Assembly) (records : List Dns.Record) : Prop where
  reads : ∀ front more, front.length = 12 →
    Dns.RecordsAt (front ++ (a.body ++ more)) 12 records a.nameptr
  counted : a.answers = UInt8.ofNat records.length

theorem assembled_nil : Assembled ⟨[], 0, false⟩ [] := ⟨fun _ _ _ => .nil, rfl⟩

/-- Where the name of a record is read, it is read as the name of that record. -/
theorem Assembled.record {a : Assembly} {records : List Dns.Record} (here : Assembled a records)
    {label1 : List UInt8} {label2 : Option (List UInt8)} (isName : IsName label1)
    (isName' : ∀ text ∈ label2, IsName text) (cls : Nat) {type : Nat} (small : type < 65536)
    (data : List UInt8) (short : data.length < 65536)
    (reads : ∀ m stop, Dns.BytesAt m stop data →
      Dns.NameAt m a.nameptr (names label1 label2)
        (a.nameptr + (Dns.encode (names label1 label2) ++ [0]).length) → a.nameptr < stop →
      Dns.DataAt m type stop (stop + data.length)) :
    Assembled (a.record (appendAnswerHeader label1 label2 cls type 600) data)
      (records ++ [⟨names label1 label2, type⟩]) := by
  constructor
  · intro front more twelve
    have written : front ++ ((a.record (appendAnswerHeader label1 label2 cls type 600) data).body ++ more) =
        (front ++ a.body) ++ (Dns.encode (names label1 label2) ++ [0] ++
          Dns.fields type cls 600 data.length ++ data ++ more) := by
      change front ++ (a.body ++ (appendAnswerHeader label1 label2 cls type 600 ++ _ ++ _) ++ more) = _
      rw [appendAnswerHeader_eq isName isName', Dns.fields]
      simp only [List.append_assoc]
      rfl
    have earlier := here.reads front (Dns.encode (names label1 label2) ++ [0] ++
      Dns.fields type cls 600 data.length ++ data ++ more) twelve
    rw [← List.append_assoc] at earlier
    rw [written]
    have place : (front ++ a.body).length = a.nameptr := by rw [List.length_append, twelve, Assembly.nameptr]
    have there := Dns.BytesAt.middle (front ++ a.body) (Dns.encode (names label1 label2) ++ [0] ++
      Dns.fields type cls 600 data.length ++ data) more
    rw [place] at there
    obtain ⟨there, last⟩ := Dns.bytesAt_append.mp there
    obtain ⟨first, second⟩ := Dns.bytesAt_append.mp there
    have name := Dns.NameAt.terminated (legal_names isName isName') first
    rw [List.length_append, ← Nat.add_assoc, Dns.length_fields] at last
    have stop : (a.record (appendAnswerHeader label1 label2 cls type 600) data).nameptr =
        a.nameptr + (Dns.encode (names label1 label2) ++ [0]).length + 10 + data.length := by
      rw [Assembly.nameptr, Assembly.record, appendAnswerHeader_eq isName isName', Assembly.nameptr]
      simp only [List.length_append, List.length_cons, List.length_nil, Dns.length_word]
      omega
    rw [stop]
    refine earlier.concat (.mk name small short second ?_ (reads _ _ last name ?_))
    · simp only [List.length_append, twelve, Dns.length_fields, Assembly.nameptr]
      omega
    · rw [List.length_append, List.length_singleton]
      omega
  · rw [List.length_append, List.length_singleton]
    change a.answers + 1 = _
    rw [here.counted]
    exact (UInt8.ofNat_add ..).symm

theorem nameptr_record (header data : List UInt8) (a : Assembly) :
    (a.record header data).nameptr = a.nameptr + (header.length + 2 + data.length) := by
  rw [Assembly.nameptr, Assembly.record, Assembly.nameptr, List.length_append, List.length_append,
    List.length_append, Dns.length_word, ← Nat.add_assoc]

theorem length_appendAnswerHeader {label1 : List UInt8} {label2 : Option (List UInt8)}
    (isName : IsName label1) (isName' : ∀ text ∈ label2, IsName text) (cls type ttl : Nat) :
    (appendAnswerHeader label1 label2 cls type ttl).length =
      label1.length + label2.elim 0 (fun text => text.length + 1) + 10 := by
  rw [appendAnswerHeader_eq isName isName', names, encode_append]
  simp only [List.length_append, length_encode_labels, Dns.length_word, List.length_cons, List.length_nil]
  cases label2 with
  | none =>
      change _ + 1 + 0 + _ + _ + _ + _ + _ = _ + 0 + 10
      omega
  | some text =>
      change _ + 1 + (Dns.encode (labels text)).length + _ + _ + _ + _ + _ = _ + (text.length + 1) + 10
      rw [length_encode_labels]
      omega

@[simp] theorem names_none (text : List UInt8) : names text none = labels text := List.append_nil _

theorem or_pointer {n : Nat} (small : n < 0x4000) : 0xC000 ||| n = 0xC000 + n :=
  (Nat.two_pow_add_eq_or_of_lt (show n < 2 ^ 14 from small) 3).symm

section Service

variable {c : Config} {s : Service} {a : Assembly} {records : List Dns.Record}

theorem services_isName : IsName services_name := by decide

theorem none_isName : ∀ text ∈ (none : Option (List UInt8)), IsName text := fun text member =>
  absurd member (Option.not_mem_none text)

theorem Config.host_isName (c : Config) : IsName c.host := c.hostname_isName

theorem Service.some_isName (s : Service) : ∀ text ∈ some s.service, IsName text := fun text member => by
  obtain rfl := Option.some.inj member
  exact s.service_isName

theorem Assembled.answerService (here : Assembled a records) :
    Assembled (answerService s a) (records ++ [⟨labels services_name, Dns.PTR⟩]) := by
  have short := length_appendLabel s.service_isName.isText
  have limit := s.service_isName.2
  have written := here.record services_isName none_isName 1 Dns.PTR_lt
    (appendLabel (some s.service)) (by omega) fun m stop there _ _ => by
      rw [Dns.DataAt, if_pos rfl]
      rw [appendLabel_eq s.service_isName.isText] at there ⊢
      exact ⟨_, .terminated s.service_isName.1 there⟩
  rwa [names_none] at written

theorem Assembled.answerName (here : Assembled a records) (near : a.nameptr < 0x4000) :
    Assembled (answerName s a) (records ++ [⟨labels s.service, Dns.PTR⟩]) := by
  have text := appendLabel_eq s.name_isName.isText
  have short := length_encode_labels s.name
  have limit := s.name_isName.2
  have written := here.record s.service_isName none_isName 1 Dns.PTR_lt
    ((appendLabel (some s.name)).dropLast ++ Dns.word (0xC000 ||| a.nameptr))
    (by rw [text, List.dropLast_concat, List.length_append, Dns.length_word]; omega)
    fun m stop there name before => by
      rw [Dns.DataAt, if_pos rfl]
      rw [text, List.dropLast_concat, or_pointer near] at there ⊢
      obtain ⟨first, last⟩ := Dns.bytesAt_append.mp there
      rw [List.length_append, ← Nat.add_assoc]
      exact ⟨_, .labels s.name_isName.1 first (.pointer (by omega) near last name)⟩
  rwa [names_none] at written

theorem Assembled.answerSrv (here : Assembled a records) :
    Assembled (answerSrv c s a) (records ++ [⟨names s.name (some s.service), Dns.SRV⟩]) := by
  have text := appendLabel_eq c.host_isName.isText
  have short := length_appendLabel c.host_isName.isText
  have limit := c.host_isName.2
  have written := here.record s.name_isName s.some_isName 0x8001 Dns.SRV_lt
    (Dns.word 0 ++ Dns.word 0 ++ Dns.word s.port ++ appendLabel (some c.host))
    (by simp only [List.length_append, Dns.length_word]; omega)
    fun m stop there _ _ => by
      rw [Dns.DataAt, if_neg (by decide), if_pos rfl]
      obtain ⟨-, last⟩ := Dns.bytesAt_append.mp there
      rw [List.length_append, ← Nat.add_assoc]
      rw [text] at last ⊢
      exact ⟨_, .terminated c.host_isName.1 last⟩
  exact ⟨written.reads, written.counted⟩

theorem Assembled.answerText (here : Assembled a records) (fits : (answerText s a).nameptr < 65536) :
    Assembled (answerText s a) (records ++ [⟨names s.name (some s.service), Dns.TXT⟩]) := by
  rw [Mdns.answerText, nameptr_record] at fits
  refine here.record s.name_isName s.some_isName 0x8001 Dns.TXT_lt (appendLabel s.text) (by omega)
    fun m stop there _ _ => ?_
  rw [Dns.DataAt, if_neg (by decide), if_neg (by decide), if_pos rfl]
  have isText := s.text_isText
  cases given : s.text with
  | none =>
      rw [given] at there
      exact ⟨Nat.lt_succ_self _, .empty there⟩
  | some text =>
      have isText := isText text given
      rw [given, appendLabel_eq isText] at there
      rw [appendLabel_eq isText, List.length_append, ← Nat.add_assoc]
      obtain ⟨first, last⟩ := Dns.bytesAt_append.mp there
      exact ⟨by rw [List.length_singleton]; omega,
        .encode isText first (.empty last)⟩

/-- The record with the address of the host has a second text in its name if the loop has stopped. -/
theorem Assembled.answerHost (here : Assembled a records) (stopped : Option Service) :
    Assembled (answerHost c stopped a) (records ++
      [⟨names c.host (stopped.map Service.service), if c.IPV6_SUPPORT then Dns.AAAA else Dns.A⟩]) := by
  have length := c.hostaddr_length
  refine here.record c.host_isName (fun text member => ?_) 0x8001 (by split <;> decide)
    c.uip_hostaddr (by split at length <;> omega) fun m stop _ _ _ => ?_
  · obtain ⟨s, -, rfl⟩ := Option.map_eq_some_iff.mp member
    exact s.service_isName
  · rw [Dns.DataAt, length]
    cases c.IPV6_SUPPORT <;> rfl

end Service

/-! ## Services -/

section Table

variable (c : Config)

/-- A service is asked for a kind of record. -/
abbrev Service.Wants (s : Service) (kind : UInt8) : Prop := s.state &&& kind ≠ 0

/-- The records of a service. -/
def records (s : Service) : List Dns.Record :=
  (if s.Wants MDNS_STATE_SERVICE then [⟨labels services_name, Dns.PTR⟩] else []) ++
  (if s.Wants MDNS_STATE_NAME then [⟨labels s.service, Dns.PTR⟩] else []) ++
  (if s.Wants MDNS_STATE_SRV then [⟨names s.name (some s.service), Dns.SRV⟩] else []) ++
  (if s.Wants MDNS_STATE_TEXT then [⟨names s.name (some s.service), Dns.TXT⟩] else [])

/-- The bytes these records take. -/
def size (s : Service) : Nat :=
  (if s.Wants MDNS_STATE_SERVICE then services_name.length + s.service.length + 14 else 0) +
  (if s.Wants MDNS_STATE_NAME then s.service.length + s.name.length + 15 else 0) +
  (if s.Wants MDNS_STATE_SRV then s.name.length + s.service.length + c.host.length + 21 else 0) +
  (if s.Wants MDNS_STATE_TEXT then
    s.name.length + s.service.length + s.text.elim 1 (fun text => text.length + 2) + 13 else 0)

/-- The bytes the address of the host takes under its own name. -/
def hostSize : Nat := c.host.length + 12 + c.uip_hostaddr.length

/-- The services whose records get into the message: those up to the first one with which it is
longer than 512 bytes. -/
def reached : (used : Nat) → List Service → List Service
  | _, [] => []
  | used, s :: rest => s :: if used + size c s > 512 then [] else reached (used + size c s) rest

/-- The length of the message with these records. -/
def total (services : List Service) : Nat := 12 + ((reached c 12 services).map (size c)).sum

/-- The records asked for have the address of the host behind them. -/
def NeedsHost (services : List Service) : Prop := ∃ s ∈ reached c 12 services, s.Wants MDNS_STATE_SRV

instance (services : List Service) : Decidable (NeedsHost c services) :=
  inferInstanceAs (Decidable (∃ s ∈ reached c 12 services, s.Wants MDNS_STATE_SRV))

variable {c} {s : Service} {a : Assembly}

theorem nameptr_answerService (s : Service) (a : Assembly) :
    (answerService s a).nameptr = a.nameptr + (services_name.length + s.service.length + 14) := by
  rw [answerService, nameptr_record, length_appendAnswerHeader services_isName none_isName,
    length_appendLabel s.service_isName.isText, Option.elim_none]
  omega

theorem nameptr_answerName (s : Service) (a : Assembly) :
    (answerName s a).nameptr = a.nameptr + (s.service.length + s.name.length + 15) := by
  rw [answerName, nameptr_record, length_appendAnswerHeader s.service_isName none_isName,
    appendLabel_eq s.name_isName.isText, List.dropLast_concat, List.length_append, length_encode_labels,
    Dns.length_word, Option.elim_none]
  omega

theorem nameptr_answerSrv (c : Config) (s : Service) (a : Assembly) :
    (answerSrv c s a).nameptr = a.nameptr + (s.name.length + s.service.length + c.host.length + 21) := by
  change (a.record (appendAnswerHeader s.name (some s.service) 0x8001 0x21 600)
    (Dns.word 0 ++ Dns.word 0 ++ Dns.word s.port ++ appendLabel (some c.host))).nameptr = _
  rw [nameptr_record, length_appendAnswerHeader s.name_isName s.some_isName, List.length_append,
    length_appendLabel c.host_isName.isText, Option.elim_some]
  simp only [List.length_append, Dns.length_word]
  omega

theorem nameptr_answerText (s : Service) (a : Assembly) :
    (answerText s a).nameptr = a.nameptr +
      (s.name.length + s.service.length + s.text.elim 1 (fun text => text.length + 2) + 13) := by
  have written : (appendLabel s.text).length = s.text.elim 1 fun text => text.length + 2 := by
    have isText := s.text_isText
    cases given : s.text with
    | none => rfl
    | some text => exact length_appendLabel (isText text given)
  rw [answerText, nameptr_record, length_appendAnswerHeader s.name_isName s.some_isName, written,
    Option.elim_some]
  omega

theorem nameptr_answerHost (c : Config) (a : Assembly) :
    (answerHost c none a).nameptr = a.nameptr + hostSize c := by
  rw [answerHost, Option.map_none, nameptr_record, length_appendAnswerHeader c.host_isName none_isName,
    Option.elim_none, hostSize]

/-- A record that is only written under a condition. -/
theorem Assembled.optional {p : Prop} [Decidable p] {before : List Dns.Record} {record : Dns.Record}
    {answer : Assembly → Assembly} (here : Assembled a before)
    (step : p → Assembled (answer a) (before ++ [record])) :
    Assembled (if p then answer a else a) (before ++ if p then [record] else []) := by
  split
  · exact step ‹_›
  · rwa [List.append_nil]

theorem nameptr_optional {p : Prop} [Decidable p] {answer : Assembly → Assembly} {bytes : Nat}
    (step : (answer a).nameptr = a.nameptr + bytes) :
    (if p then answer a else a).nameptr = a.nameptr + if p then bytes else 0 := by
  split
  · exact step
  · rfl

theorem nameptr_answerAll (c : Config) (s : Service) (a : Assembly) :
    (answerAll c s a).nameptr = a.nameptr + size c s := by
  change (if s.Wants MDNS_STATE_TEXT then answerText s _ else _).nameptr = _
  rw [nameptr_optional (nameptr_answerText s _), nameptr_optional (nameptr_answerSrv c s _),
    nameptr_optional (nameptr_answerName s _), nameptr_optional (nameptr_answerService s a), size,
    ← Nat.add_assoc, ← Nat.add_assoc, ← Nat.add_assoc]

theorem need_ip_answerAll (c : Config) (s : Service) (a : Assembly) :
    (answerAll c s a).need_ip = true ↔ a.need_ip = true ∨ s.Wants MDNS_STATE_SRV := by
  simp only [answerAll, answerService, answerName, answerSrv, answerText, Assembly.record, Service.Wants]
  split_ifs <;> simp [*]

/-- What a service adds to the message can be read. -/
theorem Assembled.answerAll {before : List Dns.Record} (here : Assembled a before) (near : a.nameptr ≤ 512)
    (fits : (answerAll c s a).nameptr < 65536) :
    Assembled (answerAll c s a) (before ++ records s) := by
  have first := here.optional fun _ : s.Wants MDNS_STATE_SERVICE => here.answerService (s := s)
  have pointer : (if s.Wants MDNS_STATE_SERVICE then Mdns.answerService s a else a).nameptr < 0x4000 := by
    have limit := s.service_isName.2
    have length : services_name.length = 28 := by decide
    rw [nameptr_optional (nameptr_answerService s a)]
    split <;> omega
  have second := first.optional fun _ : s.Wants MDNS_STATE_NAME => first.answerName (s := s) pointer
  have third := second.optional fun _ : s.Wants MDNS_STATE_SRV => second.answerSrv (c := c) (s := s)
  have fourth := third.optional fun wanted : s.Wants MDNS_STATE_TEXT =>
    third.answerText (s := s) (by rwa [Mdns.answerAll, if_pos wanted] at fits)
  rw [records, ← List.append_assoc, ← List.append_assoc, ← List.append_assoc]
  exact fourth

theorem length_records_le (s : Service) : (records s).length ≤ 4 := by
  have one (p : Prop) [Decidable p] (record : Dns.Record) : (if p then [record] else []).length ≤ 1 := by
    split
    · exact le_rfl
    · exact Nat.zero_le 1
  rw [records, List.length_append, List.length_append, List.length_append]
  have first := one (s.Wants MDNS_STATE_SERVICE) ⟨labels services_name, Dns.PTR⟩
  have second := one (s.Wants MDNS_STATE_NAME) ⟨labels s.service, Dns.PTR⟩
  have third := one (s.Wants MDNS_STATE_SRV) ⟨names s.name (some s.service), Dns.SRV⟩
  have fourth := one (s.Wants MDNS_STATE_TEXT) ⟨names s.name (some s.service), Dns.TXT⟩
  omega

theorem not_address_of_mem_records {record : Dns.Record} (member : record ∈ records s) :
    record.type ≠ Dns.A ∧ record.type ≠ Dns.AAAA := by
  have one {p : Prop} [Decidable p] {name : List Dns.Label} {type : Nat}
      (types : type ≠ Dns.A ∧ type ≠ Dns.AAAA) (member : record ∈ if p then [⟨name, type⟩] else []) :
      record.type ≠ Dns.A ∧ record.type ≠ Dns.AAAA := by
    split at member
    · rwa [List.mem_singleton.mp member]
    · exact absurd member List.not_mem_nil
  have ptr : Dns.PTR ≠ Dns.A ∧ Dns.PTR ≠ Dns.AAAA := by decide
  have srv : Dns.SRV ≠ Dns.A ∧ Dns.SRV ≠ Dns.AAAA := by decide
  have txt : Dns.TXT ≠ Dns.A ∧ Dns.TXT ≠ Dns.AAAA := by decide
  rw [records, List.mem_append, List.mem_append, List.mem_append] at member
  obtain ((member | member) | member) | member := member
  · exact one ptr member
  · exact one ptr member
  · exact one srv member
  · exact one txt member

/-! ## The table -/

theorem Assembled.length_le {before : List Dns.Record} (here : Assembled a before) :
    12 + 11 * before.length ≤ a.nameptr :=
  (here.reads (List.replicate 12 0) [] rfl).length_le

/-- What the loop over the table leaves. -/
theorem assemble_spec (c : Config) (services : List Service) (a : Assembly) (near : a.nameptr ≤ 512) :
    (assemble c services a).1.nameptr =
      a.nameptr + ((reached c a.nameptr services).map (size c)).sum ∧
    ((assemble c services a).1.need_ip = true ↔
      a.need_ip = true ∨ ∃ s ∈ reached c a.nameptr services, s.Wants MDNS_STATE_SRV) ∧
    ((assemble c services a).2.2 = none ↔ (assemble c services a).1.nameptr ≤ 512) := by
  induction services generalizing a with
  | nil =>
      refine ⟨rfl, ?_, iff_of_true rfl near⟩
      exact ⟨Or.inl, fun either => either.elim id fun ⟨_, member, _⟩ => absurd member List.not_mem_nil⟩
  | cons s rest ih =>
      have next := nameptr_answerAll c s a
      have needs := need_ip_answerAll c s a
      rw [assemble, reached, ← next]
      by_cases full : (answerAll c s a).nameptr > 512
      · rw [if_pos full, if_pos full]
        refine ⟨by simpa using next, ?_, iff_of_false (Option.some_ne_none _) full.not_ge⟩
        simpa using needs
      · obtain ⟨length, need, stops⟩ := ih (answerAll c s a) (not_lt.mp full)
        rw [if_neg full, if_neg full]
        refine ⟨?_, ?_, stops⟩
        · rw [List.map_cons, List.sum_cons]
          change (assemble c rest (answerAll c s a)).1.nameptr = _
          rw [length, next, Nat.add_assoc]
        · change (assemble c rest (answerAll c s a)).1.need_ip = true ↔ _
          rw [need, needs, List.exists_mem_cons_iff, or_assoc]

/-- All of it can be read, and there are few records. -/
theorem Assembled.assemble {before : List Dns.Record} (services : List Service) (here : Assembled a before)
    (near : a.nameptr ≤ 512) (fits : (assemble c services a).1.nameptr < 65536) :
    Assembled (assemble c services a).1
      (before ++ (reached c a.nameptr services).flatMap records) ∧
    (before ++ (reached c a.nameptr services).flatMap records).length < 255 := by
  induction services generalizing a before with
  | nil =>
      have few := here.length_le
      rw [reached, List.flatMap_nil, List.append_nil]
      exact ⟨here, by omega⟩
  | cons s rest ih =>
      have next := nameptr_answerAll c s a
      rw [Mdns.assemble] at fits ⊢
      rw [reached, ← next, List.flatMap_cons, ← List.append_assoc]
      by_cases full : (Mdns.answerAll c s a).nameptr > 512
      · rw [if_pos full] at fits ⊢
        rw [if_pos full]
        have few := here.length_le
        have more := length_records_le s
        have all := here.answerAll near fits
        rw [List.flatMap_nil, List.append_nil]
        exact ⟨all, by rw [List.length_append]; omega⟩
      · rw [if_neg full] at fits ⊢
        rw [if_neg full]
        exact ih (here.answerAll near (by omega)) (not_lt.mp full) fits

/-! ## Messages -/

variable (c) in
/-- A message is read as one with as many records as it announces, the address in it belongs to the
own name of the host, and it fits in the packet buffer. -/
structure WellFormed (m : List UInt8) : Prop where
  reads : ∃ records, Dns.Message m records ∧
    ∀ record ∈ records, record.type = Dns.A ∨ record.type = Dns.AAAA → record.name = labels c.host
  fits : m.length ≤ c.room

variable (c) in
/-- The records asked for fit in the packet buffer together with the address of the host.  With an
address behind them they do not reach beyond the place where the loop over the table stops. -/
def Roomy (services : List Service) : Prop :=
  (total c services + if NeedsHost c services then hostSize c else 0) ≤ c.room ∧
    (NeedsHost c services → total c services ≤ 512)

instance (services : List Service) : Decidable (Roomy c services) := inferInstanceAs (Decidable (_ ∧ _))

theorem Config.room_lt (c : Config) : c.room < 65536 := by
  have limit := c.NET_MAX_FRAME_LENGTH.toNat_lt
  rw [Config.room, Config.UIP_IPUDPH_LEN]
  split <;> omega

variable {memory : Memory} {base : UInt16}

theorem length_header (memory : Memory) (base : UInt16) (numanswers : UInt8) :
    (header memory base numanswers).length = 12 := rfl

theorem length_message (memory : Memory) (base : UInt16) (a : Assembly) :
    (header memory base a.answers ++ a.body).length = a.nameptr := by
  rw [List.length_append, length_header, Assembly.nameptr]

theorem Assembled.message {records : List Dns.Record} (here : Assembled a records)
    (few : records.length < 256) : Dns.Message (header memory base a.answers ++ a.body) records := by
  have number : a.answers.toNat = records.length := by rw [here.counted, toNat_length few]
  have reads := here.reads (header memory base a.answers) [] (length_header ..)
  rw [List.append_nil, ← length_message memory base] at reads
  have counts := Dns.BytesAt.middle
    [memory base, memory (base + 1),
      memory (base + 2) ||| DNS_FLAG1_RESPONSE ||| DNS_FLAG1_AUTHORATIVE, memory (base + 3)]
    (Dns.counts 0 a.answers.toNat 0 0) a.body
  exact .mk (by decide) (by omega) (by decide) (by decide) counts .nil rfl reads number.symm

/-- Without an address. -/
theorem wellFormed_of_services {services : List Service} (here : Assembled a (services.flatMap records))
    (few : (services.flatMap records).length < 255) (fits : a.nameptr ≤ c.room) :
    WellFormed c (header memory base a.answers ++ a.body) := by
  refine ⟨⟨_, here.message (by omega), fun record member address => ?_⟩, by rwa [length_message]⟩
  obtain ⟨s, -, member⟩ := List.mem_flatMap.mp member
  have other := not_address_of_mem_records member
  exact absurd address (not_or.mpr other)

/-- With an address behind the records of the services.  What is read as its name is unique. -/
theorem wellFormed_answerHost_iff {services : List Service} {stopped : Option Service}
    (here : a.nameptr < 65536 → Assembled a (services.flatMap records) ∧
      (services.flatMap records).length < 255) :
    WellFormed c (header memory base (answerHost c stopped a).answers ++ (answerHost c stopped a).body) ↔
      stopped = none ∧ a.nameptr + hostSize c ≤ c.room := by
  have room := c.room_lt
  constructor
  · rintro ⟨⟨found, message, own⟩, fits⟩
    rw [length_message] at fits
    have longer : a.nameptr ≤ (answerHost c stopped a).nameptr := by
      rw [answerHost, nameptr_record]
      omega
    obtain ⟨assembled, few⟩ := here (by omega)
    have written : Dns.Message
        (header memory base (answerHost c stopped a).answers ++ (answerHost c stopped a).body) _ :=
      (assembled.answerHost stopped).message (by rw [List.length_append, List.length_singleton]; omega)
    obtain rfl := message.unique written
    have name := own _ (List.mem_append_right _ (List.mem_singleton_self _))
      (by cases c.IPV6_SUPPORT; exacts [Or.inl rfl, Or.inr rfl])
    cases stopped with
    | none => exact ⟨rfl, by rwa [nameptr_answerHost] at fits⟩
    | some s => exact absurd (List.append_right_eq_self.mp name) (labels_ne_nil s.service)
  · rintro ⟨rfl, fits⟩
    obtain ⟨assembled, few⟩ := here (by omega)
    refine ⟨⟨_, (assembled.answerHost none).message (by
      rw [List.length_append, List.length_singleton]; omega), fun record member address => ?_⟩, by
      rwa [length_message, nameptr_answerHost]⟩
    obtain member | member := List.mem_append.mp member
    · obtain ⟨s, -, member⟩ := List.mem_flatMap.mp member
      exact absurd address (not_or.mpr (not_address_of_mem_records member))
    · rw [List.mem_singleton.mp member, Option.map_none, names_none]

/-- The message that is sent is well formed exactly when the records asked for leave room. -/
theorem respond_wellFormed_iff {services after : List Service} {response : List UInt8}
    (sent : respond c memory base services = (after, some response)) :
    WellFormed c response ↔ Roomy c services := by
  obtain ⟨length, need, stops⟩ := assemble_spec c services ⟨[], 0, false⟩ (by decide)
  have reads := assembled_nil.assemble (c := c) services (by decide)
  rw [respond] at sent
  rcases run : assemble c services ⟨[], 0, false⟩ with ⟨a, rest, stopped⟩
  rw [run] at length need stops reads sent
  change a.nameptr = total c services at length
  change stopped = none ↔ a.nameptr ≤ 512 at stops
  change a.need_ip = true ↔ false = true ∨ NeedsHost c services at need
  rw [List.nil_append] at reads
  change a.nameptr < 65536 → Assembled a ((reached c 12 services).flatMap records) ∧ _ at reads
  have which : a.need_ip = true ↔ NeedsHost c services := need.trans (or_iff_right Bool.false_ne_true)
  have room := c.room_lt
  change (if (if a.need_ip then answerHost c stopped a else a).answers = 0 then _ else _) = _ at sent
  by_cases nothing : (if a.need_ip then answerHost c stopped a else a).answers = 0
  · rw [if_pos nothing] at sent
    exact absurd (Prod.mk.inj sent).2.symm (Option.some_ne_none response)
  rw [if_neg nothing] at sent
  obtain rfl := Option.some.inj (Prod.mk.inj sent).2
  rw [Roomy, ← length]
  by_cases host : NeedsHost c services
  · rw [if_pos (which.mpr host), if_pos host, wellFormed_answerHost_iff reads, stops]
    exact ⟨fun ⟨short, fits⟩ => ⟨fits, fun _ => short⟩, fun ⟨fits, short⟩ => ⟨short host, fits⟩⟩
  · rw [if_neg fun needed => host (which.mp needed), if_neg host, Nat.add_zero]
    refine ⟨fun formed => ⟨?_, fun needed => absurd needed host⟩, fun ⟨fits, _⟩ => ?_⟩
    · rw [← length_message memory base]
      exact formed.fits
    · obtain ⟨assembled, few⟩ := reads (by omega)
      exact wellFormed_of_services assembled few fits

/-! ## The device -/

/-- A query that is answered is answered with a well-formed message if and only if the records that it
asks for, with those still to be sent, leave room. -/
theorem answer_wellFormed_iff {fuel : Nat} {services asked after : List Service} {response : List UInt8}
    (requested : requests fuel memory base c services = some asked)
    (sent : mdnsNewData c fuel memory base services = some (after, some response)) :
    WellFormed c response ↔ Roomy c asked := by
  rw [mdnsNewData, requested] at sent
  split at sent
  · exact absurd (Prod.mk.inj (Option.some.inj sent)).2.symm (Option.some_ne_none response)
  · exact respond_wellFormed_iff (Option.some.inj sent)

/-! ## A host with all services -/

/-- A host of the usual name in a network with large frames. -/
def ethersex : Config where
  CONF_HOSTNAME := PSTR "ethersex"
  NET_MAX_FRAME_LENGTH := 1500
  UIP_LLH_LEN := 14
  IPV6_SUPPORT := false
  uip_hostaddr := [192, 168, 0, 90]
  flash0 := []
  hostname_isName := by decide
  hostaddr_length := rfl

/-- A service of the table without a text. -/
def feature (service name : String) (port : Nat) (service_isName : IsName (PSTR service))
    (name_isName : IsName (PSTR name)) : Service :=
  ⟨PSTR service, PSTR name, none, port, 0, service_isName, name_isName,
    fun chars member => absurd member (Option.not_mem_none chars)⟩

def workstation : Service := feature "_workstation._tcp.local" "ethersex" 9 (by decide) (by decide)

def features : List Service :=
  [workstation,
    feature "_rfm12._bridge.local" "bridge to rfm12 network" 0 (by decide) (by decide),
    feature "_zbus._bridge.local" "bridge to zbus network" 0 (by decide) (by decide),
    feature "_i2c._bridge.local" "bridge to i2c devices" 0 (by decide) (by decide),
    feature "_ntp._udp.local" "hardware ntpd server" 123 (by decide) (by decide),
    feature "_serial._tcp.local" "serial to tcp bridge" 7970 (by decide) (by decide),
    feature "_telnet._tcp.local" "ethersex ecmd interface" 2701 (by decide) (by decide)]

/-- All services are asked for, and the port and the text of the first one. -/
def query : Memory := fun p =>
  ([0, 0, 0, 0, 0, 3, 0, 0, 0, 0, 0, 0] ++
    appendLabel (some services_name) ++ [0, 0x0C, 0, 1] ++
    appendLabel (some (PSTR "ethersex._workstation._tcp.local")) ++ [0, 0x21, 0, 1] ++
    appendLabel (some (PSTR "ethersex._workstation._tcp.local")) ++ [0, 0x10, 0, 1]).getD p.toNat 0

theorem answer_wellFormed_iff_workstation :
    ∃ asked after response, requests 64 query 0 ethersex [workstation] = some asked ∧
      mdnsNewData ethersex 64 query 0 [workstation] = some (after, some response) ∧
      (WellFormed ethersex response ↔ Roomy ethersex asked) := by
  have some_asked : (requests 64 query 0 ethersex [workstation]).isSome := by decide +kernel
  have some_sent : ((mdnsNewData ethersex 64 query 0 [workstation]).bind Prod.snd).isSome := by
    decide +kernel
  obtain ⟨asked, requested⟩ := Option.isSome_iff_exists.mp some_asked
  obtain ⟨response, sent⟩ := Option.isSome_iff_exists.mp some_sent
  obtain ⟨⟨after, answer⟩, ran, rfl⟩ := Option.bind_eq_some_iff.mp sent
  exact ⟨asked, after, response, requested, ran, answer_wellFormed_iff requested ran⟩

/-- With all services in the table the loop stops at the last one, and the address gets its name. -/
theorem not_wellFormed :
    ¬∀ (c : Config) (fuel : Nat) (memory : Memory) (base : UInt16) (services after : List Service)
      (response : List UInt8), mdnsNewData c fuel memory base services = some (after, some response) →
        WellFormed c response := by
  intro holds
  have some_sent : ((mdnsNewData ethersex 64 query 0 features).bind Prod.snd).isSome := by decide +kernel
  have narrow : (requests 64 query 0 ethersex features).map (fun asked => decide (Roomy ethersex asked)) =
      some false := by decide +kernel
  obtain ⟨response, sent⟩ := Option.isSome_iff_exists.mp some_sent
  obtain ⟨⟨after, answer⟩, ran, rfl⟩ := Option.bind_eq_some_iff.mp sent
  have formed := holds _ _ _ _ _ _ _ ran
  obtain ⟨asked, requested, unfit⟩ := Option.map_eq_some_iff.mp narrow
  rw [mdnsNewData, requested, if_neg (by decide)] at ran
  exact of_decide_eq_false unfit ((respond_wellFormed_iff (Option.some.inj ran)).mp formed)

end Table

end Ethersex.Mdns
