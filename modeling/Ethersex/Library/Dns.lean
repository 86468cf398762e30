import Mathlib

/-!
# DNS messages

Names and resource records at positions of a message, as relations to what is read there and to the
position behind it.  What stands at a position is unique.
-/

namespace Ethersex.Library.Dns

/-- A part of a name. -/
abbrev Label := List UInt8

/-- A number in two bytes, the high one first. -/
def word (n : Nat) : List UInt8 := [UInt8.ofNat (n / 256), UInt8.ofNat n]

@[simp] theorem length_word (n : Nat) : (word n).length = 2 := rfl

theorem word_inj {first second : Nat} (small : first < 65536) (small' : second < 65536) :
    word first = word second ↔ first = second := by
  refine ⟨fun same => ?_, fun same => by rw [same]⟩
  obtain ⟨high, rest⟩ := List.cons_eq_cons.mp same
  have low := (List.cons_eq_cons.mp rest).1
  have high := congrArg UInt8.toNat high
  have low := congrArg UInt8.toNat low
  rw [UInt8.toNat_ofNat', UInt8.toNat_ofNat'] at high low
  omega

/-! ## Bytes of a message -/

variable {m : List UInt8}

/-- Some bytes stand at a position. -/
def BytesAt (m : List UInt8) (pos : Nat) (bytes : List UInt8) : Prop := bytes <+: m.drop pos

theorem bytesAt_append {pos : Nat} {first second : List UInt8} :
    BytesAt m pos (first ++ second) ↔ BytesAt m pos first ∧ BytesAt m (pos + first.length) second := by
  constructor
  · rintro ⟨rest, same⟩
    refine ⟨⟨second ++ rest, by rw [← same, List.append_assoc]⟩, rest, ?_⟩
    rw [← List.drop_drop, ← same, List.append_assoc, List.drop_left]
  · rintro ⟨⟨more, same⟩, rest, same'⟩
    rw [← List.drop_drop, ← same, List.drop_left] at same'
    exact ⟨rest, by rw [← same, ← same', List.append_assoc]⟩

theorem BytesAt.middle (before bytes behind : List UInt8) :
    BytesAt (before ++ (bytes ++ behind)) before.length bytes := by
  rw [BytesAt, List.drop_left]
  exact List.prefix_append ..

/-- Bytes of one length at one position are the same. -/
theorem BytesAt.unique {pos : Nat} {first second : List UInt8} (one : BytesAt m pos first)
    (two : BytesAt m pos second) (same : first.length = second.length) : first = second :=
  (List.prefix_of_prefix_length_le one two same.le).eq_of_length same

theorem BytesAt.head {pos : Nat} {b b' : UInt8} {first second : List UInt8}
    (one : BytesAt m pos (b :: first)) (two : BytesAt m pos (b' :: second)) : b = b' := by
  have apart {b : UInt8} {rest : List UInt8} :
      BytesAt m pos ([b] ++ rest) ↔ BytesAt m pos [b] ∧ BytesAt m (pos + 1) rest := bytesAt_append
  have here : BytesAt m pos [b] := (apart.mp one).1
  have here' : BytesAt m pos [b'] := (apart.mp two).1
  exact (List.cons_eq_cons.mp (here.unique here' rfl)).1

theorem bytesAt_nil (m : List UInt8) (pos : Nat) : BytesAt m pos [] := List.nil_prefix

/-- The first byte stands at the position itself. -/
theorem bytesAt_cons {pos : Nat} {byte : UInt8} {bytes : List UInt8} :
    BytesAt m pos (byte :: bytes) ↔ m[pos]? = some byte ∧ BytesAt m (pos + 1) bytes := by
  rw [← List.singleton_append, bytesAt_append, List.length_singleton]
  refine and_congr_left fun _ => ?_
  rw [BytesAt, List.singleton_prefix_iff_head?_eq_some, List.head?_drop]

/-! ## Names -/

/-- A name is read at a position: its labels, and where what follows it begins.  A pointer leads to
an earlier name. -/
inductive NameAt (m : List UInt8) : Nat → List Label → Nat → Prop
  | root {pos : Nat} : BytesAt m pos [0] → NameAt m pos [] (pos + 1)
  | label {pos stop : Nat} {label : Label} {rest : List Label} :
      0 < label.length → label.length < 64 → BytesAt m pos (UInt8.ofNat label.length :: label) →
      NameAt m (pos + (label.length + 1)) rest stop → NameAt m pos (label :: rest) stop
  | pointer {pos target stop : Nat} {labels : List Label} :
      target < pos → target < 0x4000 → BytesAt m pos (word (0xC000 + target)) →
      NameAt m target labels stop → NameAt m pos labels (pos + 2)

theorem toNat_length {n : Nat} (small : n < 64) : (UInt8.ofNat n).toNat = n := by
  rw [UInt8.toNat_ofNat', Nat.mod_eq_of_lt (by omega)]

theorem toNat_pointer {n : Nat} (small : n < 0x4000) : 192 ≤ (UInt8.ofNat ((0xC000 + n) / 256)).toNat := by
  rw [UInt8.toNat_ofNat']
  omega

/-- What is read at a position as a name is unique: the first byte tells which kind it is. -/
theorem NameAt.unique {pos stop stop' : Nat} {labels labels' : List Label} (one : NameAt m pos labels stop)
    (two : NameAt m pos labels' stop') : labels = labels' ∧ stop = stop' := by
  induction one generalizing labels' stop' with
  | root here =>
      cases two with
      | root => exact ⟨rfl, rfl⟩
      | label positive small here' =>
          have same := congrArg UInt8.toNat (here.head here')
          rw [toNat_length small] at same
          exact absurd same positive.ne
      | pointer _ small here' =>
          have same := congrArg UInt8.toNat (here.head here')
          exact absurd (toNat_pointer small) (by rw [← same]; decide)
  | label positive small here _ ih =>
      cases two with
      | root here' =>
          have same := congrArg UInt8.toNat (here.head here')
          rw [toNat_length small] at same
          exact absurd same positive.ne'
      | label positive' small' here' behind =>
          have same := congrArg UInt8.toNat (here.head here')
          rw [toNat_length small, toNat_length small'] at same
          have same' := here.unique here' (by rw [List.length_cons, List.length_cons, same])
          obtain rfl := (List.cons_eq_cons.mp same').2
          obtain ⟨rfl, rfl⟩ := ih behind
          exact ⟨rfl, rfl⟩
      | pointer _ small' here' =>
          have same := congrArg UInt8.toNat (here.head here')
          rw [toNat_length small] at same
          exact absurd (toNat_pointer small') (by rw [← same]; omega)
  | pointer before small here _ ih =>
      cases two with
      | root here' =>
          have same := congrArg UInt8.toNat (here.head here')
          exact absurd (toNat_pointer small) (by rw [same]; decide)
      | label _ small' here' =>
          have same := congrArg UInt8.toNat (here.head here')
          rw [toNat_length small'] at same
          exact absurd (toNat_pointer small) (by rw [same]; omega)
      | pointer before' small' here' there =>
          have same := here.unique here' rfl
          rw [word_inj (by omega) (by omega)] at same
          obtain rfl : _ = _ := Nat.add_left_cancel same
          exact ⟨(ih there).1, rfl⟩

theorem NameAt.lt {pos stop : Nat} {labels : List Label} (name : NameAt m pos labels stop) : pos < stop := by
  induction name with
  | root => exact Nat.lt_succ_self _
  | label _ _ _ _ ih => omega
  | pointer => omega

/-- A name begins inside the message. -/
theorem NameAt.inside {pos stop : Nat} {labels : List Label} (name : NameAt m pos labels stop) :
    ∃ byte, m[pos]? = some byte := by
  cases name with
  | root here => exact ⟨_, (bytesAt_cons.mp here).1⟩
  | label _ _ here _ => exact ⟨_, (bytesAt_cons.mp here).1⟩
  | pointer _ _ here _ => exact ⟨_, (bytesAt_cons.mp here).1⟩

/-- Only the root begins with a zero. -/
theorem NameAt.of_zero {pos stop : Nat} {labels : List Label} (name : NameAt m pos labels stop)
    (zero : m[pos]? = some 0) : labels = [] ∧ stop = pos + 1 :=
  name.unique (.root (bytesAt_cons.mpr ⟨zero, bytesAt_nil m _⟩))

/-- The bytes of labels. -/
def encode (labels : List Label) : List UInt8 :=
  labels.flatMap fun label => UInt8.ofNat label.length :: label

/-- Labels of a name have between 1 and 63 bytes. -/
def Legal (labels : List Label) : Prop := ∀ label ∈ labels, 0 < label.length ∧ label.length < 64

instance (labels : List Label) : Decidable (Legal labels) :=
  inferInstanceAs (Decidable (∀ label ∈ labels, 0 < label.length ∧ label.length < 64))

theorem Legal.append {first second : List Label} (legal : Legal first) (legal' : Legal second) :
    Legal (first ++ second) := fun label member =>
  (List.mem_append.mp member).elim (legal label) (legal' label)

/-- Labels in front of a name make it longer. -/
theorem NameAt.labels {pos stop : Nat} {labels rest : List Label} (legal : Legal labels)
    (here : BytesAt m pos (encode labels)) (behind : NameAt m (pos + (encode labels).length) rest stop) :
    NameAt m pos (labels ++ rest) stop := by
  induction labels generalizing pos with
  | nil => exact behind
  | cons label labels ih =>
      obtain ⟨positive, small⟩ := legal label List.mem_cons_self
      rw [encode, List.flatMap_cons, ← encode] at here behind
      rw [List.length_append, List.length_cons, ← Nat.add_assoc] at behind
      obtain ⟨first, rest⟩ := bytesAt_append.mp here
      exact .label positive small first
        (ih (fun other member => legal other (List.mem_cons_of_mem label member)) rest behind)

/-- A name that ends with a zero. -/
theorem NameAt.terminated {pos : Nat} {labels : List Label} (legal : Legal labels)
    (here : BytesAt m pos (encode labels ++ [0])) :
    NameAt m pos labels (pos + (encode labels ++ [0]).length) := by
  obtain ⟨first, last⟩ := bytesAt_append.mp here
  rw [List.length_append]
  have name := NameAt.labels legal first (.root last)
  rwa [List.append_nil] at name

/-! ## Records -/

/-- A resource record, without its data. -/
structure Record where
  name : List Label
  type : Nat

/-- Character strings one behind the other. -/
inductive StringsAt (m : List UInt8) : Nat → Nat → Prop
  | nil {pos : Nat} : StringsAt m pos pos
  | cons {pos stop : Nat} {text : List UInt8} : text.length < 256 →
      BytesAt m pos (UInt8.ofNat text.length :: text) → StringsAt m (pos + (text.length + 1)) stop →
      StringsAt m pos stop

theorem StringsAt.empty {pos : Nat} (here : BytesAt m pos [0]) : StringsAt m pos (pos + 1) :=
  @StringsAt.cons m pos (pos + 1) [] (by decide) here .nil

theorem StringsAt.encode {pos stop : Nat} {texts : List Label} (small : ∀ text ∈ texts, text.length < 256)
    (here : BytesAt m pos (encode texts)) (behind : StringsAt m (pos + (Dns.encode texts).length) stop) :
    StringsAt m pos stop := by
  induction texts generalizing pos with
  | nil => exact behind
  | cons text texts ih =>
      rw [Dns.encode, List.flatMap_cons, ← Dns.encode] at here behind
      rw [List.length_append, List.length_cons, ← Nat.add_assoc] at behind
      obtain ⟨first, rest⟩ := bytesAt_append.mp here
      exact .cons (small text List.mem_cons_self) first
        (ih (fun other member => small other (List.mem_cons_of_mem text member)) rest behind)

def A : Nat := 1
def PTR : Nat := 12
def TXT : Nat := 16
def AAAA : Nat := 28
def SRV : Nat := 33

theorem PTR_lt : PTR < 65536 := by decide
theorem TXT_lt : TXT < 65536 := by decide
theorem SRV_lt : SRV < 65536 := by decide

/-- The data of a record of some type reaches from one position to another. -/
def DataAt (m : List UInt8) (type pos stop : Nat) : Prop :=
  if type = PTR then ∃ labels, NameAt m pos labels stop
  else if type = SRV then ∃ labels, NameAt m (pos + 6) labels stop
  else if type = TXT then pos < stop ∧ StringsAt m pos stop
  else if type = A then stop = pos + 4
  else if type = AAAA then stop = pos + 16
  else True

/-- What stands behind the name of a record: type, class, time to live and the length of the data. -/
def fields (type cls ttl length : Nat) : List UInt8 :=
  word type ++ word cls ++ word (ttl / 65536) ++ word ttl ++ word length

@[simp] theorem length_fields (type cls ttl length : Nat) : (fields type cls ttl length).length = 10 := rfl

/-- A record is read at a position. -/
inductive RecordAt (m : List UInt8) (pos : Nat) (record : Record) : Nat → Prop
  | mk {middle cls ttl length : Nat} : NameAt m pos record.name middle →
      record.type < 65536 → length < 65536 →
      BytesAt m middle (fields record.type cls ttl length) → middle + 10 + length ≤ m.length →
      DataAt m record.type (middle + 10) (middle + 10 + length) →
      RecordAt m pos record (middle + 10 + length)

theorem RecordAt.unique {pos stop stop' : Nat} {record record' : Record} (one : RecordAt m pos record stop)
    (two : RecordAt m pos record' stop') : record = record' ∧ stop = stop' := by
  obtain ⟨name, small, short, here, -, -⟩ := one
  obtain ⟨name', small', short', here', -, -⟩ := two
  obtain ⟨same, rfl⟩ := name.unique name'
  have same' := here.unique here' rfl
  obtain ⟨init, last⟩ := List.append_inj same' rfl
  obtain ⟨init, -⟩ := List.append_inj init rfl
  obtain ⟨init, -⟩ := List.append_inj init rfl
  obtain ⟨first, -⟩ := List.append_inj init rfl
  rw [word_inj small small'] at first
  rw [word_inj short short'] at last
  obtain ⟨labels, type⟩ := record
  obtain ⟨labels', type'⟩ := record'
  obtain rfl : labels = labels' := same
  obtain rfl : type = type' := first
  exact ⟨rfl, by rw [last]⟩

theorem RecordAt.lt {pos stop : Nat} {record : Record} (here : RecordAt m pos record stop) :
    pos + 11 ≤ stop := by
  obtain ⟨name, -, -, -, -, -⟩ := here
  have := name.lt
  omega

/-- Records one behind the other. -/
inductive RecordsAt (m : List UInt8) : Nat → List Record → Nat → Prop
  | nil {pos : Nat} : RecordsAt m pos [] pos
  | cons {pos next stop : Nat} {record : Record} {rest : List Record} :
      RecordAt m pos record next → RecordsAt m next rest stop → RecordsAt m pos (record :: rest) stop

theorem RecordsAt.concat {pos stop next : Nat} {records : List Record} {record : Record}
    (before : RecordsAt m pos records stop) (here : RecordAt m stop record next) :
    RecordsAt m pos (records ++ [record]) next := by
  induction before with
  | nil => exact .cons here .nil
  | cons first _ ih => exact .cons first (ih here)

theorem RecordsAt.unique {pos stop stop' : Nat} {records records' : List Record}
    (one : RecordsAt m pos records stop) (two : RecordsAt m pos records' stop')
    (same : records.length = records'.length) : records = records' := by
  induction one generalizing records' stop' with
  | nil => exact (List.eq_nil_of_length_eq_zero same.symm).symm
  | cons first _ ih =>
      cases two with
      | nil => exact absurd same (Nat.succ_ne_zero _)
      | cons first' behind =>
          obtain ⟨rfl, rfl⟩ := first.unique first'
          rw [ih behind (Nat.succ.inj same)]

theorem RecordsAt.length_le {pos stop : Nat} {records : List Record} (here : RecordsAt m pos records stop) :
    pos + 11 * records.length ≤ stop := by
  induction here with
  | nil => exact le_rfl
  | cons first _ ih =>
      have := first.lt
      rw [List.length_cons]
      omega

/-! ## Messages -/

/-- Questions one behind the other: names, and four bytes behind each. -/
inductive QuestionsAt (m : List UInt8) : Nat → List (List Label) → Nat → Prop
  | nil {pos : Nat} : QuestionsAt m pos [] pos
  | cons {pos middle stop : Nat} {labels : List Label} {rest : List (List Label)} :
      NameAt m pos labels middle → QuestionsAt m (middle + 4) rest stop →
      QuestionsAt m pos (labels :: rest) stop

theorem QuestionsAt.unique {pos stop stop' : Nat} {names names' : List (List Label)}
    (one : QuestionsAt m pos names stop) (two : QuestionsAt m pos names' stop')
    (same : names.length = names'.length) : stop = stop' := by
  induction one generalizing names' stop' with
  | nil =>
      cases two with
      | nil => rfl
      | cons => exact absurd same.symm (Nat.succ_ne_zero _)
  | cons first _ ih =>
      cases two with
      | nil => exact absurd same (Nat.succ_ne_zero _)
      | cons first' behind =>
          obtain ⟨-, rfl⟩ := first.unique first'
          exact ih behind (Nat.succ.inj same)

/-- The numbers of questions and of records in the header. -/
def counts (questions answers authorities extras : Nat) : List UInt8 :=
  word questions ++ word answers ++ word authorities ++ word extras

/-- A message with its questions and its records, as many of them as the header announces. -/
inductive Message (m : List UInt8) (records : List Record) : Prop
  | mk {questions answers authorities extras stop : Nat} {names : List (List Label)} :
      questions < 65536 → answers < 65536 → authorities < 65536 → extras < 65536 →
      BytesAt m 4 (counts questions answers authorities extras) →
      QuestionsAt m 12 names stop → names.length = questions →
      RecordsAt m stop records m.length → records.length = answers + authorities + extras →
      Message m records

theorem counts_inj {questions answers authorities extras questions' answers' authorities' extras' : Nat}
    (small : questions < 65536 ∧ answers < 65536 ∧ authorities < 65536 ∧ extras < 65536)
    (small' : questions' < 65536 ∧ answers' < 65536 ∧ authorities' < 65536 ∧ extras' < 65536)
    (same : counts questions answers authorities extras = counts questions' answers' authorities' extras') :
    questions = questions' ∧ answers = answers' ∧ authorities = authorities' ∧ extras = extras' := by
  obtain ⟨init, last⟩ := List.append_inj same rfl
  obtain ⟨init, third⟩ := List.append_inj init rfl
  obtain ⟨first, second⟩ := List.append_inj init rfl
  exact ⟨(word_inj small.1 small'.1).mp first, (word_inj small.2.1 small'.2.1).mp second,
    (word_inj small.2.2.1 small'.2.2.1).mp third, (word_inj small.2.2.2 small'.2.2.2).mp last⟩

theorem Message.unique {records records' : List Record} (one : Message m records)
    (two : Message m records') : records = records' := by
  obtain ⟨q, a, n, e, here, names, number, here', total⟩ := one
  obtain ⟨q', a', n', e', here₂, names', number', here₂', total'⟩ := two
  obtain ⟨rfl, rfl, rfl, rfl⟩ := counts_inj ⟨q, a, n, e⟩ ⟨q', a', n', e'⟩ (here.unique here₂ rfl)
  obtain rfl := names.unique names' (by rw [number, number'])
  exact here'.unique here₂' (by rw [total, total'])

end Ethersex.Library.Dns
