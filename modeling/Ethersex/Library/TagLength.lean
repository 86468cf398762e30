import Mathlib

/-!
# Areas of options

An area holds options, each with a tag, a length in one byte and as many bytes of data, and between them bytes of
padding, up to an end tag.  It is read whether or not it is whole.
-/

namespace Ethersex.Library.TagLength

/-- An option. -/
structure Opt where
  tag : UInt8
  data : List UInt8

section Area

variable (pad stop : UInt8)

/-- The options of an area up to its end tag, and whether the end tag is there. -/
def read : List UInt8 → List Opt × Bool
  | [] => ([], false)
  | [tag] => ([], tag = stop)
  | tag :: len :: rest =>
      if tag = stop then ([], true)
      else if tag = pad then read (len :: rest)
      else if len.toNat ≤ rest.length then
        (⟨tag, rest.take len.toNat⟩ :: (read (rest.drop len.toNat)).1, (read (rest.drop len.toNat)).2)
      else ([], false)
termination_by area => area.length
decreasing_by
  all_goals simp only [List.length_drop, List.length_cons]
  all_goals omega

/-- Bytes of padding come in pairs. -/
inductive PaddedEvenly : List UInt8 → Prop where
  | nil : PaddedEvenly []
  | stop (rest : List UInt8) : PaddedEvenly (stop :: rest)
  | pads {rest : List UInt8} : PaddedEvenly rest → PaddedEvenly (pad :: pad :: rest)
  | option {tag : UInt8} {data rest : List UInt8} : tag ≠ pad → tag ≠ stop → data.length < 256 →
      PaddedEvenly rest → PaddedEvenly (tag :: UInt8.ofNat data.length :: (data ++ rest))
  | cut {tag len : UInt8} {rest : List UInt8} : tag ≠ pad → tag ≠ stop → rest.length < len.toNat →
      PaddedEvenly (tag :: len :: rest)
  | last {tag : UInt8} : tag ≠ pad → tag ≠ stop → PaddedEvenly [tag]

end Area

variable {pad stop : UInt8}

@[simp] theorem read_nil : read pad stop [] = ([], false) := by rw [read]

theorem read_stop (rest : List UInt8) : read pad stop (stop :: rest) = ([], true) := by
  cases rest with
  | nil => rw [read, decide_eq_true rfl]
  | cons len rest => rw [read, if_pos rfl]

theorem read_last {tag : UInt8} (inner : tag ≠ stop) : read pad stop [tag] = ([], false) := by
  rw [read, decide_eq_false inner]

theorem read_pad (apart : pad ≠ stop) (rest : List UInt8) : read pad stop (pad :: rest) = read pad stop rest := by
  cases rest with
  | nil => rw [read_last apart, read_nil]
  | cons len rest => rw [read, if_neg apart, if_pos rfl]

theorem read_cut {tag len : UInt8} {rest : List UInt8} (plain : tag ≠ pad) (inner : tag ≠ stop)
    (short : rest.length < len.toNat) : read pad stop (tag :: len :: rest) = ([], false) := by
  rw [read, if_neg inner, if_neg plain, if_neg short.not_ge]

theorem read_option {tag : UInt8} {data rest : List UInt8} (plain : tag ≠ pad) (inner : tag ≠ stop)
    (small : data.length < 256) :
    read pad stop (tag :: UInt8.ofNat data.length :: (data ++ rest)) =
      (⟨tag, data⟩ :: (read pad stop rest).1, (read pad stop rest).2) := by
  have value : (UInt8.ofNat data.length).toNat = data.length := by
    rw [UInt8.toNat_ofNat', Nat.mod_eq_of_lt small]
  have fits : data.length ≤ (data ++ rest).length := by
    rw [List.length_append]
    exact Nat.le_add_right ..
  rw [read, if_neg inner, if_neg plain, value, if_pos fits, List.take_left, List.drop_left]

/-- The data of the last option with one of some tags. -/
def last (wanted : UInt8 → Bool) : List Opt → Option (List UInt8)
  | [] => none
  | option :: rest => (last wanted rest).or (if wanted option.tag then some option.data else none)

theorem last_cons_of_some {wanted : UInt8 → Bool} {option : Opt} {rest : List Opt} {data : List UInt8}
    (found : last wanted rest = some data) : last wanted (option :: rest) = some data := by
  rw [last, found, Option.some_or]

theorem last_cons_of_none {wanted : UInt8 → Bool} {option : Opt} {rest : List Opt} (none : last wanted rest = none) :
    last wanted (option :: rest) = if wanted option.tag then some option.data else Option.none := by
  rw [last, none, Option.none_or]

/-- The data of an option is in the area. -/
theorem length_last_lt {wanted : UInt8 → Bool} {area data : List UInt8}
    (found : last wanted (read pad stop area).1 = some data) : data.length + 2 ≤ area.length := by
  fun_induction read pad stop area with
  | case1 => cases found
  | case2 => cases found
  | case3 => cases found
  | case4 len rest _ ih =>
      have := ih found
      rw [List.length_cons]
      omega
  | case5 tag len rest _ _ fits ih =>
      rw [List.length_cons, List.length_cons]
      cases behind : last wanted (read pad stop (rest.drop len.toNat)).1 with
      | some other =>
          rw [last_cons_of_some behind] at found
          have := ih (behind.trans found)
          rw [List.length_drop] at this
          omega
      | none =>
          rw [last_cons_of_none behind] at found
          split at found
          · cases found
            rw [List.length_take]
            omega
          · cases found
  | case6 => cases found

end Ethersex.Library.TagLength

/-!
## Basic encoding rules

Values with a tag, a length in one byte and a content.  One byte expresses lengths below 128 only.
-/

namespace Ethersex.Library.Ber

/-- A tag, the length of a content, and the content. -/
def tlv (tag : UInt8) (content : List UInt8) : List UInt8 := tag :: UInt8.ofNat content.length :: content

@[simp] theorem length_tlv (tag : UInt8) (content : List UInt8) : (tlv tag content).length = content.length + 2 := rfl

/-- The length byte of a short content. -/
theorem toNat_length {content : List UInt8} (short : content.length < 128) :
    (UInt8.ofNat content.length).toNat = content.length := by
  rw [UInt8.toNat_ofNat', Nat.mod_eq_of_lt (by omega)]

end Ethersex.Library.Ber
