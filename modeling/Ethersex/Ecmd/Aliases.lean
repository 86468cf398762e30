import Mathlib
import Ethersex.Library.CString
import Ethersex.Ecmd.Segments

/-!
# Aliases of commands

A command that starts with a dollar sign is an alias with arguments.  `aliascmd_decode` looks for the longest
name it begins with and puts the command of that alias in its place.  The places in the table are counted in
eight bits, the one that was chosen is a signed number, and the length of the buffer is not looked at.
-/

namespace Ethersex.Ecmd.Aliases

open Library

/-- An entry of `aliascmdlist`. -/
structure Alias where
  name : List UInt8
  cmd : List UInt8
  nameClean : ∀ ch ∈ name, ch ≠ 0
  cmdClean : ∀ ch ∈ cmd, ch ≠ 0

/-- `memmove`. -/
def memmove (dest src count : Nat) (memory : Bytes) : Bytes :=
  fun k => if dest ≤ k ∧ k < dest + count then memory (src + (k - dest)) else memory k

/-- `memcpy_P`, from a text in program memory. -/
def memcpy (dest : Nat) (text : List UInt8) (count : Nat) (memory : Bytes) : Bytes :=
  fun k => if dest ≤ k ∧ k < dest + count then cString text (k - dest) else memory k

/-- `strlen`, for a text in the buffer. -/
def strlen (memory : Bytes) (start : Nat) : Nat :=
  (fieldText ecmdInputbufLength fun k => memory (start + k)).length

/-- What `aliascmd_decode` does: it returns `NULL`, it reads an entry in front of the table, or it puts a command
into the buffer, written at some places. -/
inductive Decoded where
  | null
  | outside
  | expanded (cmd : Bytes) (written : List Nat)

section Code

variable (table : List Alias) (cmd : Bytes)

/-- The search for the longest name; it ends at the empty entry behind the table.  Nothing, while it has not
ended: an index of eight bits has come round after 256 entries. -/
def search : (fuel : Nat) → (i aliasCmpLen : UInt8) → (aliasCmpIdx : Int8) → Option (UInt8 × Int8)
  | 0, _, _, _ => none
  | fuel + 1, i, aliasCmpLen, aliasCmpIdx =>
      match table[i.toNat]? with
      | none => some (aliasCmpLen, aliasCmpIdx)
      | some entry =>
          if strncmp (fun k => cmd (1 + k)) (cString entry.name) entry.name.length = 0 ∧
              aliasCmpLen.toNat < entry.name.length then
            search fuel (i + 1) (UInt8.ofNat entry.name.length) i.toInt8
          else search fuel (i + 1) aliasCmpLen aliasCmpIdx

/-- The command of an alias in the place of the dollar sign and the name. -/
def expand (entry : Alias) (aliasCmpLen : UInt8) : Decoded :=
  let newlen := (UInt8.ofNat entry.cmd.length).toNat
  let count := strlen cmd (aliasCmpLen.toNat + 1) + 1
  .expanded (memcpy 0 entry.cmd newlen (memmove newlen (aliasCmpLen.toNat + 1) count cmd))
    (List.range' newlen count ++ List.range newlen)

/-- `aliascmd_decode`; nothing, if it does not return. -/
def aliascmdDecode : Option Decoded :=
  match search table cmd 256 0 0 (-1) with
  | none => none
  | some (aliasCmpLen, aliasCmpIdx) =>
      if aliasCmpIdx = -1 then some .null
      else if aliasCmpIdx.toInt < 0 then some .outside
      else
        match table[aliasCmpIdx.toInt.toNat]? with
        | none => some .outside
        | some entry => some (expand cmd entry aliasCmpLen)

end Code

/-! ## The alias that is meant -/

/-- The first of the aliases with the longest name that a text begins with. -/
structure FirstLongest (table : List Alias) (rest : List UInt8) (k : Nat) (entry : Alias) : Prop where
  present : table[k]? = some entry
  begins : entry.name <+: rest
  longest : ∀ (j : Nat) (other : Alias), table[j]? = some other → other.name <+: rest →
    other.name.length ≤ entry.name.length
  first : ∀ (j : Nat) (other : Alias), j < k → table[j]? = some other → other.name <+: rest →
    other.name.length < entry.name.length

/-- The expansion and its terminator fit into the buffer. -/
def Fits (entry : Alias) (rest : List UInt8) : Prop :=
  entry.cmd.length + (rest.length - entry.name.length) < ecmdInputbufLength

/-- What is right for a command with a dollar sign in front of `rest`. -/
inductive DecodesRightly (table : List Alias) (rest : List UInt8) : Decoded → Prop where
  | replaced {k : Nat} {entry : Alias} {cmd : Bytes} {written : List Nat}
      (chosen : FirstLongest table rest k entry) (fits : Fits entry rest)
      (text : TextAt cmd 0 (entry.cmd ++ rest.drop entry.name.length))
      (inside : ∀ place ∈ written, place < ecmdInputbufLength) :
      DecodesRightly table rest (.expanded cmd written)
  | kept (unfit : ∀ k entry, FirstLongest table rest k entry → ¬Fits entry rest) :
      DecodesRightly table rest .null

/-- The texts whose aliases can be expanded: the table has an end for an index of eight bits, and the alias that
is meant has a name, an index that is not negative in eight bits, and room. -/
structure Expandable (table : List Alias) (rest : List UInt8) : Prop where
  short : table.length ≤ 255
  chosen : ∀ k entry, FirstLongest table rest k entry →
    (entry.name = [] → ¬Fits entry rest) ∧ (entry.name ≠ [] → k ≤ 127 ∧ Fits entry rest)

/-! ## The search -/

/-- What the search has found among the first entries: the length of the longest name, and the first entry that
has it, unless it is empty. -/
structure Best (table : List Alias) (rest : List UInt8) (count len : Nat) (idx : Option Nat) : Prop where
  longest : ∀ (j : Nat) (other : Alias), j < count → table[j]? = some other → other.name <+: rest →
    other.name.length ≤ len
  nothing : idx = none → len = 0
  found : ∀ k, idx = some k → k < count ∧ 0 < len ∧ ∃ entry, table[k]? = some entry ∧ entry.name <+: rest ∧
    entry.name.length = len ∧
      ∀ (j : Nat) (other : Alias), j < k → table[j]? = some other → other.name <+: rest → other.name.length < len

section Search

variable {table : List Alias} {cmd : Bytes} {rest : List UInt8}
variable {count len : Nat} {idx : Option Nat} {entry : Alias}

theorem Best.initial : Best table rest 0 0 none where
  longest _ _ inside := absurd inside (Nat.not_lt_zero _)
  nothing _ := rfl
  found _ absurd := by cases absurd

/-- An entry that is not longer. -/
theorem Best.keep (best : Best table rest count len idx) (present : table[count]? = some entry)
    (shorter : entry.name <+: rest → entry.name.length ≤ len) : Best table rest (count + 1) len idx where
  longest j other inside otherPresent begins := by
    rcases Nat.lt_or_eq_of_le (Nat.le_of_lt_succ inside) with earlier | rfl
    · exact best.longest j other earlier otherPresent begins
    · rw [present] at otherPresent
      cases otherPresent
      exact shorter begins
  nothing := best.nothing
  found k chosen := by
    obtain ⟨inside, rest⟩ := best.found k chosen
    exact ⟨Nat.lt_succ_of_lt inside, rest⟩

/-- An entry that is longer than all before it. -/
theorem Best.take (best : Best table rest count len idx) (present : table[count]? = some entry)
    (begins : entry.name <+: rest) (longer : len < entry.name.length) :
    Best table rest (count + 1) entry.name.length (some count) where
  longest j other inside otherPresent otherBegins := by
    rcases Nat.lt_or_eq_of_le (Nat.le_of_lt_succ inside) with earlier | rfl
    · exact (best.longest j other earlier otherPresent otherBegins).trans (Nat.le_of_lt longer)
    · rw [present] at otherPresent
      cases otherPresent
      exact Nat.le_refl _
  nothing chosen := by cases chosen
  found k chosen := by
    cases chosen
    refine ⟨Nat.lt_succ_self _, by omega, entry, present, begins, rfl, ?_⟩
    intro j other earlier otherPresent otherBegins
    exact (best.longest j other earlier otherPresent otherBegins).trans_lt longer

/-- The index as the code keeps it. -/
def index : Option Nat → Int8
  | none => -1
  | some k => (UInt8.ofNat k).toInt8

/-- The search ends with the best entry of a table that has its end within reach of an index of eight bits. -/
theorem search_finds (short : table.length ≤ 255) (text : TextAt cmd 1 rest) (held : rest.length < 256)
    {fuel : Nat} {i : UInt8} {len : UInt8} (best : Best table rest i.toNat len.toNat idx)
    (inside : i.toNat ≤ table.length) (enough : table.length < fuel + i.toNat) :
    ∃ len' idx', search table cmd fuel i len (index idx) = some (len', index idx') ∧
      Best table rest table.length len'.toNat idx' := by
  induction fuel generalizing i len idx with
  | zero => omega
  | succ fuel ih =>
      rw [search]
      rcases Nat.lt_or_ge i.toNat table.length with within | outside
      · have next : (i + 1).toNat = i.toNat + 1 := by
          have one : (1 : UInt8).toNat = 1 := rfl
          rw [UInt8.toNat_add, one]
          omega
        have present := List.getElem?_eq_getElem within
        have begins := text.begins_iff table[i.toNat].nameClean
        simp only [present, begins]
        split
        · rename_i better
          have small : (UInt8.ofNat table[i.toNat].name.length).toNat = table[i.toNat].name.length := by
            have := better.1.length_le
            rw [UInt8.toNat_ofNat']
            omega
          have taken := best.take present better.1 better.2
          rw [← next, ← small] at taken
          have same : i.toInt8 = index (some i.toNat) := by rw [index, UInt8.ofNat_toNat]
          rw [same]
          exact ih taken (by omega) (by omega)
        · rename_i worse
          have kept := best.keep present fun begins => Nat.le_of_not_lt fun longer => worse ⟨begins, longer⟩
          rw [← next] at kept
          exact ih kept (by omega) (by omega)
      · have full : i.toNat = table.length := by omega
        rw [List.getElem?_eq_none outside]
        rw [full] at best
        exact ⟨len, idx, rfl, best⟩

/-- In a longer table the index wraps around, and the search never ends. -/
theorem search_endless (long : 256 ≤ table.length) (fuel : Nat) (i len : UInt8) (at_ : Int8) :
    search table cmd fuel i len at_ = none := by
  induction fuel generalizing i len at_ with
  | zero => rfl
  | succ fuel ih =>
      have within : i.toNat < table.length := by
        have := i.toNat_lt
        omega
      rw [search]
      simp only [List.getElem?_eq_getElem within]
      split
      · exact ih _ _ _
      · exact ih _ _ _

/-- The alias that the search has found. -/
theorem Best.firstLongest {k : Nat} (best : Best table rest table.length len (some k)) :
    ∃ entry, FirstLongest table rest k entry ∧ entry.name.length = len ∧ 0 < len ∧ k < table.length := by
  obtain ⟨inside, positive, entry, present, begins, rfl, first⟩ := best.found k rfl
  refine ⟨entry, ⟨present, begins, ?_, first⟩, rfl, positive, inside⟩
  intro j other otherPresent otherBegins
  exact best.longest j other (List.getElem?_eq_some_iff.mp otherPresent).1 otherPresent otherBegins

theorem FirstLongest.unique {k j : Nat} {other : Alias} (chosen : FirstLongest table rest k entry)
    (again : FirstLongest table rest j other) : k = j := by
  rcases Nat.lt_trichotomy k j with before | same | behind
  · have := again.first k entry before chosen.present chosen.begins
    have := chosen.longest j other again.present again.begins
    omega
  · exact same
  · have := chosen.first j other behind again.present again.begins
    have := again.longest k entry chosen.present chosen.begins
    omega

/-- With no name found, the names that match are empty. -/
theorem Best.names_empty {k : Nat} (best : Best table rest table.length len none)
    (chosen : FirstLongest table rest k entry) : entry.name = [] := by
  have bound := best.longest k entry (List.getElem?_eq_some_iff.mp chosen.present).1 chosen.present chosen.begins
  rw [best.nothing rfl] at bound
  exact List.length_eq_zero_iff.mp (Nat.le_zero.mp bound)

end Search

/-! ## The expansion -/

section Expansion

variable {cmd : Bytes} {rest : List UInt8} {entry : Alias}

theorem strlen_eq {start : Nat} {text : List UInt8} (found : TextAt cmd start text)
    (held : text.length ≤ ecmdInputbufLength) : strlen cmd start = text.length := by
  rw [strlen, found.fieldText_eq, List.length_take, Nat.min_eq_right held]

/-- An expansion that fits is the command and the rest of the text, inside the buffer. -/
theorem expand_right (found : TextAt cmd 0 (36 :: rest)) (held : rest.length + 2 ≤ ecmdInputbufLength)
    (begins : entry.name <+: rest) (fits : Fits entry rest) {len : UInt8}
    (sized : len.toNat = entry.name.length) :
    ∃ after written, expand cmd entry len = .expanded after written ∧
      TextAt after 0 (entry.cmd ++ rest.drop entry.name.length) ∧
        ∀ place ∈ written, place < ecmdInputbufLength := by
  have nameLength := begins.length_le
  have remainder : TextAt cmd (entry.name.length + 1) (rest.drop entry.name.length) := by
    have behind : TextAt cmd (0 + (entry.name.length + 1)) ((36 :: rest).drop (entry.name.length + 1)) :=
      found.drop (by simpa using nameLength)
    rw [Nat.zero_add] at behind
    exact behind
  have remainderLength : (rest.drop entry.name.length).length = rest.length - entry.name.length :=
    List.length_drop
  have newlen : (UInt8.ofNat entry.cmd.length).toNat = entry.cmd.length := by
    rw [Fits, ecmdInputbufLength] at fits
    rw [UInt8.toNat_ofNat']
    omega
  rw [expand, newlen, sized, strlen_eq remainder (by omega)]
  refine ⟨_, _, rfl, TextAt.append (remainder.copied ?_) ?_ entry.cmdClean, ?_⟩
  · intro k inside
    have moved : ¬k + entry.cmd.length < entry.cmd.length := by omega
    simp [memcpy, memmove, Nat.add_comm, moved]
    omega
  · intro k inside
    simp [memcpy, inside, cString]
  · intro place member
    rw [Fits] at fits
    simp only [List.mem_append, List.mem_range'_1, List.mem_range] at member
    omega

end Expansion

/-! ## The whole call -/

section Call

variable {table : List Alias} {cmd : Bytes} {rest : List UInt8}

/-- An index of the table in eight bits with a sign. -/
theorem toInt_index {k : Nat} (small : k < 256) :
    (index (some k)).toInt = if k < 128 then (k : Int) else k - 256 := by
  have value : (UInt8.ofNat k).toNat = k := by
    rw [UInt8.toNat_ofNat']
    omega
  have signed : (UInt8.ofNat k).toInt8.toInt = (UInt8.ofNat k).toBitVec.toInt := rfl
  rw [index, signed, BitVec.toInt_eq_toNat_cond, UInt8.toNat_toBitVec, value]
  split_ifs <;> omega

/-- What the call does for a table whose end it can reach. -/
theorem aliascmdDecode_cases (short : table.length ≤ 255) (found : TextAt cmd 0 (36 :: rest))
    (held : rest.length + 2 ≤ ecmdInputbufLength) :
    (aliascmdDecode table cmd = some .null ∧ ∀ k entry, FirstLongest table rest k entry → entry.name = []) ∨
      ∃ k entry, FirstLongest table rest k entry ∧ entry.name ≠ [] ∧
        if k ≤ 127 then
          ∃ len : UInt8, len.toNat = entry.name.length ∧ aliascmdDecode table cmd = some (expand cmd entry len)
        else aliascmdDecode table cmd = some .outside := by
  rw [ecmdInputbufLength] at held
  have start : Best table rest (0 : UInt8).toNat (0 : UInt8).toNat none := Best.initial
  obtain ⟨len, idx, ended, best⟩ : ∃ len idx, search table cmd 256 0 0 (index none) = some (len, index idx) ∧
      Best table rest table.length len.toNat idx :=
    search_finds short found.tail (by omega) start (Nat.zero_le _) (by omega)
  rw [show index none = -1 from rfl] at ended
  cases idx with
  | none =>
      refine .inl ⟨?_, fun k entry chosen => best.names_empty chosen⟩
      rw [aliascmdDecode, ended]
      rfl
  | some k =>
      obtain ⟨entry, chosen, sized, positive, inside⟩ := best.firstLongest
      have named : entry.name ≠ [] := by
        intro empty
        rw [empty, List.length_nil] at sized
        omega
      refine .inr ⟨k, entry, chosen, named, ?_⟩
      have value := toInt_index (k := k) (by omega)
      have proper : index (some k) ≠ -1 := by
        intro minusOne
        rw [minusOne] at value
        have : (-1 : Int8).toInt = -1 := rfl
        split_ifs at value <;> omega
      rw [aliascmdDecode, ended]
      simp only [if_neg proper, value]
      split
      · rename_i low
        have positiveIndex : ¬((k : Int) < 0) := by omega
        have nonnegative : (if k < 128 then (k : Int) else k - 256) = k := if_pos (by omega)
        rw [nonnegative, if_neg positiveIndex, Int.toNat_natCast, chosen.present]
        exact ⟨len, sized.symm, rfl⟩
      · rename_i high
        have negative : (if k < 128 then (k : Int) else k - 256) < 0 := by
          rw [if_neg (by omega)]
          omega
        rw [if_pos negative]

/-- The call is right for exactly the texts whose aliases can be expanded. -/
theorem aliascmdDecode_right_iff (table : List Alias) (cmd : Bytes) (rest : List UInt8)
    (found : TextAt cmd 0 (36 :: rest)) (held : rest.length + 2 ≤ ecmdInputbufLength) :
    (∃ decoded, aliascmdDecode table cmd = some decoded ∧ DecodesRightly table rest decoded) ↔
      Expandable table rest := by
  rcases Nat.lt_or_ge 255 table.length with long | short
  · have endless : aliascmdDecode table cmd = none := by rw [aliascmdDecode, search_endless long]
    refine iff_of_false ?_ fun expandable => absurd expandable.short (by omega)
    rintro ⟨decoded, returned, -⟩
    rw [endless] at returned
    cases returned
  rcases aliascmdDecode_cases short found held with ⟨returned, empty⟩ | ⟨k, entry, chosen, named, returned⟩
  · rw [returned]
    constructor
    · rintro ⟨decoded, same, right⟩
      cases same
      cases right with
      | kept unfit =>
          refine ⟨short, fun k entry chosen => ⟨fun _ => unfit k entry chosen, fun named => ?_⟩⟩
          exact absurd (empty k entry chosen) named
    · intro expandable
      exact ⟨.null, rfl, .kept fun k entry chosen => (expandable.chosen k entry chosen).1 (empty k entry chosen)⟩
  · have only : ∀ j other, FirstLongest table rest j other → j = k ∧ other = entry := by
      intro j other again
      obtain rfl := again.unique chosen
      have present := again.present
      rw [chosen.present] at present
      exact ⟨rfl, (Option.some.inj present).symm⟩
    constructor
    · rintro ⟨decoded, same, right⟩
      refine ⟨short, fun j other again => ?_⟩
      obtain ⟨rfl, rfl⟩ := only j other again
      refine ⟨fun empty => absurd empty named, fun _ => ?_⟩
      split at returned
      · rename_i low
        obtain ⟨len, -, expanded⟩ := returned
        rw [expanded] at same
        cases same
        generalize result : expand cmd other len = decoded at right
        cases right with
        | replaced again fits _ _ =>
            obtain ⟨rfl, rfl⟩ := only _ _ again
            exact ⟨low, fits⟩
        | kept _ => cases result
      · rw [returned] at same
        cases same
        cases right
    · intro expandable
      obtain ⟨low, fits⟩ := (expandable.chosen k entry chosen).2 named
      rw [if_pos low] at returned
      obtain ⟨len, sized, expanded⟩ := returned
      obtain ⟨after, written, result, text, inside⟩ := expand_right found held chosen.begins fits sized
      rw [result] at expanded
      exact ⟨_, expanded, .replaced chosen fits text inside⟩

end Call

/-- `off`, and the command that stands for it: `rfm12 2272 0,5,80 76 10`. -/
def off : Alias where
  name := [111, 102, 102]
  cmd := [114, 102, 109, 49, 50, 32, 50, 50, 55, 50, 32, 48, 44, 53, 44, 56, 48, 32, 55, 54, 32, 49, 48]
  nameClean := by simp
  cmdClean := by simp

theorem aliascmdDecode_right_off :
    (TextAt (cString (36 :: off.name)) 0 (36 :: off.name) ∧ off.name.length + 2 ≤ ecmdInputbufLength) ∧
      ∃ decoded, aliascmdDecode [off] (cString (36 :: off.name)) = some decoded ∧
        DecodesRightly [off] off.name decoded := by
  have found : TextAt (cString (36 :: off.name)) 0 (36 :: off.name) := ⟨by decide, by decide, by simp [off]⟩
  have held : off.name.length + 2 ≤ ecmdInputbufLength := by decide
  refine ⟨⟨found, held⟩, (aliascmdDecode_right_iff [off] _ off.name found held).mpr ⟨by decide, ?_⟩⟩
  intro k entry chosen
  have inside := (List.getElem?_eq_some_iff.mp chosen.present).1
  rw [List.length_singleton, Nat.lt_one_iff] at inside
  have present := chosen.present
  rw [inside] at present
  cases present
  refine ⟨fun empty => absurd empty (by decide), fun _ => ⟨by omega, ?_⟩⟩
  rw [Fits]
  decide

/-- `$off` with thirty blanks behind it, which the buffer can hold, is expanded to a text of 53 characters. -/
theorem aliascmdDecode_overruns :
    TextAt (cString (36 :: off.name ++ List.replicate 30 32)) 0 (36 :: off.name ++ List.replicate 30 32) ∧
      ¬∃ decoded, aliascmdDecode [off] (cString (36 :: off.name ++ List.replicate 30 32)) = some decoded ∧
        DecodesRightly [off] (off.name ++ List.replicate 30 32) decoded := by
  refine ⟨⟨by decide, by decide, by simp [off]⟩, ?_⟩
  rintro ⟨decoded, returned, right⟩
  have expanded : ∃ after written,
      aliascmdDecode [off] (cString (36 :: off.name ++ List.replicate 30 32)) = some (.expanded after written) ∧
        53 ∈ written := ⟨_, _, rfl, by decide⟩
  obtain ⟨after, written, result, outside⟩ := expanded
  rw [result] at returned
  cases returned
  cases right with
  | replaced _ _ _ inside => exact absurd (inside 53 outside) (by decide)

end Ethersex.Ecmd.Aliases
