import Ethersex.Onewire.Model
import Ethersex.Library.Enumeration

/-!
# Every device is found once

A pass of the search follows the code that was found before up to its last branch, turns there,
and takes zeros behind it.  So it finds the next code in the order of the bits, and the branch it
leaves in `last_discrepancy` is the last one of the code that it found.
-/

namespace Ethersex.Onewire

open Ethersex.Library

/-! ## Bits of a code -/

namespace OwRomCode

theorem bit_eq_false_of_ge {rom : OwRomCode} {k : Nat} (beyond : 64 ≤ k) : rom.bit k = false := by
  have outside : rom.byte (k / 8) = 0 := by
    rw [byte, Vector.getElem?_eq_none (by omega), Option.getD_none]
  rw [bit, outside]
  exact Nat.zero_testBit _

/-- The bits of a code, as a sequence. -/
def code (rom : OwRomCode) : Code := toLex rom.bit

@[simp] theorem code_apply (rom : OwRomCode) (k : Nat) : rom.code k = rom.bit k := rfl

theorem eq_of_bit {left right : OwRomCode} (same : ∀ k < 64, left.bit k = right.bit k) :
    left = right := by
  obtain ⟨left⟩ := left
  obtain ⟨right⟩ := right
  congr 1
  ext index small
  refine congrArg UInt8.toNat (UInt8.toNat_inj.mp (Nat.eq_of_testBit_eq fun place => ?_))
  have value (bytes : Vector UInt8 8) (inside : place < 8) :
      (⟨bytes⟩ : OwRomCode).bit (8 * index + place) = bytes[index].toNat.testBit place := by
    have quotient : (8 * index + place) / 8 = index := by omega
    have remainder : (8 * index + place) % 8 = place := by omega
    rw [bit, byte, quotient, remainder, Vector.getElem?_eq_getElem small, Option.getD_some]
  rcases Nat.lt_or_ge place 8 with inside | outside
  · rw [← value left inside, ← value right inside]
    exact same _ (by omega)
  · have high (byte : UInt8) : byte.toNat.testBit place = false :=
      Nat.testBit_lt_two_pow (lt_of_lt_of_le byte.toNat_lt (Nat.pow_le_pow_right (by decide) outside))
    rw [high, high]

theorem code_injective : Function.Injective code := fun _ _ same =>
  eq_of_bit fun k _ => congrFun (congrArg ofLex same) k

end OwRomCode

theorem mod_eight (idx : UInt8) : idx % 8 = UInt8.ofNat (idx.toNat % 8) := by
  rw [← UInt8.toNat_inj, UInt8.toNat_mod, UInt8.toNat_ofNat_of_lt' (by change _ < 256; omega)]
  rfl

theorem testBit_mask (byte : UInt8) (place j : Nat) (small : place < 8) (inside : j < 8) :
    (byte &&& ~~~(1 <<< UInt8.ofNat place)).toNat.testBit j =
        (if j = place then false else byte.toNat.testBit j) ∧
      (byte ||| 1 <<< UInt8.ofNat place).toNat.testBit j =
        (if j = place then true else byte.toNat.testBit j) := by
  have mask : (1 <<< UInt8.ofNat place : UInt8).toNat.testBit j = decide (j = place) := by
    interval_cases place <;> interval_cases j <;> rfl
  have complement : (~~~(1 <<< UInt8.ofNat place) : UInt8).toNat.testBit j = !decide (j = place) := by
    interval_cases place <;> interval_cases j <;> rfl
  rw [UInt8.toNat_and, UInt8.toNat_or, Nat.testBit_and, Nat.testBit_or, mask, complement]
  by_cases here : j = place <;> simp [here]

theorem byte_set (rom : OwRomCode) {index : Nat} (value : UInt8) (small : index < 8) (j : Nat) :
    OwRomCode.byte ⟨rom.bytewise.setIfInBounds index value⟩ j =
      if j = index then value else rom.byte j := by
  rw [OwRomCode.byte, Vector.getElem?_setIfInBounds]
  split_ifs with here other other
  · rfl
  · exact absurd here.symm other
  · exact absurd other.symm here
  · rfl

/-- Setting a bit of a code changes that bit only. -/
theorem bit_owSetAddressBit (rom : OwRomCode) {idx : UInt8} (val : UInt8) (small : idx.toNat < 64)
    (k : Nat) : (owSetAddressBit rom idx val).bit k =
      if k = idx.toNat then decide (val ≠ 0) else rom.bit k := by
  have row : (idx / 8).toNat = idx.toNat / 8 := UInt8.toNat_div idx 8
  obtain ⟨cleared, set⟩ := testBit_mask (rom.byte (idx.toNat / 8)) (idx.toNat % 8) (k % 8)
    (by omega) (by omega)
  have position : k = idx.toNat ↔ k / 8 = idx.toNat / 8 ∧ k % 8 = idx.toNat % 8 := by omega
  have written (value : UInt8) :
      OwRomCode.bit ⟨rom.bytewise.setIfInBounds (idx.toNat / 8) value⟩ k =
        if k / 8 = idx.toNat / 8 then value.toNat.testBit (k % 8) else rom.bit k := by
    rw [OwRomCode.bit, byte_set rom value (by omega)]
    split_ifs <;> rfl
  have here (same : k / 8 = idx.toNat / 8) :
      (rom.byte (idx.toNat / 8)).toNat.testBit (k % 8) = rom.bit k := by rw [OwRomCode.bit, same]
  rw [owSetAddressBit, mod_eight, row]
  by_cases zero : val = 0
  · simp only [if_pos zero, written, cleared]
    grind
  · simp only [if_neg zero, written, set]
    grind

/-! ## One bit of a search -/

namespace Bus

variable {bus : Bus} {i : Nat}

theorem read_bit (slot : bus.slot = 3 * i) :
    bus.read = (decide (∀ device ∈ bus.searching, device.bit i = true),
      { bus with slot := 3 * i + 1 }) := by
  have phase : 3 * i % 3 = 0 := by omega
  have index : 3 * i / 3 = i := by omega
  rw [read, slot, phase]
  simp only [index]

theorem read_complement (slot : bus.slot = 3 * i + 1) :
    bus.read = (decide (∀ device ∈ bus.searching, device.bit i = false),
      { bus with slot := 3 * i + 2 }) := by
  have phase : (3 * i + 1) % 3 = 1 := by omega
  have index : (3 * i + 1) / 3 = i := by omega
  rw [read, slot, phase]
  simp only [index]

theorem write_select (slot : bus.slot = 3 * i + 2) (value : Bool) :
    bus.write value =
      { bus with
        searching := bus.searching.filter fun device => device.bit i = value
        slot := 3 * (i + 1) } := by
  have phase : (3 * i + 2) % 3 = 2 := by omega
  have index : (3 * i + 2) / 3 = i := by omega
  rw [write, slot, if_pos phase, select]
  simp only [slot, index]
  rfl

end Bus

variable {search next : Search} {i : UInt8}

/-- Some device that still takes part has a bit. -/
def Has (search : Search) (i : Nat) (value : Bool) : Prop :=
  ∃ device ∈ search.bus.searching, device.bit i = value

instance (search : Search) (i : Nat) (value : Bool) : Decidable (Has search i value) :=
  inferInstanceAs (Decidable (∃ device ∈ search.bus.searching, device.bit i = value))

/-- What a pass does: it chooses a bit that some device has, and where there are both it goes by
`last_discrepancy`. -/
structure Passes (search : Search) (i : UInt8) (value : Bool) (next : Search) : Prop where
  last : next.ow_global.last_discrepancy = search.ow_global.last_discrepancy
  bit : ∀ k, next.ow_global.current_rom.bit k =
    if k = i.toNat then value else search.ow_global.current_rom.bit k
  discrepancy : next.discrepancy =
    if value = false ∧ Has search i.toNat true then i else search.discrepancy
  bus : next.bus = ⟨search.bus.devices,
    search.bus.searching.filter fun device => device.bit i.toNat = value, 3 * (i.toNat + 1)⟩
  has : Has search i.toNat value
  both : Has search i.toNat false → Has search i.toNat true →
    value = if (i.toNat : Int) = search.ow_global.last_discrepancy.toInt then true
      else if (i.toNat : Int) > search.ow_global.last_discrepancy.toInt then false
      else search.ow_global.current_rom.bit i.toNat

/-- What a slot reads as: one unless some device has the other bit. -/
theorem forall_bit_toUInt8 (j : Nat) (value : Bool) :
    (decide (∀ device ∈ search.bus.searching, device.bit j = value)).toUInt8 =
      if Has search j (!value) then 0 else 1 := by
  have all : (∀ device ∈ search.bus.searching, device.bit j = value) ↔ ¬Has search j (!value) := by
    rw [Has]
    push Not
    refine forall₂_congr fun device _ => ?_
    cases device.bit j <;> cases value <;> simp
  by_cases other : Has search j (!value)
  · rw [if_pos other, decide_eq_false (fun same => all.mp same other)]
    rfl
  · rw [if_neg other, decide_eq_true (all.mpr other)]
    rfl

theorem owRead_bit (slot : search.bus.slot = 3 * i.toNat) :
    owRead search.bus = (if Has search i.toNat false then 0 else 1,
      { search.bus with slot := 3 * i.toNat + 1 }) := by
  rw [owRead, Bus.read_bit slot, forall_bit_toUInt8]
  rfl

theorem owRead_complement :
    owRead { search.bus with slot := 3 * i.toNat + 1 } = (if Has search i.toNat true then 0 else 1,
      { search.bus with slot := 3 * i.toNat + 2 }) := by
  rw [owRead, Bus.read_complement rfl, forall_bit_toUInt8]
  rfl

theorem owWrite_select (val : UInt8) :
    owWrite val { search.bus with slot := 3 * i.toNat + 2 } =
      ⟨search.bus.devices, search.bus.searching.filter fun device =>
        device.bit i.toNat = decide (val ≠ 0), 3 * (i.toNat + 1)⟩ := by
  have positive : decide (val > 0) = decide (val ≠ 0) :=
    decide_eq_decide.mpr UInt8.pos_iff_ne_zero
  rw [owWrite, Bus.write_select rfl, positive]

/-- The bit of the current code that is written again. -/
theorem byte_and_mask_ne_zero (rom : OwRomCode) (i : UInt8) :
    decide (rom.byte (i / 8).toNat &&& 1 <<< (i % 8) ≠ 0) = rom.bit i.toNat := by
  have row : (i / 8).toNat = i.toNat / 8 := UInt8.toNat_div i 8
  have mask : ((1 : UInt8) <<< (i % 8)).toNat = 2 ^ (i.toNat % 8) := by
    have small : i.toNat % 8 < 8 := Nat.mod_lt _ (by decide)
    rw [mod_eight]
    interval_cases i.toNat % 8 <;> rfl
  have selected : rom.byte (i.toNat / 8) &&& 1 <<< (i % 8) ≠ 0 ↔ rom.bit i.toNat = true := by
    rw [ne_eq, ← UInt8.toNat_inj, UInt8.toNat_and, mask, Nat.and_two_pow, OwRomCode.bit]
    cases (rom.byte (i.toNat / 8)).toNat.testBit (i.toNat % 8) <;> simp
  rw [row, Bool.eq_iff_iff, decide_eq_true_iff]
  exact selected

theorem searchBit_passes (small : i.toNat < 64) (slot : search.bus.slot = 3 * i.toNat)
    (present : search.bus.searching.Nonempty) :
    ∃ value next, searchBit i search = .ok next ∧ Passes search i value next := by
  have some : Has search i.toNat false ∨ Has search i.toNat true := by
    obtain ⟨device, inside⟩ := present
    cases bit : device.bit i.toNat
    · exact .inl ⟨device, inside, bit⟩
    · exact .inr ⟨device, inside, bit⟩
  simp only [searchBit, owRead_bit slot, owRead_complement]
  by_cases zeros : Has search i.toNat false
  · by_cases ones : Has search i.toNat true
    · rw [if_pos zeros, if_pos ones, if_neg (by decide), if_pos (by decide)]
      rcases lt_trichotomy search.ow_global.last_discrepancy.toInt (i.toNat : Int) with
        beyond | here | before
      · rw [if_neg beyond.ne', if_pos beyond]
        refine ⟨false, _, rfl, rfl, bit_owSetAddressBit _ _ small, ?_, owWrite_select _, zeros, ?_⟩
        · exact (if_pos ⟨rfl, ones⟩).symm
        · exact fun _ _ => ((if_neg beyond.ne').trans (if_pos beyond)).symm
      · rw [if_pos here.symm]
        refine ⟨true, _, rfl, rfl, bit_owSetAddressBit _ _ small, ?_, owWrite_select _, ones, ?_⟩
        · exact (if_neg fun none => Bool.noConfusion none.1).symm
        · exact fun _ _ => (if_pos here.symm).symm
      · rw [if_neg before.ne, if_neg (not_lt.mpr before.le)]
        have again := byte_and_mask_ne_zero search.ow_global.current_rom i
        refine ⟨search.ow_global.current_rom.bit i.toNat, _, rfl, rfl, fun k => ?_, ?_, ?_, ?_, ?_⟩
        · change search.ow_global.current_rom.bit k = _
          by_cases is : k = i.toNat
          · rw [if_pos is, is]
          · rw [if_neg is]
        · refine ite_congr (propext ?_) (fun _ => rfl) (fun _ => rfl)
          rw [← again, decide_eq_false_iff_not, not_not]
          exact (and_iff_left ones).symm
        · exact again ▸ owWrite_select _
        · cases search.ow_global.current_rom.bit i.toNat
          · exact zeros
          · exact ones
        · exact fun _ _ => ((if_neg before.ne).trans (if_neg (not_lt.mpr before.le))).symm
    · rw [if_pos zeros, if_neg ones, if_neg (by decide), if_neg (by decide)]
      refine ⟨false, _, rfl, rfl, bit_owSetAddressBit _ _ small, ?_, owWrite_select _, zeros, ?_⟩
      · exact (if_neg fun both => ones both.2).symm
      · exact fun _ both => absurd both ones
  · have ones := some.resolve_left zeros
    rw [if_neg zeros, if_pos ones, if_neg (by decide), if_neg (by decide)]
    refine ⟨true, _, rfl, rfl, bit_owSetAddressBit _ _ small, ?_, owWrite_select _, ones, ?_⟩
    · exact (if_neg fun none => Bool.noConfusion none.1).symm
    · exact fun both _ => absurd both zeros

/-! ## A whole pass -/

/-- The codes of the devices on a bus. -/
noncomputable def codes (devices : Finset OwRomCode) : Finset Code := devices.image OwRomCode.code

theorem code_mem {devices : Finset OwRomCode} {rom : OwRomCode} :
    rom.code ∈ codes devices ↔ rom ∈ devices := by
  rw [codes, Finset.mem_image]
  constructor
  · rintro ⟨device, inside, same⟩
    exact OwRomCode.code_injective same ▸ inside
  · exact fun inside => ⟨rom, inside, rfl⟩

/-- The place that a discrepancy stands for; 255 and -1 are none. -/
def place (discrepancy : UInt8) : Option Nat :=
  if discrepancy = 255 then none else some discrepancy.toNat

/-- The state of the loop before bit `i`, when the search started from a code and its last branch:
the devices that take part are those with the bits chosen so far, which are the bits of the old
code up to the branch, and zeros wherever possible behind it. -/
structure Searched (devices : Finset OwRomCode) (old : OwRomCode) (last : Int8) (i : Nat)
    (search : Search) : Prop where
  resumed : search.ow_global.last_discrepancy = last
  bus : search.bus.devices = devices
  slot : search.bus.slot = 3 * i
  searching : ∀ device, device ∈ search.bus.searching ↔
    device ∈ devices ∧ SameBelow i device.code search.ow_global.current_rom.code
  some : search.bus.searching.Nonempty
  ahead : ∀ k ≥ i, search.ow_global.current_rom.bit k = old.bit k
  kept : ∀ k < i, (k : Int) < last.toInt → search.ow_global.current_rom.bit k = old.bit k
  turned : ∀ k < i, (k : Int) = last.toInt → search.ow_global.current_rom.bit k = true
  zeros : ∀ k < i, last.toInt < (k : Int) → search.ow_global.current_rom.bit k = true →
    ∀ other ∈ codes devices, SameBelow k other search.ow_global.current_rom.code → other k = true
  discrepancy : LastBranch (codes devices) search.ow_global.current_rom.code i
    (place search.discrepancy)

/-- Where a search can go on from: nowhere, or the last branch of a device's code. -/
def Resumes (devices : Finset OwRomCode) (old : OwRomCode) (last : Int8) : Prop :=
  last.toInt = -1 ∨ ∃ branch : Nat, branch < 64 ∧ last.toInt = branch ∧ old ∈ devices ∧
    LastBranch (codes devices) old.code 64 (some branch)

variable {devices : Finset OwRomCode} {old : OwRomCode} {last : Int8}

/-- Before the last branch, the device that was found last still takes part. -/
theorem Searched.old_searching {i : Nat} (searched : Searched devices old last i search)
    (resumes : Resumes devices old last) (before : (i : Int) ≤ last.toInt) :
    old ∈ search.bus.searching := by
  obtain nowhere | ⟨branch, _, is, inside, _⟩ := resumes
  · omega
  · refine (searched.searching old).mpr ⟨inside, fun k small => ?_⟩
    exact (searched.kept k small (by omega)).symm

/-- A code that goes on from the chosen bits belongs to a device that takes part. -/
theorem Searched.has {i : Nat} (searched : Searched devices old last i search) {other : Code}
    (inside : other ∈ codes devices) (same : SameBelow i other search.ow_global.current_rom.code)
    {value : Bool} (bit : other i = value) : Has search i value := by
  obtain ⟨device, member, rfl⟩ := Finset.mem_image.mp inside
  exact ⟨device, (searched.searching device).mpr ⟨member, same⟩, bit⟩

/-- The bit that a pass chooses, by the side of the last branch on which it is. -/
theorem Searched.chosen {i : UInt8} {value : Bool}
    (searched : Searched devices old last i.toNat search) (resumes : Resumes devices old last)
    (passes : Passes search i value next) :
    ((i.toNat : Int) < last.toInt → value = old.bit i.toNat) ∧
      ((i.toNat : Int) = last.toInt → value = true) ∧
      (last.toInt < (i.toNat : Int) → value = true → ¬Has search i.toNat false) := by
  have both := passes.both
  rw [searched.resumed] at both
  refine ⟨fun before => ?_, fun here => ?_, fun beyond one zero => ?_⟩
  · have follows : Has search i.toNat (old.bit i.toNat) :=
      ⟨old, searched.old_searching resumes before.le, rfl⟩
    have has := passes.has
    rw [if_neg before.ne, if_neg (not_lt.mpr before.le), searched.ahead _ le_rfl] at both
    cases chosen : value <;> cases bit : old.bit i.toNat <;> simp_all
  · have takes := searched.old_searching resumes here.le
    obtain nowhere | ⟨branch, _, is, _, _, ⟨zero, other, member, below, one⟩, _⟩ := resumes
    · omega
    · obtain rfl : branch = i.toNat := by omega
      have same := ((searched.searching old).mp takes).2
      rw [if_pos here] at both
      exact both ⟨old, takes, zero⟩ (searched.has member (below.trans same) one)
  · rw [one, if_neg beyond.ne', if_pos beyond] at both
    exact Bool.noConfusion (both zero (one ▸ passes.has))

theorem Searched.step {i : UInt8} {value : Bool} (small : i.toNat < 64)
    (searched : Searched devices old last i.toNat search) (resumes : Resumes devices old last)
    (passes : Passes search i value next) : Searched devices old last (i.toNat + 1) next := by
  obtain ⟨followed, turned, zeros⟩ := searched.chosen resumes passes
  have same : SameBelow i.toNat next.ow_global.current_rom.code search.ow_global.current_rom.code :=
    fun k before => (passes.bit k).trans (if_neg (by omega))
  have here : next.ow_global.current_rom.bit i.toNat = value := (passes.bit _).trans (if_pos rfl)
  have others {k : Nat} (apart : k ≠ i.toNat) :
      next.ow_global.current_rom.bit k = search.ow_global.current_rom.bit k :=
    (passes.bit k).trans (if_neg apart)
  refine ⟨passes.last.trans searched.resumed, ?_, ?_, fun device => ?_, ?_, fun k beyond => ?_,
    fun k before kept => ?_, fun k before turn => ?_, fun k before beyond one => ?_, ?_⟩
  · rw [passes.bus]
    exact searched.bus
  · rw [passes.bus]
  · rw [passes.bus, Finset.mem_filter, searched.searching]
    constructor
    · rintro ⟨⟨inside, below⟩, bit⟩
      exact ⟨inside, (below.trans same.symm).succ (bit.trans here.symm)⟩
    · rintro ⟨inside, below⟩
      refine ⟨⟨inside, (below.mono (Nat.le_succ _)).trans same⟩, ?_⟩
      exact (below _ (Nat.lt_succ_self _)).trans here
  · obtain ⟨device, inside, bit⟩ := passes.has
    rw [passes.bus]
    exact ⟨device, Finset.mem_filter.mpr ⟨inside, bit⟩⟩
  · rw [others (by omega)]
    exact searched.ahead k (by omega)
  · rcases Nat.lt_succ_iff_lt_or_eq.mp before with earlier | rfl
    · exact (others earlier.ne).trans (searched.kept k earlier kept)
    · exact here.trans (followed kept)
  · rcases Nat.lt_succ_iff_lt_or_eq.mp before with earlier | rfl
    · exact (others earlier.ne).trans (searched.turned k earlier turn)
    · exact here.trans (turned turn)
  · intro other inside below
    have old_below := below.trans (same.mono (by omega))
    rcases Nat.lt_succ_iff_lt_or_eq.mp before with earlier | rfl
    · exact searched.zeros k earlier beyond ((others earlier.ne).symm.trans one) other inside old_below
    · rw [← Bool.not_eq_false]
      exact fun zero => zeros beyond (here.symm.trans one) (searched.has inside old_below zero)
  · have before := searched.discrepancy.congr same
    rw [passes.discrepancy]
    split_ifs with branches
    · obtain ⟨rfl, device, inside, one⟩ := branches
      have finite : i ≠ 255 := by
        rintro rfl
        exact absurd small (by decide)
      rw [place, if_neg finite]
      obtain ⟨member, below⟩ := (searched.searching device).mp inside
      exact .here ⟨here, device.code, code_mem.mpr member, below.trans same.symm, one⟩
    · refine before.skip fun there => branches ?_
      obtain ⟨zero, other, inside, below, one⟩ := there
      exact ⟨here.symm.trans zero, searched.has inside (below.trans same) one⟩

/-- The loop runs to its end and finds the code of a device. -/
theorem searchBits_spec {start : Search} (resumes : Resumes devices old last)
    (begun : Searched devices old last 0 start) {count : Nat} (small : count ≤ 64) :
    ∃ final, searchBits count start = .ok final ∧ Searched devices old last count final := by
  induction count with
  | zero => exact ⟨start, rfl, begun⟩
  | succ count ih =>
      obtain ⟨middle, loop, searched⟩ := ih (by omega)
      have index : (UInt8.ofNat count).toNat = count :=
        UInt8.toNat_ofNat_of_lt' (show count < 256 by omega)
      rw [← index] at searched
      obtain ⟨value, final, pass, passes⟩ :=
        searchBit_passes (by omega) searched.slot searched.some
      refine ⟨final, ?_, index ▸ searched.step (by omega) resumes passes⟩
      rw [searchBits, List.range_succ, List.foldlM_append, ← searchBits, loop]
      simp only [List.foldlM_cons, List.foldlM_nil, bind_pure]
      exact pass

/-! ## The search -/

/-- What a search leaves that found a device: its code, and the last branch of it. -/
structure Finds (devices : Finset OwRomCode) (ow_global : OwGlobal) : Prop where
  mem : ow_global.current_rom ∈ devices
  branch : (ow_global.last_discrepancy.toInt = -1 ∧
      LastBranch (codes devices) ow_global.current_rom.code 64 none) ∨
    ∃ branch : Nat, ow_global.last_discrepancy.toInt = branch ∧
      LastBranch (codes devices) ow_global.current_rom.code 64 (some branch)

theorem not_branches_of_ge {code : Code} {k : Nat} (beyond : 64 ≤ k) :
    ¬Branches (codes devices) code k := by
  rintro ⟨_, other, inside, _, one⟩
  obtain ⟨device, _, rfl⟩ := Finset.mem_image.mp inside
  rw [OwRomCode.code_apply, OwRomCode.bit_eq_false_of_ge beyond] at one
  exact Bool.noConfusion one

/-- The discrepancy, as a signed byte. -/
theorem toInt8_of_place {discrepancy : UInt8} :
    (discrepancy = 255 → discrepancy.toInt8.toInt = -1) ∧
      (discrepancy.toNat < 64 → discrepancy.toInt8.toInt = discrepancy.toNat) := by
  constructor
  · rintro rfl
    rfl
  · intro small
    have bits : discrepancy.toInt8.toBitVec.toNat = discrepancy.toNat := rfl
    rw [Int8.toInt, BitVec.toInt_eq_toNat_of_lt (by omega), bits]

/-- The end of the loop. -/
theorem Searched.finds (searched : Searched devices old last 64 search) :
    Finds devices { search.ow_global with last_discrepancy := search.discrepancy.toInt8 } := by
  obtain ⟨device, inside⟩ := searched.some
  obtain ⟨member, same⟩ := (searched.searching device).mp inside
  have found : device = search.ow_global.current_rom := OwRomCode.eq_of_bit same
  refine ⟨found ▸ member, ?_⟩
  have branch := searched.discrepancy
  rw [place] at branch
  split_ifs at branch with nowhere
  · exact .inl ⟨toInt8_of_place.1 nowhere, branch⟩
  · exact .inr ⟨_, toInt8_of_place.2 branch.1, branch⟩

/-- Behind the last branch of the old code the new one takes zeros. -/
theorem Searched.zerosFrom (searched : Searched devices old last 64 search) {start : Nat}
    (behind : last.toInt < start) : ZerosFrom (codes devices) start search.ow_global.current_rom.code := by
  intro k beyond one
  rcases Nat.lt_or_ge k 64 with inside | outside
  · exact searched.zeros k inside (by omega) one
  · rw [OwRomCode.code_apply, OwRomCode.bit_eq_false_of_ge outside] at one
    exact Bool.noConfusion one

/-- A pass that goes on from the last branch of a code, or from the beginning. -/
theorem searchBits_of_resumes (ow_global : OwGlobal) {bus : Bus} (present : bus.devices.Nonempty)
    (resumes : Resumes bus.devices ow_global.current_rom ow_global.last_discrepancy) :
    ∃ final, searchBits 64 ⟨ow_global, -1, owWriteByte OW_ROM_SEARCH_ROM (resetOnewire bus).2⟩ =
        .ok final ∧
      Searched bus.devices ow_global.current_rom ow_global.last_discrepancy 64 final := by
  refine searchBits_spec resumes ?_ le_rfl
  exact {
    resumed := rfl
    bus := rfl
    slot := rfl
    searching := fun device => (and_iff_left fun k none => absurd none (Nat.not_lt_zero k)).symm
    some := present
    ahead := fun k _ => rfl
    kept := fun k none => absurd none (Nat.not_lt_zero k)
    turned := fun k none => absurd none (Nat.not_lt_zero k)
    zeros := fun k none => absurd none (Nat.not_lt_zero k)
    discrepancy := fun k none => absurd none (Nat.not_lt_zero k) }

/-- The first search finds the least code. -/
theorem owSearchRom_first (ow_global : OwGlobal) {bus : Bus} (present : bus.devices.Nonempty) :
    ∃ found after, owSearchRom true ow_global bus = (1, found, after) ∧
      after.devices = bus.devices ∧ Finds bus.devices found ∧
      ∀ code ∈ codes bus.devices, found.current_rom.code ≤ code := by
  obtain ⟨final, loop, searched⟩ :=
    searchBits_of_resumes ⟨-1, ⟨.replicate 8 0⟩⟩ present (.inl rfl)
  have answered : (resetOnewire bus).1 = true := decide_eq_true present
  refine ⟨_, _, ?_, searched.bus, searched.finds, fun code inside => ?_⟩
  · simp [owSearchRom, answered, loop]
  · exact (searched.zerosFrom (by decide)).le inside
      fun k none => absurd none (Nat.not_lt_zero k)

/-- A further search finds the next code, or there was none left. -/
theorem owSearchRom_next {ow_global : OwGlobal} {bus : Bus} (finds : Finds bus.devices ow_global) :
    owSearchRom false ow_global bus = (0, ow_global, bus) ∧
        (∀ code ∈ codes bus.devices, code ≤ ow_global.current_rom.code) ∨
      ∃ found after, owSearchRom false ow_global bus = (1, found, after) ∧
        after.devices = bus.devices ∧ Finds bus.devices found ∧
        Next (codes bus.devices) ow_global.current_rom.code found.current_rom.code := by
  obtain ⟨mem, ⟨nowhere, last⟩ | ⟨branch, is, last⟩⟩ := finds
  · left
    have negative : ow_global.last_discrepancy < 0 := by
      rw [Int8.lt_iff_toInt_lt, nowhere]
      decide
    refine ⟨by simp [owSearchRom, negative], fun code inside => ?_⟩
    refine le_of_not_branches (fun k => ?_) inside
    rcases Nat.lt_or_ge k 64 with inside | outside
    · exact last k inside
    · exact not_branches_of_ge outside
  · right
    have positive : ¬ow_global.last_discrepancy < 0 := by
      rw [Int8.lt_iff_toInt_lt, is]
      exact not_lt.mpr (Int.natCast_nonneg branch)
    have present : bus.devices.Nonempty := ⟨_, mem⟩
    have answered : (resetOnewire bus).1 = true := decide_eq_true present
    obtain ⟨final, loop, searched⟩ :=
      searchBits_of_resumes ow_global present (.inr ⟨branch, last.1, is, mem, last⟩)
    refine ⟨_, _, ?_, searched.bus, searched.finds, ?_⟩
    · simp [owSearchRom, positive, answered, loop]
    · refine Next.of_last_branch last.2.1.1 (fun k beyond => ?_) (code_mem.mpr searched.finds.mem)
        (fun k before => ?_) ?_ (searched.zerosFrom (by omega))
      · rcases Nat.lt_or_ge k 64 with inside | outside
        · exact last.2.2 k inside beyond
        · exact not_branches_of_ge outside
      · exact searched.kept k (by have := last.1; omega) (by omega)
      · exact searched.turned branch last.1 is.symm

theorem searchNext_succ {ow_global next : OwGlobal} {bus after : Bus} {result : Int8}
    (search : owSearchRom false ow_global bus = (result, next, after)) (count : Nat) :
    searchNext (count + 1) ow_global bus = (result, next.current_rom) :: searchNext count next after := by
  rw [searchNext, search]

/-- Once a search found nothing, none finds anything. -/
theorem searchNext_done {ow_global : OwGlobal} {bus : Bus}
    (search : owSearchRom false ow_global bus = (0, ow_global, bus)) (further : Nat) :
    searchNext further ow_global bus = List.replicate further (0, ow_global.current_rom) := by
  induction further with
  | zero => rfl
  | succ further ih => rw [searchNext_succ search, ih, List.replicate_succ]

/-- Further searches find the rest of the codes, and nothing from then on.  By induction on how
many codes there may be left. -/
theorem searchNext_spec {ow_global : OwGlobal} {bus : Bus} (found : List OwRomCode) (count : Nat)
    (finds : Finds bus.devices ow_global)
    (before : Found (codes bus.devices) ow_global.current_rom.code (found.map OwRomCode.code))
    (enough : bus.devices.card < found.length + count) :
    ∃ (rest : List OwRomCode) (last : OwRomCode),
      (found ++ rest).Nodup ∧ (∀ rom, rom ∈ found ++ rest ↔ rom ∈ bus.devices) ∧
      ∀ further, searchNext (rest.length + further) ow_global bus =
        rest.map (fun code => (1, code)) ++ List.replicate further (0, last) := by
  induction count generalizing ow_global bus found with
  | zero =>
      have few := before.length_le
      rw [List.length_map, codes, Finset.card_image_of_injective _ OwRomCode.code_injective] at few
      omega
  | succ count ih =>
      rcases owSearchRom_next finds with ⟨search, last⟩ | ⟨next, after, search, same, finds, step⟩
      · have mem (rom : OwRomCode) : rom ∈ found ↔ rom ∈ bus.devices := by
          rw [← code_mem, ← before.toFinset last, List.mem_toFinset,
            List.mem_map_of_injective OwRomCode.code_injective]
        refine ⟨[], ow_global.current_rom, ?_, fun rom => ?_, fun further => ?_⟩
        · rw [List.append_nil]
          exact before.nodup.of_map _
        · rw [List.append_nil, mem]
        · rw [List.length_nil, Nat.zero_add, searchNext_done search, List.map_nil, List.nil_append]
      · have advanced := before.advance step
        rw [← same] at finds advanced enough
        rw [show [next.current_rom.code] = [next.current_rom].map OwRomCode.code from rfl,
          ← List.map_append] at advanced
        obtain ⟨rest, last, nodup, mem, run⟩ := ih _ finds advanced (by
          rw [List.length_append, List.length_singleton]
          omega)
        rw [List.append_assoc] at nodup
        refine ⟨next.current_rom :: rest, last, nodup, fun rom => ?_, fun further => ?_⟩
        · rw [← same, ← mem, List.append_assoc]
          rfl
        · rw [List.length_cons, Nat.add_right_comm, searchNext_succ search, run, List.map_cons,
            List.cons_append]

end Ethersex.Onewire
