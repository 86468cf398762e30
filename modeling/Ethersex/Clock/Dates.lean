import Mathlib
import Ethersex.Clock.Model

/-!
# Dates of timestamps

Every timestamp has a date: `clock_datetime` reads the table of month lengths inside its
bounds only.  Within a minute of the clock, dates differ in their seconds only.
-/

namespace Ethersex.Clock

/-! ## Years and months -/

def daysOfYear (leap : Bool) : Nat := if leap then 366 else 365

theorem daysOfYear_ge (leap : Bool) : 365 ≤ daysOfYear leap := by cases leap <;> decide

/-- The days left over are days of the year that is left over. -/
theorem fillYears_lt {passes : Nat} {days year : UInt16} (few : days.toNat < 365 * passes + 365) :
    (fillYears passes days year).1.toNat <
      daysOfYear (isLeapYear (fillYears passes days year).2.toNat) := by
  induction passes generalizing days year with
  | zero => exact Nat.lt_of_lt_of_le (by simpa [fillYears] using few) (daysOfYear_ge _)
  | succ passes ih =>
      rw [fillYears]
      by_cases below : days < 365
      · rw [if_pos below]
        exact Nat.lt_of_lt_of_le (UInt16.lt_iff_toNat_lt.mp below) (daysOfYear_ge _)
      rw [if_neg below]
      have many : 365 ≤ days.toNat := by
        rw [UInt16.not_lt] at below
        exact UInt16.le_iff_toNat_le.mp below
      by_cases leap : isLeapYear year.toNat
      · rw [if_pos leap]
        by_cases last : days = 365
        · rw [if_pos last, leap, last]
          exact (by decide : 365 < daysOfYear true)
        · rw [if_neg last]
          have more : days.toNat ≠ 365 := fun same => last (UInt16.toNat_inj.mp same)
          have first : (days - 1).toNat = days.toNat - 1 :=
            UInt16.toNat_sub_of_le _ _ (UInt16.le_iff_toNat_le.mpr (by simp; omega))
          have second : (days - 1 - 365).toNat = (days - 1).toNat - 365 :=
            UInt16.toNat_sub_of_le _ _ (UInt16.le_iff_toNat_le.mpr (by rw [first]; simp; omega))
          exact ih (by omega)
      · rw [if_neg leap]
        have less : (days - 365).toNat = days.toNat - 365 :=
          UInt16.toNat_sub_of_le _ _ (UInt16.le_iff_toNat_le.mpr many)
        exact ih (by omega)

/-- The days of the months from `month` on. -/
def daysOfMonths (leap : Bool) : List UInt8 → UInt8 → Nat
  | [], _ => 0
  | length :: rest, month =>
      (if month = 2 ∧ leap then length + 1 else length).toNat + daysOfMonths leap rest (month + 1)

theorem daysOfMonths_months (leap : Bool) : daysOfMonths leap months 0 = daysOfYear leap := by
  cases leap <;> decide

theorem fillMonths_isSome {year : UInt16} {lengths : List UInt8} {month : UInt8} {days : UInt16}
    (few : days.toNat < daysOfMonths (isLeapYear year.toNat) lengths month) :
    (fillMonths year lengths month days).isSome := by
  induction lengths generalizing month days with
  | nil => exact absurd few (Nat.not_lt_zero _)
  | cons length rest ih =>
      rw [fillMonths]
      rw [daysOfMonths] at few
      generalize (if month = 2 ∧ isLeapYear year.toNat then length + 1 else length) = monthdays at *
      by_cases fits : days < monthdays.toUInt16
      · rw [if_pos fits]
        rfl
      · rw [if_neg fits]
        have enough := UInt16.not_lt.mp fits
        refine ih ?_
        rw [UInt16.toNat_sub_of_le _ _ enough, UInt8.toNat_toUInt16]
        rw [UInt16.le_iff_toNat_le, UInt8.toNat_toUInt16] at enough
        omega

/-! ## Dates -/

theorem clockDatetime_isSome (timestamp : UInt32) : (clockDatetime timestamp).isSome := by
  rw [clockDatetime, Option.isSome_map]
  refine fillMonths_isSome ?_
  rw [daysOfMonths_months]
  exact fillYears_lt (by omega)

theorem clockDatetime_sec {timestamp : UInt32} {date : Datetime}
    (is : clockDatetime timestamp = some date) : date.sec = (timestamp % 60).toUInt8 := by
  rw [clockDatetime, Option.map_eq_some_iff] at is
  obtain ⟨_, -, rfl⟩ := is
  rfl

/-- Timestamps of one minute have the same date up to the seconds, which are those of the
timestamp. -/
theorem clockDatetime_minute {first second : UInt32} (same : first / 60 = second / 60) :
    ∃ date other, clockDatetime first = some date ∧ clockDatetime second = some other ∧
      { date with sec := 0 } = { other with sec := 0 } ∧ date.sec = (first % 60).toUInt8 := by
  obtain ⟨date, is⟩ := Option.isSome_iff_exists.mp (clockDatetime_isSome first)
  obtain ⟨other, is'⟩ := Option.isSome_iff_exists.mp (clockDatetime_isSome second)
  have minute : (clockDatetime first).map (fun date => { date with sec := 0 }) =
      (clockDatetime second).map fun date => { date with sec := 0 } := by
    simp only [clockDatetime, same, Option.map_map]
    rfl
  rw [is, is', Option.map_some, Option.map_some, Option.some.injEq] at minute
  exact ⟨date, other, is, is', minute, clockDatetime_sec is⟩

/-! ## Local time -/

theorem localOffset_eq (date : Datetime) : localOffset date = 3600 ∨ localOffset date = 7200 := by
  unfold localOffset
  dsimp only
  split_ifs <;> simp

/-- The offset does not depend on the seconds. -/
theorem localOffset_congr {first second : Datetime}
    (same : { first with sec := 0 } = { second with sec := 0 }) :
    localOffset first = localOffset second := by
  simp only [Datetime.mk.injEq, true_and] at same
  simp only [localOffset, same]

/-- The local time does not pass the end of the counter. -/
def LocalFits (timestamp : UInt32) : Prop :=
  ∀ date, clockDatetime timestamp = some date →
    timestamp.toNat + (localOffset date).toNat < 2 ^ 32

theorem localFits_of_early {timestamp : UInt32} (early : timestamp.toNat + 7200 < 2 ^ 32) :
    LocalFits timestamp := by
  intro date _
  rcases localOffset_eq date with is | is <;> rw [is]
  · exact Nat.lt_of_le_of_lt (Nat.add_le_add_left (by decide) _) early
  · exact early

/-- Timestamps of one minute have the same local date up to the seconds, which are those
of the timestamp. -/
theorem clockLocaltime_minute {first second : UInt32} (same : first / 60 = second / 60)
    (le : second ≤ first) (fits : LocalFits first) :
    ∃ date other, clockLocaltime true first = some date ∧ clockLocaltime true second = some other ∧
      { date with sec := 0 } = { other with sec := 0 } ∧ date.sec = (first % 60).toUInt8 := by
  obtain ⟨utc, utc', isUtc, isUtc', minute, -⟩ := clockDatetime_minute same
  have offset := localOffset_congr minute
  have below := fits utc isUtc
  have whole : (localOffset utc).toNat % 60 = 0 := by
    rcases localOffset_eq utc with is | is <;> rw [is] <;> rfl
  have quotients : first.toNat / 60 = second.toNat / 60 := by
    simpa using congrArg UInt32.toNat same
  have later : (first + localOffset utc).toNat = first.toNat + (localOffset utc).toNat := by
    rw [UInt32.toNat_add, Nat.mod_eq_of_lt below]
  have earlier : (second + localOffset utc).toNat = second.toNat + (localOffset utc).toNat := by
    rw [UInt32.toNat_add, Nat.mod_eq_of_lt (by rw [UInt32.le_iff_toNat_le] at le; omega)]
  have sixty : (60 : UInt32).toNat = 60 := rfl
  have shifted : (first + localOffset utc) / 60 = (second + localOffset utc) / 60 := by
    rw [← UInt32.toNat_inj, UInt32.toNat_div, UInt32.toNat_div, later, earlier, sixty]
    omega
  have seconds : (first + localOffset utc) % 60 = first % 60 := by
    rw [← UInt32.toNat_inj, UInt32.toNat_mod, UInt32.toNat_mod, later, sixty]
    omega
  rw [← seconds]
  simp only [clockLocaltime, if_true, isUtc, isUtc', Option.bind_some, ← offset]
  exact clockDatetime_minute shifted

end Ethersex.Clock
