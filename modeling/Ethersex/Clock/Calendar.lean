import Mathlib
import Ethersex.Library.Calendar
import Ethersex.Clock.Dates

/-!
# Dates of timestamps

The date that `clock_datetime` computes is that of the calendar, but for one month of a leap year: the
leap day is added to March.
-/

namespace Ethersex.Clock

open Library.Calendar

/-- The fields of a moment. -/
def datetimeOf (moment : Moment) : Datetime where
  sec := UInt8.ofNat moment.second
  min := UInt8.ofNat moment.minute
  hour := UInt8.ofNat moment.hour
  day := UInt8.ofNat moment.date.day
  month := UInt8.ofNat moment.date.month
  dow := UInt8.ofNat moment.date.weekday
  year := UInt8.ofNat (moment.date.year - 1900)

/-- From the leap day to the end of March. -/
def InLeapMarch (date : Date) : Prop :=
  isLeap date.year = true ∧ (date.month = 2 ∧ date.day = 29 ∨ date.month = 3)

/-! ## Years -/

theorem isLeapYear_eq (year : Nat) : isLeapYear year = isLeap year := rfl

/-- One pass of the loop over the years: a whole year is taken off. -/
theorem fillYears_succ (passes : Nat) (days year : UInt16) :
    fillYears (passes + 1) days year =
      if days.toNat < yearLength (isLeap year.toNat) then (days, year)
      else fillYears passes (UInt16.ofNat (days.toNat - yearLength (isLeap year.toNat))) (year + 1) := by
  have bound : days < 365 ↔ days.toNat < 365 := UInt16.lt_iff_toNat_lt
  rw [fillYears, isLeapYear_eq, yearLength]
  by_cases leap : isLeap year.toNat = true
  · have last : days = 365 ↔ days.toNat = 365 := UInt16.toNat_inj.symm
    simp only [leap, if_true, bound, last]
    by_cases short : days.toNat < 365
    · rw [if_pos short, if_pos (Nat.lt_succ_of_lt short)]
    · rw [if_neg short]
      by_cases whole : days.toNat = 365
      · rw [if_pos whole, if_pos (by rw [whole]; decide)]
      · rw [if_neg whole, if_neg (by omega)]
        have more : 366 ≤ days.toNat := by omega
        rw [UInt16.ofNat_sub more, UInt16.ofNat_toNat, sub_sub]
        rfl
  · simp only [Bool.not_eq_true] at leap
    simp only [leap, Bool.false_eq_true, if_false, bound]
    split_ifs with short
    · rfl
    · rw [UInt16.ofNat_sub (Nat.not_lt.mp short), UInt16.ofNat_toNat]
      rfl

theorem fillYears_eq {passes : Nat} {days year : UInt16} {last rest : Nat}
    (split : daysBeforeYear last + rest = daysBeforeYear year.toNat + days.toNat)
    (positive : 1 ≤ year.toNat) (le : year.toNat ≤ last) (fits : last < 65536)
    (within : rest < yearLength (isLeap last)) (enough : last ≤ year.toNat + passes) :
    fillYears passes days year = (UInt16.ofNat rest, UInt16.ofNat last) := by
  induction passes generalizing days year with
  | zero =>
      obtain rfl := Nat.le_antisymm le enough
      rw [Nat.add_left_cancel split]
      simp [fillYears]
  | succ passes ih =>
      rw [fillYears_succ]
      obtain rfl | more := Nat.eq_or_lt_of_le le
      · obtain rfl := Nat.add_left_cancel split
        rw [if_pos within]
        simp
      · have years := daysBeforeYear_mono (Nat.succ_pos year.toNat) more
        rw [daysBeforeYear_succ positive] at years
        have next : (year + 1).toNat = year.toNat + 1 := by
          rw [UInt16.toNat_add]
          exact Nat.mod_eq_of_lt (Nat.lt_of_le_of_lt more fits)
        have left : (UInt16.ofNat (days.toNat - yearLength (isLeap year.toNat))).toNat =
            days.toNat - yearLength (isLeap year.toNat) :=
          UInt16.toNat_ofNat_of_lt' (Nat.lt_of_le_of_lt (Nat.sub_le _ _) days.toNat_lt)
        rw [if_neg (by omega)]
        refine ih ?_ ?_ ?_ ?_
        · rw [next, daysBeforeYear_succ positive, left]
          omega
        · rw [next]
          exact Nat.succ_pos _
        · rw [next]
          exact more
        · rw [next]
          omega

/-! ## Months -/

theorem fillMonths_congr {year other : UInt16} (same : isLeapYear year.toNat = isLeapYear other.toNat)
    (lengths : List UInt8) (month : UInt8) (days : UInt16) :
    fillMonths year lengths month days = fillMonths other lengths month days := by
  induction lengths generalizing month days with
  | nil => rfl
  | cons length rest ih =>
      rw [fillMonths, fillMonths, same]
      simp only [ih]

/-- The loop over the months finds the month and the day, but from the leap day to the end of March. -/
theorem fillMonths_iff : ∀ leap : Bool, ∀ month : Fin 13, ∀ day : Fin 32,
    1 ≤ month.val ∧ 1 ≤ day.val ∧ day.val ≤ monthLength leap month →
    ((fillMonths (if leap then 1972 else 1970) months 0
        (UInt16.ofNat (daysBeforeMonth leap month + day - 1))).map
          (fun (month, left) => (month + 1, left.toUInt8 + 1)) =
        some (UInt8.ofNat month, UInt8.ofNat day) ↔
      ¬(leap = true ∧ (month.val = 2 ∧ day.val = 29 ∨ month.val = 3))) := by
  decide

/-! ## Timestamps -/

section Timestamps

variable (timestamp : UInt32)

/-- The date of a timestamp. -/
def dateAt : Date := (momentAfter timestamp.toNat).date

theorem ordinal_dateAt : (dateAt timestamp).ordinal = 719163 + timestamp.toNat / 86400 :=
  ordinal_momentAfter timestamp.toNat

theorem year_dateAt : 1970 ≤ (dateAt timestamp).year ∧ (dateAt timestamp).year ≤ 2106 := by
  have ordinal := ordinal_dateAt timestamp
  have small := timestamp.toNat_lt
  constructor
  · by_contra early
    have before : (dateAt timestamp).ordinal < epoch.ordinal :=
      Date.ordinal_lt_of_year (Nat.not_le.mp early)
    rw [epoch_ordinal] at before
    omega
  · by_contra late
    have behind : (⟨2106, 12, 31, by decide, by decide, by decide⟩ : Date).ordinal <
        (dateAt timestamp).ordinal := Date.ordinal_lt_of_year (Nat.not_le.mp late)
    have last : (⟨2106, 12, 31, by decide, by decide, by decide⟩ : Date).ordinal = 769200 := by
      decide
    omega

theorem daysBeforeYear_add {year : Nat} (positive : 1 ≤ year) (count : Nat) :
    daysBeforeYear year + 365 * count ≤ daysBeforeYear (year + count) := by
  induction count with
  | zero => exact le_rfl
  | succ count ih =>
      have length : 365 ≤ yearLength (isLeap (year + count)) := by
        unfold yearLength
        split_ifs <;> decide
      have next := daysBeforeYear_succ (Nat.le_add_right_of_le positive : 1 ≤ year + count)
      rw [← Nat.add_assoc, next, Nat.mul_succ, ← Nat.add_assoc]
      exact Nat.add_le_add ih length

theorem fillYears_dateAt :
    fillYears (timestamp.toNat / 86400 / 365) (UInt16.ofNat (timestamp.toNat / 86400)) epochYear =
      (UInt16.ofNat ((dateAt timestamp).dayOfYear - 1), UInt16.ofNat (dateAt timestamp).year) := by
  obtain ⟨late, early⟩ := year_dateAt timestamp
  have ordinal := ordinal_dateAt timestamp
  have small := timestamp.toNat_lt
  have start : daysBeforeYear 1970 = 719162 := rfl
  have first : 1 ≤ (dateAt timestamp).dayOfYear := (dateAt timestamp).day_mem.1.trans (Nat.le_add_left _ _)
  have whole := (dateAt timestamp).dayOfYear_le
  have start' : epochYear.toNat = 1970 := rfl
  have few : timestamp.toNat / 86400 < 65536 := by omega
  have days : (UInt16.ofNat (timestamp.toNat / 86400)).toNat = timestamp.toNat / 86400 :=
    UInt16.toNat_ofNat_of_lt' few
  have years := daysBeforeYear_add (by decide : 1 ≤ 1970) ((dateAt timestamp).year - 1970)
  rw [Nat.add_sub_cancel' late] at years
  rw [Date.ordinal] at ordinal
  refine fillYears_eq ?_ (by decide) late (Nat.lt_of_le_of_lt early (by decide)) ?_ ?_
  · rw [days, start']
    omega
  · omega
  · rw [start']
    omega

/-- What `clock_datetime` computes, up to the loop over the months. -/
theorem clockDatetime_eq :
    clockDatetime timestamp =
      (fillMonths (UInt16.ofNat (dateAt timestamp).year) months 0
        (UInt16.ofNat ((dateAt timestamp).dayOfYear - 1))).map fun (month, left) =>
          { datetimeOf (momentAfter timestamp.toNat) with
            day := left.toUInt8 + 1
            month := month + 1 } := by
  have small := timestamp.toNat_lt
  obtain ⟨late, early⟩ := year_dateAt timestamp
  have ordinal := ordinal_dateAt timestamp
  have days : (timestamp / 60 / 60 / 24).toUInt16 = UInt16.ofNat (timestamp.toNat / 86400) := by
    apply UInt16.toNat_inj.mp
    simp [Nat.div_div_eq_div_mul]
  have many : (UInt16.ofNat (timestamp.toNat / 86400)).toNat = timestamp.toNat / 86400 := by
    have few : timestamp.toNat / 86400 < 65536 := by omega
    exact UInt16.toNat_ofNat_of_lt' few
  have second : (timestamp % 60).toUInt8 = UInt8.ofNat (timestamp.toNat % 60) := by
    apply UInt8.toNat_inj.mp
    simp
  have minute : (timestamp / 60 % 60).toUInt8 = UInt8.ofNat (timestamp.toNat / 60 % 60) := by
    apply UInt8.toNat_inj.mp
    simp
  have hour : (timestamp / 60 / 60 % 24).toUInt8 = UInt8.ofNat (timestamp.toNat / 3600 % 24) := by
    apply UInt8.toNat_inj.mp
    simp [Nat.div_div_eq_div_mul]
  have weekday : ((UInt16.ofNat (timestamp.toNat / 86400) + epochDow) % 7).toUInt8 =
      UInt8.ofNat (dateAt timestamp).weekday := by
    have dow : epochDow.toNat = 4 := rfl
    apply UInt8.toNat_inj.mp
    rw [Date.weekday, ordinal, UInt16.toNat_toUInt8, UInt16.toNat_mod, UInt16.toNat_add, many, dow,
      UInt8.toNat_ofNat']
    have seven : (7 : UInt16).toNat = 7 := rfl
    rw [seven]
    omega
  have year : (UInt16.ofNat (dateAt timestamp).year - 1900).toUInt8 =
      UInt8.ofNat ((dateAt timestamp).year - 1900) := by
    have later : 1900 ≤ (dateAt timestamp).year := by omega
    have offset : (1900 : UInt16) = UInt16.ofNat 1900 := rfl
    rw [offset, ← UInt16.ofNat_sub later]
    apply UInt8.toNat_inj.mp
    simp
  rw [clockDatetime]
  simp only [days, many, fillYears_dateAt timestamp, second, minute, hour, weekday, year]
  rfl

/-- `clock_datetime` finds the date of every timestamp but of those from a leap day to the end of its
March. -/
theorem clockDatetime_iff :
    clockDatetime timestamp = some (datetimeOf (momentAfter timestamp.toNat)) ↔
      ¬InLeapMarch (momentAfter timestamp.toNat).date := by
  change _ ↔ ¬InLeapMarch (dateAt timestamp)
  obtain ⟨first, last⟩ := (dateAt timestamp).month_mem
  obtain ⟨start, length⟩ := (dateAt timestamp).day_mem
  obtain ⟨late, early⟩ := year_dateAt timestamp
  have short : (dateAt timestamp).day < 32 := Nat.lt_succ_of_le (length.trans (monthLength_le _ _))
  have year : (UInt16.ofNat (dateAt timestamp).year).toNat = (dateAt timestamp).year := by
    have few : (dateAt timestamp).year < 65536 := by omega
    exact UInt16.toNat_ofNat_of_lt' few
  have sameLeap : isLeapYear (UInt16.ofNat (dateAt timestamp).year).toNat =
      isLeapYear (if isLeap (dateAt timestamp).year = true then 1972 else 1970 : UInt16).toNat := by
    rw [year, isLeapYear_eq]
    cases isLeap (dateAt timestamp).year <;> rfl
  have table := fillMonths_iff (isLeap (dateAt timestamp).year)
    ⟨(dateAt timestamp).month, Nat.lt_succ_of_le last⟩ ⟨(dateAt timestamp).day, short⟩
    ⟨first, start, length⟩
  rw [clockDatetime_eq, fillMonths_congr sameLeap, InLeapMarch, ← table, Date.dayOfYear]
  generalize fillMonths _ months 0 _ = found
  cases found with
  | none => exact iff_of_false (by simp) (by simp)
  | some found =>
      obtain ⟨month, left⟩ := found
      simp only [Option.map_some, Option.some.injEq, Prod.mk.injEq, Datetime.mk.injEq, datetimeOf, true_and,
        and_true, dateAt]
      tauto

end Timestamps

/-- The leap day of the year 2000. -/
theorem leapDay_wrong :
    clockDatetime 951782400 ≠ some (datetimeOf (momentAfter (951782400 : UInt32).toNat)) := by
  have day : (⟨2000, 2, 29, by decide, by decide, by decide⟩ : Date) = dateAt 951782400 := by
    apply Date.ordinal_injective
    rw [ordinal_dateAt]
    decide
  have found : (clockDatetime 951782400).map (fun date => date.month) = some 3 := by decide
  intro right
  rw [right, Option.map_some, Option.some.injEq] at found
  have month : (datetimeOf (momentAfter (951782400 : UInt32).toNat)).month =
      UInt8.ofNat (dateAt 951782400).month := rfl
  rw [month, ← day] at found
  exact absurd found (by decide)

end Ethersex.Clock
