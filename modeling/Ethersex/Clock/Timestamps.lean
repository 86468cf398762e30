import Mathlib
import Ethersex.Clock.Calendar

/-!
# Timestamps of dates

What `clock_utc2timestamp` computes for the dates of this century, and that none of its integers
overflows on the way.
-/

namespace Ethersex.Clock

open Library.Calendar

/-! ## Checked arithmetic -/

/-- A value that an unsigned integer of so many bits can hold. -/
def checked (bits : Nat) (value : Int) : Option Int :=
  if 0 ≤ value ∧ value < 2 ^ bits then some value else none

/-- The loop of `clock_utc2timestamp` over the months. -/
def addMonths (behind : Nat → UInt8) (year : UInt8) : Nat → Int → Option Int
  | 0, timestamp => some timestamp
  | month + 1, timestamp => do
      let length := months.getD month (behind month)
      let monthdays ← checked 8
        (if month + 1 = 2 ∧ isLeapYear year.toNat then length.toNat + 1 else length.toNat)
      let seconds ← checked 64 (monthdays * 86400)
      let timestamp ← checked 32 (timestamp + seconds)
      addMonths behind year month timestamp

/-- The loop over the years. -/
def addYears : Nat → Nat → Int → Option Int
  | 0, _, timestamp => some timestamp
  | count + 1, year, timestamp => do
      let timestamp ← checked 32 (timestamp + if isLeapYear year then 31622400 else 31536000)
      let _ ← checked 16 (year + 1)
      addYears count (year + 1) timestamp

/-- `clock_utc2timestamp`; `none` as soon as a value does not fit its integer.  An `int` has 16 bits. -/
def utc2timestampChecked (behind : Nat → UInt8) (d : Datetime) (cest : UInt8) : Option Int := do
  let timestamp ← checked 32 d.sec.toNat
  let minutes ← checked 15 (d.min.toNat * 60)
  let timestamp ← checked 32 (timestamp + minutes)
  let hours ← checked 64 (d.hour.toNat * 3600)
  let timestamp ← checked 32 (timestamp + hours)
  let days ← checked 64 (d.day.toNat * 86400)
  let days ← checked 64 (days - 86400)
  let timestamp ← checked 32 (timestamp + days)
  let month ← checked 8 (d.month.toNat - 1)
  let timestamp ← addMonths behind d.year month.toNat timestamp
  let last ← checked 15 (d.year.toNat + 2000)
  let timestamp ← addYears (last.toNat - epochYear.toNat) epochYear.toNat timestamp
  checked 32 (timestamp - if cest = 0 then 3600 else 7200)

theorem checked_eq {bits : Nat} {value : Int} (lower : 0 ≤ value) (upper : value < 2 ^ bits) :
    checked bits value = some value := if_pos ⟨lower, upper⟩

theorem toUInt32_ofNat {value : Nat} (small : value < 256) :
    (UInt8.ofNat value).toUInt32 = UInt32.ofNat value := by
  apply UInt32.toNat_inj.mp
  rw [UInt8.toNat_toUInt32, UInt8.toNat_ofNat', UInt32.toNat_ofNat']
  omega

/-! ## Months and years -/

section Sums

variable {behind : Nat → UInt8} {year : UInt8} {leap : Bool}

/-- The days of a month in the table, with the leap day. -/
theorem monthdays_eq (same : isLeapYear year.toNat = leap) {month : Nat} (small : month < 12) :
    (if month + 1 = 2 ∧ isLeapYear year.toNat then (months.getD month (behind month)).toNat + 1
      else (months.getD month (behind month)).toNat) = monthLength leap (month + 1) ∧
    (if month + 1 = 2 ∧ isLeapYear year.toNat then months.getD month (behind month) + 1
      else months.getD month (behind month)) = UInt8.ofNat (monthLength leap (month + 1)) := by
  have length : months.length = 12 := rfl
  have inside : months.getD month (behind month) = months.getD month 0 := by
    rw [List.getD_eq_getElem _ _ (length ▸ small), List.getD_eq_getElem _ _ (length ▸ small)]
  rw [inside, same]
  have table : ∀ leap : Bool, ∀ month : Fin 12,
      (if month.val + 1 = 2 ∧ leap = true then (months.getD month 0).toNat + 1
        else (months.getD month 0).toNat) = monthLength leap (month + 1) ∧
      (if month.val + 1 = 2 ∧ leap = true then months.getD month 0 + 1 else months.getD month 0) =
        UInt8.ofNat (monthLength leap (month + 1)) := by decide
  exact table leap ⟨month, small⟩

/-- The loop over the months adds the days before the month. -/
theorem addMonths_eq (same : isLeapYear year.toNat = leap) {month : Nat} (small : month ≤ 12)
    {timestamp : Int} (positive : 0 ≤ timestamp)
    (fits : timestamp + 86400 * daysBeforeMonth leap (month + 1) < 2 ^ 32) :
    addMonths behind year month timestamp =
      some (timestamp + 86400 * daysBeforeMonth leap (month + 1)) := by
  induction month generalizing timestamp with
  | zero => simp [addMonths, daysBeforeMonth]
  | succ month ih =>
      obtain ⟨days, -⟩ := @monthdays_eq behind year leap same month small
      have length := monthLength_le leap (month + 1)
      have start : 1 ≤ month + 1 := Nat.succ_pos month
      rw [daysBeforeMonth_succ leap start, Nat.cast_add] at fits ⊢
      have next : (if month + 1 = 2 ∧ isLeapYear year.toNat = true then
          ((months.getD month (behind month)).toNat : Int) + 1
          else ((months.getD month (behind month)).toNat : Int)) =
          (monthLength leap (month + 1) : Int) := by
        rw [← days]
        split_ifs <;> simp
      simp only [addMonths, next, Option.bind_eq_bind]
      rw [checked_eq (Int.natCast_nonneg _) (by norm_num; omega), Option.bind_some,
        checked_eq (by omega) (by norm_num; omega), Option.bind_some,
        checked_eq (by omega) (by omega), Option.bind_some,
        ih (Nat.le_of_succ_le small) (by omega) (by omega)]
      congr 1
      ring

theorem secondsOfYear (leap : Bool) :
    (if leap then 31622400 else 31536000 : Int) = 86400 * (yearLength leap : Int) := by
  cases leap <;> rfl

/-- The loop over the years adds the days of the years. -/
theorem addYears_eq {count first : Nat} {timestamp : Int} (positive : 1 ≤ first)
    (small : first + count < 2 ^ 16) (nonneg : 0 ≤ timestamp)
    (fits : timestamp + 86400 * ((daysBeforeYear (first + count) : Int) - daysBeforeYear first) <
      2 ^ 32) :
    addYears count first timestamp =
      some (timestamp + 86400 * ((daysBeforeYear (first + count) : Int) - daysBeforeYear first)) := by
  induction count generalizing first timestamp with
  | zero => simp [addYears]
  | succ count ih =>
      have next := daysBeforeYear_succ positive
      have start : 1 ≤ first + 1 := Nat.succ_pos first
      have later := daysBeforeYear_mono start (Nat.le_add_right (first + 1) count)
      have shift : first + (count + 1) = first + 1 + count := by omega
      have seconds : (if isLeapYear first then 31622400 else 31536000 : Int) =
          86400 * yearLength (isLeap first) :=
        secondsOfYear (isLeap first)
      rw [shift] at fits small ⊢
      simp only [addYears, seconds, Option.bind_eq_bind]
      rw [checked_eq (by omega) (by omega), Option.bind_some, checked_eq (by omega) (by omega),
        Option.bind_some, ih start small (by omega) (by omega), next]
      congr 1
      push_cast
      ring

/-- The same in the integers of the code. -/
theorem secondsOfMonths_eq (same : isLeapYear year.toNat = leap) {month : Nat} (small : month ≤ 12) :
    secondsOfMonths behind year month = UInt32.ofNat (86400 * daysBeforeMonth leap (month + 1)) := by
  induction month with
  | zero => rfl
  | succ month ih =>
      obtain ⟨-, days⟩ := @monthdays_eq behind year leap same month small
      have start : 1 ≤ month + 1 := Nat.succ_pos month
      have bound := monthLength_le leap (month + 1)
      have fits : (UInt8.ofNat (monthLength leap (month + 1))).toUInt32 =
          UInt32.ofNat (monthLength leap (month + 1)) :=
        toUInt32_ofNat (by omega)
      have factor : (86400 : UInt32) = UInt32.ofNat 86400 := rfl
      simp only [secondsOfMonths, days, fits]
      rw [ih (Nat.le_of_succ_le small), factor, ← UInt32.ofNat_mul, ← UInt32.ofNat_add,
        daysBeforeMonth_succ leap start]
      congr 1
      ring

theorem secondsOfYears_eq {count first : Nat} (positive : 1 ≤ first) :
    secondsOfYears count first =
      UInt32.ofNat (86400 * (daysBeforeYear (first + count) - daysBeforeYear first)) := by
  induction count generalizing first with
  | zero => simp [secondsOfYears]
  | succ count ih =>
      have start : 1 ≤ first + 1 := Nat.succ_pos first
      have next := daysBeforeYear_succ positive
      have later := daysBeforeYear_mono start (Nat.le_add_right (first + 1) count)
      have shift : first + (count + 1) = first + 1 + count := by omega
      have seconds : (if isLeapYear first then 31622400 else 31536000 : UInt32) =
          UInt32.ofNat (86400 * yearLength (isLeap first)) := by
        rw [isLeapYear_eq]
        cases isLeap first <;> rfl
      have days : daysBeforeYear (first + 1 + count) - daysBeforeYear first =
          yearLength (isLeap first) +
            (daysBeforeYear (first + 1 + count) - daysBeforeYear (first + 1)) := by
        omega
      rw [secondsOfYears, seconds, ih start, shift, days, Nat.mul_add, UInt32.ofNat_add]

end Sums

/-! ## Timestamps -/

section Timestamps

variable (behind : Nat → UInt8) (moment : Moment) (dow cest : UInt8)

/-- The fields of a moment of this century, as `clock_utc2timestamp` reads them. -/
def fieldsOf : Datetime where
  sec := UInt8.ofNat moment.second
  min := UInt8.ofNat moment.minute
  hour := UInt8.ofNat moment.hour
  day := UInt8.ofNat moment.date.day
  month := UInt8.ofNat moment.date.month
  dow := dow
  year := UInt8.ofNat (moment.date.year - 2000)

/-- What `clock_utc2timestamp` has to return: the seconds since the start of 1970, less one or two
hours. -/
def timestampOf : Int :=
  (moment.seconds : Int) - (momentAfter 0).seconds - if cest = 0 then 3600 else 7200

theorem isLeapYear_short : ∀ short : Fin 100,
    isLeapYear (UInt8.ofNat short).toNat = isLeap (2000 + short) := by
  decide

theorem fieldsOf_toNat :
    (fieldsOf moment dow).sec.toNat = moment.second ∧ (fieldsOf moment dow).min.toNat = moment.minute ∧
      (fieldsOf moment dow).hour.toNat = moment.hour ∧
      (fieldsOf moment dow).day.toNat = moment.date.day ∧
      (fieldsOf moment dow).month.toNat = moment.date.month := by
  have hour := moment.hour_lt
  have minute := moment.minute_lt
  have second := moment.second_lt
  have day := moment.date.day_mem.2.trans (monthLength_le _ _)
  have month := moment.date.month_mem.2
  have whole {value : Nat} (small : value < 256) : (UInt8.ofNat value).toNat = value :=
    UInt8.toNat_ofNat_of_lt' small
  exact ⟨whole (by omega), whole (by omega), whole (by omega), whole (by omega), whole (by omega)⟩

variable {moment}

theorem offset_eq :
    (if cest = 0 then 3600 else 7200 : UInt32) = UInt32.ofNat (if cest = 0 then 3600 else 7200) := by
  split_ifs <;> rfl

theorem year_fieldsOf (early : 2000 ≤ moment.date.year) (late : moment.date.year ≤ 2099) :
    (fieldsOf moment dow).year.toNat + 2000 = moment.date.year ∧
      isLeapYear (fieldsOf moment dow).year.toNat = isLeap moment.date.year := by
  have short : moment.date.year - 2000 < 100 := by omega
  have same := isLeapYear_short ⟨moment.date.year - 2000, short⟩
  have whole : (fieldsOf moment dow).year.toNat = moment.date.year - 2000 :=
    UInt8.toNat_ofNat_of_lt' (Nat.lt_of_lt_of_le short (by decide))
  rw [Nat.add_sub_cancel' early] at same
  exact ⟨by omega, same⟩

/-- The seconds up to the start of the month. -/
theorem secondsOfFields_eq :
    (fieldsOf moment dow).sec.toUInt32 + (fieldsOf moment dow).min.toUInt32 * 60 +
        (fieldsOf moment dow).hour.toUInt32 * 3600 +
        ((fieldsOf moment dow).day.toUInt32 * 86400 - 86400) =
      UInt32.ofNat (moment.second + moment.minute * 60 + moment.hour * 3600 +
        (moment.date.day * 86400 - 86400)) := by
  have hour := moment.hour_lt
  have minute := moment.minute_lt
  have second := moment.second_lt
  obtain ⟨first, last⟩ := moment.date.day_mem
  have day := last.trans (monthLength_le _ _)
  have ofDay : (86400 : UInt32) = UInt32.ofNat 86400 := rfl
  have ofHour : (3600 : UInt32) = UInt32.ofNat 3600 := rfl
  have ofMinute : (60 : UInt32) = UInt32.ofNat 60 := rfl
  simp only [fieldsOf]
  rw [toUInt32_ofNat (by omega), toUInt32_ofNat (by omega), toUInt32_ofNat (by omega),
    toUInt32_ofNat (by omega), ofDay, ofHour, ofMinute, UInt32.ofNat_add, UInt32.ofNat_add,
    UInt32.ofNat_add, UInt32.ofNat_sub (by omega), UInt32.ofNat_mul, UInt32.ofNat_mul, UInt32.ofNat_mul]

/-- The timestamp by the fields of the date. -/
theorem timestampOf_eq :
    timestampOf moment cest =
      moment.second + moment.minute * 60 + moment.hour * 3600 + (moment.date.day * 86400 - 86400) +
        86400 * daysBeforeMonth (isLeap moment.date.year) moment.date.month +
        86400 * ((daysBeforeYear moment.date.year : Int) - daysBeforeYear 1970) -
        if cest = 0 then 3600 else 7200 := by
  have start : daysBeforeYear 1970 = 719162 := by decide
  rw [timestampOf, seconds_momentAfter, Moment.seconds, Date.ordinal, Date.dayOfYear, start]
  push_cast
  ring

theorem timestampOf_mem (early : 2000 ≤ moment.date.year) (late : moment.date.year ≤ 2099) :
    0 ≤ timestampOf moment cest ∧ timestampOf moment cest + 7200 < 2 ^ 32 := by
  have before : moment.date.ordinal < (⟨2100, 1, 1, by decide, by decide, by decide⟩ : Date).ordinal :=
    Date.ordinal_lt_of_year (Nat.lt_succ_of_le late)
  have behind : (⟨1999, 12, 31, by decide, by decide, by decide⟩ : Date).ordinal < moment.date.ordinal :=
    Date.ordinal_lt_of_year early
  have last : (⟨2100, 1, 1, by decide, by decide, by decide⟩ : Date).ordinal = 766645 := by decide
  have first : (⟨1999, 12, 31, by decide, by decide, by decide⟩ : Date).ordinal = 730119 := by decide
  have hour := moment.hour_lt
  have minute := moment.minute_lt
  have second := moment.second_lt
  rw [timestampOf, seconds_momentAfter, Moment.seconds]
  split_ifs <;> omega

/-- No integer overflows, and the last one holds the seconds. -/
theorem utc2timestampChecked_eq (early : 2000 ≤ moment.date.year) (late : moment.date.year ≤ 2099) :
    utc2timestampChecked behind (fieldsOf moment dow) cest = some (timestampOf moment cest) := by
  obtain ⟨nonneg, fits⟩ := timestampOf_mem cest early late
  obtain ⟨sec, min, hour, day, month⟩ := fieldsOf_toNat moment dow
  obtain ⟨year, leap⟩ := year_fieldsOf dow early late
  obtain ⟨before, is⟩ := Nat.exists_eq_add_of_le' moment.date.month_mem.1
  obtain ⟨start, length⟩ := moment.date.day_mem
  have few := moment.date.month_mem.2
  have short := length.trans (monthLength_le _ _)
  have hours := moment.hour_lt
  have minutes := moment.minute_lt
  have seconds := moment.second_lt
  have since : epochYear.toNat = 1970 := rfl
  have years : 1970 + (moment.date.year - 1970) = moment.date.year := by omega
  have reached : 1970 ≤ moment.date.year := early.trans' (by decide)
  have grown := daysBeforeYear_mono (by decide : 1 ≤ 1970) reached
  have lastMonth : ((moment.date.month : Int) - 1).toNat = before := by omega
  have lastYear : ((moment.date.year : Int)).toNat - 1970 = moment.date.year - 1970 := by omega
  have yearInt : ((fieldsOf moment dow).year.toNat : Int) + 2000 = moment.date.year := by omega
  rw [timestampOf_eq] at nonneg fits ⊢
  simp only [utc2timestampChecked, sec, min, hour, day, month, since, yearInt, Option.bind_eq_bind]
  have offset : 0 ≤ (if cest = 0 then 3600 else 7200 : Int) ∧
      (if cest = 0 then 3600 else 7200 : Int) ≤ 7200 := by
    split_ifs <;> decide
  generalize (if cest = 0 then 3600 else 7200 : Int) = hour at *
  rw [checked_eq (by omega) (by omega), Option.bind_some,
    checked_eq (by omega) (by omega), Option.bind_some,
    checked_eq (by omega) (by omega), Option.bind_some,
    checked_eq (by omega) (by omega), Option.bind_some,
    checked_eq (by omega) (by omega), Option.bind_some,
    checked_eq (by omega) (by omega), Option.bind_some,
    checked_eq (by omega) (by omega), Option.bind_some,
    checked_eq (by omega) (by omega), Option.bind_some,
    checked_eq (by omega) (by omega), Option.bind_some, lastMonth,
    addMonths_eq leap (by omega) (by omega) (by rw [← is]; omega), Option.bind_some,
    checked_eq (by omega) (by omega), Option.bind_some, ← is, lastYear,
    addYears_eq (by decide) (by omega) (by omega) (by rw [years]; omega), Option.bind_some, years]
  exact checked_eq nonneg (by omega)

/-- The integers of the code hold the same. -/
theorem clockUtc2timestamp_eq (early : 2000 ≤ moment.date.year) (late : moment.date.year ≤ 2099) :
    ((clockUtc2timestamp behind (fieldsOf moment dow) cest).toNat : Int) = timestampOf moment cest := by
  obtain ⟨nonneg, fits⟩ := timestampOf_mem cest early late
  obtain ⟨-, -, -, -, month⟩ := fieldsOf_toNat moment dow
  obtain ⟨year, leap⟩ := year_fieldsOf dow early late
  obtain ⟨before, is⟩ := Nat.exists_eq_add_of_le' moment.date.month_mem.1
  have few := moment.date.month_mem.2
  have since : epochYear.toNat = 1970 := rfl
  have lastMonth : ((fieldsOf moment dow).month - 1).toNat = before := by
    have one : 1 ≤ (fieldsOf moment dow).month := by
      rw [UInt8.le_iff_toNat_le, month, is]
      exact Nat.succ_pos _
    rw [UInt8.toNat_sub_of_le _ _ one, month, is]
    rfl
  have reached : 1970 ≤ moment.date.year := early.trans' (by decide)
  have grown := daysBeforeYear_mono (by decide : 1 ≤ 1970) reached
  rw [clockUtc2timestamp, lastMonth, secondsOfMonths_eq leap (by omega), year, since,
    secondsOfYears_eq (by decide), secondsOfFields_eq dow]
  have years : 1970 + (moment.date.year - 1970) = moment.date.year := by omega
  have day := moment.date.day_mem.1
  have offset : ((if cest = 0 then 3600 else 7200 : Nat) : Int) = if cest = 0 then 3600 else 7200 := by
    split_ifs <;> rfl
  have small : (if cest = 0 then 3600 else 7200 : Nat) ≤ 7200 := by split_ifs <;> decide
  rw [timestampOf_eq, ← offset] at nonneg fits ⊢
  rw [years, ← is, ← UInt32.ofNat_add, ← UInt32.ofNat_add, offset_eq]
  generalize (if cest = 0 then 3600 else 7200 : Nat) = hour at *
  rw [← UInt32.ofNat_sub (by omega), UInt32.toNat_ofNat_of_lt' (by rw [UInt32.size]; omega)]
  omega

/-- The timestamp of a date of this century. -/
theorem timestamp_exact (early : 2000 ≤ moment.date.year) (late : moment.date.year ≤ 2099) :
    utc2timestampChecked behind (fieldsOf moment dow) cest = some (timestampOf moment cest) ∧
      ((clockUtc2timestamp behind (fieldsOf moment dow) cest).toNat : Int) = timestampOf moment cest :=
  ⟨utc2timestampChecked_eq behind dow cest early late, clockUtc2timestamp_eq behind dow cest early late⟩

end Timestamps

theorem january_mem : 1 ≤ 1 ∧ 1 ≤ 12 := by decide

theorem zero_lt_sixty : 0 < 60 := by decide

theorem zero_lt_hours : 0 < 24 := by decide

/-- The start of the century. -/
def century : Moment where
  date := ⟨2000, 1, 1, by decide, january_mem, by decide⟩
  hour := 0
  minute := 0
  second := 0
  hour_lt := zero_lt_hours
  minute_lt := zero_lt_sixty
  second_lt := zero_lt_sixty

theorem timestamp_exact_century :
    (2000 ≤ century.date.year ∧ century.date.year ≤ 2099) ∧
      utc2timestampChecked (fun _ => 0) (fieldsOf century 6) 0 = some (timestampOf century 0) ∧
      ((clockUtc2timestamp (fun _ => 0) (fieldsOf century 6) 0).toNat : Int) = timestampOf century 0 :=
  ⟨by decide, timestamp_exact (fun _ => 0) 6 0 (by decide) (by decide)⟩

end Ethersex.Clock
