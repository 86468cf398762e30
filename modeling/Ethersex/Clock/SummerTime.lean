import Mathlib
import Ethersex.Clock.Calendar

/-!
# Summer time

What `clock_localtime` adds to a timestamp, if the conversion of timestamps to dates is that of the
calendar.  The end of summer time comes an hour late.
-/

namespace Ethersex.Clock

open Library.Calendar

/-- `clock_localtime` with `TIMEZONE_CEST` and another conversion in the place of `clock_datetime`. -/
def localtimeOf (convert : UInt32 → Datetime) (timestamp : UInt32) : Datetime :=
  convert (timestamp + localOffset (convert timestamp))

theorem clockLocaltime_eq (timestamp : UInt32) :
    clockLocaltime true timestamp =
      some (localtimeOf (fun time => (clockDatetime time).get (clockDatetime_isSome time)) timestamp) := by
  rw [clockLocaltime, if_pos rfl, localtimeOf, Option.some_get]
  conv_lhs => rw [← Option.some_get (clockDatetime_isSome timestamp), Option.bind_some]

/-- The conversion of the calendar. -/
def brokenDown (timestamp : UInt32) : Datetime := datetimeOf (momentAfter timestamp.toNat)

/-! ## The last Sunday of a month -/

/-- A Sunday in the last seven days of its month. -/
def LastSunday (date : Date) : Prop :=
  date.weekday = 0 ∧ monthLength (isLeap date.year) date.month < date.day + 7

/-- Summer time lasts from one o'clock on the last Sunday of March to one o'clock on that of October. -/
def Summer (timestamp : UInt32) : Prop :=
  ∃ start stop : Date, (start.year = (dateAt timestamp).year ∧ start.month = 3 ∧ LastSunday start) ∧
    (stop.year = (dateAt timestamp).year ∧ stop.month = 10 ∧ LastSunday stop) ∧
    (⟨start, 1, 0, 0, by decide, by decide, by decide⟩ : Moment).seconds ≤
      (momentAfter timestamp.toNat).seconds ∧
    (momentAfter timestamp.toNat).seconds <
      (⟨stop, 1, 0, 0, by decide, by decide, by decide⟩ : Moment).seconds

/-- The local time is two hours later in summer, and one hour later otherwise. -/
def LocalRight (timestamp : UInt32) : Prop :=
  (Summer timestamp →
    localtimeOf brokenDown timestamp = datetimeOf (momentAfter (timestamp.toNat + 7200))) ∧
  (¬Summer timestamp →
    localtimeOf brokenDown timestamp = datetimeOf (momentAfter (timestamp.toNat + 3600)))

/-- The hour behind the end of summer time. -/
def InLastHour (timestamp : UInt32) : Prop :=
  (dateAt timestamp).month = 10 ∧ LastSunday (dateAt timestamp) ∧
    (momentAfter timestamp.toNat).hour = 1

section Dates

variable {date other : Date}

/-- A month of 31 days has a last Sunday. -/
theorem exists_lastSunday {year month : Nat} (positive : 1 ≤ year) (mem : 1 ≤ month ∧ month ≤ 12)
    (long : monthLength (isLeap year) month = 31) :
    ∃ date : Date, date.year = year ∧ date.month = month ∧ LastSunday date := by
  have small : ∀ weekday : Nat, weekday % 7 < 7 := fun _ => Nat.mod_lt _ (by decide)
  let last : Date := ⟨year, month, 31, positive, mem, by decide, long.ge⟩
  have week := small last.ordinal
  refine ⟨⟨year, month, 31 - last.weekday, positive, mem, ?_, ?_⟩, rfl, rfl, ?_, ?_⟩
  · rw [Date.weekday]
    omega
  · rw [long]
    omega
  · have ordinal : last.ordinal = daysBeforeYear year + (daysBeforeMonth (isLeap year) month + 31) := rfl
    simp only [Date.weekday, Date.ordinal, Date.dayOfYear] at *
    omega
  · simp only [long, Date.weekday]
    omega

/-- Dates of the same month. -/
theorem ordinal_add_day (year : date.year = other.year) (month : date.month = other.month) :
    date.ordinal + other.day = other.ordinal + date.day := by
  rw [Date.ordinal, Date.ordinal, Date.dayOfYear, Date.dayOfYear, year, month]
  omega

/-- Where a date lies beside the last Sunday of its month. -/
theorem lastSunday_cases (sunday : LastSunday other) (year : date.year = other.year)
    (month : date.month = other.month) (long : monthLength (isLeap other.year) other.month = 31) :
    (other.day ≤ date.day ↔ 25 + date.weekday ≤ date.day) ∧
      (other.day = date.day ↔ 25 + date.weekday ≤ date.day ∧ date.weekday = 0) := by
  have days := ordinal_add_day year month
  have last := other.day_mem.2
  have last' := date.day_mem.2
  rw [year, month, long] at last'
  obtain ⟨zero, late⟩ := sunday
  rw [long] at last late
  rw [Date.weekday] at zero ⊢
  omega

/-- The last Sunday of its month, at one o'clock, and a moment of the same year. -/
theorem lastSunday_le_iff {moment : Moment} (sunday : LastSunday other)
    (year : moment.date.year = other.year)
    (long : monthLength (isLeap other.year) other.month = 31) :
    (⟨other, 1, 0, 0, by decide, by decide, by decide⟩ : Moment).seconds ≤ moment.seconds ↔
      other.month < moment.date.month ∨ moment.date.month = other.month ∧
        25 + moment.date.weekday ≤ moment.date.day ∧ (moment.date.weekday = 0 → 1 ≤ moment.hour) := by
  have hour := moment.hour_lt
  have minute := moment.minute_lt
  have second := moment.second_lt
  have days : (⟨other, 1, 0, 0, by decide, by decide, by decide⟩ : Moment).seconds ≤ moment.seconds ↔
      other.ordinal < moment.date.ordinal ∨
        other.ordinal = moment.date.ordinal ∧ 1 ≤ moment.hour := by
    simp only [Moment.seconds]
    omega
  have order := @Date.ordinal_lt_iff other moment.date
  obtain before | same | behind := Nat.lt_trichotomy other.month moment.date.month
  · exact iff_of_true (days.mpr (.inl (order.mpr (.inr ⟨year.symm, .inl before⟩)))) (.inl before)
  · have cases_ := lastSunday_cases sunday year same.symm long
    have together := ordinal_add_day year same.symm
    rw [days]
    omega
  · have later := Date.ordinal_lt_iff.mpr (.inr ⟨year, .inl behind⟩ : moment.date.year < other.year ∨ _)
    rw [days]
    omega

end Dates

/-! ## The offset -/

theorem lastSundayInMonth_eq : ∀ day : Fin 32, ∀ weekday : Fin 7,
    lastSundayInMonth (UInt8.ofNat day) (UInt8.ofNat weekday) =
      if 25 + weekday.val ≤ day.val then (if weekday.val = 0 then 0 else 1) else -1 := by
  decide

theorem offset_eq_summer {first second third : Prop} [Decidable first] [Decidable second] [Decidable third] :
    (if first then 3600 else if second then 3600 else if third then 3600 else 7200 : UInt32) = 7200 ↔
      ¬first ∧ ¬second ∧ ¬third := by
  split_ifs <;> simp [*]

/-- When `clock_localtime` adds two hours. -/
theorem localOffset_iff (moment : Moment) :
    localOffset (datetimeOf moment) = 7200 ↔
      3 ≤ moment.date.month ∧ moment.date.month ≤ 10 ∧
        (moment.date.month = 3 →
          25 + moment.date.weekday ≤ moment.date.day ∧ (moment.date.weekday = 0 → 1 ≤ moment.hour)) ∧
        (moment.date.month = 10 →
          25 + moment.date.weekday ≤ moment.date.day → moment.date.weekday = 0 ∧ moment.hour ≤ 1) := by
  obtain ⟨first, last⟩ := moment.date.month_mem
  have hour := moment.hour_lt
  have week : moment.date.weekday < 7 := Nat.mod_lt _ (by decide)
  have short : moment.date.day < 32 := Nat.lt_succ_of_le (moment.date.day_mem.2.trans (monthLength_le _ _))
  have sunday : lastSundayInMonth (UInt8.ofNat moment.date.day) (UInt8.ofNat moment.date.weekday) = _ :=
    lastSundayInMonth_eq ⟨_, short⟩ ⟨_, week⟩
  dsimp only at sunday
  have monthIs : (UInt8.ofNat moment.date.month).toNat = moment.date.month :=
    UInt8.toNat_ofNat_of_lt' (Nat.lt_of_le_of_lt last (by decide))
  have hourIs : (UInt8.ofNat moment.hour).toNat = moment.hour :=
    UInt8.toNat_ofNat_of_lt' (Nat.lt_trans hour (by decide))
  simp only [localOffset, datetimeOf, sunday, UInt8.lt_iff_toNat_lt, ← UInt8.toNat_inj, monthIs, hourIs,
    gt_iff_lt, UInt8.reduceToNat]
  clear sunday monthIs hourIs
  by_cases late : 25 + moment.date.weekday ≤ moment.date.day
  · by_cases zero : moment.date.weekday = 0
    · simp only [if_pos late, if_pos zero, offset_eq_summer, imp_iff_not_or, true_and]
      omega
    · simp only [if_pos late, if_neg zero, offset_eq_summer, imp_iff_not_or, true_or, and_true]
      omega
  · simp only [if_neg late, offset_eq_summer, imp_iff_not_or, true_or, and_true]
    omega

theorem localOffset_winter {moment : Moment} (winter : localOffset (datetimeOf moment) ≠ 7200) :
    localOffset (datetimeOf moment) = 3600 :=
  (localOffset_eq _).resolve_right winter

/-! ## Local time -/

section LocalTime

variable (timestamp : UInt32)

/-- Summer time in terms of the fields of a date. -/
theorem summer_iff :
    Summer timestamp ↔
      3 ≤ (dateAt timestamp).month ∧ (dateAt timestamp).month ≤ 10 ∧
        ((dateAt timestamp).month = 3 →
          25 + (dateAt timestamp).weekday ≤ (dateAt timestamp).day ∧
            ((dateAt timestamp).weekday = 0 → 1 ≤ (momentAfter timestamp.toNat).hour)) ∧
        ((dateAt timestamp).month = 10 → 25 + (dateAt timestamp).weekday ≤ (dateAt timestamp).day →
          (dateAt timestamp).weekday = 0 ∧ (momentAfter timestamp.toNat).hour < 1) := by
  have march : ∀ leap : Bool, monthLength leap 3 = 31 := fun _ => rfl
  have october : ∀ leap : Bool, monthLength leap 10 = 31 := fun _ => rfl
  have bounds : ∀ start stop : Date,
      (start.year = (dateAt timestamp).year ∧ start.month = 3 ∧ LastSunday start) →
      (stop.year = (dateAt timestamp).year ∧ stop.month = 10 ∧ LastSunday stop) →
      ((⟨start, 1, 0, 0, by decide, by decide, by decide⟩ : Moment).seconds ≤
          (momentAfter timestamp.toNat).seconds ∧
        (momentAfter timestamp.toNat).seconds <
          (⟨stop, 1, 0, 0, by decide, by decide, by decide⟩ : Moment).seconds ↔
        (3 < (dateAt timestamp).month ∨ (dateAt timestamp).month = 3 ∧
          25 + (dateAt timestamp).weekday ≤ (dateAt timestamp).day ∧
            ((dateAt timestamp).weekday = 0 → 1 ≤ (momentAfter timestamp.toNat).hour)) ∧
        ¬(10 < (dateAt timestamp).month ∨ (dateAt timestamp).month = 10 ∧
          25 + (dateAt timestamp).weekday ≤ (dateAt timestamp).day ∧
            ((dateAt timestamp).weekday = 0 → 1 ≤ (momentAfter timestamp.toNat).hour))) := by
    rintro start stop ⟨startYear, startMonth, starts⟩ ⟨stopYear, stopMonth, stops⟩
    have first := @lastSunday_le_iff start (momentAfter timestamp.toNat) starts startYear.symm
      (by rw [startMonth]; exact march _)
    have last := @lastSunday_le_iff stop (momentAfter timestamp.toNat) stops stopYear.symm
      (by rw [stopMonth]; exact october _)
    rw [startMonth] at first
    rw [stopMonth] at last
    exact and_congr first (Nat.not_le.symm.trans (not_congr last))
  constructor
  · rintro ⟨start, stop, starts, stops, within⟩
    have fields := (bounds start stop starts stops).mp within
    simp only [imp_iff_not_or] at fields ⊢
    omega
  · intro fields
    obtain ⟨start, starts⟩ := exists_lastSunday (dateAt timestamp).year_pos (by decide) (march _)
    obtain ⟨stop, stops⟩ := exists_lastSunday (dateAt timestamp).year_pos (by decide) (october _)
    refine ⟨start, stop, starts, stops, (bounds start stop starts stops).mpr ?_⟩
    simp only [imp_iff_not_or] at fields ⊢
    omega

/-- In the last hour, it is not summer any more, but two hours are added. -/
theorem localOffset_iff_summer :
    localOffset (brokenDown timestamp) = 7200 ↔ Summer timestamp ∨ InLastHour timestamp := by
  have length : (dateAt timestamp).month = 10 →
      monthLength (isLeap (dateAt timestamp).year) (dateAt timestamp).month = 31 := by
    intro october
    rw [october]
    rfl
  have same : (momentAfter timestamp.toNat).date = dateAt timestamp := rfl
  have last := (dateAt timestamp).day_mem.2
  rw [brokenDown, localOffset_iff, summer_iff, InLastHour, LastSunday, same]
  by_cases october : (dateAt timestamp).month = 10
  · rw [length october] at last ⊢
    simp only [imp_iff_not_or]
    omega
  · simp only [october, false_and, or_false, IsEmpty.forall_iff]

theorem summer_of_lastHour (lastHour : InLastHour timestamp) : ¬Summer timestamp := by
  obtain ⟨october, ⟨sunday, late⟩, hour⟩ := lastHour
  have length : monthLength (isLeap (dateAt timestamp).year) (dateAt timestamp).month = 31 := by
    rw [october]
    rfl
  rw [length] at late
  rw [summer_iff, sunday, hour]
  rintro ⟨-, -, -, early⟩
  exact absurd (early october (by omega)).2 (by decide)

variable {timestamp}

theorem toNat_lt_of_year (year : (dateAt timestamp).year ≤ 2105) : timestamp.toNat + 7200 < 2 ^ 32 := by
  have before : (dateAt timestamp).ordinal < (⟨2106, 1, 1, by decide, by decide, by decide⟩ : Date).ordinal :=
    Date.ordinal_lt_of_year (Nat.lt_succ_of_le year)
  have first : (⟨2106, 1, 1, by decide, by decide, by decide⟩ : Date).ordinal = 768836 := by decide
  rw [ordinal_dateAt, first] at before
  omega

/-- The local time with the offset that was found. -/
theorem localtimeOf_brokenDown (year : (dateAt timestamp).year ≤ 2105) {seconds : UInt32}
    (offset : localOffset (brokenDown timestamp) = seconds) (small : seconds.toNat ≤ 7200) :
    localtimeOf brokenDown timestamp = datetimeOf (momentAfter (timestamp.toNat + seconds.toNat)) := by
  have fits := toNat_lt_of_year year
  rw [localtimeOf, offset, brokenDown, UInt32.toNat_add, Nat.mod_eq_of_lt (by omega)]

theorem hours_ne (seconds : Nat) :
    datetimeOf (momentAfter (seconds + 7200)) ≠ datetimeOf (momentAfter (seconds + 3600)) := by
  intro same
  have hours : UInt8.ofNat ((seconds + 7200) / 3600 % 24) = UInt8.ofNat ((seconds + 3600) / 3600 % 24) :=
    congrArg Datetime.hour same
  have numbers := congrArg UInt8.toNat hours
  rw [UInt8.toNat_ofNat', UInt8.toNat_ofNat'] at numbers
  omega

theorem not_localRight (year : (dateAt timestamp).year ≤ 2105) (lastHour : InLastHour timestamp) :
    ¬LocalRight timestamp := by
  have offset := (localOffset_iff_summer timestamp).mpr (.inr lastHour)
  rintro ⟨-, winter⟩
  have right := winter (summer_of_lastHour timestamp lastHour)
  rw [localtimeOf_brokenDown year offset le_rfl] at right
  exact hours_ne timestamp.toNat right

/-- Up to the year 2105, `clock_localtime` is right but in the last hour. -/
theorem localRight_iff (year : (dateAt timestamp).year ≤ 2105) :
    LocalRight timestamp ↔ ¬InLastHour timestamp := by
  constructor
  · exact fun right lastHour => not_localRight year lastHour right
  · intro early
    constructor
    · intro summer
      exact localtimeOf_brokenDown year ((localOffset_iff_summer timestamp).mpr (.inl summer)) le_rfl
    · intro winter
      have offset : localOffset (brokenDown timestamp) ≠ 7200 := fun two =>
        ((localOffset_iff_summer timestamp).mp two).elim winter early
      exact localtimeOf_brokenDown year (localOffset_winter offset) (by decide)

end LocalTime

/-- The first second of 1970 has winter time. -/
theorem localRight_iff_start : LocalRight 0 ↔ ¬InLastHour 0 := by
  have year : (dateAt 0).year ≤ 2105 := by decide
  exact localRight_iff year

/-- Half past one on the last Sunday of October 2009. -/
theorem october_wrong : ¬LocalRight 1256434200 := by
  have day : dateAt 1256434200 = ⟨2009, 10, 25, by decide, by decide, by decide⟩ := by
    apply Date.ordinal_injective
    rw [ordinal_dateAt]
    decide
  refine not_localRight (by rw [day]; decide) ⟨by rw [day], ?_, by decide⟩
  rw [day]
  exact ⟨by decide, by decide⟩

end Ethersex.Clock
