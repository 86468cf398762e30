import Mathlib

/-!
# The proleptic Gregorian calendar

Dates as successive days, and moments as seconds.  The ordinal of a date counts the days from the first
day of the year 1 on, which is a Monday.
-/

namespace Ethersex.Library.Calendar

def isLeap (year : Nat) : Bool := year % 4 = 0 ∧ (year % 100 ≠ 0 ∨ year % 400 = 0)

def monthLength (leap : Bool) : Nat → Nat
  | 2 => if leap then 29 else 28
  | 4 | 6 | 9 | 11 => 30
  | _ => 31

def yearLength (leap : Bool) : Nat := if leap then 366 else 365

/-- A date that exists. -/
@[ext] structure Date where
  year : Nat
  month : Nat
  day : Nat
  year_pos : 1 ≤ year
  month_mem : 1 ≤ month ∧ month ≤ 12
  day_mem : 1 ≤ day ∧ day ≤ monthLength (isLeap year) month

theorem monthLength_pos (leap : Bool) (month : Nat) : 1 ≤ monthLength leap month := by
  unfold monthLength
  split
  · cases leap <;> decide
  all_goals decide

theorem monthLength_le (leap : Bool) (month : Nat) : monthLength leap month ≤ 31 := by
  unfold monthLength
  split
  · cases leap <;> decide
  all_goals decide

/-- The day after. -/
def Date.next (date : Date) : Date :=
  if room : date.day < monthLength (isLeap date.year) date.month then
    { date with
      day := date.day + 1
      day_mem := ⟨Nat.succ_pos _, room⟩ }
  else if rest : date.month < 12 then
    { date with
      month := date.month + 1
      day := 1
      month_mem := ⟨Nat.succ_pos _, rest⟩
      day_mem := ⟨le_rfl, monthLength_pos _ _⟩ }
  else
    { year := date.year + 1
      month := 1
      day := 1
      year_pos := Nat.succ_pos _
      month_mem := by decide
      day_mem := ⟨le_rfl, monthLength_pos _ _⟩ }

/-- The date so many days later. -/
def Date.later (days : Nat) (date : Date) : Date := Date.next^[days] date

/-! ## Ordinals -/

def daysBeforeYear (year : Nat) : Nat :=
  365 * (year - 1) + (year - 1) / 4 - (year - 1) / 100 + (year - 1) / 400

def daysBeforeMonth (leap : Bool) (month : Nat) : Nat :=
  ((List.range' 1 (month - 1)).map (monthLength leap)).sum

def Date.dayOfYear (date : Date) : Nat := daysBeforeMonth (isLeap date.year) date.month + date.day

def Date.ordinal (date : Date) : Nat := daysBeforeYear date.year + date.dayOfYear

/-- The day of the week; 0 is Sunday. -/
def Date.weekday (date : Date) : Nat := date.ordinal % 7

theorem daysBeforeYear_succ {year : Nat} (positive : 1 ≤ year) :
    daysBeforeYear (year + 1) = daysBeforeYear year + yearLength (isLeap year) := by
  obtain ⟨before, rfl⟩ := Nat.exists_eq_add_of_le' positive
  have fewer : before / 100 ≤ before / 4 := Nat.div_le_div_left (by decide) (by decide)
  have fewer' : (before + 1) / 100 ≤ (before + 1) / 4 := Nat.div_le_div_left (by decide) (by decide)
  rw [daysBeforeYear, daysBeforeYear, Nat.add_sub_cancel, Nat.add_sub_cancel, yearLength]
  simp only [Nat.succ_div, Nat.dvd_iff_mod_eq_zero] at fewer' ⊢
  by_cases leap : isLeap (before + 1) = true
  · rw [if_pos leap]
    obtain ⟨fours, rest⟩ := of_decide_eq_true leap
    rw [if_pos fours] at fewer' ⊢
    obtain hundreds | centuries := rest
    · have others : ¬(before + 1) % 400 = 0 := fun zero => hundreds (by omega)
      rw [if_neg hundreds, if_neg others]
      omega
    · have hundreds : (before + 1) % 100 = 0 := by omega
      rw [if_pos hundreds, if_pos centuries]
      omega
  · rw [if_neg leap]
    have common := mt decide_eq_true leap
    rw [not_and_or, not_or, not_not] at common
    obtain fours | ⟨hundreds, centuries⟩ := common
    · have hundreds : ¬(before + 1) % 100 = 0 := fun zero => fours (by omega)
      have centuries : ¬(before + 1) % 400 = 0 := fun zero => fours (by omega)
      rw [if_neg fours, if_neg hundreds, if_neg centuries]
      omega
    · have fours : (before + 1) % 4 = 0 := by omega
      rw [if_pos fours, if_pos hundreds, if_neg centuries]
      omega

theorem daysBeforeMonth_succ (leap : Bool) {month : Nat} (positive : 1 ≤ month) :
    daysBeforeMonth leap (month + 1) = daysBeforeMonth leap month + monthLength leap month := by
  obtain ⟨before, rfl⟩ := Nat.exists_eq_add_of_le' positive
  rw [daysBeforeMonth, daysBeforeMonth, Nat.add_sub_cancel, Nat.add_sub_cancel, List.range'_concat,
    List.map_append, List.sum_append, List.map_singleton, List.sum_singleton, one_mul, Nat.add_comm 1]

theorem daysBeforeMonth_mono (leap : Bool) {month other : Nat} (le : month ≤ other) :
    daysBeforeMonth leap month ≤ daysBeforeMonth leap other := by
  induction other, le using Nat.le_induction with
  | base => exact le_rfl
  | succ other le ih =>
      refine ih.trans ?_
      obtain rfl | positive := Nat.eq_zero_or_pos other
      · exact le_rfl
      · rw [daysBeforeMonth_succ leap positive]
        exact Nat.le_add_right _ _

/-- December is the last month. -/
theorem daysBeforeMonth_last (leap : Bool) : daysBeforeMonth leap 12 + monthLength leap 12 = yearLength leap := by
  revert leap
  decide

/-- The day after has the next ordinal. -/
theorem Date.ordinal_next (date : Date) : date.next.ordinal = date.ordinal + 1 := by
  obtain ⟨positive, month_le⟩ := date.month_mem
  unfold Date.next
  split_ifs with room rest
  · rfl
  · have last : date.day = monthLength (isLeap date.year) date.month :=
      Nat.le_antisymm date.day_mem.2 (Nat.not_lt.mp room)
    have months := daysBeforeMonth_succ (isLeap date.year) positive
    simp only [ordinal, dayOfYear]
    omega
  · have last : date.day = monthLength (isLeap date.year) date.month :=
      Nat.le_antisymm date.day_mem.2 (Nat.not_lt.mp room)
    have december : date.month = 12 := Nat.le_antisymm month_le (Nat.not_lt.mp rest)
    have whole := daysBeforeMonth_last (isLeap date.year)
    have start : daysBeforeMonth (isLeap (date.year + 1)) 1 = 0 := rfl
    have years := daysBeforeYear_succ date.year_pos
    rw [december] at last
    simp only [ordinal, dayOfYear, december]
    omega

theorem Date.ordinal_later (days : Nat) (date : Date) : (date.later days).ordinal = date.ordinal + days := by
  induction days with
  | zero => rfl
  | succ days ih =>
      rw [later, Function.iterate_succ_apply', ordinal_next]
      exact congrArg Nat.succ ih

/-! ## Order -/

theorem Date.dayOfYear_le (date : Date) : date.dayOfYear ≤ yearLength (isLeap date.year) := by
  have within : date.dayOfYear ≤ daysBeforeMonth (isLeap date.year) (date.month + 1) := by
    rw [daysBeforeMonth_succ _ date.month_mem.1]
    exact Nat.add_le_add_left date.day_mem.2 _
  have months := daysBeforeMonth_mono (isLeap date.year) (Nat.succ_le_succ date.month_mem.2)
  have year : daysBeforeMonth (isLeap date.year) 13 = yearLength (isLeap date.year) := by
    rw [daysBeforeMonth_succ _ (by decide), daysBeforeMonth_last]
  exact within.trans (months.trans year.le)

theorem daysBeforeYear_mono {year other : Nat} (positive : 1 ≤ year) (le : year ≤ other) :
    daysBeforeYear year ≤ daysBeforeYear other := by
  induction other, le using Nat.le_induction with
  | base => exact le_rfl
  | succ other le ih =>
      rw [daysBeforeYear_succ (positive.trans le)]
      exact ih.trans (Nat.le_add_right _ _)

theorem Date.ordinal_lt_of_year {date other : Date} (before : date.year < other.year) :
    date.ordinal < other.ordinal := by
  have years := daysBeforeYear_mono (Nat.succ_pos date.year) before
  rw [daysBeforeYear_succ date.year_pos] at years
  have days := date.dayOfYear_le
  have first : 1 ≤ other.dayOfYear := other.day_mem.1.trans (Nat.le_add_left _ _)
  rw [ordinal, ordinal]
  omega

theorem Date.ordinal_lt_of_month {date other : Date} (same : date.year = other.year)
    (before : date.month < other.month) : date.ordinal < other.ordinal := by
  have months := daysBeforeMonth_mono (isLeap other.year) before
  rw [daysBeforeMonth_succ _ date.month_mem.1] at months
  have days := date.day_mem.2
  have first := other.day_mem.1
  rw [same] at days
  rw [ordinal, ordinal, dayOfYear, dayOfYear, same]
  omega

/-- Dates are ordered as their ordinals. -/
theorem Date.ordinal_lt_iff {date other : Date} :
    date.ordinal < other.ordinal ↔ date.year < other.year ∨ date.year = other.year ∧
      (date.month < other.month ∨ date.month = other.month ∧ date.day < other.day) := by
  obtain years | years | years := Nat.lt_trichotomy date.year other.year
  · exact iff_of_true (ordinal_lt_of_year years) (.inl years)
  · obtain months | months | months := Nat.lt_trichotomy date.month other.month
    · exact iff_of_true (ordinal_lt_of_month years months) (.inr ⟨years, .inl months⟩)
    · rw [ordinal, ordinal, dayOfYear, dayOfYear, years, months]
      omega
    · have behind := ordinal_lt_of_month years.symm months
      omega
  · have behind := ordinal_lt_of_year years
    omega

/-- A date is determined by its ordinal. -/
theorem Date.ordinal_injective {date other : Date} (same : date.ordinal = other.ordinal) : date = other := by
  have before := mt ordinal_lt_iff.mpr (Nat.not_lt.mpr same.ge)
  have behind := mt ordinal_lt_iff.mpr (Nat.not_lt.mpr same.le)
  have years : date.year = other.year := by omega
  have months : date.month = other.month := by omega
  have days : date.day = other.day := by omega
  exact Date.ext years months days

/-! ## Moments -/

/-- A second of a day. -/
structure Moment where
  date : Date
  hour : Nat
  minute : Nat
  second : Nat
  hour_lt : hour < 24
  minute_lt : minute < 60
  second_lt : second < 60

/-- The seconds from the day before the first one on. -/
def Moment.seconds (moment : Moment) : Nat :=
  ((moment.date.ordinal * 24 + moment.hour) * 60 + moment.minute) * 60 + moment.second

/-- The first of January 1970. -/
def epoch : Date := ⟨1970, 1, 1, by decide, by decide, by decide⟩

/-- The moment so many seconds after the start of the first of January 1970. -/
def momentAfter (seconds : Nat) : Moment where
  date := epoch.later (seconds / 86400)
  hour := seconds / 3600 % 24
  minute := seconds / 60 % 60
  second := seconds % 60
  hour_lt := Nat.mod_lt _ (by decide)
  minute_lt := Nat.mod_lt _ (by decide)
  second_lt := Nat.mod_lt _ (by decide)

theorem epoch_ordinal : epoch.ordinal = 719163 := by decide

theorem ordinal_momentAfter (seconds : Nat) :
    (momentAfter seconds).date.ordinal = 719163 + seconds / 86400 := by
  rw [momentAfter, Date.ordinal_later, epoch_ordinal]

theorem seconds_momentAfter (seconds : Nat) :
    (momentAfter seconds).seconds = 719163 * 86400 + seconds := by
  rw [Moment.seconds, ordinal_momentAfter, momentAfter]
  dsimp only
  omega

/-- The first day of the year 2000 is a Saturday. -/
example : (⟨2000, 1, 1, by decide, by decide, by decide⟩ : Date).weekday = 6 := by decide

end Ethersex.Library.Calendar
