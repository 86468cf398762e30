import Mathlib

/-!
# The system clock

The counters of the clock, the conversions between timestamps and dates, and the
corrections a sync source makes.  All counters have the widths of the source and
wrap.  The table of month lengths is read from flash memory; a read behind its end
is left out of `clock_datetime`, which never makes one, and delivers a byte the
model does not know in `clock_utc2timestamp`.

`startup_timestamp`, the NTP timer and the adjustment of the hardware timer are not
modelled: nothing here reads them.
-/

namespace Ethersex.Clock

/-- `struct clock_datetime_t`. -/
structure Datetime where
  sec : UInt8
  min : UInt8
  hour : UInt8
  day : UInt8
  month : UInt8
  dow : UInt8
  year : UInt8
  deriving DecidableEq, Repr

/-- The member `cron_fields` of the union. -/
def Datetime.cronFields (date : Datetime) : Fin 5 → UInt8
  | 0 => date.min
  | 1 => date.hour
  | 2 => date.day
  | 3 => date.month
  | 4 => date.dow

/-- `EPOCH_YEAR`. -/
def epochYear : UInt16 := 1970

/-- `EPOCH_DOW`: the first of January 1970 was a Thursday. -/
def epochDow : UInt16 := 4

def months : List UInt8 := [31, 28, 31, 30, 31, 30, 31, 31, 30, 31, 30, 31]

def isLeapYear (year : Nat) : Bool :=
  year % 4 = 0 ∧ (year % 100 ≠ 0 ∨ year % 400 = 0)

/-! ## Dates -/

/-- The loop of `clock_datetime` over the years.  It makes at most one pass for
each 365 days. -/
def fillYears : Nat → UInt16 → UInt16 → UInt16 × UInt16
  | 0, days, year => (days, year)
  | passes + 1, days, year =>
      if days < 365 then (days, year)
      else if isLeapYear year.toNat then
        if days = 365 then (days, year)
        else fillYears passes (days - 1 - 365) (year + 1)
      else fillYears passes (days - 365) (year + 1)

/-- The loop of `clock_datetime` over the months, of which it has to read the
lengths. -/
def fillMonths (year : UInt16) : List UInt8 → UInt8 → UInt16 → Option (UInt8 × UInt16)
  | [], _, _ => none
  | length :: rest, month, days =>
      let monthdays := if month = 2 ∧ isLeapYear year.toNat then length + 1 else length
      if days < monthdays.toUInt16 then some (month, days)
      else fillMonths year rest (month + 1) (days - monthdays.toUInt16)

def clockDatetime (timestamp : UInt32) : Option Datetime :=
  let minutes := timestamp / 60
  let hours := minutes / 60
  let days := (hours / 24).toUInt16
  let (left, year) := fillYears (days.toNat / 365) days epochYear
  (fillMonths year months 0 left).map fun (month, left) =>
    { sec := (timestamp % 60).toUInt8
      min := (minutes % 60).toUInt8
      hour := (hours % 24).toUInt8
      day := left.toUInt8 + 1
      month := month + 1
      dow := ((days + epochDow) % 7).toUInt8
      year := (year - 1900).toUInt8 }

/-- `last_sunday_in_month`. -/
def lastSundayInMonth (day dow : UInt8) : Int :=
  let lastSunday := if day > dow then day - (dow + 1) else day
  if (31 : Int) - lastSunday.toNat ≤ 7 then
    if dow % 7 = 0 then 0 else 1
  else -1

/-- What `clock_localtime` adds to a timestamp whose date is `date`. -/
def localOffset (date : Datetime) : UInt32 :=
  let lastSunday := lastSundayInMonth date.day date.dow
  if date.month < 3 ∨ date.month > 10 then 3600
  else if date.month = 3 ∧ (lastSunday = -1 ∨ (lastSunday = 0 ∧ date.hour < 1)) then 3600
  else if date.month = 10 ∧ (lastSunday = 1 ∨ (lastSunday = 0 ∧ date.hour > 1)) then 3600
  else 7200

/-- `clock_localtime`, with `TIMEZONE_CEST` or without. -/
def clockLocaltime (cest : Bool) (timestamp : UInt32) : Option Datetime :=
  if cest then (clockDatetime timestamp).bind fun date => clockDatetime (timestamp + localOffset date)
  else clockDatetime timestamp

/-- The seconds of the months before `month`, which counts down to 1. -/
def secondsOfMonths (behind : Nat → UInt8) (year : UInt8) : Nat → UInt32
  | 0 => 0
  | month + 1 =>
      let length := months.getD month (behind month)
      let monthdays := if month + 1 = 2 ∧ isLeapYear year.toNat then length + 1 else length
      monthdays.toUInt32 * 86400 + secondsOfMonths behind year month

/-- The seconds of `count` years from `year` on. -/
def secondsOfYears : Nat → Nat → UInt32
  | 0, _ => 0
  | count + 1, year =>
      (if isLeapYear year then 31622400 else 31536000) + secondsOfYears count (year + 1)

/-- `clock_utc2timestamp`; `behind` is what follows the table of month lengths. -/
def clockUtc2timestamp (behind : Nat → UInt8) (date : Datetime) (cest : UInt8) : UInt32 :=
  date.sec.toUInt32 + date.min.toUInt32 * 60 + date.hour.toUInt32 * 3600 +
    (date.day.toUInt32 * 86400 - 86400) +
    secondsOfMonths behind date.year (date.month - 1).toNat +
    secondsOfYears (date.year.toNat + 2000 - epochYear.toNat) epochYear.toNat -
    (if cest = 0 then 3600 else 7200)

/-! ## Counters -/

/-- The static variables of the clock. -/
structure Counters where
  timestamp : UInt32
  ticks : UInt8
  syncTimestamp : UInt32
  deriving DecidableEq

/-- The variables after power-up. -/
def powerUp : Counters := ⟨0, 0, 0⟩

/-- What `clock_tick` does once a second when no crystal is connected.  Without a
sync source the clock never waits. -/
def second (syncSource : Bool) (clock : Counters) : Counters :=
  let waits := syncSource ∧ clock.syncTimestamp ≠ 0 ∧ clock.syncTimestamp ≠ clock.timestamp
  { clock with
    timestamp := if waits then clock.timestamp else clock.timestamp + 1
    syncTimestamp :=
      if clock.syncTimestamp ≠ 0 then clock.syncTimestamp + 1 else clock.syncTimestamp }

def clockTick (syncSource : Bool) (clock : Counters) : Counters :=
  if clock.ticks + 1 > 50 then { second syncSource clock with ticks := 0 }
  else { clock with ticks := clock.ticks + 1 }

/-- `clock_set_time`: the clock may jump forward, but goes backward only by more
than five minutes. -/
def clockSetTime (newSyncTimestamp : UInt32) (clock : Counters) : Counters :=
  { clock with
    syncTimestamp := newSyncTimestamp
    timestamp :=
      if newSyncTimestamp > clock.timestamp ∨ clock.timestamp - newSyncTimestamp > 300 then
        newSyncTimestamp
      else clock.timestamp }

def clockGetTime (clock : Counters) : UInt32 := clock.timestamp

end Ethersex.Clock
