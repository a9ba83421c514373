/-!
# Dates

Days are counted from the first of January 1970 in the Gregorian calendar, extended to all years
before and after; the year before year one is year zero.  Years are counted from March, so that a
leap day ends its year, and in eras of 400 years, which all have the same number of days.

## Main definitions

* `Date`, with its year, month and day
* `Date.isValid`: dates that exist
* `Date.toDays`, `Date.ofDays`: the day number of a date and back
-/

namespace SimplePki

/-- A year, a month and a day of the month. -/
structure Date where
  year : Int
  month : Nat
  day : Nat
  deriving DecidableEq, Repr

namespace Date

/-- The years with a leap day. -/
def isLeap (year : Int) : Bool := year % 4 == 0 && (year % 100 != 0 || year % 400 == 0)

/-- How many days a month has. -/
def monthLength (year : Int) (month : Nat) : Nat :=
  if month = 2 then (if isLeap year then 29 else 28)
  else if month = 4 ∨ month = 6 ∨ month = 9 ∨ month = 11 then 30
  else 31

/-- The first year of the calendar. -/
def firstYear : Int := -262143

/-- The last year of the calendar. -/
def lastYear : Int := 262142

/-- Whether a date exists in the calendar. -/
def isValid (date : Date) : Bool :=
  firstYear ≤ date.year && date.year ≤ lastYear && 1 ≤ date.month && date.month ≤ 12 &&
    1 ≤ date.day && date.day ≤ monthLength date.year date.month

/-- How many days lie between the beginning of era zero and the first of January 1970. -/
def epoch : Int := 719468

/-- The day number of a date. -/
def toDays (date : Date) : Int :=
  let year := if date.month ≤ 2 then date.year - 1 else date.year
  let era := year / 400
  let yearOfEra := year % 400
  let month : Int := (date.month + 9) % 12
  let dayOfYear := (153 * month + 2) / 5 + date.day - 1
  era * 146097 + (yearOfEra * 365 + yearOfEra / 4 - yearOfEra / 100 + dayOfYear) - epoch

/-- The date of a day number. -/
def ofDays (days : Int) : Date :=
  let shifted := days + epoch
  let era := shifted / 146097
  let dayOfEra := shifted % 146097
  let yearOfEra := (dayOfEra - dayOfEra / 1460 + dayOfEra / 36524 - dayOfEra / 146096) / 365
  let dayOfYear := dayOfEra - (365 * yearOfEra + yearOfEra / 4 - yearOfEra / 100)
  let shiftedMonth := (5 * dayOfYear + 2) / 153
  let day := dayOfYear - (153 * shiftedMonth + 2) / 5 + 1
  let month := if shiftedMonth < 10 then shiftedMonth + 3 else shiftedMonth - 9
  let year := yearOfEra + era * 400 + (if month ≤ 2 then 1 else 0)
  ⟨year, month.toNat, day.toNat⟩

end Date

end SimplePki
