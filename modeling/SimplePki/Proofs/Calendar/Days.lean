import SimplePki.Proofs.Timestamp

/-!
# The days of the calendar

Every day number is the day of the date found from it, and from the first day of the calendar to its
last one that date is valid.  Together with the way back from dates to days, this makes the instants
that can be shown all instants between two seconds.

A day of an era is split into centuries, cycles of four years, years and a day of the year.  Each
split leaves fewer days than the next larger unit has, except that the last century of an era and
the last year of a cycle are one day longer than the others.

## Main definitions

* `Date.ofMarch`: the date of a day in a year that began in March
* `Date.daysBefore`: how many days lie before such a year
* `Date.firstDay`, `Date.lastDay`: the bounds of the calendar
* `Instant.InRange`: the instants between the first and the last second of the calendar

## Main results

* `Date.exists_split_of_dayOfEra`: how the days of an era are counted
* `Date.toDays_ofDays`: every day is the day of its date
* `Date.exists_date_iff`: the days of the calendar
* `Instant.inCalendar_iff`: the instants that can be shown are those in range
-/

namespace SimplePki

namespace Date

/-! ### Days of a year -/

/-- The date of a day, counted from zero, in a year that began in March. -/
def ofMarch (year day : Int) : Date :=
  let month := (5 * day + 2) / 153
  ⟨if month < 10 then year else year + 1, (if month < 10 then month + 3 else month - 9).toNat,
    (day - (153 * month + 2) / 5 + 1).toNat⟩

section OfMarch

variable {year day : Int}

theorem year_ofMarch : (ofMarch year day).year =
    if (5 * day + 2) / 153 < 10 then year else year + 1 := rfl

theorem month_ofMarch : (ofMarch year day).month =
    (if (5 * day + 2) / 153 < 10 then (5 * day + 2) / 153 + 3
      else (5 * day + 2) / 153 - 9).toNat := rfl

theorem day_ofMarch :
    (ofMarch year day).day = (day - (153 * ((5 * day + 2) / 153) + 2) / 5 + 1).toNat := rfl

/-- January and February belong to the next year. -/
theorem ofMarch_eq (inYear : 0 ≤ day ∧ day ≤ 365) :
    let shiftedMonth := (5 * day + 2) / 153
    let month := if shiftedMonth < 10 then shiftedMonth + 3 else shiftedMonth - 9
    ofMarch year day = ⟨year + (if month ≤ 2 then 1 else 0), month.toNat,
      (day - (153 * shiftedMonth + 2) / 5 + 1).toNat⟩ := by
  dsimp only
  unfold ofMarch
  by_cases sameYear : (5 * day + 2) / 153 < 10
  · simp only [if_pos sameYear]
    rw [if_neg (by omega), Int.add_zero]
  · simp only [if_neg sameYear]
    rw [if_pos (by omega)]

theorem marchMonth_ofMarch (inYear : 0 ≤ day ∧ day ≤ 365) :
    (ofMarch year day).marchMonth = (5 * day + 2) / 153 := by
  rw [marchMonth, month_ofMarch]
  split <;> omega

theorem marchYear_ofMarch (inYear : 0 ≤ day ∧ day ≤ 365) :
    (ofMarch year day).marchYear = year := by
  rw [marchYear, month_ofMarch, year_ofMarch]
  by_cases sameYear : (5 * day + 2) / 153 < 10
  · rw [if_pos sameYear, if_pos sameYear, if_neg (by omega)]
  · rw [if_neg sameYear, if_neg sameYear, if_pos (by omega), Int.add_sub_cancel]

theorem dayOfYear_ofMarch (inYear : 0 ≤ day ∧ day ≤ 365) :
    (ofMarch year day).dayOfYear = day := by
  rw [dayOfYear, marchMonth_ofMarch inYear, day_ofMarch]
  omega

/-- The months of a year from March, and the length of each. -/
theorem dayOfMonth_bounds (inYear : 0 ≤ day ∧ day ≤ 365) :
    let month := (5 * day + 2) / 153
    let dayOfMonth := day - (153 * month + 2) / 5 + 1
    (0 ≤ month ∧ month ≤ 11) ∧ (1 ≤ dayOfMonth ∧ dayOfMonth ≤ 31) ∧
      (month = 1 ∨ month = 3 ∨ month = 6 ∨ month = 8 → dayOfMonth ≤ 30) ∧
      (month = 11 → dayOfMonth ≤ 28 ∨ (dayOfMonth = 29 ∧ day = 365)) := by
  dsimp only
  refine ⟨by omega, by omega, ?_, ?_⟩
  · rintro (h | h | h | h) <;> rw [h] <;> omega
  · intro february
    rw [february]
    omega

/-- A date is valid if its month has that day, by the lengths of the months from March. -/
theorem isValid_of_day_le {date : Date}
    (years : firstYear ≤ date.year ∧ date.year ≤ lastYear)
    (months : 1 ≤ date.month ∧ date.month ≤ 12) (days : 1 ≤ date.day ∧ date.day ≤ 31)
    (short : date.marchMonth = 1 ∨ date.marchMonth = 3 ∨ date.marchMonth = 6 ∨
      date.marchMonth = 8 → date.day ≤ 30)
    (february : date.marchMonth = 11 →
      date.day ≤ 28 ∨ (date.day = 29 ∧ isLeap (date.marchYear + 1) = true)) :
    date.isValid = true := by
  refine isValid_iff.mpr ⟨years, months, days.1, ?_⟩
  unfold marchMonth at short february
  unfold monthLength
  by_cases isFebruary : date.month = 2
  · rw [if_pos isFebruary]
    rcases february (by omega) with _ | ⟨leapDay, leap⟩
    · split <;> omega
    · rw [marchYear, if_pos (by omega), Int.sub_add_cancel] at leap
      rw [if_pos leap]
      exact Nat.le_of_eq leapDay
  · rw [if_neg isFebruary]
    split <;> omega

/-- A day of a year has a date, the last one if the year ends with a leap day. -/
theorem isValid_ofMarch (inYear : 0 ≤ day ∧ day ≤ 365)
    (leap : day = 365 → isLeap (year + 1) = true)
    (years : firstYear ≤ (ofMarch year day).year ∧ (ofMarch year day).year ≤ lastYear) :
    (ofMarch year day).isValid = true := by
  obtain ⟨months, days, short, february⟩ := dayOfMonth_bounds inYear
  apply isValid_of_day_le years
  · rw [month_ofMarch]
    split <;> omega
  · rw [day_ofMarch]
    omega
  · intro isShort
    rw [marchMonth_ofMarch inYear] at isShort
    have := short isShort
    rw [day_ofMarch]
    omega
  · intro isFebruary
    rw [marchMonth_ofMarch inYear] at isFebruary
    rw [marchYear_ofMarch inYear, day_ofMarch]
    rcases february isFebruary with _ | ⟨leapDay, atEnd⟩
    · exact Or.inl (by omega)
    · exact Or.inr ⟨by omega, leap atEnd⟩

end OfMarch

/-! ### Days before a year -/

/-- How many days lie before a year that begins in March, from the beginning of era zero. -/
def daysBefore (year : Int) : Int := 365 * year + year / 4 - year / 100 + year / 400

theorem toDays_eq_daysBefore (date : Date) :
    date.toDays = daysBefore date.marchYear + date.dayOfYear - epoch := by
  rw [toDays_eq]
  unfold dayOfEra daysBefore
  omega

theorem daysBefore_mono {year later : Int} (h : year ≤ later) :
    daysBefore year ≤ daysBefore later := by
  unfold daysBefore
  omega

/-- A year ends before the next one begins. -/
theorem daysBefore_add_lt {year day : Int} (inYear : day ≤ 365)
    (leap : day = 365 → isLeap (year + 1) = true) :
    daysBefore year + day < daysBefore (year + 1) := by
  have leapYear : day = 365 → (year + 1) % 4 = 0 ∧ ((year + 1) % 100 ≠ 0 ∨ (year + 1) % 400 = 0) :=
    fun last => isLeap_iff.mp (leap last)
  unfold daysBefore
  omega

/-! ### Days of an era -/

/-- Every day of an era lies in one of its centuries, in one of the cycles of the century, and in
one of the years of the cycle. -/
theorem exists_split_of_dayOfEra {dayOfEra : Int} (inEra : 0 ≤ dayOfEra ∧ dayOfEra < 146097) :
    ∃ century cycle year day : Int,
      dayOfEra = 36524 * century + 1461 * cycle + 365 * year + day ∧
      (0 ≤ century ∧ century < 4) ∧ (0 ≤ cycle ∧ cycle < 25) ∧ (0 ≤ year ∧ year < 4) ∧
      (0 ≤ day ∧ day ≤ 365) ∧ (day = 365 → year = 3 ∧ (cycle = 24 → century = 3)) := by
  -- the last century and the last year take the day that is left over
  obtain ⟨century, inCentury, centuries, longer⟩ : ∃ century : Int,
      (0 ≤ dayOfEra - 36524 * century ∧ dayOfEra - 36524 * century ≤ 36524) ∧
      (0 ≤ century ∧ century < 4) ∧ (dayOfEra - 36524 * century = 36524 → century = 3) :=
    ⟨min (dayOfEra / 36524) 3, by omega⟩
  obtain ⟨dayOfCentury, rest⟩ : ∃ dayOfCentury, dayOfCentury = dayOfEra - 36524 * century :=
    ⟨_, rfl⟩
  obtain ⟨year, days, years, leap⟩ : ∃ year : Int,
      (0 ≤ dayOfCentury % 1461 - 365 * year ∧ dayOfCentury % 1461 - 365 * year ≤ 365) ∧
      (0 ≤ year ∧ year < 4) ∧ (dayOfCentury % 1461 - 365 * year = 365 → year = 3) :=
    ⟨min (dayOfCentury % 1461 / 365) 3, by omega⟩
  refine ⟨century, dayOfCentury / 1461, year, dayOfCentury % 1461 - 365 * year, ?_, centuries, ?_,
    years, days, ?_⟩
  · omega
  · omega
  · intro last
    -- a day is left over in the last cycle of a century only if the century is longer
    exact ⟨leap last, by omega⟩

section Split

variable {century cycle year : Int} (centuries : 0 ≤ century ∧ century < 4)
  (cycles : 0 ≤ cycle ∧ cycle < 25) (years : 0 ≤ year ∧ year < 4)

include cycles years in
/-- How many cycles and how many centuries end before a year. -/
theorem yearOfEra_div (century : Int) :
    (100 * century + 4 * cycle + year) / 4 = 25 * century + cycle ∧
      (100 * century + 4 * cycle + year) / 100 = century := by
  omega

include centuries cycles years in
/-- The days before a year, counted by eras, centuries, cycles and years. -/
theorem daysBefore_of_split (era : Int) :
    daysBefore (100 * century + 4 * cycle + year + era * 400) =
      era * 146097 + (36524 * century + 1461 * cycle + 365 * year) := by
  have byFour : (100 * century + 4 * cycle + year + era * 400) / 4 =
      25 * century + cycle + 100 * era := by omega
  have byHundred : (100 * century + 4 * cycle + year + era * 400) / 100 = century + 4 * era := by
    omega
  have byEra : (100 * century + 4 * cycle + year + era * 400) / 400 = era := by omega
  rw [daysBefore, byFour, byHundred, byEra]
  omega

include cycles in
/-- The last year of a cycle is a leap year, but in the last cycle of a century only in the last
century. -/
theorem isLeap_of_split (era : Int) (lastCycle : cycle = 24 → century = 3) :
    isLeap (100 * century + 4 * cycle + 3 + era * 400 + 1) = true := by
  refine isLeap_iff.mpr ⟨by omega, ?_⟩
  by_cases last : cycle = 24
  · rw [last, lastCycle last]
    exact Or.inr (by omega)
  · exact Or.inl (by omega)

end Split

/-- The date of a day is found from a year from March, and from the days that lie before it. -/
theorem exists_ofDays_eq_ofMarch (days : Int) : ∃ year day : Int,
    ofDays days = ofMarch year day ∧ days = daysBefore year + day - epoch ∧
      (0 ≤ day ∧ day ≤ 365) ∧ (day = 365 → isLeap (year + 1) = true) := by
  have counted : days = (days + epoch) / 146097 * 146097 + (days + epoch) % 146097 - epoch := by
    omega
  have inEra : 0 ≤ (days + epoch) % 146097 ∧ (days + epoch) % 146097 < 146097 := by omega
  generalize hera : (days + epoch) / 146097 = era at counted
  generalize hday : (days + epoch) % 146097 = dayOfEra at counted inEra
  obtain ⟨century, cycle, year, day, split, centuries, cycles, years, inYear, leap⟩ :=
    exists_split_of_dayOfEra inEra
  refine ⟨100 * century + 4 * cycle + year + era * 400, day, ?_, ?_, inYear, ?_⟩
  · -- the day of the year is what is left of the day of the era without the years before
    obtain ⟨byFour, byHundred⟩ := yearOfEra_div cycles years century
    have dayOfYear : dayOfEra - (365 * (100 * century + 4 * cycle + year) +
        (25 * century + cycle) - century) = day := by omega
    have yearOfEra := yearOfEra_of_dayOfEra centuries cycles years inYear leap
    dsimp only at yearOfEra
    rw [← split] at yearOfEra
    rw [ofMarch_eq inYear]
    unfold ofDays
    simp only [hera, hday, yearOfEra, byFour, byHundred, dayOfYear]
  · rw [daysBefore_of_split centuries cycles years era, counted, split]
    omega
  · intro last
    obtain ⟨rfl, lastCycle⟩ := leap last
    exact isLeap_of_split cycles era lastCycle

/-- Every day is the day of its date. -/
theorem toDays_ofDays (days : Int) : (ofDays days).toDays = days := by
  obtain ⟨year, day, date, counted, inYear, -⟩ := exists_ofDays_eq_ofMarch days
  rw [date, toDays_eq_daysBefore, marchYear_ofMarch inYear, dayOfYear_ofMarch inYear, counted]

/-! ### The bounds of the calendar -/

/-- The first of January of the first year. -/
def firstDay : Int := toDays ⟨firstYear, 1, 1⟩

/-- The last of December of the last year. -/
def lastDay : Int := toDays ⟨lastYear, 12, 31⟩

/-- A date is in the years of the calendar exactly if its day is one of the days of the calendar. -/
theorem year_bounds_iff {year day : Int} (inYear : 0 ≤ day ∧ day ≤ 365)
    (leap : day = 365 → isLeap (year + 1) = true) :
    (firstYear ≤ (ofMarch year day).year ∧ (ofMarch year day).year ≤ lastYear) ↔
      (firstDay ≤ daysBefore year + day - epoch ∧ daysBefore year + day - epoch ≤ lastDay) := by
  have beforeFirst : daysBefore (firstYear - 1) = firstDay + epoch - 306 := by decide
  have atFirst : daysBefore firstYear = firstDay + epoch + 59 := by decide
  have atLast : daysBefore lastYear = lastDay + epoch - 305 := by decide
  have afterLast : daysBefore (lastYear + 1) = lastDay + epoch + 60 := by decide
  have before := daysBefore_add_lt inYear.2 leap
  rw [year_ofMarch]
  -- the calendar begins with the last days of a year from March, and ends within another one
  by_cases sameYear : (5 * day + 2) / 153 < 10
  · rw [if_pos sameYear]
    constructor
    · rintro ⟨first, last⟩
      have := daysBefore_mono first
      have := daysBefore_mono last
      omega
    · rintro ⟨first, last⟩
      constructor
      · refine Int.not_lt.mp fun earlier => ?_
        have := daysBefore_mono (Int.le_sub_one_of_lt earlier)
        omega
      · refine Int.not_lt.mp fun later => ?_
        have := daysBefore_mono (Int.add_one_le_of_lt later)
        omega
  · rw [if_neg sameYear]
    constructor
    · rintro ⟨first, last⟩
      have := daysBefore_mono (Int.sub_right_le_of_le_add first)
      have := daysBefore_mono last
      omega
    · rintro ⟨first, last⟩
      constructor
      · refine Int.not_lt.mp fun earlier => ?_
        have := daysBefore_mono (Int.le_sub_one_of_lt earlier)
        omega
      · refine Int.not_lt.mp fun later => ?_
        have := daysBefore_mono (Int.le_of_lt_add_one later)
        omega

/-- The date of a day is valid exactly if the day is in the calendar. -/
theorem isValid_ofDays_iff {days : Int} :
    (ofDays days).isValid = true ↔ firstDay ≤ days ∧ days ≤ lastDay := by
  obtain ⟨year, day, date, counted, inYear, leap⟩ := exists_ofDays_eq_ofMarch days
  rw [date, counted, ← year_bounds_iff inYear leap]
  exact ⟨fun valid => (isValid_iff.mp valid).1, isValid_ofMarch inYear leap⟩

/-- The days of the calendar are those of its valid dates. -/
theorem exists_date_iff {days : Int} :
    (∃ date : Date, date.isValid = true ∧ days = date.toDays) ↔
      firstDay ≤ days ∧ days ≤ lastDay := by
  rw [← isValid_ofDays_iff]
  constructor
  · rintro ⟨date, valid, rfl⟩
    rwa [ofDays_toDays valid]
  · exact fun valid => ⟨ofDays days, valid, (toDays_ofDays days).symm⟩

end Date

/-! ### Instants in range -/

/-- An instant from the first second of the calendar to its last one, leap seconds included. -/
structure Instant.InRange (instant : Instant) : Prop where
  first : Date.firstDay * secondsPerDay ≤ instant.seconds
  last : instant.seconds < (Date.lastDay + 1) * secondsPerDay
  inSecond : instant.nanos < 2 * nanosPerSecond

/-- The instants that can be shown are those in range. -/
theorem Instant.inCalendar_iff {instant : Instant} : instant.InCalendar ↔ instant.InRange := by
  have bounds : (Date.firstDay ≤ instant.seconds / secondsPerDay ∧
      instant.seconds / secondsPerDay ≤ Date.lastDay) ↔
      (Date.firstDay * secondsPerDay ≤ instant.seconds ∧
        instant.seconds < (Date.lastDay + 1) * secondsPerDay) := by
    unfold secondsPerDay
    omega
  constructor
  · rintro ⟨onDate, inSecond⟩
    obtain ⟨first, last⟩ := bounds.mp (Date.exists_date_iff.mp onDate)
    exact ⟨first, last, inSecond⟩
  · rintro ⟨first, last, inSecond⟩
    exact ⟨Date.exists_date_iff.mpr (bounds.mpr ⟨first, last⟩), inSecond⟩

end SimplePki
