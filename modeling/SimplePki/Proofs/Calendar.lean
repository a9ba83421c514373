import SimplePki.Calendar

/-!
# Days and dates

Every date of the calendar has a day number from which it is found again.  The proof follows the
computation backwards: the day number determines the era, the day of the era determines the year
in it, and the day of the year determines the month.

An era of 400 years is split into centuries, cycles of four years, and years.  Only the last year of
a cycle may end with a leap day, and the last cycle of a century only if the century is the last one
of its era.

## Main results

* `Date.yearOfEra_of_dayOfEra`: the year in an era from the day
* `Date.month_of_dayOfYear`: the month from the day of the year
* `Date.ofDays_toDays`: a date is found again from its day number
-/

namespace SimplePki.Date

/-! ### Years from March -/

/-- The year of a date, where years begin in March. -/
def marchYear (date : Date) : Int := if date.month ≤ 2 then date.year - 1 else date.year

/-- The month of a date, counted from March. -/
def marchMonth (date : Date) : Int := (date.month + 9) % 12

/-- The day of a date in the year that began in March. -/
def dayOfYear (date : Date) : Int := (153 * date.marchMonth + 2) / 5 + date.day - 1

/-- The day of a date in its era. -/
def dayOfEra (date : Date) : Int :=
  date.marchYear % 400 * 365 + date.marchYear % 400 / 4 - date.marchYear % 400 / 100 +
    date.dayOfYear

theorem toDays_eq (date : Date) :
    date.toDays = date.marchYear / 400 * 146097 + date.dayOfEra - epoch := rfl

/-- A valid date lies in a month that has that day. -/
theorem isValid_iff {date : Date} :
    date.isValid = true ↔ (firstYear ≤ date.year ∧ date.year ≤ lastYear) ∧
      (1 ≤ date.month ∧ date.month ≤ 12) ∧
      (1 ≤ date.day ∧ date.day ≤ monthLength date.year date.month) := by
  simp only [isValid, Bool.and_eq_true, decide_eq_true_iff, and_assoc]

theorem isLeap_iff {year : Int} :
    isLeap year = true ↔ year % 4 = 0 ∧ (year % 100 ≠ 0 ∨ year % 400 = 0) := by
  simp [isLeap]

/-! ### Months -/

/-- The lengths of the months from March: a 30th day is missing in none of them but the last. -/
theorem day_le_of_isValid {date : Date} (h : date.isValid = true) :
    (date.day : Int) ≤ 31 ∧
    (date.marchMonth = 1 ∨ date.marchMonth = 3 ∨ date.marchMonth = 6 ∨ date.marchMonth = 8 →
      (date.day : Int) ≤ 30) ∧
    (date.marchMonth = 11 →
      (date.day : Int) ≤ 28 ∨ ((date.day : Int) = 29 ∧ isLeap (date.marchYear + 1) = true)) := by
  obtain ⟨-, ⟨first, last⟩, -, day⟩ := isValid_iff.mp h
  unfold monthLength at day
  unfold marchMonth marchYear
  -- February is the last month of its year, and the only one whose length varies
  by_cases february : date.month = 2
  · have before : date.month ≤ 2 := by omega
    rw [if_pos february] at day
    rw [if_pos before, Int.sub_add_cancel]
    by_cases leap : isLeap date.year = true
    · rw [if_pos leap] at day
      refine ⟨by omega, by omega, ?_⟩
      intro _
      by_cases leapDay : date.day = 29
      · exact Or.inr ⟨by omega, leap⟩
      · exact Or.inl (by omega)
    · rw [if_neg leap] at day
      omega
  · rw [if_neg february] at day
    by_cases short : date.month = 4 ∨ date.month = 6 ∨ date.month = 9 ∨ date.month = 11
    · rw [if_pos short] at day
      omega
    · rw [if_neg short] at day
      omega

/-- The month is found from the day of the year. -/
theorem month_of_dayOfYear {month day : Int} (lower : 0 ≤ month) (upper : month < 12)
    (first : 1 ≤ day) (last : day ≤ 31)
    (short : month = 1 ∨ month = 3 ∨ month = 6 ∨ month = 8 → day ≤ 30)
    (shortest : month = 11 → day ≤ 29) :
    (5 * ((153 * month + 2) / 5 + day - 1) + 2) / 153 = month := by
  have cases : month = 0 ∨ month = 1 ∨ month = 2 ∨ month = 3 ∨ month = 4 ∨ month = 5 ∨ month = 6 ∨
      month = 7 ∨ month = 8 ∨ month = 9 ∨ month = 10 ∨ month = 11 := by omega
  rcases cases with rfl | rfl | rfl | rfl | rfl | rfl | rfl | rfl | rfl | rfl | rfl | rfl <;> omega

/-! ### Years -/

/-- The year of an era is found from the day of the era: `century`, `cycle` and `year` count the
centuries, the cycles of four years in the century, and the years in the cycle. -/
theorem yearOfEra_of_dayOfEra {century cycle year day : Int}
    (centuries : 0 ≤ century ∧ century < 4) (cycles : 0 ≤ cycle ∧ cycle < 25)
    (years : 0 ≤ year ∧ year < 4) (days : 0 ≤ day ∧ day ≤ 365)
    (leap : day = 365 → year = 3 ∧ (cycle = 24 → century = 3)) :
    let dayOfEra := 36524 * century + 1461 * cycle + 365 * year + day
    (dayOfEra - dayOfEra / 1460 + dayOfEra / 36524 - dayOfEra / 146096) / 365 =
      100 * century + 4 * cycle + year := by
  intro dayOfEra
  have wholeCenturies : dayOfEra / 36524 - dayOfEra / 146096 = century := by
    -- the last day of an era is the leap day that no other century ends with
    by_cases last : dayOfEra = 146096
    · rw [last]
      omega
    · have : dayOfEra / 36524 = century := by omega
      have : dayOfEra / 146096 = 0 := by omega
      omega
  -- one leap day too many is counted at the end of a cycle
  obtain ⟨extra, counted⟩ : ∃ extra, extra = (24 * century + cycle + 365 * year + day) / 1460 :=
    ⟨_, rfl⟩
  have leapDays : dayOfEra / 1460 = 25 * century + cycle + extra := by omega
  have atMostOne : 0 ≤ extra ∧ extra ≤ 1 := by omega
  have notAtFirst : day = 0 → extra = 0 := by omega
  have atLeapDay : day = 365 → extra = 1 := by omega
  have wholeYears : dayOfEra - dayOfEra / 1460 + dayOfEra / 36524 - dayOfEra / 146096 =
      365 * (100 * century + 4 * cycle + year) + (day - extra) := by omega
  omega

/-! ### The round trip -/

section Valid

variable {date : Date}

theorem marchMonth_bounds (date : Date) : 0 ≤ date.marchMonth ∧ date.marchMonth < 12 := by
  unfold marchMonth
  omega

theorem dayOfYear_bounds (h : date.isValid = true) :
    (0 ≤ date.dayOfYear ∧ date.dayOfYear ≤ 365) ∧
      (date.dayOfYear = 365 → isLeap (date.marchYear + 1) = true) := by
  obtain ⟨lower, upper⟩ := date.marchMonth_bounds
  obtain ⟨-, -, first, -⟩ := isValid_iff.mp h
  obtain ⟨long, -, leap⟩ := day_le_of_isValid h
  unfold dayOfYear
  refine ⟨by omega, ?_⟩
  intro last
  have february : date.marchMonth = 11 := by omega
  rcases leap february with short | ⟨-, isLeap⟩
  · omega
  · exact isLeap

/-- The day of the era determines the year of the era. -/
theorem yearOfEra_eq (h : date.isValid = true) :
    (date.dayOfEra - date.dayOfEra / 1460 + date.dayOfEra / 36524 - date.dayOfEra / 146096) / 365 =
      date.marchYear % 400 := by
  obtain ⟨days, leap⟩ := dayOfYear_bounds h
  -- 36524 days in a century, 1461 in a cycle of four years, 365 in a year
  have split : date.dayOfEra = 36524 * (date.marchYear % 400 / 100) +
      1461 * (date.marchYear % 400 % 100 / 4) + 365 * (date.marchYear % 4) + date.dayOfYear := by
    unfold dayOfEra
    omega
  have leapYear : date.dayOfYear = 365 → date.marchYear % 4 = 3 ∧
      (date.marchYear % 400 % 100 / 4 = 24 → date.marchYear % 400 / 100 = 3) := by
    intro last
    have := isLeap_iff.mp (leap last)
    omega
  rw [split, yearOfEra_of_dayOfEra (by omega) (by omega) (by omega) days leapYear]
  omega

theorem dayOfEra_bounds (h : date.isValid = true) :
    0 ≤ date.dayOfEra ∧ date.dayOfEra < 146097 := by
  obtain ⟨days, leap⟩ := dayOfYear_bounds h
  have := fun last => isLeap_iff.mp (leap last)
  unfold dayOfEra
  omega

/-- A date is found again from its day number. -/
theorem ofDays_toDays (h : date.isValid = true) : ofDays date.toDays = date := by
  obtain ⟨-, ⟨firstMonth, lastMonth⟩, firstDay, -⟩ := isValid_iff.mp h
  obtain ⟨inEra, beforeEnd⟩ := dayOfEra_bounds h
  obtain ⟨long, short, shortest⟩ := day_le_of_isValid h
  obtain ⟨lower, upper⟩ := date.marchMonth_bounds
  -- era, year, month and day are recovered in this order, each from what the last one leaves
  have shifted : date.toDays + epoch = date.marchYear / 400 * 146097 + date.dayOfEra := by
    rw [toDays_eq, Int.sub_add_cancel]
  have era : (date.toDays + epoch) / 146097 = date.marchYear / 400 := by omega
  have rest : (date.toDays + epoch) % 146097 = date.dayOfEra := by omega
  have ofYear : date.dayOfEra - (365 * (date.marchYear % 400) + date.marchYear % 400 / 4 -
      date.marchYear % 400 / 100) = date.dayOfYear := by
    unfold dayOfEra
    omega
  have month : (5 * date.dayOfYear + 2) / 153 = date.marchMonth :=
    month_of_dayOfYear lower upper (by omega) long short fun last => by
      rcases shortest last with _ | _ <;> omega
  have day : date.dayOfYear - (153 * date.marchMonth + 2) / 5 + 1 = date.day := by
    unfold dayOfYear
    omega
  -- back to years that begin in January
  have sameMonth : (if date.marchMonth < 10 then date.marchMonth + 3 else date.marchMonth - 9) =
      date.month := by
    unfold marchMonth
    split <;> omega
  have sameYear : date.marchYear % 400 + date.marchYear / 400 * 400 +
      (if (date.month : Int) ≤ 2 then 1 else 0) = date.year := by
    unfold marchYear
    split <;> split <;> omega
  unfold ofDays
  simp only [era, rest, yearOfEra_eq h, ofYear, month, day, sameMonth, sameYear, Int.toNat_natCast]

end Valid

end SimplePki.Date
