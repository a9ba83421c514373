import SimplePki.Proofs.Calendar
import SimplePki.Proofs.Outcome

/-!
# Timestamps and instants

A timestamp shows an instant down to its second, and reading the timestamp yields that second: the
fraction is lost, and nothing else is.  What is read from any timestamp, however it is spelled, is
such a second.

The instants that can be shown are those on a day with a date.  A leap second at the end of a minute
is shown as its sixtieth second.  For one anywhere else in its minute there is no timestamp: it is
shown as the second that comes next, and is read back as that.

## Main definitions

* `Instant.InCalendar`: the instants that can be shown
* `Instant.stamped`: the instant that is read back from a timestamp
* `Instant.Spells`: a date and a time that a text is read as

## Main results

* `Timestamp.number_padded_append`, `Timestamp.year_yearChars_append`: numbers are read back
* `Instant.stamped_eq_cut_iff`: the timestamps that stand for the second of their instant
* `Instant.ofText_toText`: reading a timestamp yields the second that it stands for
* `Instant.inCalendar_of_ofText`: what is read can be shown
-/

namespace SimplePki

namespace Timestamp

/-! ### Digits -/

theorem decimalValue_eq (digits : List Char) : decimalValue digits = Nat.ofDigitChars 10 digits 0 := by
  rw [decimalValue, Nat.ofDigitChars_eq_foldl]
  congr
  funext n digit
  rw [Nat.mul_comm]

theorem decimalValue_padded (width n : Nat) : decimalValue (padded width n) = n := by
  rw [decimalValue_eq, padded, Nat.ofDigitChars_append, Nat.ofDigitChars_replicate_zero,
    Nat.mul_zero, Nat.ofDigitChars_ten_toDigits]

theorem isDigit_of_mem_padded {width n : Nat} {c : Char} (h : c ∈ padded width n) :
    c.isDigit = true := by
  rcases List.mem_append.mp h with zero | digit
  · rw [(List.mem_replicate.mp zero).2]
    rfl
  · exact Nat.isDigit_of_mem_toDigits (by omega) (by omega) digit

theorem padded_eq_cons (width n : Nat) :
    ∃ first rest, padded width n = first :: rest ∧ first.isDigit = true := by
  cases written : padded width n with
  | nil => exact absurd (List.append_eq_nil_iff.mp written).2 Nat.toDigits_ne_nil
  | cons first rest =>
    have mem : first ∈ padded width n := by
      rw [written]
      exact List.mem_cons_self
    exact ⟨first, rest, rfl, isDigit_of_mem_padded mem⟩

theorem length_padded {width n : Nat} (fits : (Nat.toDigits 10 n).length ≤ width) :
    (padded width n).length = width := by
  rw [padded, List.length_append, List.length_replicate]
  omega

/-- Digits are neither blanks nor signs. -/
theorem isBlank_of_isDigit {c : Char} (h : c.isDigit = true) : isBlank c = false := by
  rw [Char.isDigit, Bool.and_eq_true, decide_eq_true_iff, decide_eq_true_iff] at h
  have lower : 48 ≤ c.toNat := h.1
  have upper : c.toNat ≤ 57 := h.2
  unfold isBlank
  simp only [Bool.or_eq_false_iff, Bool.and_eq_false_iff, decide_eq_false_iff_not,
    beq_eq_false_iff_ne]
  omega

/-! ### Numbers -/

/-- The digits that are kept of a run of digits. -/
def kept (most : Option Nat) (run : List Char) : List Char :=
  match most with
  | some most => run.take most
  | none => run

theorem number_cons (most : Option Nat) {first : Char} (isDigit : first.isDigit = true)
    (others : List Char) :
    number most (first :: others) =
      if wordLimit ≤ decimalValue (kept most ((first :: others).takeWhile Char.isDigit)) then
        .error .outOfRange
      else .ok (decimalValue (kept most ((first :: others).takeWhile Char.isDigit)),
        (first :: others).drop
          (kept most ((first :: others).takeWhile Char.isDigit)).length) :=
  if_neg (by simp [isDigit])

/-- A number is read up to the most digits it may have, or up to what is no digit. -/
theorem number_append {most : Option Nat} {digits rest : List Char} (nonempty : digits ≠ [])
    (each : ∀ c ∈ digits, c.isDigit = true)
    (stop : most = some digits.length ∨
      (most = none ∧ ∀ c, rest.head? = some c → c.isDigit = false)) :
    number most (digits ++ rest) =
      if wordLimit ≤ decimalValue digits then .error .outOfRange
      else .ok (decimalValue digits, rest) := by
  -- with a most, the digits are cut off; without one, they have to end by themselves
  have run : kept most ((digits ++ rest).takeWhile Char.isDigit) = digits := by
    rw [List.takeWhile_append_of_pos each]
    rcases stop with rfl | ⟨rfl, boundary⟩
    · exact List.take_left
    · have nothing : rest.takeWhile Char.isDigit = [] := by
        cases rest with
        | nil => rfl
        | cons c behind => exact List.takeWhile_cons_of_neg (by simp [boundary c rfl])
      rw [nothing]
      exact List.append_nil digits
  obtain ⟨first, others, rfl⟩ := List.exists_cons_of_ne_nil nonempty
  rw [List.cons_append] at run ⊢
  rw [number_cons most (each first List.mem_cons_self), run, ← List.cons_append, List.drop_left]

theorem padded_ne_nil (width n : Nat) : padded width n ≠ [] := by
  obtain ⟨first, others, written, -⟩ := padded_eq_cons width n
  rw [written]
  exact List.cons_ne_nil first others

theorem number_padded_append {width n : Nat} (fits : (Nat.toDigits 10 n).length ≤ width)
    (small : n < wordLimit) (rest : List Char) :
    number (some width) (padded width n ++ rest) = .ok (n, rest) := by
  have stop : some width = some (padded width n).length :=
    congrArg some (length_padded fits).symm
  rw [number_append (padded_ne_nil width n) (fun c => isDigit_of_mem_padded) (Or.inl stop),
    decimalValue_padded, if_neg (Nat.not_le.mpr small)]

/-- Behind a sign a number may have any number of digits. -/
theorem number_none_padded_append {width n : Nat} (small : n < wordLimit) {rest : List Char}
    (boundary : ∀ c, rest.head? = some c → c.isDigit = false) :
    number none (padded width n ++ rest) = .ok (n, rest) := by
  rw [number_append (padded_ne_nil width n) (fun c => isDigit_of_mem_padded)
    (Or.inr ⟨rfl, boundary⟩), decimalValue_padded, if_neg (Nat.not_le.mpr small)]

theorem dropWhile_isBlank_cons {first : Char} (isDigit : first.isDigit = true)
    (others : List Char) : (first :: others).dropWhile isBlank = first :: others :=
  List.dropWhile_cons_of_neg (by simp [isBlank_of_isDigit isDigit])

theorem dropWhile_isBlank_append {digits : List Char} (nonempty : digits ≠ [])
    (each : ∀ c ∈ digits, c.isDigit = true) (rest : List Char) :
    (digits ++ rest).dropWhile isBlank = digits ++ rest := by
  obtain ⟨first, others, rfl⟩ := List.exists_cons_of_ne_nil nonempty
  exact dropWhile_isBlank_cons (each first List.mem_cons_self) _

/-! ### Fields -/

theorem literal_cons (wanted : Char) (rest : List Char) :
    literal wanted (wanted :: rest) = .ok rest := if_pos rfl

theorem field_padded_append {least most n : Nat} (range : least ≤ n ∧ n ≤ most) (h : n < 100)
    (rest : List Char) : field least most (padded 2 n ++ rest) = .ok (n, rest) := by
  have small : n < wordLimit := Nat.lt_trans h (by decide)
  have fits : (Nat.toDigits 10 n).length ≤ 2 :=
    (Nat.length_toDigits_le_iff (by omega) (by omega)).mpr h
  rw [field, dropWhile_isBlank_append (padded_ne_nil 2 n) (fun c => isDigit_of_mem_padded),
    number_padded_append fits small, ok_bind]
  exact if_pos range

theorem field_eq_ok {least most n : Nat} {text rest : List Char}
    (h : field least most text = .ok (n, rest)) : least ≤ n ∧ n ≤ most := by
  obtain ⟨⟨value, behind⟩, -, checked⟩ := bind_eq_ok_iff.mp h
  dsimp only at checked
  by_cases range : least ≤ value ∧ value ≤ most
  · rw [if_pos range] at checked
    cases checked
    exact range
  · rw [if_neg range] at checked
    exact nomatch checked

theorem literal_eq_ok {wanted : Char} {text rest : List Char} (h : literal wanted text = .ok rest) :
    text = wanted :: rest := by
  unfold literal at h
  split at h
  · exact nomatch h
  · split at h
    · next same => rw [same, Except.ok.inj h]
    · exact nomatch h

theorem natAbs_lt_wordLimit {n : Int} (range : -yearLimit ≤ n ∧ n < yearLimit) :
    n.natAbs < wordLimit := by
  unfold yearLimit at range
  unfold wordLimit
  omega

/-! ### Years -/

/-- A year and what follows it, if the year is in range. -/
def checkYear (n : Int) (rest : List Char) : Except TimestampFault (Int × List Char) :=
  if -yearLimit ≤ n ∧ n < yearLimit then .ok (n, rest) else .error .outOfRange

theorem checkYear_of_range {n : Int} (range : -yearLimit ≤ n ∧ n < yearLimit) (rest : List Char) :
    checkYear n rest = .ok (n, rest) := if_pos range

theorem year_eq (text : List Char) :
    year text = match text.dropWhile isBlank with
      | '-' :: digits => number none digits >>= fun (n, rest) => checkYear (-(n : Int)) rest
      | '+' :: digits => number none digits >>= fun (n, rest) => checkYear n rest
      | digits => number (some 4) digits >>= fun (n, rest) => checkYear n rest := by
  simp only [year, checkYear, pure_bind]
  rfl

theorem year_minus (text : List Char) :
    year ('-' :: text) = number none text >>= fun (n, rest) => checkYear (-(n : Int)) rest := by
  have sign : ('-' :: text).dropWhile isBlank = '-' :: text :=
    List.dropWhile_cons_of_neg (by decide)
  rw [year_eq, sign]
  rfl

theorem year_plus (text : List Char) :
    year ('+' :: text) = number none text >>= fun (n, rest) => checkYear n rest := by
  have sign : ('+' :: text).dropWhile isBlank = '+' :: text :=
    List.dropWhile_cons_of_neg (by decide)
  -- the minus sign is ruled out first, as the match does
  rw [year_eq, sign]
  split
  · next same => exact absurd (List.cons.inj same).1 (by decide)
  · next same => rw [(List.cons.inj same).2]
  · next noSign => exact absurd rfl (noSign text)

/-- The first of four digits is taken for no sign. -/
theorem year_of_isDigit {first : Char} (isDigit : first.isDigit = true) (others : List Char) :
    year (first :: others) =
      number (some 4) (first :: others) >>= fun (n, rest) => checkYear n rest := by
  rw [year_eq, dropWhile_isBlank_cons isDigit]
  split
  · next same =>
    rw [(List.cons.inj same).1] at isDigit
    exact absurd isDigit (by decide)
  · next same =>
    rw [(List.cons.inj same).1] at isDigit
    exact absurd isDigit (by decide)
  · rfl

/-- A year is read back, with its sign if it has one. -/
theorem year_yearChars_append {n : Int} (range : -yearLimit ≤ n ∧ n < yearLimit)
    {rest : List Char} (boundary : ∀ c, rest.head? = some c → c.isDigit = false) :
    year (yearChars n ++ rest) = .ok (n, rest) := by
  have signed : number none (padded 4 n.natAbs ++ rest) = .ok (n.natAbs, rest) :=
    number_none_padded_append (natAbs_lt_wordLimit range) boundary
  unfold yearChars
  by_cases negative : n < 0
  · have value : -(n.natAbs : Int) = n := by omega
    rw [if_pos negative, List.cons_append, year_minus, signed, ok_bind]
    dsimp only
    rw [value]
    exact checkYear_of_range range rest
  · have value : (n.natAbs : Int) = n := by omega
    rw [if_neg negative]
    by_cases long : 9999 < n
    · rw [if_pos long, List.cons_append, year_plus, signed, ok_bind]
      dsimp only
      rw [value]
      exact checkYear_of_range range rest
    · have fits : (Nat.toDigits 10 n.natAbs).length ≤ 4 :=
        (Nat.length_toDigits_le_iff (by omega) (by omega)).mpr (by omega)
      have plain := number_padded_append fits (natAbs_lt_wordLimit range) rest
      obtain ⟨first, others, written, isDigit⟩ := padded_eq_cons 4 n.natAbs
      rw [written, List.cons_append] at plain
      rw [if_neg long, written, List.cons_append, year_of_isDigit isDigit, plain, ok_bind]
      dsimp only
      rw [value]
      exact checkYear_of_range range rest

end Timestamp

namespace Instant

open Timestamp

/-! ### Instants that can be shown -/

/-- The instant lies on a day with a date, in its second or in a leap second. -/
structure InCalendar (instant : Instant) : Prop where
  onDate : ∃ date : Date, date.isValid = true ∧ instant.seconds / secondsPerDay = date.toDays
  inSecond : instant.nanos < 2 * nanosPerSecond

theorem isLeap_iff {instant : Instant} : instant.isLeap = true ↔ nanosPerSecond ≤ instant.nanos :=
  decide_eq_true_iff

/-- The instant that the timestamp of an instant stands for: the beginning of its second.  Only a
leap second within a minute has no timestamp of its own, and gets that of the second that comes
next. -/
def stamped (instant : Instant) : Instant :=
  if instant.isLeap ∧ instant.seconds % 60 ≠ 59 then ⟨instant.seconds + 1, 0⟩ else instant.cut

section Stamped

variable {instant : Instant}

theorem stamped_of_not_leap (noLeap : ¬instant.isLeap = true) : instant.stamped = instant.cut :=
  if_neg fun h => noLeap h.1

theorem stamped_of_last (last : instant.seconds % 60 = 59) : instant.stamped = instant.cut :=
  if_neg fun h => h.2 last

theorem stamped_of_not_last (leap : instant.isLeap = true) (notLast : instant.seconds % 60 ≠ 59) :
    instant.stamped = ⟨instant.seconds + 1, 0⟩ := if_pos ⟨leap, notLast⟩

/-- The leap seconds within a minute are the instants whose timestamps stand for another second. -/
theorem stamped_eq_cut_iff :
    instant.stamped = instant.cut ↔ (instant.isLeap = true → instant.seconds % 60 = 59) := by
  constructor
  · intro same leap
    refine Decidable.byContradiction fun notLast => ?_
    rw [stamped_of_not_last leap notLast, cut, Instant.mk.injEq] at same
    exact absurd same.1 (Int.ne_of_gt (Int.lt_add_one_of_le (Int.le_refl _)))
  · intro last
    by_cases leap : instant.isLeap = true
    · exact stamped_of_last (last leap)
    · exact stamped_of_not_leap leap

end Stamped

theorem secondOfDay_lt (instant : Instant) : instant.secondOfDay < 86400 := by
  unfold secondOfDay secondsPerDay
  omega

theorem seconds_eq (instant : Instant) :
    instant.seconds = instant.seconds / secondsPerDay * secondsPerDay + instant.secondOfDay := by
  unfold secondOfDay secondsPerDay
  omega

/-- Days are made of whole minutes. -/
theorem secondOfDay_mod (instant : Instant) :
    ((instant.secondOfDay % 60 : Nat) : Int) = instant.seconds % 60 := by
  unfold secondOfDay secondsPerDay
  omega

namespace InCalendar

variable {instant : Instant}

/-- The day of an instant has a date. -/
theorem date_eq (h : instant.InCalendar) :
    instant.date.isValid = true ∧ instant.seconds / secondsPerDay = instant.date.toDays := by
  obtain ⟨date, valid, day⟩ := h.onDate
  have same : instant.date = date := by rw [Instant.date, day, Date.ofDays_toDays valid]
  rw [same]
  exact ⟨valid, day⟩

/-- The seconds that a timestamp shows count a leap second as one more second of its minute. -/
theorem leapSeconds_eq (h : instant.InCalendar) :
    (instant.nanos / nanosPerSecond = 0 ∧ instant.stamped = ⟨instant.seconds, 0⟩) ∨
      (instant.nanos / nanosPerSecond = 1 ∧
        ((instant.secondOfDay % 60 = 59 ∧ instant.stamped = ⟨instant.seconds, nanosPerSecond⟩) ∨
          (instant.secondOfDay % 60 ≠ 59 ∧ instant.stamped = ⟨instant.seconds + 1, 0⟩))) := by
  have inSecond := h.inSecond
  by_cases leap : instant.isLeap = true
  · have long := isLeap_iff.mp leap
    right
    constructor
    · unfold nanosPerSecond at *
      omega
    · have inMinute := instant.secondOfDay_mod
      by_cases last : instant.seconds % 60 = 59
      · exact Or.inl ⟨by omega, by rw [stamped_of_last last, cut, if_pos leap]⟩
      · exact Or.inr ⟨by omega, stamped_of_not_last leap last⟩
  · have short : ¬nanosPerSecond ≤ instant.nanos := fun long => leap (isLeap_iff.mpr long)
    left
    refine ⟨?_, by rw [stamped_of_not_leap leap, cut, if_neg leap]⟩
    unfold nanosPerSecond at *
    omega

end InCalendar

/-! ### Instants of dates and times -/

/-- The instant of a date and a time; the sixtieth second is a leap second. -/
def ofParts (date : Date) (hour minute second : Nat) : Instant :=
  ⟨date.toDays * secondsPerDay + (hour * 3600 + minute * 60 + min second 59 : Nat),
    if second = 60 then nanosPerSecond else 0⟩

theorem seconds_ofParts (date : Date) (hour minute second : Nat) :
    (ofParts date hour minute second).seconds =
      date.toDays * secondsPerDay + (hour * 3600 + minute * 60 + min second 59 : Nat) := rfl

theorem days_ofParts (date : Date) {hour minute : Nat} (second : Nat) (hours : hour ≤ 23)
    (minutes : minute ≤ 59) :
    (ofParts date hour minute second).seconds / secondsPerDay = date.toDays := by
  rw [seconds_ofParts]
  unfold secondsPerDay
  omega

theorem InCalendar.ofParts_eq_stamped {instant : Instant} (h : instant.InCalendar) :
    ofParts instant.date (instant.secondOfDay / 3600) (instant.secondOfDay / 60 % 60)
      (instant.secondOfDay % 60 + instant.nanos / nanosPerSecond) = instant.stamped := by
  obtain ⟨-, day⟩ := h.date_eq
  have whole := instant.seconds_eq
  rw [day] at whole
  rw [ofParts]
  rcases h.leapSeconds_eq with ⟨noLeap, stamp⟩ | ⟨leap, ⟨last, stamp⟩ | ⟨notLast, stamp⟩⟩
  · have time : instant.secondOfDay / 3600 * 3600 + instant.secondOfDay / 60 % 60 * 60 +
        min (instant.secondOfDay % 60 + 0) 59 = instant.secondOfDay := by omega
    rw [noLeap, stamp, time, ← whole, if_neg (by omega)]
  · -- the sixtieth second is written, and read as the fifty-ninth with a whole second on top
    have time : instant.secondOfDay / 3600 * 3600 + instant.secondOfDay / 60 % 60 * 60 +
        min (instant.secondOfDay % 60 + 1) 59 = instant.secondOfDay := by omega
    rw [leap, stamp, time, ← whole, if_pos (by omega)]
  · -- within a minute, the next second is written and read
    have time : instant.secondOfDay / 3600 * 3600 + instant.secondOfDay / 60 % 60 * 60 +
        min (instant.secondOfDay % 60 + 1) 59 = instant.secondOfDay + 1 := by omega
    rw [leap, stamp, time, Int.natCast_add, Int.natCast_one, ← Int.add_assoc, ← whole,
      if_neg (by omega)]

/-- The instant of a valid date and a time can be shown, and has no fraction. -/
theorem inCalendar_ofParts {date : Date} {hour minute second : Nat} (valid : date.isValid = true)
    (hours : hour ≤ 23) (minutes : minute ≤ 59) :
    (ofParts date hour minute second).InCalendar ∧
      (ofParts date hour minute second).stamped = ofParts date hour minute second := by
  have day := days_ofParts date second hours minutes
  have endsMinute : second = 60 → (ofParts date hour minute second).seconds % 60 = 59 := by
    rw [seconds_ofParts]
    unfold secondsPerDay
    omega
  by_cases leap : second = 60
  · have nanos : (ofParts date hour minute second).nanos = nanosPerSecond := if_pos leap
    have isLeap := isLeap_iff.mpr (Nat.le_of_eq nanos.symm)
    refine ⟨⟨⟨date, valid, day⟩, ?_⟩, ?_⟩
    · rw [nanos]
      decide
    · rw [stamped_of_last (endsMinute leap), cut, if_pos isLeap, ← nanos]
  · have nanos : (ofParts date hour minute second).nanos = 0 := if_neg leap
    have noLeap : ¬(ofParts date hour minute second).isLeap = true := by
      rw [isLeap_iff, nanos]
      decide
    refine ⟨⟨⟨date, valid, day⟩, ?_⟩, ?_⟩
    · rw [nanos]
      decide
    · rw [stamped_of_not_leap noLeap, cut, if_neg noLeap, ← nanos]

/-! ### The round trip -/

theorem toChars_eq (instant : Instant) :
    instant.toChars = yearChars instant.date.year ++ '-' :: (padded 2 instant.date.month ++
      '-' :: (padded 2 instant.date.day ++ '_' :: (padded 2 (instant.secondOfDay / 3600) ++
        ':' :: (padded 2 (instant.secondOfDay / 60 % 60) ++
          ':' :: (padded 2 (instant.secondOfDay % 60 + instant.nanos / nanosPerSecond) ++ []))))) := by
  simp only [toChars, List.append_assoc, List.cons_append, List.append_nil]

/-- Reading the timestamp of an instant yields the second that it stands for. -/
theorem ofText_toText {instant : Instant} (h : instant.InCalendar) :
    ofText instant.toText = .ok instant.stamped := by
  obtain ⟨valid, day⟩ := h.date_eq
  obtain ⟨years, months, days⟩ := Date.isValid_iff.mp valid
  have inDay := instant.secondOfDay_lt
  have inYear : -yearLimit ≤ instant.date.year ∧ instant.date.year < yearLimit := by
    unfold Date.firstYear Date.lastYear at years
    unfold yearLimit
    omega
  have inMonth : instant.date.day ≤ 31 := by
    have := (Date.day_le_of_isValid valid).1
    omega
  have leapSeconds := h.leapSeconds_eq
  -- what ends the digits of a year behind a sign
  have noDigit : ∀ rest c, List.head? ('-' :: rest) = some c → c.isDigit = false := by
    intro rest c same
    rw [← Option.some.inj same]
    rfl
  rw [ofText, toText, String.toList_ofList, toChars_eq, ofChars]
  rw [year_yearChars_append inYear (noDigit _)]
  simp only [ok_bind, literal_cons]
  -- each field in turn, with the separator in front of it
  rw [field_padded_append months (by omega), ok_bind]
  simp only [literal_cons, ok_bind]
  rw [field_padded_append ⟨days.1, inMonth⟩ (by omega), ok_bind]
  simp only [literal_cons, ok_bind]
  rw [field_padded_append (by omega) (by omega), ok_bind]
  simp only [literal_cons, ok_bind]
  rw [field_padded_append (by omega) (by omega), ok_bind]
  simp only [literal_cons, ok_bind]
  rw [field_padded_append (by omega) (by omega), ok_bind]
  -- nothing is left, and the date is the valid date that was written
  rw [if_neg (by simp), if_neg (by simp [valid])]
  exact congrArg Except.ok h.ofParts_eq_stamped

/-- A text is read as a year, a month and a day, and as an hour, a minute and a second, with a
separator behind each of them and nothing behind the last. -/
inductive Spells : List Char → Date → Nat → Nat → Nat → Prop where
  | of {text behindYear behindMonth behindDay behindHour behindMinute : List Char} {year : Int}
      {month day hour minute second : Nat} :
      Timestamp.year text = .ok (year, '-' :: behindYear) →
      field 1 12 behindYear = .ok (month, '-' :: behindMonth) →
      field 1 31 behindMonth = .ok (day, '_' :: behindDay) →
      field 0 23 behindDay = .ok (hour, ':' :: behindHour) →
      field 0 59 behindHour = .ok (minute, ':' :: behindMinute) →
      field 0 60 behindMinute = .ok (second, []) →
      Spells text ⟨year, month, day⟩ hour minute second

/-- The characters of a timestamp spell a date that exists, and a time. -/
theorem ofChars_eq_ok {text : List Char} {instant : Instant} (h : ofChars text = .ok instant) :
    ∃ date hour minute second, Spells text date hour minute second ∧ date.isValid = true ∧
      instant = ofParts date hour minute second := by
  obtain ⟨⟨year, _⟩, years, h⟩ := bind_eq_ok_iff.mp h
  obtain ⟨_, behindYear, h⟩ := bind_eq_ok_iff.mp h
  obtain ⟨⟨month, _⟩, months, h⟩ := bind_eq_ok_iff.mp h
  obtain ⟨_, behindMonth, h⟩ := bind_eq_ok_iff.mp h
  obtain ⟨⟨day, _⟩, days, h⟩ := bind_eq_ok_iff.mp h
  obtain ⟨_, behindDay, h⟩ := bind_eq_ok_iff.mp h
  obtain ⟨⟨hour, _⟩, hours, h⟩ := bind_eq_ok_iff.mp h
  obtain ⟨_, behindHour, h⟩ := bind_eq_ok_iff.mp h
  obtain ⟨⟨minute, _⟩, minutes, h⟩ := bind_eq_ok_iff.mp h
  obtain ⟨_, behindMinute, h⟩ := bind_eq_ok_iff.mp h
  obtain ⟨⟨second, rest⟩, seconds, h⟩ := bind_eq_ok_iff.mp h
  rw [literal_eq_ok behindYear] at years
  rw [literal_eq_ok behindMonth] at months
  rw [literal_eq_ok behindDay] at days
  rw [literal_eq_ok behindHour] at hours
  rw [literal_eq_ok behindMinute] at minutes
  dsimp only at h
  cases rest with
  | cons c behind => exact nomatch h
  | nil =>
    rw [if_neg (by simp)] at h
    by_cases valid : (⟨year, month, day⟩ : Date).isValid = true
    · rw [if_neg (by simp [valid])] at h
      exact ⟨_, _, _, _, .of years months days hours minutes seconds, valid,
        (Except.ok.inj h).symm⟩
    · rw [if_pos (by simp [valid])] at h
      exact nomatch h

/-- What is read from a timestamp is the beginning of a second that can be shown. -/
theorem inCalendar_of_ofText {text : String} {instant : Instant} (h : ofText text = .ok instant) :
    instant.InCalendar ∧ instant.stamped = instant := by
  obtain ⟨date, hour, minute, second, spelled, valid, rfl⟩ := ofChars_eq_ok h
  cases spelled with
  | of _ _ _ hours minutes _ =>
    exact inCalendar_ofParts valid (field_eq_ok hours).2 (field_eq_ok minutes).2

end Instant

end SimplePki
