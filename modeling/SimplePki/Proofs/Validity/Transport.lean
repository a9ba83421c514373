import SimplePki.Proofs.Calendar.Days
import SimplePki.Proofs.Certificate.Issue
import SimplePki.Proofs.Octets.Utf8
import SimplePki.Proofs.SExpr.Stream

/-!
# Validities over the wire

A validity with a bound is written, sent as octets, read and decoded, and has the same bounds as
before but for the fractions of their seconds.  That holds for all instants of the calendar, in
years before zero and in years of more than four digits as well: their timestamps are short, so
that no limit of the reader is met.

A leap second at the end of a minute is shown as the sixtieth second and stays one.  The exception
are leap seconds within a minute: they have the timestamp of the second that comes next, and come
back as that.

## Main definitions

* `Validity.InRange`: the validities with bounds between the first and the last second of the
  calendar

## Main results

* `Instant.length_toChars_le`: timestamps are short
* `Instant.toText_of_last`, `Instant.toText_of_not_last`: how leap seconds are shown
* `Validity.read_pack_encode`: the expression of a validity is read from its octets
* `Validity.bounds_survive_transport`: the bounds come back as the seconds that are shown
-/

namespace SimplePki

/-! ### Lengths of timestamps -/

theorem Octets.length_ofText_ofList_le (chars : List Char) :
    (Octets.ofText (String.ofList chars)).length ≤ 4 * chars.length := by
  rw [ofText_ofList]
  induction chars with
  | nil => exact Nat.le_refl 0
  | cons c chars ih =>
    have one := String.length_utf8EncodeChar c
    have atMostFour := c.utf8Size_le_four
    rw [List.flatMap_cons, List.length_append, List.length_cons]
    omega

namespace Timestamp

theorem length_padded_le {width most n : Nat} (wide : width ≤ most)
    (fits : (Nat.toDigits 10 n).length ≤ most) : (padded width n).length ≤ most := by
  rw [padded, List.length_append, List.length_replicate]
  omega

theorem length_padded_two {n : Nat} (small : n < 100) : (padded 2 n).length ≤ 2 :=
  length_padded_le (Nat.le_refl 2) ((Nat.length_toDigits_le_iff (by omega) (by omega)).mpr small)

/-- A year has six digits at most, and a sign. -/
theorem length_yearChars_le {year : Int} (range : Date.firstYear ≤ year ∧ year ≤ Date.lastYear) :
    (yearChars year).length ≤ 7 := by
  unfold Date.firstYear Date.lastYear at range
  have fits : (Nat.toDigits 10 year.natAbs).length ≤ 6 :=
    (Nat.length_toDigits_le_iff (by omega) (by omega)).mpr (by omega)
  have digits : (padded 4 year.natAbs).length ≤ 6 := length_padded_le (by decide) fits
  unfold yearChars
  split
  · exact Nat.succ_le_succ digits
  · split
    · exact Nat.succ_le_succ digits
    · exact Nat.le_succ_of_le digits

end Timestamp

namespace Instant

variable {instant : Instant}

theorem length_toChars_le (h : instant.InCalendar) : instant.toChars.length ≤ 22 := by
  obtain ⟨years, months, -, days⟩ := Date.isValid_iff.mp h.date_eq.1
  have inMonth := (Date.day_le_of_isValid h.date_eq.1).1
  have inDay := instant.secondOfDay_lt
  have inSecond : instant.nanos / nanosPerSecond < 2 :=
    Nat.div_lt_of_lt_mul (by rw [Nat.mul_comm]; exact h.inSecond)
  have year := Timestamp.length_yearChars_le years
  have month := Timestamp.length_padded_two (n := instant.date.month) (by omega)
  have day := Timestamp.length_padded_two (n := instant.date.day) (by omega)
  have hour := Timestamp.length_padded_two (n := instant.secondOfDay / 3600) (by omega)
  have minute := Timestamp.length_padded_two (n := instant.secondOfDay / 60 % 60) (by omega)
  have second := Timestamp.length_padded_two
    (n := instant.secondOfDay % 60 + instant.nanos / nanosPerSecond) (by omega)
  rw [toChars_eq]
  simp only [List.length_append, List.length_cons, List.length_nil]
  omega

/-! ### Seconds and leap seconds -/

/-- A leap second at the end of a minute is shown as the sixtieth second. -/
theorem toText_of_last (inSecond : instant.nanos < 2 * nanosPerSecond)
    (leap : instant.isLeap = true) (last : instant.seconds % 60 = 59) :
    ∃ front, instant.toText = front ++ ":60" := by
  have second : instant.secondOfDay % 60 + instant.nanos / nanosPerSecond = 60 := by
    have long := isLeap_iff.mp leap
    have inMinute := instant.secondOfDay_mod
    unfold nanosPerSecond at *
    omega
  refine ⟨String.ofList (Timestamp.yearChars instant.date.year ++
    '-' :: Timestamp.padded 2 instant.date.month ++ '-' :: Timestamp.padded 2 instant.date.day ++
    '_' :: Timestamp.padded 2 (instant.secondOfDay / 3600) ++
    ':' :: Timestamp.padded 2 (instant.secondOfDay / 60 % 60)), ?_⟩
  have digits : ":60" = String.ofList (':' :: Timestamp.padded 2 60) := by decide
  rw [toText, toChars, second, digits, ← String.ofList_append]

/-- A leap second within a minute is shown as the second that comes next. -/
theorem toText_of_not_last (inSecond : instant.nanos < 2 * nanosPerSecond)
    (leap : instant.isLeap = true) (notLast : instant.seconds % 60 ≠ 59) :
    instant.toText = (⟨instant.seconds + 1, 0⟩ : Instant).toText := by
  have inMinute := instant.secondOfDay_mod
  have long := isLeap_iff.mp leap
  have one : instant.nanos / nanosPerSecond = 1 := by
    unfold nanosPerSecond at *
    omega
  -- the second that comes next is in the same minute, and so on the same day
  have date : (⟨instant.seconds + 1, 0⟩ : Instant).date = instant.date := by
    have day : (instant.seconds + 1) / secondsPerDay = instant.seconds / secondsPerDay := by
      unfold secondsPerDay
      omega
    rw [Instant.date, day, Instant.date]
  have next : (⟨instant.seconds + 1, 0⟩ : Instant).secondOfDay = instant.secondOfDay + 1 := by
    unfold secondOfDay secondsPerDay
    dsimp only
    omega
  have hour : (instant.secondOfDay + 1) / 3600 = instant.secondOfDay / 3600 := by omega
  have minute : (instant.secondOfDay + 1) / 60 = instant.secondOfDay / 60 := by omega
  have second : (instant.secondOfDay + 1) % 60 = instant.secondOfDay % 60 + 1 := by omega
  rw [toText, toText, toChars_eq, toChars_eq, one, date, next, hour, minute, second, Nat.zero_div,
    Nat.add_zero]

end Instant

namespace Validity

/-- The bounds that there are lie between the first and the last second of the calendar. -/
structure InRange (validity : Validity) : Prop where
  notBefore : ∀ instant, validity.notBefore = some instant → instant.InRange
  notAfter : ∀ instant, validity.notAfter = some instant → instant.InRange

variable {validity : Validity}

theorem InRange.inCalendar (h : validity.InRange) : validity.InCalendar :=
  ⟨fun instant same => Instant.inCalendar_iff.mpr (h.notBefore instant same),
    fun instant same => Instant.inCalendar_iff.mpr (h.notAfter instant same)⟩

/-! ### The way over the wire -/

/-- A bound that can be shown is short. -/
theorem measured_encodeBound {name : String}
    (named : (Octets.ofText name).length < Reader.lengthLimit) {instant : Instant}
    (h : instant.InCalendar) : (encodeBound name instant).Measured := by
  refine SExpr.measured_term named (Nat.lt_of_le_of_lt ?_ (by decide : 88 < Reader.lengthLimit))
  have timestamp := Octets.length_ofText_ofList_le instant.toChars
  have short := Instant.length_toChars_le h
  rw [Instant.toText]
  omega

theorem measured_encode {expr : SExpr} (h : validity.InCalendar)
    (written : validity.encode = some expr) : expr.Measured := by
  unfold encode at written
  split at written
  · exact nomatch written
  · obtain rfl := Option.some.inj written
    rw [SExpr.measured_cons_iff]
    refine ⟨SExpr.measured_ofOctets_iff.mpr (by decide),
      SExpr.measured_list_iff.mpr fun bound mem => ?_⟩
    rcases List.mem_append.mp mem with first | last
    · obtain ⟨instant, known, rfl⟩ := Option.map_eq_some_iff.mp (Option.mem_toList.mp first)
      exact measured_encodeBound (by decide) (h.notBefore instant known)
    · obtain ⟨instant, known, rfl⟩ := Option.map_eq_some_iff.mp (Option.mem_toList.mp last)
      exact measured_encodeBound (by decide) (h.notAfter instant known)

/-- The expression of a validity is read from its octets. -/
theorem read_pack_encode {expr : SExpr} (h : validity.InCalendar)
    (written : validity.encode = some expr) : SExpr.read expr.pack = .ok expr :=
  SExpr.read_pack_of_measured ((nesting_encode_le written).trans (by decide))
    (measured_encode h written)

theorem exists_encode (bounded : validity.isUnbounded = false) :
    ∃ expr, validity.encode = some expr :=
  ⟨_, encode_of_bounded bounded⟩

/-- A validity with a bound comes back from its octets with the bounds that it has and no others,
each as the second that its timestamp stands for, and so does a timestamp.  That is the beginning of
the second of the bound, and of its leap second if that ends a minute, as which it is shown.  Only
leap seconds within a minute do not come back: they are shown as the second that comes next, and
come back as that. -/
theorem bounds_survive_transport :
    (∀ validity : Validity, validity.isUnbounded = false → validity.InRange →
      ∃ expr, validity.encode = some expr ∧ SExpr.read expr.pack = .ok expr ∧
        decode expr =
          .ok ⟨validity.notBefore.map Instant.stamped, validity.notAfter.map Instant.stamped⟩) ∧
    (∀ instant : Instant, instant.InRange → readTimestamp instant.toText = .ok instant.stamped) ∧
    (∀ instant : Instant, instant.InRange →
      (instant.stamped = instant.cut ↔ (instant.isLeap = true → instant.seconds % 60 = 59)) ∧
      (instant.isLeap = true → instant.seconds % 60 = 59 →
        ∃ front, instant.toText = front ++ ":60") ∧
      (instant.isLeap = true → instant.seconds % 60 ≠ 59 →
        instant.stamped = ⟨instant.seconds + 1, 0⟩ ∧
          instant.toText = (⟨instant.seconds + 1, 0⟩ : Instant).toText)) := by
  refine ⟨?_, ?_, ?_⟩
  · intro validity bounded inRange
    obtain ⟨expr, written⟩ := exists_encode bounded
    exact ⟨expr, written, read_pack_encode inRange.inCalendar written,
      decode_encode inRange.inCalendar written⟩
  · intro instant inRange
    rw [readTimestamp, Instant.ofText_toText (Instant.inCalendar_iff.mpr inRange)]
  · intro instant inRange
    refine ⟨Instant.stamped_eq_cut_iff, ?_, ?_⟩
    · intro leap last
      exact Instant.toText_of_last inRange.inSecond leap last
    · intro leap notLast
      exact ⟨Instant.stamped_of_not_last leap notLast,
        Instant.toText_of_not_last inRange.inSecond leap notLast⟩

/-- A leap second behind the last but one second of a day is shown as the last second of that day,
and comes back as that. -/
theorem leap_second_within_a_minute_is_moved :
    let leap : Instant := ⟨1435708798, 1500000000⟩
    leap.InRange ∧ leap.cut = ⟨1435708798, 1000000000⟩ ∧ leap.toText = "2015-06-30_23:59:59" ∧
      readTimestamp leap.toText = .ok ⟨1435708799, 0⟩ ∧
      ∃ expr, encode ⟨some leap, none⟩ = some expr ∧ SExpr.read expr.pack = .ok expr ∧
        decode expr = .ok ⟨some ⟨1435708799, 0⟩, none⟩ ∧
        decode expr ≠ .ok ⟨some leap.cut, none⟩ := by
  intro leap
  have inRange : leap.InRange := ⟨by decide, by decide, by decide⟩
  have shown : leap.toText = "2015-06-30_23:59:59" := by decide
  have read : readTimestamp "2015-06-30_23:59:59" = .ok ⟨1435708799, 0⟩ := by decide +kernel
  have known : InRange ⟨some leap, none⟩ :=
    ⟨fun _ same => Option.some.inj same ▸ inRange, fun _ none => nomatch none⟩
  obtain ⟨expr, written⟩ := @exists_encode ⟨some leap, none⟩ rfl
  have decoded : decode expr = .ok ⟨some ⟨1435708799, 0⟩, none⟩ :=
    decode_encode known.inCalendar written
  refine ⟨inRange, by decide, shown, shown ▸ read, expr, written,
    read_pack_encode known.inCalendar written, decoded, ?_⟩
  rw [decoded, Ne, Except.ok.injEq]
  decide

/-- From a fraction behind the first second of the calendar, five digits and a sign in its year, up
to the middle of a leap second. -/
theorem first_second_and_leap_second_survive_transport :
    let first : Instant := ⟨Date.firstDay * Instant.secondsPerDay, 5⟩
    let leap : Instant := ⟨1483228799, 1500000000⟩
    first.toText = "-262143-01-01_00:00:00" ∧ leap.toText = "2016-12-31_23:59:60" ∧
      ∃ expr, encode ⟨some first, some leap⟩ = some expr ∧ SExpr.read expr.pack = .ok expr ∧
        decode expr = .ok ⟨some ⟨first.seconds, 0⟩, some ⟨1483228799, 1000000000⟩⟩ := by
  refine ⟨by decide, by decide, bounds_survive_transport.1 _ rfl ⟨?_, ?_⟩⟩
  · intro instant same
    rw [← Option.some.inj same]
    exact ⟨by decide, by decide, by decide⟩
  · intro instant same
    rw [← Option.some.inj same]
    exact ⟨by decide, by decide, by decide⟩

end Validity

end SimplePki
