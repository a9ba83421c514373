import Mathlib.Algebra.Group.Nat.Defs
import SimplePki.Proofs.Timestamp

/-!
# The layout of timestamps that are written

Reading is more liberal than writing.  A text is the timestamp of the instant that is read from it
exactly if it has the layout of what is written: four digits for the year and two for everything
else.  The years that four digits cannot write have a sign in front, and more digits only where they
are needed.

The layout says nothing of the calendar: a text may have it and still show no instant.

## Main definitions

* `Timestamp.IsPadded`: digits with zeros in front up to a width only
* `Timestamp.YearLayout`, `Timestamp.Layout`: how a year and a timestamp are written

## Main results

* `Timestamp.isPadded_iff`, `Timestamp.yearLayout_iff`: layouts are what is written
* `Timestamp.field_append_eq_ok`, `Timestamp.year_append_eq_ok`: reading what has the layout
* `Instant.toText_eq_iff`: a text that is read is written back exactly if it has the layout
-/

namespace SimplePki

namespace Timestamp

/-! ### Digits and their values -/

/-- The place value of the first digit is that of all the digits behind it. -/
theorem decimalValue_cons (c : Char) (digits : List Char) :
    decimalValue (c :: digits) =
      decimalValue digits + (c.toNat - '0'.toNat) * 10 ^ digits.length := by
  rw [decimalValue_eq, decimalValue_eq, Nat.ofDigitChars_cons,
    Nat.ofDigitChars_eq_ofDigitChars_zero, Nat.mul_zero, Nat.zero_add, Nat.add_comm, Nat.mul_comm]

theorem digit_lt {c : Char} (h : c.isDigit = true) : c.toNat - '0'.toNat < 10 := by
  rw [Char.isDigit, Bool.and_eq_true, decide_eq_true_iff, decide_eq_true_iff] at h
  have upper : c.toNat ≤ 57 := h.2
  change c.toNat - 48 < 10
  omega

theorem digit_inj {c d : Char} (hc : c.isDigit = true) (hd : d.isDigit = true)
    (h : c.toNat - '0'.toNat = d.toNat - '0'.toNat) : c = d := by
  rw [Char.isDigit, Bool.and_eq_true, decide_eq_true_iff, decide_eq_true_iff] at hc hd
  have lowerC : 48 ≤ c.toNat := hc.1
  have lowerD : 48 ≤ d.toNat := hd.1
  change c.toNat - 48 = d.toNat - 48 at h
  apply Char.toNat_inj.mp
  omega

theorem decimalValue_lt {digits : List Char} (each : ∀ c ∈ digits, c.isDigit = true) :
    decimalValue digits < 10 ^ digits.length := by
  induction digits with
  | nil => decide
  | cons c digits ih =>
    rw [List.forall_mem_cons] at each
    have first := digit_lt each.1
    have others := ih each.2
    have room : (c.toNat - '0'.toNat) * 10 ^ digits.length ≤ 9 * 10 ^ digits.length :=
      Nat.mul_le_mul_right _ (Nat.le_of_lt_succ first)
    rw [decimalValue_cons, List.length_cons, Nat.pow_succ]
    omega

/-- As many digits with the same value are the same digits. -/
theorem eq_of_decimalValue_eq {digits others : List Char}
    (each : ∀ c ∈ digits, c.isDigit = true) (eachOther : ∀ c ∈ others, c.isDigit = true)
    (width : digits.length = others.length) (h : decimalValue digits = decimalValue others) :
    digits = others := by
  induction digits generalizing others with
  | nil => exact (List.eq_nil_of_length_eq_zero width.symm).symm
  | cons c digits ih =>
    cases others with
    | nil => exact nomatch width
    | cons d others =>
      rw [List.forall_mem_cons] at each eachOther
      have width := Nat.succ.inj width
      -- what the others add is less than the place value of the first digit
      have left := decimalValue_lt each.2
      have right := decimalValue_lt eachOther.2
      rw [decimalValue_cons, decimalValue_cons, width] at h
      rw [width] at left
      have positive : 0 < 10 ^ others.length := Nat.pow_pos (by decide)
      have first := congrArg (· / 10 ^ others.length) h
      have behind := congrArg (· % 10 ^ others.length) h
      simp only [Nat.add_mul_div_right _ _ positive, Nat.div_eq_of_lt left,
        Nat.div_eq_of_lt right, Nat.zero_add] at first
      simp only [Nat.add_mul_mod_self_right, Nat.mod_eq_of_lt left,
        Nat.mod_eq_of_lt right] at behind
      rw [digit_inj each.1 eachOther.1 first, ih each.2 eachOther.2 width behind]

/-- Digits that do not begin with a zero are worth at least the place value of the first. -/
theorem le_decimalValue {c : Char} {digits : List Char} (isDigit : c.isDigit = true)
    (noZero : c ≠ '0') : 10 ^ digits.length ≤ decimalValue (c :: digits) := by
  have positive : 0 < c.toNat - '0'.toNat := by
    apply Nat.pos_of_ne_zero
    intro zero
    exact noZero (digit_inj isDigit (by decide) zero)
  have leading : 1 * 10 ^ digits.length ≤ (c.toNat - '0'.toNat) * 10 ^ digits.length :=
    Nat.mul_le_mul_right _ positive
  rw [decimalValue_cons]
  omega

/-- Only zeros write zero. -/
theorem decimalValue_eq_zero_iff {digits : List Char}
    (each : ∀ c ∈ digits, c.isDigit = true) :
    decimalValue digits = 0 ↔ ∀ c ∈ digits, c = '0' := by
  induction digits with
  | nil => simp [decimalValue]
  | cons c digits ih =>
    rw [List.forall_mem_cons] at each ⊢
    have positive : 10 ^ digits.length ≠ 0 := Nat.ne_of_gt (Nat.pow_pos (by decide))
    rw [decimalValue_cons, Nat.add_eq_zero_iff, ih each.2, Nat.mul_eq_zero,
      or_iff_left positive, and_comm]
    refine and_congr_left fun _ => ⟨fun zero => ?_, ?_⟩
    · exact digit_inj each.1 (by decide) zero
    · rintro rfl
      rfl

/-! ### Numbers as they are written -/

/-- Digits with zeros in front up to a width only. -/
structure IsPadded (width : Nat) (digits : List Char) : Prop where
  each : ∀ c ∈ digits, c.isDigit = true
  enough : width ≤ digits.length
  noZero : width < digits.length → digits.head? ≠ some '0'

/-- No number but zero is written with a zero in front. -/
theorem head?_toDigits {n : Nat} (long : 1 < (Nat.toDigits 10 n).length) :
    (Nat.toDigits 10 n).head? ≠ some '0' := by
  intro zero
  have value := Nat.ofDigitChars_ten_toDigits (n := n)
  rw [← decimalValue_eq] at value
  cases written : Nat.toDigits 10 n with
  | nil => exact Nat.toDigits_ne_nil written
  | cons c digits =>
    rw [written] at zero value long
    obtain rfl := Option.some.inj zero
    -- the other digits would be enough
    have each : ∀ c ∈ digits, c.isDigit = true := by
      intro c mem
      apply Nat.isDigit_of_mem_toDigits (b := 10) (n := n) (by decide) (by decide)
      rw [written]
      exact List.mem_cons_of_mem _ mem
    have small := decimalValue_lt each
    have rest : decimalValue digits = n := by
      rw [← value, decimalValue_cons]
      simp
    rw [rest, ← Nat.length_toDigits_le_iff (by decide) (Nat.lt_of_succ_lt_succ long), written,
      List.length_cons] at small
    omega

theorem isPadded_padded {width : Nat} (positive : 0 < width) (n : Nat) :
    IsPadded width (padded width n) where
  each := fun _ => isDigit_of_mem_padded
  enough := by
    rw [padded, List.length_append, List.length_replicate]
    omega
  noZero := by
    intro long
    rw [padded, List.length_append, List.length_replicate] at long
    have none : width - (Nat.toDigits 10 n).length = 0 := by omega
    rw [padded, none]
    exact head?_toDigits (by omega)

theorem IsPadded.ne_nil {width : Nat} {digits : List Char} (h : IsPadded width digits)
    (positive : 0 < width) : digits ≠ [] :=
  List.ne_nil_of_length_pos (Nat.lt_of_lt_of_le positive h.enough)

/-- Beyond the width, every digit is needed. -/
theorem IsPadded.le_decimalValue {width : Nat} {digits : List Char} (h : IsPadded width digits)
    (long : width < digits.length) : 10 ^ (digits.length - 1) ≤ decimalValue digits := by
  have noZero := h.noZero long
  cases digits with
  | nil => exact absurd long (Nat.not_lt_zero _)
  | cons c digits =>
    apply Timestamp.le_decimalValue (h.each c List.mem_cons_self)
    rintro rfl
    exact noZero rfl

/-- What has the layout of a number is how its value is written. -/
theorem padded_decimalValue {width : Nat} {digits : List Char} (positive : 0 < width)
    (h : IsPadded width digits) : padded width (decimalValue digits) = digits := by
  have nonempty : 0 < digits.length := Nat.lt_of_lt_of_le positive h.enough
  have most : (Nat.toDigits 10 (decimalValue digits)).length ≤ digits.length :=
    (Nat.length_toDigits_le_iff (by decide) nonempty).mpr (decimalValue_lt h.each)
  apply eq_of_decimalValue_eq (fun _ => isDigit_of_mem_padded) h.each _ (decimalValue_padded _ _)
  rw [padded, List.length_append, List.length_replicate]
  rcases Nat.eq_or_lt_of_le h.enough with exact | long
  · omega
  · have least : ¬ (Nat.toDigits 10 (decimalValue digits)).length ≤ digits.length - 1 := by
      rw [Nat.length_toDigits_le_iff (by decide) (by omega)]
      exact Nat.not_lt.mpr (h.le_decimalValue long)
    omega

theorem isPadded_iff {width : Nat} (positive : 0 < width) {digits : List Char} :
    IsPadded width digits ↔ ∃ n, padded width n = digits := by
  constructor
  · exact fun h => ⟨decimalValue digits, padded_decimalValue positive h⟩
  · rintro ⟨n, rfl⟩
    exact isPadded_padded positive n

/-- Two decimal digits. -/
def TwoDigits (text : List Char) : Prop := text.length = 2 ∧ ∀ c ∈ text, c.isDigit = true

theorem TwoDigits.isPadded {text : List Char} (h : TwoDigits text) : IsPadded 2 text :=
  ⟨h.2, Nat.le_of_eq h.1.symm, fun long => absurd h.1.symm (Nat.ne_of_lt long)⟩

theorem twoDigits_padded {n : Nat} (small : n < 100) : TwoDigits (padded 2 n) :=
  ⟨length_padded ((Nat.length_toDigits_le_iff (by decide) (by decide)).mpr small),
    fun _ => isDigit_of_mem_padded⟩

/-- A year: four digits, or a sign and at least four.  Behind a plus sign four are never enough, and
behind a minus sign there is a year other than zero. -/
inductive YearLayout : List Char → Prop where
  | plain {digits : List Char} (shape : IsPadded 4 digits) (four : digits.length = 4) :
      YearLayout digits
  | late {digits : List Char} (shape : IsPadded 4 digits) (long : 4 < digits.length) :
      YearLayout ('+' :: digits)
  | early {digits : List Char} (shape : IsPadded 4 digits) (nonzero : ¬ ∀ c ∈ digits, c = '0') :
      YearLayout ('-' :: digits)

/-- The layout `YYYY-MM-DD_HH:MM:SS`. -/
inductive Layout : List Char → Prop where
  | of {year month day hour minute second : List Char} : YearLayout year → TwoDigits month →
      TwoDigits day → TwoDigits hour → TwoDigits minute → TwoDigits second →
      Layout (year ++ '-' :: (month ++ '-' :: (day ++ '_' ::
        (hour ++ ':' :: (minute ++ ':' :: (second ++ []))))))

theorem yearLayout_yearChars (n : Int) : YearLayout (yearChars n) := by
  have shape := isPadded_padded (by decide : 0 < 4) n.natAbs
  unfold yearChars
  by_cases negative : n < 0
  · rw [if_pos negative]
    refine .early shape fun zeros => ?_
    have value := (decimalValue_eq_zero_iff shape.each).mpr zeros
    rw [decimalValue_padded] at value
    omega
  · rw [if_neg negative]
    by_cases late : 9999 < n
    · rw [if_pos late]
      refine .late shape (Nat.lt_of_not_le fun few => ?_)
      have := (Nat.length_toDigits_le_iff (b := 10) (n := n.natAbs) (k := 4) (by decide)
        (by decide)).mp (by rw [padded, List.length_append] at few; omega)
      omega
    · rw [if_neg late]
      exact .plain shape
        (length_padded ((Nat.length_toDigits_le_iff (by decide) (by decide)).mpr (by omega)))

theorem yearChars_plain {digits : List Char} (shape : IsPadded 4 digits)
    (four : digits.length = 4) : yearChars (decimalValue digits : Int) = digits := by
  have small := decimalValue_lt shape.each
  rw [four] at small
  rw [yearChars, if_neg (by omega), if_neg (by omega), Int.natAbs_natCast]
  exact padded_decimalValue (by decide) shape

theorem yearChars_late {digits : List Char} (shape : IsPadded 4 digits)
    (long : 4 < digits.length) : yearChars (decimalValue digits : Int) = '+' :: digits := by
  have large : 10 ^ 4 ≤ decimalValue digits :=
    Nat.le_trans (Nat.pow_le_pow_right (by decide) (Nat.le_sub_one_of_lt long))
      (shape.le_decimalValue long)
  rw [yearChars, if_neg (by omega), if_pos (by omega), Int.natAbs_natCast,
    padded_decimalValue (by decide) shape]

theorem yearChars_early {digits : List Char} (shape : IsPadded 4 digits)
    (nonzero : ¬ ∀ c ∈ digits, c = '0') :
    yearChars (-(decimalValue digits : Int)) = '-' :: digits := by
  rw [← decimalValue_eq_zero_iff shape.each] at nonzero
  rw [yearChars, if_pos (by omega), Int.natAbs_neg, Int.natAbs_natCast,
    padded_decimalValue (by decide) shape]

/-- The layout of a year is how years are written. -/
theorem yearLayout_iff {text : List Char} : YearLayout text ↔ ∃ n, yearChars n = text := by
  constructor
  · intro layout
    cases layout with
    | plain shape four => exact ⟨_, yearChars_plain shape four⟩
    | late shape long => exact ⟨_, yearChars_late shape long⟩
    | early shape nonzero => exact ⟨_, yearChars_early shape nonzero⟩
  · rintro ⟨n, rfl⟩
    exact yearLayout_yearChars n

/-! ### Reading what has the layout -/

theorem number_append_eq_ok {most : Option Nat} {digits rest behind : List Char} {n : Nat}
    (nonempty : digits ≠ []) (each : ∀ c ∈ digits, c.isDigit = true)
    (stop : most = some digits.length ∨
      (most = none ∧ ∀ c, rest.head? = some c → c.isDigit = false))
    (h : number most (digits ++ rest) = .ok (n, behind)) :
    n = decimalValue digits ∧ behind = rest := by
  rw [number_append nonempty each stop] at h
  split at h
  · exact nomatch h
  · cases h
    exact ⟨rfl, rfl⟩

/-- Two digits are read as what they are written for. -/
theorem field_append_eq_ok {least most n : Nat} {digits rest behind : List Char}
    (two : TwoDigits digits) (h : field least most (digits ++ rest) = .ok (n, behind)) :
    padded 2 n = digits ∧ behind = rest := by
  have nonempty := two.isPadded.ne_nil (by decide)
  obtain ⟨⟨value, left⟩, read, checked⟩ := bind_eq_ok_iff.mp h
  rw [dropWhile_isBlank_append nonempty two.2] at read
  obtain ⟨rfl, rfl⟩ := number_append_eq_ok nonempty two.2 (.inl (congrArg some two.1.symm)) read
  dsimp only at checked
  split at checked
  · cases checked
    exact ⟨padded_decimalValue (by decide) two.isPadded, rfl⟩
  · exact nomatch checked

theorem checkYear_eq_ok {n m : Int} {rest behind : List Char}
    (h : checkYear n rest = .ok (m, behind)) : m = n ∧ behind = rest := by
  unfold checkYear at h
  split at h
  · cases h
    exact ⟨rfl, rfl⟩
  · exact nomatch h

/-- A year in its layout is read as the year it is written for. -/
theorem year_append_eq_ok {n : Int} {text rest behind : List Char} (layout : YearLayout text)
    (boundary : ∀ c, rest.head? = some c → c.isDigit = false)
    (h : year (text ++ rest) = .ok (n, behind)) : yearChars n = text ∧ behind = rest := by
  cases layout with
  | plain shape four =>
    obtain ⟨first, others, rfl⟩ := List.exists_cons_of_ne_nil (shape.ne_nil (by decide))
    rw [List.cons_append, year_of_isDigit (shape.each first List.mem_cons_self)] at h
    obtain ⟨⟨value, left⟩, read, checked⟩ := bind_eq_ok_iff.mp h
    obtain ⟨rfl, rfl⟩ := number_append_eq_ok (shape.ne_nil (by decide)) shape.each
      (.inl (congrArg some four.symm)) read
    obtain ⟨rfl, rfl⟩ := checkYear_eq_ok checked
    exact ⟨yearChars_plain shape four, rfl⟩
  | late shape long =>
    rw [List.cons_append, year_plus] at h
    obtain ⟨⟨value, left⟩, read, checked⟩ := bind_eq_ok_iff.mp h
    obtain ⟨rfl, rfl⟩ := number_append_eq_ok (shape.ne_nil (by decide)) shape.each
      (.inr ⟨rfl, boundary⟩) read
    obtain ⟨rfl, rfl⟩ := checkYear_eq_ok checked
    exact ⟨yearChars_late shape long, rfl⟩
  | early shape nonzero =>
    rw [List.cons_append, year_minus] at h
    obtain ⟨⟨value, left⟩, read, checked⟩ := bind_eq_ok_iff.mp h
    obtain ⟨rfl, rfl⟩ := number_append_eq_ok (shape.ne_nil (by decide)) shape.each
      (.inr ⟨rfl, boundary⟩) read
    obtain ⟨rfl, rfl⟩ := checkYear_eq_ok checked
    exact ⟨yearChars_early shape nonzero, rfl⟩

end Timestamp

namespace Instant

open Timestamp

variable {text : String} {instant : Instant}

/-- A date and a time are shown as they are. -/
theorem toChars_ofParts {date : Date} {hour minute second : Nat} (valid : date.isValid = true)
    (hours : hour ≤ 23) (minutes : minute ≤ 59) (seconds : second ≤ 60) :
    (ofParts date hour minute second).toChars = yearChars date.year ++ '-' ::
      (padded 2 date.month ++ '-' :: (padded 2 date.day ++ '_' :: (padded 2 hour ++
        ':' :: (padded 2 minute ++ ':' :: (padded 2 second ++ []))))) := by
  have inDay : (ofParts date hour minute second).secondOfDay =
      hour * 3600 + minute * 60 + min second 59 := by
    rw [secondOfDay, seconds_ofParts]
    unfold secondsPerDay
    omega
  have sameDate : (ofParts date hour minute second).date = date := by
    rw [Instant.date, days_ofParts date second hours minutes, Date.ofDays_toDays valid]
  have leap : (ofParts date hour minute second).nanos / nanosPerSecond =
      if second = 60 then 1 else 0 := by
    change (if second = 60 then nanosPerSecond else 0) / nanosPerSecond = _
    split <;> rfl
  have shownHour : (hour * 3600 + minute * 60 + min second 59) / 3600 = hour := by omega
  have shownMinute : (hour * 3600 + minute * 60 + min second 59) / 60 % 60 = minute := by omega
  have shownSecond : (hour * 3600 + minute * 60 + min second 59) % 60 +
      (if second = 60 then 1 else 0) = second := by
    split <;> omega
  rw [toChars_eq, sameDate, inDay, leap, shownHour, shownMinute, shownSecond]

theorem layout_toChars (h : instant.InCalendar) : Layout instant.toChars := by
  have days := Date.day_le_of_isValid h.date_eq.1
  have months := (Date.isValid_iff.mp h.date_eq.1).2.1
  have inDay := instant.secondOfDay_lt
  have seconds := h.leapSeconds_eq
  rw [toChars_eq]
  exact .of (yearLayout_yearChars _) (twoDigits_padded (by omega)) (twoDigits_padded (by omega))
    (twoDigits_padded (by omega)) (twoDigits_padded (by omega)) (twoDigits_padded (by omega))

/-- What has the layout is written back as it was read. -/
theorem toChars_of_layout {chars : List Char} (layout : Layout chars)
    (h : ofChars chars = .ok instant) : instant.toChars = chars := by
  obtain ⟨date, hour, minute, second, spelled, valid, rfl⟩ := ofChars_eq_ok h
  cases layout with
  | of yearLayout twoMonth twoDay twoHour twoMinute twoSecond =>
    cases spelled with
    | of years months days hours minutes seconds =>
      have boundary : ∀ rest c, List.head? ('-' :: rest) = some c → c.isDigit = false := by
        intro rest c same
        rw [← Option.some.inj same]
        rfl
      rw [toChars_ofParts valid (field_eq_ok hours).2 (field_eq_ok minutes).2
        (field_eq_ok seconds).2]
      -- each part is read up to its separator, and is how its value is written
      obtain ⟨year, behind⟩ := year_append_eq_ok yearLayout (boundary _) years
      obtain rfl := (List.cons.inj behind).2
      obtain ⟨month, behind⟩ := field_append_eq_ok twoMonth months
      obtain rfl := (List.cons.inj behind).2
      obtain ⟨day, behind⟩ := field_append_eq_ok twoDay days
      obtain rfl := (List.cons.inj behind).2
      obtain ⟨hour, behind⟩ := field_append_eq_ok twoHour hours
      obtain rfl := (List.cons.inj behind).2
      obtain ⟨minute, behind⟩ := field_append_eq_ok twoMinute minutes
      obtain rfl := (List.cons.inj behind).2
      obtain ⟨second, -⟩ := field_append_eq_ok twoSecond seconds
      rw [year, month, day, hour, minute, second]

/-- A timestamp is written back exactly if it has the layout of what is written. -/
theorem toText_eq_iff (h : ofText text = .ok instant) :
    instant.toText = text ↔ Layout text.toList := by
  rw [toText]
  constructor
  · rintro rfl
    rw [String.toList_ofList]
    exact layout_toChars (inCalendar_of_ofText h).1
  · intro layout
    rw [toChars_of_layout layout h, String.ofList_toList]

end Instant

end SimplePki
