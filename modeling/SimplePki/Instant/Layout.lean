import SimplePki.Instant

/-!
# The layout of timestamps

A timestamp shows the date and the time of an instant down to the second, as in
`2014-12-31_23:59:60`; fractions are not shown, and a leap second is shown as one more second, which
is second sixty at the end of a minute.  Reading is more liberal than writing: a number may have
blanks in front of it and fewer digits, and a year may have a sign.

## Main definitions

* `Instant.toText`: the timestamp of an instant
* `Instant.ofText`: the instant of a timestamp
* `TimestampFault`: why a text is no timestamp
-/

namespace SimplePki

/-- Why a text is no timestamp. -/
inductive TimestampFault where
  | premature
  | invalid
  | outOfRange
  | trailing
  deriving DecidableEq, Repr

/-- The wording of a fault. -/
def TimestampFault.message : TimestampFault → String
  | .premature => "premature end of input"
  | .invalid => "input contains invalid characters"
  | .outOfRange => "input is out of range"
  | .trailing => "trailing input"

namespace Timestamp

/-! ### Writing -/

/-- Decimal digits with zeros in front up to a width. -/
def padded (width n : Nat) : List Char :=
  let digits := Nat.toDigits 10 n
  List.replicate (width - digits.length) '0' ++ digits

/-- Four digits, and a sign outside the years that four digits can write. -/
def yearChars (year : Int) : List Char :=
  if year < 0 then '-' :: padded 4 year.natAbs
  else if 9999 < year then '+' :: padded 4 year.natAbs
  else padded 4 year.natAbs

/-! ### Reading -/

/-- The blanks that may stand in front of a number. -/
def isBlank (c : Char) : Bool :=
  let n := c.toNat
  (0x09 ≤ n && n ≤ 0x0D) || n == 0x20 || n == 0x85 || n == 0xA0 || n == 0x1680 ||
    (0x2000 ≤ n && n ≤ 0x200A) || n == 0x2028 || n == 0x2029 || n == 0x202F || n == 0x205F ||
    n == 0x3000

/-- The number that decimal digits write. -/
def decimalValue (digits : List Char) : Nat :=
  digits.foldl (fun n digit => n * 10 + (digit.toNat - '0'.toNat)) 0

/-- Numbers are read into signed machine words. -/
def wordLimit : Nat := 0x8000000000000000

/-- A number of one digit up to `most` digits, and what follows it. -/
def number (most : Option Nat) (text : List Char) : Except TimestampFault (Nat × List Char) :=
  match text with
  | [] => .error .premature
  | first :: _ =>
    if !first.isDigit then .error .invalid
    else
      let run := text.takeWhile Char.isDigit
      let digits := match most with
        | some most => run.take most
        | none => run
      if wordLimit ≤ decimalValue digits then .error .outOfRange
      else .ok (decimalValue digits, text.drop digits.length)

/-- A number in a range, behind blanks. -/
def field (least most : Nat) (text : List Char) : Except TimestampFault (Nat × List Char) := do
  let (n, rest) ← number (some 2) (text.dropWhile isBlank)
  if least ≤ n ∧ n ≤ most then return (n, rest) else throw .outOfRange

/-- Years are kept in signed words of half that width. -/
def yearLimit : Int := 0x80000000

/-- A year behind blanks: four digits at most, or any number of digits behind a sign. -/
def year (text : List Char) : Except TimestampFault (Int × List Char) := do
  let (n, rest) ← match text.dropWhile isBlank with
    | '-' :: digits => do
      let (n, rest) ← number none digits
      pure (-(n : Int), rest)
    | '+' :: digits => do
      let (n, rest) ← number none digits
      pure ((n : Int), rest)
    | digits => do
      let (n, rest) ← number (some 4) digits
      pure ((n : Int), rest)
  if -yearLimit ≤ n ∧ n < yearLimit then return (n, rest) else throw .outOfRange

/-- What follows a given character. -/
def literal (wanted : Char) (text : List Char) : Except TimestampFault (List Char) :=
  match text with
  | [] => .error .premature
  | c :: rest => if c = wanted then .ok rest else .error .invalid

end Timestamp

namespace Instant

/-- The characters of the timestamp of an instant. -/
def toChars (instant : Instant) : List Char :=
  let date := instant.date
  let second := instant.secondOfDay
  let padded := Timestamp.padded 2
  Timestamp.yearChars date.year ++ '-' :: padded date.month ++ '-' :: padded date.day ++
    '_' :: padded (second / 3600) ++ ':' :: padded (second / 60 % 60) ++
    ':' :: padded (second % 60 + instant.nanos / nanosPerSecond)

/-- The timestamp of an instant. -/
def toText (instant : Instant) : String := String.ofList instant.toChars

/-- The instant that the characters of a timestamp show. -/
def ofChars (text : List Char) : Except TimestampFault Instant := do
  let (year, rest) ← Timestamp.year text
  let (month, rest) ← Timestamp.field 1 12 (← Timestamp.literal '-' rest)
  let (day, rest) ← Timestamp.field 1 31 (← Timestamp.literal '-' rest)
  let (hour, rest) ← Timestamp.field 0 23 (← Timestamp.literal '_' rest)
  let (minute, rest) ← Timestamp.field 0 59 (← Timestamp.literal ':' rest)
  let (second, rest) ← Timestamp.field 0 60 (← Timestamp.literal ':' rest)
  if !rest.isEmpty then throw .trailing
  let date : Date := ⟨year, month, day⟩
  if !date.isValid then throw .outOfRange
  let whole := date.toDays * secondsPerDay + (hour * 3600 + minute * 60 + min second 59 : Nat)
  return ⟨whole, if second = 60 then nanosPerSecond else 0⟩

/-- The instant that a timestamp shows. -/
def ofText (text : String) : Except TimestampFault Instant := ofChars text.toList

end Instant

end SimplePki
