import Mathlib.Data.Nat.Digits.Defs
import SimplePki.Proofs.SExpr.Stream

/-!
# Lengths in machine words

The reader counts without a bound.  A machine counts in words: it multiplies and adds digit after
digit, moves a position over them, adds the number to that position and cuts the input there.  Only
the number is checked for a bound; the positions are not, and an octet or a slice is fetched without
asking whether it is there.

`Machine` spells these steps out, with a fault of its own for whatever leaves the words or the input.
In an input that fits into memory no such fault occurs: a number beyond the words is refused as
such, however many digits write it, and a number beyond the input as an early end.

## Main definitions

* `Machine.Halt`: what can stop a machine, refusals and faults
* `Machine.length`, `Machine.lengthPrefixed`, `Machine.readNext`: the reader, step by step in words
* `Machine.ofResult`: what a reader leaves, in words

## Main results

* `Machine.lengthFrom_eq`: one digit after the other, up to the first word that is too large
* `Machine.lengthPrefixed_eq`: the machine does what the reader does, wherever an octet string stands
* `SExpr.readNext_digits_colon`: what stands behind a length of any size
* `SExpr.lengths_are_exact`: both together
-/

namespace SimplePki

open Octets

/-! ### The number that digits write -/

namespace Octets

/-- The number that digits write when they continue those of another number. -/
def decimalFrom (n : Nat) (digits : Octets) : Nat :=
  digits.foldl (fun n digit => n * 10 + (digit.toNat - 0x30)) n

theorem decimalFrom_cons (n : Nat) (digit : UInt8) (digits : Octets) :
    decimalFrom n (digit :: digits) = decimalFrom (n * 10 + (digit.toNat - 0x30)) digits := by
  rw [decimalFrom, decimalFrom, List.foldl_cons]

/-- More digits never write a smaller number. -/
theorem le_decimalFrom (n : Nat) (digits : Octets) : n ≤ decimalFrom n digits := by
  induction digits generalizing n with
  | nil => exact Nat.le_refl n
  | cons digit digits ih =>
    rw [decimalFrom_cons]
    apply Nat.le_trans _ (ih _)
    omega

/-- The place value of every digit is ten times that of the digit behind it. -/
theorem decimalValue_eq_ofDigits (digits : Octets) :
    Reader.decimalValue digits =
      Nat.ofDigits 10 (digits.reverse.map fun digit => digit.toNat - 0x30) := by
  rw [Nat.ofDigits_eq_foldr, List.foldr_map, List.foldr_reverse, Reader.decimalValue]
  congr 1
  funext n digit
  rw [Nat.cast_id, Nat.add_comm, Nat.mul_comm]

end Octets

namespace Machine

/-! ### Words -/

/-- What stops a machine: a refusal of the input, or a fault of its own. -/
inductive Halt where
  | refused (error : ReadError)
  /-- A sum or a difference that was not checked leaves the words. -/
  | overflow
  /-- An octet or a slice is not in the input. -/
  | outOfRange
  deriving DecidableEq, Repr

/-- A run on words. -/
abbrev Run := Except Halt

/-- A sum that is not checked. -/
def add (a b : UInt64) : Run UInt64 :=
  if a.toNat + b.toNat < UInt64.size then .ok (a + b) else .error .overflow

/-- A difference that is not checked. -/
def sub (a b : UInt64) : Run UInt64 :=
  if b ≤ a then .ok (a - b) else .error .overflow

/-- A sum that is checked. -/
def add? (a b : UInt64) : Option UInt64 :=
  if a.toNat + b.toNat < UInt64.size then some (a + b) else none

/-- A product that is checked. -/
def mul? (a b : UInt64) : Option UInt64 :=
  if a.toNat * b.toNat < UInt64.size then some (a * b) else none

/-- An octet that is fetched without a check. -/
def octetAt (input : Octets) (pos : UInt64) : Run UInt8 :=
  match input[pos.toNat]? with
  | some octet => .ok octet
  | none => .error .outOfRange

/-- A slice that is cut without a check. -/
def slice (input : Octets) (start stop : UInt64) : Run Octets :=
  if start ≤ stop ∧ stop.toNat ≤ input.length then
    .ok ((input.drop start.toNat).take (stop.toNat - start.toNat))
  else .error .outOfRange

/-- The value of a decimal digit. -/
def digitValue (digit : UInt8) : Run UInt64 :=
  if 0x30 ≤ digit then .ok (digit - 0x30).toUInt64 else .error .overflow

/-- A number with one more digit, both steps being checked. -/
def appendDigit? (n digit : UInt64) : Option UInt64 := (mul? n 10).bind (add? · digit)

/-! ### Steps of the reader -/

/-- A number and the position behind its digits, of which those in front of `pos` write `n`. -/
def lengthFrom (start n pos : UInt64) : Octets → Run (UInt64 × UInt64)
  | [] => .ok (n, pos)
  | octet :: rest =>
    if isDigit octet then do
      let digit ← digitValue octet
      match appendDigit? n digit with
      | none => .error (.refused (.invalidLength start.toNat))
      | some more => do
        let behind ← add pos 1
        lengthFrom start more behind rest
    else .ok (n, pos)

/-- Whether the digits between two positions begin with a superfluous zero. -/
def hasSuperfluousZero (input : Octets) (start pos : UInt64) : Run Bool := do
  let width ← sub pos start
  if 1 < width then do
    let first ← octetAt input start
    return first == 0x30
  else return false

/-- A length and the position behind it. -/
def length (input : Octets) (start : UInt64) : Run (UInt64 × UInt64) := do
  let (n, pos) ← lengthFrom start 0 start (input.drop start.toNat)
  if ← hasSuperfluousZero input start pos then .error (.refused (.invalidLength start.toNat))
  else return (n, pos)

/-- The octets that a length counts, behind a colon, and the position behind them. -/
def afterColon (input : Octets) (n colon : UInt64) : Run (Octets × UInt64) :=
  match input[colon.toNat]? with
  | none => .error (.refused .unexpectedEnd)
  | some octet =>
    if octet = 0x3A then do
      let pos ← add colon 1
      match (add? pos n).filter (·.toNat ≤ input.length) with
      | none => .error (.refused .unexpectedEnd)
      | some stop => do
        let octets ← slice input pos stop
        return (octets, stop)
    else .error (.refused (.unexpectedOctet octet colon.toNat))

/-- The octets behind a length and a colon, and the position behind them. -/
def lengthPrefixed (input : Octets) (start : UInt64) : Run (Octets × UInt64) := do
  let (n, colon) ← length input start
  afterColon input n colon

/-- The octet string behind a length at the front of an input, and what follows it. -/
def readNext (input : Octets) : Run (SExpr × Octets) := do
  let (octets, pos) ← lengthPrefixed input 0
  let rest ← slice input pos (UInt64.ofNat input.length)
  return (.ofOctets octets, rest)

/-- What a reader leaves, in words: a value with the position behind it, or a refusal. -/
def ofResult {α β : Type} (word : α → β) : EStateM.Result ReadError Cursor α → Run (β × UInt64)
  | .ok value next => .ok (word value, UInt64.ofNat next.offset)
  | .error error _ => .error (.refused error)

/-! ### No fault occurs -/

theorem toNat_ofNat {n : Nat} (h : n < UInt64.size) : (UInt64.ofNat n).toNat = n :=
  UInt64.toNat_ofNat_of_lt' h

theorem add_ofNat {a b : Nat} (h : a + b < UInt64.size) :
    add (UInt64.ofNat a) (UInt64.ofNat b) = .ok (UInt64.ofNat (a + b)) := by
  have left := toNat_ofNat (n := a) (by omega)
  have right := toNat_ofNat (n := b) (by omega)
  rw [add, left, right, if_pos h, UInt64.ofNat_add]

theorem add?_ofNat {a b : Nat} (left : a < UInt64.size) (right : b < UInt64.size) :
    add? (UInt64.ofNat a) (UInt64.ofNat b) =
      if a + b < UInt64.size then some (UInt64.ofNat (a + b)) else none := by
  rw [add?, toNat_ofNat left, toNat_ofNat right, UInt64.ofNat_add]

/-- A number beyond the input may lead beyond the words, or only beyond the input. -/
theorem filter_add?_ofNat {a b limit : Nat} (left : a < UInt64.size) (right : b < UInt64.size)
    (short : limit < UInt64.size) :
    (add? (UInt64.ofNat a) (UInt64.ofNat b)).filter (·.toNat ≤ limit) =
      if a + b ≤ limit then some (UInt64.ofNat (a + b)) else none := by
  rw [add?_ofNat left right]
  by_cases word : a + b < UInt64.size
  · rw [if_pos word, Option.filter_some, toNat_ofNat word]
    simp
  · rw [if_neg word, if_neg (by omega), Option.filter_none]

theorem sub_ofNat {a b : Nat} (h : a + b < UInt64.size) :
    sub (UInt64.ofNat (a + b)) (UInt64.ofNat a) = .ok (UInt64.ofNat b) := by
  have left := toNat_ofNat h
  have right := toNat_ofNat (n := a) (by omega)
  have ordered : UInt64.ofNat a ≤ UInt64.ofNat (a + b) := by
    rw [UInt64.le_iff_toNat_le, left, right]
    exact Nat.le_add_right a b
  rw [sub, if_pos ordered, UInt64.ofNat_add, UInt64.add_comm, UInt64.add_sub_cancel]

theorem digitValue_of_isDigit {digit : UInt8} (h : isDigit digit = true) :
    digitValue digit = .ok (UInt64.ofNat (digit.toNat - 0x30)) := by
  simp only [isDigit, Bool.and_eq_true, decide_eq_true_eq] at h
  have value : digit.toNat - 0x30 = (digit - 0x30).toNat :=
    (UInt8.toNat_sub_of_le digit 0x30 h.1).symm
  rw [digitValue, if_pos h.1, value]
  simp

/-- Both steps together are within the words exactly if the number is. -/
theorem appendDigit?_eq {n d : Nat} (small : n < UInt64.size) (digit : d < UInt64.size) :
    appendDigit? (UInt64.ofNat n) (UInt64.ofNat d) =
      if n * 10 + d < UInt64.size then some (UInt64.ofNat (n * 10 + d)) else none := by
  have ten : (10 : UInt64).toNat = 10 := rfl
  rw [appendDigit?, mul?, toNat_ofNat small, ten]
  by_cases fits : n * 10 < UInt64.size
  · have product : UInt64.ofNat n * 10 = UInt64.ofNat (n * 10) := by
      rw [UInt64.ofNat_mul]
      rfl
    rw [if_pos fits, Option.bind_some, product, add?_ofNat fits digit]
  · rw [if_neg fits, Option.bind_none, if_neg (by omega)]

theorem slice_ofNat (input : Octets) (start : Nat) {n : Nat} (inside : start + n ≤ input.length)
    (short : input.length < UInt64.size) :
    slice input (UInt64.ofNat start) (UInt64.ofNat (start + n)) =
      .ok ((input.drop start).take n) := by
  have left := toNat_ofNat (n := start) (by omega)
  have right := toNat_ofNat (n := start + n) (by omega)
  have ordered : UInt64.ofNat start ≤ UInt64.ofNat (start + n) := by
    rw [UInt64.le_iff_toNat_le, left, right]
    exact Nat.le_add_right start n
  rw [slice, left, right, if_pos ⟨ordered, inside⟩, Nat.add_sub_cancel_left]

/-- Digits are appended to a number up to where they end, or to where it leaves the words. -/
theorem lengthFrom_eq (start : UInt64) {n pos : Nat} (small : n < UInt64.size) (ahead : Octets)
    (room : pos + ahead.length < UInt64.size) :
    lengthFrom start (UInt64.ofNat n) (UInt64.ofNat pos) ahead =
      if decimalFrom n (ahead.takeWhile isDigit) < UInt64.size then
        .ok (UInt64.ofNat (decimalFrom n (ahead.takeWhile isDigit)),
          UInt64.ofNat (pos + (ahead.takeWhile isDigit).length))
      else .error (.refused (.invalidLength start.toNat)) := by
  -- on the octets ahead; the number so far and the position change with each of them
  induction ahead generalizing n pos with
  | nil => simp [lengthFrom, decimalFrom, small]
  | cons octet rest ih =>
    rw [List.length_cons] at room
    by_cases digit : isDigit octet = true
    · have value : octet.toNat - 0x30 < UInt64.size := by
        have bound : octet.toNat < 256 := octet.toNat_lt
        have limit : 256 < UInt64.size := by decide
        omega
      rw [lengthFrom, if_pos digit, digitValue_of_isDigit digit, List.takeWhile_cons_of_pos digit,
        decimalFrom_cons]
      change (match appendDigit? _ _ with | none => _ | some more => _) = _
      rw [appendDigit?_eq small value]
      by_cases fits : n * 10 + (octet.toNat - 0x30) < UInt64.size
      · have moved : add (UInt64.ofNat pos) 1 = .ok (UInt64.ofNat (pos + 1)) :=
          add_ofNat (b := 1) (by omega)
        have place : pos + 1 + (rest.takeWhile isDigit).length =
            pos + (octet :: rest.takeWhile isDigit).length := by
          rw [List.length_cons]
          omega
        simp only [if_pos fits, moved]
        change lengthFrom start _ _ rest = _
        rw [ih fits (by omega), place]
      · -- what has left the words stays beyond them, whatever digits follow
        have beyond : ¬ decimalFrom (n * 10 + (octet.toNat - 0x30)) (rest.takeWhile isDigit) <
            UInt64.size := by
          have := le_decimalFrom (n * 10 + (octet.toNat - 0x30)) (rest.takeWhile isDigit)
          omega
        simp only [if_neg fits, if_neg beyond]
    · rw [lengthFrom, if_neg digit, List.takeWhile_cons_of_neg digit]
      simp [decimalFrom, small]

end Machine

/-! ### The reader and the machine -/

namespace Reader

/-- The octets that a length counts, behind a colon. -/
def afterColon (n : Nat) : Reader Octets := do
  expect 0x3A
  takeExactly n

/-- The octets behind a length and a colon. -/
def lengthPrefixed : Reader Octets := do
  let n ← length
  afterColon n

theorem proceeds_lengthPrefixed : Proceeds lengthPrefixed :=
  proceeds_length.bind fun _ => (proceeds_expect _).bind fun _ => proceeds_takeExactly _

end Reader

namespace Machine

open Reader (lengthLimit)
open SExpr (memoryLimit)

variable {behind ahead : Octets}

theorem hasSuperfluousZero_eq {digits rest : Octets}
    (short : (behind ++ (digits ++ rest)).length < UInt64.size) :
    hasSuperfluousZero (behind ++ (digits ++ rest)) (UInt64.ofNat behind.length)
        (UInt64.ofNat (behind.length + digits.length)) =
      .ok (2 ≤ digits.length && digits.head? == some 0x30) := by
  rw [List.length_append, List.length_append] at short
  have width : UInt64.ofNat digits.length > 1 ↔ 2 ≤ digits.length := by
    rw [gt_iff_lt, UInt64.lt_iff_toNat_lt, toNat_ofNat (by omega)]
    rfl
  have start := toNat_ofNat (n := behind.length) (by omega)
  rw [hasSuperfluousZero, sub_ofNat (by omega)]
  change (if 1 < UInt64.ofNat digits.length then _ else _) = _
  by_cases two : 2 ≤ digits.length
  · cases digits with
    | nil => exact absurd two (by simp)
    | cons first digits =>
      rw [if_pos (width.mpr two), octetAt, start]
      rw [List.length_cons] at two
      simp [two, pure, Except.pure, bind, Except.bind]
  · rw [if_neg (mt width.mp two), decide_eq_false two, Bool.false_and]
    rfl

theorem length_eq (short : (behind ++ ahead).length < UInt64.size) :
    length (behind ++ ahead) (UInt64.ofNat behind.length) =
      ofResult UInt64.ofNat (Reader.length ⟨behind.length, ahead⟩) := by
  have room : behind.length + ahead.length < UInt64.size := by rwa [← List.length_append]
  have start := toNat_ofNat (n := behind.length) (by omega)
  have shortParts :
      (behind ++ (ahead.takeWhile isDigit ++ ahead.dropWhile isDigit)).length < UInt64.size := by
    rwa [List.takeWhile_append_dropWhile]
  have front := hasSuperfluousZero_eq shortParts
  rw [List.takeWhile_append_dropWhile] at front
  have loop := lengthFrom_eq (UInt64.ofNat behind.length) (n := 0) (by decide) ahead room
  rw [start] at loop
  have limit : lengthLimit = UInt64.size := rfl
  have value : Reader.decimalValue (ahead.takeWhile isDigit) =
      decimalFrom 0 (ahead.takeWhile isDigit) := rfl
  -- the digits are read first, and only then is their first one looked at
  rw [length, start, List.drop_left, Reader.length_apply, limit, value]
  change (lengthFrom _ (UInt64.ofNat 0) _ _ >>= _) = _
  rw [loop]
  by_cases fits : decimalFrom 0 (ahead.takeWhile isDigit) < UInt64.size
  · rw [if_pos fits]
    change (hasSuperfluousZero _ _ _ >>= _) = _
    rw [front]
    simp only [Nat.not_le.mpr fits, decide_false, Bool.or_false]
    cases 2 ≤ (ahead.takeWhile isDigit).length && (ahead.takeWhile isDigit).head? == some 0x30 with
    | true => rfl
    | false => rfl
  · rw [if_neg fits]
    simp only [Nat.not_lt.mp fits, decide_true, Bool.or_true]
    rfl

theorem memoryLimit_add_memoryLimit : memoryLimit + memoryLimit = UInt64.size := by decide

/-- Behind a colon the end position is checked, so that no number is too large to be added. -/
theorem afterColon_eq {n : Nat} (word : n < UInt64.size)
    (short : (behind ++ ahead).length < memoryLimit) :
    afterColon (behind ++ ahead) (UInt64.ofNat n) (UInt64.ofNat behind.length) =
      ofResult id (Reader.afterColon n ⟨behind.length, ahead⟩) := by
  have limit := memoryLimit_add_memoryLimit
  have size : (behind ++ ahead).length = behind.length + ahead.length := List.length_append
  have colon := toNat_ofNat (n := behind.length) (by omega)
  have front : (behind ++ ahead)[behind.length]? = ahead.head? := by
    rw [List.getElem?_append_right (Nat.le_refl _), Nat.sub_self, List.head?_eq_getElem?]
  rw [afterColon, colon, front, Reader.afterColon]
  cases ahead with
  | nil => rfl
  | cons octet rest =>
    by_cases isColon : octet = 0x3A
    · subst isColon
      rw [List.length_cons] at size
      have moved : add (UInt64.ofNat behind.length) 1 = .ok (UInt64.ofNat (behind.length + 1)) :=
        add_ofNat (b := 1) (by omega)
      have sum := filter_add?_ofNat (a := behind.length + 1) (by omega) word
        (by omega : (behind ++ 0x3A :: rest).length < UInt64.size)
      rw [Reader.bind_of_ok (Reader.expect_cons _ _ _)]
      simp only [List.head?_cons, if_true, moved]
      change (match (add? (UInt64.ofNat (behind.length + 1)) (UInt64.ofNat n)).filter _ with
        | none => _ | some stop => _) = _
      -- the sum stays in the input exactly if as many octets follow as are counted
      rw [sum]
      by_cases inside : n ≤ rest.length
      · have cut := slice_ofNat (behind ++ 0x3A :: rest) (behind.length + 1) (n := n) (by omega)
          (by omega)
        have tail : (behind ++ 0x3A :: rest).drop (behind.length + 1) = rest := by simp
        rw [tail] at cut
        rw [if_pos (by omega)]
        simp only [cut]
        simp [Reader.takeExactly, List.length_take, inside, ofResult, Cursor.skip]
      · rw [if_neg (by omega)]
        simp [Reader.takeExactly, List.length_take, inside, ofResult]
    · simp [isColon, bind, EStateM.bind, Reader.expect, ofResult]

/-- Wherever a length stands, the machine finds the octets it counts, or refuses them, as the
reader does. -/
theorem lengthPrefixed_eq (short : (behind ++ ahead).length < memoryLimit) :
    lengthPrefixed (behind ++ ahead) (UInt64.ofNat behind.length) =
      ofResult id (Reader.lengthPrefixed ⟨behind.length, ahead⟩) := by
  have limit := memoryLimit_add_memoryLimit
  rw [lengthPrefixed, length_eq (by omega), Reader.lengthPrefixed]
  have forward := Reader.proceeds_length ⟨behind.length, ahead⟩
  cases run : Reader.length ⟨behind.length, ahead⟩ with
  | error error next =>
    rw [Reader.bind_of_error run]
    rfl
  | ok n next =>
    rw [Reader.bind_of_ok run]
    rw [run] at forward
    have word : n < UInt64.size := by
      rw [Reader.length_apply] at run
      split at run
      · exact nomatch run
      · next fits =>
        obtain ⟨rfl, -⟩ := EStateM.Result.ok.inj run
        rw [Bool.or_eq_true, not_or, decide_eq_true_eq] at fits
        exact Nat.not_le.mp fits.2
    -- the digits are behind now
    obtain ⟨offset, rest⟩ := next
    obtain ⟨digits, split, place⟩ := forward
    obtain rfl : ahead = digits ++ rest := split
    obtain rfl : offset = behind.length + digits.length := place
    rw [← List.append_assoc] at short ⊢
    rw [← List.length_append]
    exact afterColon_eq word short

end Machine

namespace Reader

/-- Behind a length, a colon leaves nothing but verbatim octets. -/
theorem counted_colon {digits : Octets} (each : ∀ octet ∈ digits, isDigit octet = true)
    (offset : Nat) (behind : Octets) :
    counted ⟨offset, digits ++ 0x3A :: behind⟩ =
      lengthPrefixed ⟨offset, digits ++ 0x3A :: behind⟩ := by
  have run := length_digits each (by decide : isDigit 0x3A = false) offset behind
  rw [counted, offset_bind, lengthPrefixed]
  split at run
  · rw [bind_of_error run, bind_of_error run]
  · rw [bind_of_ok run, bind_of_ok run]
    rfl

theorem takeExactly_eq (n offset : Nat) (ahead : Octets) :
    takeExactly n ⟨offset, ahead⟩ =
      if n ≤ ahead.length then .ok (ahead.take n) ⟨offset + n, ahead.drop n⟩
      else .error .unexpectedEnd ⟨offset, ahead⟩ := by
  by_cases inside : n ≤ ahead.length
  · simp [takeExactly, inside, Cursor.skip]
  · simp [takeExactly, inside]

end Reader

namespace SExpr

open Reader

variable {digits behind : Octets}

/-- A digit at the front begins an octet string, which its length precedes. -/
theorem readNext_eq (nonempty : digits ≠ []) (each : ∀ octet ∈ digits, isDigit octet = true)
    (behind : Octets) :
    readNext (digits ++ 0x3A :: behind) =
      match lengthPrefixed ⟨0, digits ++ 0x3A :: behind⟩ with
      | .ok value next => .ok (ofOctets value, next.ahead)
      | .error error _ => .error error := by
  have counts := counted_colon each 0 behind
  cases digits with
  | nil => exact absurd rfl nonempty
  | cons first digits =>
    have digit := each first List.mem_cons_self
    rw [List.cons_append] at counts ⊢
    have only : (expression nestingLimit).run ⟨0, first :: (digits ++ 0x3A :: behind)⟩ =
        plain ⟨0, first :: (digits ++ 0x3A :: behind)⟩ := by
      rw [nestingLimit, expression, bounded_run_cons _ (isBlank_of_isDigit digit),
        expressionAt_of_isDigit _ digit]
    rw [readNext, Cursor.start, only, plain]
    rw [← octets_of_isDigit digit] at counts
    cases run : lengthPrefixed ⟨0, first :: (digits ++ 0x3A :: behind)⟩ with
    | ok value next => rw [bind_of_ok (counts.trans run)]; rfl
    | error error next => rw [bind_of_error (counts.trans run)]

/-- What stands behind a length of any size: it is refused itself, or the input ends too early, or
the octets it counts are read. -/
theorem readNext_digits_colon (nonempty : digits ≠ [])
    (each : ∀ octet ∈ digits, isDigit octet = true) (behind : Octets) :
    readNext (digits ++ 0x3A :: behind) =
      if (2 ≤ digits.length && digits.head? == some 0x30) ||
          lengthLimit ≤ decimalValue digits then .error (.invalidLength 0)
      else if decimalValue digits ≤ behind.length then
        .ok (ofOctets (behind.take (decimalValue digits)), behind.drop (decimalValue digits))
      else .error .unexpectedEnd := by
  have run := length_digits each (by decide : isDigit 0x3A = false) 0 behind
  rw [readNext_eq nonempty each, lengthPrefixed]
  split at run
  · next refused => rw [bind_of_error run, if_pos refused]
  · next taken =>
    rw [bind_of_ok run, if_neg taken, afterColon, bind_of_ok (expect_cons _ _ _), takeExactly_eq]
    by_cases inside : decimalValue digits ≤ behind.length
    · rw [if_pos inside, if_pos inside]
    · rw [if_neg inside, if_neg inside]

/-- In an input that fits into memory the machine does what the reader does, and never finds a sum
too large, a difference negative or an octet missing. -/
theorem machine_readNext (nonempty : digits ≠ []) (each : ∀ octet ∈ digits, isDigit octet = true)
    (short : (digits ++ 0x3A :: behind).length < memoryLimit) :
    Machine.readNext (digits ++ 0x3A :: behind) =
      (readNext (digits ++ 0x3A :: behind)).mapError .refused := by
  have limit := Machine.memoryLimit_add_memoryLimit
  have agrees := @Machine.lengthPrefixed_eq [] (digits ++ 0x3A :: behind) short
  have forward := proceeds_lengthPrefixed ⟨0, digits ++ 0x3A :: behind⟩
  rw [readNext_eq nonempty each]
  change (Machine.lengthPrefixed _ (UInt64.ofNat ([] : Octets).length) >>= _) = _
  rw [List.nil_append] at agrees
  rw [agrees, List.length_nil]
  cases run : lengthPrefixed ⟨0, digits ++ 0x3A :: behind⟩ with
  | error error next => rfl
  | ok value next =>
    rw [run] at forward
    -- what follows is cut at the position that was reached
    obtain ⟨passed, split, place⟩ := forward
    obtain ⟨offset, rest⟩ := next
    dsimp only at split place
    have cut := Machine.slice_ofNat (passed ++ rest) passed.length (n := rest.length) (by simp)
      (by rw [← split]; omega)
    rw [List.drop_left, List.take_length, ← List.length_append, ← split] at cut
    rw [place, Nat.zero_add]
    change (Machine.slice _ (UInt64.ofNat passed.length) _ >>= _) = _
    rw [cut]
    rfl

/-- A length is exact at every size.  It is refused if it has a superfluous zero in front or is no
machine word; the input ends too early if the length is beyond what follows; and otherwise as many
octets are read as the digits say.  A machine that counts in words does the same, so that none of
its steps leaves the words or the input. -/
theorem lengths_are_exact (nonempty : digits ≠ [])
    (each : ∀ octet ∈ digits, isDigit octet = true)
    (short : (digits ++ 0x3A :: behind).length < memoryLimit) :
    let n := Nat.ofDigits 10 (digits.reverse.map fun digit => digit.toNat - 0x30)
    let superfluous := 2 ≤ digits.length ∧ digits.head? = some 0x30
    let input := digits ++ 0x3A :: behind
    (superfluous ∨ UInt64.size ≤ n → readNext input = .error (.invalidLength 0)) ∧
    (¬ superfluous → n < UInt64.size → behind.length < n →
      readNext input = .error .unexpectedEnd) ∧
    (¬ superfluous → n ≤ behind.length →
      readNext input = .ok (ofOctets (behind.take n), behind.drop n)) ∧
    Machine.readNext input = (readNext input).mapError .refused := by
  intro n superfluous input
  have value : decimalValue digits = n := decimalValue_eq_ofDigits digits
  have limit : lengthLimit = UInt64.size := rfl
  have half := Machine.memoryLimit_add_memoryLimit
  have run := readNext_digits_colon nonempty each behind
  rw [value, limit] at run
  have refused : ((2 ≤ digits.length && digits.head? == some 0x30) || UInt64.size ≤ n) = true ↔
      superfluous ∨ UInt64.size ≤ n := by
    simp [superfluous]
  have accepted (plain : ¬ superfluous) (word : n < UInt64.size) :
      ¬ ((2 ≤ digits.length && digits.head? == some 0x30) || UInt64.size ≤ n) = true :=
    fun either => (refused.mp either).elim plain (Nat.not_le.mpr word)
  refine ⟨?_, ?_, ?_, machine_readNext nonempty each short⟩
  · intro either
    rw [run, if_pos (refused.mpr either)]
  · intro plain word beyond
    rw [run, if_neg (accepted plain word), if_neg (Nat.not_le.mpr beyond)]
  · intro plain inside
    -- what an input holds is counted by a word
    have word : n < UInt64.size := by
      rw [List.length_append, List.length_cons] at short
      omega
    rw [run, if_neg (accepted plain word), if_pos inside]

/-- The first number beyond the words, the last within them, and a number in its place. -/
theorem lengths_at_the_limits :
    readNext ([0x31, 0x38, 0x34, 0x34, 0x36, 0x37, 0x34, 0x34, 0x30, 0x37, 0x33, 0x37, 0x30, 0x39,
      0x35, 0x35, 0x31, 0x36, 0x31, 0x36] ++ 0x3A :: [0x61, 0x62]) = .error (.invalidLength 0) ∧
    readNext ([0x31, 0x38, 0x34, 0x34, 0x36, 0x37, 0x34, 0x34, 0x30, 0x37, 0x33, 0x37, 0x30, 0x39,
      0x35, 0x35, 0x31, 0x36, 0x31, 0x35] ++ 0x3A :: [0x61, 0x62]) = .error .unexpectedEnd ∧
    readNext ([0x31] ++ 0x3A :: [0x61, 0x62]) = .ok (ofOctets [0x61], [0x62]) := by
  refine ⟨?_, ?_, ?_⟩
  · exact (lengths_are_exact (by decide) (List.all_eq_true.mp rfl) (by decide)).1
      (.inr (by decide))
  · exact (lengths_are_exact (by decide) (List.all_eq_true.mp rfl) (by decide)).2.1 (by decide)
      (by decide) (by decide)
  · exact (lengths_are_exact (by decide) (List.all_eq_true.mp rfl) (by decide)).2.2.1 (by decide)
      (by decide)

end SExpr

end SimplePki
