import Mathlib.Data.List.Basic
import SimplePki.SExpr.Canonical
import SimplePki.SExpr.Reader

/-!
# Decimal lengths

A length is written in decimal digits without a superfluous zero in front.  The digits determine the
number, and a colon behind them ends them, so that a length can be read off the front of any longer
octet string.

## Main results

* `Octets.decimalValue_decimal`: the digits of a number write that number
* `Octets.head?_decimal_of_le`: a number of two digits or more does not begin with a zero
* `Octets.length_verbatim_le`: how much longer an octet string is behind its length
* `Octets.takeWhile_decimal_append`: a colon ends the digits
* `Octets.verbatim_append_inj`: an octet string behind its length determines itself and what
  follows it
-/

namespace SimplePki.Octets

open Reader

/-! ### One digit after the other -/

/-- The octet of a decimal digit. -/
def digit (d : Nat) : UInt8 := UInt8.ofNat (0x30 + d)

theorem toNat_digit {d : Nat} (h : d < 10) : (digit d).toNat = 0x30 + d := by
  -- no digit overflows an octet
  have small : 0x30 + d < 2 ^ 8 := by omega
  exact UInt8.toNat_ofNat_of_lt' small

theorem isDigit_digit {d : Nat} (h : d < 10) : isDigit (digit d) = true := by
  have value := toNat_digit h
  simp only [isDigit, Bool.and_eq_true, decide_eq_true_eq, UInt8.le_iff_toNat_le, value]
  exact ⟨Nat.le_add_right _ _, Nat.add_le_add_left (Nat.le_of_lt_succ h) 0x30⟩

theorem ofNat_digitChar {d : Nat} (h : d < 10) : UInt8.ofNat d.digitChar.toNat = digit d := by
  rw [Nat.toNat_digitChar_of_lt_ten h]
  rfl

theorem decimal_of_lt {n : Nat} (h : n < 10) : decimal n = [digit n] := by
  rw [decimal, Nat.toDigits_of_lt_base h, List.map_singleton, ofNat_digitChar h]

/-- The last digit comes off the end. -/
theorem decimal_of_le {n : Nat} (h : 10 ≤ n) :
    decimal n = decimal (n / 10) ++ [digit (n % 10)] := by
  have last : n % 10 < 10 := Nat.mod_lt n (by decide)
  rw [decimal, Nat.toDigits_of_base_le (by decide) h, List.map_append, List.map_singleton,
    ofNat_digitChar last]
  rfl

theorem decimal_ne_nil (n : Nat) : decimal n ≠ [] := by
  simp [decimal, Nat.toDigits_ne_nil]

theorem isDigit_of_mem_decimal {n : Nat} {octet : UInt8} (h : octet ∈ decimal n) :
    isDigit octet = true := by
  induction n using Nat.strongRecOn with
  | ind n ih =>
    rcases Nat.lt_or_ge n 10 with small | large
    · rw [decimal_of_lt small, List.mem_singleton] at h
      rw [h]
      exact isDigit_digit small
    · rw [decimal_of_le large, List.mem_append, List.mem_singleton] at h
      rcases h with front | rfl
      · exact ih (n / 10) (by omega) front
      · exact isDigit_digit (Nat.mod_lt n (by decide))

/-! ### The number that digits write -/

theorem decimalValue_append_digit (digits : Octets) {d : Nat} (h : d < 10) :
    decimalValue (digits ++ [digit d]) = decimalValue digits * 10 + d := by
  rw [decimalValue, List.foldl_append, List.foldl_cons, List.foldl_nil, toNat_digit h,
    Nat.add_sub_cancel_left]
  rfl

theorem decimalValue_decimal (n : Nat) : decimalValue (decimal n) = n := by
  induction n using Nat.strongRecOn with
  | ind n ih =>
    rcases Nat.lt_or_ge n 10 with small | large
    · have alone := decimalValue_append_digit [] small
      rw [List.nil_append] at alone
      rw [decimal_of_lt small, alone]
      exact Nat.zero_add n
    · have last : n % 10 < 10 := Nat.mod_lt n (by decide)
      rw [decimal_of_le large, decimalValue_append_digit _ last, ih (n / 10) (by omega)]
      omega

/-- A number of two digits or more does not begin with a zero. -/
theorem head?_decimal_of_le {n : Nat} (h : 10 ≤ n) : (decimal n).head? ≠ some 0x30 := by
  induction n using Nat.strongRecOn with
  | ind n ih =>
    -- the first digit is that of the number without its last digit
    rw [decimal_of_le h, List.head?_append_of_ne_nil _ (decimal_ne_nil _)]
    rcases Nat.lt_or_ge (n / 10) 10 with small | large
    · rw [decimal_of_lt small, List.head?_cons, ne_eq, Option.some.injEq]
      intro zero
      have value := toNat_digit small
      rw [zero] at value
      have leading : 1 ≤ n / 10 := (Nat.one_le_div_iff (by decide)).mpr h
      change 0x30 = 0x30 + n / 10 at value
      omega
    · exact ih (n / 10) (by omega) large

theorem length_decimal_of_lt {n : Nat} (h : n < 10) : (decimal n).length = 1 := by
  rw [decimal_of_lt h, List.length_singleton]

/-- A number has no more digits than it counts. -/
theorem length_decimal_le (n : Nat) : (decimal n).length ≤ n + 1 := by
  induction n using Nat.strongRecOn with
  | ind n ih =>
    rcases Nat.lt_or_ge n 10 with small | large
    · rw [length_decimal_of_lt small]
      exact Nat.le_add_left 1 n
    · have before := ih (n / 10) (Nat.div_lt_self (by omega) (by decide))
      rw [decimal_of_le large, List.length_append, List.length_singleton]
      omega

theorem length_le_length_verbatim (octets : Octets) : octets.length ≤ octets.verbatim.length := by
  rw [verbatim, List.length_append, List.length_cons]
  omega

theorem length_verbatim_le (octets : Octets) : octets.verbatim.length ≤ 2 * octets.length + 2 := by
  have digits := length_decimal_le octets.length
  rw [verbatim, List.length_append, List.length_cons]
  omega

/-- Digits carry no superfluous zero. -/
theorem decimal_isCanonical (n : Nat) :
    (2 ≤ (decimal n).length && (decimal n).head? == some 0x30) = false := by
  rcases Nat.lt_or_ge n 10 with small | large
  · rw [length_decimal_of_lt small]
    rfl
  · rw [beq_eq_false_iff_ne.mpr (head?_decimal_of_le large), Bool.and_false]

/-! ### Lengths in front of octets -/

theorem takeWhile_decimal_append (n : Nat) (rest : Octets) :
    (decimal n ++ 0x3A :: rest).takeWhile isDigit = decimal n := by
  rw [List.takeWhile_append_of_pos fun _ => isDigit_of_mem_decimal,
    List.takeWhile_cons_of_neg (by decide), List.append_nil]

theorem verbatim_append (octets rest : Octets) :
    octets.verbatim ++ rest = decimal octets.length ++ 0x3A :: (octets ++ rest) := by
  rw [verbatim, List.append_assoc, List.cons_append]

/-- An octet string behind its length determines itself and what follows it. -/
theorem verbatim_append_inj {a b u v : Octets} (h : a.verbatim ++ u = b.verbatim ++ v) :
    a = b ∧ u = v := by
  rw [verbatim_append, verbatim_append] at h
  -- the digits end at the first colon, and their value is where the octets end
  have digits := congrArg (List.takeWhile isDigit) h
  rw [takeWhile_decimal_append, takeWhile_decimal_append] at digits
  have lengths := congrArg decimalValue digits
  rw [decimalValue_decimal, decimalValue_decimal] at lengths
  rw [digits] at h
  have behind := (List.cons.inj (List.append_cancel_left h)).2
  exact List.append_inj behind lengths

/-- Octets behind their length begin with a digit. -/
theorem verbatim_eq_cons (octets : Octets) :
    ∃ first rest, octets.verbatim = first :: rest ∧ isDigit first = true := by
  cases digits : decimal octets.length with
  | nil => exact absurd digits (decimal_ne_nil _)
  | cons first rest =>
    have isFirst : first ∈ decimal octets.length := by rw [digits]; exact List.mem_cons_self
    refine ⟨first, rest ++ 0x3A :: octets, ?_, isDigit_of_mem_decimal isFirst⟩
    rw [verbatim, digits, List.cons_append]

end SimplePki.Octets
