import Mathlib.Data.List.Induction
import SimplePki.Octets.BigEndian

/-!
# Numbers and their shortest octet strings

The shortest octet string of a number is read back as that number, so that different numbers have
different strings.  An octet string is the shortest of its number if it does not begin with a zero
octet; any other is longer by the zeros in front.

## Main definitions

* `Octets.trim`: an octet string without the zeros in front
* `Octets.Shortest`: an octet string that writes a number with no zeros in front

## Main results

* `Octets.ofNat_of_pos`: the last base-256 digit comes off the end
* `Octets.toNat_ofNat`: the number of an octet string made of a number
* `Octets.ofNat_toNat`: the number of an octet string is written without the zeros in front
* `Octets.shortest_ofNat`, `Octets.shortest_zero_iff`: every number has a shortest string, and zero the
  empty one
-/

namespace SimplePki.Octets

theorem toNat_append_singleton (octets : Octets) (last : UInt8) :
    toNat (octets ++ [last]) = toNat octets * 256 + last.toNat := by
  rw [toNat, List.foldl_append, List.foldl_cons, List.foldl_nil]
  rfl

/-- The last base-256 digit comes off the end. -/
theorem ofNat_of_pos {n : Nat} (h : 0 < n) :
    ofNat n = ofNat (n / 256) ++ [UInt8.ofNat (n % 256)] := by
  rw [ofNat, prependNat, if_neg (Nat.pos_iff_ne_zero.mp h), prependNat_eq_append]

@[simp] theorem toNat_ofNat (n : Nat) : toNat (ofNat n) = n := by
  induction n using Nat.strongRecOn with
  | ind n ih =>
    rcases Nat.eq_zero_or_pos n with rfl | positive
    · rw [ofNat_zero]
      rfl
    · have small : n % 256 < 2 ^ 8 := Nat.mod_lt n (by decide)
      have shorter : n / 256 < n := Nat.div_lt_self positive (by decide)
      rw [ofNat_of_pos positive, toNat_append_singleton, ih _ shorter,
        UInt8.toNat_ofNat_of_lt' small]
      exact Nat.div_add_mod' n 256

/-! ### Zeros in front -/

/-- The octets behind the zero octets in front. -/
def trim (octets : Octets) : Octets := octets.dropWhile (· == 0)

theorem trim_append_singleton (octets : Octets) (last : UInt8) :
    trim (octets ++ [last]) = if trim octets = [] then trim [last] else trim octets ++ [last] := by
  rw [trim, List.dropWhile_append, ← trim]
  cases trim octets with
  | nil => rfl
  | cons first rest => rfl

/-- The shortest octet string of the number that octets write is theirs without the zeros in
front. -/
theorem ofNat_toNat (octets : Octets) : ofNat (toNat octets) = trim octets := by
  -- the last octet comes off the end, as does the last digit of the number
  induction octets using List.reverseRecOn with
  | nil => exact ofNat_zero
  | append_singleton octets last ih =>
    have small : last.toNat < 256 := last.toNat_lt
    have digit : UInt8.ofNat last.toNat = last := UInt8.ofNat_toNat
    rw [toNat_append_singleton, trim_append_singleton, ← ih]
    rcases Nat.eq_zero_or_pos (toNat octets) with none | some
    · -- what is in front writes zero, so that only the last octet counts
      rw [none, ofNat_zero, if_pos rfl, Nat.zero_mul, Nat.zero_add]
      by_cases zero : last = 0
      · rw [zero]
        exact ofNat_zero
      · have positive : 0 < last.toNat :=
          Nat.pos_of_ne_zero fun same => zero (UInt8.toNat_inj.mp same)
        rw [ofNat_of_pos positive, Nat.div_eq_of_lt small, Nat.mod_eq_of_lt small, digit,
          ofNat_zero, trim, List.dropWhile_cons_of_neg (by simp [zero])]
        rfl
    · have front : ofNat (toNat octets) ≠ [] := by
        rw [ofNat_of_pos some]
        exact List.append_ne_nil_of_right_ne_nil _ (List.cons_ne_nil _ _)
      have quotient : (toNat octets * 256 + last.toNat) / 256 = toNat octets := by omega
      have remainder : (toNat octets * 256 + last.toNat) % 256 = last.toNat := by omega
      rw [if_neg front, ofNat_of_pos (by omega), quotient, remainder, digit]

theorem trim_eq_self_iff {octets : Octets} : trim octets = octets ↔ octets.head? ≠ some 0 := by
  cases octets with
  | nil => simp [trim]
  | cons first rest =>
    by_cases zero : first = 0
    · have shorter : (trim rest).length ≤ rest.length := (List.dropWhile_suffix _).length_le
      constructor
      · intro same
        rw [trim, List.dropWhile_cons_of_pos (by simp [zero]), ← trim] at same
        have lengths := congrArg List.length same
        rw [List.length_cons] at lengths
        omega
      · intro differs
        exact absurd (congrArg some zero) differs
    · rw [trim, List.dropWhile_cons_of_neg (by simp [zero])]
      simp [zero]

/-- The octets write the number, with no zero octet in front. -/
structure Shortest (octets : Octets) (n : Nat) : Prop where
  value : octets.toNat = n
  front : octets.head? ≠ some 0

theorem shortest_iff {octets : Octets} {n : Nat} : octets.Shortest n ↔ octets = ofNat n := by
  constructor
  · rintro ⟨rfl, front⟩
    rw [ofNat_toNat, trim_eq_self_iff.mpr front]
  · rintro rfl
    refine ⟨toNat_ofNat n, trim_eq_self_iff.mp ?_⟩
    rw [← ofNat_toNat, toNat_ofNat]

theorem shortest_ofNat (n : Nat) : (ofNat n).Shortest n := shortest_iff.mpr rfl

theorem shortest_zero_iff {octets : Octets} : octets.Shortest 0 ↔ octets = [] := by
  rw [shortest_iff, ofNat_zero]

end SimplePki.Octets
