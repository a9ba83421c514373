import SimplePki.Octets

/-!
# Big-endian numbers

Integers travel as octet strings, most significant octet first.  The shortest string of a number
has no leading zero octet, so that zero is the empty string; arithmetic on a curve asks for strings
of one fixed width.

## Main definitions

* `Octets.toNat`: the number that an octet string writes in base 256
* `Octets.ofNat`: the shortest octet string of a number
* `Octets.ofNatWidth?`: the string of a given width, where the number fits
* `Octets.lowest`: the string of a given width, whatever does not fit being dropped

## Main results

* `Octets.length_of_ofNatWidth?`, `Octets.length_lowest`: the widths are as asked for
-/

namespace SimplePki.Octets

/-- The number written in base 256, most significant octet first. -/
def toNat (octets : Octets) : Nat := octets.foldl (fun n octet => n * 256 + octet.toNat) 0

/-- The base-256 digits of a number in front of `rest`, without leading zeros. -/
def prependNat (n : Nat) (rest : Octets) : Octets :=
  if n = 0 then rest else prependNat (n / 256) (UInt8.ofNat (n % 256) :: rest)
termination_by n

/-- The shortest octet string of a number; zero is the empty string. -/
def ofNat (n : Nat) : Octets := prependNat n []

/-- How many octets a number takes when zero is written as one octet. -/
def widthOfNat (n : Nat) : Nat := max 1 (ofNat n).length

/-- The octet string of exactly `width` octets with the value `n`, if `n` is not too wide. -/
def ofNatWidth? (width n : Nat) : Option Octets :=
  if widthOfNat n ≤ width then
    some (List.replicate (width - (ofNat n).length) 0 ++ ofNat n)
  else
    none

/-- The `width` lowest base-256 digits of a number, most significant first. -/
def lowest (width n : Nat) : Octets :=
  match width with
  | 0 => []
  | width + 1 => lowest width (n / 256) ++ [UInt8.ofNat n]

@[simp] theorem length_lowest (width n : Nat) : (lowest width n).length = width := by
  induction width generalizing n with
  | zero => rfl
  | succ width ih => simp [lowest, ih]

@[simp] theorem ofNat_zero : ofNat 0 = [] := by simp [ofNat, prependNat]

theorem prependNat_eq_append (n : Nat) (rest : Octets) : prependNat n rest = ofNat n ++ rest := by
  induction n using Nat.strongRecOn generalizing rest with
  | ind n ih =>
    by_cases h : n = 0
    · simp [ofNat, prependNat, h]
    · have hlt : n / 256 < n := Nat.div_lt_self (Nat.pos_of_ne_zero h) (by decide)
      rw [ofNat, prependNat, if_neg h, prependNat.eq_1 n [], if_neg h, ih _ hlt, ih _ hlt [_],
        List.append_assoc, List.singleton_append]

theorem length_of_ofNatWidth? {width n : Nat} {octets : Octets}
    (h : ofNatWidth? width n = some octets) : octets.length = width := by
  unfold ofNatWidth? at h
  split at h
  · next fits =>
    obtain rfl := Option.some.inj h
    simp only [List.length_append, List.length_replicate]
    have : (ofNat n).length ≤ width := Nat.le_trans (Nat.le_max_right 1 _) fits
    omega
  · contradiction

end SimplePki.Octets
