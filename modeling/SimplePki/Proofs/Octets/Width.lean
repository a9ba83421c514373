import Mathlib.Algebra.Group.Nat.Defs
import Mathlib.Data.List.TakeWhile
import SimplePki.Proofs.Octets.BigEndian

/-!
# Numbers in octet strings of one width

Strings with the same number differ in the zeros in front of them, and in nothing else.  So among
those of a given width there is at most one, and there is one exactly if the number is below the
power of 256 that belongs to the width.  It is found without looking at the number: zeros are put
in front of a string that is too short, and octets are taken off the front of one that is too long.
If the number fits, these are zeros as well.

## Main definitions

* `Octets.resized`: an octet string with a given width

## Main results

* `Octets.toNat_zeros_append`: zeros in front do not count
* `Octets.toNat_lt`, `Octets.length_ofNat_le_iff`: the widths that hold a number
* `Octets.ofNatWidth?_eq_some_iff`: the string of a number in a given width is the only one
* `Octets.exists_ofNatWidth?_iff`: a width has a string for every number that it holds
* `Octets.ofNatWidth?_toNat`: the number of an octet string in a given width
* `Octets.length_ofNat_lt_of_ne`: any other string of a number is longer than its shortest
-/

namespace SimplePki.Octets

variable {width n : Nat} {octets : Octets}

/-! ### Zeros in front -/

@[simp] theorem toNat_zeros_append (k : Nat) (octets : Octets) :
    toNat (List.replicate k 0 ++ octets) = toNat octets := by
  induction k with
  | zero => rfl
  | succ k ih =>
    rw [List.replicate_succ, List.cons_append]
    exact ih

theorem length_trim_le (octets : Octets) : octets.trim.length ≤ octets.length :=
  (List.dropWhile_suffix _).length_le

/-- What is in front of the trimmed octets are zeros. -/
theorem eq_zeros_append_trim (octets : Octets) :
    octets = List.replicate (octets.length - octets.trim.length) 0 ++ octets.trim := by
  have split : octets.takeWhile (· == 0) ++ octets.trim = octets := List.takeWhile_append_dropWhile
  have zeros : octets.takeWhile (· == 0) =
      List.replicate (octets.takeWhile (· == 0)).length 0 :=
    List.eq_replicate_of_mem fun octet mem => by simpa using List.mem_takeWhile_imp mem
  have lengths := congrArg List.length split
  rw [List.length_append] at lengths
  rw [← lengths, Nat.add_sub_cancel, ← zeros, split]

/-- Octet strings of one width with one number are the same. -/
theorem eq_of_toNat_eq {other : Octets} (width : octets.length = other.length)
    (value : octets.toNat = other.toNat) : octets = other := by
  have trimmed : octets.trim = other.trim := by rw [← ofNat_toNat, ← ofNat_toNat, value]
  rw [eq_zeros_append_trim octets, eq_zeros_append_trim other, width, trimmed]

/-- Any other string of a number is longer than the shortest. -/
theorem length_ofNat_lt_of_ne (value : octets.toNat = n) (other : octets ≠ ofNat n) :
    (ofNat n).length < octets.length := by
  have trimmed : octets.trim = ofNat n := by rw [← value, ofNat_toNat]
  refine Nat.lt_of_le_of_ne (trimmed ▸ length_trim_le octets) fun width => other ?_
  exact eq_of_toNat_eq width.symm (by rw [value, toNat_ofNat])

/-! ### The widths that hold a number -/

theorem toNat_lt (octets : Octets) : octets.toNat < 256 ^ octets.length := by
  -- the last octet comes off the end, as does the last digit of the number
  induction octets using List.reverseRecOn with
  | nil => decide
  | append_singleton octets last ih =>
    have small : last.toNat < 256 := last.toNat_lt
    rw [toNat_append_singleton, List.length_append, List.length_singleton, Nat.pow_succ]
    omega

theorem length_ofNat_le_iff : (ofNat n).length ≤ width ↔ n < 256 ^ width := by
  constructor
  · intro short
    calc n = (ofNat n).toNat := (toNat_ofNat n).symm
      _ < 256 ^ (ofNat n).length := toNat_lt _
      _ ≤ 256 ^ width := Nat.pow_le_pow_right (by decide) short
  · intro small
    induction width generalizing n with
    | zero =>
      obtain rfl : n = 0 := by simpa using small
      rw [ofNat_zero]
      exact Nat.le_refl 0
    | succ width ih =>
      rcases Nat.eq_zero_or_pos n with rfl | positive
      · rw [ofNat_zero]
        exact Nat.zero_le _
      · have quotient : n / 256 < 256 ^ width := by
          rw [Nat.pow_succ] at small
          exact Nat.div_lt_of_lt_mul (Nat.mul_comm _ 256 ▸ small)
        rw [ofNat_of_pos positive, List.length_append, List.length_singleton]
        exact Nat.succ_le_succ (ih quotient)

/-- The octet that zero takes here does not count where some octet is asked for. -/
theorem widthOfNat_le_iff (positive : 1 ≤ width) : widthOfNat n ≤ width ↔ n < 256 ^ width := by
  rw [widthOfNat, Nat.max_le, and_iff_right positive, length_ofNat_le_iff]

theorem widthOfNat_of_pos (h : 0 < n) : widthOfNat n = (ofNat n).length := by
  rw [widthOfNat, Nat.max_eq_right]
  rw [ofNat_of_pos h, List.length_append, List.length_singleton]
  exact Nat.le_add_left 1 _

/-! ### Strings of a given width -/

/-- The string of a number in a given width is the one that has the width and the number. -/
theorem ofNatWidth?_eq_some_iff :
    ofNatWidth? width n = some octets ↔ 1 ≤ width ∧ octets.length = width ∧ octets.toNat = n := by
  constructor
  · intro h
    have sized := length_of_ofNatWidth? h
    unfold ofNatWidth? at h
    split at h
    · next fits =>
      obtain rfl := Option.some.inj h
      refine ⟨Nat.le_trans (Nat.le_max_left 1 _) fits, sized, ?_⟩
      rw [toNat_zeros_append, toNat_ofNat]
    · exact nomatch h
  · rintro ⟨positive, sized, rfl⟩
    have fits : widthOfNat octets.toNat ≤ width :=
      (widthOfNat_le_iff positive).mpr (sized ▸ toNat_lt octets)
    rw [ofNatWidth?, if_pos fits, ofNat_toNat, ← sized, ← eq_zeros_append_trim]

theorem exists_ofNatWidth?_iff (positive : 1 ≤ width) :
    (∃ octets, ofNatWidth? width n = some octets) ↔ n < 256 ^ width := by
  constructor
  · rintro ⟨octets, h⟩
    obtain ⟨-, rfl, rfl⟩ := ofNatWidth?_eq_some_iff.mp h
    exact toNat_lt octets
  · intro small
    exact ⟨_, if_pos ((widthOfNat_le_iff positive).mpr small)⟩

/-- The octets with zeros in front, or with as many octets fewer in front, as the width asks for. -/
def resized (width : Nat) (octets : Octets) : Octets :=
  List.replicate (width - octets.length) 0 ++ octets.drop (octets.length - width)

@[simp] theorem length_resized (width : Nat) (octets : Octets) :
    (octets.resized width).length = width := by
  rw [resized, List.length_append, List.length_replicate, List.length_drop]
  omega

/-- If a number fits a width, then what is beyond the width are zeros. -/
theorem eq_zeros_append_drop (small : octets.toNat < 256 ^ width) :
    octets = List.replicate (octets.length - width) 0 ++ octets.drop (octets.length - width) := by
  have narrow : octets.trim.length ≤ width := by rwa [← ofNat_toNat, length_ofNat_le_iff]
  have front : octets.take (octets.length - width) =
      List.replicate (octets.length - width) 0 := by
    have zeros := congrArg (List.take (octets.length - width)) (eq_zeros_append_trim octets)
    rwa [List.take_append_of_le_length (by rw [List.length_replicate]; omega),
      List.take_replicate, Nat.min_eq_left (by omega)] at zeros
  rw [← front, List.take_append_drop]

theorem toNat_resized (small : octets.toNat < 256 ^ width) :
    (octets.resized width).toNat = octets.toNat := by
  rw [resized, toNat_zeros_append]
  conv_rhs => rw [eq_zeros_append_drop small, toNat_zeros_append]

/-- The number of an octet string is written in a given width by resizing the string. -/
theorem ofNatWidth?_toNat (positive : 1 ≤ width) (small : octets.toNat < 256 ^ width) :
    ofNatWidth? width octets.toNat = some (octets.resized width) :=
  ofNatWidth?_eq_some_iff.mpr ⟨positive, length_resized width octets, toNat_resized small⟩

end SimplePki.Octets
