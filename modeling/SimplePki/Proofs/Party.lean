import Mathlib.Data.List.Nodup
import SimplePki.Party
import SimplePki.Proofs.Curve.Width

/-!
# Parties that come back

The scalar of a numbered party ends in one octet that counts.  So every number has a party, and the
first 256 of them have different scalars and different points; from then on each party is one that
was there before.

That different scalars have different points is checked for the 256 scalars that there are.  They
share all binary digits but the last eight, so that the doublings for the digits in front are done
once, and those for the others once for each beginning.

## Main definitions

* `Jacobian.extend`: the multiples whose numbers have some more binary digits
* `Party.standing`: the party with a number, as a value

## Main results

* `Jacobian.extend_multiple`: these are all the multiples of a row of numbers
* `Party.numbered_eq`, `Party.firsts_eq`: no number is without a party
* `Party.scalar_eq_iff`, `Party.point_eq_iff`: the parties that are the same
* `Party.parties_come_back_after_256`
-/

namespace SimplePki

/-! ### Multiples whose numbers begin with the same digits -/

namespace Jacobian

variable (m : Nat) (p : Jacobian)

theorem multiple_even {n : Nat} (positive : 0 < n) :
    multiple m (2 * n) p = double m (multiple m n p) := by
  rw [multiple, if_neg (by omega), if_neg (by omega), Nat.mul_div_cancel_left n (by decide)]

theorem multiple_odd (n : Nat) :
    multiple m (2 * n + 1) p = add m (double m (multiple m n p)) p := by
  have half : (2 * n + 1) / 2 = n := by omega
  rw [multiple, if_neg (by omega), if_pos (by omega), half]

/-- The multiples whose numbers have one binary digit more than that of a given multiple. -/
def branches (q : Jacobian) : List Jacobian := [double m q, add m (double m q) p]

/-- The multiples whose numbers have some binary digits more than those of given multiples. -/
def extend : (digits : Nat) → List Jacobian → List Jacobian
  | 0, points => points
  | digits + 1, points => extend digits (points.flatMap (branches m p))

/-- A row of numbers is twice as long with one digit more. -/
theorem flatMap_branches_row {n : Nat} (positive : 0 < n) (count : Nat) :
    ((List.range count).map fun i => multiple m (n + i) p).flatMap (branches m p) =
      (List.range (2 * count)).map fun i => multiple m (2 * n + i) p := by
  induction count with
  | zero => rfl
  | succ count ih =>
    have even : multiple m (2 * n + 2 * count) p = double m (multiple m (n + count) p) := by
      rw [← Nat.mul_add, multiple_even m p (by omega)]
    have odd : multiple m (2 * n + (2 * count + 1)) p =
        add m (double m (multiple m (n + count) p)) p := by
      rw [← Nat.add_assoc, ← Nat.mul_add, multiple_odd]
    rw [List.range_succ, List.map_append, List.flatMap_append, ih, Nat.mul_succ, List.range_succ,
      List.range_succ, List.append_assoc, List.map_append]
    simp only [List.map_cons, List.map_nil, List.flatMap_cons, List.flatMap_nil, branches,
      List.append_nil, List.singleton_append, even, odd]

theorem extend_row {n : Nat} (positive : 0 < n) (digits count : Nat) :
    extend m p digits ((List.range count).map fun i => multiple m (n + i) p) =
      (List.range (2 ^ digits * count)).map fun i => multiple m (2 ^ digits * n + i) p := by
  induction digits generalizing n count with
  | zero => simp [extend]
  | succ digits ih =>
    rw [extend, flatMap_branches_row m p positive, ih (by omega), Nat.pow_succ, Nat.mul_assoc,
      Nat.mul_assoc]

theorem extend_multiple {n : Nat} (positive : 0 < n) (digits : Nat) :
    extend m p digits [multiple m n p] =
      (List.range (2 ^ digits)).map fun i => multiple m (2 ^ digits * n + i) p := by
  simpa using extend_row m p positive digits 1

end Jacobian

namespace Party

/-! ### Scalars -/

/-- The scalar that the scalars of all parties begin with: theirs without the octet that counts. -/
def stem : Nat := 0x10000000000000000000000000000000000000000000000000000000000000

/-- Only the last octet tells parties apart. -/
theorem toNat_scalar (number : Nat) : (scalar number).toNat = 256 * stem + (number + 1) % 256 := by
  have front : Octets.toNat (0x10 :: List.replicate 30 0x00) = stem := by decide +kernel
  have octet : (UInt8.ofNat (number + 1)).toNat = (number + 1) % 256 := rfl
  rw [scalar, Octets.toNat_append_singleton, front, octet, Nat.mul_comm]

theorem scalar_eq_iff {i j : Nat} : (scalar i).toNat = (scalar j).toNat ↔ i % 256 = j % 256 := by
  rw [toNat_scalar, toNat_scalar]
  omega

/-- The party with a number; its scalar is one that has a point. -/
def standing (number : Nat) : Party :=
  let point := (Curve.p256.multiple (scalar number).toNat).getD (0, 0)
  ⟨.ofParts .p256 point.1 point.2 (scalar number).toNat⟩

theorem numbered_eq (number : Nat) : numbered number = .ok (standing number) := by
  have sized : (scalar number).length = Curve.p256.width := by simp [scalar, Curve.width]
  have small : 256 * stem + 255 < Curve.p256.order := by decide +kernel
  have inRange : 1 ≤ (scalar number).toNat ∧ (scalar number).toNat < Curve.p256.order := by
    rw [toNat_scalar]
    have positive : 1 ≤ 256 * stem := by decide +kernel
    omega
  have usable : Curve.p256.scalar (scalar number).toNat = .ok (scalar number).toNat := by
    rw [Curve.scalar, Curve.octets_of_length sized, ok_bind, if_pos inRange]
    rfl
  rw [numbered, ofScalar, PrivateKey.ofScalar, Curve.derive, usable, ok_bind]
  rfl

/-- No number is without a party. -/
theorem firsts_eq (count : Nat) : firsts count = .ok ((List.range count).map standing) := by
  have each : numbered = fun number => pure (standing number) := funext numbered_eq
  rw [firsts, each, List.mapM_pure]
  rfl

theorem eq_standing_of_getElem? {count i : Nat} {party : Party}
    (h : ((List.range count).map standing)[i]? = some party) : party = standing i := by
  obtain ⟨_, rfl⟩ := List.getElem?_eq_some_iff.mp h
  rw [List.getElem_map, List.getElem_range]

/-! ### Points -/

/-- Whether no number occurs twice. -/
def noneTwice : List Nat → Bool
  | [] => true
  | n :: rest => rest.all (fun other => !Nat.beq n other) && noneTwice rest

theorem nodup_of_noneTwice {numbers : List Nat} (h : noneTwice numbers = true) : numbers.Nodup := by
  induction numbers with
  | nil => exact List.nodup_nil
  | cons n rest ih =>
    rw [noneTwice, Bool.and_eq_true, List.all_eq_true] at h
    refine List.nodup_cons.mpr ⟨fun mem => ?_, ih h.2⟩
    have differs := h.1 n mem
    rw [Bool.not_eq_true'] at differs
    exact Nat.ne_of_beq_eq_false differs rfl

/-- The abscissa of a multiple of the generator. -/
def abscissa (n : Nat) : Nat := ((Curve.p256.multiple n).getD (0, 0)).1

/-- The 256 points that parties may have are different. -/
theorem nodup_abscissas : ((List.range 256).map fun k => abscissa (256 * stem + k)).Nodup := by
  let prime := Curve.p256.prime
  let generator : Jacobian := ⟨Curve.p256.generator.1, Curve.p256.generator.2, 1⟩
  have digits : 2 ^ 8 = 256 := by decide
  have points := Jacobian.extend_multiple prime generator (by decide +kernel : 0 < stem) 8
  rw [digits] at points
  have row : ((List.range 256).map fun k => abscissa (256 * stem + k)) =
      (Jacobian.extend prime generator 8 [Jacobian.multiple prime stem generator]).map
        fun q => ((q.plain? prime).getD (0, 0)).1 := by
    rw [points, List.map_map]
    rfl
  rw [row]
  exact nodup_of_noneTwice (by decide +kernel)

theorem abscissa_scalar_inj {i j : Nat}
    (h : abscissa (scalar i).toNat = abscissa (scalar j).toNat) : i % 256 = j % 256 := by
  rw [toNat_scalar, toNat_scalar] at h
  have same := List.inj_on_of_nodup_map nodup_abscissas
    (List.mem_range.mpr (Nat.mod_lt (i + 1) (by decide)))
    (List.mem_range.mpr (Nat.mod_lt (j + 1) (by decide))) h
  omega

theorem point_eq_iff {i j : Nat} :
    (standing i).key.half.samePoint (standing j).key.half = true ↔ i % 256 = j % 256 := by
  constructor
  · intro same
    exact abscissa_scalar_inj (PublicKey.samePoint_iff.mp same).2.1
  · intro congruent
    have scalars := scalar_eq_iff.mpr congruent
    rw [standing, standing, scalars]
    exact PublicKey.samePoint_iff.mpr ⟨rfl, rfl, rfl⟩

/-- There are as many first parties as are asked for.  Two of them have the same scalar, and two of
them have the same point, exactly if their numbers differ by a multiple of 256.  So their scalars
are pairwise different exactly if there are no more than 256 parties. -/
theorem parties_come_back_after_256 (count : Nat) :
    ∃ parties, firsts count = .ok parties ∧ parties.length = count ∧
      (∀ (i j : Nat) (first second : Party), parties[i]? = some first →
        parties[j]? = some second →
          (first.key.scalar = second.key.scalar ↔ i % 256 = j % 256) ∧
          (first.key.half.samePoint second.key.half = true ↔ i % 256 = j % 256)) ∧
      ((parties.map fun party => party.key.scalar).Nodup ↔ count ≤ 256) := by
  refine ⟨_, firsts_eq count, by rw [List.length_map, List.length_range], ?_, ?_⟩
  · intro i j first second foundFirst foundSecond
    obtain rfl := eq_standing_of_getElem? foundFirst
    obtain rfl := eq_standing_of_getElem? foundSecond
    exact ⟨scalar_eq_iff, point_eq_iff⟩
  · rw [List.map_map, List.nodup_map_iff_inj_on List.nodup_range]
    constructor
    · intro distinct
      by_contra many
      -- the party with the number 256 is the first one again
      have back := distinct 0 (List.mem_range.mpr (by omega)) 256 (List.mem_range.mpr (by omega))
        (scalar_eq_iff.mpr rfl)
      exact absurd back (by decide)
    · intro few i hi j hj same
      have congruent := scalar_eq_iff.mp same
      rw [List.mem_range] at hi hj
      omega

/-- Of 257 parties the last is the first. -/
theorem last_of_257_parties_is_the_first : ∃ parties first last, firsts 257 = .ok parties ∧
    parties[0]? = some first ∧ parties[256]? = some last ∧
    first.key.scalar = last.key.scalar ∧ first.key.half.samePoint last.key.half = true := by
  obtain ⟨parties, found, length, same, -⟩ := parties_come_back_after_256 257
  have first := List.getElem?_eq_getElem (l := parties) (i := 0) (by omega)
  have last := List.getElem?_eq_getElem (l := parties) (i := 256) (by omega)
  obtain ⟨scalars, points⟩ := same 0 256 _ _ first last
  exact ⟨parties, _, _, found, first, last, scalars.mpr rfl, points.mpr rfl⟩

end Party

end SimplePki
