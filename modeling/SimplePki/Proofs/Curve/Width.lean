import SimplePki.Proofs.Key.Spelling
import SimplePki.Proofs.Octets.Width

/-!
# Integers on their way to a curve

Keys are received with integers of any number of octets; the arithmetic of a curve takes octets of
one width.  What it is given depends on the number alone: zeros that were received in front make no
difference, and a number that does not fit is refused, whatever it was received for.

## Main definitions

* `Curve.received`: what a curve is given of an integer
* `Curve.TakesPoint`, `Curve.TakesScalar`: how a curve takes the coordinates and the scalar of a key

## Main results

* `Curve.octets_toNat`: a curve is given the octets that were received, in its own width
* `Curve.received_zeros_append`: zeros in front make no difference
* `Curve.takesPoint`, `Curve.takesScalar`
* `Curve.integers_reach_the_curve_in_its_width`
-/

namespace SimplePki.Curve

variable {curve : Curve} {fault : PointFault}

theorem width_pos (curve : Curve) : 1 ≤ curve.width := by
  cases curve <;> decide

/-- What a curve is given of an integer with these octets: as many octets as it has in its numbers,
or nothing, if more of them count. -/
def received (curve : Curve) (octets : Octets) : Except PointFault Octets :=
  if octets.toNat < 256 ^ curve.width then .ok (octets.resized curve.width)
  else .error (.tooWide octets.trim.length curve.width)

theorem octets_toNat (curve : Curve) (octets : Octets) :
    curve.octets octets.toNat = curve.received octets := by
  by_cases small : octets.toNat < 256 ^ curve.width
  · rw [Curve.octets, Octets.ofNatWidth?_toNat curve.width_pos small, received, if_pos small]
  · have none : Octets.ofNatWidth? curve.width octets.toNat = none :=
      Option.eq_none_iff_forall_ne_some.mpr fun fixed found =>
        small ((Octets.exists_ofNatWidth?_iff curve.width_pos).mp ⟨fixed, found⟩)
    have positive : 0 < octets.toNat :=
      Nat.lt_of_lt_of_le (Nat.pow_pos (by decide)) (Nat.not_lt.mp small)
    rw [Curve.octets, none, received, if_neg small]
    simp only [Octets.widthOfNat_of_pos positive, Octets.ofNat_toNat]

/-- A number is read from octets of the curve's width as it is given to the curve. -/
theorem octets_of_length {octets : Octets} (sized : octets.length = curve.width) :
    curve.octets octets.toNat = .ok octets := by
  have fixed := Octets.ofNatWidth?_eq_some_iff.mpr ⟨curve.width_pos, sized, rfl⟩
  rw [Curve.octets, fixed]

theorem received_zeros_append (curve : Curve) (k : Nat) (octets : Octets) :
    curve.received (List.replicate k 0 ++ octets) = curve.received octets := by
  rw [← octets_toNat, ← octets_toNat, Octets.toNat_zeros_append]

/-! ### Refusals -/

theorem scalar_of_error {d : Nat} (h : curve.octets d = .error fault) :
    curve.scalar d = .error fault := by
  rw [scalar, h]
  rfl

theorem derive_of_error {d : Nat} (h : curve.octets d = .error fault) :
    curve.derive d = .error fault := by
  rw [derive, scalar_of_error h]
  rfl

theorem sign_of_error {d : Nat} (h : curve.octets d = .error fault) (digest : Octets) :
    curve.sign d digest = .error fault := by
  rw [sign, scalar_of_error h]
  rfl

/-- The abscissa is looked at first. -/
theorem point_of_error {x y : Nat} (h : curve.octets x = .error fault ∨
    (∃ fixed, curve.octets x = .ok fixed) ∧ curve.octets y = .error fault) :
    curve.point x y = .error fault := by
  rcases h with wide | ⟨⟨fixed, fits⟩, wide⟩
  · rw [point, wide]
    rfl
  · rw [point, fits, ok_bind, wide]
    rfl

theorem verify_of_point_error {x y : Nat} (h : curve.point x y = .error fault) (digest : Octets)
    (tie : Tie) : curve.verify x y digest tie = .error (.point fault) := by
  rw [verify, h]

theorem order_lt (curve : Curve) : curve.order < 256 ^ curve.width := by
  cases curve <;> decide +kernel

/-- A signature with a number that does not fit is refused like any other that does not verify. -/
theorem verify_of_wide_tie {x y : Nat} {point : Nat × Nat} {tie : Tie}
    (known : curve.point x y = .ok point)
    (wide : 256 ^ curve.width ≤ tie.r ∨ 256 ^ curve.width ≤ tie.s) (digest : Octets) :
    curve.verify x y digest tie = .error .mismatch := by
  have refused {n : Nat} (h : 256 ^ curve.width ≤ n) : curve.isTieNumber n = false := by
    have beyond : ¬ n < curve.order := Nat.not_lt.mpr (Nat.le_trans (Nat.le_of_lt curve.order_lt) h)
    simp [isTieNumber, beyond]
  rw [verify, known]
  rcases wide with wide | wide
  · simp [refused wide]
  · simp [refused wide]

/-! ### Keys that are received -/

/-- A curve takes the coordinates of a key as the octets in which they were received, or refuses to
check anything. -/
structure TakesPoint (curve : Curve) (key : PublicKey) (abscissa ordinate : Octets) : Prop where
  x : curve.octets key.x = curve.received abscissa
  y : curve.octets key.y = curve.received ordinate
  refuses (fault : PointFault) (digest : Octets) (tie : Tie) :
    (curve.received abscissa = .error fault ∨
      (∃ fixed, curve.received abscissa = .ok fixed) ∧ curve.received ordinate = .error fault) →
    curve.verify key.x key.y digest tie = .error (.point fault)

/-- A curve takes a scalar as the octets in which it was received, or refuses to derive a point from
it and to sign with it. -/
structure TakesScalar (curve : Curve) (scalar : Nat) (d : Octets) : Prop where
  octets : curve.octets scalar = curve.received d
  refuses (fault : PointFault) : curve.received d = .error fault →
    curve.derive scalar = .error fault ∧ ∀ digest, curve.sign scalar digest = .error fault

theorem takesPoint (curve : Curve) (x y : Octets) :
    curve.TakesPoint (.ofPoint curve x.toNat y.toNat) x y where
  x := curve.octets_toNat x
  y := curve.octets_toNat y
  refuses fault digest tie wide := by
    rw [← octets_toNat, ← octets_toNat] at wide
    exact verify_of_point_error (point_of_error wide) digest tie

theorem takesScalar (curve : Curve) (d : Octets) : curve.TakesScalar d.toNat d where
  octets := curve.octets_toNat d
  refuses fault wide := by
    rw [← octets_toNat] at wide
    exact ⟨derive_of_error wide, sign_of_error wide⟩

/-- A number has a string of a given width exactly if it is below the power of 256, and then the
string has that width and that number; its shortest string is shorter than any other.  The integer
of a term is written in a width that it fits by resizing its octets, what is taken off the front
being zeros.  So zeros in front make no difference to what a curve is given of a key that is
received, and a coordinate, a scalar or a number of a signature that is too wide is refused. -/
theorem integers_reach_the_curve_in_its_width :
    (∀ width n : Nat, 1 ≤ width →
      ((∃ octets, Octets.ofNatWidth? width n = some octets) ↔ n < 256 ^ width)) ∧
    (∀ (width n : Nat) (octets : Octets), Octets.ofNatWidth? width n = some octets →
      octets.length = width ∧ octets.toNat = n) ∧
    (∀ n : Nat, (Octets.ofNat n).toNat = n ∧ ∀ octets : Octets, octets.toNat = n →
      octets ≠ Octets.ofNat n → (Octets.ofNat n).length < octets.length) ∧
    (∀ (name : String) (octets : Octets), ∃ n, (SExpr.term name octets).termNat name = .ok n ∧
      ∀ width, 1 ≤ width → n < 256 ^ width →
        Octets.ofNatWidth? width n = some (octets.resized width) ∧
        octets = List.replicate (octets.length - width) 0 ++
          octets.drop (octets.length - width)) ∧
    (∀ (curve : Curve) (k : Nat) (octets : Octets),
      curve.received (List.replicate k 0 ++ octets) = curve.received octets) ∧
    (∀ (curve : Curve) (x y : Octets), ∃ key,
      PublicKey.decode (PublicKey.spelled curve x y) = .ok key ∧ curve.TakesPoint key x y) ∧
    (∀ (curve : Curve) (x y d : Octets), ∃ key,
      PrivateKey.decode (PrivateKey.spelled curve x y d) = .ok key ∧
        curve.TakesPoint key.half x y ∧ curve.TakesScalar key.scalar d) ∧
    (∀ (curve : Curve) (x y : Nat) (point : Nat × Nat) (digest : Octets) (tie : Tie),
      curve.point x y = .ok point → 256 ^ curve.width ≤ tie.r ∨ 256 ^ curve.width ≤ tie.s →
        curve.verify x y digest tie = .error .mismatch) := by
  refine ⟨fun _ _ => Octets.exists_ofNatWidth?_iff, fun width n octets h => ?_, fun n => ?_,
    fun name octets => ?_, received_zeros_append, fun curve x y => ?_, fun curve x y d => ?_,
    fun curve x y point digest tie known wide => verify_of_wide_tie known wide digest⟩
  · exact (Octets.ofNatWidth?_eq_some_iff.mp h).2
  · exact ⟨Octets.toNat_ofNat n, fun octets => Octets.length_ofNat_lt_of_ne⟩
  · refine ⟨octets.toNat, ?_, fun width positive small => ?_⟩
    · rw [SExpr.termNat, SExpr.termOctets_term]
      rfl
    · exact ⟨Octets.ofNatWidth?_toNat positive small, Octets.eq_zeros_append_drop small⟩
  · exact ⟨_, PublicKey.decode_eq_ok_iff.mpr ⟨curve, x, y, rfl, rfl⟩, curve.takesPoint x y⟩
  · exact ⟨_, PrivateKey.decode_eq_ok_iff.mpr ⟨curve, x, y, d, rfl, rfl⟩, curve.takesPoint x y,
      curve.takesScalar d⟩

/-- A zero in front of an abscissa is taken off, an ordinate of no octets is filled with zeros, and
a scalar of 33 octets that count is refused. -/
theorem wide_scalar_is_refused : ∃ key,
    PrivateKey.decode (PrivateKey.spelled .p256 (0 :: List.replicate 32 7) []
      (1 :: List.replicate 32 0)) = .ok key ∧
    Curve.p256.octets key.half.x = .ok (List.replicate 32 7) ∧
    Curve.p256.octets key.half.y = .ok (List.replicate 32 0) ∧
    Curve.p256.derive key.scalar = .error (.tooWide 33 32) := by
  obtain ⟨-, -, -, -, -, -, received, -⟩ := integers_reach_the_curve_in_its_width
  obtain ⟨key, decoded, point, scalar⟩ := received .p256 (0 :: List.replicate 32 7) []
    (1 :: List.replicate 32 0)
  refine ⟨key, decoded, point.x.trans ?_, point.y.trans ?_, (scalar.refuses _ ?_).1⟩
  · decide +kernel
  · decide +kernel
  · decide +kernel

end SimplePki.Curve
