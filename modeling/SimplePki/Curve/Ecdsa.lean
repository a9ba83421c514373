import SimplePki.Curve.Nonce
import SimplePki.Curve.Point

/-!
# Signing digests

A signature of a digest is a pair of numbers.  The first is the abscissa of a multiple of the
generator by a nonce; the second ties it to the digest and the secret scalar.  Whoever holds the
public point can check the tie.

Neither number of a signature may be zero.  A nonce that makes one of them zero is passed over for
the next one here, as RFC 6979 has it; there are implementations that take the first nonce below the
order and refuse to sign if one of the numbers is zero then, with the fault of a signature that
fails.  The two differ on no digest that anybody knows of.

## Main definitions

* `PointFault`: why a scalar or a point is unusable
* `Curve.derive`: the public point of a scalar
* `Curve.sign`, `Curve.verify`: signatures of digests
-/

namespace SimplePki

/-- Why a scalar or a point is unusable. -/
inductive PointFault where
  /-- A number that takes more octets than the curve's numbers have. -/
  | tooWide (octets width : Nat)
  /-- A scalar that is zero or not below the order. -/
  | scalarOutOfRange
  /-- Coordinates of no point. -/
  | notOnCurve
  deriving DecidableEq, Repr

/-- The wording of a fault. -/
def PointFault.message : PointFault → String
  | .tooWide octets width => s!"integer of {octets} bytes exceeds field size {width}"
  | .scalarOutOfRange => "private scalar out of range"
  | .notOnCurve => "point is not on the curve"

/-- How a check of a signature ends other than well. -/
inductive VerifyFault where
  | point (fault : PointFault)
  | mismatch
  deriving DecidableEq, Repr

/-- A signature: the abscissa of the nonce's point, and the tie. -/
structure Curve.Tie where
  r : Nat
  s : Nat
  deriving DecidableEq, Repr

namespace Curve

/-- The octets of a number that is as wide as the curve's numbers at most. -/
def octets (curve : Curve) (n : Nat) : Except PointFault Octets :=
  match Octets.ofNatWidth? curve.width n with
  | some octets => .ok octets
  | none => .error (.tooWide (Octets.widthOfNat n) curve.width)

/-- A scalar that may be secret: neither zero nor beyond the order. -/
def scalar (curve : Curve) (d : Nat) : Except PointFault Nat := do
  let n := (← curve.octets d).toNat
  if 1 ≤ n ∧ n < curve.order then return n else throw .scalarOutOfRange

/-- The public point of a secret scalar. -/
def derive (curve : Curve) (d : Nat) : Except PointFault (Nat × Nat) := do
  return (curve.multiple (← curve.scalar d)).getD (0, 0)

/-- The tie of a nonce to a scalar and a digest. -/
def tie (curve : Curve) (scalar digest nonce : Nat) : Tie :=
  let n := curve.order
  let r := ((curve.multiple nonce).getD (0, 0)).1 % n
  ⟨r, Modular.inverse n nonce * ((digest + r * scalar) % n) % n⟩

/-- Whether a nonce and its tie may be used. -/
def isUsable (curve : Curve) (nonce : Nat) (tie : Tie) : Bool :=
  1 ≤ nonce && nonce < curve.order && tie.r != 0 && tie.s != 0

/-- The tie of the first usable nonce.  Nonces out of range are hardly ever met with, and none is
known that makes a number zero.  After a hundred candidates the next one is brought into range and
taken as it comes, where RFC 6979 would go on asking. -/
def firstTie (curve : Curve) (scalar digest : Nat) : Nat → Nonce.State → Tie
  -- the tie may have a zero in it, which no check of a signature lets pass
  | 0, state => curve.tie scalar digest (state.candidate % (curve.order - 1) + 1)
  | attempts + 1, state =>
    let tie := curve.tie scalar digest state.candidate
    if curve.isUsable state.candidate tie then tie
    else firstTie curve scalar digest attempts (state.next curve.digestAlgorithm)

/-- The signature of a digest under a secret scalar; only the scalar may be at fault. -/
def sign (curve : Curve) (d : Nat) (digest : Octets) : Except PointFault Tie := do
  let scalar ← curve.scalar d
  return curve.firstTie scalar digest.toNat 100 (Nonce.start curve scalar digest)

/-- Whether a number may stand in a signature. -/
def isTieNumber (curve : Curve) (n : Nat) : Bool := 1 ≤ n && n < curve.order

/-- The equation between a signature, a digest and a public point. -/
def holds (curve : Curve) (x y digest : Nat) (tie : Tie) : Bool :=
  let n := curve.order
  let inverse := Modular.inverse n tie.s
  match curve.combine (digest * inverse % n) (tie.r * inverse % n) x y with
  | some (abscissa, _) => abscissa % n == tie.r
  | none => false

/-- The public point with given coordinates. -/
def point (curve : Curve) (x y : Nat) : Except PointFault (Nat × Nat) := do
  let x := (← curve.octets x).toNat
  let y := (← curve.octets y).toNat
  if curve.contains x y then return (x, y) else throw .notOnCurve

/-- Checks a signature of a digest under a public point. -/
def verify (curve : Curve) (x y : Nat) (digest : Octets) (tie : Tie) : Except VerifyFault Unit :=
  match curve.point x y with
  | .error fault => .error (.point fault)
  | .ok (x, y) =>
    if curve.isTieNumber tie.r && curve.isTieNumber tie.s && curve.holds x y digest.toNat tie then
      .ok ()
    else .error .mismatch

end Curve

end SimplePki
