import SimplePki.Digest.Algorithm

/-!
# The elliptic curves

Keys live on one of two curves over prime fields.  Each curve is paired with the digest algorithm
whose digests are as wide as its numbers; a key signs such digests only.

## Main definitions

* `Curve`, with its name, its digest algorithm and the width of its numbers
* `Curve.prime`, `Curve.constant`, `Curve.order`, `Curve.generator`: the domain parameters
-/

namespace SimplePki

/-- An elliptic curve that keys may live on. -/
inductive Curve where
  | p256
  | p384
  deriving DecidableEq, Repr

namespace Curve

/-- The name in key expressions. -/
def name : Curve → String
  | p256 => "p256"
  | p384 => "p384"

/-- The curve of a name. -/
def ofName? (name : String) : Option Curve := [p256, p384].find? fun curve => curve.name == name

/-- The algorithm by which payloads are digested for signing, and keys for naming. -/
def digestAlgorithm : Curve → DigestAlgorithm
  | p256 => .sha256
  | p384 => .sha384

/-- How many octets a coordinate or a scalar has. -/
def width : Curve → Nat
  | p256 => 32
  | p384 => 48

@[simp] theorem ofName?_name (curve : Curve) : ofName? curve.name = some curve := by
  cases curve <;> rfl

theorem ofName?_eq_some_iff {name : String} {curve : Curve} :
    ofName? name = some curve ↔ curve.name = name := by
  constructor
  · intro h
    simpa using List.find?_some h
  · rintro rfl
    exact ofName?_name curve

/-- A digest for signing is as wide as the numbers of the curve. -/
theorem size_digestAlgorithm (curve : Curve) : curve.digestAlgorithm.size = curve.width := by
  cases curve <;> rfl

/-! ### Domain parameters

The points of a curve satisfy `y² = x³ - 3x + constant` over the integers modulo `prime`. -/

/-- The size of the field. -/
def prime : Curve → Nat
  | p256 => 0xffffffff00000001000000000000000000000000ffffffffffffffffffffffff
  | p384 =>
    0xfffffffffffffffffffffffffffffffffffffffffffffffffffffffffffffffeffffffff0000000000000000ffffffff

/-- The constant term of the curve's equation. -/
def constant : Curve → Nat
  | p256 => 0x5ac635d8aa3a93e7b3ebbd55769886bc651d06b0cc53b0f63bce3c3e27d2604b
  | p384 =>
    0xb3312fa7e23ee7e4988e056be3f82d19181d9c6efe8141120314088f5013875ac656398d8a2ed19d2a85c8edd3ec2aef

/-- How many points the curve has. -/
def order : Curve → Nat
  | p256 => 0xffffffff00000000ffffffffffffffffbce6faada7179e84f3b9cac2fc632551
  | p384 =>
    0xffffffffffffffffffffffffffffffffffffffffffffffffc7634d81f4372ddf581a0db248b0a77aecec196accc52973

/-- The point of which every other is a multiple. -/
def generator : Curve → Nat × Nat
  | p256 =>
    (0x6b17d1f2e12c4247f8bce6e563a440f277037d812deb33a0f4a13945d898c296,
     0x4fe342e2fe1a7f9b8ee7eb4a7c0f9e162bce33576b315ececbb6406837bf51f5)
  | p384 =>
    (0xaa87ca22be8b05378eb1c71ef320ad746e1d3b628ba79b9859f741e082542a385502f25dbf55296c3a545e3872760ab7,
     0x3617de4a96262c6f5d9e98bf9292dc29f8f41dbd289a147ce9da3113b5f0b8c00a60b1ce1d7e819d7a431d7c90ea0e5f)

/-- Whether a pair of field elements satisfies the curve's equation. -/
def contains (curve : Curve) (x y : Nat) : Bool :=
  x < curve.prime && y < curve.prime &&
    (y * y + 3 * x) % curve.prime == (x * x * x + curve.constant) % curve.prime

theorem contains_generator (curve : Curve) :
    curve.contains curve.generator.1 curve.generator.2 = true := by
  cases curve <;> decide

end Curve

end SimplePki
