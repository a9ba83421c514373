import SimplePki.Key.Public
import SimplePki.SExpr.Reader

/-!
# Private keys

A private key adds a secret scalar to a public key.  Its hashes are those of the public half, which
it shares with whoever is given that half.  The point is trusted as it was given; only a key that is
made from its scalar has a point that is known to fit.

## Main definitions

* `PrivateKey`, `PrivateKey.ofScalar`, `PrivateKey.ofParts`
* `PrivateKey.encode`, `PrivateKey.decode`
* `PrivateKey.ofDrawn`, `PrivateKey.generate`: keys made from a number drawn at random
-/

namespace SimplePki

/-- A secret scalar and the public half it belongs to. -/
structure PrivateKey where
  half : PublicKey
  scalar : Nat
  deriving DecidableEq, Repr

namespace PrivateKey

/-- The key of a point and a scalar, which need not fit. -/
def ofParts (curve : Curve) (x y scalar : Nat) : PrivateKey := ⟨.ofPoint curve x y, scalar⟩

/-- The key of a scalar, with the point that fits. -/
def ofScalar (curve : Curve) (scalar : Nat) : Outcome PrivateKey :=
  match curve.derive scalar with
  | .ok (x, y) => .ok (ofParts curve x y scalar)
  | .error fault => .error (.point fault)

/-- Whether two keys have the same point and the same scalar. -/
def same (a b : PrivateKey) : Bool := a.half.samePoint b.half && a.scalar == b.scalar

/-- The expression `(private-key ...)`. -/
def encode (key : PrivateKey) : SExpr :=
  KeyParts.encode "private-key" ⟨key.half.curve, key.half.x, key.half.y, some key.scalar⟩

/-- The key of an expression `(private-key ...)`. -/
def decode (expr : SExpr) : Outcome PrivateKey := do
  let parts ← KeyParts.decode "private-key" true expr
  return ofParts parts.curve parts.x parts.y (parts.d.getD 0)

/-- The canonical encoding. -/
def pack (key : PrivateKey) : Octets := key.encode.pack

/-- The hash of the public half, and the key that remembers it. -/
def hash (installed : Installed) (algorithm : String) (key : PrivateKey) :
    Outcome HashValue × PrivateKey :=
  let (hash, half) := key.half.hash installed algorithm
  (hash, { key with half })

/-- The expression that names the key; it is asked of the public half, and the key itself does not
remember it. -/
def subject (installed : Installed) (key : PrivateKey) : Outcome SExpr :=
  (key.half.subject installed).1

/-- The specifier of the keys that can be generated. -/
def specifier : SExpr :=
  .list [.text signatureAlgorithm, .list [.text "curve", .text Curve.p256.name]]

/-- The key that a number drawn at random determines. -/
def ofDrawn (curve : Curve) (drawn : Nat) : Outcome PrivateKey :=
  ofScalar curve (drawn % (curve.order - 1) + 1)

/-- A key for an algorithm specifier, made from a number drawn at random.  Only keys on the smaller
curve are generated. -/
def generate (specification : String) (drawn : Nat) : Outcome PrivateKey :=
  match SExpr.read (Octets.ofText specification) with
  | .ok expr =>
    if expr = specifier then ofDrawn .p256 drawn
    else .error (.unknownAlgorithm specification)
  | .error _ => .error (.unknownAlgorithm specification)

end PrivateKey

end SimplePki
