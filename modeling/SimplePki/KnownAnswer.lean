import SimplePki.Certificate
import SimplePki.Signature

/-!
# Known answers

A few scalars and payloads with the digests that they must lead to: that of the public key, under
the algorithm of its curve, and that of the payload.

## Main definitions

* `KnownAnswer`, `KnownAnswer.all`
* `KnownAnswer.keyHash`, `KnownAnswer.payloadHash`: the digests as computed
* `KnownAnswer.holds`: whether they are the expected ones
-/

namespace SimplePki

/-- A scalar and a payload, and the digests expected of them in hexadecimal. -/
structure KnownAnswer where
  name : String
  curve : Curve
  scalar : Octets
  payload : String
  expectedKeyHash : String
  expectedPayloadHash : String
  deriving DecidableEq, Repr

namespace KnownAnswer

/-- The known answers. -/
def all : List KnownAnswer := [
  { name := "p256 key, ftp tag"
    curve := .p256
    scalar := List.replicate 32 0x42
    payload := "(tag (ftp ftp.example.com))"
    expectedKeyHash := "3aed7938b4d38f89caa13110d38e59ccd09e573797673316e64c8f4cb853f75f"
    expectedPayloadHash := "7176b3f190fca4f48b80fdcb7ecc16bb1eeee7ce2b72390c68d667d38e99850a" },
  { name := "p256 key, wildcard tag"
    curve := .p256
    scalar := List.replicate 32 0x01
    payload := "(tag (*))"
    expectedKeyHash := "79218b25e6adf44e1d662a2cc5fd541882c79dbb116cbb4a282b33433ff36224"
    expectedPayloadHash := "c995f05cc93b672907452d64a745b4af7b13db13dd6b8ad8cba8cc82ee05a360" },
  { name := "p384 key, atom payload"
    curve := .p384
    scalar := List.replicate 48 0x07
    payload := "hello"
    expectedKeyHash :=
      "0997cbb6042c451baff3fabbf167905a6cad7f165f74e55718b21302a1504d4a4f3bd07101eac28356cf20de8dde05ce"
    expectedPayloadHash :=
      "515b938157c6d01cd786d527d175bd291317d9d2fe2b6ecef464c95bbd6ae704a6550ff8172e12cc345a31b6582f54f9" }]

/-- The key of a known answer. -/
def key (answer : KnownAnswer) : Outcome PrivateKey :=
  PrivateKey.ofScalar answer.curve answer.scalar.toNat

/-- The payload of a known answer. -/
def payloadExpr (answer : KnownAnswer) : Outcome SExpr :=
  match SExpr.read (Octets.ofText answer.payload) with
  | .ok expr => .ok expr
  | .error fault => .error (.reading fault)

/-- A digest in hexadecimal, empty where it could not be computed. -/
def hexOf (hash : Outcome HashValue) : String :=
  match hash with
  | .ok hash => hash.toHex
  | .error _ => ""

/-- The natural hash of the key, as computed. -/
def keyHash (installed : Installed) (answer : KnownAnswer) : String :=
  hexOf do (← answer.key).half.trueHash installed answer.curve.digestAlgorithm.name

/-- The hash of the payload, as computed. -/
def payloadHash (installed : Installed) (answer : KnownAnswer) : String :=
  hexOf do HashValue.ofExpr installed answer.curve.digestAlgorithm.name (← answer.payloadExpr)

/-- Whether both digests are the expected ones; an empty expectation expects nothing. -/
def holds (installed : Installed) (answer : KnownAnswer) : Bool :=
  (answer.expectedKeyHash.isEmpty || answer.keyHash installed == answer.expectedKeyHash) &&
    (answer.expectedPayloadHash.isEmpty ||
      answer.payloadHash installed == answer.expectedPayloadHash)

end KnownAnswer

end SimplePki
