import SimplePki.Octets.Utf8
import SimplePki.SExpr.Term

/-!
# Expressions of ECDSA keys

Public and private keys share one shape,
`(OUTER (ecdsa-sha2 (curve NAME) (x X) (y Y)))`, with a last term `(d D)` in private keys.

## Main definitions

* `KeyParts`: a curve, a point, and perhaps a scalar
* `KeyParts.encode`, `KeyParts.decode`
-/

namespace SimplePki

/-- The name of the signature algorithm. -/
def signatureAlgorithm : String := "ecdsa-sha2"

/-- A curve, the coordinates of a point, and perhaps a secret scalar. -/
structure KeyParts where
  curve : Curve
  x : Nat
  y : Nat
  d : Option Nat
  deriving DecidableEq, Repr

namespace KeyParts

/-- The key expression of the parts. -/
def encode (outer : String) (parts : KeyParts) : SExpr :=
  .list [.text outer,
    .list ([.text signatureAlgorithm, .term "curve" (Octets.ofText parts.curve.name),
      .natTerm "x" parts.x, .natTerm "y" parts.y] ++
      (match parts.d with
        | some d => [.natTerm "d" d]
        | none => []))]

/-- The integer of a term in a key. -/
def decodeNat (name : String) (expr : SExpr) : Outcome Nat :=
  match expr.termNat name with
  | .ok n => .ok n
  | .error fault => .error (.keyExpression (.term fault))

/-- The curve of a term in a key; octets that are no text name no curve, whatever they show. -/
def decodeCurve (expr : SExpr) : Outcome Curve :=
  match expr.termOctets "curve" with
  | .error fault => .error (.keyExpression (.term fault))
  | .ok octets =>
    let name := octets.toTextLossy
    match Curve.ofName? name with
    | some curve => .ok curve
    | none => .error (.unsupportedCurve name)

/-- The parts of the terms inside a key expression. -/
def decodeTerms (outer : String) (hasScalar : Bool) (items : List SExpr) : Outcome KeyParts := do
  match hasScalar, items with
  | false, [_, curve, x, y] =>
    return ⟨← decodeCurve curve, ← decodeNat "x" x, ← decodeNat "y" y, none⟩
  | true, [_, curve, x, y, d] =>
    return ⟨← decodeCurve curve, ← decodeNat "x" x, ← decodeNat "y" y, some (← decodeNat "d" d)⟩
  | _, _ =>
    throw (.keyExpression (.itemCount outer (if hasScalar then 5 else 4) items.length))

/-- The parts of a key expression. -/
def decode (outer : String) (hasScalar : Bool) (expr : SExpr) : Outcome KeyParts :=
  match expr.tagged? outer with
  | some [_, algorithm] =>
    match algorithm.tagged? signatureAlgorithm with
    | some items => decodeTerms outer hasScalar items
    | none => .error (.keyExpression .notEcdsa)
  | _ => .error (.keyExpression (.notOuter outer))

end KeyParts

end SimplePki
