import SimplePki.Curve.Ecdsa
import SimplePki.HashValue
import SimplePki.Instant.Layout
import SimplePki.SExpr.Message

/-!
# Errors

Every failure names its cause.  The causes are grouped by what was being read: a hash, a key, a
signature, or any other expression; the wording of each is in one place.

## Main definitions

* `TermFault`, `HashFault`, `KeyFault`, `SignatureFault`, `ExpressionFault`: expressions of the
  wrong shape
* `Error`, with its wording and `Error.isMalformed`
-/

namespace SimplePki

/-- Why an expression is no `(NAME OCTET-STRING)`. -/
inductive TermFault where
  | notTerm (name : String)
  | notAtom (name : String)
  deriving DecidableEq, Repr

/-- The wording of a fault. -/
def TermFault.message : TermFault → String
  | .notTerm name => s!"expected term ({name} OCTET-STRING)"
  | .notAtom name => s!"value in ({name} VALUE) must be an atom"

/-- Why an expression is no hash. -/
inductive HashFault where
  | notList
  | itemCount (count : Nat)
  | notHash
  | algorithmNotText
  | digestNotAtom
  | digestLength (algorithm : String) (wanted got : Nat)
  | notUris
  | uriNotText
  deriving DecidableEq, Repr

/-- The wording of a fault. -/
def HashFault.message : HashFault → String
  | .notList => "expected a list"
  | .itemCount count => s!"expected 3 or 4 elements, got {count}"
  | .notHash => "expected leading atom \x60hash\x60"
  | .algorithmNotText => "algorithm must be a text atom"
  | .digestNotAtom => "digest must be an atom"
  | .digestLength algorithm wanted got =>
    s!"{algorithm} digest must be {wanted} bytes, got {got}"
  | .notUris => "expected (uris URI...)"
  | .uriNotText => "uri must be a text atom"

/-- Why an expression is no key. -/
inductive KeyFault where
  | notKey (expr : SExpr)
  | notOuter (outer : String)
  | notEcdsa
  | itemCount (outer : String) (wanted got : Nat)
  | term (fault : TermFault)
  deriving DecidableEq, Repr

/-- The wording of a fault. -/
def KeyFault.message : KeyFault → String
  | .notKey expr => s!"expected hash, public-key or private-key, got {expr.toAdvanced}"
  | .notOuter outer => s!"expected ({outer} ALGORITHM)"
  | .notEcdsa => "expected (ecdsa-sha2 ...)"
  | .itemCount outer wanted got =>
    s!"{outer} parameters must have {wanted} elements, got {got}"
  | .term fault => fault.message

/-- Why an expression is no signature. -/
inductive SignatureFault where
  | notSignature
  | notPrincipal
  | digestAlgorithm (curve : Curve) (got : String)
  | notValue
  | term (fault : TermFault)
  deriving DecidableEq, Repr

/-- The wording of a fault. -/
def SignatureFault.message : SignatureFault → String
  | .notSignature => "expected (signature HASH PRINCIPAL VALUE)"
  | .notPrincipal => "principal must be a hash or a public key"
  | .digestAlgorithm curve got =>
    s!"{curve.name} principal signs {curve.digestAlgorithm.name} digests, got {got}"
  | .notValue => "expected (ecdsa-sha2 (r R) (s S))"
  | .term fault => fault.message

/-- Why an expression is no name, validity, certificate or sequence. -/
inductive ExpressionFault where
  | notName
  | nameNotText (item : SExpr)
  | notValidity
  | unexpectedTerm (item : SExpr)
  | term (fault : TermFault)
  | timestampNotText
  | timestamp (text : String) (fault : TimestampFault)
  | notCertificate
  | notNamed (name : String)
  | noTag
  | notElement (expr : SExpr)
  | notSequence
  deriving DecidableEq, Repr

/-- The wording of a fault. -/
def ExpressionFault.message : ExpressionFault → String
  | .notName => "expected (name PRINCIPAL NAME...)"
  | .nameNotText item => s!"name must be text, got {item.toAdvanced}"
  | .notValidity => "expected (valid [(not-before T)] [(not-after T)])"
  | .unexpectedTerm item => s!"unexpected term {item.toAdvanced}"
  | .term fault => fault.message
  | .timestampNotText => "timestamp must be text"
  | .timestamp text fault => s!"bad timestamp {Text.quote text}: {fault.message}"
  | .notCertificate => "expected (cert (issuer I) (subject S) [(delegate)] TAG [VALID])"
  | .notNamed name => s!"expected ({name} ...)"
  | .noTag => "missing tag"
  | .notElement expr => s!"unknown sequence element {expr.toAdvanced}"
  | .notSequence => "expected (sequence ELEMENT...)"

/-- Why an operation on keys, certificates or signatures failed. -/
inductive Error where
  | hashExpression (fault : HashFault)
  | keyExpression (fault : KeyFault)
  | signatureExpression (fault : SignatureFault)
  | expression (fault : ExpressionFault)
  | unsupportedCurve (name : String)
  | unknownAlgorithm (name : String)
  | noHash (algorithm : String)
  | hashNotFound (hash : HashValue)
  | noRegistry
  | uri (text : String) (fault : UriFault)
  | point (fault : PointFault)
  | signatureFailed
  | digestMismatch (covered actual : Octets)
  | digestAlgorithm (curve : Curve) (got : String)
  | reading (fault : ReadError)
  deriving DecidableEq, Repr

namespace Error

/-- The wording of an error. -/
def message : Error → String
  | hashExpression fault => s!"invalid hash expression: {fault.message}"
  | keyExpression fault => s!"malformed key expression: {fault.message}"
  | signatureExpression fault => s!"malformed signature expression: {fault.message}"
  | expression fault => s!"malformed expression: {fault.message}"
  | unsupportedCurve name => s!"unsupported curve: {name}"
  | unknownAlgorithm name => s!"unknown algorithm: {name}"
  | noHash algorithm => s!"no hash found for algorithm {algorithm}"
  | hashNotFound hash => s!"hash value {hash.encode.toAdvanced} not found"
  | noRegistry => "digest registry has not been initialized"
  | uri text fault => s!"invalid uri: {text}: {fault.message}"
  | point fault => s!"invalid key: {fault.message}"
  | signatureFailed => "signature verification failed"
  | digestMismatch covered actual =>
    s!"digest mismatch: signature covers {Hex.encode covered}, " ++
      s!"payload hashes to {Hex.encode actual}"
  | digestAlgorithm curve got =>
    s!"{curve.name} signatures use {curve.digestAlgorithm.name} digests, got {got}"
  | reading fault => s!"s-expression error: {fault.message}"

/-- Whether the error says that an expression has the wrong shape. -/
def isMalformed : Error → Bool
  | hashExpression _ | keyExpression _ | signatureExpression _ | expression _ | reading _ => true
  | _ => false

end Error

/-- What an operation yields, or why it failed. -/
abbrev Outcome := Except Error

end SimplePki
