import SimplePki.Key

/-!
# Signatures

A signature says which digest was signed, by whom, and the proof of it.  The signer is written as a
public key, or as the hash of one, which has to be resolved when the signature is read.

## Main definitions

* `Signature`, `PrivateKey.sign`, `Signature.verify`
* `Signature.encode`, `Signature.encodeByHash`
* `KeyLookup`, `Signature.decode`: reading, with a way to resolve hashes
* `Signature.unresolved?`: the hash that reading an expression has to resolve
-/

namespace SimplePki

/-- The digest of a payload, the signer, and the proof. -/
structure Signature where
  hash : HashValue
  principal : PublicKey
  tie : Curve.Tie
  deriving DecidableEq, Repr

/-- A way to find a public key by a hash of it. -/
abbrev KeyLookup := HashValue → Option PublicKey

/-- The lookup that finds nothing. -/
def KeyLookup.none : KeyLookup := fun _ => Option.none

/-- Signs the canonical encoding of a payload. -/
def PrivateKey.sign (installed : Installed) (key : PrivateKey) (payload : SExpr) :
    Outcome Signature := do
  let curve := key.half.curve
  let hash ← HashValue.ofExpr installed curve.digestAlgorithm.name payload
  match curve.sign key.scalar hash.digest with
  | .ok tie => return ⟨hash, key.half, tie⟩
  | .error fault => throw (.point fault)

namespace Signature

/-! ### Writing -/

/-- The expression of a signature with the signer written in a given way. -/
def encodeWith (signature : Signature) (principal : SExpr) : SExpr :=
  .list [.text "signature", signature.hash.encode, principal,
    .list [.text signatureAlgorithm, .natTerm "r" signature.tie.r, .natTerm "s" signature.tie.s]]

/-- The expression with the signer as a public key. -/
def encode (signature : Signature) : SExpr := signature.encodeWith signature.principal.encode

/-- The expression with the signer as its natural hash. -/
def encodeByHash (installed : Installed) (signature : Signature) : Outcome SExpr :=
  ((signature.principal.naturalHash installed).1).map fun hash => signature.encodeWith hash.encode

/-- The canonical encoding. -/
def pack (signature : Signature) : Octets := signature.encode.pack

/-! ### Reading -/

/-- A signer as it is written. -/
inductive Signer where
  | byHash (hash : HashValue)
  | byKey (key : PublicKey)

/-- The signer that an expression writes. -/
def decodeSigner (installed : Installed) (expr : SExpr) : Outcome Signer :=
  if expr.isListOf "hash" then (HashValue.decode installed expr).map .byHash
  else if expr.isListOf "public-key" then (PublicKey.decode expr).map .byKey
  else .error (.signatureExpression .notPrincipal)

/-- The payload's hash, the signer as written, and the expression of the proof. -/
def decodeParts (installed : Installed) (expr : SExpr) : Outcome (HashValue × Signer × SExpr) := do
  match expr.tagged? "signature" with
  | some [_, hash, signer, value] =>
    return (← HashValue.decode installed hash, ← decodeSigner installed signer, value)
  | _ => throw (.signatureExpression .notSignature)

/-- The integer of a term in a signature. -/
def decodeNat (name : String) (expr : SExpr) : Outcome Nat :=
  match expr.termNat name with
  | .ok n => .ok n
  | .error fault => .error (.signatureExpression (.term fault))

/-- The proof of `(ecdsa-sha2 (r R) (s S))`. -/
def decodeTie (expr : SExpr) : Outcome Curve.Tie := do
  match expr.tagged? signatureAlgorithm with
  | some [_, r, s] => return ⟨← decodeNat "r" r, ← decodeNat "s" s⟩
  | _ => throw (.signatureExpression .notValue)

/-- The signature of a hash, a signer and the expression of the proof; the hash has to be under the
algorithm that is paired with the signer's curve. -/
def complete (hash : HashValue) (principal : PublicKey) (value : SExpr) : Outcome Signature := do
  if hash.algorithm ≠ principal.curve.digestAlgorithm.name then
    throw (.signatureExpression (.digestAlgorithm principal.curve hash.algorithm))
  return ⟨hash, principal, ← decodeTie value⟩

/-- The hash of the signer that reading an expression has to resolve, if it comes to that. -/
def unresolved? (installed : Installed) (expr : SExpr) : Option HashValue :=
  match decodeParts installed expr with
  | .ok (_, .byHash hash, _) => some hash
  | _ => none

/-- The signature of `(signature HASH SIGNER VALUE)`.  A signer written as a hash is resolved, once,
by the given lookup. -/
def decode (installed : Installed) (lookup : KeyLookup) (expr : SExpr) : Outcome Signature := do
  let (hash, signer, value) ← decodeParts installed expr
  match signer with
  | .byKey key => complete hash key value
  | .byHash wanted =>
    match lookup wanted with
    | some key => complete hash key value
    | none => throw (.hashNotFound wanted)

/-! ### Checking -/

/-- Checks that a payload has the signed digest and that the signer signed it. -/
def verify (installed : Installed) (signature : Signature) (payload : SExpr) : Outcome Unit := do
  let key := signature.principal
  if signature.hash.algorithm ≠ key.curve.digestAlgorithm.name then
    throw (.digestAlgorithm key.curve signature.hash.algorithm)
  let actual ← HashValue.ofExpr installed signature.hash.algorithm payload
  if !actual.same signature.hash then
    throw (.digestMismatch signature.hash.digest actual.digest)
  match key.curve.verify key.x key.y signature.hash.digest signature.tie with
  | .ok () => return ()
  | .error (.point fault) => throw (.point fault)
  | .error .mismatch => throw .signatureFailed

end Signature

end SimplePki
