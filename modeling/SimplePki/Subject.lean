import SimplePki.Key

/-!
# Subjects

A certificate is issued to a key or to an object known by its hash.  A hash in a certificate may be
either, and nothing in it tells which.

## Main definitions

* `Subject`, `Subject.ofPrivate`
* `Subject.encode`, `Subject.decode`
-/

namespace SimplePki

/-- Whatever a certificate can be issued to. -/
inductive Subject where
  | key (key : Key)
  | object (hash : HashValue)
  deriving DecidableEq, Repr

namespace Subject

/-- The subject that a public key is. -/
def ofPublic (key : PublicKey) : Subject := .key (.publicKey key)

/-- The subject that the holder of a private key is: the public half. -/
def ofPrivate (key : PrivateKey) : Subject := ofPublic key.half

/-- The expression of a subject: keys are named by their natural hash. -/
def encode (installed : Installed) : Subject → Outcome SExpr
  | key known => (known.subject installed).1
  | object hash => .ok hash.encode

/-- The subject of a hash or key expression. -/
def decode (installed : Installed) (expr : SExpr) : Outcome Subject :=
  if expr.isListOf "hash" then (HashValue.decode installed expr).map object
  else (Key.decode installed expr).map key

end Subject

end SimplePki
