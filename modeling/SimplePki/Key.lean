import SimplePki.Key.Private

/-!
# Keys

A key is known by hashes, by its point, or by its scalar.  All three answer the same questions:
what is its hash, what expression names it, and is it the same key as another.  Keys are the same
when they have a hash in common; which of them know more does not matter.

Looking for a common hash fills the memories of both keys on the way, and stops at the first one.

## Main definitions

* `Key`, `Key.encode`, `Key.decode`
* `Key.hash`, `Key.subject`: answers, and the key that remembers them
* `Key.compare`: whether two keys have a hash in common, and both keys afterwards
* `Key.sameAs`: the verdict of `Key.compare` alone
-/

namespace SimplePki

/-- A key, by what is known of it. -/
inductive Key where
  | hashKey (key : HashKey)
  | publicKey (key : PublicKey)
  | privateKey (key : PrivateKey)
  deriving DecidableEq, Repr

namespace Key

/-- The key that is known by one hash. -/
def ofHash (hash : HashValue) : Key := .hashKey (.ofList [hash])

/-- The key of a hash, public key or private key expression. -/
def decode (installed : Installed) (expr : SExpr) : Outcome Key :=
  if expr.isListOf "hash" then (HashValue.decode installed expr).map ofHash
  else if expr.isListOf "public-key" then (PublicKey.decode expr).map publicKey
  else if expr.isListOf "private-key" then (PrivateKey.decode expr).map privateKey
  else .error (.keyExpression (.notKey expr))

/-- The expression of all that is known: the first hash, the point, or the scalar with it. -/
def encode : Key → Outcome SExpr
  | hashKey key => key.first.map HashValue.encode
  | publicKey key => .ok key.encode
  | privateKey key => .ok key.encode

/-- Whether only hashes are known. -/
def isHash : Key → Bool
  | hashKey _ => true
  | _ => false

/-- The public half, with what it remembers. -/
def public? : Key → Option PublicKey
  | hashKey _ => none
  | publicKey key => some key
  | privateKey key => some key.half

/-- The hash under an algorithm, and the key that remembers it. -/
def hash (installed : Installed) (algorithm : String) : Key → Outcome HashValue × Key
  | hashKey key => (key.hash algorithm, hashKey key)
  | publicKey key =>
    let (hash, key) := key.hash installed algorithm
    (hash, publicKey key)
  | privateKey key =>
    let (hash, key) := key.hash installed algorithm
    (hash, privateKey key)

/-- The expression that names the key, and the key that remembers its hash. -/
def subject (installed : Installed) : Key → Outcome SExpr × Key
  | hashKey key => (key.first.map HashValue.encode, hashKey key)
  | publicKey key =>
    let (expr, key) := key.subject installed
    (expr, publicKey key)
  | privateKey key => (key.subject installed, privateKey key)

/-- The signature algorithm, empty where only hashes are known. -/
def signatureName : Key → String
  | hashKey _ => ""
  | _ => signatureAlgorithm

/-- The name of the curve, empty where only hashes are known. -/
def curveName (key : Key) : String :=
  match key.public? with
  | some half => half.curve.name
  | none => ""

/-- Whether two answers are the same hash. -/
def agree : Outcome HashValue → Outcome HashValue → Bool
  | .ok a, .ok b => a.same b
  | _, _ => false

/-- Whether another key has one of the given hashes, looked for in order. -/
def hasAny (installed : Installed) : List HashValue → Key → Bool × Key
  | [], other => (false, other)
  | hash :: rest, other =>
    let (theirs, other) := other.hash installed hash.algorithm
    if agree theirs (.ok hash) then (true, other) else hasAny installed rest other

/-- Whether two keys have the same hash under one of the given algorithms, tried in order. -/
def shareAny (installed : Installed) : List DigestAlgorithm → Key → Key → Bool × Key × Key
  | [], a, b => (false, a, b)
  | alg :: rest, a, b =>
    let (ours, a) := a.hash installed alg.name
    let (theirs, b) := b.hash installed alg.name
    if agree ours theirs then (true, a, b) else shareAny installed rest a b

/-- Whether two keys have a hash in common, and what they remember afterwards.  A key that is known
by hashes compares these; any other key tries the registered algorithms in order. -/
def compare (installed : Installed) (a b : Key) : Bool × Key × Key :=
  match a with
  | hashKey key =>
    let (found, b) := hasAny installed key.hashes b
    (found, a, b)
  | _ =>
    match installed with
    | none => (false, a, b)
    | some registry => shareAny installed registry.algorithms a b

/-- Whether two keys have a hash in common. -/
def sameAs (installed : Installed) (a b : Key) : Bool := (compare installed a b).1

end Key

end SimplePki
