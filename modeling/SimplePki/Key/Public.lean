import SimplePki.Key.Ecdsa
import SimplePki.Key.Hashes

/-!
# Public keys

A public key is a point on a curve.  It is named by the hash of its canonical encoding, and it
remembers the hashes that were computed or given to it.  Nothing checks a given hash: it is
answered as if it had been computed.

## Main definitions

* `PublicKey`, `PublicKey.samePoint`
* `PublicKey.encode`, `PublicKey.decode`
* `PublicKey.hash`, `PublicKey.naturalHash`: a hash of the key, and the key that remembers it
* `PublicKey.trueHash`: the hash as computed afresh

## Main results

* `PublicKey.hash_of_memo`, `PublicKey.hash_of_not_memo`: what is remembered is answered, all else
  is computed
-/

namespace SimplePki

/-- A point on a curve, and the hashes that are remembered of it. -/
structure PublicKey where
  curve : Curve
  x : Nat
  y : Nat
  memo : HashKey
  deriving DecidableEq, Repr

namespace PublicKey

/-- The key of a point, of which no hash is known. -/
def ofPoint (curve : Curve) (x y : Nat) : PublicKey := ⟨curve, x, y, .empty⟩

/-- Whether two keys are the same point of the same curve. -/
def samePoint (a b : PublicKey) : Bool := a.curve == b.curve && a.x == b.x && a.y == b.y

/-- The key that was given a hash. -/
def withHash (key : PublicKey) (hash : HashValue) : PublicKey :=
  { key with memo := key.memo.insert hash }

/-- The expression `(public-key ...)`. -/
def encode (key : PublicKey) : SExpr :=
  KeyParts.encode "public-key" ⟨key.curve, key.x, key.y, none⟩

/-- The key of an expression `(public-key ...)`. -/
def decode (expr : SExpr) : Outcome PublicKey := do
  let parts ← KeyParts.decode "public-key" false expr
  return ofPoint parts.curve parts.x parts.y

/-- The canonical encoding. -/
def pack (key : PublicKey) : Octets := key.encode.pack

/-- The hash of the key as computed afresh. -/
def trueHash (installed : Installed) (algorithm : String) (key : PublicKey) : Outcome HashValue :=
  HashValue.compute installed algorithm key.pack

/-- The hash of the key under an algorithm, and the key that remembers it. -/
def hash (installed : Installed) (algorithm : String) (key : PublicKey) :
    Outcome HashValue × PublicKey :=
  match key.memo.find? algorithm with
  | some hash => (.ok hash, key)
  | none =>
    match key.trueHash installed algorithm with
    | .ok hash => (.ok hash, key.withHash hash)
    | .error error => (.error error, key)

/-- The hash under the algorithm that is paired with the curve. -/
def naturalHash (installed : Installed) (key : PublicKey) : Outcome HashValue × PublicKey :=
  key.hash installed key.curve.digestAlgorithm.name

/-- The expression that names the key: its natural hash. -/
def subject (installed : Installed) (key : PublicKey) : Outcome SExpr × PublicKey :=
  let (hash, key) := key.naturalHash installed
  (hash.map HashValue.encode, key)

theorem hash_of_memo {installed : Installed} {algorithm : String} {key : PublicKey}
    {hash : HashValue} (h : key.memo.find? algorithm = some hash) :
    key.hash installed algorithm = (.ok hash, key) := by
  simp [PublicKey.hash, h]

theorem hash_of_not_memo {installed : Installed} {algorithm : String} {key : PublicKey}
    (h : key.memo.find? algorithm = none) :
    (key.hash installed algorithm).1 = key.trueHash installed algorithm := by
  unfold PublicKey.hash
  rw [h]
  cases key.trueHash installed algorithm <;> rfl

theorem samePoint_iff {a b : PublicKey} :
    a.samePoint b = true ↔ a.curve = b.curve ∧ a.x = b.x ∧ a.y = b.y := by
  simp [samePoint, and_assoc]

end PublicKey

end SimplePki
