import SimplePki.Key.Public
import SimplePki.Signature

/-!
# Key rings

A key ring finds public keys by their hashes.  It keeps each key once and an index of all hashes of
it, under every registered algorithm.  What a key remembers is never believed: a key enters the ring
with its hashes computed afresh.

## Main definitions

* `KeyRing`, `KeyRing.get?`, `KeyRing.lookup`
* `KeyRing.register`: the ring with one more key, and how many hashes find it
* `KeyRing.contains`
-/

namespace SimplePki

/-- Public keys, and the places of the keys by their hashes. -/
structure KeyRing where
  keys : List PublicKey
  index : List (Fingerprint × Nat)
  deriving DecidableEq, Repr

namespace KeyRing

/-- No keys. -/
def empty : KeyRing := ⟨[], []⟩

/-- The place of the key with a given hash. -/
def slot? (ring : KeyRing) (hash : HashValue) : Option Nat :=
  ring.index.lookup hash.fingerprint

/-- The key with a given hash. -/
def get? (ring : KeyRing) (hash : HashValue) : Option PublicKey :=
  (ring.slot? hash).bind fun slot => ring.keys[slot]?

/-- The ring as a way to find keys. -/
def lookup (ring : KeyRing) : KeyLookup := ring.get?

/-- The hashes of a key under algorithms, and the key that remembers them. -/
def hashAll (installed : Installed) : List DigestAlgorithm → PublicKey →
    Outcome (List HashValue × PublicKey)
  | [], key => .ok ([], key)
  | alg :: rest, key => do
    let (hash, key) := key.hash installed alg.name
    let hash ← hash
    let (hashes, key) ← hashAll installed rest key
    return (hash :: hashes, key)

/-- The index with the hashes of the key at a place. -/
def indexAll (slot : Nat) (hashes : List HashValue) (index : List (Fingerprint × Nat)) :
    List (Fingerprint × Nat) :=
  hashes.foldl
    (fun index hash =>
      (hash.fingerprint, slot) :: index.filter fun entry => entry.1 != hash.fingerprint)
    index

/-- The ring with a key at the place that one of its hashes has, or at a new one. -/
def place (ring : KeyRing) (key : PublicKey) (hashes : List HashValue) : KeyRing :=
  match hashes.findSome? ring.slot? with
  | some slot => ⟨ring.keys.set slot key, indexAll slot hashes ring.index⟩
  | none => ⟨ring.keys ++ [key], indexAll ring.keys.length hashes ring.index⟩

/-- The ring with one more key, and how many hashes find it. -/
def register (installed : Installed) (ring : KeyRing) (key : PublicKey) :
    Outcome (Nat × KeyRing) := do
  let registry ← installed.registry
  let (hashes, key) ← hashAll installed registry.algorithms (.ofPoint key.curve key.x key.y)
  return (hashes.length, ring.place key hashes)

/-- Whether the natural hash of a key, as the key remembers it, finds a key. -/
def contains (installed : Installed) (ring : KeyRing) (key : PublicKey) : Bool :=
  match (key.naturalHash installed).1 with
  | .ok hash => (ring.get? hash).isSome
  | .error _ => false

/-- How many keys there are. -/
def size (ring : KeyRing) : Nat := ring.keys.length

end KeyRing

end SimplePki
