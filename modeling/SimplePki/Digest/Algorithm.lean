import SimplePki.Digest.Sha2

/-!
# Digest algorithms

The four algorithms by which expressions are hashed, each under the name that hash expressions use.

## Main definitions

* `DigestAlgorithm`, with its name, the length of its digests and its digest function
* `DigestAlgorithm.all`: the algorithms in the order of their names
* `DigestAlgorithm.hmac`: the keyed digest

## Main results

* `DigestAlgorithm.length_digest`: every digest has its algorithm's length
* `DigestAlgorithm.ofName?_eq_some_iff`: a name belongs to one algorithm
-/

namespace SimplePki

/-- An algorithm by which octets are digested. -/
inductive DigestAlgorithm where
  | sha224
  | sha256
  | sha384
  | sha512
  deriving DecidableEq, Repr

namespace DigestAlgorithm

/-- Every algorithm, in the order of their names. -/
def all : List DigestAlgorithm := [sha224, sha256, sha384, sha512]

/-- The name in hash expressions. -/
def name : DigestAlgorithm → String
  | sha224 => "sha224"
  | sha256 => "sha256"
  | sha384 => "sha384"
  | sha512 => "sha512"

/-- The algorithm of a name. -/
def ofName? (name : String) : Option DigestAlgorithm := all.find? fun alg => alg.name == name

/-- How many octets a digest has. -/
def size : DigestAlgorithm → Nat
  | sha224 => 28
  | sha256 => 32
  | sha384 => 48
  | sha512 => 64

/-- How many octets are mixed at once. -/
def blockSize : DigestAlgorithm → Nat
  | sha224 | sha256 => Sha2.blockOctets 32
  | sha384 | sha512 => Sha2.blockOctets 64

/-- The digest of octets. -/
def digest (alg : DigestAlgorithm) (octets : Octets) : Octets :=
  match alg with
  | sha224 => Sha2.digest Sha2.narrow Sha2.initial224 28 octets
  | sha256 => Sha2.digest Sha2.narrow Sha2.initial256 32 octets
  | sha384 => Sha2.digest Sha2.wide Sha2.initial384 48 octets
  | sha512 => Sha2.digest Sha2.wide Sha2.initial512 64 octets

/-- The digest of octets under a key: the key fills a block, which is mixed with one pattern in
front of the octets and with another in front of their digest. -/
def hmac (alg : DigestAlgorithm) (key octets : Octets) : Octets :=
  let short := if key.length ≤ alg.blockSize then key else alg.digest key
  let block := short ++ List.replicate (alg.blockSize - short.length) 0
  alg.digest (block.map (· ^^^ 0x5C) ++ alg.digest (block.map (· ^^^ 0x36) ++ octets))

theorem mem_all (alg : DigestAlgorithm) : alg ∈ all := by cases alg <;> decide

theorem name_injective {a b : DigestAlgorithm} (h : a.name = b.name) : a = b := by
  cases a <;> cases b <;> simp_all [name]

@[simp] theorem ofName?_name (alg : DigestAlgorithm) : ofName? alg.name = some alg := by
  cases alg <;> rfl

theorem ofName?_eq_some_iff {name : String} {alg : DigestAlgorithm} :
    ofName? name = some alg ↔ alg.name = name := by
  constructor
  · intro h
    simpa using List.find?_some h
  · rintro rfl
    exact ofName?_name alg

theorem length_digest (alg : DigestAlgorithm) (octets : Octets) :
    (alg.digest octets).length = alg.size := by
  cases alg <;> exact Sha2.length_digest _ _ _ _ (by decide)

end DigestAlgorithm

end SimplePki
