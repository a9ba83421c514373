import SimplePki.Proofs.HashValue
import SimplePki.Proofs.Key.Answers
import SimplePki.Proofs.Key.Codec

/-!
# The true hashes of a key

The true hash of a key is the digest of its canonical encoding under a registered algorithm.  It
depends on the point of the key only, and not on what the key remembers.

## Main definitions

* `PublicKey.hashUnder`: the true hash under an algorithm
* `PublicKey.HasHash`: a hash with the algorithm and the digest of a true one

## Main results

* `PublicKey.trueHash_eq_ok_iff`: what is computed is a true hash under a registered algorithm
* `PublicKey.agree_trueHash_iff`, `PublicKey.agree_trueHashes_iff`: comparing hashes is comparing
  digests
-/

namespace SimplePki

variable {registry : Registry}

namespace PublicKey

/-- The true hash of the key under an algorithm. -/
def hashUnder (key : PublicKey) (alg : DigestAlgorithm) : HashValue :=
  .ofDigest alg.name (alg.digest key.pack)

/-- The hash is a true one: it is under a registered algorithm, and has the digest of the key's
canonical encoding. -/
def HasHash (registry : Registry) (key : PublicKey) (hash : HashValue) : Prop :=
  ∃ alg ∈ registry.algorithms, hash.algorithm = alg.name ∧ hash.digest = alg.digest key.pack

theorem algorithm_hashUnder (key : PublicKey) (alg : DigestAlgorithm) :
    (key.hashUnder alg).algorithm = alg.name := rfl

theorem digest_hashUnder (key : PublicKey) (alg : DigestAlgorithm) :
    (key.hashUnder alg).digest = alg.digest key.pack := rfl

theorem bare_eq_iff {a b : PublicKey} : a.bare = b.bare ↔ a.samePoint b = true := by
  simp [bare, ofPoint, samePoint_iff]

theorem pack_bare (key : PublicKey) : key.bare.pack = key.pack := rfl

/-- Keys of one point have one canonical encoding. -/
theorem pack_congr {a b : PublicKey} (h : a.bare = b.bare) : a.pack = b.pack := by
  rw [← pack_bare a, h, pack_bare]

theorem hasHash_hashUnder {alg : DigestAlgorithm} (h : alg ∈ registry.algorithms)
    (key : PublicKey) : key.HasHash registry (key.hashUnder alg) := ⟨alg, h, rfl, rfl⟩

/-- The hash of a key under an algorithm is a true one of the keys with that digest. -/
theorem hasHash_hashUnder_iff {key other : PublicKey} {alg : DigestAlgorithm} :
    other.HasHash registry (key.hashUnder alg) ↔
      alg ∈ registry.algorithms ∧ alg.digest key.pack = alg.digest other.pack := by
  constructor
  · rintro ⟨found, registered, named, digest⟩
    obtain rfl := DigestAlgorithm.name_injective named
    exact ⟨registered, digest⟩
  · rintro ⟨registered, digest⟩
    exact ⟨alg, registered, rfl, digest⟩

theorem hasHash_congr {a b : PublicKey} (h : a.bare = b.bare) {hash : HashValue} :
    a.HasHash registry hash ↔ b.HasHash registry hash := by
  rw [HasHash, HasHash, pack_congr h]

theorem trueHash_of_mem {alg : DigestAlgorithm} (h : alg ∈ registry.algorithms)
    (key : PublicKey) : key.trueHash (some registry) alg.name = .ok (key.hashUnder alg) :=
  HashValue.compute_of_find (Registry.find_name (Registry.mem_algorithms_iff.mp h)) key.pack

/-- What is computed is a true hash under a registered algorithm. -/
theorem trueHash_eq_ok_iff {key : PublicKey} {algorithm : String} {hash : HashValue} :
    key.trueHash (some registry) algorithm = .ok hash ↔
      ∃ alg ∈ registry.algorithms, algorithm = alg.name ∧ hash = key.hashUnder alg := by
  rw [trueHash, HashValue.compute_eq_ok_iff]
  exact exists_congr fun alg => and_congr_left' Registry.mem_algorithms_iff.symm

/-- Under an algorithm that is not registered nothing is computed. -/
theorem trueHash_of_not_mem (key : PublicKey) {alg : DigestAlgorithm}
    (h : alg ∉ registry.algorithms) :
    ∃ error, key.trueHash (some registry) alg.name = .error error := by
  cases computed : key.trueHash (some registry) alg.name with
  | error error => exact ⟨error, rfl⟩
  | ok hash =>
    obtain ⟨other, registered, named, -⟩ := trueHash_eq_ok_iff.mp computed
    exact absurd (DigestAlgorithm.name_injective named ▸ registered) h

/-- A hash agrees with the one that is computed exactly if it is a true one. -/
theorem agree_trueHash_iff {key : PublicKey} {hash : HashValue} :
    Key.agree (key.trueHash (some registry) hash.algorithm) (.ok hash) = true ↔
      key.HasHash registry hash := by
  constructor
  · intro agreed
    cases computed : key.trueHash (some registry) hash.algorithm with
    | error error =>
      rw [computed] at agreed
      exact nomatch agreed
    | ok known =>
      rw [computed] at agreed
      obtain ⟨alg, mem, named, rfl⟩ := trueHash_eq_ok_iff.mp computed
      exact ⟨alg, mem, named, (HashValue.same_iff.mp agreed).2.symm⟩
  · rintro ⟨alg, mem, named, digest⟩
    rw [named, trueHash_of_mem mem]
    exact HashValue.same_iff.mpr ⟨named.symm, digest.symm⟩

/-- Two keys agree under a registered algorithm exactly if their encodings have one digest. -/
theorem agree_trueHashes_iff {alg : DigestAlgorithm} (h : alg ∈ registry.algorithms)
    {a b : PublicKey} :
    Key.agree (a.trueHash (some registry) alg.name) (b.trueHash (some registry) alg.name) = true ↔
      alg.digest a.pack = alg.digest b.pack := by
  rw [trueHash_of_mem h, trueHash_of_mem h, Key.agree, HashValue.same_iff, algorithm_hashUnder,
    algorithm_hashUnder, digest_hashUnder, digest_hashUnder]
  exact and_iff_right rfl

/-- A key answers with some hash under each registered algorithm. -/
theorem exists_hash {alg : DigestAlgorithm} (h : alg ∈ registry.algorithms) (key : PublicKey) :
    ∃ hash, (key.hash (some registry) alg.name).1 = .ok hash := by
  cases remembered : key.memo.find? alg.name with
  | some hash => exact ⟨hash, by rw [hash_of_memo remembered]⟩
  | none => exact ⟨key.hashUnder alg, by rw [hash_of_not_memo remembered, trueHash_of_mem h]⟩

end PublicKey

end SimplePki
