import SimplePki.Proofs.Key.Identity
import SimplePki.Proofs.KeyRing.Points

/-!
# Whether a key ring contains a key

Keys are added to a ring under every registered algorithm, and are found by any of their hashes.
But whether a key is contained is asked for under one algorithm only, the one that belongs to the
curve of the key.  Where that algorithm is not registered, there is no hash to ask with, and the
answer is that the key is not contained, even if it was just added.

So a ring contains the keys that were added to it, of the curves whose algorithms are registered.

## Main results

* `KeyRing.contains_of_mem`: a ring is asked by the digest under the curve's algorithm
* `KeyRing.contains_of_not_mem`: without that algorithm no key is contained
* `KeyRing.contains_iff_added_under_its_own_algorithm`
-/

namespace SimplePki

variable {registry : Registry}

namespace KeyRing

variable {ring : KeyRing} {key : PublicKey}

/-! ### The hash that is asked for -/

/-- A ring that stands for a set of points contains the keys whose digest under the algorithm of
their curve is that of a point of the set. -/
theorem contains_of_mem {held : Finset PublicKey} (refines : Refines registry ring held)
    (truth : key.Truthful (some registry))
    (registered : key.curve.digestAlgorithm ∈ registry.algorithms) :
    ring.contains (some registry) key = true ↔
      ∃ point ∈ held, key.curve.digestAlgorithm.digest key.pack =
        key.curve.digestAlgorithm.digest point.pack := by
  have natural : (key.naturalHash (some registry)).1 =
      .ok (key.hashUnder key.curve.digestAlgorithm) := by
    rw [PublicKey.naturalHash_of_truthful truth, PublicKey.trueHash_of_mem registered]
  rw [contains, natural]
  dsimp only
  rw [Option.isSome_iff_exists]
  constructor
  · rintro ⟨found, got⟩
    obtain ⟨-, mem, named⟩ := refines.get?_eq_some_iff.mp got
    exact ⟨found.bare, mem, (PublicKey.hasHash_hashUnder_iff.mp named).2⟩
  · rintro ⟨point, mem, digest⟩
    -- a point of the set is one that remembers nothing, and is found with its true hashes
    obtain ⟨known, -, rfl⟩ := mem_points.mp (refines.points ▸ mem)
    exact ⟨known.bare.hashed registry, refines.get?_eq_some_iff.mpr
      ⟨PublicKey.hashed_congr known.bare.bare_hashed, mem,
        PublicKey.hasHash_hashUnder_iff.mpr ⟨registered, digest⟩⟩⟩

/-- Where the algorithm of its curve is not registered, a key is not contained. -/
theorem contains_of_not_mem (truth : key.Truthful (some registry))
    (unregistered : key.curve.digestAlgorithm ∉ registry.algorithms) :
    ring.contains (some registry) key = false := by
  obtain ⟨error, failed⟩ := key.trueHash_of_not_mem unregistered
  rw [contains, PublicKey.naturalHash_of_truthful truth, failed]

/-! ### Everything together -/

/-- A key that was given no hash is contained in a ring exactly if its point was added and the
algorithm of its curve is registered; so whether it is contained tells whether it was added exactly
for the keys that were not added and for the curves whose algorithms are registered. -/
theorem contains_iff_added_under_its_own_algorithm {keys : List PublicKey}
    (nonempty : registry.algorithms ≠ []) (apart : Apart registry (points (key :: keys)))
    (unseeded : Key.Unseeded (some registry) (.publicKey key))
    (made : registerAll (some registry) .empty keys = .ok ring) :
    (ring.contains (some registry) key = true ↔
      key.curve.digestAlgorithm ∈ registry.algorithms ∧
        ∃ known ∈ keys, known.samePoint key = true) ∧
    ((ring.contains (some registry) key = true ↔ ∃ known ∈ keys, known.samePoint key = true) ↔
      (key.curve.digestAlgorithm ∈ registry.algorithms ∨
        ¬∃ known ∈ keys, known.samePoint key = true)) := by
  have truth : key.Truthful (some registry) := unseeded.truthful rfl
  have added : (∃ known ∈ keys, known.samePoint key = true) ↔ key.bare ∈ points keys := by
    simp only [← PublicKey.bare_eq_iff, mem_points]
  have sub : points keys ⊆ points (key :: keys) := by
    rw [points_cons]
    exact Finset.subset_insert _ _
  have here : key.bare ∈ points (key :: keys) := by
    rw [points_cons]
    exact Finset.mem_insert_self _ _
  have isContained : ring.contains (some registry) key = true ↔
      key.curve.digestAlgorithm ∈ registry.algorithms ∧
        ∃ known ∈ keys, known.samePoint key = true := by
    rw [added]
    by_cases registered : key.curve.digestAlgorithm ∈ registry.algorithms
    · obtain ⟨_, same, refines⟩ := exists_refines nonempty (apart.mono sub)
      obtain rfl := Except.ok.inj (same.symm.trans made)
      rw [contains_of_mem refines truth registered]
      constructor
      · rintro ⟨point, mem, digest⟩
        have one := apart key.bare here point (sub mem) _ registered digest
        exact ⟨registered, one ▸ mem⟩
      · rintro ⟨-, mem⟩
        exact ⟨key.bare, mem, rfl⟩
    · rw [contains_of_not_mem truth registered]
      exact ⟨fun yes => (nomatch yes), fun both => absurd both.1 registered⟩
  refine ⟨isContained, ?_⟩
  rw [isContained, and_iff_right_iff_imp, imp_iff_or_not]

/-- The registry of the longest digests only. -/
def sha512Only : Registry := ⟨fun alg => alg == .sha512⟩

/-- Where the longest digests are the only ones, a key is found by its hash after it was added, and
is not contained. -/
theorem added_key_is_not_contained :
    let key := PublicKey.ofPoint .p256 1 2
    ∃ ring, registerAll (some sha512Only) .empty [key] = .ok ring ∧
      (ring.get? (key.hashUnder .sha512)).isSome = true ∧
      ring.contains (some sha512Only) key = false := by
  intro key
  have apart : Apart sha512Only (points [key, key]) := by
    intro a memA b memB _ _ _
    obtain ⟨first, here, rfl⟩ := mem_points.mp memA
    obtain ⟨second, there, rfl⟩ := mem_points.mp memB
    have sameFirst : first = key := by simpa using here
    have sameSecond : second = key := by simpa using there
    rw [sameFirst, sameSecond]
  have sub : points [key] ⊆ points [key, key] := by decide
  obtain ⟨ring, made, refines⟩ := exists_refines (by decide) (apart.mono sub)
  refine ⟨ring, made, ?_, ?_⟩
  · have named : key.HasHash sha512Only (key.hashUnder .sha512) :=
      PublicKey.hasHash_hashUnder (by decide) key
    rw [refines.get?_eq_some_iff.mpr ⟨PublicKey.hashed_congr key.bare_hashed, by decide, named⟩]
    rfl
  · have only := (contains_iff_added_under_its_own_algorithm (by decide) apart
      (.ofPoint .p256 1 2) made).1
    rw [Bool.eq_false_iff]
    intro contained
    exact absurd (only.mp contained).1 (by decide)

end KeyRing

end SimplePki
