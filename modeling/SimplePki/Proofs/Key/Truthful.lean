import SimplePki.Proofs.Key.Codec
import SimplePki.Proofs.KeyRing

/-!
# Keys that remember the truth

A key answers with a hash that it remembers, whoever gave it that hash.  If all that it remembers is
what would be computed, remembering makes no difference: the key answers as one of the same point
that remembers nothing.  Computing hashes keeps a key truthful, and a key ring computes all hashes
of the keys that it takes, so that its keys are truthful whatever the keys were that it was given.

## Main definitions

* `PublicKey.Truthful`: what a key remembers is what would be computed
* `KeyRing.Truthful`: all keys of a ring are truthful

## Main results

* `PublicKey.hash_of_truthful`: a truthful key answers what would be computed
* `Key.sameAs_congr`: truthful keys of one point are the same to all others
* `Key.sameAs_self`: a key is the same as itself where an algorithm is registered
* `KeyRing.truthful_of_registerAll`: a ring stays truthful, whatever keys it is given
-/

namespace SimplePki

variable {installed : Installed}

/-! ### One key -/

namespace PublicKey

/-- What the key remembers is what would be computed. -/
def Truthful (installed : Installed) (key : PublicKey) : Prop :=
  ∀ hash ∈ key.memo.hashes, key.trueHash installed hash.algorithm = .ok hash

theorem truthful_of_memo_empty {key : PublicKey} (h : key.memo = .empty) :
    key.Truthful installed := by
  intro hash mem
  rw [h] at mem
  exact absurd mem List.not_mem_nil

theorem truthful_ofPoint (curve : Curve) (x y : Nat) : Truthful installed (ofPoint curve x y) :=
  truthful_of_memo_empty rfl

/-- A hash depends on the point only. -/
theorem trueHash_congr {a b : PublicKey} (same : a.samePoint b = true) (algorithm : String) :
    a.trueHash installed algorithm = b.trueHash installed algorithm := by
  rw [trueHash, trueHash, pack, pack, encode_eq_iff.mpr same]

theorem mem_of_find? {key : PublicKey} {algorithm : String} {hash : HashValue}
    (h : key.memo.find? algorithm = some hash) : hash ∈ key.memo.hashes :=
  List.mem_of_find?_eq_some h

/-- A truthful key answers what would be computed. -/
theorem hash_of_truthful {key : PublicKey} (h : key.Truthful installed) (algorithm : String) :
    (key.hash installed algorithm).1 = key.trueHash installed algorithm := by
  cases remembered : key.memo.find? algorithm with
  | none => exact hash_of_not_memo remembered
  | some hash =>
    rw [hash_of_memo remembered, ← h hash (mem_of_find? remembered),
      HashKey.algorithm_of_find? remembered]

theorem naturalHash_of_truthful {key : PublicKey} (h : key.Truthful installed) :
    (key.naturalHash installed).1 = key.trueHash installed key.curve.digestAlgorithm.name :=
  hash_of_truthful h _

/-- A truthful key is truthful after it was asked. -/
theorem truthful_hash {key : PublicKey} (h : key.Truthful installed) (algorithm : String) :
    (key.hash installed algorithm).2.Truthful installed := by
  unfold PublicKey.hash
  split
  · exact h
  · split
    · next hash computed =>
      -- the one hash that may be new is the one that was computed
      intro other mem
      change key.trueHash installed other.algorithm = .ok other
      have known : other ∈ key.memo.hashes ∨ other = hash := by
        have mem : other ∈ (key.memo.insert hash).hashes := mem
        unfold HashKey.insert at mem
        split at mem
        · exact Or.inl mem
        · rw [List.mem_append, List.mem_singleton] at mem
          exact mem
      rcases known with old | rfl
      · exact h other old
      · rw [algorithm_of_trueHash computed, computed]
    · exact h

/-- The key that remembers its true hashes is truthful. -/
theorem truthful_hashed {registry : Registry} (key : PublicKey) :
    (key.hashed registry).Truthful (some registry) := by
  intro hash mem
  obtain ⟨alg, registered, rfl⟩ := List.mem_map.mp mem
  exact trueHash_of_mem registered key

end PublicKey

/-! ### Comparing keys -/

namespace Key

/-- Truthful keys of one point give the same answers. -/
theorem hash_congr {a b : PublicKey} (truthA : a.Truthful installed)
    (truthB : b.Truthful installed) (same : a.samePoint b = true) (algorithm : String) :
    (a.hash installed algorithm).1 = (b.hash installed algorithm).1 := by
  rw [PublicKey.hash_of_truthful truthA, PublicKey.hash_of_truthful truthB,
    PublicKey.trueHash_congr same]

/-- To any other key, truthful keys of one point are the same. -/
theorem sameAs_congr {a b : PublicKey} (issuer : Key) (truthA : a.Truthful installed)
    (truthB : b.Truthful installed) (same : a.samePoint b = true) :
    issuer.sameAs installed (.publicKey a) = issuer.sameAs installed (.publicKey b) := by
  have answers (algorithm : String) : ((Key.publicKey a).hash installed algorithm).1 =
      ((Key.publicKey b).hash installed algorithm).1 := hash_congr truthA truthB same algorithm
  cases issuer with
  | hashKey known => simp only [sameAs_hashKey, answers]
  | publicKey key =>
    cases installed with
    | none => rfl
    | some registry =>
      have known : (Key.publicKey key).public? = some key := rfl
      simp only [sameAs_of_public? known, answers]
  | privateKey key =>
    cases installed with
    | none => rfl
    | some registry =>
      have known : (Key.privateKey key).public? = some key.half := rfl
      simp only [sameAs_of_public? known, answers]

/-- A key shares its hashes with itself, where there is an algorithm to compute one. -/
theorem sameAs_self {registry : Registry} {alg : DigestAlgorithm}
    (h : registry.holds alg = true) (key : PublicKey) :
    Key.sameAs (some registry) (.publicKey key) (.publicKey key) = true := by
  have registered := Registry.mem_algorithms_iff.mpr h
  obtain ⟨hash, answered⟩ := key.exists_hash registered
  rw [sameAs_of_public? rfl, List.any_eq_true]
  refine ⟨alg, registered, ?_⟩
  rw [hash_of_public? rfl, answered]
  exact HashValue.same_refl hash

end Key

/-! ### Key rings -/

namespace KeyRing

/-- All keys of the ring remember the truth. -/
def Truthful (installed : Installed) (ring : KeyRing) : Prop :=
  ∀ key ∈ ring.keys, key.Truthful installed

theorem truthful_empty : Truthful installed .empty := fun _ mem => absurd mem List.not_mem_nil

/-- Keys that are added one after the other leave a truthful ring truthful, since a ring computes
the hashes of the keys that it takes. -/
theorem truthful_of_registerAll {registry : Registry} {ring after : KeyRing}
    {keys : List PublicKey} (truth : ring.Truthful (some registry))
    (h : ring.registerAll (some registry) keys = .ok after) : after.Truthful (some registry) :=
  registerAll_induction (motive := Truthful (some registry))
    (fun _ key before => forall_mem_place before (PublicKey.truthful_hashed key) _) truth h

theorem truthful_lookup {ring : KeyRing} (truth : ring.Truthful installed) {wanted : HashValue}
    {key : PublicKey} (h : ring.lookup wanted = some key) : key.Truthful installed := by
  obtain ⟨slot, -, found⟩ := Option.bind_eq_some_iff.mp h
  exact truth key (List.mem_of_getElem? found)

end KeyRing

end SimplePki
