import SimplePki.Key
import SimplePki.Proofs.Outcome

/-!
# What keys answer

A key that is asked for a hash may remember it, which changes none of its answers: it gives the hash
that it remembers when it is asked for it again, and any other hash as if it had not been asked.  So
keys can be compared as if they remembered nothing on the way: they are the same if one of several
answers agrees, whichever was asked for first.

## Main results

* `Key.hash_hash`: asking a key changes none of its answers
* `Key.sameAs_hashKey`, `Key.sameAs_of_public?`: comparing keys is comparing answers
-/

namespace SimplePki

variable {installed : Installed}

namespace PublicKey

theorem algorithm_of_trueHash {key : PublicKey} {algorithm : String} {hash : HashValue}
    (h : key.trueHash installed algorithm = .ok hash) : hash.algorithm = algorithm := by
  obtain ⟨_, -, h⟩ := bind_eq_ok_iff.mp h
  obtain ⟨_, -, made⟩ := bind_eq_ok_iff.mp h
  cases made
  rfl

/-- A key that is given the hash that it would compute answers as before. -/
theorem hash_withHash {key : PublicKey} {algorithm : String} {hash : HashValue}
    (computed : key.trueHash installed algorithm = .ok hash) (other : String) :
    ((key.withHash hash).hash installed other).1 = (key.hash installed other).1 := by
  have found := HashKey.find?_insert key.memo hash other
  cases remembered : key.memo.find? other with
  | some known =>
    rw [remembered, Option.some_or] at found
    rw [hash_of_memo found, hash_of_memo remembered]
  | none =>
    rw [remembered, Option.none_or, algorithm_of_trueHash computed] at found
    rw [hash_of_not_memo remembered]
    by_cases same : algorithm = other
    · rw [if_pos same] at found
      rw [hash_of_memo found, ← same, computed]
    · rw [if_neg same] at found
      rw [hash_of_not_memo found]
      rfl

/-- Asking a key changes none of its answers. -/
theorem hash_hash (key : PublicKey) (asked other : String) :
    ((key.hash installed asked).2.hash installed other).1 = (key.hash installed other).1 := by
  cases remembered : key.memo.find? asked with
  | some known => rw [hash_of_memo remembered]
  | none =>
    cases computed : key.trueHash installed asked with
    | error error => simp only [PublicKey.hash, remembered, computed]
    | ok hash =>
      have asked : (key.hash installed asked).2 = key.withHash hash := by
        simp only [PublicKey.hash, remembered, computed]
      rw [asked, hash_withHash computed]

end PublicKey

namespace Key

/-- A key with a point answers what its public half answers. -/
theorem hash_of_public? {key : Key} {half : PublicKey} (h : key.public? = some half)
    (algorithm : String) : (key.hash installed algorithm).1 = (half.hash installed algorithm).1 := by
  cases key with
  | hashKey known => exact nomatch h
  | publicKey point => exact Option.some.inj h ▸ rfl
  | privateKey pair => exact Option.some.inj h ▸ rfl

/-- Asking a key changes none of its answers. -/
theorem hash_hash (key : Key) (asked other : String) :
    ((key.hash installed asked).2.hash installed other).1 = (key.hash installed other).1 := by
  cases key with
  | hashKey known => rfl
  | publicKey point => exact point.hash_hash asked other
  | privateKey pair => exact pair.half.hash_hash asked other

/-- Whether a key has one of several hashes is whether one of its answers agrees. -/
theorem hasAny_eq_any (hashes : List HashValue) (other : Key) :
    (hasAny installed hashes other).1 =
      hashes.any fun hash => agree (other.hash installed hash.algorithm).1 (.ok hash) := by
  induction hashes generalizing other with
  | nil => rfl
  | cons hash rest ih =>
    rw [hasAny, List.any_cons]
    dsimp only
    split
    · next agreed => rw [agreed, Bool.true_or]
    · next differ =>
      simp only [ih, hash_hash, Bool.eq_false_iff.mpr differ, Bool.false_or]

/-- Whether two keys share a hash is whether their answers agree under some algorithm. -/
theorem shareAny_eq_any (algs : List DigestAlgorithm) (a b : Key) :
    (shareAny installed algs a b).1 =
      algs.any fun alg => agree (a.hash installed alg.name).1 (b.hash installed alg.name).1 := by
  induction algs generalizing a b with
  | nil => rfl
  | cons alg rest ih =>
    rw [shareAny, List.any_cons]
    dsimp only
    split
    · next agreed => rw [agreed, Bool.true_or]
    · next differ =>
      simp only [ih, hash_hash, Bool.eq_false_iff.mpr differ, Bool.false_or]

/-- A key that is known by hashes is the same as a key that answers with one of them. -/
theorem sameAs_hashKey (known : HashKey) (other : Key) :
    sameAs installed (.hashKey known) other =
      known.hashes.any fun hash => agree (other.hash installed hash.algorithm).1 (.ok hash) :=
  hasAny_eq_any known.hashes other

/-- A key with a point is the same as a key that gives one of its answers. -/
theorem sameAs_of_public? {registry : Registry} {key : Key} {half : PublicKey}
    (h : key.public? = some half) (other : Key) :
    sameAs (some registry) key other =
      registry.algorithms.any fun alg =>
        agree (half.hash (some registry) alg.name).1 (other.hash (some registry) alg.name).1 := by
  -- a key that is known by hashes is compared otherwise, but has no public half
  have shared : sameAs (some registry) key other =
      (shareAny (some registry) registry.algorithms key other).1 := by
    cases key with
    | hashKey known => exact nomatch h
    | publicKey point => rfl
    | privateKey pair => rfl
  rw [shared, shareAny_eq_any]
  simp only [hash_of_public? h]

end Key

end SimplePki
