import Mathlib.Data.List.Nodup
import SimplePki.Proofs.Key.Spelling
import SimplePki.Proofs.Key.Truthful
import SimplePki.Proofs.SExpr.PrefixFree

/-!
# Keys are their points

Keys are compared by hashes, under one algorithm after the other.  Where no key was given a hash,
every hash is the digest of a canonical encoding, and the encoding has nothing of a key but its
point: so that keys are the same exactly if their points are, unless two encodings collide.  How a
coordinate was spelled makes no difference, and neither does the scalar of a private key.

A key that was given a hash answers with it, true or not.  Such keys are left out here.

## Main definitions

* `Key.Unseeded`: the keys that were never given a hash

## Main results

* `Key.Unseeded.truthful`: a key that was given no hash remembers the truth
* `Key.sameAs_iff_of_truthful`: comparing truthful keys is comparing digests
* `Key.hashKey_sameAs_iff`, `Key.sameAs_hashKey_iff`: what a key known by hashes is the same as
* `Key.identity_is_of_points`: keys are the same exactly if their points are
-/

namespace SimplePki

variable {registry : Registry}

/-! ### Keys known by hashes -/

namespace HashKey

theorem distinct_empty : empty.Distinct := List.nodup_nil

theorem distinct_foldl_insert {key : HashKey} (h : key.Distinct) (hashes : List HashValue) :
    (hashes.foldl insert key).Distinct := by
  induction hashes generalizing key with
  | nil => exact h
  | cons hash rest ih => exact ih (nodup_insert h hash)

theorem distinct_ofList (hashes : List HashValue) : (ofList hashes).Distinct :=
  distinct_foldl_insert distinct_empty hashes

theorem find?_eq_some_iff {key : HashKey} (distinct : key.Distinct) {algorithm : String}
    {hash : HashValue} :
    key.find? algorithm = some hash ↔ hash ∈ key.hashes ∧ hash.algorithm = algorithm := by
  constructor
  · intro found
    exact ⟨List.mem_of_find?_eq_some found, algorithm_of_find? found⟩
  · rintro ⟨mem, rfl⟩
    have present : (key.find? hash.algorithm).isSome = true :=
      List.find?_isSome.mpr ⟨hash, mem, beq_self_eq_true hash.algorithm⟩
    obtain ⟨first, found⟩ := Option.isSome_iff_exists.mp present
    rw [found, List.inj_on_of_nodup_map distinct (List.mem_of_find?_eq_some found) mem
      (algorithm_of_find? found)]

theorem hash_eq_ok_iff {key : HashKey} {algorithm : String} {hash : HashValue} :
    key.hash algorithm = .ok hash ↔ key.find? algorithm = some hash := by
  rw [HashKey.hash]
  cases key.find? algorithm <;> simp

end HashKey

/-! ### Keys that were given no hash -/

/-- Encodings differ unless the points are one. -/
theorem PublicKey.pack_eq_iff {a b : PublicKey} : a.pack = b.pack ↔ a.samePoint b = true := by
  rw [← encode_eq_iff]
  exact SExpr.pack_injective.eq_iff

theorem PrivateKey.memo_of_decode {expr : SExpr} {key : PrivateKey} (h : decode expr = .ok key) :
    key.half.memo = .empty := by
  obtain ⟨parts, -, made⟩ := bind_eq_ok_iff.mp h
  cases made
  rfl

namespace Key

/-- A key that is read is known by one hash, which can be read back, or has a point and remembers
nothing. -/
theorem cases_of_decode {installed : Installed} {expr : SExpr} {key : Key}
    (h : decode installed expr = .ok key) :
    (∃ hash, hash.Readable installed ∧ key = ofHash hash) ∨
      ∃ half, key.public? = some half ∧ half.memo = .empty := by
  unfold decode at h
  split at h
  · obtain ⟨hash, read, rfl⟩ := map_eq_ok_iff.mp h
    exact Or.inl ⟨hash, HashValue.readable_of_decode read, rfl⟩
  · split at h
    · obtain ⟨half, read, rfl⟩ := map_eq_ok_iff.mp h
      obtain ⟨_, _, _, -, rfl⟩ := PublicKey.decode_eq_ok_iff.mp read
      exact Or.inr ⟨_, rfl, rfl⟩
    · split at h
      · obtain ⟨pair, read, rfl⟩ := map_eq_ok_iff.mp h
        exact Or.inr ⟨pair.half, rfl, PrivateKey.memo_of_decode read⟩
      · exact nomatch h

/-- The keys that were never given a hash: those that are made of numbers, those that are read, and
such keys after they were asked for hashes, and their public halves. -/
inductive Unseeded (installed : Installed) : Key → Prop
  | ofPoint (curve : Curve) (x y : Nat) :
      Unseeded installed (.publicKey (.ofPoint curve x y))
  | ofParts (curve : Curve) (x y scalar : Nat) :
      Unseeded installed (.privateKey (.ofParts curve x y scalar))
  | read {expr : SExpr} {key : Key} (h : decode installed expr = .ok key) : Unseeded installed key
  | asked {key : Key} (h : Unseeded installed key) (algorithm : String) :
      Unseeded installed (key.hash installed algorithm).2
  | half {key : Key} {half : PublicKey} (h : Unseeded installed key)
      (point : key.public? = some half) : Unseeded installed (.publicKey half)

/-- A key that was given no hash remembers the truth. -/
theorem Unseeded.truthful {installed : Installed} {key : Key} {half : PublicKey}
    (h : Unseeded installed key) (point : key.public? = some half) : half.Truthful installed := by
  induction h generalizing half with
  | ofPoint curve x y =>
    cases point
    exact PublicKey.truthful_ofPoint curve x y
  | ofParts curve x y scalar =>
    cases point
    exact PublicKey.truthful_ofPoint curve x y
  | read h =>
    rcases cases_of_decode h with ⟨_, -, rfl⟩ | ⟨_, known, forgot⟩
    · exact nomatch point
    · cases Option.some.inj (point.symm.trans known)
      exact PublicKey.truthful_of_memo_empty forgot
  | @asked key h algorithm ih =>
    cases key with
    | hashKey known => exact nomatch point
    | publicKey key =>
      cases point
      exact PublicKey.truthful_hash (ih rfl) algorithm
    | privateKey key =>
      cases point
      exact PublicKey.truthful_hash (ih rfl) algorithm
  | half h known ih =>
    cases point
    exact ih known

/-! ### Comparing keys -/

section Compare

variable {a b : Key} {p q : PublicKey}

/-- A key with a truthful half answers what would be computed. -/
theorem hash_of_truthful (point : a.public? = some p) {installed : Installed}
    (truth : p.Truthful installed) (algorithm : String) :
    (a.hash installed algorithm).1 = p.trueHash installed algorithm := by
  rw [hash_of_public? point, PublicKey.hash_of_truthful truth]

/-- Truthful keys are the same exactly if their encodings have one digest under some algorithm. -/
theorem sameAs_iff_of_truthful (pointA : a.public? = some p) (pointB : b.public? = some q)
    (truthA : p.Truthful (some registry)) (truthB : q.Truthful (some registry)) :
    a.sameAs (some registry) b = true ↔
      ∃ alg ∈ registry.algorithms, alg.digest p.pack = alg.digest q.pack := by
  rw [sameAs_of_public? pointA, List.any_eq_true]
  refine exists_congr fun alg => and_congr_right fun registered => ?_
  rw [hash_of_truthful pointB truthB, PublicKey.hash_of_truthful truthA,
    PublicKey.agree_trueHashes_iff registered]

/-- A key that is known by hashes is the same as a truthful key that has one of them. -/
theorem hashKey_sameAs_iff (point : a.public? = some p) (truth : p.Truthful (some registry))
    (known : HashKey) :
    (hashKey known).sameAs (some registry) a = true ↔
      ∃ hash ∈ known.hashes, p.HasHash registry hash := by
  rw [sameAs_hashKey, List.any_eq_true]
  refine exists_congr fun hash => and_congr_right fun _ => ?_
  rw [hash_of_truthful point truth, PublicKey.agree_trueHash_iff]

/-- The same holds when the key with the point is the one that compares. -/
theorem sameAs_hashKey_iff (point : a.public? = some p) (truth : p.Truthful (some registry))
    {known : HashKey} (distinct : known.Distinct) :
    a.sameAs (some registry) (hashKey known) = true ↔
      ∃ hash ∈ known.hashes, p.HasHash registry hash := by
  rw [sameAs_of_public? point, List.any_eq_true]
  constructor
  · rintro ⟨alg, registered, agreed⟩
    rw [PublicKey.hash_of_truthful truth, hash] at agreed
    cases found : known.find? alg.name with
    | none =>
      rw [HashKey.hash, found, PublicKey.trueHash_of_mem registered] at agreed
      exact nomatch agreed
    | some hash =>
      obtain ⟨mem, named⟩ := (HashKey.find?_eq_some_iff distinct).mp found
      rw [HashKey.hash_eq_ok_iff.mpr found, ← named] at agreed
      exact ⟨hash, mem, PublicKey.agree_trueHash_iff.mp agreed⟩
  · rintro ⟨hash, mem, alg, registered, named, digest⟩
    have found := (HashKey.find?_eq_some_iff distinct).mpr ⟨mem, named⟩
    refine ⟨alg, registered, ?_⟩
    rw [PublicKey.hash_of_truthful truth, Key.hash, HashKey.hash_eq_ok_iff.mpr found, ← named]
    exact PublicKey.agree_trueHash_iff.mpr ⟨alg, registered, named, digest⟩

/-- A key with a point is named by the hash of its public half. -/
theorem subject_of_public? {installed : Installed} (point : a.public? = some p) :
    (a.subject installed).1 =
      (a.hash installed p.curve.digestAlgorithm.name).1.map HashValue.encode := by
  cases a with
  | hashKey known => exact nomatch point
  | publicKey key =>
    cases point
    rfl
  | privateKey key =>
    cases point
    rfl

end Compare

/-- Keys that were given no hash are the same exactly if their points are, provided that different
encodings of the two have different digests.  Then they give the same answers and are named alike.
A key that is known by hashes is the same as such a key, whichever of the two compares, exactly if
one of the hashes is a true one. -/
theorem identity_is_of_points (nonempty : registry.algorithms ≠ []) {a b : Key} {p q : PublicKey}
    (unseededA : Unseeded (some registry) a) (unseededB : Unseeded (some registry) b)
    (pointA : a.public? = some p) (pointB : b.public? = some q)
    (apart : p.pack ≠ q.pack → ∀ alg ∈ registry.algorithms, alg.digest p.pack ≠ alg.digest q.pack) :
    (a.sameAs (some registry) b = true ↔ p.curve = q.curve ∧ p.x = q.x ∧ p.y = q.y) ∧
    (a.sameAs (some registry) b = true →
      (∀ algorithm, (a.hash (some registry) algorithm).1 = (b.hash (some registry) algorithm).1) ∧
        (a.subject (some registry)).1 = (b.subject (some registry)).1) ∧
    ∀ hashes,
      ((hashKey (.ofList hashes)).sameAs (some registry) a = true ↔
        ∃ hash ∈ (HashKey.ofList hashes).hashes, p.HasHash registry hash) ∧
      (a.sameAs (some registry) (hashKey (.ofList hashes)) = true ↔
        ∃ hash ∈ (HashKey.ofList hashes).hashes, p.HasHash registry hash) := by
  have truthA := unseededA.truthful pointA
  have truthB := unseededB.truthful pointB
  have same_iff : a.sameAs (some registry) b = true ↔ p.samePoint q = true := by
    rw [sameAs_iff_of_truthful pointA pointB truthA truthB, ← PublicKey.pack_eq_iff]
    constructor
    · rintro ⟨alg, registered, digests⟩
      by_contra differ
      exact apart differ alg registered digests
    · intro encodings
      obtain ⟨alg, registered⟩ := List.exists_mem_of_ne_nil _ nonempty
      exact ⟨alg, registered, congrArg alg.digest encodings⟩
  refine ⟨same_iff.trans PublicKey.samePoint_iff, ?_, ?_⟩
  · intro same
    have point := same_iff.mp same
    have answers (algorithm : String) : (a.hash (some registry) algorithm).1 =
        (b.hash (some registry) algorithm).1 := by
      rw [hash_of_truthful pointA truthA, hash_of_truthful pointB truthB,
        PublicKey.trueHash_congr point]
    refine ⟨answers, ?_⟩
    rw [subject_of_public? pointA, subject_of_public? pointB, answers,
      (PublicKey.samePoint_iff.mp point).1]
  · intro hashes
    exact ⟨hashKey_sameAs_iff pointA truthA (.ofList hashes),
      sameAs_hashKey_iff pointA truthA (HashKey.distinct_ofList hashes)⟩

/-- A key with a zero in front of a coordinate is the private key of its point, whatever the scalar,
and no key of another point. -/
theorem padded_key_is_its_point :
    ∃ key, decode (some .standard) (PublicKey.spelled .p256 [0, 1] [2]) = .ok key ∧
      key.sameAs (some .standard) (.privateKey (.ofParts .p256 1 2 3)) = true ∧
      key.sameAs (some .standard) (.publicKey (.ofPoint .p256 2 1)) = false := by
  have read : decode (some .standard) (PublicKey.spelled .p256 [0, 1] [2]) =
      .ok (.publicKey (.ofPoint .p256 1 2)) := by decide +kernel
  refine ⟨_, read, ?_, ?_⟩
  · have same := (identity_is_of_points (by decide) (.read read) (.ofParts .p256 1 2 3) rfl rfl
      fun differ => absurd rfl differ).1
    exact same.mpr ⟨rfl, rfl, rfl⟩
  · have elsewhere : Unseeded (some .standard) (.publicKey (.ofPoint .p256 2 1)) :=
      .ofPoint .p256 2 1
    have other := (identity_is_of_points (by decide) (.read read) elsewhere rfl rfl
      fun _ => by decide +kernel).1
    rw [Bool.eq_false_iff, Ne, other]
    decide

end Key

end SimplePki
