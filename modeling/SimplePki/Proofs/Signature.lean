import SimplePki.Proofs.KeyRing
import SimplePki.Signature

/-!
# What a signature vouches for

A signature vouches for a payload if it names the digest algorithm that is paired with its signer's
curve, holds the digest of the payload's canonical encoding, and is tied to that digest by the
signer.  Checking it succeeds in exactly these cases.

## Main definitions

* `Signature.Signs`: the signature vouches for a payload

## Main results

* `Signature.verify_eq_ok_iff`, `Signature.signs_of_verify`: checking succeeds for what the signature
  vouches for
* `Signature.readable_of_decode`: the hash in a signature that was read is under a registered
  algorithm
-/

namespace SimplePki.Signature

/-- The signature is under the algorithm of the signer's curve, over the digest of the payload, and
tied to it by the signer. -/
structure Signs (signature : Signature) (payload : SExpr) : Prop where
  paired : signature.hash.algorithm = signature.principal.curve.digestAlgorithm.name
  digest : signature.hash.digest =
    signature.principal.curve.digestAlgorithm.digest payload.pack
  tied : signature.principal.curve.verify signature.principal.x signature.principal.y
    signature.hash.digest signature.tie = .ok ()

variable {installed : Installed} {signature : Signature}

/-- The digest that is compared is one under the algorithm of the signer's curve. -/
theorem ofExpr_of_readable (h : signature.hash.Readable installed)
    (paired : signature.hash.algorithm = signature.principal.curve.digestAlgorithm.name)
    (payload : SExpr) :
    HashValue.ofExpr installed signature.hash.algorithm payload =
      .ok (.ofDigest signature.hash.algorithm
        (signature.principal.curve.digestAlgorithm.digest payload.pack)) := by
  obtain ⟨registry, alg, rfl, found, -⟩ := h.registered
  have named : alg.name = signature.hash.algorithm := (Registry.get?_eq_some_iff.mp found).1
  -- a name belongs to one algorithm
  have same : alg = signature.principal.curve.digestAlgorithm :=
    DigestAlgorithm.name_injective (named.trans paired)
  rw [← same]
  exact HashValue.compute_of_find (Registry.find_eq_ok_iff.mpr found) payload.pack

/-- With the right algorithm, the digests are compared, and then the tie is checked. -/
theorem verify_of_paired (h : signature.hash.Readable installed)
    (paired : signature.hash.algorithm = signature.principal.curve.digestAlgorithm.name)
    (payload : SExpr) :
    let digest := signature.principal.curve.digestAlgorithm.digest payload.pack
    signature.verify installed payload =
      if signature.hash.digest = digest then
        match signature.principal.curve.verify signature.principal.x signature.principal.y
            signature.hash.digest signature.tie with
        | .ok () => .ok ()
        | .error (.point fault) => .error (.point fault)
        | .error .mismatch => .error .signatureFailed
      else .error (.digestMismatch signature.hash.digest digest) := by
  intro digest
  have notDiffer : ¬signature.hash.algorithm ≠ signature.principal.curve.digestAlgorithm.name :=
    fun differ => differ paired
  -- the algorithms agree already, so that only the digests are compared
  have compared : (HashValue.ofDigest signature.hash.algorithm digest).same signature.hash = true ↔
      signature.hash.digest = digest := by
    rw [HashValue.same_iff]
    exact ⟨fun same => same.2.symm, fun same => ⟨rfl, same.symm⟩⟩
  unfold verify
  dsimp only
  rw [if_neg notDiffer, ofExpr_of_readable h paired payload, ok_bind]
  by_cases same : signature.hash.digest = digest
  · rw [compared.mpr same, if_pos same]
    rfl
  · have differ := Bool.eq_false_iff.mpr fun agree => same (compared.mp agree)
    rw [differ, if_neg same]
    rfl

/-- Checking a signature succeeds for exactly the payloads that it vouches for. -/
theorem verify_eq_ok_iff (h : signature.hash.Readable installed) {payload : SExpr} :
    signature.verify installed payload = .ok () ↔ signature.Signs payload := by
  by_cases paired : signature.hash.algorithm = signature.principal.curve.digestAlgorithm.name
  · rw [verify_of_paired h paired payload]
    by_cases digest : signature.hash.digest =
        signature.principal.curve.digestAlgorithm.digest payload.pack
    · rw [if_pos digest]
      constructor
      · intro checked
        refine ⟨paired, digest, ?_⟩
        split at checked
        · next tied => exact tied
        · exact nomatch checked
        · exact nomatch checked
      · intro signs
        rw [signs.tied]
    · rw [if_neg digest]
      constructor
      · intro checked
        exact nomatch checked
      · intro signs
        exact absurd signs.digest digest
  · have refused : signature.verify installed payload =
        .error (.digestAlgorithm signature.principal.curve signature.hash.algorithm) := by
      unfold verify
      dsimp only
      rw [if_pos paired]
      rfl
    rw [refused]
    constructor
    · intro checked
      exact nomatch checked
    · intro signs
      exact absurd signs.paired paired

/-- A signature that was checked has a digest under a registered algorithm. -/
theorem readable_of_verify {registry : Registry} {payload : SExpr}
    (h : signature.verify (some registry) payload = .ok ()) :
    signature.hash.Readable (some registry) := by
  unfold verify at h
  dsimp only at h
  split at h
  · exact nomatch h
  · obtain ⟨actual, computed, h⟩ := bind_eq_ok_iff.mp h
    split at h
    · exact nomatch h
    · next agree =>
      rw [Bool.not_eq_true', Bool.not_eq_false, HashValue.same_iff] at agree
      obtain ⟨alg, held, named, rfl⟩ := HashValue.compute_eq_ok_iff.mp computed
      refine ⟨registry, alg, rfl, Registry.get?_eq_some_iff.mpr ⟨named.symm, held⟩, ?_⟩
      rw [← agree.2]
      exact alg.length_digest payload.pack

/-- Only what a signature vouches for passes the check. -/
theorem signs_of_verify {registry : Registry} {payload : SExpr}
    (h : signature.verify (some registry) payload = .ok ()) : signature.Signs payload :=
  (verify_eq_ok_iff (readable_of_verify h)).mp h

/-! ### Signatures that were read -/

theorem readable_of_decodeParts {expr value : SExpr} {hash : HashValue} {signer : Signer}
    (h : decodeParts installed expr = .ok (hash, signer, value)) : hash.Readable installed := by
  unfold decodeParts at h
  split at h
  · obtain ⟨found, read, h⟩ := bind_eq_ok_iff.mp h
    obtain ⟨_, -, h⟩ := bind_eq_ok_iff.mp h
    cases h
    exact HashValue.readable_of_decode read
  · exact nomatch h

theorem hash_of_complete {hash : HashValue} {principal : PublicKey} {value : SExpr}
    (h : complete hash principal value = .ok signature) : signature.hash = hash := by
  unfold complete at h
  split at h
  · exact nomatch h
  · obtain ⟨_, -, h⟩ := bind_eq_ok_iff.mp h
    cases h
    rfl

/-- The hash in a signature that was read is one that can be read. -/
theorem readable_of_decode {lookup : KeyLookup} {expr : SExpr}
    (h : decode installed lookup expr = .ok signature) : signature.hash.Readable installed := by
  obtain ⟨⟨hash, signer, value⟩, parts, h⟩ := bind_eq_ok_iff.mp h
  have readable := readable_of_decodeParts parts
  have made : ∃ principal, complete hash principal value = .ok signature := by
    cases signer with
    | byKey key => exact ⟨key, h⟩
    | byHash wanted =>
      dsimp only at h
      split at h
      · next key _ => exact ⟨key, h⟩
      · exact nomatch h
  obtain ⟨principal, made⟩ := made
  rw [hash_of_complete made]
  exact readable

end SimplePki.Signature
