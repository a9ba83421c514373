import SimplePki.Proofs.Gateway.Issue
import SimplePki.Proofs.Gateway.Relay
import SimplePki.Proofs.Key.Identity

/-!
# Whom a gateway trusts

A key that was given a hash answers with it, and would be taken for the issuer of any certificate if
it were asked whether it is.  It never is asked.  A gateway takes a key into its ring by its point,
and reads a signer from the octets or finds it in the ring: so that all that is remembered by the
keys that decide whether a certificate is accepted was computed, whatever the keys were that the
gateway was given.

## Main results

* `Gateway.Reachable.memo_of_mem_ring`: what the keys of a ring remember
* `Key.sameAs_iff_of_decode`: what it means that a signer is the issuer of a certificate
* `Gateway.only_true_hashes_are_trusted`
-/

namespace SimplePki

variable {registry : Registry}

/-- The names of registered algorithms are in order. -/
theorem Registry.pairwise_names (registry : Registry) :
    (registry.algorithms.map DigestAlgorithm.name).Pairwise (· < ·) := by
  have inOrder : DigestAlgorithm.all.Pairwise fun a b => a.name < b.name := by decide
  exact List.pairwise_map.mpr (inOrder.filter _)

/-- What a truthful key remembers are true hashes under registered algorithms. -/
theorem PublicKey.Truthful.exists_hashUnder {key : PublicKey} (truth : key.Truthful (some registry))
    {hash : HashValue} (h : hash ∈ key.memo.hashes) :
    ∃ alg ∈ registry.algorithms, hash = key.hashUnder alg := by
  obtain ⟨alg, registered, -, computed⟩ := trueHash_eq_ok_iff.mp (truth hash h)
  exact ⟨alg, registered, computed⟩

/-- An issuer that was read is taken for a truthful signer exactly if the signer has the hash that
the issuer is known by, or if the encodings of both have one digest. -/
theorem Key.sameAs_iff_of_decode {item : SExpr} {issuer : Key} {signer : PublicKey}
    (read : decode (some registry) item = .ok issuer) (truth : signer.Truthful (some registry)) :
    issuer.sameAs (some registry) (.publicKey signer) = true ↔
      (∃ hash, issuer = ofHash hash ∧ signer.HasHash registry hash) ∨
        ∃ half, issuer.public? = some half ∧
          ∃ alg ∈ registry.algorithms, alg.digest half.pack = alg.digest signer.pack := by
  have point : (publicKey signer).public? = some signer := rfl
  rcases cases_of_decode read with ⟨hash, -, rfl⟩ | ⟨half, known, forgot⟩
  · rw [ofHash, hashKey_sameAs_iff point truth]
    constructor
    · rintro ⟨other, mem, has⟩
      cases List.mem_singleton.mp mem
      exact Or.inl ⟨_, rfl, has⟩
    · rintro (⟨other, same, has⟩ | ⟨_, none, -⟩)
      · cases same
        exact ⟨_, List.mem_singleton_self _, has⟩
      · exact nomatch none
  · rw [sameAs_iff_of_truthful known point (PublicKey.truthful_of_memo_empty forgot) truth]
    constructor
    · intro digests
      exact Or.inr ⟨half, known, digests⟩
    · rintro (⟨hash, rfl, -⟩ | ⟨other, same, digests⟩)
      · exact nomatch known
      · cases Option.some.inj (same.symm.trans known)
        exact digests

namespace Gateway

variable {gateway : Gateway}

/-- Whatever keys a gateway was given, those in its ring remember their true hashes, all of them and
nothing else. -/
theorem Reachable.memo_of_mem_ring (reachable : Reachable (some registry) gateway)
    {key : PublicKey} (h : key ∈ gateway.ring.keys) :
    key.memo.hashes = registry.algorithms.map key.hashUnder := by
  obtain ⟨keys, added⟩ := reachable.exists_registerAll
  have all : ∀ other ∈ gateway.ring.keys,
      other.memo.hashes = registry.algorithms.map other.hashUnder :=
    KeyRing.registerAll_induction
      (motive := fun ring => ∀ other ∈ ring.keys,
        other.memo.hashes = registry.algorithms.map other.hashUnder)
      (fun _ added before => KeyRing.forall_mem_place before rfl _)
      (fun _ mem => absurd mem List.not_mem_nil) added
  exact all key h

/-- The signers in a sequence that a gateway reads are truthful, whether the sequence has their key
or they are found in the ring. -/
theorem Reads.truthful (reachable : Reachable (some registry) gateway) {input : Octets}
    {expr : SExpr} {sequence : Sequence}
    (reads : Reads (some registry) gateway input expr sequence) {signature : Signature}
    (h : .signature signature ∈ sequence.elements) :
    signature.principal.Truthful (some registry) :=
  Sequence.truthful_of_decode
    (fun _ _ found => KeyRing.truthful_lookup reachable.truthful found) reads.2 signature h

/-- The issuer of a certificate in a sequence that is read was read from an expression. -/
theorem Reads.exists_issuer {input : Octets} {expr : SExpr} {sequence : Sequence}
    (reads : Reads (some registry) gateway input expr sequence) {place : Nat} {cert : Certificate}
    (found : sequence.elements[place]? = some (.certificate cert)) {issuer : Key}
    (named : cert.issuer.principal = some issuer) :
    ∃ item, Key.decode (some registry) item = .ok issuer := by
  obtain ⟨items, -, each⟩ := Sequence.decode_eq_ok reads.2
  obtain ⟨item, -, read⟩ := Sequence.readFrom_of_getElem? each found
  rcases read.cases with ⟨other, same, decoded⟩ | ⟨_, _, other, -⟩ | ⟨_, other⟩
  · rw [← Element.certificate.inj same] at decoded
    obtain ⟨nameExpr, decodedName⟩ := Certificate.exists_issuer_of_decode decoded
    exact Name.exists_key_of_decode decodedName named
  · exact nomatch other
  · exact nomatch other

/-- Whatever keys a gateway was given, and whatever hashes these had been given: the keys in its
ring remember their true hashes, one under each registered algorithm in the order of their names,
and nothing else; the signers in the sequences that it reads remember true hashes only; and if it
accepts a certificate, having checked its signature, then the signer has a true hash that the
issuer is known by, or a true hash in common with the issuer. -/
theorem only_true_hashes_are_trusted (reachable : Reachable (some registry) gateway) :
    (∀ key ∈ gateway.ring.keys, key.memo.hashes = registry.algorithms.map key.hashUnder ∧
      (key.memo.hashes.map HashValue.algorithm).Pairwise (· < ·)) ∧
    (∀ input expr sequence, Reads (some registry) gateway input expr sequence →
      ∀ signature, .signature signature ∈ sequence.elements →
        ∀ hash ∈ signature.principal.memo.hashes,
          ∃ alg ∈ registry.algorithms, hash = signature.principal.hashUnder alg) ∧
    (gateway.policy.verifySignatures = true → ∀ input accepted,
      answer (some registry) gateway input = .ok accepted →
      ∀ (place : Nat) (cert : Certificate) (signature : Signature) (issuer : Key),
        accepted.sequence.elements[place]? = some (.certificate cert) →
        accepted.sequence.elements[place + 1]? = some (.signature signature) →
        cert.issuer.principal = some issuer →
        (∃ hash, issuer = .ofHash hash ∧ signature.principal.HasHash registry hash) ∨
          ∃ half, issuer.public? = some half ∧ ∃ alg ∈ registry.algorithms,
            alg.digest half.pack = alg.digest signature.principal.pack) := by
  refine ⟨fun key mem => ?_, ?_, ?_⟩
  · have remembered := reachable.memo_of_mem_ring mem
    refine ⟨remembered, ?_⟩
    rw [remembered, List.map_map]
    exact registry.pairwise_names
  · intro input expr sequence reads signature mem hash remembered
    exact (reads.truthful reachable mem).exists_hashUnder remembered
  · intro verifies input accepted answered place cert signature issuer certThere signatureThere named
    obtain ⟨expr, reads, -, sound⟩ := exists_reads_of_accepted verifies answered
    -- the signature is sound, so that the issuer was asked whether it is the signer
    obtain ⟨before, next, covered, _, there, -, -, byIssuer⟩ := sound _ signature signatureThere
    cases Nat.succ.inj next
    have isCert : covered = .certificate cert := Option.some.inj (there.symm.trans certThere)
    obtain ⟨item, read⟩ := reads.exists_issuer certThere named
    have truth := reads.truthful reachable (List.mem_of_getElem? signatureThere)
    exact (Key.sameAs_iff_of_decode read truth).mp (byIssuer cert issuer isCert named)

/-- The key of the scalar one, given the digest of zeros as its hash. -/
def misledKey : PublicKey := unitKey.half.withHash zeroObject

/-- A gateway that is given a key with a false hash keeps it with the true ones, and the certificate
that the key has issued is accepted by these. -/
theorem false_hash_is_dropped_and_never_asked_for :
    ∃ gateway : Gateway, Reachable (some .standard) gateway ∧
      gateway.policy.verifySignatures = true ∧
      (∃ key ∈ gateway.ring.keys, key.samePoint misledKey = true ∧ zeroObject ∉ key.memo.hashes) ∧
      ∃ input accepted half signature, answer (some .standard) gateway input = .ok accepted ∧
        accepted.sequence.elements[2]? = some (.signature signature) ∧
        (∀ cert, accepted.sequence.elements[1]? = some (.certificate cert) →
          cert.issuer = .ofKey (.publicKey half)) ∧
        ∃ alg ∈ Registry.standard.algorithms,
          alg.digest half.pack = alg.digest signature.principal.pack := by
  -- the gateway is new and is given the key
  obtain ⟨ring, ringWith, added⟩ :=
    exists_perform_register .standard misledKey ⟨.standard, .empty⟩
  have reachable : Reachable (some .standard) ⟨.standard, ring⟩ := by
    have made : Reachable (some .standard) ⟨.standard, .empty⟩ :=
      .new (show Gateway.new (some .standard) .standard = _ from rfl)
    have afterwards := made.register misledKey
    rwa [added] at afterwards
  have held : misledKey.hashed .standard ∈ ring.keys := by
    rw [KeyRing.registerAll_cons] at ringWith
    cases ringWith
    exact List.mem_singleton_self _
  -- the key issues a certificate, which can be read and is accepted
  have named : (Subject.object zeroObject).encode (some .standard) = .ok zeroObject.encode := rfl
  have registered : Registry.standard.holds unitKey.half.curve.digestAlgorithm = true := rfl
  obtain ⟨signature, -, signer, readable, signs⟩ :=
    PrivateKey.exists_sign registered derive_unitKey unitKey_vouches
  obtain ⟨cert, certRead, issuer, -⟩ :=
    unitKey.decode_issuedExpr named decode_zeroObject everything inCalendar_since2014
  have shallow := (nesting_issuedPayload_le_iff unitKey named everything (some since2014)
    signature).mpr (by decide)
  have answered : answer (some .standard) ⟨.standard, ring⟩ _ = .ok _ :=
    answer_issuedPayload rfl registered certRead issuer signer readable signs
      (SExpr.Sent.advanced.read_eq_ok shallow)
  obtain ⟨kept, -, trusted⟩ := only_true_hashes_are_trusted reachable
  refine ⟨⟨.standard, ring⟩, reachable, rfl, ⟨_, held, by decide, ?_⟩, _, _, unitKey.half.bare, _,
    answered, rfl, ?_, ?_⟩
  · rw [(kept _ held).1]
    intro mem
    obtain ⟨alg, -, same⟩ := List.mem_map.mp mem
    cases alg <;> exact absurd same (by decide +kernel)
  · intro other there
    cases there
    exact issuer
  · rcases trusted rfl _ _ answered 1 cert _ (.publicKey unitKey.half.bare) rfl rfl
      (congrArg Name.principal issuer) with ⟨_, same, -⟩ | ⟨half, known, digests⟩
    · exact nomatch same
    · cases known
      exact digests

end Gateway

end SimplePki
