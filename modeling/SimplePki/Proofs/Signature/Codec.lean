import SimplePki.Proofs.Key.Spelling
import SimplePki.Proofs.Signature

/-!
# Signatures and their expressions

A signature is read from one shape of expression, which leaves a choice in three places: the digest
may name places, the signer may be named by a hash, and the integers may have zeros in front.  A
signature that is written says all of this in one way, and is read back without asking for a key.

## Main definitions

* `Signature.spelled`: the expression of a signature with given parts
* `Signature.Names`: an expression and the key that it names as the signer
* `Signature.bare`: the signature without what is not written

## Main results

* `Signature.decode_eq_ok`: the expressions that a signature is read from
* `Signature.decode_encode`: a signature is read back, whatever keys can be found
* `Signature.decode_encodeWith_of_found`, `Signature.decode_encodeWith_of_not_found`: a signature
  whose signer is written as a hash
-/

namespace SimplePki

variable {installed : Installed}

namespace Signature

/-- The expression of a signature with given expressions for the digest and the signer, and given
octets for the integers. -/
def spelled (hash signer : SExpr) (r s : Octets) : SExpr :=
  .list [.text "signature", hash, signer,
    .list [.text signatureAlgorithm, .term "r" r, .term "s" s]]

theorem encode_eq_spelled (signature : Signature) :
    signature.encode = spelled signature.hash.encode signature.principal.encode
      (Octets.ofNat signature.tie.r) (Octets.ofNat signature.tie.s) := rfl

theorem spelled_inj {hash signer other otherSigner : SExpr} {r s u v : Octets} :
    spelled hash signer r s = spelled other otherSigner u v ↔
      hash = other ∧ signer = otherSigner ∧ r = u ∧ s = v := by
  simp [spelled, SExpr.term, SExpr.ofOctets]

/-- A signer is named by the expression of its key, or by a hash for which the key is found. -/
inductive Names (installed : Installed) (lookup : KeyLookup) : SExpr → PublicKey → Prop where
  | byKey (curve : Curve) (x y : Octets) :
    Names installed lookup (PublicKey.spelled curve x y) (.ofPoint curve x.toNat y.toNat)
  | byHash {signer : SExpr} {wanted : HashValue} {key : PublicKey}
    (read : HashValue.decode installed signer = .ok wanted) (found : lookup wanted = some key) :
    Names installed lookup signer key

theorem decodeNat_eq_ok {name : String} {expr : SExpr} {n : Nat}
    (h : decodeNat name expr = .ok n) : ∃ octets, expr = .term name octets ∧ octets.toNat = n := by
  -- only the fault differs from reading the integers of a key
  apply KeyParts.decodeNat_eq_ok_iff.mp
  unfold decodeNat at h
  unfold KeyParts.decodeNat
  cases held : expr.termNat name with
  | ok value =>
    rw [held] at h
    exact h
  | error fault =>
    rw [held] at h
    exact nomatch h

theorem decodeTie_eq_ok {expr : SExpr} {tie : Curve.Tie} (h : decodeTie expr = .ok tie) :
    ∃ r s, expr = .list [.text signatureAlgorithm, .term "r" r, .term "s" s] ∧
      tie = ⟨r.toNat, s.toNat⟩ := by
  unfold decodeTie at h
  split at h
  · next head first second tagged =>
    obtain ⟨rfl, rfl⟩ := SExpr.tagged?_eq_cons_iff.mp tagged
    obtain ⟨r, readR, h⟩ := bind_eq_ok_iff.mp h
    obtain ⟨s, readS, h⟩ := bind_eq_ok_iff.mp h
    cases h
    obtain ⟨rOctets, rfl, rfl⟩ := decodeNat_eq_ok readR
    obtain ⟨sOctets, rfl, rfl⟩ := decodeNat_eq_ok readS
    exact ⟨rOctets, sOctets, rfl, rfl⟩
  · exact nomatch h

theorem decodeParts_eq_ok {expr value : SExpr} {hash : HashValue} {signer : Signer}
    (h : decodeParts installed expr = .ok (hash, signer, value)) :
    ∃ places signerExpr, expr = .list [.text "signature", hash.spelled places, signerExpr, value] ∧
      decodeSigner installed signerExpr = .ok signer := by
  unfold decodeParts at h
  split at h
  · next head hashExpr signerExpr valueExpr tagged =>
    obtain ⟨rfl, rfl⟩ := SExpr.tagged?_eq_cons_iff.mp tagged
    obtain ⟨_, readHash, h⟩ := bind_eq_ok_iff.mp h
    obtain ⟨_, readSigner, h⟩ := bind_eq_ok_iff.mp h
    cases h
    obtain ⟨-, places, rfl, -⟩ := HashValue.decode_eq_ok_iff.mp readHash
    exact ⟨places, signerExpr, rfl, readSigner⟩
  · exact nomatch h

theorem decodeSigner_eq_ok {expr : SExpr} {signer : Signer}
    (h : decodeSigner installed expr = .ok signer) :
    (∃ wanted, signer = .byHash wanted ∧ HashValue.decode installed expr = .ok wanted) ∨
      ∃ curve x y, signer = .byKey (.ofPoint curve x.toNat y.toNat) ∧
        expr = PublicKey.spelled curve x y := by
  unfold decodeSigner at h
  split at h
  · obtain ⟨wanted, read, rfl⟩ := map_eq_ok_iff.mp h
    exact Or.inl ⟨wanted, rfl, read⟩
  · split at h
    · obtain ⟨key, read, rfl⟩ := map_eq_ok_iff.mp h
      obtain ⟨curve, x, y, rfl, rfl⟩ := PublicKey.decode_eq_ok_iff.mp read
      exact Or.inr ⟨curve, x, y, rfl, rfl⟩
    · exact nomatch h

theorem complete_eq_ok {hash : HashValue} {principal : PublicKey} {value : SExpr}
    {signature : Signature} (h : complete hash principal value = .ok signature) :
    hash.algorithm = principal.curve.digestAlgorithm.name ∧
      ∃ tie, decodeTie value = .ok tie ∧ signature = ⟨hash, principal, tie⟩ := by
  unfold complete at h
  split at h
  · exact nomatch h
  · next paired =>
    obtain ⟨tie, read, made⟩ := bind_eq_ok_iff.mp h
    cases made
    exact ⟨not_ne_iff.mp paired, tie, read, rfl⟩

/-- A signature is read from the expression of its digest, perhaps with places, of something that
names its signer, and of its integers, perhaps with zeros in front. -/
theorem decode_eq_ok {lookup : KeyLookup} {expr : SExpr} {signature : Signature}
    (h : decode installed lookup expr = .ok signature) :
    ∃ places signer r s, expr = spelled (signature.hash.spelled places) signer r s ∧
      Names installed lookup signer signature.principal ∧ signature.tie = ⟨r.toNat, s.toNat⟩ ∧
      signature.hash.algorithm = signature.principal.curve.digestAlgorithm.name := by
  obtain ⟨⟨hash, signer, value⟩, parts, run⟩ := bind_eq_ok_iff.mp h
  obtain ⟨places, signerExpr, rfl, readSigner⟩ := decodeParts_eq_ok parts
  -- the signer is known by its key, or found by its hash
  have found : ∃ principal, complete hash principal value = .ok signature ∧
      Names installed lookup signerExpr principal := by
    rcases decodeSigner_eq_ok readSigner with
      ⟨wanted, rfl, readWanted⟩ | ⟨curve, x, y, rfl, rfl⟩
    · dsimp only at run
      split at run
      · next key found => exact ⟨key, run, .byHash readWanted found⟩
      · exact nomatch run
    · exact ⟨_, run, .byKey curve x y⟩
  obtain ⟨principal, completed, names⟩ := found
  obtain ⟨paired, tie, readTie, rfl⟩ := complete_eq_ok completed
  obtain ⟨r, s, rfl, rfl⟩ := decodeTie_eq_ok readTie
  exact ⟨places, signerExpr, r, s, rfl, names, rfl, paired⟩

/-! ### Reading what was written -/

/-- The signature without places, by a key that remembers nothing. -/
def bare (signature : Signature) : Signature :=
  ⟨.ofDigest signature.hash.algorithm signature.hash.digest, signature.principal.bare,
    signature.tie⟩

/-- A signature vouches for no less when its signer forgets what it remembers. -/
theorem Signs.bare {signature : Signature} {payload : SExpr} (h : signature.Signs payload) :
    signature.bare.Signs payload := ⟨h.paired, h.digest, h.tied⟩

theorem decodeNat_natTerm (name : String) (n : Nat) : decodeNat name (.natTerm name n) = .ok n := by
  have held : (SExpr.natTerm name n).termNat name = .ok n := by
    rw [SExpr.termNat, SExpr.natTerm, SExpr.termOctets_term, ok_bind, Octets.toNat_ofNat]
    rfl
  rw [decodeNat, held]

theorem decodeTie_natTerms (tie : Curve.Tie) :
    decodeTie (.list [.text signatureAlgorithm, .natTerm "r" tie.r, .natTerm "s" tie.s]) =
      .ok tie := by
  rw [decodeTie, SExpr.tagged?_list_text]
  dsimp only
  rw [decodeNat_natTerm, ok_bind, decodeNat_natTerm, ok_bind]
  rfl

theorem decodeSigner_encode (key : PublicKey) :
    decodeSigner installed key.encode = .ok (.byKey key.bare) := by
  have noHash : key.encode.isListOf "hash" = false := SExpr.isListOf_list_text "public-key" "hash" _
  have isKey : key.encode.isListOf "public-key" = true :=
    SExpr.isListOf_list_text "public-key" "public-key" _
  rw [decodeSigner, noHash, if_neg Bool.false_ne_true, if_pos isKey, key.decode_encode]
  rfl

theorem decodeSigner_encode_hash {hash : HashValue} (readable : hash.Readable installed) :
    decodeSigner installed hash.encode =
      .ok (.byHash (.ofDigest hash.algorithm hash.digest)) := by
  have isHash : hash.encode.isListOf "hash" = true := hash.isListOf_encode "hash"
  rw [decodeSigner, if_pos isHash, HashValue.decode_encode readable]
  rfl

/-- The parts are read back however the signer is written. -/
theorem decodeParts_encodeWith {signature : Signature}
    (readable : signature.hash.Readable installed) {signer : SExpr} {read : Signer}
    (named : decodeSigner installed signer = .ok read) :
    decodeParts installed (signature.encodeWith signer) =
      .ok (.ofDigest signature.hash.algorithm signature.hash.digest, read,
        .list [.text signatureAlgorithm, .natTerm "r" signature.tie.r,
          .natTerm "s" signature.tie.s]) := by
  rw [decodeParts, encodeWith, SExpr.tagged?_list_text]
  dsimp only
  rw [HashValue.decode_encode readable, ok_bind, named, ok_bind]
  rfl

theorem complete_natTerms {hash : HashValue} {principal : PublicKey}
    (paired : hash.algorithm = principal.curve.digestAlgorithm.name) (tie : Curve.Tie) :
    complete hash principal
        (.list [.text signatureAlgorithm, .natTerm "r" tie.r, .natTerm "s" tie.s]) =
      .ok ⟨hash, principal, tie⟩ := by
  rw [complete, if_neg (not_ne_iff.mpr paired), decodeTie_natTerms]
  rfl

/-- A signature under the algorithm of its signer's curve is read back from its expression. -/
theorem decode_encode {signature : Signature} (readable : signature.hash.Readable installed)
    (paired : signature.hash.algorithm = signature.principal.curve.digestAlgorithm.name)
    (lookup : KeyLookup) : decode installed lookup signature.encode = .ok signature.bare := by
  have same : (HashValue.ofDigest signature.hash.algorithm signature.hash.digest).algorithm =
      signature.principal.bare.curve.digestAlgorithm.name := paired
  rw [decode, encode, decodeParts_encodeWith readable (decodeSigner_encode _), ok_bind]
  exact complete_natTerms same signature.tie

section ByHash

variable {signature : Signature} {named : HashValue} {lookup : KeyLookup}
  (readable : signature.hash.Readable installed) (known : named.Readable installed)

include readable known

/-- A signer that is written as a hash is the key that is found for it. -/
theorem decode_encodeWith_of_found {key : PublicKey}
    (paired : signature.hash.algorithm = key.curve.digestAlgorithm.name)
    (found : lookup (.ofDigest named.algorithm named.digest) = some key) :
    decode installed lookup (signature.encodeWith named.encode) =
      .ok ⟨.ofDigest signature.hash.algorithm signature.hash.digest, key, signature.tie⟩ := by
  have same : (HashValue.ofDigest signature.hash.algorithm signature.hash.digest).algorithm =
      key.curve.digestAlgorithm.name := paired
  rw [decode, decodeParts_encodeWith readable (decodeSigner_encode_hash known), ok_bind]
  dsimp only
  rw [found]
  exact complete_natTerms same signature.tie

theorem decode_encodeWith_of_not_found
    (unknown : lookup (.ofDigest named.algorithm named.digest) = none) :
    decode installed lookup (signature.encodeWith named.encode) =
      .error (.hashNotFound (.ofDigest named.algorithm named.digest)) := by
  rw [decode, decodeParts_encodeWith readable (decodeSigner_encode_hash known), ok_bind]
  dsimp only
  rw [unknown]
  rfl

end ByHash

end Signature

end SimplePki
