import SimplePki.Proofs.Curve.Width
import SimplePki.Proofs.Gateway.Issue
import SimplePki.Proofs.Key.Identity

/-!
# Signatures in transport

A signature is sent as its canonical octets or as text, with its signer written in full or as a
hash.  Whoever receives it reads the same digest, the same signer and the same integers, and can
check the payload against them: without asking for the signer in the first case, and with the key
that is found for the hash in the second.

What a signature vouches for is a digest.  It vouches for one payload as long as no other has the
same digest.

That the point of a key verifies what its scalar signs is a fact about the curve, which is assumed
here.

## Main definitions

* `Signature.Repeats`: two signatures with the same digest, signer and integers

## Main results

* `Signature.Repeats.verify`: what repeats a signature vouches for the same payload
* `Signature.Signs.read_encodeWith`: a signature is short enough to be read in any form
* `Signature.digest_eq_of_verify`: payloads of one signature have one digest
* `Signature.signatures_survive_transport`
-/

namespace SimplePki

variable {registry : Registry}

/-! ### Lengths

No atom of a signature has more than the 48 octets that a number of the wider curve has.  Such an
atom takes 98 octets in the encoding at most, a term of two of them 198, and a whole signature
hardly a thousand more than its signer, far less than could not be read. -/

namespace Curve

theorem width_le (curve : Curve) : curve.width ≤ 48 := by
  cases curve <;> decide

theorem length_ofNat_le_of_lt_order {curve : Curve} {n : Nat} (h : n < curve.order) :
    (Octets.ofNat n).length ≤ curve.width :=
  Octets.length_ofNat_le_iff.mpr (h.trans curve.order_lt)

theorem length_ofNat_le_of_octets {curve : Curve} {n : Nat} {octets : Octets}
    (h : curve.octets n = .ok octets) : (Octets.ofNat n).length ≤ curve.width := by
  unfold Curve.octets at h
  split at h
  · next fitting =>
    have small := (Octets.exists_ofNatWidth?_iff curve.width_pos).mp ⟨_, fitting⟩
    exact Octets.length_ofNat_le_iff.mpr small
  · cases h

/-- The numbers of a point and of its tie are no wider than those of the curve. -/
theorem lengths_of_verify {curve : Curve} {x y : Nat} {digest : Octets} {tie : Tie}
    (h : curve.verify x y digest tie = .ok ()) :
    (Octets.ofNat x).length ≤ curve.width ∧ (Octets.ofNat y).length ≤ curve.width ∧
      (Octets.ofNat tie.r).length ≤ curve.width ∧ (Octets.ofNat tie.s).length ≤ curve.width := by
  unfold Curve.verify at h
  split at h
  · cases h
  · next point =>
    obtain ⟨_, fitsX, point⟩ := bind_eq_ok_iff.mp point
    obtain ⟨_, fitsY, -⟩ := bind_eq_ok_iff.mp point
    split at h
    · next checked =>
      simp only [Bool.and_eq_true, isTieNumber, decide_eq_true_eq] at checked
      obtain ⟨⟨⟨-, smallR⟩, -, smallS⟩, -⟩ := checked
      exact ⟨length_ofNat_le_of_octets fitsX, length_ofNat_le_of_octets fitsY,
        length_ofNat_le_of_lt_order smallR, length_ofNat_le_of_lt_order smallS⟩
    · cases h

end Curve

section Lengths

open SExpr

/-- The encoding of an atom that is no longer than a number of the wider curve. -/
theorem SExpr.length_pack_text_le {word : String} (h : (Octets.ofText word).length ≤ 48) :
    (text word).pack.length ≤ 98 :=
  (length_pack_ofOctets_le (Octets.ofText word)).trans (by omega)

theorem SExpr.length_pack_term_le {name : String} {value : Octets}
    (named : (Octets.ofText name).length ≤ 48) (short : value.length ≤ 48) :
    (term name value).pack.length ≤ 198 := by
  have word := length_pack_text_le named
  have octets := length_pack_ofOctets_le value
  rw [term, length_pack_list, length_packItems_cons, length_packItems_cons, length_packItems_nil]
  omega

theorem HashValue.nesting_encode (hash : HashValue) : hash.encode.nesting = 1 := rfl

/-- A digest under the algorithm of a curve is as wide as the numbers of the curve. -/
theorem HashValue.length_pack_encode_le {hash : HashValue} {curve : Curve} {octets : Octets}
    (named : hash.algorithm = curve.digestAlgorithm.name)
    (digest : hash.digest = curve.digestAlgorithm.digest octets) :
    hash.encode.pack.length ≤ 296 := by
  have word : (text "hash").pack.length ≤ 98 := length_pack_text_le (by decide)
  have name : (text hash.algorithm).pack.length ≤ 98 := by
    rw [named]
    exact length_pack_text_le (by cases curve <;> decide)
  have sized : hash.digest.length ≤ 48 := by
    rw [digest, DigestAlgorithm.length_digest, Curve.size_digestAlgorithm]
    exact curve.width_le
  have value := length_pack_ofOctets_le hash.digest
  rw [encode, length_pack_list, length_packItems_cons, length_packItems_cons,
    length_packItems_cons, length_packItems_nil]
  omega

theorem PublicKey.length_pack_encode_le {key : PublicKey}
    (x : (Octets.ofNat key.x).length ≤ 48) (y : (Octets.ofNat key.y).length ≤ 48) :
    key.encode.pack.length ≤ 794 := by
  have outer : (text "public-key").pack.length ≤ 98 := length_pack_text_le (by decide)
  have inner : (text signatureAlgorithm).pack.length ≤ 98 := length_pack_text_le (by decide)
  have curveTerm : (term "curve" (Octets.ofText key.curve.name)).pack.length ≤ 198 :=
    length_pack_term_le (by decide) (by cases key.curve <;> decide)
  have xTerm : (term "x" (Octets.ofNat key.x)).pack.length ≤ 198 :=
    length_pack_term_le (by decide) x
  have yTerm : (term "y" (Octets.ofNat key.y)).pack.length ≤ 198 :=
    length_pack_term_le (by decide) y
  rw [encode_eq_spelled, spelled]
  simp only [length_pack_list, length_packItems_cons, length_packItems_nil]
  omega

end Lengths

namespace Signature

variable {signature : Signature} {payload : SExpr}

/-! ### Sending -/

section Sending

variable (signs : signature.Signs payload)

include signs

theorem Signs.length_pack_principal_le : signature.principal.encode.pack.length ≤ 794 := by
  obtain ⟨x, y, -⟩ := Curve.lengths_of_verify signs.tied
  have width := signature.principal.curve.width_le
  exact PublicKey.length_pack_encode_le (x.trans width) (y.trans width)

theorem Signs.length_pack_encodeWith_lt {signer : SExpr} (short : signer.pack.length ≤ 794) :
    (signature.encodeWith signer).pack.length < SExpr.memoryLimit := by
  obtain ⟨-, -, r, s⟩ := Curve.lengths_of_verify signs.tied
  have width := signature.principal.curve.width_le
  have word : (SExpr.text "signature").pack.length ≤ 98 := SExpr.length_pack_text_le (by decide)
  have inner : (SExpr.text signatureAlgorithm).pack.length ≤ 98 :=
    SExpr.length_pack_text_le (by decide)
  have rTerm : (SExpr.natTerm "r" signature.tie.r).pack.length ≤ 198 :=
    SExpr.length_pack_term_le (by decide) (r.trans width)
  have sTerm : (SExpr.natTerm "s" signature.tie.s).pack.length ≤ 198 :=
    SExpr.length_pack_term_le (by decide) (s.trans width)
  have hash := HashValue.length_pack_encode_le signs.paired signs.digest
  rw [encodeWith, SExpr.memoryLimit]
  simp only [SExpr.length_pack_list, SExpr.length_packItems_cons, SExpr.length_packItems_nil]
  omega

/-- A signature can be read from its octets and from its text, however the signer is written. -/
theorem Signs.read_encodeWith {signer : SExpr} (short : signer.pack.length ≤ 794)
    (shallow : signer.nesting ≤ 3) :
    SExpr.read (signature.encodeWith signer).pack = .ok (signature.encodeWith signer) ∧
      SExpr.read (Octets.ofText (signature.encodeWith signer).toAdvanced) =
        .ok (signature.encodeWith signer) := by
  have within : (signature.encodeWith signer).nesting ≤ SExpr.nestingLimit := by
    have word : (SExpr.text "signature").nesting = 0 := rfl
    have value : (SExpr.list [.text signatureAlgorithm, .natTerm "r" signature.tie.r,
      .natTerm "s" signature.tie.s]).nesting = 2 := rfl
    rw [encodeWith, SExpr.nesting, SExpr.nestingItems, SExpr.nestingItems, SExpr.nestingItems,
      SExpr.nestingItems, SExpr.nestingItems, word, HashValue.nesting_encode, value,
      SExpr.nestingLimit]
    omega
  exact ⟨SExpr.read_pack within (signs.length_pack_encodeWith_lt short),
    SExpr.read_toAdvanced within⟩

end Sending

/-! ### Receiving -/

/-- The same digest, signer and integers, whatever the signers remember. -/
structure Repeats (again signature : Signature) : Prop where
  hash : again.hash = signature.hash
  principal : again.principal.samePoint signature.principal = true
  tie : again.tie = signature.tie

/-- What repeats a signature vouches for the same payload. -/
theorem Repeats.verify {installed : Installed} {again : Signature} (repeats : again.Repeats signature)
    (readable : signature.hash.Readable installed) (signs : signature.Signs payload) :
    again.verify installed payload = .ok () := by
  obtain ⟨hash, point, tie⟩ := repeats
  obtain ⟨curve, x, y⟩ := PublicKey.samePoint_iff.mp point
  have readableAgain : again.hash.Readable installed := by rwa [hash]
  refine (verify_eq_ok_iff readableAgain).mpr ⟨?_, ?_, ?_⟩
  · rw [hash, curve, signs.paired]
  · rw [hash, curve, signs.digest]
  · rw [hash, curve, x, y, tie, signs.tied]

/-- Payloads that one signature vouches for have one digest. -/
theorem digest_eq_of_verify {p q : SExpr}
    (first : signature.verify (some registry) p = .ok ())
    (second : signature.verify (some registry) q = .ok ()) :
    signature.principal.curve.digestAlgorithm.digest p.pack =
      signature.principal.curve.digestAlgorithm.digest q.pack :=
  (signs_of_verify first).digest.symm.trans (signs_of_verify second).digest

/-- What is signed names no places. -/
theorem hash_of_sign {key : PrivateKey} (signed : key.sign (some registry) payload = .ok signature) :
    .ofDigest signature.hash.algorithm signature.hash.digest = signature.hash := by
  obtain ⟨hash, computed, made⟩ := bind_eq_ok_iff.mp signed
  obtain ⟨alg, -, -, rfl⟩ := HashValue.compute_eq_ok_iff.mp computed
  split at made
  · cases made
    rfl
  · exact nomatch made

/-- The natural hash of a key that was given none is the one that is computed. -/
theorem naturalHash_of_unseeded {key : PrivateKey}
    (unseeded : Key.Unseeded (some registry) (.privateKey key))
    (held : registry.holds key.half.curve.digestAlgorithm = true) :
    (key.half.naturalHash (some registry)).1 =
      .ok (key.half.hashUnder key.half.curve.digestAlgorithm) := by
  rw [PublicKey.naturalHash_of_truthful (unseeded.truthful rfl),
    PublicKey.trueHash_of_mem (Registry.mem_algorithms_iff.mpr held)]

/-- A key with the point of its scalar signs any payload.  The signature is read from its octets and
from its text, with the signer in full or as a hash; what is decoded has the same digest, signer and
integers, and vouches for the payload: whatever keys can be found, where the signer is in full, and
if the key of the signer is found for the hash, where it is not.  If none is found, the error names
the hash.  Two payloads that one signature vouches for have one digest, and either are the same or
have different encodings. -/
theorem signatures_survive_transport {key : PrivateKey} {payload : SExpr}
    (unseeded : Key.Unseeded (some registry) (.privateKey key))
    (held : registry.holds key.half.curve.digestAlgorithm = true)
    (derived : key.half.curve.derive key.scalar = .ok (key.half.x, key.half.y))
    (vouches : key.Vouches payload) :
    (∃ signature natural byHash, key.sign (some registry) payload = .ok signature ∧
      SExpr.read signature.pack = .ok signature.encode ∧
      SExpr.read (Octets.ofText signature.encode.toAdvanced) = .ok signature.encode ∧
      (∀ lookup, ∃ again, decode (some registry) lookup signature.encode = .ok again ∧
        again.Repeats signature ∧ again.verify (some registry) payload = .ok ()) ∧
      (key.half.naturalHash (some registry)).1 = .ok natural ∧
      signature.encodeByHash (some registry) = .ok byHash ∧
      SExpr.read byHash.pack = .ok byHash ∧
      SExpr.read (Octets.ofText byHash.toAdvanced) = .ok byHash ∧
      ∀ lookup : KeyLookup,
        (∀ found, lookup natural = some found → found.samePoint key.half = true →
          ∃ again, decode (some registry) lookup byHash = .ok again ∧
            again.Repeats signature ∧ again.verify (some registry) payload = .ok ()) ∧
        (lookup natural = none →
          decode (some registry) lookup byHash = .error (.hashNotFound natural))) ∧
    ∀ (signature : Signature) (p q : SExpr), signature.verify (some registry) p = .ok () →
      signature.verify (some registry) q = .ok () →
      signature.principal.curve.digestAlgorithm.digest p.pack =
          signature.principal.curve.digestAlgorithm.digest q.pack ∧
        (p = q ∨ p.pack ≠ q.pack) := by
  refine ⟨?_, fun signature p q first second => ⟨digest_eq_of_verify first second, ?_⟩⟩
  · obtain ⟨signature, signed, signer, readable, signs⟩ :=
      PrivateKey.exists_sign held derived vouches
    have plain := hash_of_sign signed
    have natural := naturalHash_of_unseeded unseeded held
    have known := HashValue.readable_ofDigest held key.half.pack
    have byHash : signature.encodeByHash (some registry) = .ok (signature.encodeWith
        (key.half.hashUnder key.half.curve.digestAlgorithm).encode) := by
      rw [encodeByHash, signer, natural]
      rfl
    obtain ⟨readPacked, readText⟩ := signs.read_encodeWith signs.length_pack_principal_le
      (Nat.le_refl 3)
    have short := HashValue.length_pack_encode_le
      (key.half.algorithm_hashUnder key.half.curve.digestAlgorithm) (key.half.digest_hashUnder _)
    obtain ⟨readPackedByHash, readTextByHash⟩ := signs.read_encodeWith (short.trans (by decide))
      ((HashValue.nesting_encode _).trans_le (by decide))
    refine ⟨signature, _, _, signed, readPacked, readText, fun lookup => ?_, natural, byHash,
      readPackedByHash, readTextByHash, fun lookup => ⟨fun found here point => ?_, fun unknown => ?_⟩⟩
    · have repeats : signature.bare.Repeats signature :=
        ⟨plain, signature.principal.samePoint_bare, rfl⟩
      exact ⟨_, decode_encode readable signs.paired lookup, repeats, repeats.verify readable signs⟩
    · have paired : signature.hash.algorithm = found.curve.digestAlgorithm.name := by
        rw [(PublicKey.samePoint_iff.mp point).1, ← signer, signs.paired]
      have repeats : Repeats ⟨.ofDigest signature.hash.algorithm signature.hash.digest, found,
          signature.tie⟩ signature := ⟨plain, by rwa [signer], rfl⟩
      exact ⟨_, decode_encodeWith_of_found readable known paired here, repeats,
        repeats.verify readable signs⟩
    · exact decode_encodeWith_of_not_found readable known unknown
  · rcases eq_or_ne p q with same | differ
    · exact Or.inl same
    · exact Or.inr (SExpr.pack_injective.ne differ)

/-- A certificate that the key of the scalar one signs: the signature is decoded by whoever knows no
keys, and vouches for nothing with another digest; written with the hash of the key, it is not
decoded by them. -/
theorem unitKey_signature_survives_transport :
    let payload := Gateway.unitKey.issuedExpr Gateway.zeroObject.encode Gateway.everything
      (some Gateway.since2014)
    ∃ signature natural byHash again,
      Gateway.unitKey.sign (some .standard) payload = .ok signature ∧
      decode (some .standard) .none signature.encode = .ok again ∧
      (∀ other, again.verify (some .standard) other = .ok () →
        again.principal.curve.digestAlgorithm.digest payload.pack =
          again.principal.curve.digestAlgorithm.digest other.pack) ∧
      signature.encodeByHash (some .standard) = .ok byHash ∧
      decode (some .standard) .none byHash = .error (.hashNotFound natural) := by
  have unseeded : Key.Unseeded (some .standard) (.privateKey Gateway.unitKey) :=
    .ofParts .p256 _ _ 1
  obtain ⟨⟨signature, natural, byHash, signed, -, -, decodes, -, written, -, -, byLookup⟩, binds⟩ :=
    signatures_survive_transport unseeded rfl Gateway.derive_unitKey Gateway.unitKey_vouches
  obtain ⟨again, decoded, -, verified⟩ := decodes .none
  exact ⟨signature, natural, byHash, again, signed, decoded,
    fun other checked => (binds again _ other verified checked).1, written, (byLookup .none).2 rfl⟩

end Signature

end SimplePki
