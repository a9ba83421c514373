import SimplePki.Proofs.Certificate.Issue
import SimplePki.Proofs.Gateway.Accept
import SimplePki.Proofs.SExpr.ReadsAdvanced
import SimplePki.Proofs.Sequence.Reread

/-!
# Whatever is issued is accepted

A key whose point fits its scalar can sign where the algorithm of its curve is registered, and so it
can issue.  What it issues is a sequence that needs no keys to be read: the key, the certificate and
a signature that names the key in full.  Any gateway that checks signatures accepts the sequence,
unless the tag is nested too deep for it to be read at all.

That the point verifies what the scalar signs is a fact about the curve, which is assumed here.

## Main definitions

* `PrivateKey.Vouches`: the point of a key verifies what its scalar signs
* `Gateway.issuedPayload`: the expression of an issued sequence

## Main results

* `PrivateKey.exists_sign`: a key that fits its scalar signs any payload
* `Gateway.nesting_issuedPayload_le_iff`: which tags can be read in an issued sequence
* `Gateway.issued_certificates_are_accepted`
-/

namespace SimplePki

variable {registry : Registry}

/-! ### Signing -/

/-- A scalar in range signs any digest, as a nonce that makes a number zero is passed over. -/
theorem Curve.exists_sign {curve : Curve} {d x y : Nat} (derived : curve.derive d = .ok (x, y))
    (digest : Octets) : ∃ tie, curve.sign d digest = .ok tie := by
  obtain ⟨scalar, inRange, -⟩ := bind_eq_ok_iff.mp derived
  exact ⟨_, bind_eq_ok_iff.mpr ⟨scalar, inRange, rfl⟩⟩

namespace PrivateKey

/-- What the scalar of the key signs of a payload, the point of the key verifies. -/
def Vouches (key : PrivateKey) (payload : SExpr) : Prop :=
  let digest := key.half.curve.digestAlgorithm.digest payload.pack
  ∀ tie, key.half.curve.sign key.scalar digest = .ok tie →
    key.half.curve.verify key.half.x key.half.y digest tie = .ok ()

/-- A key with the point that its scalar has signs any payload. -/
theorem exists_sign {key : PrivateKey} (held : registry.holds key.half.curve.digestAlgorithm = true)
    (derived : key.half.curve.derive key.scalar = .ok (key.half.x, key.half.y)) {payload : SExpr}
    (vouches : key.Vouches payload) :
    ∃ signature, key.sign (some registry) payload = .ok signature ∧
      signature.principal = key.half ∧ signature.hash.Readable (some registry) ∧
      signature.Signs payload := by
  obtain ⟨tie, signed⟩ := Curve.exists_sign derived
    (key.half.curve.digestAlgorithm.digest payload.pack)
  have hashed := HashValue.compute_of_find (Registry.find_name held) payload.pack
  refine ⟨⟨.ofDigest key.half.curve.digestAlgorithm.name
    (key.half.curve.digestAlgorithm.digest payload.pack), key.half, tie⟩, ?_, rfl, ?_, ?_⟩
  · refine bind_eq_ok_iff.mpr ⟨_, hashed, ?_⟩
    dsimp only [HashValue.ofDigest]
    rw [signed]
    rfl
  · exact ⟨registry, key.half.curve.digestAlgorithm, rfl,
      Registry.find_eq_ok_iff.mp (Registry.find_name held), DigestAlgorithm.length_digest _ _⟩
  · exact ⟨rfl, rfl, vouches tie signed⟩

end PrivateKey

namespace Gateway

/-! ### Issued sequences -/

/-- The expression of an issued sequence. -/
def issuedPayload (key : PublicKey) (cert : SExpr) (signature : Signature) : SExpr :=
  .list [.text "sequence", key.encode, cert, signature.encode]

theorem encode_issued {installed : Installed} {cert : Certificate} {certExpr : SExpr}
    (written : cert.encode installed = .ok certExpr) (key : PublicKey) (signature : Signature) :
    Sequence.encode installed ⟨[.publicKey key, .certificate cert, .signature signature]⟩ =
      .ok (issuedPayload key certExpr signature) :=
  Sequence.encode_of_forall₂ (.cons rfl (.cons written (.cons rfl .nil)))

theorem decode_issuedPayload {installed : Installed} {cert : Certificate} {certExpr : SExpr}
    (read : Certificate.decode installed certExpr = .ok cert) (key : PublicKey)
    {signature : Signature} (readable : signature.hash.Readable installed)
    (paired : signature.hash.algorithm = signature.principal.curve.digestAlgorithm.name)
    (lookup : KeyLookup) :
    Sequence.decode installed lookup (issuedPayload key certExpr signature) =
      .ok ⟨[.publicKey key.bare, .certificate cert, .signature signature.bare]⟩ := by
  apply Sequence.decode_of_forall₂
  exact .cons (Element.decode_publicKey key.decode_encode)
    (.cons (Element.decode_certificate read)
      (.cons (Element.decode_signature_encode readable paired) .nil))

/-- Tags can be read that are nested two less deep than any expression that can be read. -/
theorem nesting_issuedPayload_le_iff (issuer : PrivateKey) {subject : Subject}
    {subjectExpr : SExpr} (named : subject.encode (some registry) = .ok subjectExpr) (tag : SExpr)
    (validity : Option Validity) (signature : Signature) :
    (issuedPayload issuer.half (issuer.issuedExpr subjectExpr tag validity) signature).nesting ≤
      SExpr.nestingLimit ↔ tag.nesting ≤ 254 := by
  have word : (SExpr.text "sequence").nesting = 0 := rfl
  rw [issuedPayload, SExpr.nesting, SExpr.nestingItems, SExpr.nestingItems, SExpr.nestingItems,
    SExpr.nestingItems, SExpr.nestingItems, word, Element.nesting_publicKey_encode,
    issuer.nesting_issuedExpr named, Element.nesting_signature_encode, SExpr.nestingLimit]
  omega

/-- In a sequence of a key, a certificate and a signature, the signature has to be sound. -/
theorem soundAt_of_covers {installed : Installed} {key : PublicKey} {cert : Certificate}
    {signature : Signature}
    (covers : Covers installed [.publicKey key, .certificate cert, .signature signature] 1
      signature) (index : Nat) :
    SoundAt installed [.publicKey key, .certificate cert, .signature signature] index := by
  -- the signature stands at the last index, and no other index asks for anything
  match index with
  | 0 => exact soundAt_of_ne rfl fun _ same => nomatch same
  | 1 => exact soundAt_of_ne rfl fun _ same => nomatch same
  | 2 =>
    intro other there
    obtain rfl := Element.signature.inj (Option.some.inj there)
    exact ⟨1, rfl, covers⟩
  | index + 3 =>
    intro other there
    exact nomatch there

/-- A sequence of a key, a certificate that it issued and its signature is accepted wherever it can
be read. -/
theorem answer_issuedPayload {receiver : Gateway} {sent : Octets} {key : PublicKey}
    {cert : Certificate} {certExpr : SExpr} {signature : Signature}
    (verifies : receiver.policy.verifySignatures = true)
    (held : registry.holds key.curve.digestAlgorithm = true)
    (certRead : Certificate.decode (some registry) certExpr = .ok cert)
    (issuer : cert.issuer = .ofKey (.publicKey key.bare)) (signer : signature.principal = key)
    (readable : signature.hash.Readable (some registry)) (signs : signature.Signs certExpr)
    (read : SExpr.read sent = .ok (issuedPayload key certExpr signature)) :
    answer (some registry) receiver sent =
      .ok ⟨⟨[.publicKey key.bare, .certificate cert, .signature signature.bare]⟩, [1]⟩ := by
  have certWritten : cert.encode (some registry) = .ok certExpr :=
    Element.ReadFrom.encode_certificate ⟨.none, Element.decode_certificate certRead .none⟩
  -- the issuer and the signer were read from the same expression
  have byIssuer : SignedByIssuer (some registry) (.certificate cert) signature.bare := by
    rintro _ _ same named
    obtain rfl := Element.certificate.inj same
    rw [issuer] at named
    rw [← Option.some.inj named, Signature.bare, signer]
    exact Key.sameAs_self held key.bare
  have reads : Reads (some registry) receiver sent (issuedPayload key certExpr signature)
      ⟨[.publicKey key.bare, .certificate cert, .signature signature.bare]⟩ :=
    ⟨read, decode_issuedPayload certRead key readable signs.paired receiver.ring.lookup⟩
  exact answer_of_sound verifies reads (soundAt_of_covers
    ⟨_, certExpr, rfl, certWritten, signs.bare, byIssuer⟩)

/-! ### Issuing and accepting -/

/-- Whatever a key with the point of its scalar issues can be written, and any gateway that checks
signatures, with whatever keys, accepts it in either form exactly if the tag is nested no deeper
than 254 lists; beyond that it finds the octets nested too deep.  The accepted sequence has one
signed certificate, which conveys what was issued. -/
theorem issued_certificates_are_accepted {issuer : PrivateKey} {subject reread : Subject}
    {subjectExpr tag : SExpr} {validity : Option Validity} (gateway : Gateway)
    (held : registry.holds issuer.half.curve.digestAlgorithm = true)
    (derived : issuer.half.curve.derive issuer.scalar = .ok (issuer.half.x, issuer.half.y))
    (named : subject.encode (some registry) = .ok subjectExpr)
    (readable : Subject.decode (some registry) subjectExpr = .ok reread)
    (inCalendar : ∀ bounds, validity = some bounds → bounds.InCalendar)
    (vouches : ∀ payload,
      (issuer.issue subject tag validity).encode (some registry) = .ok payload →
      issuer.Vouches payload) :
    ∃ sequence expr,
      (perform (issue (some registry) issuer subject tag validity) gateway).1 = .ok sequence ∧
      sequence.encode (some registry) = .ok expr ∧
      sequence.pack (some registry) = .ok expr.pack ∧
      ∀ (receiver : Gateway) (sent : Octets), receiver.policy.verifySignatures = true →
        expr.Sent sent →
        ((∃ accepted, answer (some registry) receiver sent = .ok accepted) ↔
          tag.nesting ≤ 254) ∧
        (254 < tag.nesting →
          ∃ place, answer (some registry) receiver sent = .error (.reading (.tooDeep place))) ∧
        ∀ accepted, answer (some registry) receiver sent = .ok accepted →
          accepted.signed = [1] ∧ ∃ cert, accepted.certificates = [cert] ∧
            cert.Conveys (some registry) issuer.half subjectExpr tag validity := by
  -- the certificate is written, and what was written is signed
  have certWritten := issuer.encode_issue named tag validity
  obtain ⟨signature, signed, signer, hashReadable, signs⟩ :=
    PrivateKey.exists_sign held derived (vouches _ certWritten)
  obtain ⟨ring, -, issued⟩ := perform_issue_of_signed gateway certWritten signed
  -- whoever reads the sequence reads the same certificate in it, and nothing else can fail
  obtain ⟨cert, certRead, certIssuer, conveys⟩ :=
    issuer.decode_issuedExpr named readable tag inCalendar
  have written := encode_issued certWritten issuer.half signature
  have shallow := nesting_issuedPayload_le_iff issuer named tag validity signature
  refine ⟨_, _, congrArg Prod.fst issued, written, ?_, fun receiver sent verifies form => ?_⟩
  · rw [Sequence.pack, written]
    rfl
  · by_cases within : tag.nesting ≤ 254
    · have answered := answer_issuedPayload verifies held certRead certIssuer signer hashReadable
        signs (form.read_eq_ok (shallow.mpr within))
      refine ⟨⟨fun _ => within, fun _ => ⟨_, answered⟩⟩, fun beyond => ?_, ?_⟩
      · exact absurd within (Nat.not_le.mpr beyond)
      · intro accepted known
        obtain rfl := Except.ok.inj (known.symm.trans answered)
        exact ⟨rfl, cert, rfl, conveys⟩
    · obtain ⟨place, read⟩ := form.read_eq_tooDeep (Nat.not_le.mp fun le => within (shallow.mp le))
      have refused : answer (some registry) receiver sent = .error (.reading (.tooDeep place)) :=
        answer_of_unread read
      refine ⟨⟨?_, fun le => absurd le within⟩, fun _ => ⟨place, refused⟩, ?_⟩
      · rintro ⟨accepted, answered⟩
        exact nomatch answered.symm.trans refused
      · intro accepted answered
        exact nomatch answered.symm.trans refused

/-! ### An issued certificate -/

/-- The key of the scalar one: its point is the generator. -/
def unitKey : PrivateKey := .ofParts .p256 Curve.p256.generator.1 Curve.p256.generator.2 1

theorem derive_unitKey : unitKey.half.curve.derive unitKey.scalar =
    .ok (unitKey.half.x, unitKey.half.y) := by decide +kernel

/-- The object whose digest is all zeros. -/
def zeroObject : HashValue := .ofDigest "sha256" (List.replicate 32 0)

/-- The tag of all authority. -/
def everything : SExpr := .list [.text "tag", .list [.text "*"]]

/-- From the beginning of 2014 on. -/
def since2014 : Validity := ⟨some ⟨1388534400, 0⟩, none⟩

/-- What the scalar one signs of a certificate. -/
def unitTie : Curve.Tie :=
  ⟨0x34ee1253513565508d6976e562461f9cb1e7caad6f52358098c117dfdfdd0db6,
    0x1e87ceb18447800bbaf2aceced44a5ea9a45e4c4de7520245f033d3cf8882b7⟩

theorem decode_zeroObject :
    Subject.decode (some .standard) zeroObject.encode = .ok (.object zeroObject) := by
  decide +kernel

theorem inCalendar_since2014 : ∀ bounds, some since2014 = some bounds → bounds.InCalendar := by
  intro bounds same
  obtain rfl := Option.some.inj same
  refine ⟨?_, fun _ none => (nomatch none)⟩
  intro instant same
  obtain rfl := Option.some.inj same
  exact ⟨⟨⟨2014, 1, 1⟩, by decide, by decide⟩, by decide⟩

/-- The digest of the certificate. -/
def unitDigest : Octets :=
  Octets.lowest 32 0x13e04979415b9acdd779e5c8950fa0dc69756590af9a7af395b1e28d45775a2a

theorem digest_unitKey :
    DigestAlgorithm.sha256.digest
      (unitKey.issuedExpr zeroObject.encode everything (some since2014)).pack = unitDigest := by
  decide +kernel

/-- What the nonce is drawn from. -/
def unitSeed : Octets :=
  Octets.lowest 32 1 ++ Octets.lowest 32 (unitDigest.toNat % Curve.p256.order)

/-- The generator of the nonce after the seed has entered once. -/
def seededOnce : Nonce.State :=
  ⟨Octets.lowest 32 0xe0a7068f0e587b68cd0fc59dbf5e6e69ce1a89c869dde213c598750b347f8644,
    Octets.lowest 32 0xfbe021db743af709fe3c56aaf1c3a86e4876d182524ac05e1cf4fdd45a03292e⟩

/-- The generator of the nonce after the seed has entered twice. -/
def seededTwice : Nonce.State :=
  ⟨Octets.lowest 32 0x1231faa0a14148fdc41cea23ed8e76b4ffe36b2d2513d428c40382664f5b351e,
    Octets.lowest 32 0x9e232dd3d657009e265f546ca27c1d40a0436dc2e9e5d91eae26e2ebd93d44ca⟩

/-- The generator of the nonce with its first candidate. -/
def unitState : Nonce.State :=
  ⟨seededTwice.key,
    Octets.lowest 32 0x4bd3c98b22b110d193accd97abb44b432dbb18237c3ae045d99f95dffeec217a⟩

theorem rekey_once :
    Nonce.State.rekey .sha256 ⟨List.replicate 32 0x00, List.replicate 32 0x01⟩ 0x00 unitSeed =
      seededOnce := by
  have key : DigestAlgorithm.sha256.hmac (List.replicate 32 0x00)
      (List.replicate 32 0x01 ++ 0x00 :: unitSeed) = seededOnce.key := by decide +kernel
  have output : DigestAlgorithm.sha256.hmac seededOnce.key (List.replicate 32 0x01) =
      seededOnce.output := by decide +kernel
  rw [Nonce.State.rekey, key, Nonce.State.advance, output]

theorem rekey_twice : Nonce.State.rekey .sha256 seededOnce 0x01 unitSeed = seededTwice := by
  have key : DigestAlgorithm.sha256.hmac seededOnce.key
      (seededOnce.output ++ 0x01 :: unitSeed) = seededTwice.key := by decide +kernel
  have output : DigestAlgorithm.sha256.hmac seededTwice.key seededOnce.output =
      seededTwice.output := by decide +kernel
  rw [Nonce.State.rekey, key, Nonce.State.advance, output]

theorem start_unitDigest : Nonce.start .p256 1 unitDigest = unitState := by
  have output : DigestAlgorithm.sha256.hmac seededTwice.key seededTwice.output =
      unitState.output := by decide +kernel
  change Nonce.State.advance .sha256 (Nonce.State.rekey .sha256 (Nonce.State.rekey .sha256
    ⟨List.replicate 32 0x00, List.replicate 32 0x01⟩ 0x00 unitSeed) 0x01 unitSeed) = unitState
  rw [rekey_once, rekey_twice, Nonce.State.advance, output]
  rfl

theorem sign_unitDigest : Curve.p256.sign 1 unitDigest = .ok unitTie := by
  have scalar : Curve.p256.scalar 1 = .ok 1 := by decide +kernel
  have first : Curve.p256.firstTie 1 unitDigest.toNat 100 unitState = unitTie := by
    decide +kernel
  rw [Curve.sign, scalar, ok_bind, start_unitDigest, first]
  rfl

/-- The point of the scalar one verifies what that scalar signs of a certificate. -/
theorem unitKey_vouches :
    unitKey.Vouches (unitKey.issuedExpr zeroObject.encode everything (some since2014)) := by
  have verified : Curve.p256.verify Curve.p256.generator.1 Curve.p256.generator.2 unitDigest
      unitTie = .ok () := by decide +kernel
  intro tie signed
  change Curve.p256.sign 1 (DigestAlgorithm.sha256.digest _) = .ok tie at signed
  change Curve.p256.verify _ _ (DigestAlgorithm.sha256.digest _) tie = .ok ()
  rw [digest_unitKey] at signed ⊢
  obtain rfl := Except.ok.inj (signed.symm.trans sign_unitDigest)
  exact verified

/-- A certificate for an object, issued by the key of the scalar one, is accepted by a gateway with
no keys. -/
theorem unitKey_certificate_is_accepted :
    let gateway : Gateway := ⟨.standard, .empty⟩
    unitKey.half.curve.derive unitKey.scalar = .ok (unitKey.half.x, unitKey.half.y) ∧
      ∃ sequence expr accepted,
        (perform (issue (some .standard) unitKey (.object zeroObject) everything (some since2014))
          gateway).1 = .ok sequence ∧
        sequence.encode (some .standard) = .ok expr ∧
        answer (some .standard) gateway (Octets.ofText expr.toAdvanced) = .ok accepted ∧
        accepted.signed = [1] := by
  intro gateway
  have named : (Subject.object zeroObject).encode (some .standard) = .ok zeroObject.encode := rfl
  -- the one payload that there is was signed above
  have vouches : ∀ payload, (unitKey.issue (.object zeroObject) everything
      (some since2014)).encode (some .standard) = .ok payload → unitKey.Vouches payload := by
    intro payload written
    obtain rfl := Except.ok.inj (written.symm.trans (unitKey.encode_issue named _ _))
    exact unitKey_vouches
  obtain ⟨sequence, expr, issued, written, -, accepts⟩ :=
    issued_certificates_are_accepted gateway rfl derive_unitKey named decode_zeroObject
      inCalendar_since2014 vouches
  obtain ⟨iff, -, conveys⟩ := accepts gateway _ rfl .advanced
  obtain ⟨accepted, answered⟩ := iff.mpr (by decide)
  exact ⟨derive_unitKey, sequence, expr, accepted, issued, written, answered, (conveys _ answered).1⟩

end Gateway

end SimplePki
