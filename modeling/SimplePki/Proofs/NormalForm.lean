import SimplePki.Proofs.Gateway.Accept
import SimplePki.Proofs.SExpr.ReadsAdvanced
import SimplePki.Proofs.Sequence.Reread
import SimplePki.Proofs.Sequence.Scope

/-!
# What was read is written in normal form

There are several ways to spell an element.  Integers may have zeros in front, the digest of a
signature may name places, and a signer may be named by a hash.  A certificate keeps its expression,
and is written as it was read.  A signature and a public key keep only what they say, and are
written in normal form: no zeros in front, no places, and the signer as a public key.

A signature is checked against what the element before it is written as.  So a signature over a
certificate is checked against the expression that was received; one over a signature or over a key
is checked against a normal form, which is what was received only if that was in normal form.  Where
the element before it is a signature by a hash, the normal form has the key that the hash stands for
at that place: the first key before it that bears the hash, or else the one in the ring.

## Main definitions

* `Element.Normalizes`: an expression and the normal form of what is read from it
* `Element.IsNormal`: the expressions in normal form

## Main results

* `Element.normalizes_of_decode`: what was read is written in normal form
* `Element.Normalizes.unique`: there is one normal form
* `Element.Normalizes.eq_iff`: an expression is its normal form if it is in normal form
* `Sequence.exists_normalizes`: what was read at a place of a sequence is written in normal form
* `received_elements_are_written_in_normal_form`
-/

namespace SimplePki

variable {installed : Installed}

/-! ### Normal forms -/

namespace Element

/-- An expression that can be read, and the normal form of what is read from it: a certificate is
its own normal form; in a key and in a signature zeros in front of integers are left out; in a
signature the places of its digest are left out as well, and the signer is written as a public
key. -/
inductive Normalizes (installed : Installed) (lookup : KeyLookup) : SExpr → SExpr → Prop where
  | certificate (terms : List SExpr) :
    Normalizes installed lookup (.list (.text "cert" :: terms)) (.list (.text "cert" :: terms))
  | publicKey (curve : Curve) (x y : Octets) :
    Normalizes installed lookup (PublicKey.spelled curve x y)
      (PublicKey.spelled curve x.trim y.trim)
  | signature (hash : HashValue) (places : Option SExpr) {signer : SExpr} {principal : PublicKey}
    (names : Signature.Names installed lookup signer principal) (r s : Octets) :
    Normalizes installed lookup (Signature.spelled (hash.spelled places) signer r s)
      (Signature.spelled hash.encode principal.encode r.trim s.trim)

/-- The expressions in normal form: of certificates any, of keys those without zeros in front of
their integers, and of signatures those that have no such zeros either, nor places, and have a
public key in normal form for their signer. -/
inductive IsNormal : SExpr → Prop where
  | certificate (terms : List SExpr) : IsNormal (.list (.text "cert" :: terms))
  | publicKey {curve : Curve} {x y : Octets} (trimmedX : x.trim = x) (trimmedY : y.trim = y) :
    IsNormal (PublicKey.spelled curve x y)
  | signature (hash : HashValue) {curve : Curve} {x y r s : Octets} (trimmedX : x.trim = x)
    (trimmedY : y.trim = y) (trimmedR : r.trim = r) (trimmedS : s.trim = s) :
    IsNormal (Signature.spelled hash.encode (PublicKey.spelled curve x y) r s)

/-- What is read is written in normal form. -/
theorem normalizes_of_decode {lookup : KeyLookup} {expr : SExpr} {element : Element}
    (h : decode installed lookup expr = .ok element) :
    ∃ payload, element.encode installed = .ok payload ∧
      Normalizes installed lookup expr payload := by
  rcases decode_cases h with ⟨cert, rfl, read⟩ | ⟨signed, rfl, read⟩ | ⟨key, rfl, read⟩
  · have readFrom : (certificate cert).ReadFrom installed expr := ⟨lookup, h⟩
    refine ⟨expr, readFrom.encode_certificate, ?_⟩
    obtain ⟨terms, rfl⟩ := Certificate.exists_terms_of_decode read
    exact .certificate terms
  · obtain ⟨places, signer, r, s, rfl, names, tie, -⟩ := Signature.decode_eq_ok read
    refine ⟨_, congrArg Except.ok signed.encode_eq_spelled, ?_⟩
    rw [tie, Octets.ofNat_toNat, Octets.ofNat_toNat]
    exact .signature signed.hash places names r s
  · obtain ⟨curve, x, y, rfl, rfl⟩ := PublicKey.decode_eq_ok_iff.mp read
    have normal := PublicKey.encode_ofPoint_toNat curve x y
    exact ⟨_, congrArg Except.ok normal, .publicKey curve x y⟩

/-- The word that leads an element tells its kind. -/
theorem list_text_ne {a b : String} (h : a ≠ b) {rest more : List SExpr} :
    SExpr.list (.text a :: rest) ≠ .list (.text b :: more) := fun same =>
  h (SExpr.text_inj.mp (List.cons.inj (SExpr.list.inj same)).1)

/-- The signer of a signature in normal form is a public key in normal form. -/
theorem names_encode_eq_iff {lookup : KeyLookup} {signer : SExpr} {principal : PublicKey}
    (names : Signature.Names installed lookup signer principal) :
    principal.encode = signer ↔
      ∃ curve x y, signer = PublicKey.spelled curve x y ∧ x.trim = x ∧ y.trim = y := by
  cases names with
  | byKey curve x y =>
    rw [PublicKey.encode_ofPoint_toNat, PublicKey.spelled_trim_eq_iff]
    constructor
    · rintro ⟨trimmedX, trimmedY⟩
      exact ⟨curve, x, y, rfl, trimmedX, trimmedY⟩
    · rintro ⟨other, u, v, same, trimmedX, trimmedY⟩
      obtain ⟨rfl, rfl, rfl⟩ := PublicKey.spelled_inj.mp same
      exact ⟨trimmedX, trimmedY⟩
  | byHash read found =>
    obtain ⟨-, places, rfl, -⟩ := HashValue.decode_eq_ok_iff.mp read
    constructor
    · intro same
      exact absurd same (list_text_ne (by decide))
    · rintro ⟨curve, x, y, same, -⟩
      exact absurd same (list_text_ne (by decide))

/-- An expression names one signer. -/
theorem names_unique {lookup : KeyLookup} {signer : SExpr} {principal other : PublicKey}
    (names : Signature.Names installed lookup signer principal)
    (again : Signature.Names installed lookup signer other) : principal = other := by
  cases names with
  | byKey curve x y =>
    generalize shape : PublicKey.spelled curve x y = signer at again
    cases again with
    | byKey _ _ _ =>
      obtain ⟨rfl, rfl, rfl⟩ := PublicKey.spelled_inj.mp shape
      rfl
    | byHash read _ =>
      obtain ⟨-, places, rfl, -⟩ := HashValue.decode_eq_ok_iff.mp read
      exact absurd shape (list_text_ne (by decide))
  | byHash read found =>
    cases again with
    | byKey _ _ _ =>
      obtain ⟨-, places, shape, -⟩ := HashValue.decode_eq_ok_iff.mp read
      exact absurd shape (list_text_ne (by decide))
    | byHash readAgain foundAgain =>
      cases Except.ok.inj (read.symm.trans readAgain)
      exact Option.some.inj (found.symm.trans foundAgain)

/-- An expression has one normal form. -/
theorem Normalizes.unique {lookup : KeyLookup} {expr payload other : SExpr}
    (h : Normalizes installed lookup expr payload)
    (again : Normalizes installed lookup expr other) : payload = other := by
  cases h with
  | certificate terms =>
    generalize shape : SExpr.list (.text "cert" :: terms) = expr at again
    cases again with
    | certificate _ => rfl
    | publicKey _ _ _ => exact absurd shape (list_text_ne (by decide))
    | signature _ _ _ _ _ => exact absurd shape (list_text_ne (by decide))
  | publicKey curve x y =>
    generalize shape : PublicKey.spelled curve x y = expr at again
    cases again with
    | certificate _ => exact absurd shape (list_text_ne (by decide))
    | publicKey _ _ _ =>
      obtain ⟨rfl, rfl, rfl⟩ := PublicKey.spelled_inj.mp shape
      rfl
    | signature _ _ _ _ _ => exact absurd shape (list_text_ne (by decide))
  | @signature hash places signer _ names r s =>
    generalize shape : Signature.spelled (hash.spelled places) signer r s = expr at again
    cases again with
    | certificate _ => exact absurd shape (list_text_ne (by decide))
    | publicKey _ _ _ => exact absurd shape (list_text_ne (by decide))
    | signature hashAgain placesAgain namesAgain _ _ =>
      obtain ⟨sameHash, rfl, rfl, rfl⟩ := Signature.spelled_inj.mp shape
      rw [names_unique names namesAgain, HashValue.encode_eq_of_spelled_eq sameHash]

theorem isNormal_publicKey_iff {curve : Curve} {x y : Octets} :
    IsNormal (PublicKey.spelled curve x y) ↔ x.trim = x ∧ y.trim = y := by
  constructor
  · intro normal
    generalize shape : PublicKey.spelled curve x y = expr at normal
    cases normal with
    | certificate terms => exact absurd shape (list_text_ne (by decide))
    | publicKey trimmedX trimmedY =>
      obtain ⟨-, rfl, rfl⟩ := PublicKey.spelled_inj.mp shape
      exact ⟨trimmedX, trimmedY⟩
    | signature hash _ _ _ _ => exact absurd shape (list_text_ne (by decide))
  · rintro ⟨trimmedX, trimmedY⟩
    exact .publicKey trimmedX trimmedY

theorem isNormal_signature_iff {hash : HashValue} {places : Option SExpr} {signer : SExpr}
    {r s : Octets} :
    IsNormal (Signature.spelled (hash.spelled places) signer r s) ↔
      places = none ∧
        (∃ curve x y, signer = PublicKey.spelled curve x y ∧ x.trim = x ∧ y.trim = y) ∧
        r.trim = r ∧ s.trim = s := by
  constructor
  · intro normal
    generalize shape : Signature.spelled (hash.spelled places) signer r s = expr at normal
    cases normal with
    | certificate terms => exact absurd shape (list_text_ne (by decide))
    | publicKey _ _ => exact absurd shape (list_text_ne (by decide))
    | signature other trimmedX trimmedY trimmedR trimmedS =>
      obtain ⟨sameHash, rfl, rfl, rfl⟩ := Signature.spelled_inj.mp shape
      exact ⟨(HashValue.spelled_eq_encode_iff.mp sameHash).1, ⟨_, _, _, rfl, trimmedX, trimmedY⟩,
        trimmedR, trimmedS⟩
  · rintro ⟨rfl, ⟨curve, x, y, rfl, trimmedX, trimmedY⟩, trimmedR, trimmedS⟩
    exact .signature hash trimmedX trimmedY trimmedR trimmedS

/-- An expression is its own normal form exactly if it is in normal form. -/
theorem Normalizes.eq_iff {lookup : KeyLookup} {expr payload : SExpr}
    (h : Normalizes installed lookup expr payload) : payload = expr ↔ IsNormal expr := by
  cases h with
  | certificate terms => exact ⟨fun _ => .certificate terms, fun _ => rfl⟩
  | publicKey curve x y => rw [PublicKey.spelled_trim_eq_iff, isNormal_publicKey_iff]
  | signature hash places names r s =>
    rw [isNormal_signature_iff, Signature.spelled_inj, eq_comm (a := hash.encode),
      HashValue.spelled_eq_encode_iff, and_iff_left rfl, names_encode_eq_iff names]

end Element

/-! ### Received elements -/

/-- What was read at a place of a sequence is written in normal form, where a hash stands for the
key that is found at that place. -/
theorem Sequence.exists_normalizes {lookup : KeyLookup} {items : List SExpr} {sequence : Sequence}
    (h : decode installed lookup (.list (.text "sequence" :: items)) = .ok sequence) {place : Nat}
    {element : Element} (found : sequence.elements[place]? = some element) :
    ∃ item payload, items[place]? = some item ∧ element.encode installed = .ok payload ∧
      Element.Normalizes installed (lookupBefore installed lookup sequence.elements place) item
        payload := by
  obtain ⟨_, sameItems, each⟩ := decode_eq_ok h
  obtain ⟨-, rfl⟩ := List.cons.inj (SExpr.list.inj sameItems)
  obtain ⟨item, there, other, decoded⟩ := readFrom_of_getElem? each found
  obtain ⟨payload, written, normalizes⟩ := Element.normalizes_of_decode decoded
  refine ⟨item, payload, there, written, ?_⟩
  -- only a signer that is written as a hash depends on the lookup
  cases normalizes with
  | certificate terms => exact .certificate terms
  | publicKey curve x y => exact .publicKey curve x y
  | signature hash places names r s =>
    cases names with
    | byKey curve x y => exact .signature hash places (.byKey curve x y) r s
    | byHash readSigner _ =>
      obtain ⟨signature, read, rfl⟩ :=
        map_eq_ok_iff.mp ((Element.decode_list_signature other _).symm.trans decoded)
      obtain ⟨_, key, isSignature, known, same⟩ :=
        exists_lookupBefore h there (Signature.unresolved?_of_decode read readSigner)
      cases Option.some.inj (found.symm.trans isSignature)
      -- keys of one point are written alike, whatever they remember
      obtain ⟨-, signer, -⟩ := Signature.spelled_inj.mp (Except.ok.inj written)
      rw [← signer, ← PublicKey.encode_eq_iff.mpr same]
      exact .signature hash places (.byHash readSigner known) r s

/-- What is read as an element, a certificate, a signature or a key, is written in its one normal
form, and as it was read exactly if that was in normal form.  A gateway that checks signatures has
every signature behind an element, and checks it against what that element is written as: the normal
form of the item in its place, where a hash stands for the first of the keys before it that bears
the hash or else for the key in the ring.  This is the item itself if that is in normal form, as
every certificate is. -/
theorem received_elements_are_written_in_normal_form :
    (∀ (installed : Installed) (lookup : KeyLookup) (expr : SExpr) (element : Element),
      Element.decode installed lookup expr = .ok element →
      ∃ payload, element.encode installed = .ok payload ∧
        Element.Normalizes installed lookup expr payload ∧
        (∀ other, Element.Normalizes installed lookup expr other → other = payload) ∧
        (payload = expr ↔ Element.IsNormal expr)) ∧
    (∀ (registry : Registry) (gateway : Gateway) (input : Octets) (accepted : Accepted),
      gateway.policy.verifySignatures = true →
      Gateway.answer (some registry) gateway input = .ok accepted →
      ∃ items,
        Gateway.Reads (some registry) gateway input (.list (.text "sequence" :: items))
          accepted.sequence ∧
        (∀ signature, accepted.sequence.elements[0]? ≠ some (.signature signature)) ∧
        ∀ (place : Nat) (before : Element), accepted.sequence.elements[place]? = some before →
          ∃ item payload, items[place]? = some item ∧
            before.encode (some registry) = .ok payload ∧
            Element.Normalizes (some registry)
              (Sequence.lookupBefore (some registry) gateway.ring.lookup
                accepted.sequence.elements place) item payload ∧
            (payload = item ↔ Element.IsNormal item) ∧
            ∀ signature, accepted.sequence.elements[place + 1]? = some (.signature signature) →
              signature.Signs payload) := by
  constructor
  · intro installed lookup expr element decoded
    obtain ⟨payload, written, normalizes⟩ := Element.normalizes_of_decode decoded
    exact ⟨payload, written, normalizes, fun _ other => other.unique normalizes, normalizes.eq_iff⟩
  · intro registry gateway input accepted verifies answered
    obtain ⟨expr, reads, -, sound⟩ := Gateway.exists_reads_of_accepted verifies answered
    obtain ⟨items, rfl⟩ := Sequence.exists_items_of_decode reads.2
    refine ⟨items, reads, ?_, ?_⟩
    · intro signature first
      obtain ⟨_, zero, -⟩ := sound 0 signature first
      exact nomatch zero
    · intro place before found
      obtain ⟨item, payload, there, written, normalizes⟩ :=
        Sequence.exists_normalizes reads.2 found
      refine ⟨item, payload, there, written, normalizes, normalizes.eq_iff, ?_⟩
      -- a signature behind it is sound, so that it vouches for what the element is written as
      intro signature behind
      obtain ⟨_, same, _, _, foundAgain, encoded, signs, -⟩ := sound _ signature behind
      cases Nat.succ.inj same
      cases Option.some.inj (found.symm.trans foundAgain)
      cases Except.ok.inj (written.symm.trans encoded)
      exact signs

/-- A zero in front of a coordinate is read, and not written back. -/
theorem zero_in_front_is_not_written_back :
    ¬∀ (lookup : KeyLookup) (expr : SExpr) (element : Element),
      Element.decode (some .standard) lookup expr = .ok element →
      element.encode (some .standard) = .ok expr := by
  intro written
  have read : Element.decode (some .standard) .none (PublicKey.spelled .p256 [0, 1] [2]) =
      .ok (.publicKey (.ofPoint .p256 1 2)) := by decide +kernel
  have same := written _ _ _ read
  rw [Element.encode, PublicKey.encode_eq_spelled, Except.ok.injEq] at same
  exact absurd (PublicKey.spelled_inj.mp same).2.1 (by decide +kernel)

/-! ### A signed key and a signed signature

The holder of the scalar one signs the key of that scalar, and then that signature, with the nonce
one each time.  The key and the first signature are spelled in as many octets as can be: with zeros
in front, with a place where the signed key is to be found, and with the signer named by a hash. -/

/-- The key of the scalar one: its point is the generator. -/
def generatorKey : PublicKey :=
  .ofPoint .p256 Curve.p256.generator.1 Curve.p256.generator.2

/-- The signature of a payload by the holder of the scalar one. -/
def generatorSignature (payload : SExpr) : Signature :=
  let digest := DigestAlgorithm.sha256.digest payload.pack
  ⟨.ofDigest "sha256" digest, generatorKey, Curve.p256.tie 1 digest.toNat 1⟩

/-- The key with a zero in front of a coordinate. -/
def paddedKey : SExpr :=
  PublicKey.spelled .p256 (0 :: Octets.ofNat generatorKey.x) (Octets.ofNat generatorKey.y)

/-- The signature of the key, with a place, a hash for its signer and zeros in front. -/
def paddedSigning : SExpr :=
  let signature := generatorSignature generatorKey.encode
  Signature.spelled
    (signature.hash.spelled (some (.list [.text "uris", .text "http://example.com/key"])))
    signature.hash.encode (0 :: Octets.ofNat signature.tie.r) (Octets.ofNat signature.tie.s)

/-- The key and its signature, spelled in many octets. -/
def paddedItems : List SExpr := [paddedKey, paddedSigning]

/-- The sequence of both. -/
def paddedSequence : SExpr := .list (.text "sequence" :: paddedItems)

/-- The signature as it is read: with its place, and by a key that remembers its hash. -/
def paddedSignature : Signature :=
  let signature := generatorSignature generatorKey.encode
  let place : Uri := ⟨"http".toList, some ⟨[], [], .name "example.com".toList, none⟩, "/key".toList,
    none, none⟩
  { signature with
    hash := { signature.hash with uris := [place] }
    principal := generatorKey.withHash signature.hash }

/-- The signature over the first signature, as that is written. -/
def counterSignature : Signature := generatorSignature paddedSignature.encode

/-- The sequence of all three. -/
def counterSequence : SExpr :=
  .list (.text "sequence" :: (paddedItems ++ [counterSignature.encode]))

/-- The elements that it is read as. -/
def counterElements : List Element :=
  [.publicKey generatorKey, .signature paddedSignature, .signature counterSignature]

theorem check_paddedSignature :
    Gateway.check (some .standard) 1 (.publicKey generatorKey) paddedSignature = .ok () := by
  decide +kernel

theorem check_counterSignature :
    Gateway.check (some .standard) 2 (.signature paddedSignature) counterSignature = .ok () := by
  decide +kernel

theorem length_paddedSequence : paddedSequence.pack.length < SExpr.memoryLimit := by
  decide +kernel

theorem read_paddedSequence : SExpr.read paddedSequence.pack = .ok paddedSequence :=
  SExpr.read_pack (by decide +kernel) length_paddedSequence

theorem decode_paddedSequence :
    Sequence.decode (some .standard) KeyRing.empty.lookup paddedSequence =
      .ok ⟨[.publicKey generatorKey, .signature paddedSignature]⟩ := by decide +kernel

/-- The signature of the key is sound, whatever comes behind it. -/
theorem checkAll_padded (rest : List Element) :
    Gateway.checkAll (some .standard) true 0 none
        (.publicKey generatorKey :: .signature paddedSignature :: rest) =
      (Gateway.checkAll (some .standard) true 2 (some (.signature paddedSignature)) rest).map
        (0 :: ·) := by
  rw [Gateway.checkAll, Gateway.checkAll_signature_of_ok check_paddedSignature]
  intro _ same
  cases same

/-- The key and its signature alone are accepted. -/
theorem answer_paddedSequence :
    Gateway.answer (some .standard) ⟨.standard, .empty⟩ paddedSequence.pack =
      .ok ⟨⟨[.publicKey generatorKey, .signature paddedSignature]⟩, [0]⟩ := by
  have reads : Gateway.Reads (some .standard) ⟨.standard, .empty⟩ paddedSequence.pack paddedSequence
      ⟨[.publicKey generatorKey, .signature paddedSignature]⟩ :=
    ⟨read_paddedSequence, decode_paddedSequence⟩
  exact Gateway.answer_of_ok reads (checkAll_padded [])

theorem read_counterSequence :
    SExpr.read (Octets.ofText counterSequence.toAdvanced) = .ok counterSequence :=
  SExpr.read_toAdvanced (by decide +kernel)

/-- The signature over the signature is read behind the other two, as it is written. -/
theorem decode_counterSequence :
    Sequence.decode (some .standard) KeyRing.empty.lookup counterSequence =
      .ok ⟨counterElements⟩ := by
  have readable : counterSignature.hash.Readable (some .standard) :=
    @HashValue.readable_ofDigest .standard .sha256 rfl paddedSignature.encode.pack
  have last := Element.decode_signature_encode readable rfl
  exact Sequence.decode_append decode_paddedSequence (.cons last .nil)

theorem answer_counterSequence :
    Gateway.answer (some .standard) ⟨.standard, .empty⟩
        (Octets.ofText counterSequence.toAdvanced) = .ok ⟨⟨counterElements⟩, [0, 1]⟩ := by
  have checked : Gateway.checkAll (some .standard) true 0 none counterElements = .ok [0, 1] := by
    rw [counterElements, checkAll_padded, Gateway.checkAll_signature_of_ok check_counterSignature]
    rfl
  have reads : Gateway.Reads (some .standard) ⟨.standard, .empty⟩
      (Octets.ofText counterSequence.toAdvanced) counterSequence ⟨counterElements⟩ :=
    ⟨read_counterSequence, decode_counterSequence⟩
  exact Gateway.answer_of_ok reads checked

/-- The key was received with a zero in front, and is signed without it; the signature of the key
was received by a hash, and is signed with the key that stands before it for its signer. -/
theorem padded_items_are_signed_in_normal_form :
    Gateway.answer (some .standard) ⟨.standard, .empty⟩
        (Octets.ofText counterSequence.toAdvanced) = .ok ⟨⟨counterElements⟩, [0, 1]⟩ ∧
    (Element.Normalizes (some .standard)
        (Sequence.lookupBefore (some .standard) KeyRing.empty.lookup counterElements 0)
        paddedKey generatorKey.encode ∧
      paddedSignature.Signs generatorKey.encode ∧ generatorKey.encode ≠ paddedKey) ∧
    Element.Normalizes (some .standard)
        (Sequence.lookupBefore (some .standard) KeyRing.empty.lookup counterElements 1)
        paddedSigning paddedSignature.encode ∧
      counterSignature.Signs paddedSignature.encode ∧ paddedSignature.encode ≠ paddedSigning := by
  obtain ⟨-, received⟩ := received_elements_are_written_in_normal_form
  obtain ⟨items, reads, -, each⟩ := received _ _ _ _ rfl answer_counterSequence
  have sameItems : items = paddedItems ++ [counterSignature.encode] := by
    have same := Except.ok.inj (reads.1.symm.trans read_counterSequence)
    exact (List.cons.inj (SExpr.list.inj same)).2
  subst sameItems
  refine ⟨answer_counterSequence, ?_, ?_⟩
  · obtain ⟨item, payload, there, written, normalizes, same, signs⟩ := each 0 _ rfl
    obtain rfl := Option.some.inj (there : some paddedKey = some item)
    obtain rfl := Except.ok.inj written
    refine ⟨normalizes, signs _ rfl, ?_⟩
    rw [Ne, same, paddedKey, Element.isNormal_publicKey_iff]
    rintro ⟨trimmed, -⟩
    exact absurd (Octets.trim_eq_self_iff.mp trimmed) (by simp)
  · obtain ⟨item, payload, there, written, normalizes, same, signs⟩ := each 1 _ rfl
    obtain rfl := Option.some.inj (there : some paddedSigning = some item)
    obtain rfl := Except.ok.inj written
    refine ⟨normalizes, signs _ rfl, ?_⟩
    rw [Ne, same, paddedSigning, Element.isNormal_signature_iff]
    rintro ⟨noPlaces, -⟩
    exact nomatch noPlaces

end SimplePki
