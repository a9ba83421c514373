import SimplePki.Proofs.Gateway.Accept
import SimplePki.Proofs.NormalForm
import SimplePki.Proofs.SExpr.ReadsAdvanced
import SimplePki.Proofs.Sequence.Reread

/-!
# Accepted sequences can be passed on

A sequence that was accepted is not passed on as it was received.  The signers that were named by a
hash have been found, and zeros in front of integers and the places in digests are gone.  None of
this makes a difference to whoever receives it: no hash is left to be resolved, and a signature that
was sound is still sound, since what it covers is written as it was when it was checked, and the
signer is the same key to every issuer.

The last point needs that the keys of the ring are truthful.  A key that remembers a wrong hash is
taken for an issuer that it is not, and passing it on would make it forget.

## Main results

* `Gateway.SoundAt.bare`: a sound signature is sound in what is read again
* `Gateway.Reads.exists_payload`: what was read and is sound can be passed on
* `Gateway.accepted_sequences_are_accepted_again`
-/

namespace SimplePki.Gateway

variable {installed : Installed} {elements : List Element}

/-! ### Sound signatures -/

theorem placesBehind_map_bare (place : Nat) (rest : List Element) :
    placesBehind place (rest.map Element.bare) = placesBehind place rest := by
  induction rest generalizing place with
  | nil => rfl
  | cons next rest ih =>
    cases next with
    | signature signed => exact congrArg (place :: ·) (ih (place + 1))
    | certificate cert => exact ih (place + 1)
    | publicKey key => exact ih (place + 1)

theorem coveredPlaces_map_bare (elements : List Element) :
    coveredPlaces (elements.map Element.bare) = coveredPlaces elements := by
  rw [coveredPlaces, ← List.map_tail, placesBehind_map_bare]
  rfl

theorem eq_bare_of_signature {element : Element} {signature : Signature}
    (h : element.bare = .signature signature) :
    ∃ signed, element = .signature signed ∧ signature = signed.bare := by
  cases element with
  | signature signed => exact ⟨signed, rfl, (Element.signature.inj h).symm⟩
  | certificate cert => exact nomatch h
  | publicKey key => exact nomatch h

theorem eq_certificate_of_bare {element : Element} {cert : Certificate}
    (h : element.bare = .certificate cert) : element = .certificate cert := by
  cases element with
  | certificate other => exact h
  | signature signed => exact nomatch h
  | publicKey key => exact nomatch h

/-- An issuer takes a truthful signer for the same key when it has forgotten everything. -/
theorem SignedByIssuer.bare {covered : Element} {signature : Signature}
    (h : SignedByIssuer installed covered signature)
    (truth : signature.principal.Truthful installed) :
    SignedByIssuer installed covered.bare signature.bare := by
  intro cert issuer same named
  have alike := Key.sameAs_congr issuer (PublicKey.truthful_ofPoint _ _ _) truth
    signature.principal.samePoint_bare
  exact alike.trans (h cert issuer (eq_certificate_of_bare same) named)

/-- A signature that is sound in a sequence is sound in what is read again from it. -/
theorem SoundAt.bare {index : Nat} (sound : SoundAt installed elements index)
    (truth : ∀ signed, Element.signature signed ∈ elements →
      signed.principal.Truthful installed) :
    SoundAt installed (elements.map Element.bare) index := by
  intro signature there
  rw [List.getElem?_map] at there
  obtain ⟨element, found, same⟩ := Option.map_eq_some_iff.mp there
  obtain ⟨signed, rfl, rfl⟩ := eq_bare_of_signature same
  obtain ⟨place, next, covered, payload, before, written, signs, byIssuer⟩ := sound signed found
  refine ⟨place, next, covered.bare, payload, ?_, ?_, signs.bare,
    byIssuer.bare (truth signed (List.mem_of_getElem? found))⟩
  · rw [List.getElem?_map, before]
    rfl
  · rw [Element.encode_bare, written]

/-! ### Passing on -/

variable {registry : Registry} {gateway : Gateway} {input : Octets}

/-- The keys that a gateway finds are truthful, whatever it went through. -/
theorem Reachable.truthful (reachable : Reachable installed gateway) :
    gateway.ring.Truthful installed := by
  obtain ⟨registry, rfl⟩ := reachable.exists_registry
  obtain ⟨keys, added⟩ := reachable.exists_registerAll
  exact KeyRing.truthful_of_registerAll KeyRing.truthful_empty added

/-- What was read from an input is written so that it can be read again from its octets. -/
theorem Reads.exists_payload {expr : SExpr} {sequence : Sequence}
    (reads : Reads installed gateway input expr sequence) :
    ∃ payload, sequence.encode installed = .ok payload ∧
      ∀ (receiver : Gateway) (sent : Octets), payload.Sent sent →
        Reads installed receiver sent payload ⟨sequence.elements.map Element.bare⟩ := by
  obtain ⟨items, rfl, each⟩ := Sequence.decode_eq_ok reads.2
  -- the items are one list below the limit, and a signature is nested far less
  have within : ∀ item ∈ SExpr.text "sequence" :: items, item.nesting ≤ 255 :=
    SExpr.nestingItems_le_iff.mp (Nat.le_of_succ_le_succ (SExpr.nesting_le_of_read reads.1))
  obtain ⟨payloads, written, again, shallow⟩ :=
    Sequence.exists_payloads each (by decide) (List.forall_mem_cons.mp within).2
  refine ⟨_, Sequence.encode_of_forall₂ written, fun receiver sent form => ⟨?_, ?_⟩⟩
  · apply form.read_eq_ok
    exact Nat.succ_le_succ (SExpr.nestingItems_le_iff.mpr
      (List.forall_mem_cons.mpr ⟨Nat.zero_le 255, shallow⟩))
  · exact Sequence.decode_of_forall₂ again receiver.ring.lookup

/-- A sequence that a gateway accepts can be written, and any other gateway accepts what was written
in either form, with the same places signed and whatever keys it has; what it accepts is written as
the same octets again. -/
theorem accepted_sequences_are_accepted_again {accepted : Accepted}
    (reachable : Reachable (some registry) gateway)
    (verifies : gateway.policy.verifySignatures = true)
    (answered : answer (some registry) gateway input = .ok accepted) :
    ∃ expr, accepted.sequence.encode (some registry) = .ok expr ∧
      accepted.sequence.pack (some registry) = .ok expr.pack ∧
      ∀ (receiver : Gateway) (sent : Octets), receiver.policy.verifySignatures = true →
        expr.Sent sent →
        ∃ again, answer (some registry) receiver sent = .ok again ∧
          again.signed = accepted.signed ∧
          again.sequence.encode (some registry) = .ok expr ∧
          again.sequence.pack (some registry) = .ok expr.pack := by
  obtain ⟨received, reads, signed, sound⟩ := exists_reads_of_accepted verifies answered
  obtain ⟨expr, written, readsAgain⟩ := reads.exists_payload
  have packed : accepted.sequence.pack (some registry) = .ok expr.pack := by
    rw [Sequence.pack, written]
    rfl
  -- a signer was written in the sequence, or found in a ring that remembers the truth
  have truth := Sequence.truthful_of_decode
    (fun _ _ found => KeyRing.truthful_lookup reachable.truthful found) reads.2
  refine ⟨expr, written, packed, fun receiver sent verifiesToo form => ?_⟩
  -- so what was sound is sound for the receiver, which finds nothing in its ring
  have passedOn := answer_of_sound verifiesToo (readsAgain receiver sent form)
    fun index => (sound index).bare truth
  have rewritten : Sequence.encode (some registry)
      ⟨accepted.sequence.elements.map Element.bare⟩ = .ok expr := by
    rw [Sequence.encode_map_bare, written]
  refine ⟨_, passedOn, ?_, rewritten, ?_⟩
  · rw [signed, coveredPlaces_map_bare]
  · rw [Sequence.pack, rewritten]
    rfl

/-- A key and its signature, spelled in many octets, are passed on in normal form to a gateway with
no keys. -/
theorem padded_sequence_is_passed_on :
    let gateway : Gateway := ⟨.standard, .empty⟩
    Reachable (some .standard) gateway ∧ gateway.policy.verifySignatures = true ∧
      ∃ accepted expr again, answer (some .standard) gateway paddedSequence.pack = .ok accepted ∧
        accepted.sequence.encode (some .standard) = .ok expr ∧
        answer (some .standard) gateway (Octets.ofText expr.toAdvanced) = .ok again ∧
        again.signed = [0] ∧ again.sequence.pack (some .standard) = .ok expr.pack := by
  intro gateway
  have reachable : Reachable (some .standard) gateway :=
    .new (show Gateway.new (some .standard) .standard = _ from rfl)
  obtain ⟨expr, written, -, passedOn⟩ :=
    accepted_sequences_are_accepted_again reachable rfl answer_paddedSequence
  obtain ⟨again, answered, signed, -, packed⟩ := passedOn gateway _ rfl .advanced
  exact ⟨reachable, rfl, _, expr, again, answer_paddedSequence, written, answered, signed, packed⟩

end SimplePki.Gateway
