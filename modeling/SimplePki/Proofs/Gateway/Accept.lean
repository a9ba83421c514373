import SimplePki.Proofs.Gateway.Check
import SimplePki.Proofs.Gateway.Ring
import SimplePki.Proofs.SExpr.Stream

/-!
# What a gateway accepts

A gateway that checks signatures accepts an input exactly if it can be read as a sequence with the
ring as lookup and every signature in it is sound.  The first signature that is not sound names the
fault.  Adding the keys afterwards does not fail, since a registry is installed where there is a
gateway.

## Main definitions

* `Gateway.Reads`: the input is read as a sequence
* `Gateway.answer`: what accepting an input comes to

## Main results

* `Gateway.answer_of_ok`, `Gateway.answer_of_error`: accepting comes down to
  checking
* `Gateway.answer_eq_ok_iff`: accepted is what was read and has passed the check
* `Gateway.Reads.checkable`: what was read can be checked
* `Gateway.accepts_iff_every_signature_is_sound`
-/

namespace SimplePki.Gateway

variable {registry : Registry} {gateway : Gateway} {input : Octets}

/-- The input is an expression that is read as a sequence, with the ring as lookup. -/
def Reads (installed : Installed) (gateway : Gateway) (input : Octets) (expr : SExpr)
    (sequence : Sequence) : Prop :=
  SExpr.read input = .ok expr ∧ Sequence.decode installed gateway.ring.lookup expr = .ok sequence

/-- What accepting an input comes to. -/
def answer (installed : Installed) (gateway : Gateway) (input : Octets) :
    Except GatewayError Accepted := (perform (accept installed input) gateway).1

/-! ### The steps of accepting -/

theorem answer_of_unread {fault : ReadError} (read : SExpr.read input = .error fault) :
    answer (some registry) gateway input = .error (.reading fault) :=
  congrArg Prod.fst (perform_accept_of_unread read)

theorem answer_of_undecoded {expr : SExpr} {error : Error}
    (read : SExpr.read input = .ok expr)
    (decoded : Sequence.decode (some registry) gateway.ring.lookup expr = .error error) :
    answer (some registry) gateway input = .error (.core error) :=
  congrArg Prod.fst (perform_accept_of_undecoded read decoded)

section Reads

variable {expr : SExpr} {sequence : Sequence}
  (reads : Reads (some registry) gateway input expr sequence)

include reads

theorem answer_of_error {error : GatewayError}
    (failed : checkAll (some registry) gateway.policy.verifySignatures 0 none sequence.elements =
      .error error) :
    answer (some registry) gateway input = .error error :=
  congrArg Prod.fst (perform_accept_of_unchecked reads.1 reads.2 failed)

/-- Whatever the ring becomes when the keys are added, the answer stands. -/
theorem answer_of_ok {signed : List Nat}
    (passed : checkAll (some registry) gateway.policy.verifySignatures 0 none sequence.elements =
      .ok signed) :
    answer (some registry) gateway input = .ok ⟨sequence, signed⟩ := by
  obtain ⟨ring, -, accepted⟩ := perform_accept_of_checked reads.1 reads.2 passed
  exact congrArg Prod.fst accepted

end Reads

/-- Every element of a sequence that was read is read from the item at its place, and can be
checked. -/
theorem Reads.checkable {installed : Installed} {gateway : Gateway} {input : Octets} {expr : SExpr}
    {sequence : Sequence} (reads : Reads installed gateway input expr sequence) :
    Checkable installed sequence.elements := by
  obtain ⟨items, -, each⟩ := Sequence.decode_eq_ok reads.2
  have readFrom : ∀ element ∈ sequence.elements, ∃ item, element.ReadFrom installed item := by
    intro element mem
    obtain ⟨place, found⟩ := List.mem_iff_getElem?.mp mem
    obtain ⟨item, -, read⟩ := Sequence.readFrom_of_getElem? each found
    exact ⟨item, read⟩
  constructor
  · intro element mem
    obtain ⟨item, read⟩ := readFrom element mem
    exact read.exists_encode
  · intro signature mem
    obtain ⟨item, read⟩ := readFrom _ mem
    exact read.readable

/-- Certificates are written as the items that they were read from. -/
theorem Reads.encode_certificate {installed : Installed} {gateway : Gateway} {input : Octets}
    {expr : SExpr} {sequence : Sequence} (reads : Reads installed gateway input expr sequence) :
    ∃ items, expr = .list (.text "sequence" :: items) ∧
      ∀ (place : Nat) (cert : Certificate),
        sequence.elements[place]? = some (.certificate cert) →
        ∃ item, items[place]? = some item ∧ cert.encode installed = .ok item := by
  obtain ⟨items, isList, each⟩ := Sequence.decode_eq_ok reads.2
  refine ⟨items, isList, ?_⟩
  intro place cert found
  obtain ⟨item, there, read⟩ := Sequence.readFrom_of_getElem? each found
  exact ⟨item, there, read.encode_certificate⟩

/-- What is read is accepted if every signature is sound, and else refused for the first that is
not. -/
theorem answer_cases (verifies : gateway.policy.verifySignatures = true) {expr : SExpr}
    {sequence : Sequence} (reads : Reads (some registry) gateway input expr sequence) :
    (answer (some registry) gateway input = .ok ⟨sequence, coveredPlaces sequence.elements⟩ ∧
      ∀ index, SoundAt (some registry) sequence.elements index) ∨
    ∃ index error, answer (some registry) gateway input = .error error ∧
      Fault (some registry) sequence.elements index error ∧
      ∀ earlier < index, SoundAt (some registry) sequence.elements earlier := by
  rcases checkAll_cases reads.checkable with ⟨passed, sound⟩ | ⟨index, error, failed, fault, first⟩
  · rw [← verifies] at passed
    exact Or.inl ⟨answer_of_ok reads passed, sound⟩
  · rw [← verifies] at failed
    exact Or.inr ⟨index, error, answer_of_error reads failed, fault, first⟩

/-- Only what is read is accepted. -/
theorem exists_reads_of_answer {accepted : Accepted}
    (h : answer (some registry) gateway input = .ok accepted) :
    ∃ expr sequence, Reads (some registry) gateway input expr sequence := by
  cases read : SExpr.read input with
  | error fault => exact nomatch (answer_of_unread read).symm.trans h
  | ok expr =>
    cases decoded : Sequence.decode (some registry) gateway.ring.lookup expr with
    | error error => exact nomatch (answer_of_undecoded read decoded).symm.trans h
    | ok sequence => exact ⟨expr, sequence, read, decoded⟩

/-- What is accepted was read and has passed the check, and that is all. -/
theorem answer_eq_ok_iff {accepted : Accepted} :
    answer (some registry) gateway input = .ok accepted ↔
      ∃ expr, Reads (some registry) gateway input expr accepted.sequence ∧
        checkAll (some registry) gateway.policy.verifySignatures 0 none
          accepted.sequence.elements = .ok accepted.signed := by
  constructor
  · intro answered
    obtain ⟨expr, sequence, reads⟩ := exists_reads_of_answer answered
    cases checked : checkAll (some registry) gateway.policy.verifySignatures 0 none
        sequence.elements with
    | error error => exact nomatch (answer_of_error reads checked).symm.trans answered
    | ok signed =>
      cases Except.ok.inj ((answer_of_ok reads checked).symm.trans answered)
      exact ⟨expr, reads, checked⟩
  · rintro ⟨expr, reads, checked⟩
    exact answer_of_ok reads checked

/-- What is read is accepted if every signature is sound. -/
theorem answer_of_sound (verifies : gateway.policy.verifySignatures = true) {expr : SExpr}
    {sequence : Sequence} (reads : Reads (some registry) gateway input expr sequence)
    (sound : ∀ index, SoundAt (some registry) sequence.elements index) :
    answer (some registry) gateway input = .ok ⟨sequence, coveredPlaces sequence.elements⟩ := by
  rcases answer_cases verifies reads with ⟨answered, -⟩ | ⟨index, _, -, fault, -⟩
  · exact answered
  · exact absurd (sound index) fault.not_soundAt

/-- What is accepted was read, and every signature in it is sound. -/
theorem exists_reads_of_accepted (verifies : gateway.policy.verifySignatures = true)
    {accepted : Accepted} (answered : answer (some registry) gateway input = .ok accepted) :
    ∃ expr, Reads (some registry) gateway input expr accepted.sequence ∧
      accepted.signed = coveredPlaces accepted.sequence.elements ∧
      ∀ index, SoundAt (some registry) accepted.sequence.elements index := by
  obtain ⟨expr, sequence, reads⟩ := exists_reads_of_answer answered
  rcases answer_cases verifies reads with ⟨known, sound⟩ | ⟨_, _, refused, -⟩
  · cases Except.ok.inj (answered.symm.trans known)
    exact ⟨expr, reads, rfl, sound⟩
  · exact nomatch answered.symm.trans refused

/-! ### Accepted sequences -/

/-- A gateway that checks signatures accepts an input exactly if it is read as a sequence, with the
ring as lookup, whose signatures are all sound.  The accepted sequence is the one that was read; the
signed places are those before a signature, in order, and the signed certificates those at these
places.  If some signature is not sound, the error is the fault of the first such one.  A
certificate is checked as the item that it was read from. -/
theorem accepts_iff_every_signature_is_sound
    (registry : Registry) (gateway : Gateway) (input : Octets)
    (verifies : gateway.policy.verifySignatures = true) :
    ((∃ accepted, answer (some registry) gateway input = .ok accepted) ↔
      ∃ expr sequence, Reads (some registry) gateway input expr sequence ∧
        ∀ index, SoundAt (some registry) sequence.elements index) ∧
    (∀ accepted, answer (some registry) gateway input = .ok accepted →
      (∃ expr, Reads (some registry) gateway input expr accepted.sequence) ∧
      accepted.signed.Pairwise (· < ·) ∧
      (∀ place, place ∈ accepted.signed ↔
        ∃ signature, accepted.sequence.elements[place + 1]? = some (.signature signature)) ∧
      accepted.certificates = coveredCertificates accepted.sequence.elements) ∧
    (∀ expr sequence, Reads (some registry) gateway input expr sequence →
      (∀ error, answer (some registry) gateway input = .error error ↔
        ∃ index, Fault (some registry) sequence.elements index error ∧
          ∀ earlier < index, SoundAt (some registry) sequence.elements earlier) ∧
      ∃ items, expr = .list (.text "sequence" :: items) ∧
        ∀ (place : Nat) (cert : Certificate),
          sequence.elements[place]? = some (.certificate cert) →
          ∃ item, items[place]? = some item ∧ cert.encode (some registry) = .ok item) := by
  refine ⟨⟨?_, ?_⟩, ?_, ?_⟩
  · rintro ⟨accepted, answered⟩
    obtain ⟨expr, sequence, reads⟩ := exists_reads_of_answer answered
    rcases answer_cases verifies reads with ⟨-, sound⟩ | ⟨_, _, refused, -⟩
    · exact ⟨expr, sequence, reads, sound⟩
    · exact nomatch answered.symm.trans refused
  · rintro ⟨expr, sequence, reads, sound⟩
    rcases answer_cases verifies reads with ⟨answered, -⟩ | ⟨index, _, -, fault, -⟩
    · exact ⟨_, answered⟩
    · exact absurd (sound index) fault.not_soundAt
  · intro accepted answered
    obtain ⟨expr, sequence, reads⟩ := exists_reads_of_answer answered
    rcases answer_cases verifies reads with ⟨known, -⟩ | ⟨_, _, refused, -⟩
    · cases Except.ok.inj (answered.symm.trans known)
      exact ⟨⟨expr, reads⟩, pairwise_coveredPlaces _, fun place => mem_coveredPlaces_iff,
        filterMap_coveredPlaces _⟩
    · exact nomatch answered.symm.trans refused
  · intro expr sequence reads
    refine ⟨fun error => ⟨?_, ?_⟩, reads.encode_certificate⟩
    · intro refused
      rcases answer_cases verifies reads with ⟨answered, -⟩ | ⟨index, other, known, fault, first⟩
      · exact nomatch refused.symm.trans answered
      · cases Except.error.inj (refused.symm.trans known)
        exact ⟨index, fault, first⟩
    · rintro ⟨index, fault, first⟩
      rcases answer_cases verifies reads with ⟨-, sound⟩ | ⟨_, other, refused, known, knownFirst⟩
      · exact absurd (sound index) fault.not_soundAt
      · rw [refused, known.first_unique knownFirst fault first]

/-- A key that is no point of its curve. -/
def noPoint : PublicKey := .ofPoint .p256 0 0

/-- A signature in the name of a key that is no point of its curve. -/
def forgery : Signature := ⟨.ofDigest "sha256" (List.replicate 32 0), noPoint, ⟨1, 1⟩⟩

/-- A sequence of the key and the signature: the signature is refused at its index. -/
theorem forgery_is_refused_at_its_index :
    let expr := SExpr.list [.text "sequence", noPoint.encode, forgery.encode]
    Policy.standard.verifySignatures = true ∧ ∃ source,
      answer (some .standard) ⟨.standard, .empty⟩ expr.pack = .error (.notVerified 1 source) := by
  have reads : Reads (some .standard) ⟨.standard, .empty⟩
      (SExpr.list [.text "sequence", noPoint.encode, forgery.encode]).pack
      (.list [.text "sequence", noPoint.encode, forgery.encode])
      ⟨[.publicKey noPoint, .signature forgery]⟩ :=
    ⟨SExpr.read_pack (by decide) (by decide +kernel), by decide +kernel⟩
  have readable : forgery.hash.Readable (some .standard) := ⟨.standard, .sha256, rfl, rfl, rfl⟩
  -- the curve refuses the key before any digest is looked at
  have notSigned : ¬forgery.Signs noPoint.encode := by
    intro signs
    have noTie : forgery.principal.curve.verify forgery.principal.x forgery.principal.y
        forgery.hash.digest forgery.tie = .error (.point .notOnCurve) := by decide +kernel
    exact nomatch signs.tied.symm.trans noTie
  obtain ⟨source, refused⟩ : ∃ source, forgery.verify (some .standard) noPoint.encode =
      .error source := by
    cases checked : forgery.verify (some .standard) noPoint.encode with
    | ok done => exact absurd ((Signature.verify_eq_ok_iff readable).mp checked) notSigned
    | error source => exact ⟨source, rfl⟩
  have first : ∀ earlier < 1, SoundAt (some .standard)
      [.publicKey noPoint, .signature forgery] earlier := by
    intro earlier before
    cases Nat.lt_one_iff.mp before
    exact soundAt_of_ne rfl fun _ same => nomatch same
  obtain ⟨-, -, failures⟩ := accepts_iff_every_signature_is_sound .standard ⟨.standard, .empty⟩
    (SExpr.list [.text "sequence", noPoint.encode, forgery.encode]).pack rfl
  refine ⟨rfl, source, ?_⟩
  exact ((failures _ _ reads).1 _).mpr
    ⟨1, .notVerified rfl rfl rfl notSigned refused, first⟩

end SimplePki.Gateway
