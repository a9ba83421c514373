import SimplePki.Gateway
import SimplePki.Proofs.Sequence

/-!
# Checking the signatures of a sequence

A signature has to stand behind an element, to vouch for it, and to be by the issuer if the element
is a certificate.  The signatures of a sequence are checked in order, so that the check succeeds if
every signature is sound, and fails with the fault of the first one that is not.

## Main definitions

* `Gateway.SignedByIssuer`, `Gateway.SoundAt`: what is asked of a signature
* `Gateway.Fault`: what is wrong with the signature at a place
* `Gateway.coveredPlaces`, `Gateway.coveredCertificates`: what the signatures of a sequence cover

## Main results

* `Gateway.check_cases`: the outcomes of checking one signature
* `Gateway.checkAll_cases`: the outcomes of checking all
* `Gateway.mem_coveredPlaces_iff`, `Gateway.pairwise_coveredPlaces`,
  `Gateway.filterMap_coveredPlaces`: the covered places in terms of the sequence
-/

namespace SimplePki.Gateway

variable {installed : Installed} {elements : List Element}

/-! ### Sound signatures -/

/-- If the element is a certificate of some issuer, the signer is that issuer. -/
def SignedByIssuer (installed : Installed) (covered : Element) (signature : Signature) : Prop :=
  ∀ cert issuer, covered = .certificate cert → cert.issuer.principal = some issuer →
    issuer.sameAs installed (.publicKey signature.principal) = true

/-- The signature covers the element at a place: it vouches for the expression of the element, and
for a certificate it is by the issuer. -/
def Covers (installed : Installed) (elements : List Element) (place : Nat)
    (signature : Signature) : Prop :=
  ∃ covered payload, elements[place]? = some covered ∧ covered.encode installed = .ok payload ∧
    signature.Signs payload ∧ SignedByIssuer installed covered signature

/-- If there is a signature at the index, it covers the element before it. -/
def SoundAt (installed : Installed) (elements : List Element) (index : Nat) : Prop :=
  ∀ signature, elements[index]? = some (.signature signature) →
    ∃ place, index = place + 1 ∧ Covers installed elements place signature

/-- What is wrong with the signature at an index: there is nothing before it, it does not vouch for
what is before it, or it is by someone else than the issuer. -/
inductive Fault (installed : Installed) (elements : List Element) : Nat → GatewayError → Prop where
  | nothingSigned {signature : Signature} (there : elements[0]? = some (.signature signature)) :
    Fault installed elements 0 (.nothingSigned 0)
  | notVerified {place : Nat} {covered : Element} {signature : Signature} {payload : SExpr}
    {source : Error} (there : elements[place + 1]? = some (.signature signature))
    (before : elements[place]? = some covered) (written : covered.encode installed = .ok payload)
    (notSigned : ¬signature.Signs payload)
    (refused : signature.verify installed payload = .error source) :
    Fault installed elements (place + 1) (.notVerified (place + 1) source)
  | notByIssuer {place : Nat} {covered : Element} {signature : Signature} {payload : SExpr}
    (there : elements[place + 1]? = some (.signature signature))
    (before : elements[place]? = some covered) (written : covered.encode installed = .ok payload)
    (signs : signature.Signs payload) (other : ¬SignedByIssuer installed covered signature) :
    Fault installed elements (place + 1) (.notByIssuer place)

/-- What is said of the signature and of the element at two places is said of the same ones. -/
theorem same_parts {place : Nat} {signature other : Signature} {covered before : Element}
    {payload written : SExpr} (signed : elements[place + 1]? = some (.signature signature))
    (otherSigned : elements[place + 1]? = some (.signature other))
    (found : elements[place]? = some covered) (otherFound : elements[place]? = some before)
    (encoded : covered.encode installed = .ok payload)
    (otherEncoded : before.encode installed = .ok written) :
    signature = other ∧ covered = before ∧ payload = written := by
  have sameElement := Option.some.inj (found.symm.trans otherFound)
  subst sameElement
  have sameSignature := Option.some.inj (signed.symm.trans otherSigned)
  exact ⟨Element.signature.inj sameSignature, rfl,
    Except.ok.inj (encoded.symm.trans otherEncoded)⟩

/-- A signature with a fault is not sound. -/
theorem Fault.not_soundAt {index : Nat} {error : GatewayError}
    (fault : Fault installed elements index error) : ¬SoundAt installed elements index := by
  intro sound
  cases fault with
  | nothingSigned there =>
    obtain ⟨place, same, -⟩ := sound _ there
    exact absurd same.symm (Nat.succ_ne_zero place)
  | notVerified there before written notSigned _ =>
    obtain ⟨place, same, covered, payload, found, encoded, signs, -⟩ := sound _ there
    cases Nat.succ.inj same
    obtain ⟨-, -, rfl⟩ := same_parts there there found before encoded written
    exact notSigned signs
  | notByIssuer there before written _ other =>
    obtain ⟨place, same, covered, payload, found, encoded, -, byIssuer⟩ := sound _ there
    cases Nat.succ.inj same
    obtain ⟨-, rfl, -⟩ := same_parts there there found before encoded written
    exact other byIssuer

/-- A signature has one fault at most. -/
theorem Fault.unique {index : Nat} {error other : GatewayError}
    (fault : Fault installed elements index error)
    (same : Fault installed elements index other) : error = other := by
  cases fault with
  | nothingSigned _ =>
    cases same with
    | nothingSigned _ => rfl
  | notVerified there before written notSigned refused =>
    cases same with
    | notVerified there' before' written' _ refused' =>
      obtain ⟨rfl, -, rfl⟩ := same_parts there there' before before' written written'
      rw [Except.error.inj (refused.symm.trans refused')]
    | notByIssuer there' before' written' signs _ =>
      obtain ⟨rfl, -, rfl⟩ := same_parts there there' before before' written written'
      exact absurd signs notSigned
  | notByIssuer there before written signs _ =>
    cases same with
    | notVerified there' before' written' notSigned _ =>
      obtain ⟨rfl, -, rfl⟩ := same_parts there there' before before' written written'
      exact absurd signs notSigned
    | notByIssuer _ _ _ _ _ => rfl

/-- There is one first fault at most. -/
theorem Fault.first_unique {index place : Nat} {error other : GatewayError}
    (fault : Fault installed elements index error)
    (first : ∀ earlier < index, SoundAt installed elements earlier)
    (same : Fault installed elements place other)
    (sameFirst : ∀ earlier < place, SoundAt installed elements earlier) : error = other := by
  rcases Nat.lt_trichotomy index place with before | rfl | behind
  · exact absurd (sameFirst index before) fault.not_soundAt
  · exact fault.unique same
  · exact absurd (first place behind) same.not_soundAt

/-! ### Checking one signature -/

theorem isByIssuer_iff {cert : Certificate} {signature : Signature} :
    isByIssuer installed cert signature = true ↔
      SignedByIssuer installed (.certificate cert) signature := by
  unfold isByIssuer
  constructor
  · rintro checked _ issuer same named
    cases same
    rw [named] at checked
    exact checked
  · intro byIssuer
    cases named : cert.issuer.principal with
    | none => rfl
    | some issuer => exact byIssuer cert issuer rfl named

/-- Only certificates have issuers. -/
theorem signedByIssuer_of_certificate?_eq_none {covered : Element}
    (h : covered.certificate? = none) (signature : Signature) :
    SignedByIssuer installed covered signature := by
  rintro cert issuer rfl -
  exact nomatch h

/-- What checking a signature comes to once it vouches for its payload. -/
theorem check_of_signs {index : Nat} {covered : Element} {signature : Signature} {payload : SExpr}
    (written : covered.encode installed = .ok payload)
    (checked : signature.verify installed payload = .ok ()) :
    (check installed index covered signature = .ok () ∧
      SignedByIssuer installed covered signature) ∨
    (check installed index covered signature = .error (.notByIssuer (index - 1)) ∧
      ¬SignedByIssuer installed covered signature) := by
  unfold check
  rw [written]
  dsimp only
  rw [checked]
  cases covered with
  | certificate cert =>
    rw [← isByIssuer_iff]
    dsimp only
    cases isByIssuer installed cert signature with
    | true => exact Or.inl ⟨rfl, rfl⟩
    | false => exact Or.inr ⟨rfl, Bool.false_ne_true⟩
  | signature other => exact Or.inl ⟨rfl, signedByIssuer_of_certificate?_eq_none rfl _⟩
  | publicKey key => exact Or.inl ⟨rfl, signedByIssuer_of_certificate?_eq_none rfl _⟩

theorem check_of_refused {index : Nat} {covered : Element} {signature : Signature} {payload : SExpr}
    {source : Error} (written : covered.encode installed = .ok payload)
    (refused : signature.verify installed payload = .error source) :
    check installed index covered signature = .error (.notVerified index source) := by
  unfold check
  rw [written]
  dsimp only
  rw [refused]
  rfl

/-- What has to be known of the elements of a sequence for their signatures to be checked; it holds
of all that was read. -/
structure Checkable (installed : Installed) (elements : List Element) : Prop where
  written : ∀ element ∈ elements, ∃ payload, element.encode installed = .ok payload
  readable : ∀ signature, Element.signature signature ∈ elements →
    signature.hash.Readable installed

/-- Checking the signature behind a place succeeds if the signature covers the place, and fails with
its fault otherwise. -/
theorem check_cases (checkable : Checkable installed elements) {place : Nat} {covered : Element}
    {signature : Signature} (before : elements[place]? = some covered)
    (there : elements[place + 1]? = some (.signature signature)) :
    (check installed (place + 1) covered signature = .ok () ∧
      Covers installed elements place signature) ∨
    ∃ error, check installed (place + 1) covered signature = .error error ∧
      Fault installed elements (place + 1) error := by
  obtain ⟨payload, written⟩ := checkable.written covered (List.mem_of_getElem? before)
  have readable := checkable.readable signature (List.mem_of_getElem? there)
  cases checked : signature.verify installed payload with
  | error source =>
    have notSigned : ¬signature.Signs payload := by
      rw [← Signature.verify_eq_ok_iff readable, checked]
      exact fun same => nomatch same
    exact Or.inr ⟨_, check_of_refused written checked,
      .notVerified there before written notSigned checked⟩
  | ok done =>
    have signs := (Signature.verify_eq_ok_iff readable).mp checked
    rcases check_of_signs written checked with ⟨passed, byIssuer⟩ | ⟨failed, other⟩
    · exact Or.inl ⟨passed, covered, payload, before, written, signs, byIssuer⟩
    · exact Or.inr ⟨_, failed, .notByIssuer there before written signs other⟩

/-! ### Checking all signatures -/

/-- The places of the elements that are covered by the signatures in a list, behind the element at
the given place. -/
def placesBehind (place : Nat) : List Element → List Nat
  | [] => []
  | .signature _ :: rest => place :: placesBehind (place + 1) rest
  | _ :: rest => placesBehind (place + 1) rest

/-- The places of the elements that stand before a signature. -/
def coveredPlaces (elements : List Element) : List Nat := placesBehind 0 elements.tail

/-- The element behind a place is the first of the rest, and then the place before that. -/
theorem split_of_next {front rest : List Element} {covered next : Element}
    (split : elements = front ++ covered :: next :: rest) :
    elements = (front ++ [covered]) ++ next :: rest := by
  rw [split, List.append_assoc, List.singleton_append]

/-- An index without a signature is sound. -/
theorem soundAt_of_ne {index : Nat} {element : Element} (there : elements[index]? = some element)
    (h : ∀ signature, element ≠ .signature signature) : SoundAt installed elements index := by
  intro signature found
  exact absurd (Option.some.inj (there.symm.trans found)) (h signature)

/-- The outcomes of checking the signatures behind a place: all of them are sound, or there is a
first one with a fault. -/
inductive Checked (installed : Installed) (elements : List Element) (place : Nat)
    (places : List Nat) : Except GatewayError (List Nat) → Prop where
  | passed (sound : ∀ index, place < index → SoundAt installed elements index) :
    Checked installed elements place places (.ok places)
  | failed {index : Nat} {error : GatewayError} (beyond : place < index)
    (fault : Fault installed elements index error)
    (first : ∀ earlier, place < earlier → earlier < index → SoundAt installed elements earlier) :
    Checked installed elements place places (.error error)

/-- An index behind a place is the next one, or behind that. -/
theorem soundAt_of_next {place index : Nat} (sound : SoundAt installed elements (place + 1))
    (later : place < index) (beyond : place + 1 < index → SoundAt installed elements index) :
    SoundAt installed elements index := by
  rcases Nat.lt_or_eq_of_le (Nat.succ_le_of_lt later) with further | same
  · exact beyond further
  · exact same ▸ sound

/-- A sound index adds to what was checked behind it. -/
theorem Checked.of_next {place : Nat} {places : List Nat}
    {result : Except GatewayError (List Nat)} (sound : SoundAt installed elements (place + 1))
    (behind : Checked installed elements (place + 1) places result) :
    Checked installed elements place places result := by
  cases behind with
  | passed beyond =>
    apply Checked.passed
    intro index later
    exact soundAt_of_next sound later (beyond index)
  | failed beyond fault first =>
    apply Checked.failed (Nat.lt_of_succ_lt beyond) fault
    intro earlier later before
    exact soundAt_of_next sound later fun further => first earlier further before

/-- A place that is put in front of those found is put in front of those expected. -/
theorem Checked.cons {place : Nat} {places : List Nat} {result : Except GatewayError (List Nat)}
    (checked : Checked installed elements place places result) (added : Nat) :
    Checked installed elements place (added :: places) (result.map (added :: ·)) := by
  cases checked with
  | passed sound => exact .passed sound
  | failed beyond fault first => exact .failed beyond fault first

theorem checkAll_signature_of_ok {index : Nat} {covered : Element} {signature : Signature}
    (passed : check installed index covered signature = .ok ()) (rest : List Element) :
    checkAll installed true index (some covered) (.signature signature :: rest) =
      (checkAll installed true (index + 1) (some (.signature signature)) rest).map
        ((index - 1) :: ·) := by
  rw [checkAll, if_pos rfl, passed, ok_bind]
  cases checkAll installed true (index + 1) (some (.signature signature)) rest <;> rfl

theorem checkAll_signature_of_error {index : Nat} {covered : Element} {signature : Signature}
    {error : GatewayError} (failed : check installed index covered signature = .error error)
    (rest : List Element) :
    checkAll installed true index (some covered) (.signature signature :: rest) =
      .error error := by
  rw [checkAll, if_pos rfl, failed, error_bind]

/-- The signatures in the rest of a sequence are checked: by induction on the rest, with the element
before it the last of those passed. -/
theorem checked_checkAll (checkable : Checkable installed elements) {front rest : List Element}
    {covered : Element} (split : elements = front ++ covered :: rest) :
    Checked installed elements front.length (placesBehind front.length rest)
      (checkAll installed true (front.length + 1) (some covered) rest) := by
  induction rest generalizing front covered with
  | nil =>
    apply Checked.passed
    intro index beyond signature found
    have outside : elements.length ≤ index := by
      rw [split, List.length_append, List.length_singleton]
      exact beyond
    rw [List.getElem?_eq_none outside] at found
    exact nomatch found
  | cons next rest ih =>
    -- the next element is the one before the others, and counted among those passed
    have before := Sequence.getElem?_of_split split
    have there := Sequence.getElem?_of_split (split_of_next split)
    have behind := ih (split_of_next split)
    rw [List.length_append, List.length_singleton] at there behind
    cases next with
    | signature signature =>
      -- a signature that is sound lets the check go on, any other ends it here
      rcases check_cases checkable before there with ⟨passed, covers⟩ | ⟨error, failed, fault⟩
      · have sound : SoundAt installed elements (front.length + 1) := by
          intro other found
          cases Option.some.inj (there.symm.trans found)
          exact ⟨front.length, rfl, covers⟩
        rw [checkAll_signature_of_ok passed]
        exact (behind.of_next sound).cons front.length
      · rw [checkAll_signature_of_error failed]
        apply Checked.failed (Nat.lt_succ_self _) fault
        intro earlier later before
        omega
    | certificate cert => exact behind.of_next (soundAt_of_ne there fun _ same => nomatch same)
    | publicKey key => exact behind.of_next (soundAt_of_ne there fun _ same => nomatch same)

/-- With a first element that is no signature, nothing is asked of the first index. -/
theorem Checked.cases_of_soundAt_zero {places : List Nat} {result : Except GatewayError (List Nat)}
    (sound : SoundAt installed elements 0) (checked : Checked installed elements 0 places result) :
    (result = .ok places ∧ ∀ index, SoundAt installed elements index) ∨
    ∃ index error, result = .error error ∧ Fault installed elements index error ∧
      ∀ earlier < index, SoundAt installed elements earlier := by
  cases checked with
  | passed beyond =>
    left
    refine ⟨rfl, fun index => ?_⟩
    rcases Nat.eq_zero_or_pos index with rfl | positive
    · exact sound
    · exact beyond index positive
  | failed beyond fault first =>
    right
    refine ⟨_, _, rfl, fault, fun earlier before => ?_⟩
    rcases Nat.eq_zero_or_pos earlier with rfl | positive
    · exact sound
    · exact first earlier positive before

/-- The outcomes of checking the signatures of a whole sequence. -/
theorem checkAll_cases (checkable : Checkable installed elements) :
    (checkAll installed true 0 none elements = .ok (coveredPlaces elements) ∧
      ∀ index, SoundAt installed elements index) ∨
    ∃ index error, checkAll installed true 0 none elements = .error error ∧
      Fault installed elements index error ∧
      ∀ earlier < index, SoundAt installed elements earlier := by
  cases elements with
  | nil => exact Or.inl ⟨rfl, fun index signature found => (nomatch found)⟩
  | cons first rest =>
    -- the first element has none before it, and the others have one
    have checked := checked_checkAll checkable (List.nil_append (first :: rest)).symm
    cases first with
    | signature signature =>
      exact Or.inr ⟨0, _, rfl, .nothingSigned rfl, fun earlier before =>
        absurd before (Nat.not_lt_zero earlier)⟩
    | certificate cert =>
      exact checked.cases_of_soundAt_zero (soundAt_of_ne rfl fun _ same => nomatch same)
    | publicKey key =>
      exact checked.cases_of_soundAt_zero (soundAt_of_ne rfl fun _ same => nomatch same)

/-! ### What is covered -/

/-- Whether an element is a signature. -/
def isSignature : Element → Bool
  | .signature _ => true
  | _ => false

/-- The certificates that stand before a signature, in order. -/
def coveredCertificates (elements : List Element) : List Certificate :=
  (elements.zip elements.tail).filterMap fun (covered, next) =>
    if isSignature next then covered.certificate? else none

theorem mem_placesBehind_iff {place index : Nat} {rest : List Element} :
    index ∈ placesBehind place rest ↔
      ∃ offset signature, index = place + offset ∧ rest[offset]? = some (.signature signature) := by
  induction rest generalizing place with
  | nil => simp [placesBehind]
  | cons next rest ih =>
    -- a signature in the rest is the first of it or behind that
    have later : (∃ offset signature, index = place + offset ∧
          (next :: rest)[offset]? = some (.signature signature)) ↔
        (∃ signature, index = place ∧ next = .signature signature) ∨
          index ∈ placesBehind (place + 1) rest := by
      rw [ih]
      constructor
      · rintro ⟨offset, signature, rfl, found⟩
        cases offset with
        | zero => exact Or.inl ⟨signature, rfl, Option.some.inj found⟩
        | succ offset => exact Or.inr ⟨offset, signature, by omega, found⟩
      · rintro (⟨signature, rfl, rfl⟩ | ⟨offset, signature, rfl, found⟩)
        · exact ⟨0, signature, rfl, rfl⟩
        · exact ⟨offset + 1, signature, by omega, found⟩
    rw [later]
    cases next with
    | signature signature => simp [placesBehind]
    | certificate cert => simp [placesBehind]
    | publicKey key => simp [placesBehind]

/-- The covered places are those before a signature. -/
theorem mem_coveredPlaces_iff {place : Nat} :
    place ∈ coveredPlaces elements ↔
      ∃ signature, elements[place + 1]? = some (.signature signature) := by
  rw [coveredPlaces, mem_placesBehind_iff]
  constructor
  · rintro ⟨offset, signature, rfl, found⟩
    rw [List.getElem?_tail] at found
    exact ⟨signature, by rw [Nat.zero_add]; exact found⟩
  · rintro ⟨signature, found⟩
    refine ⟨place, signature, (Nat.zero_add place).symm, ?_⟩
    rw [List.getElem?_tail]
    exact found

theorem pairwise_placesBehind (place : Nat) (rest : List Element) :
    (placesBehind place rest).Pairwise (· < ·) := by
  induction rest generalizing place with
  | nil => exact .nil
  | cons next rest ih =>
    cases next with
    | signature signature =>
      -- the places found behind this one count from it
      apply List.Pairwise.cons _ (ih (place + 1))
      intro later mem
      obtain ⟨offset, _, rfl, -⟩ := mem_placesBehind_iff.mp mem
      omega
    | certificate cert => exact ih (place + 1)
    | publicKey key => exact ih (place + 1)

/-- The covered places are found in order. -/
theorem pairwise_coveredPlaces (elements : List Element) :
    (coveredPlaces elements).Pairwise (· < ·) := pairwise_placesBehind 0 elements.tail

theorem filterMap_placesBehind {front rest : List Element} {covered : Element}
    (split : elements = front ++ covered :: rest) :
    (placesBehind front.length rest).filterMap
        (fun place => elements[place]?.bind Element.certificate?) =
      ((covered :: rest).zip rest).filterMap fun (covered, next) =>
        if isSignature next then covered.certificate? else none := by
  induction rest generalizing front covered with
  | nil => rfl
  | cons next rest ih =>
    have before := Sequence.getElem?_of_split split
    have behind := ih (split_of_next split)
    rw [List.length_append, List.length_singleton] at behind
    rw [List.zip_cons_cons, List.filterMap_cons]
    cases next with
    | signature signature =>
      rw [placesBehind, List.filterMap_cons, before, behind]
      rfl
    | certificate cert => exact behind
    | publicKey key => exact behind

/-- The certificates at the covered places are those that stand before a signature. -/
theorem filterMap_coveredPlaces (elements : List Element) :
    (coveredPlaces elements).filterMap
        (fun place => elements[place]?.bind Element.certificate?) =
      coveredCertificates elements := by
  cases elements with
  | nil => rfl
  | cons first rest => exact filterMap_placesBehind (List.nil_append (first :: rest)).symm

end SimplePki.Gateway
