import SimplePki.Proofs.SExpr.Nesting
import SimplePki.Proofs.Sequence.Reading

/-!
# Sequences that are read again

An element that was read, and is written, can be read again without asking anybody for a key: its
certificates are the same, and its signatures and keys are those that were read, less what is not
written of them.  It is also nested no deeper than what it was read from, or not deep at all.

The signers of a sequence are the keys that were written in it, or were found for a hash.  Those in
the sequence itself remember no more than what they were asked before, and so all signers are
truthful if the keys that are found elsewhere are.

## Main definitions

* `Element.bare`: the element without what is not written
* `Sequence.Reading.Truthful`: keys and signers that are truthful so far

## Main results

* `Element.ReadFrom.decode_encode`: what was read is read again from what it is written as
* `Sequence.decode_append`, `Sequence.decode_of_forall₂`: items that are read whatever keys are
  found, behind a sequence and as a sequence
* `Sequence.exists_payloads`: what was read can be written, and read again
* `Sequence.truthful_of_decode`: signers are truthful where the keys that are found are
-/

namespace SimplePki

variable {installed : Installed}

/-! ### Elements -/

namespace Element

/-- The element without what is not written. -/
def bare : Element → Element
  | certificate cert => certificate cert
  | signature signed => signature signed.bare
  | publicKey key => publicKey key.bare

theorem encode_bare (element : Element) :
    element.bare.encode installed = element.encode installed := by
  cases element with
  | certificate cert => rfl
  | signature signed => rfl
  | publicKey key => rfl

theorem decode_certificate {expr : SExpr} {cert : Certificate}
    (read : Certificate.decode installed expr = .ok cert) (lookup : KeyLookup) :
    decode installed lookup expr = .ok (certificate cert) := by
  obtain ⟨terms, rfl⟩ := Certificate.exists_terms_of_decode read
  have isCert : (SExpr.list (.text "cert" :: terms)).isListOf "cert" = true :=
    SExpr.isListOf_list_text "cert" "cert" terms
  rw [decode, if_pos isCert, read]
  rfl

theorem decode_signature_encode {signed : Signature} (readable : signed.hash.Readable installed)
    (paired : signed.hash.algorithm = signed.principal.curve.digestAlgorithm.name)
    (lookup : KeyLookup) :
    decode installed lookup signed.encode = .ok (signature signed.bare) := by
  have read := Signature.decode_encode readable paired lookup
  rw [Signature.encode, Signature.encodeWith] at read ⊢
  rw [decode_list_signature, read]
  rfl

/-- The hash in a signature that was read is under the algorithm of its signer's curve. -/
theorem ReadFrom.paired {expr : SExpr} {signed : Signature}
    (h : (signature signed).ReadFrom installed expr) :
    signed.hash.algorithm = signed.principal.curve.digestAlgorithm.name := by
  rcases h.cases with ⟨_, other, -⟩ | ⟨lookup, read, same, decoded⟩ | ⟨_, other⟩
  · cases other
  · obtain ⟨_, _, _, _, -, -, -, paired⟩ := Signature.decode_eq_ok decoded
    rw [signature.inj same]
    exact paired
  · cases other

/-- What was read is read again from what it is written as, whatever keys are found. -/
theorem ReadFrom.decode_encode {expr payload : SExpr} {element : Element}
    (h : element.ReadFrom installed expr) (written : element.encode installed = .ok payload)
    (lookup : KeyLookup) : decode installed lookup payload = .ok element.bare := by
  cases element with
  | certificate cert =>
    have same := Except.ok.inj (written.symm.trans h.encode_certificate)
    rcases h.cases with ⟨read, known, decoded⟩ | ⟨_, _, other, -⟩ | ⟨_, other⟩
    · cases known
      rw [same]
      exact decode_certificate decoded lookup
    · cases other
    · cases other
  | signature signed =>
    cases written
    exact decode_signature_encode h.readable h.paired lookup
  | publicKey key =>
    cases written
    exact decode_publicKey key.decode_encode lookup

/-! ### Nesting -/

theorem nesting_publicKey_encode (key : PublicKey) : key.encode.nesting = 3 := rfl

theorem nesting_signature_encode (signed : Signature) : signed.encode.nesting = 4 := rfl

/-- What was read is written no deeper than a signature is, or than what it was read from. -/
theorem ReadFrom.nesting_le {expr payload : SExpr} {element : Element}
    (h : element.ReadFrom installed expr) (written : element.encode installed = .ok payload) :
    payload.nesting ≤ max 4 expr.nesting := by
  cases element with
  | certificate cert =>
    rw [Except.ok.inj (written.symm.trans h.encode_certificate)]
    exact Nat.le_max_right 4 _
  | signature signed =>
    cases written
    rw [nesting_signature_encode]
    exact Nat.le_max_left 4 _
  | publicKey key =>
    cases written
    rw [nesting_publicKey_encode]
    omega

end Element

/-! ### Writing sequences -/

namespace Sequence

theorem encode_of_forall₂ {elements : List Element} {payloads : List SExpr}
    (h : List.Forall₂ (fun element payload => Element.encode installed element = .ok payload)
      elements payloads) :
    encode installed ⟨elements⟩ = .ok (.list (.text "sequence" :: payloads)) := by
  have each : elements.mapM (Element.encode installed) = .ok payloads := by
    induction h with
    | nil => rfl
    | cons written _ ih =>
      rw [List.mapM_cons, written, ok_bind, ih, ok_bind]
      rfl
  rw [encode, each, ok_bind]
  rfl

theorem encode_map_bare (elements : List Element) :
    encode installed ⟨elements.map Element.bare⟩ = encode installed ⟨elements⟩ := by
  have alike : Element.encode installed ∘ Element.bare = Element.encode installed :=
    funext Element.encode_bare
  rw [encode, encode, List.mapM_map, alike]

/-- The elements that were read can be written, read again, and are nested within any limit that
their items and signatures are nested within. -/
theorem exists_payloads {items : List SExpr} {elements : List Element}
    (h : List.Forall₂ (fun item element => Element.ReadFrom installed item element) items elements)
    {limit : Nat} (deep : 4 ≤ limit) (within : ∀ item ∈ items, item.nesting ≤ limit) :
    ∃ payloads,
      List.Forall₂ (fun element payload => Element.encode installed element = .ok payload)
        elements payloads ∧
      List.Forall₂
        (fun payload element => ∀ lookup, Element.decode installed lookup payload = .ok element)
        payloads (elements.map Element.bare) ∧
      ∀ payload ∈ payloads, payload.nesting ≤ limit := by
  induction h with
  | nil => exact ⟨[], .nil, .nil, fun _ mem => absurd mem List.not_mem_nil⟩
  | cons read _ ih =>
    obtain ⟨first, others⟩ := List.forall_mem_cons.mp within
    obtain ⟨payload, written⟩ := read.exists_encode
    obtain ⟨payloads, each, again, shallow⟩ := ih others
    have nested : payload.nesting ≤ limit :=
      Nat.le_trans (read.nesting_le written) (Nat.max_le.mpr ⟨deep, first⟩)
    exact ⟨payload :: payloads, .cons written each, .cons (read.decode_encode written) again,
      List.forall_mem_cons.mpr ⟨nested, shallow⟩⟩

/-! ### Reading sequences -/

theorem Reading.step_of_ok {item : SExpr} {element : Element}
    (read : ∀ lookup, Element.decode installed lookup item = .ok element) (lookup : KeyLookup)
    (reading : Reading) :
    ∃ after, Reading.step installed lookup reading item = .ok after ∧
      after.elements = element :: reading.elements := by
  unfold Reading.step
  split
  rw [read, ok_bind]
  exact ⟨_, rfl, rfl⟩

theorem foldlM_step_of_forall₂ {items : List SExpr} {elements : List Element}
    (h : List.Forall₂
      (fun item element => ∀ lookup, Element.decode installed lookup item = .ok element)
      items elements) (lookup : KeyLookup) (reading : Reading) :
    ∃ after, items.foldlM (Reading.step installed lookup) reading = .ok after ∧
      after.elements = elements.reverse ++ reading.elements := by
  -- by induction on the items; whatever a step finds for a hash, it reads the same element
  induction h generalizing reading with
  | nil => exact ⟨reading, rfl, rfl⟩
  | cons read _ ih =>
    obtain ⟨between, step, front⟩ := Reading.step_of_ok read lookup reading
    obtain ⟨after, others, behind⟩ := ih between
    refine ⟨after, ?_, ?_⟩
    · rw [List.foldlM_cons, step, ok_bind, others]
    · rw [behind, front, List.reverse_cons, List.append_assoc, List.singleton_append]

/-- Items that can be read, whatever keys are found, are read behind a sequence. -/
theorem decode_append {lookup : KeyLookup} {front items : List SExpr} {sequence : Sequence}
    {elements : List Element}
    (frontRead : decode installed lookup (.list (.text "sequence" :: front)) = .ok sequence)
    (h : List.Forall₂
      (fun item element => ∀ lookup, Element.decode installed lookup item = .ok element)
      items elements) :
    decode installed lookup (.list (.text "sequence" :: (front ++ items))) =
      .ok ⟨sequence.elements ++ elements⟩ := by
  rw [decode_list] at frontRead
  obtain ⟨reading, folded, rfl⟩ := map_eq_ok_iff.mp frontRead
  obtain ⟨after, read, inFront⟩ := foldlM_step_of_forall₂ h lookup reading
  rw [decode_list, List.foldlM_append, folded, ok_bind, read, Except.map, inFront,
    List.reverse_append, List.reverse_reverse]

/-- Items that can be read, whatever keys are found, are read as a sequence. -/
theorem decode_of_forall₂ {items : List SExpr} {elements : List Element}
    (h : List.Forall₂
      (fun item element => ∀ lookup, Element.decode installed lookup item = .ok element)
      items elements) (lookup : KeyLookup) :
    decode installed lookup (.list (.text "sequence" :: items)) = .ok ⟨elements⟩ :=
  have nothing : decode installed lookup (.list [.text "sequence"]) = .ok ⟨[]⟩ := by
    rw [decode_list]
    rfl
  decode_append nothing h

end Sequence

/-! ### Signers -/

theorem Signature.truthful_of_decode {lookup : KeyLookup}
    (truth : ∀ wanted key, lookup wanted = some key → key.Truthful installed) {expr : SExpr}
    {signed : Signature} (h : Signature.decode installed lookup expr = .ok signed) :
    signed.principal.Truthful installed := by
  obtain ⟨_, _, _, _, -, names, -, -⟩ := Signature.decode_eq_ok h
  generalize signed.principal = principal at names
  cases names with
  | byKey curve x y => exact PublicKey.truthful_ofPoint curve x.toNat y.toNat
  | byHash places found => exact truth _ _ found

namespace Sequence

/-- The keys passed are those that were read, and the signers that were read are truthful. -/
structure Reading.Truthful (installed : Installed) (reading : Reading) : Prop where
  faithful : reading.Faithful installed
  signers : ∀ signed, Element.signature signed ∈ reading.elements →
    signed.principal.Truthful installed

/-- Reading one more element leaves what was read truthful. -/
theorem Reading.Truthful.step {lookup : KeyLookup}
    (truth : ∀ wanted key, lookup wanted = some key → key.Truthful installed)
    {reading after : Reading} {item : SExpr} (before : reading.Truthful installed)
    (h : Reading.step installed lookup reading item = .ok after) : after.Truthful installed := by
  refine ⟨before.faithful.step h, fun signed mem => ?_⟩
  cases asked : Signature.unresolved? installed item with
  | some wanted =>
    obtain ⟨signature, front, found⟩ := step_eq_ok_of_unresolved asked h
    rw [front] at mem
    rcases List.mem_cons.mp mem with same | old
    · -- the signer is one of the keys passed or was found elsewhere
      rw [Element.signature.inj same]
      rcases Option.or_eq_some_iff.mp found with here | ⟨-, elsewhere⟩
      · exact (truthful_resolve wanted before.faithful.truthful).1 _ here
      · exact truth wanted _ elsewhere
    · exact before.signers signed old
  | none =>
    rw [step_of_resolved asked] at h
    obtain ⟨element, read, rfl⟩ := map_eq_ok_iff.mp h
    have nowhere (wanted : HashValue) (key : PublicKey)
        (found : KeyLookup.none wanted = some key) : key.Truthful installed := nomatch found
    rcases List.mem_cons.mp mem with rfl | old
    · rcases Element.decode_cases read with ⟨_, other, -⟩ | ⟨_, same, decoded⟩ | ⟨_, other, -⟩
      · exact nomatch other
      · rw [Element.signature.inj same]
        exact Signature.truthful_of_decode nowhere decoded
      · exact nomatch other
    · exact before.signers signed old

/-- The signers of a sequence are truthful where the keys that are found are. -/
theorem truthful_of_decode {lookup : KeyLookup}
    (truth : ∀ wanted key, lookup wanted = some key → key.Truthful installed) {expr : SExpr}
    {sequence : Sequence} (h : decode installed lookup expr = .ok sequence) :
    ∀ signed, Element.signature signed ∈ sequence.elements →
      signed.principal.Truthful installed := by
  obtain ⟨items, rfl⟩ := exists_items_of_decode h
  rw [decode_list] at h
  obtain ⟨reading, folded, rfl⟩ := map_eq_ok_iff.mp h
  have start : Reading.Truthful installed .start :=
    ⟨Reading.faithful_start, fun _ mem => absurd mem List.not_mem_nil⟩
  intro signed mem
  exact (foldlM_step_induction (Reading.Truthful.step truth) start folded).signers signed
    (List.mem_reverse.mp mem)

end Sequence

end SimplePki
