import SimplePki.Proofs.Key.Truthful
import SimplePki.Proofs.Sequence
import SimplePki.Proofs.Signature.Codec

/-!
# How a sequence is read

The items of a sequence are read one after the other, and the keys among them are kept.  A signature
whose signer is written as a hash is by the first of the keys kept that bears the hash, or else by
the key that is found elsewhere.

Keys remember the hashes that they were asked for, and so the keys that are kept are not the ones
that were read.  But they remember nothing that would not be computed: what a hash stands for does
not depend on what was asked before.

## Main definitions

* `PublicKey.bears`: a hash is the true hash of a key
* `Sequence.Reading.Faithful`: the keys kept are those that were read, and remember the truth

## Main results

* `Signature.unresolved?_eq_some_iff`: the items whose signer has to be found
* `Sequence.resolve_of_truthful`: what is found among keys that remember the truth
* `Sequence.Reading.step_of_unresolved`, `Sequence.Reading.step_of_resolved`: one item
* `Sequence.Reading.Faithful.foldlM`: reading keeps to the keys that were read
* `Sequence.decode_front`: the front of a sequence is read as the front of what is read
* `Sequence.decode_of_more_found`: whatever was read is read where more keys are found
-/

namespace SimplePki

variable {installed : Installed}

/-! ### Keys that bear a hash -/

namespace PublicKey

/-- Whether a hash is the true hash of the key under its algorithm. -/
def bears (installed : Installed) (wanted : HashValue) (key : PublicKey) : Bool :=
  Key.agree (key.trueHash installed wanted.algorithm) (.ok wanted)

/-- Asking a key changes what it remembers, and nothing else. -/
theorem bare_hash (algorithm : String) (key : PublicKey) :
    (key.hash installed algorithm).2.bare = key.bare := by
  unfold PublicKey.hash
  split
  · rfl
  · split <;> rfl

end PublicKey

/-! ### Signers that are written as hashes -/

namespace Signature

/-- A hash has to be resolved for a signature of four items of which the payload's hash can be read,
and the signer as a hash. -/
theorem unresolved?_eq_some_iff {expr : SExpr} {wanted : HashValue} :
    unresolved? installed expr = some wanted ↔
      ∃ hash signer value payload, expr = .list [.text "signature", hash, signer, value] ∧
        HashValue.decode installed hash = .ok payload ∧
        HashValue.decode installed signer = .ok wanted := by
  unfold unresolved?
  constructor
  · intro h
    split at h
    · next payload named value parts =>
      cases h
      unfold decodeParts at parts
      split at parts
      · next head hash signer _ tagged =>
        obtain ⟨rfl, rfl⟩ := SExpr.tagged?_eq_cons_iff.mp tagged
        obtain ⟨_, readHash, parts⟩ := bind_eq_ok_iff.mp parts
        obtain ⟨_, readSigner, parts⟩ := bind_eq_ok_iff.mp parts
        cases parts
        refine ⟨hash, signer, value, payload, rfl, readHash, ?_⟩
        unfold decodeSigner at readSigner
        split at readSigner
        · obtain ⟨_, read, same⟩ := map_eq_ok_iff.mp readSigner
          cases same
          exact read
        · split at readSigner
          · obtain ⟨_, -, other⟩ := map_eq_ok_iff.mp readSigner
            exact nomatch other
          · exact nomatch readSigner
      · exact nomatch parts
    · exact nomatch h
  · rintro ⟨hash, signer, value, payload, rfl, readHash, readSigner⟩
    obtain ⟨-, places, rfl, -⟩ := HashValue.decode_eq_ok_iff.mp readSigner
    have isHash : (wanted.spelled places).isListOf "hash" = true :=
      SExpr.isListOf_list_text "hash" "hash" _
    have parts : decodeParts installed
        (.list [.text "signature", hash, wanted.spelled places, value]) =
          .ok (payload, .byHash wanted, value) := by
      rw [decodeParts, SExpr.tagged?_list_text]
      dsimp only
      rw [readHash, ok_bind, decodeSigner, if_pos isHash, readSigner]
      rfl
    rw [parts]

variable {lookup : KeyLookup} {expr : SExpr} {wanted : HashValue}

/-- Where a signature is read, a signer that is written as a hash has to be resolved. -/
theorem unresolved?_of_decode {hash signer value : SExpr} {signature : Signature}
    (read : decode installed lookup (.list [.text "signature", hash, signer, value]) =
      .ok signature)
    (readSigner : HashValue.decode installed signer = .ok wanted) :
    unresolved? installed (.list [.text "signature", hash, signer, value]) = some wanted := by
  obtain ⟨_, parts, -⟩ := bind_eq_ok_iff.mp read
  rw [decodeParts, SExpr.tagged?_list_text] at parts
  obtain ⟨payload, readHash, -⟩ := bind_eq_ok_iff.mp parts
  exact unresolved?_eq_some_iff.mpr ⟨hash, signer, value, payload, rfl, readHash, readSigner⟩

/-- The parts of a signature whose signer has to be resolved. -/
theorem decodeParts_of_unresolved (h : unresolved? installed expr = some wanted) :
    ∃ payload value, decodeParts installed expr = .ok (payload, .byHash wanted, value) := by
  unfold unresolved? at h
  split at h
  · next payload named value parts =>
    cases h
    exact ⟨payload, value, parts⟩
  · exact nomatch h

/-- A signer that is written as a hash is the key that is found for it. -/
theorem principal_of_unresolved (h : unresolved? installed expr = some wanted)
    {signature : Signature} (read : decode installed lookup expr = .ok signature) :
    lookup wanted = some signature.principal := by
  obtain ⟨payload, value, parts⟩ := decodeParts_of_unresolved h
  rw [decode, parts, ok_bind] at read
  dsimp only at read
  split at read
  · next key found =>
    obtain ⟨-, _, -, rfl⟩ := complete_eq_ok read
    exact found
  · cases read

theorem decode_of_not_found (h : unresolved? installed expr = some wanted)
    (unknown : lookup wanted = none) :
    decode installed lookup expr = .error (.hashNotFound wanted) := by
  obtain ⟨payload, value, parts⟩ := decodeParts_of_unresolved h
  rw [decode, parts, ok_bind]
  dsimp only
  rw [unknown]
  rfl

end Signature

namespace Element

theorem decode_list_signature (lookup : KeyLookup) (items : List SExpr) :
    decode installed lookup (.list (.text "signature" :: items)) =
      (Signature.decode installed lookup (.list (.text "signature" :: items))).map signature := by
  have noCert : (SExpr.list (.text "signature" :: items)).isListOf "cert" = false :=
    SExpr.isListOf_list_text "signature" "cert" _
  have isSignature : (SExpr.list (.text "signature" :: items)).isListOf "signature" = true :=
    SExpr.isListOf_list_text "signature" "signature" _
  rw [decode, noCert, if_neg Bool.false_ne_true, if_pos isSignature]

theorem decode_of_unresolved {expr : SExpr} {wanted : HashValue}
    (h : Signature.unresolved? installed expr = some wanted) (lookup : KeyLookup) :
    decode installed lookup expr = (Signature.decode installed lookup expr).map signature := by
  obtain ⟨hash, signer, value, _, rfl, -⟩ := Signature.unresolved?_eq_some_iff.mp h
  exact decode_list_signature lookup _

/-- The expression of a public key is read as that key. -/
theorem decode_publicKey {expr : SExpr} {key : PublicKey} (read : PublicKey.decode expr = .ok key)
    (lookup : KeyLookup) : decode installed lookup expr = .ok (publicKey key) := by
  obtain ⟨curve, x, y, rfl, -⟩ := PublicKey.decode_eq_ok_iff.mp read
  have noCert : (PublicKey.spelled curve x y).isListOf "cert" = false :=
    SExpr.isListOf_list_text "public-key" "cert" _
  have noSignature : (PublicKey.spelled curve x y).isListOf "signature" = false :=
    SExpr.isListOf_list_text "public-key" "signature" _
  have isKey : (PublicKey.spelled curve x y).isListOf "public-key" = true :=
    SExpr.isListOf_list_text "public-key" "public-key" _
  rw [decode, noCert, if_neg Bool.false_ne_true, noSignature, if_neg Bool.false_ne_true,
    if_pos isKey, read]
  rfl

end Element

namespace Sequence

/-! ### Looking among the keys passed -/

/-- Of keys that remember the truth the first one that bears the hash is found, and all keep their
points. -/
theorem resolve_of_truthful (wanted : HashValue) {keys : List PublicKey}
    (truth : ∀ key ∈ keys, key.Truthful installed) :
    (resolve installed wanted keys).1.map PublicKey.bare =
        (keys.map PublicKey.bare).find? (PublicKey.bears installed wanted) ∧
      (resolve installed wanted keys).2.map PublicKey.bare = keys.map PublicKey.bare := by
  induction keys with
  | nil => exact ⟨rfl, rfl⟩
  | cons key keys ih =>
    obtain ⟨first, others⟩ := List.forall_mem_cons.mp truth
    obtain ⟨found, after⟩ := ih others
    -- the first key answers what would be computed
    have answer : Key.agree (key.hash installed wanted.algorithm).1 (.ok wanted) =
        key.bare.bears installed wanted := by
      rw [PublicKey.hash_of_truthful first]
      rfl
    unfold resolve
    dsimp only
    rw [answer, List.map_cons, List.find?_cons]
    cases key.bare.bears installed wanted with
    | true =>
      rw [if_pos rfl, Option.map_some, List.map_cons, PublicKey.bare_hash]
      exact ⟨rfl, rfl⟩
    | false =>
      rw [if_neg Bool.false_ne_true, List.map_cons, PublicKey.bare_hash, after]
      exact ⟨found, rfl⟩

/-- Asking truthful keys yields one of them, and leaves all of them truthful. -/
theorem truthful_resolve (wanted : HashValue) {keys : List PublicKey}
    (truth : ∀ key ∈ keys, key.Truthful installed) :
    (∀ key, (resolve installed wanted keys).1 = some key → key.Truthful installed) ∧
      ∀ key ∈ (resolve installed wanted keys).2, key.Truthful installed := by
  induction keys with
  | nil => exact ⟨fun _ none => (nomatch none), truth⟩
  | cons key keys ih =>
    -- the first key remembers its answer whether it is the one or not
    obtain ⟨first, others⟩ := List.forall_mem_cons.mp truth
    have asked := PublicKey.truthful_hash first wanted.algorithm
    unfold resolve
    dsimp only
    split
    · exact ⟨fun _ found => Option.some.inj found ▸ asked, List.forall_mem_cons.mpr ⟨asked, others⟩⟩
    · obtain ⟨found, after⟩ := ih others
      exact ⟨found, List.forall_mem_cons.mpr ⟨asked, after⟩⟩

/-! ### One step -/

namespace Reading

variable {lookup : KeyLookup} {reading after : Reading} {item : SExpr} {wanted : HashValue}

/-- With a hash to resolve, the keys passed are asked first. -/
theorem step_of_unresolved (h : Signature.unresolved? installed item = some wanted) :
    step installed lookup reading item =
      (Element.decode installed
        (fun _ => (resolve installed wanted reading.keys).1.or (lookup wanted)) item).map
        fun element => ⟨element :: reading.elements,
          (resolve installed wanted reading.keys).2 ++ element.key?.toList⟩ := by
  unfold step
  rw [h]
  dsimp only
  generalize Element.decode installed _ item = read
  cases read <;> rfl

/-- With no hash to resolve, nobody is asked. -/
theorem step_of_resolved (h : Signature.unresolved? installed item = none) :
    step installed lookup reading item =
      (Element.decode installed (fun _ => none) item).map
        fun element => ⟨element :: reading.elements, reading.keys ++ element.key?.toList⟩ := by
  unfold step
  rw [h]
  dsimp only
  generalize Element.decode installed _ item = read
  cases read <;> rfl

/-- A signature whose signer is written as a hash is by the key that is found for it, among the keys
passed or elsewhere. -/
theorem step_eq_ok_of_unresolved (asked : Signature.unresolved? installed item = some wanted)
    (h : step installed lookup reading item = .ok after) :
    ∃ signature, after.elements = .signature signature :: reading.elements ∧
      (resolve installed wanted reading.keys).1.or (lookup wanted) = some signature.principal := by
  rw [step_of_unresolved asked, Element.decode_of_unresolved asked] at h
  obtain ⟨_, read, rfl⟩ := map_eq_ok_iff.mp h
  obtain ⟨signature, decoded, rfl⟩ := map_eq_ok_iff.mp read
  exact ⟨signature, rfl, Signature.principal_of_unresolved asked decoded⟩

/-- The keys that were passed are those among the elements, in order, and remember the truth. -/
structure Faithful (installed : Installed) (reading : Reading) : Prop where
  truthful : ∀ key ∈ reading.keys, key.Truthful installed
  points : reading.keys.map PublicKey.bare = reading.elements.reverse.filterMap Element.key?

theorem faithful_start : Faithful installed .start :=
  ⟨fun _ mem => absurd mem List.not_mem_nil, rfl⟩

/-- A key that was read remembers nothing. -/
theorem bare_of_readFrom {element : Element} (read : element.ReadFrom installed item)
    {key : PublicKey} (isKey : element.key? = some key) : key.bare = key := by
  obtain ⟨_, decoded⟩ := read
  rcases Element.decode_cases decoded with ⟨_, rfl, -⟩ | ⟨_, rfl, -⟩ | ⟨_, rfl, decodedKey⟩
  · exact nomatch isKey
  · exact nomatch isKey
  · cases isKey
    obtain ⟨_, _, _, -, rfl⟩ := PublicKey.decode_eq_ok_iff.mp decodedKey
    rfl

/-- One more element comes behind the others, and its key, if it is one, behind the other keys. -/
theorem faithful_cons {elements : List Element} {keys : List PublicKey}
    (truth : ∀ key ∈ keys, key.Truthful installed)
    (points : keys.map PublicKey.bare = elements.reverse.filterMap Element.key?)
    {element : Element} (read : element.ReadFrom installed item) :
    Faithful installed ⟨element :: elements, keys ++ element.key?.toList⟩ := by
  have bare := @bare_of_readFrom installed item element read
  constructor
  · intro key mem
    rcases List.mem_append.mp mem with old | new
    · exact truth key old
    · rw [← bare (Option.mem_toList.mp new)]
      exact PublicKey.truthful_ofPoint _ _ _
  · have last : element.key?.toList.map PublicKey.bare = [element].filterMap Element.key? := by
      cases isKey : element.key? with
      | none =>
        rw [List.filterMap_cons_none isKey]
        rfl
      | some key =>
        rw [List.filterMap_cons_some isKey, Option.toList_some, List.map_singleton, bare isKey]
        rfl
    rw [List.map_append, points, last, List.reverse_cons, List.filterMap_append]

theorem Faithful.step (faithful : reading.Faithful installed)
    (h : Reading.step installed lookup reading item = .ok after) : after.Faithful installed := by
  cases asked : Signature.unresolved? installed item with
  | some wanted =>
    rw [step_of_unresolved asked] at h
    obtain ⟨element, read, rfl⟩ := map_eq_ok_iff.mp h
    obtain ⟨-, same⟩ := resolve_of_truthful wanted faithful.truthful
    exact faithful_cons (truthful_resolve wanted faithful.truthful).2 (same.trans faithful.points)
      ⟨_, read⟩
  | none =>
    rw [step_of_resolved asked] at h
    obtain ⟨element, read, rfl⟩ := map_eq_ok_iff.mp h
    exact faithful_cons faithful.truthful faithful.points ⟨_, read⟩

theorem Faithful.foldlM {items : List SExpr} (faithful : reading.Faithful installed)
    (h : items.foldlM (Reading.step installed lookup) reading = .ok after) :
    after.Faithful installed := foldlM_step_induction Faithful.step faithful h

/-- What is found among the keys passed is the first one, of those that were read, that bears the
hash. -/
theorem Faithful.resolve_eq (faithful : reading.Faithful installed) (wanted : HashValue) :
    (resolve installed wanted reading.keys).1.map PublicKey.bare =
      (reading.elements.reverse.filterMap Element.key?).find?
        (PublicKey.bears installed wanted) := by
  rw [(resolve_of_truthful wanted faithful.truthful).1, faithful.points]

end Reading

/-! ### Reading in two parts -/

/-- Where a sequence is read, each of its fronts was read before the rest. -/
theorem exists_reading {lookup : KeyLookup} {front back : List SExpr} {sequence : Sequence}
    (h : decode installed lookup (.list (.text "sequence" :: (front ++ back))) = .ok sequence) :
    ∃ reading, front.foldlM (Reading.step installed lookup) .start = .ok reading ∧
      reading.elements.length = front.length ∧
      reading.elements.reverse = sequence.elements.take front.length ∧
      ∃ after, back.foldlM (Reading.step installed lookup) reading = .ok after ∧
        after.elements.reverse = sequence.elements := by
  rw [decode_list] at h
  obtain ⟨after, folded, rfl⟩ := map_eq_ok_iff.mp h
  rw [List.foldlM_append] at folded
  obtain ⟨reading, frontRead, backRead⟩ := bind_eq_ok_iff.mp folded
  obtain ⟨first, inFront, each⟩ := foldlM_step_eq_ok frontRead
  obtain ⟨others, behind, -⟩ := foldlM_step_eq_ok backRead
  have frontElements : reading.elements.reverse = first := by
    rw [inFront, Reading.start, List.append_nil, List.reverse_reverse]
  refine ⟨reading, frontRead, ?_, ?_, after, backRead, rfl⟩
  · rw [← List.length_reverse, frontElements, each.length_eq]
  · rw [behind, List.reverse_append, List.reverse_reverse, frontElements, each.length_eq,
      List.take_left]

/-- The front of a sequence is read as the front of what is read. -/
theorem decode_front {lookup : KeyLookup} {front back : List SExpr} {sequence : Sequence}
    (h : decode installed lookup (.list (.text "sequence" :: (front ++ back))) = .ok sequence) :
    decode installed lookup (.list (.text "sequence" :: front)) =
      .ok ⟨sequence.elements.take front.length⟩ := by
  obtain ⟨reading, frontRead, -, elements, -⟩ := exists_reading h
  rw [decode_list, frontRead, ← elements]
  rfl

/-! ### More keys found elsewhere -/

/-- A step that succeeds succeeds alike where more keys are found. -/
theorem Reading.step_of_more_found {lookup other : KeyLookup} {reading after : Reading}
    {item : SExpr}
    (more : ∀ wanted key, lookup wanted = some key → other wanted = some key)
    (h : Reading.step installed lookup reading item = .ok after) :
    Reading.step installed other reading item = .ok after := by
  cases asked : Signature.unresolved? installed item with
  | none => rwa [step_of_resolved asked, ← step_of_resolved asked]
  | some wanted =>
    -- the step succeeded, so that a key was found, and the same one is found again
    obtain ⟨signature, -, found⟩ := step_eq_ok_of_unresolved asked h
    have again : (resolve installed wanted reading.keys).1.or (other wanted) =
        (resolve installed wanted reading.keys).1.or (lookup wanted) := by
      rw [found]
      rcases Option.or_eq_some_iff.mp found with here | ⟨nowhere, elsewhere⟩
      · exact Option.or_eq_some_iff.mpr (Or.inl here)
      · exact Option.or_eq_some_iff.mpr (Or.inr ⟨nowhere, more wanted _ elsewhere⟩)
    rw [step_of_unresolved asked] at h ⊢
    rwa [again]

theorem foldlM_step_of_more_found {lookup other : KeyLookup}
    (more : ∀ wanted key, lookup wanted = some key → other wanted = some key) {items : List SExpr}
    {reading after : Reading}
    (h : items.foldlM (Reading.step installed lookup) reading = .ok after) :
    items.foldlM (Reading.step installed other) reading = .ok after := by
  induction items generalizing reading with
  | nil => exact h
  | cons item items ih =>
    rw [List.foldlM_cons] at h ⊢
    obtain ⟨between, step, others⟩ := bind_eq_ok_iff.mp h
    rw [Reading.step_of_more_found more step, ok_bind, ih others]

/-- Whatever was read is read where more keys are found. -/
theorem decode_of_more_found {lookup other : KeyLookup} {items : List SExpr} {sequence : Sequence}
    (more : ∀ wanted key, lookup wanted = some key → other wanted = some key)
    (h : decode installed lookup (.list (.text "sequence" :: items)) = .ok sequence) :
    decode installed other (.list (.text "sequence" :: items)) = .ok sequence := by
  rw [decode_list] at h ⊢
  obtain ⟨after, folded, rfl⟩ := map_eq_ok_iff.mp h
  rw [foldlM_step_of_more_found more folded]
  rfl

end Sequence

end SimplePki
