import SimplePki.Proofs.Sequence.Reading

/-!
# Whom a hash stands for in a sequence

A signature may name its signer by a hash.  The hash stands for the first public key of the sequence
that bears it, of those in front of the signature.  Only if there is none is it looked up elsewhere.
What stands behind the signature makes no difference, and neither do the keys that are found
elsewhere for other hashes.

## Main definitions

* `Sequence.FirstBearer`, `Sequence.Unborne`: the first key that bears a hash, or the lack of one
* `Sequence.lookupBefore`: the keys before a place, and those found elsewhere, as a way to find keys
* `Sequence.LeftOpen`: the hashes that are looked up elsewhere

## Main results

* `Sequence.exists_principal`: how the signer that a hash stands for is found
* `Sequence.exists_signer`, `Sequence.exists_lookupBefore`: the signer that a hash stands for
* `Sequence.decode_congr`: what a sequence is read as depends on the hashes left open
* `Sequence.hash_signers_are_resolved_backwards`
-/

namespace SimplePki.Sequence

variable {installed : Installed}

/-! ### The first key that bears a hash -/

/-- No key among the first elements bears the hash. -/
def Unborne (installed : Installed) (elements : List Element) (wanted : HashValue) (count : Nat) :
    Prop :=
  ∀ place < count, ∀ key, elements[place]? = some (.publicKey key) →
    key.bears installed wanted = false

/-- The key at a place bears the hash, and no key before it does. -/
structure FirstBearer (installed : Installed) (elements : List Element) (wanted : HashValue)
    (place : Nat) (key : PublicKey) : Prop where
  there : elements[place]? = some (.publicKey key)
  bears : key.bears installed wanted = true
  first : Unborne installed elements wanted place

theorem key?_eq_some_iff {element : Element} {key : PublicKey} :
    element.key? = some key ↔ element = .publicKey key := by
  cases element with
  | certificate cert => exact ⟨fun h => (nomatch h), fun h => (nomatch h)⟩
  | signature signed => exact ⟨fun h => (nomatch h), fun h => (nomatch h)⟩
  | publicKey other => rw [Element.key?, Option.some.injEq, Element.publicKey.injEq]

/-- Searching the keys among the first elements finds the first bearer, if it is one of them. -/
theorem find?_take_eq_some {elements : List Element} {wanted : HashValue} {count : Nat}
    {key : PublicKey}
    (h : ((elements.take count).filterMap Element.key?).find? (PublicKey.bears installed wanted) =
      some key) :
    ∃ place < count, FirstBearer installed elements wanted place key := by
  rw [List.find?_filterMap] at h
  obtain ⟨element, found, isKey⟩ := Option.bind_eq_some_iff.mp h
  obtain rfl := key?_eq_some_iff.mp isKey
  obtain ⟨bears, place, bound, there, passed⟩ := List.find?_eq_some_iff_getElem.mp found
  have before : place < count := bound.trans_le (List.length_take_le count elements)
  refine ⟨place, before, ⟨?_, bears, ?_⟩⟩
  · rw [← List.getElem?_take_of_lt before, List.getElem?_eq_getElem bound, there]
  · intro earlier less other otherThere
    rw [← List.getElem?_take_of_lt (less.trans before)] at otherThere
    have notBears := passed earlier less
    rw [(List.getElem?_eq_some_iff.mp otherThere).2, Bool.not_eq_true'] at notBears
    exact notBears

theorem find?_take_eq_none {elements : List Element} {wanted : HashValue} {count : Nat}
    (h : ((elements.take count).filterMap Element.key?).find? (PublicKey.bears installed wanted) =
      none) :
    Unborne installed elements wanted count := by
  intro place before key there
  rw [List.find?_eq_none] at h
  apply Bool.eq_false_iff.mpr
  apply h
  refine List.mem_filterMap.mpr ⟨.publicKey key, ?_, rfl⟩
  exact List.mem_of_getElem? ((List.getElem?_take_of_lt before).trans there)

/-- An element is read from the item at its place. -/
theorem exists_readFrom {items : List SExpr} {elements : List Element}
    (each : List.Forall₂ (fun item element => Element.ReadFrom installed item element) items
      elements)
    {place : Nat} {item : SExpr} (there : items[place]? = some item) :
    ∃ element, elements[place]? = some element ∧ element.ReadFrom installed item := by
  obtain ⟨bound, rfl⟩ := List.getElem?_eq_some_iff.mp there
  have within : place < elements.length := each.length_eq ▸ bound
  exact ⟨elements[place], List.getElem?_eq_getElem within, each.get bound within⟩

/-- The item at an index stands behind as many others. -/
theorem exists_front {items : List SExpr} {index : Nat} {item : SExpr}
    (there : items[index]? = some item) :
    ∃ front back, items = front ++ item :: back ∧ front.length = index := by
  obtain ⟨bound, rfl⟩ := List.getElem?_eq_some_iff.mp there
  refine ⟨items.take index, items.drop (index + 1), ?_, List.length_take_of_le bound.le⟩
  rw [List.getElem_cons_drop, List.take_append_drop]

/-- The way to find keys at a place of a sequence: a hash stands for the first key before the place
that bears it, and if there is none for the key that is found elsewhere. -/
def lookupBefore (installed : Installed) (lookup : KeyLookup) (elements : List Element)
    (place : Nat) : KeyLookup := fun wanted =>
  (((elements.take place).filterMap Element.key?).find? (PublicKey.bears installed wanted)).or
    (lookup wanted)

section Signer

variable {lookup : KeyLookup} {items : List SExpr} {sequence : Sequence}
  (h : decode installed lookup (.list (.text "sequence" :: items)) = .ok sequence)
  {index : Nat} {item : SExpr} (there : items[index]? = some item) {wanted : HashValue}
  (asked : Signature.unresolved? installed item = some wanted)

include h there asked

/-- A signature whose signer is written as a hash is by what is found among the keys before it, up
to what that remembers, or else by the key that is looked up. -/
theorem exists_principal :
    ∃ (signature : Signature) (found : Option PublicKey),
      sequence.elements[index]? = some (.signature signature) ∧
      found.map PublicKey.bare = ((sequence.elements.take index).filterMap Element.key?).find?
        (PublicKey.bears installed wanted) ∧
      found.or (lookup wanted) = some signature.principal := by
  obtain ⟨front, back, rfl, rfl⟩ := exists_front there
  obtain ⟨reading, frontRead, size, inFront, last, backRead, whole⟩ := exists_reading h
  rw [List.foldlM_cons] at backRead
  obtain ⟨after, step, backRead⟩ := bind_eq_ok_iff.mp backRead
  obtain ⟨signature, next, found⟩ := Reading.step_eq_ok_of_unresolved asked step
  obtain ⟨others, behind, -⟩ := foldlM_step_eq_ok backRead
  -- the keys passed are those before the signature
  have search := (Reading.faithful_start.foldlM frontRead).resolve_eq wanted
  rw [inFront] at search
  refine ⟨signature, _, ?_, search, found⟩
  have split : sequence.elements =
      reading.elements.reverse ++ .signature signature :: others := by
    rw [← whole, behind, next, List.reverse_append, List.reverse_reverse, List.reverse_cons,
      List.append_assoc, List.singleton_append]
  rw [← size, ← List.length_reverse]
  exact getElem?_of_split split

/-- A signature whose signer is written as a hash is by the first key before it that bears the
hash, or else by the key that is looked up. -/
theorem exists_signer :
    ∃ signature, sequence.elements[index]? = some (.signature signature) ∧
      ((∃ place < index, ∃ key, FirstBearer installed sequence.elements wanted place key ∧
          key.samePoint signature.principal = true) ∨
        (Unborne installed sequence.elements wanted index ∧
          lookup wanted = some signature.principal)) := by
  obtain ⟨signature, _, isSignature, search, found⟩ := exists_principal h there asked
  refine ⟨signature, isSignature, ?_⟩
  rcases Option.or_eq_some_iff.mp found with rfl | ⟨rfl, elsewhere⟩
  · obtain ⟨place, before, bearer⟩ := find?_take_eq_some search.symm
    exact Or.inl ⟨place, before, _, bearer, signature.principal.samePoint_bare⟩
  · exact Or.inr ⟨find?_take_eq_none search.symm, elsewhere⟩

/-- The signer that is written as a hash is the key that is found at the place of the signature, up
to what it remembers. -/
theorem exists_lookupBefore :
    ∃ signature key, sequence.elements[index]? = some (.signature signature) ∧
      lookupBefore installed lookup sequence.elements index wanted = some key ∧
      key.samePoint signature.principal = true := by
  obtain ⟨signature, _, isSignature, search, found⟩ := exists_principal h there asked
  refine ⟨signature, ?_⟩
  unfold lookupBefore
  rcases Option.or_eq_some_iff.mp found with rfl | ⟨rfl, elsewhere⟩
  · rw [← search]
    exact ⟨_, isSignature, rfl, signature.principal.samePoint_bare⟩
  · rw [← search]
    exact ⟨_, isSignature, elsewhere, PublicKey.samePoint_iff.mpr ⟨rfl, rfl, rfl⟩⟩

end Signer

/-! ### Hashes that are left open -/

/-- The hashes that are looked up elsewhere: each names the signer of an item, and is borne by no
key in the items before that. -/
def LeftOpen (installed : Installed) (items : List SExpr) (wanted : HashValue) : Prop :=
  ∃ front item back, items = front ++ item :: back ∧
    Signature.unresolved? installed item = some wanted ∧
    ∀ earlier ∈ front, ∀ key, PublicKey.decode earlier = .ok key →
      key.bears installed wanted = false

/-- The key of an item is among the elements. -/
theorem mem_of_decode_publicKey {items : List SExpr} {elements : List Element}
    (each : List.Forall₂ (fun item element => Element.ReadFrom installed item element) items
      elements)
    {item : SExpr} (mem : item ∈ items) {key : PublicKey} (read : PublicKey.decode item = .ok key) :
    .publicKey key ∈ elements := by
  obtain ⟨place, there⟩ := List.mem_iff_getElem?.mp mem
  obtain ⟨element, found, lookup, decoded⟩ := exists_readFrom each there
  rw [← Except.ok.inj (decoded.symm.trans (Element.decode_publicKey read lookup))]
  exact List.mem_of_getElem? found

/-- A step asks elsewhere for nothing but a hash that no key before it bears. -/
theorem Reading.step_congr {lookup other : KeyLookup} {reading : Reading} {item : SExpr}
    (faithful : reading.Faithful installed)
    (agree : ∀ wanted, Signature.unresolved? installed item = some wanted →
      (reading.elements.reverse.filterMap Element.key?).find?
        (PublicKey.bears installed wanted) = none → lookup wanted = other wanted) :
    Reading.step installed lookup reading item = Reading.step installed other reading item := by
  cases asked : Signature.unresolved? installed item with
  | none => rw [step_of_resolved asked, step_of_resolved asked]
  | some wanted =>
    have search := faithful.resolve_eq wanted
    rw [step_of_unresolved asked, step_of_unresolved asked]
    cases found : (resolve installed wanted reading.keys).1 with
    | some key => rfl
    | none =>
      rw [found, Option.map_none] at search
      rw [agree wanted asked search.symm]

theorem foldlM_step_congr {lookup other : KeyLookup} {front back : List SExpr} {reading : Reading}
    (frontRead : front.foldlM (Reading.step installed lookup) .start = .ok reading)
    (agree : ∀ wanted, LeftOpen installed (front ++ back) wanted → lookup wanted = other wanted) :
    back.foldlM (Reading.step installed lookup) reading =
      back.foldlM (Reading.step installed other) reading := by
  induction back generalizing front reading with
  | nil => rfl
  | cons item back ih =>
    have same : Reading.step installed lookup reading item =
        Reading.step installed other reading item := by
      apply Reading.step_congr (Reading.faithful_start.foldlM frontRead)
      intro wanted asked unborne
      obtain ⟨elements, inOrder, each⟩ := foldlM_step_eq_ok frontRead
      refine agree wanted ⟨front, item, back, rfl, asked, fun earlier mem key read => ?_⟩
      rw [inOrder, Reading.start, List.append_nil, List.reverse_reverse,
        List.find?_eq_none] at unborne
      exact Bool.eq_false_iff.mpr (unborne key
        (List.mem_filterMap.mpr ⟨_, mem_of_decode_publicKey each mem read, rfl⟩))
    rw [List.foldlM_cons, List.foldlM_cons, ← same]
    cases step : Reading.step installed lookup reading item with
    | error error => rfl
    | ok after =>
      have longer : (front ++ [item]).foldlM (Reading.step installed lookup) .start =
          .ok after := by
        rw [List.foldlM_append, frontRead, ok_bind, List.foldlM_cons, step]
        rfl
      rw [ok_bind, ok_bind]
      apply ih longer
      rw [List.append_assoc, List.singleton_append]
      exact agree

/-- What a sequence is read as depends on the lookup for the hashes only that are left open. -/
theorem decode_congr {lookup other : KeyLookup} {items : List SExpr}
    (agree : ∀ wanted, LeftOpen installed items wanted → lookup wanted = other wanted) :
    decode installed lookup (.list (.text "sequence" :: items)) =
      decode installed other (.list (.text "sequence" :: items)) := by
  have start : [].foldlM (Reading.step installed lookup) .start = .ok .start := rfl
  rw [decode_list, decode_list, foldlM_step_congr start agree]

/-- The first hash that neither a key before it bears nor the lookup knows ends the reading,
whatever follows. -/
theorem decode_of_not_found {lookup : KeyLookup} {front back : List SExpr} {sequence : Sequence}
    (frontRead : decode installed lookup (.list (.text "sequence" :: front)) = .ok sequence)
    {item : SExpr} {wanted : HashValue}
    (asked : Signature.unresolved? installed item = some wanted)
    (unborne : ∀ key, .publicKey key ∈ sequence.elements → key.bears installed wanted = false)
    (unknown : lookup wanted = none) :
    decode installed lookup (.list (.text "sequence" :: (front ++ item :: back))) =
      .error (.hashNotFound wanted) := by
  rw [decode_list] at frontRead ⊢
  obtain ⟨reading, folded, rfl⟩ := map_eq_ok_iff.mp frontRead
  have search := (Reading.faithful_start.foldlM folded).resolve_eq wanted
  have nowhere : (reading.elements.reverse.filterMap Element.key?).find?
      (PublicKey.bears installed wanted) = none := by
    rw [List.find?_eq_none]
    intro key mem
    obtain ⟨element, elementMem, isKey⟩ := List.mem_filterMap.mp mem
    rw [key?_eq_some_iff.mp isKey] at elementMem
    exact Bool.eq_false_iff.mp (unborne key elementMem)
  rw [nowhere, Option.map_eq_none_iff] at search
  have refused : Reading.step installed lookup reading item = .error (.hashNotFound wanted) := by
    rw [Reading.step_of_unresolved asked, search, Option.none_or, unknown,
      Element.decode_of_unresolved asked, Signature.decode_of_not_found asked rfl]
    rfl
  rw [List.foldlM_append, folded, ok_bind, List.foldlM_cons, refused]
  rfl

/-! ### Scope -/

/-- In a sequence that is read, a signature whose signer is written as a hash is by the first public
key that bears the hash, of those before the signature, and if there is none by the key that the
lookup has found.  Keys behind it make no difference.  The lookup is asked for no hash that a key
before it bears, so that lookups which agree on the others read the same.  If everything before such
a signature is read, and its hash is borne by no key there and not known to the lookup, then reading
fails with exactly that hash, whatever follows. -/
theorem hash_signers_are_resolved_backwards (installed : Installed) (lookup : KeyLookup)
    (items : List SExpr) :
    (∀ sequence, decode installed lookup (.list (.text "sequence" :: items)) = .ok sequence →
      ∀ (index : Nat) (hash signer value : SExpr) (wanted : HashValue),
        items[index]? = some (.list [.text "signature", hash, signer, value]) →
        HashValue.decode installed signer = .ok wanted →
        ∃ signature, sequence.elements[index]? = some (.signature signature) ∧
          ((∃ place < index, ∃ key, FirstBearer installed sequence.elements wanted place key ∧
              key.samePoint signature.principal = true) ∨
            (Unborne installed sequence.elements wanted index ∧
              lookup wanted = some signature.principal))) ∧
    (∀ other : KeyLookup,
      (∀ wanted, LeftOpen installed items wanted → lookup wanted = other wanted) →
      decode installed lookup (.list (.text "sequence" :: items)) =
        decode installed other (.list (.text "sequence" :: items))) ∧
    (∀ (front back : List SExpr) (sequence : Sequence) (hash signer value : SExpr)
      (payload wanted : HashValue),
      items = front ++ .list [.text "signature", hash, signer, value] :: back →
      decode installed lookup (.list (.text "sequence" :: front)) = .ok sequence →
      HashValue.decode installed hash = .ok payload →
      HashValue.decode installed signer = .ok wanted →
      (∀ key, .publicKey key ∈ sequence.elements → key.bears installed wanted = false) →
      lookup wanted = none →
      decode installed lookup (.list (.text "sequence" :: items)) =
        .error (.hashNotFound wanted)) := by
  refine ⟨?_, fun other agree => decode_congr agree, ?_⟩
  · intro sequence decoded index hash signer value wanted there readSigner
    obtain ⟨_, same, each⟩ := decode_eq_ok decoded
    obtain ⟨-, rfl⟩ := List.cons.inj (SExpr.list.inj same)
    obtain ⟨_, -, elsewhere, read⟩ := exists_readFrom each there
    rw [Element.decode_list_signature] at read
    obtain ⟨_, signatureRead, -⟩ := map_eq_ok_iff.mp read
    exact exists_signer decoded there (Signature.unresolved?_of_decode signatureRead readSigner)
  · rintro front back sequence hash signer value payload wanted rfl frontRead readHash readSigner
      unborne unknown
    have asked := Signature.unresolved?_eq_some_iff.mpr
      ⟨hash, signer, value, payload, rfl, readHash, readSigner⟩
    exact decode_of_not_found frontRead asked unborne unknown

/-- A key that signatures name by its hash. -/
def namedKey : PublicKey := .ofPoint .p256 1 2

/-- A signature in the name of the key, which it names by its hash. -/
def namingSignature : SExpr :=
  Signature.spelled (HashValue.ofDigest "sha256" (List.replicate 32 0)).encode
    (namedKey.hashUnder .sha256).encode [1] [1]

theorem bears_namedKey :
    namedKey.bears (some .standard) (namedKey.hashUnder .sha256) = true := by decide +kernel

theorem decode_namingSignature :
    decode (some .standard) .none (.list [.text "sequence", namedKey.encode, namingSignature]) =
      .ok ⟨[.publicKey namedKey, .signature ⟨.ofDigest "sha256" (List.replicate 32 0),
        namedKey.withHash (namedKey.hashUnder .sha256), ⟨1, 1⟩⟩]⟩ := by decide +kernel

/-- Nothing is left open where the key comes first. -/
theorem not_leftOpen_namingSignature (wanted : HashValue) :
    ¬LeftOpen (some .standard) [namedKey.encode, namingSignature] wanted := by
  rintro ⟨front, item, back, split, asked, unborne⟩
  match front with
  | [] =>
    obtain ⟨rfl, -⟩ := List.cons.inj split
    have noSignature : Signature.unresolved? (some .standard) namedKey.encode = none := by
      decide +kernel
    exact nomatch noSignature.symm.trans asked
  | [earlier] =>
    obtain ⟨rfl, rest⟩ := List.cons.inj split
    obtain ⟨rfl, -⟩ := List.cons.inj rest
    have named : Signature.unresolved? (some .standard) namingSignature =
        some (namedKey.hashUnder .sha256) := by decide +kernel
    obtain rfl := Option.some.inj (named.symm.trans asked)
    have notBears := unborne _ List.mem_cons_self _ namedKey.decode_encode
    exact nomatch bears_namedKey.symm.trans notBears
  | _ :: _ :: more =>
    have sizes := congrArg List.length split
    simp at sizes

/-- In front of the signature the key is its signer, whatever the lookup finds; behind it, it is
not. -/
theorem key_signs_behind_itself_only :
    (∀ lookup, ∃ sequence signature,
      decode (some .standard) lookup
        (.list [.text "sequence", namedKey.encode, namingSignature]) = .ok sequence ∧
      sequence.elements[1]? = some (.signature signature) ∧
      namedKey.samePoint signature.principal = true) ∧
    decode (some .standard) .none (.list [.text "sequence", namingSignature, namedKey.encode]) =
      .error (.hashNotFound (namedKey.hashUnder .sha256)) := by
  have readHash : HashValue.decode (some .standard)
      (HashValue.ofDigest "sha256" (List.replicate 32 0)).encode =
        .ok (.ofDigest "sha256" (List.replicate 32 0)) := by decide +kernel
  have readSigner : HashValue.decode (some .standard) (namedKey.hashUnder .sha256).encode =
      .ok (namedKey.hashUnder .sha256) := by decide +kernel
  constructor
  · intro lookup
    obtain ⟨signers, agreeing, -⟩ := hash_signers_are_resolved_backwards (some .standard) .none
      [namedKey.encode, namingSignature]
    have same := agreeing lookup fun wanted leftOpen =>
      absurd leftOpen (not_leftOpen_namingSignature wanted)
    obtain ⟨signature, there, ⟨place, before, key, bearer, isSigner⟩ | ⟨unborne, -⟩⟩ :=
      signers _ decode_namingSignature 1 _ _ _ _ rfl readSigner
    · obtain rfl := Nat.lt_one_iff.mp before
      obtain rfl := Element.publicKey.inj (Option.some.inj bearer.there)
      exact ⟨_, signature, same.symm.trans decode_namingSignature, there, isSigner⟩
    · have notBears := unborne 0 Nat.zero_lt_one namedKey rfl
      exact nomatch bears_namedKey.symm.trans notBears
  · obtain ⟨-, -, failures⟩ := hash_signers_are_resolved_backwards (some .standard) .none
      [namingSignature, namedKey.encode]
    exact failures [] [namedKey.encode] ⟨[]⟩ _ _ _ _ _ rfl rfl readHash readSigner
      (fun _ mem => absurd mem List.not_mem_nil) rfl

end SimplePki.Sequence
