import SimplePki.Name
import SimplePki.Proofs.HashValue
import SimplePki.Proofs.Key.Codec
import SimplePki.Subject

/-!
# Issuers, subjects and their expressions

Keys are written as a hash or as a point, and names as a key with identifiers.  What is read back
need not be the same value: a key that was known by several hashes is read back with the first of
them, and a subject that was a key is read back as a hash.  But what is read back is written as the
same expression again.

## Main definitions

* `Key.bare`, `Name.bare`: what is left of a key and of a name that are written
* `Name.Readable`, `Subject.Readable`: those whose written hash is read back
* `Subject.hash`: the hash that a subject is written as

## Main results

* `Name.decode_encode`: what is left of a name is read back
* `Subject.decode_encode`: what is read back is written as it was
* `Name.exists_key_of_decode`: the key of a name was read as a key
-/

namespace SimplePki

variable {installed : Installed}

/-! ### Keys -/

namespace Key

/-- The first hash, where a key is known by hashes, can be read back. -/
def Readable (installed : Installed) : Key → Prop
  | hashKey key => ∀ hash, key.first = .ok hash → hash.Readable installed
  | _ => True

/-- A key is written as a list that is led by what is known of it. -/
theorem encode_eq_list {key : Key} {expr : SExpr} (h : key.encode = .ok expr) :
    ∃ word rest, expr = .list (.text word :: rest) ∧
      word ∈ ["hash", "public-key", "private-key"] := by
  cases key with
  | hashKey key =>
    obtain ⟨hash, -, written⟩ := map_eq_ok_iff.mp h
    exact ⟨"hash", _, written.symm, by decide⟩
  | publicKey key => exact ⟨"public-key", _, (Except.ok.inj h).symm, by decide⟩
  | privateKey key => exact ⟨"private-key", _, (Except.ok.inj h).symm, by decide⟩

/-- What is left of a key that is written: its first hash, its point, or its point and scalar. -/
def bare : Key → Key
  | hashKey key =>
    hashKey ⟨(key.hashes.take 1).map fun hash => .ofDigest hash.algorithm hash.digest⟩
  | publicKey key => publicKey key.bare
  | privateKey key => privateKey (.ofParts key.half.curve key.half.x key.half.y key.scalar)

theorem encode_bare (key : Key) : key.bare.encode = key.encode := by
  cases key with
  | hashKey key =>
    obtain ⟨_ | ⟨hash, rest⟩⟩ := key
    · rfl
    · rfl
  | publicKey key => rfl
  | privateKey key => rfl

/-! Which kind of key a list is depends on the word that leads it. -/

theorem decode_hash_list (rest : List SExpr) :
    decode installed (.list (.text "hash" :: rest)) =
      (HashValue.decode installed (.list (.text "hash" :: rest))).map ofHash := by
  simp [decode, SExpr.isListOf_list_text]

theorem decode_publicKey_list (rest : List SExpr) :
    decode installed (.list (.text "public-key" :: rest)) =
      (PublicKey.decode (.list (.text "public-key" :: rest))).map publicKey := by
  simp [decode, SExpr.isListOf_list_text]

theorem decode_privateKey_list (rest : List SExpr) :
    decode installed (.list (.text "private-key" :: rest)) =
      (PrivateKey.decode (.list (.text "private-key" :: rest))).map privateKey := by
  simp [decode, SExpr.isListOf_list_text]

/-- What is left of a key is read back. -/
theorem decode_encode {key : Key} {expr : SExpr} (readable : key.Readable installed)
    (h : key.encode = .ok expr) : decode installed expr = .ok key.bare := by
  cases key with
  | hashKey key =>
    obtain ⟨_ | ⟨hash, rest⟩⟩ := key
    · exact nomatch h
    · -- the other hashes of the key are not written, and are lost
      cases h
      have read := HashValue.decode_encode (readable hash rfl)
      rw [HashValue.encode] at read ⊢
      rw [decode_hash_list, read]
      rfl
  | publicKey key =>
    cases h
    have read := key.decode_encode
    rw [PublicKey.encode, KeyParts.encode] at read ⊢
    rw [decode_publicKey_list, read]
    rfl
  | privateKey key =>
    cases h
    have read := key.decode_encode
    rw [PrivateKey.encode, KeyParts.encode] at read ⊢
    rw [decode_privateKey_list, read]
    rfl

end Key

/-! ### Names -/

namespace Name

/-- The key of the name, if it has one, can be read back. -/
def Readable (installed : Installed) (name : Name) : Prop :=
  ∀ key, name.principal = some key → key.Readable installed

/-- The expression of the key of a name, or of the word for none. -/
def encodePrincipal (principal : Option Key) : Outcome SExpr :=
  match principal with
  | some key => key.encode
  | none => pure (.text selfWord)

theorem encode_eq (name : Name) :
    name.encode = (encodePrincipal name.principal).map fun principal =>
      if name.names.isEmpty then principal
      else .list (.text "name" :: principal :: name.names.map .text) := by
  unfold encode encodePrincipal
  cases name.principal with
  | none =>
    cases name.names.isEmpty <;> rfl
  | some key =>
    dsimp only
    cases key.encode with
    | error _ => rfl
    | ok expr => cases name.names.isEmpty <;> rfl

/-- What is left of a name that is written: the identifiers, and what is left of the key. -/
def bare (name : Name) : Name := { name with principal := name.principal.map Key.bare }

theorem encodePrincipal_bare (principal : Option Key) :
    encodePrincipal (principal.map Key.bare) = encodePrincipal principal := by
  cases principal with
  | none => rfl
  | some key => exact key.encode_bare

theorem encode_bare (name : Name) : name.bare.encode = name.encode := by
  rw [encode_eq, encode_eq, bare, encodePrincipal_bare]

/-- The key of a name is never taken for a name. -/
theorem tagged?_of_encodePrincipal {principal : Option Key} {expr : SExpr}
    (h : encodePrincipal principal = .ok expr) : expr.tagged? "name" = none := by
  cases principal with
  | none =>
    cases h
    rfl
  | some key =>
    obtain ⟨word, rest, rfl, known⟩ := Key.encode_eq_list h
    have noName : word ≠ "name" := by
      rintro rfl
      exact absurd known (by decide)
    exact SExpr.tagged?_list_text_of_ne noName rest

/-- What is left of the key of a name is read back. -/
theorem decodePrincipal_encode {principal : Option Key} {expr : SExpr}
    (readable : ∀ key, principal = some key → key.Readable installed)
    (h : encodePrincipal principal = .ok expr) :
    decodePrincipal installed expr = .ok (principal.map Key.bare) := by
  cases principal with
  | none =>
    cases h
    have isSelf : (SExpr.text selfWord).isText selfWord = true := SExpr.isText_iff.mpr rfl
    rw [decodePrincipal, if_pos isSelf]
    rfl
  | some key =>
    have read := Key.decode_encode (readable key rfl) h
    obtain ⟨word, rest, rfl, -⟩ := Key.encode_eq_list h
    -- a key is a list, and the word for no key an atom
    have notSelf : ¬(SExpr.list (.text word :: rest)).isText selfWord = true := fun same =>
      nomatch SExpr.isText_iff.mp same
    rw [decodePrincipal, if_neg notSelf, read]
    rfl

theorem decodeIdentifier_text (identifier : String) :
    decodeIdentifier (.text identifier) = .ok identifier := by
  rw [decodeIdentifier, SExpr.text?_text]

/-- What is left of a name is read back. -/
theorem decode_encode {name : Name} {expr : SExpr} (readable : name.Readable installed)
    (h : name.encode = .ok expr) : decode installed expr = .ok name.bare := by
  obtain ⟨key, names⟩ := name
  rw [encode_eq] at h
  obtain ⟨principal, written, rfl⟩ := map_eq_ok_iff.mp h
  have read := decodePrincipal_encode readable written
  cases names with
  | nil =>
    rw [decode, List.isEmpty_nil, if_pos rfl, tagged?_of_encodePrincipal written]
    dsimp only
    rw [read]
    rfl
  | cons first others =>
    have identifiers : ((first :: others).map SExpr.text).mapM decodeIdentifier =
        (.ok (first :: others) : Outcome (List String)) :=
      mapM_map_eq_ok_iff.mpr fun identifier _ => decodeIdentifier_text identifier
    rw [decode, List.isEmpty_cons, if_neg (by simp), SExpr.tagged?_list_text]
    rw [List.map_cons] at identifiers ⊢
    dsimp only
    rw [read, ok_bind, identifiers, ok_bind]
    rfl

/-- The key in a name that was read was read from an expression of its own. -/
theorem exists_key_of_decode {expr : SExpr} {name : Name} {key : Key}
    (h : decode installed expr = .ok name) (named : name.principal = some key) :
    ∃ item, Key.decode installed item = .ok key := by
  have read : ∃ item, decodePrincipal installed item = .ok (some key) := by
    unfold decode at h
    split at h
    · next item first rest _ =>
      obtain ⟨principal, read, h⟩ := bind_eq_ok_iff.mp h
      obtain ⟨_, -, made⟩ := bind_eq_ok_iff.mp h
      cases made
      exact ⟨item, named ▸ read⟩
    · exact nomatch h
    · obtain ⟨principal, read, made⟩ := bind_eq_ok_iff.mp h
      cases made
      exact ⟨expr, named ▸ read⟩
  obtain ⟨item, read⟩ := read
  rw [decodePrincipal] at read
  split at read
  · exact nomatch read
  · obtain ⟨other, decoded, same⟩ := map_eq_ok_iff.mp read
    exact ⟨item, Option.some.inj same ▸ decoded⟩

end Name

/-! ### Subjects -/

namespace Subject

/-- The hash that a subject is written as. -/
def hash (installed : Installed) : Subject → Outcome HashValue
  | key (.hashKey known) => known.first
  | key (.publicKey known) => (known.naturalHash installed).1
  | key (.privateKey known) => (known.half.naturalHash installed).1
  | object hash => .ok hash

/-- The hash that the subject is written as can be read back. -/
def Readable (installed : Installed) (subject : Subject) : Prop :=
  ∀ hash, subject.hash installed = .ok hash → hash.Readable installed

theorem encode_eq (installed : Installed) (subject : Subject) :
    subject.encode installed = (subject.hash installed).map HashValue.encode := by
  cases subject with
  | object hash => rfl
  | key known => cases known <;> rfl

/-- What is read back from the expression of a subject is the object with the hash that the subject
was written as. -/
theorem decode_encode {subject : Subject} {expr : SExpr} (readable : subject.Readable installed)
    (h : subject.encode installed = .ok expr) :
    ∃ reread, decode installed expr = .ok reread ∧ reread.encode installed = .ok expr := by
  -- nothing tells the hash of a key from the hash of an object
  rw [encode_eq] at h
  obtain ⟨hash, named, rfl⟩ := map_eq_ok_iff.mp h
  have isHash : hash.encode.isListOf "hash" = true := by
    rw [HashValue.isListOf_encode]
    rfl
  refine ⟨object (.ofDigest hash.algorithm hash.digest), ?_, rfl⟩
  rw [decode, if_pos isHash, HashValue.decode_encode (readable hash named)]
  rfl

end Subject

end SimplePki
