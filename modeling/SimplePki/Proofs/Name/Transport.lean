import SimplePki.Proofs.Key.Identity
import SimplePki.Proofs.Key.Transport
import SimplePki.Proofs.Name

/-!
# Names in transport

A name is written as its key alone or, with identifiers, as a list that is led by the word `name`.
No key is written as such a list, and an identifier is an atom whatever it says: so a key, the word
for none and an identifier are never taken for one another, not even where an identifier is a word
of the grammar.

Of a key that is known by several hashes only the first is written.  But one hash is enough to
recognise the key, and so the name that is read back is the same name, whichever of the two is asked.

## Main definitions

* `Key.Conveyable`: the keys that are the same as what is read back of them

## Main results

* `Key.Conveyable.sameAs_bare`: what is left of such a key is the same key
* `Name.eq_of_encode_eq`: names with one expression have the same identifiers
* `Name.encoded_names_are_read_back`
-/

namespace SimplePki

variable {installed : Installed} {registry : Registry}

/-! ### Keys -/

namespace Key

/-- The keys that can be recognised by what is written of them: those known by hashes of which the
first can be read, and those with a point that were given no hash. -/
def Conveyable (installed : Installed) : Key → Prop
  | hashKey key => ∃ hash, key.first = .ok hash ∧ hash.Readable installed
  | key => Unseeded installed key

theorem Conveyable.readable {key : Key} (h : key.Conveyable installed) :
    key.Readable installed := by
  cases key with
  | hashKey key =>
    obtain ⟨hash, first, readable⟩ := h
    intro other known
    rwa [← Except.ok.inj (first.symm.trans known)]
  | publicKey key => exact trivial
  | privateKey key => exact trivial

/-- What is written of a key that was read is enough to recognise it. -/
theorem conveyable_of_decode {expr : SExpr} {key : Key} (h : decode installed expr = .ok key) :
    key.Conveyable installed := by
  rcases cases_of_decode h with ⟨hash, readable, rfl⟩ | ⟨half, point, -⟩
  · exact ⟨hash, rfl, readable⟩
  · cases key with
    | hashKey key => exact nomatch point
    | publicKey key => exact .read h
    | privateKey key => exact .read h

theorem Conveyable.exists_encode {key : Key} (h : key.Conveyable installed) :
    ∃ expr, key.encode = .ok expr := by
  cases key with
  | hashKey key =>
    obtain ⟨hash, first, -⟩ := h
    exact ⟨hash.encode, map_eq_ok_iff.mpr ⟨hash, first, rfl⟩⟩
  | publicKey key => exact ⟨_, rfl⟩
  | privateKey key => exact ⟨_, rfl⟩

theorem nesting_encode_le {key : Key} {expr : SExpr} (h : key.encode = .ok expr) :
    expr.nesting ≤ 3 := by
  cases key with
  | hashKey key =>
    obtain ⟨hash, -, rfl⟩ := map_eq_ok_iff.mp h
    exact (by decide : 1 ≤ 3)
  | publicKey key =>
    cases h
    exact (KeyParts.nesting_encode _ _).le
  | privateKey key =>
    cases h
    exact (KeyParts.nesting_encode _ _).le

/-- A key known by hashes answers with the first of them when it is asked for that one. -/
theorem hash_first (hash : HashValue) (rest : List HashValue) :
    ((hashKey ⟨hash :: rest⟩).hash installed hash.algorithm).1 = .ok hash := by
  have found : (HashKey.mk (hash :: rest)).find? hash.algorithm = some hash :=
    List.find?_cons_of_pos (beq_self_eq_true hash.algorithm)
  exact HashKey.hash_eq_ok_iff.mpr found

/-- A key known by hashes is the same as any key that answers with the first of them. -/
theorem sameAs_of_answer {first answer : HashValue} {other : Key}
    (answered : (other.hash installed first.algorithm).1 = .ok answer)
    (same : answer.same first = true) (rest : List HashValue) :
    (hashKey ⟨first :: rest⟩).sameAs installed other = true := by
  rw [sameAs_hashKey, List.any_cons, answered, agree, same, Bool.true_or]

/-- A key known by hashes has the first of them in common with what is left of it. -/
theorem sameAs_bare_of_first {known : HashKey} {hash : HashValue} (first : known.first = .ok hash) :
    (hashKey known).sameAs installed (hashKey known).bare = true ∧
      (hashKey known).bare.sameAs installed (hashKey known) = true := by
  obtain ⟨_ | ⟨_, rest⟩⟩ := known
  · exact nomatch first
  · cases first
    let left : HashValue := .ofDigest hash.algorithm hash.digest
    have answered : ((hashKey ⟨[left]⟩).hash installed hash.algorithm).1 = .ok left :=
      hash_first left []
    have answers : ((hashKey ⟨hash :: rest⟩).hash installed left.algorithm).1 = .ok hash :=
      hash_first hash rest
    exact ⟨sameAs_of_answer answered (HashValue.same_iff.mpr ⟨rfl, rfl⟩) rest,
      sameAs_of_answer answers (HashValue.same_iff.mpr ⟨rfl, rfl⟩) []⟩

/-- The encoding of a key with a point is that of its point, and so are its hashes. -/
theorem sameAs_bare_of_unseeded (nonempty : registry.algorithms ≠ []) {key : Key} {half : PublicKey}
    (unseeded : Unseeded (some registry) key) (point : key.public? = some half) :
    key.sameAs (some registry) key.bare = true ∧ key.bare.sameAs (some registry) key = true := by
  have left : key.bare.public? = some half.bare := by
    cases key with
    | hashKey known => exact nomatch point
    | publicKey key => exact Option.some.inj point ▸ rfl
    | privateKey key => exact Option.some.inj point ▸ rfl
  have truth := unseeded.truthful point
  have truthLeft : half.bare.Truthful (some registry) := PublicKey.truthful_ofPoint _ _ _
  obtain ⟨alg, registered⟩ := List.exists_mem_of_ne_nil _ nonempty
  rw [sameAs_iff_of_truthful point left truth truthLeft,
    sameAs_iff_of_truthful left point truthLeft truth]
  exact ⟨⟨alg, registered, rfl⟩, ⟨alg, registered, rfl⟩⟩

theorem Conveyable.sameAs_bare (nonempty : registry.algorithms ≠ []) {key : Key}
    (h : key.Conveyable (some registry)) :
    key.sameAs (some registry) key.bare = true ∧ key.bare.sameAs (some registry) key = true := by
  cases key with
  | hashKey key =>
    obtain ⟨hash, first, -⟩ := h
    exact sameAs_bare_of_first first
  | publicKey key => exact sameAs_bare_of_unseeded nonempty h rfl
  | privateKey key => exact sameAs_bare_of_unseeded nonempty h rfl

end Key

/-! ### Names -/

namespace Name

theorem nesting_encode_le {name : Name} {expr : SExpr} (h : name.encode = .ok expr) :
    expr.nesting ≤ 4 := by
  rw [encode_eq] at h
  obtain ⟨principal, written, rfl⟩ := map_eq_ok_iff.mp h
  have inner : principal.nesting ≤ 3 := by
    cases named : name.principal with
    | none =>
      rw [named] at written
      cases written
      exact Nat.zero_le 3
    | some key =>
      rw [named] at written
      exact Key.nesting_encode_le written
  split
  · exact inner.trans (by decide)
  · apply Nat.succ_le_succ
    rw [SExpr.nestingItems_le_iff, List.forall_mem_cons, List.forall_mem_cons, List.forall_mem_map]
    exact ⟨Nat.zero_le 3, inner, fun _ _ => Nat.zero_le 3⟩

theorem exists_encode_of_conveyable {name : Name}
    (h : ∀ key, name.principal = some key → key.Conveyable installed) :
    ∃ expr, name.encode = .ok expr := by
  have written : ∃ principal, encodePrincipal name.principal = .ok principal := by
    cases named : name.principal with
    | none => exact ⟨_, rfl⟩
    | some key => exact (h key named).exists_encode
  obtain ⟨principal, written⟩ := written
  rw [encode_eq, written]
  exact ⟨_, rfl⟩

theorem sameAs_bare (nonempty : registry.algorithms ≠ []) {name : Name}
    (h : ∀ key, name.principal = some key → key.Conveyable (some registry)) :
    name.sameAs (some registry) name.bare = true ∧ name.bare.sameAs (some registry) name = true := by
  obtain ⟨principal, names⟩ := name
  cases principal with
  | none => simp [sameAs, bare]
  | some key =>
    obtain ⟨there, back⟩ := (h key rfl).sameAs_bare nonempty
    simp [sameAs, bare, there, back]

/-- No key is written as a list that is led by the word for names. -/
theorem ne_list_of_encodePrincipal {principal : Option Key} {expr : SExpr}
    (h : encodePrincipal principal = .ok expr) (items : List SExpr) :
    expr ≠ .list (.text "name" :: items) := by
  rintro rfl
  have noName := tagged?_of_encodePrincipal h
  rw [SExpr.tagged?_list_text] at noName
  exact nomatch noName

/-- Names with one expression have keys with one expression, and the same identifiers. -/
theorem eq_of_encode_eq {a b : Name} {expr : SExpr} (writtenA : a.encode = .ok expr)
    (writtenB : b.encode = .ok expr) :
    encodePrincipal a.principal = encodePrincipal b.principal ∧ a.names = b.names := by
  obtain ⟨keyA, namesA⟩ := a
  obtain ⟨keyB, namesB⟩ := b
  rw [encode_eq] at writtenA writtenB
  obtain ⟨principalA, madeA, rfl⟩ := map_eq_ok_iff.mp writtenA
  obtain ⟨principalB, madeB, same⟩ := map_eq_ok_iff.mp writtenB
  rw [madeA, madeB]
  cases namesA with
  | nil =>
    cases namesB with
    | nil => exact ⟨congrArg Except.ok same.symm, rfl⟩
    | cons first rest => exact absurd same.symm (ne_list_of_encodePrincipal madeA _)
  | cons first rest =>
    cases namesB with
    | nil => exact absurd same (ne_list_of_encodePrincipal madeB _)
    | cons other others =>
      obtain ⟨-, items⟩ := List.cons.inj (SExpr.list.inj same)
      obtain ⟨principals, identifiers⟩ := List.cons.inj items
      exact ⟨congrArg Except.ok principals.symm,
        (List.map_injective_iff.mpr @SExpr.text_injective identifiers).symm⟩

/-- A name is written and read back, from either form, with the same identifiers, with a key if it
has one, and as a name that is written alike; and it is the same name, whichever of the two is
asked.  This needs no more of its key than that it can be recognised by what is written of it.  Names
whose keys are written differently, or that have different identifiers, are written differently,
whatever the identifiers say. -/
theorem encoded_names_are_read_back :
    (∀ (installed : Installed) (name : Name),
      (∀ key, name.principal = some key → key.Conveyable installed) →
      ∃ expr, name.encode = .ok expr ∧
        (∀ octets, expr.Sent octets → SExpr.read octets = .ok expr) ∧
        ∃ again, decode installed expr = .ok again ∧ again.names = name.names ∧
          (again.principal = none ↔ name.principal = none) ∧ again.encode = .ok expr ∧
          ∀ registry, installed = some registry → registry.algorithms ≠ [] →
            name.sameAs installed again = true ∧ again.sameAs installed name = true) ∧
    ∀ (a b : Name) (expr : SExpr), a.encode = .ok expr → b.encode = .ok expr →
      encodePrincipal a.principal = encodePrincipal b.principal ∧ a.names = b.names := by
  refine ⟨fun installed name conveyable => ?_, fun a b expr => eq_of_encode_eq⟩
  obtain ⟨expr, written⟩ := exists_encode_of_conveyable conveyable
  have shallow : expr.nesting ≤ SExpr.nestingLimit := (nesting_encode_le written).trans (by decide)
  have readable : name.Readable installed := fun key named => (conveyable key named).readable
  refine ⟨expr, written, fun octets sent => sent.read_eq_ok shallow, name.bare,
    decode_encode readable written, rfl, Option.map_eq_none_iff, name.encode_bare.trans written, ?_⟩
  rintro registry rfl nonempty
  exact sameAs_bare nonempty conveyable

/-- A hash of a key, made of zeros. -/
def zeroHash : HashValue := .ofDigest "sha256" (List.replicate 32 0)

/-- A name of words that mean something elsewhere, in the name space of a key that is known by two
hashes. -/
def wordy : Name :=
  ⟨some (.hashKey (.ofList [zeroHash, .ofDigest "sha384" []])), ["name", "Self", ""]⟩

/-- Of the two hashes of the key the second is not read back, and could not be; the name is the same
without it, and is written as the name in the name space of the first hash. -/
theorem wordy_is_read_back :
    ∃ expr, wordy.encode = .ok expr ∧
      (∃ again, decode (some .standard) expr = .ok again ∧ again.names = ["name", "Self", ""] ∧
        wordy.sameAs (some .standard) again = true ∧ again.sameAs (some .standard) wordy = true) ∧
      ∀ other : Name, other.encode = .ok expr → other.names = wordy.names := by
  obtain ⟨there, apart⟩ := encoded_names_are_read_back
  have conveyable : ∀ key, wordy.principal = some key → key.Conveyable (some .standard) := by
    rintro _ ⟨⟩
    exact ⟨zeroHash, rfl, ⟨.standard, .sha256, rfl, rfl, rfl⟩⟩
  obtain ⟨expr, written, -, again, read, names, -, -, same⟩ :=
    there (some .standard) wordy conveyable
  refine ⟨expr, written, ⟨again, read, names, same .standard rfl (by decide)⟩, ?_⟩
  intro other alike
  exact (apart other wordy expr alike written).2

end Name

end SimplePki
