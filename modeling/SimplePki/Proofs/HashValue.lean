import SimplePki.Proofs.Outcome
import SimplePki.Proofs.SExpr.Structure

/-!
# Hash values and their expressions

A hash value is read back from its plain expression if it is under a registered algorithm and its
digest has the length of that algorithm; the places are not written.  Whatever is read is such a
hash value, and was written as one, up to the places.

## Main definitions

* `HashValue.Readable`: the hash values that are read back
* `HashValue.spelled`: the expression of a hash value with whatever is written for its places

## Main results

* `HashValue.compute_eq_ok_iff`: what is computed
* `HashValue.decode_eq_ok_iff`: the expressions that a hash value is read from
* `HashValue.decode_encode`, `HashValue.readable_of_decode`
-/

namespace SimplePki

theorem Registry.find_eq_ok_iff {registry : Registry} {name : String} {alg : DigestAlgorithm} :
    registry.find name = .ok alg ↔ registry.get? name = some alg := by
  unfold find
  cases registry.get? name with
  | none =>
    constructor
    · intro h
      exact nomatch h
    · intro h
      exact nomatch h
  | some found => rw [Except.ok.injEq, Option.some.injEq]

theorem Registry.find_name {registry : Registry} {alg : DigestAlgorithm}
    (h : registry.holds alg = true) : registry.find alg.name = .ok alg :=
  Registry.find_eq_ok_iff.mpr (Registry.get?_eq_some_iff.mpr ⟨rfl, h⟩)

namespace HashValue

theorem compute_of_find {registry : Registry} {algorithm : String} {alg : DigestAlgorithm}
    (h : registry.find algorithm = .ok alg) (octets : Octets) :
    compute (some registry) algorithm octets = .ok (.ofDigest algorithm (alg.digest octets)) := by
  rw [compute, Installed.registry, ok_bind, h, ok_bind]
  rfl

/-- What is computed is the digest under a registered algorithm, and names no places. -/
theorem compute_eq_ok_iff {registry : Registry} {algorithm : String} {octets : Octets}
    {hash : HashValue} :
    compute (some registry) algorithm octets = .ok hash ↔
      ∃ alg, registry.holds alg = true ∧ algorithm = alg.name ∧
        hash = ofDigest alg.name (alg.digest octets) := by
  constructor
  · intro h
    obtain ⟨_, installed, h⟩ := bind_eq_ok_iff.mp h
    obtain ⟨alg, known, made⟩ := bind_eq_ok_iff.mp h
    cases installed
    cases made
    obtain ⟨rfl, held⟩ := Registry.get?_eq_some_iff.mp (Registry.find_eq_ok_iff.mp known)
    exact ⟨alg, held, rfl, rfl⟩
  · rintro ⟨alg, held, rfl, rfl⟩
    exact compute_of_find (Registry.find_name held) octets

/-- The algorithm is registered, and the digest has its length. -/
structure Readable (installed : Installed) (hash : HashValue) : Prop where
  registered : ∃ registry alg, installed = some registry ∧
    registry.get? hash.algorithm = some alg ∧ hash.digest.length = alg.size

variable {installed : Installed}

theorem readable_ofDigest {registry : Registry} {alg : DigestAlgorithm}
    (held : registry.holds alg = true) (octets : Octets) :
    (ofDigest alg.name (alg.digest octets)).Readable (some registry) :=
  ⟨registry, alg, rfl, Registry.get?_eq_some_iff.mpr ⟨rfl, held⟩, alg.length_digest octets⟩

/-- What is made of an algorithm's name, of a digest and of places: a readable hash value of these,
if the places can be read. -/
theorem decodeParts_eq_ok_iff {algorithm : String} {digest : Octets} {places : Option SExpr}
    {hash : HashValue} :
    decodeParts installed algorithm digest places = .ok hash ↔
      hash.Readable installed ∧ (hash.algorithm = algorithm ∧ hash.digest = digest) ∧
        places.elim (.ok []) decodeUris = .ok hash.uris := by
  unfold decodeParts
  constructor
  · intro h
    obtain ⟨registry, present, h⟩ := bind_eq_ok_iff.mp h
    obtain ⟨alg, known, h⟩ := bind_eq_ok_iff.mp h
    have found := Registry.find_eq_ok_iff.mp known
    -- the algorithm was looked up, so that there is a registry
    have isInstalled : installed = some registry := by
      cases installed with
      | none => exact nomatch present
      | some other => exact congrArg some (Except.ok.inj present)
    by_cases length : digest.length = alg.size
    · rw [if_neg (fun differ => differ length)] at h
      cases places with
      | none =>
        cases h
        exact ⟨⟨registry, alg, isInstalled, found, length⟩, ⟨rfl, rfl⟩, rfl⟩
      | some expr =>
        obtain ⟨uris, read, made⟩ := bind_eq_ok_iff.mp h
        cases made
        exact ⟨⟨registry, alg, isInstalled, found, length⟩, ⟨rfl, rfl⟩, read⟩
    · rw [if_pos length] at h
      exact nomatch h
  · rintro ⟨⟨registry, alg, rfl, found, length⟩, ⟨rfl, rfl⟩, read⟩
    rw [Installed.registry, ok_bind, Registry.find_eq_ok_iff.mpr found, ok_bind,
      if_neg (fun differ => differ length)]
    cases places with
    | none =>
      obtain ⟨algorithm, digest, uris⟩ := hash
      cases read
      rfl
    | some expr => exact bind_eq_ok_iff.mpr ⟨hash.uris, read, rfl⟩

/-! ### Expressions -/

/-- The expression of a hash value with what is written for its places, if anything is. -/
def spelled (hash : HashValue) (places : Option SExpr) : SExpr :=
  .list (.text "hash" :: .text hash.algorithm :: .ofOctets hash.digest :: places.toList)

theorem decode_spelled (hash : HashValue) (places : Option SExpr) :
    decode installed (hash.spelled places) =
      decodeParts installed hash.algorithm hash.digest places := by
  have isHash : (SExpr.text "hash").isText "hash" = true := by
    rw [SExpr.isText_text]
    exact decide_eq_true rfl
  have few : ¬1 < places.toList.length := Nat.not_lt.mpr Option.length_toList_le
  rw [decode, spelled, SExpr.items?_list]
  simp only [pure_bind, if_neg few, isHash, SExpr.text?_text, SExpr.octets?_ofOctets,
    Option.head?_toList]
  rfl

/-- A hash value is read from its plain expression, or from that with its places, if it is readable;
and from no other. -/
theorem decode_eq_ok_iff {expr : SExpr} {hash : HashValue} :
    decode installed expr = .ok hash ↔ hash.Readable installed ∧
      ∃ places, expr = hash.spelled places ∧ places.elim (.ok []) decodeUris = .ok hash.uris := by
  constructor
  · intro h
    unfold decode at h
    cases expr with
    | atom leaf => exact nomatch h
    | list items =>
      simp only [SExpr.items?_list, pure_bind] at h
      split at h
      · next head algorithm digest rest =>
        split at h
        · exact nomatch h
        · next few =>
          split at h
          · exact nomatch h
          · next led =>
            split at h
            · exact nomatch h
            · exact nomatch h
            · next name octets named held =>
              obtain ⟨readable, ⟨rfl, rfl⟩, read⟩ := decodeParts_eq_ok_iff.mp h
              have isHash : head = .text "hash" := by
                rw [Bool.not_eq_true', Bool.not_eq_false] at led
                exact SExpr.isText_iff.mp led
              refine ⟨readable, rest.head?, ?_, read⟩
              rw [spelled, isHash, SExpr.eq_text_of_text? named, SExpr.octets?_eq_some_iff.mp held]
              match rest with
              | [] => rfl
              | [places] => rfl
              | _ :: _ :: _ => exact absurd (by simp) few
      · exact nomatch h
  · rintro ⟨readable, places, rfl, read⟩
    rw [decode_spelled]
    exact decodeParts_eq_ok_iff.mpr ⟨readable, ⟨rfl, rfl⟩, read⟩

/-- What is read from any expression is readable. -/
theorem readable_of_decode {expr : SExpr} {hash : HashValue} (h : decode installed expr = .ok hash) :
    hash.Readable installed := (decode_eq_ok_iff.mp h).1

/-- A readable hash value is read back from its plain expression, without places. -/
theorem decode_encode {hash : HashValue} (h : hash.Readable installed) :
    decode installed hash.encode = .ok (ofDigest hash.algorithm hash.digest) :=
  decode_eq_ok_iff.mpr ⟨⟨h.registered⟩, none, rfl, rfl⟩

theorem isListOf_encode (hash : HashValue) (name : String) :
    hash.encode.isListOf name = decide ("hash" = name) := SExpr.isListOf_list_text "hash" name _

theorem spelled_eq_encode_iff {hash other : HashValue} {places : Option SExpr} :
    hash.spelled places = other.encode ↔ places = none ∧ hash.fingerprint = other.fingerprint := by
  cases places <;> simp [spelled, encode, fingerprint, SExpr.text_inj, SExpr.ofOctets]

/-- What is written for the places aside, the expression of a hash value is its plain one. -/
theorem encode_eq_of_spelled_eq {hash other : HashValue} {places more : Option SExpr}
    (h : hash.spelled places = other.spelled more) : hash.encode = other.encode := by
  simp only [spelled, SExpr.list.injEq, List.cons.injEq] at h
  obtain ⟨-, algorithm, digest, -⟩ := h
  rw [encode, encode, algorithm, digest]

end HashValue

end SimplePki
