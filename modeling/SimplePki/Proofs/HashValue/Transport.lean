import SimplePki.Proofs.Key.Identity
import SimplePki.Proofs.SExpr.ReadsAdvanced

/-!
# Hash values in transport

Hash values are computed, read, and answered by keys.  All of them are under a registered algorithm
and have a digest of its length, since what is computed has that length and what is read is asked
for it; so all of them can be read again.  Naming places makes no difference to this, as a hash value
without places is written without a list of them, and such a list is never empty.

How a place is written and read is a matter of its own.  A hash value is read back with its places
exactly if each of them is read back.

## Main definitions

* `HashValue.Produced`: the hash values that one can come by
* `HashValue.places`: what is written for the places of a hash value

## Main results

* `HashValue.Produced.readable`: whatever is produced can be read back
* `HashValue.decode_encodeWithUris_iff`: when the places are read back as well
* `HashValue.produced_hash_values_are_read_back`
-/

namespace SimplePki

variable {installed : Installed}

/-! ### Where hash values come from -/

/-- All that is known of a key that was given no hash, and is known by hashes, can be read back. -/
theorem Key.Unseeded.readable_of_mem {key : Key} (h : Unseeded installed key) {known : HashKey}
    (isHash : key = hashKey known) {hash : HashValue} (mem : hash ∈ known.hashes) :
    hash.Readable installed := by
  induction h with
  | ofPoint curve x y => exact nomatch isHash
  | ofParts curve x y scalar => exact nomatch isHash
  | read h =>
    rcases cases_of_decode h with ⟨first, readable, rfl⟩ | ⟨half, point, -⟩
    · cases isHash
      rwa [List.mem_singleton.mp mem]
    · rw [isHash] at point
      exact nomatch point
  | @asked key h algorithm ih =>
    cases key with
    | hashKey key => exact ih isHash
    | publicKey key => exact nomatch isHash
    | privateKey key => exact nomatch isHash
  | half h known ih => exact nomatch isHash

namespace HashValue

theorem readable_of_compute {algorithm : String} {octets : Octets} {hash : HashValue}
    (h : compute installed algorithm octets = .ok hash) : hash.Readable installed := by
  cases installed with
  | none => exact nomatch h
  | some registry =>
    obtain ⟨alg, held, rfl, rfl⟩ := compute_eq_ok_iff.mp h
    exact readable_ofDigest held octets

/-- What a key answers that was given no hash can be read back. -/
theorem readable_of_unseeded {key : Key} (unseeded : Key.Unseeded installed key)
    {algorithm : String} {hash : HashValue} (h : (key.hash installed algorithm).1 = .ok hash) :
    hash.Readable installed := by
  -- a key without a point answers with a hash that was read, any other computes its answer
  cases point : key.public? with
  | none =>
    cases key with
    | hashKey known =>
      have found := HashKey.hash_eq_ok_iff.mp h
      exact unseeded.readable_of_mem rfl (List.mem_of_find?_eq_some found)
    | publicKey key => exact nomatch point
    | privateKey key => exact nomatch point
  | some half =>
    rw [Key.hash_of_truthful point (unseeded.truthful point)] at h
    exact readable_of_compute h

/-- The hash values that one can come by: those that are computed from octets or from an expression,
those that are read, the answers of keys that were given no hash, and all of these with other
places. -/
inductive Produced (installed : Installed) : HashValue → Prop
  | computed {algorithm : String} {octets : Octets} {hash : HashValue}
      (h : compute installed algorithm octets = .ok hash) : Produced installed hash
  | ofExpr {algorithm : String} {expr : SExpr} {hash : HashValue}
      (h : ofExpr installed algorithm expr = .ok hash) : Produced installed hash
  | read {expr : SExpr} {hash : HashValue} (h : decode installed expr = .ok hash) :
      Produced installed hash
  | answered {key : Key} (unseeded : Key.Unseeded installed key) {algorithm : String}
      {hash : HashValue} (h : (key.hash installed algorithm).1 = .ok hash) :
      Produced installed hash
  | withUris {hash : HashValue} (h : Produced installed hash) (uris : List Uri) :
      Produced installed { hash with uris }

/-- Whatever is produced can be read back. -/
theorem Produced.readable {hash : HashValue} (h : Produced installed hash) :
    hash.Readable installed := by
  induction h with
  | computed h => exact readable_of_compute h
  | ofExpr h => exact readable_of_compute h
  | read h => exact readable_of_decode h
  | answered unseeded h => exact readable_of_unseeded unseeded h
  | withUris h uris ih => exact ⟨ih.registered⟩

/-! ### Places -/

/-- What is written for the places of a hash value, if there are any. -/
def places (hash : HashValue) : Option SExpr :=
  if hash.uris.isEmpty then none else some (encodeUris hash.uris)

theorem encodeWithUris_eq_spelled (hash : HashValue) :
    hash.encodeWithUris = hash.spelled hash.places := by
  unfold encodeWithUris places
  split <;> rfl

theorem decodeUri_text_eq_ok_iff {text : String} {uri : Uri} :
    decodeUri (.text text) = .ok uri ↔ Uri.ofText text = .ok uri := by
  rw [decodeUri, SExpr.text?_text]
  dsimp only
  cases Uri.ofText text with
  | ok other =>
    dsimp only
    rw [Except.ok.injEq, Except.ok.injEq]
  | error fault =>
    constructor
    · intro h
      exact nomatch h
    · intro h
      exact nomatch h

/-- Places are read back, without any as no places, exactly if each of them is. -/
theorem decodeUris_places_eq_ok_iff {hash : HashValue} :
    hash.places.elim (.ok []) decodeUris = .ok hash.uris ↔
      ∀ uri ∈ hash.uris, Uri.ofText uri.toText = .ok uri := by
  unfold places
  cases hash.uris with
  | nil => exact iff_of_true rfl fun _ mem => absurd mem List.not_mem_nil
  | cons first rest =>
    have each : ((first :: rest).map fun uri => SExpr.text uri.toText).mapM decodeUri =
        .ok (first :: rest) ↔ ∀ uri ∈ first :: rest, decodeUri (.text uri.toText) = .ok uri :=
      mapM_map_eq_ok_iff
    rw [List.isEmpty_cons, if_neg (by simp), Option.elim_some, decodeUris, encodeUris,
      SExpr.tagged?_list_text]
    exact each.trans (forall₂_congr fun _ _ => decodeUri_text_eq_ok_iff)

/-- A readable hash value is read back with its places exactly if each place is. -/
theorem decode_encodeWithUris_iff {hash : HashValue} (h : hash.Readable installed) :
    decode installed hash.encodeWithUris = .ok hash ↔
      ∀ uri ∈ hash.uris, Uri.ofText uri.toText = .ok uri := by
  rw [encodeWithUris_eq_spelled, decode_spelled, decodeParts_eq_ok_iff, decodeUris_places_eq_ok_iff]
  exact ⟨fun read => read.2.2, fun each => ⟨h, ⟨rfl, rfl⟩, each⟩⟩

/-! ### Both forms -/

theorem nesting_encodeWithUris_le (hash : HashValue) : hash.encodeWithUris.nesting ≤ 2 := by
  have uris : ∀ places ∈ hash.places.toList, places.nesting ≤ 1 := by
    intro places mem
    unfold HashValue.places at mem
    split at mem
    · exact absurd mem List.not_mem_nil
    · obtain rfl := List.mem_singleton.mp mem
      apply Nat.succ_le_succ
      rw [SExpr.nestingItems_le_iff, List.forall_mem_cons, List.forall_mem_map]
      exact ⟨Nat.le_refl 0, fun _ _ => Nat.le_refl 0⟩
  rw [encodeWithUris_eq_spelled, spelled]
  apply Nat.succ_le_succ
  rw [SExpr.nestingItems_le_iff]
  simp only [List.forall_mem_cons]
  exact ⟨Nat.zero_le 1, Nat.zero_le 1, Nat.zero_le 1, uris⟩

/-- The name of an algorithm is short, and so are its digests. -/
theorem measured_encode {hash : HashValue} (h : hash.Readable installed) :
    hash.encode.Measured := by
  obtain ⟨registry, alg, -, found, length⟩ := h.registered
  obtain ⟨named, -⟩ := Registry.get?_eq_some_iff.mp found
  have name : (SExpr.text hash.algorithm).Measured := by
    rw [← named]
    exact SExpr.measured_ofOctets_iff.mpr (by cases alg <;> decide)
  have digest : (SExpr.ofOctets hash.digest).Measured := by
    rw [SExpr.measured_ofOctets_iff, length]
    cases alg <;> decide
  have word : (SExpr.text "hash").Measured := SExpr.measured_ofOctets_iff.mpr (by decide)
  rw [encode, SExpr.measured_cons_iff, SExpr.measured_cons_iff, SExpr.measured_cons_iff]
  exact ⟨word, name, digest, SExpr.measured_nil⟩

theorem read_pack_encode {hash : HashValue} (h : hash.Readable installed) :
    SExpr.read hash.encode.pack = .ok hash.encode :=
  SExpr.read_pack_of_measured (by decide : 1 ≤ SExpr.nestingLimit) (measured_encode h)

/-- What is computed under a registered algorithm has a digest of its length.  Whatever hash value
one can come by is read back: from its plain form an equal one without places, and from its long
form, whichever way that is sent, the hash value with the same places in the same order if each of
them is read back from its text, and not otherwise. -/
theorem produced_hash_values_are_read_back :
    (∀ (registry : Registry) (alg : DigestAlgorithm) (octets : Octets),
      alg ∈ registry.algorithms →
      ∃ hash, compute (some registry) alg.name octets = .ok hash ∧ hash.algorithm = alg.name ∧
        hash.digest.length = alg.size) ∧
    ∀ (installed : Installed) (hash : HashValue), Produced installed hash →
      SExpr.read hash.encode.pack = .ok hash.encode ∧
      (∃ again, decode installed hash.encode = .ok again ∧ again.same hash = true ∧
        again.uris = []) ∧
      (∀ octets, hash.encodeWithUris.Sent octets →
        SExpr.read octets = .ok hash.encodeWithUris) ∧
      (decode installed hash.encodeWithUris = .ok hash ↔
        ∀ uri ∈ hash.uris, Uri.ofText uri.toText = .ok uri) := by
  constructor
  · intro registry alg octets registered
    have held := Registry.mem_algorithms_iff.mp registered
    exact ⟨_, compute_of_find (Registry.find_name held) octets, rfl, alg.length_digest octets⟩
  · intro installed hash produced
    have readable := produced.readable
    refine ⟨read_pack_encode readable, ⟨_, decode_encode readable, ?_, rfl⟩, fun octets sent => ?_,
      decode_encodeWithUris_iff readable⟩
    · exact same_iff.mpr ⟨rfl, rfl⟩
    · exact sent.read_eq_ok (hash.nesting_encodeWithUris_le.trans (by decide))

/-- The hash of a key, which can be had in two places. -/
def twofold : HashValue :=
  let place (path : String) : Uri :=
    ⟨"http".toList, some ⟨[], [], .name "example.com".toList, none⟩, path.toList, none, none⟩
  { ofDigest "sha384" (DigestAlgorithm.sha384.digest (PublicKey.ofPoint .p384 1 2).pack) with
    uris := [place "/key", place "/"] }

/-- The hash is read back from its text without its places, or with both. -/
theorem twofold_is_read_back :
    (∃ hash, compute (some .standard) "sha384" [] = .ok hash ∧ hash.digest.length = 48) ∧
    (∃ again, decode (some .standard) twofold.encode = .ok again ∧ again.same twofold = true ∧
      again.uris = []) ∧
    SExpr.read (Octets.ofText twofold.encodeWithUris.toAdvanced) = .ok twofold.encodeWithUris ∧
    decode (some .standard) twofold.encodeWithUris = .ok twofold := by
  obtain ⟨sized, received⟩ := produced_hash_values_are_read_back
  obtain ⟨hash, computed, -, length⟩ := sized .standard .sha384 [] (by decide)
  have unseeded : Key.Unseeded (some .standard) (.publicKey (.ofPoint .p384 1 2)) :=
    .ofPoint .p384 1 2
  have produced : Produced (some .standard) twofold :=
    .withUris (.answered unseeded (Key.hash_of_truthful rfl (unseeded.truthful rfl) "sha384"))
      twofold.uris
  obtain ⟨-, plain, long, places⟩ := received (some .standard) twofold produced
  exact ⟨⟨hash, computed, length⟩, plain, long _ .advanced, places.mpr (by decide +kernel)⟩

end HashValue

end SimplePki
