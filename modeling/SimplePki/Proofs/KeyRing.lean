import SimplePki.KeyRing
import SimplePki.Proofs.Key.TrueHash

/-!
# Key rings take every key

Where a registry is installed, each of its algorithms has a hash for every key, and so every key can
be added to a ring.  What the key remembered is dropped: it is kept with its true hashes, all of
them and nothing else.

## Main definitions

* `PublicKey.hashed`: the key that remembers its true hashes
* `KeyRing.registerAll`: the ring with more keys, added one after the other

## Main results

* `KeyRing.register_eq`: a key is added with its true hashes
* `KeyRing.registerAll_of_installed`: every key can be added
-/

namespace SimplePki

variable {registry : Registry}

/-- The key that remembers its true hash under each registered algorithm, in the order of their
names, and nothing else. -/
def PublicKey.hashed (registry : Registry) (key : PublicKey) : PublicKey :=
  { key with memo := ⟨registry.algorithms.map key.hashUnder⟩ }

theorem Registry.nodup_algorithms (registry : Registry) : registry.algorithms.Nodup :=
  List.Pairwise.filter _ (by decide : DigestAlgorithm.all.Nodup)

namespace KeyRing

/-- A key that remembers its true hashes under some algorithms is asked for those under others. -/
theorem hashAll_eq {done todo : List DigestAlgorithm} (distinct : (done ++ todo).Nodup)
    (registered : ∀ alg ∈ todo, alg ∈ registry.algorithms) {key : PublicKey}
    (remembers : key.memo.hashes = done.map key.hashUnder) :
    hashAll (some registry) todo key =
      .ok (todo.map key.hashUnder, { key with memo := ⟨(done ++ todo).map key.hashUnder⟩ }) := by
  induction todo generalizing done key with
  | nil =>
    rw [List.append_nil, ← remembers]
    rfl
  | cons alg todo ih =>
    obtain ⟨first, others⟩ := List.forall_mem_cons.mp registered
    -- no hash under this algorithm is remembered, as each algorithm comes once
    have unknown : key.memo.find? alg.name = none := by
      rw [HashKey.find?, remembers, List.find?_map, Option.map_eq_none_iff, List.find?_eq_none]
      intro other mem named
      have same : other = alg := DigestAlgorithm.name_injective (eq_of_beq named)
      exact (List.nodup_append.mp distinct).2.2 other mem alg List.mem_cons_self same
    have asked : key.hash (some registry) alg.name =
        (.ok (key.hashUnder alg), key.withHash (key.hashUnder alg)) := by
      rw [PublicKey.hash, unknown]
      dsimp only
      rw [PublicKey.trueHash_of_mem first]
    have afterwards : (key.withHash (key.hashUnder alg)).memo.hashes =
        (done ++ [alg]).map key.hashUnder := by
      have absent : (key.memo.find? (key.hashUnder alg).algorithm).isSome = false := by
        rw [PublicKey.hashUnder, HashValue.ofDigest, unknown]
        rfl
      rw [PublicKey.withHash, HashKey.insert, absent, if_neg Bool.false_ne_true, remembers,
        List.map_append]
      rfl
    rw [List.append_cons] at distinct
    have rest := ih distinct others afterwards
    rw [← List.append_cons] at rest
    rw [hashAll, asked]
    dsimp only
    rw [ok_bind, rest, ok_bind]
    rfl

/-- A key is added with its true hashes, whatever it remembered. -/
theorem register_eq (registry : Registry) (ring : KeyRing) (key : PublicKey) :
    ring.register (some registry) key =
      .ok (registry.algorithms.length,
        ring.place (key.hashed registry) (registry.algorithms.map key.hashUnder)) := by
  have hashes := hashAll_eq (registry.nodup_algorithms : ([] ++ registry.algorithms).Nodup)
    (fun _ mem => mem) (show key.bare.memo.hashes = [].map key.bare.hashUnder from rfl)
  rw [PublicKey.bare] at hashes
  rw [register, Installed.registry, ok_bind, hashes, ok_bind]
  dsimp only
  rw [List.length_map]
  rfl

/-! ### Adding several keys -/

/-- The ring with more keys, added one after the other. -/
def registerAll (installed : Installed) (ring : KeyRing) (keys : List PublicKey) :
    Outcome KeyRing :=
  keys.foldlM (fun ring key => (ring.register installed key).map Prod.snd) ring

section RegisterAll

variable {installed : Installed} {ring between after : KeyRing}

theorem registerAll_singleton {count : Nat} {key : PublicKey}
    (h : ring.register installed key = .ok (count, after)) :
    ring.registerAll installed [key] = .ok after := by
  rw [registerAll, List.foldlM_cons, h]
  rfl

theorem registerAll_append {keys more : List PublicKey}
    (first : ring.registerAll installed keys = .ok between)
    (second : between.registerAll installed more = .ok after) :
    ring.registerAll installed (keys ++ more) = .ok after := by
  unfold registerAll at *
  rw [List.foldlM_append, first, ok_bind, second]

/-- The first key is added with its true hashes, and then the others are. -/
theorem registerAll_cons (registry : Registry) (ring : KeyRing) (key : PublicKey)
    (keys : List PublicKey) :
    ring.registerAll (some registry) (key :: keys) =
      (ring.place (key.hashed registry) (registry.algorithms.map key.hashUnder)).registerAll
        (some registry) keys := by
  rw [registerAll, List.foldlM_cons, register_eq]
  rfl

/-- Any keys can be added where a registry is installed. -/
theorem registerAll_of_installed (registry : Registry) (ring : KeyRing) (keys : List PublicKey) :
    ∃ after, ring.registerAll (some registry) keys = .ok after := by
  induction keys generalizing ring with
  | nil => exact ⟨ring, rfl⟩
  | cons key keys ih =>
    rw [registerAll_cons]
    exact ih _

end RegisterAll

/-- What holds of a ring, and is kept by adding a key with its true hashes, holds after any keys
were added. -/
theorem registerAll_induction {motive : KeyRing → Prop}
    (place : ∀ (ring : KeyRing) (key : PublicKey), motive ring →
      motive (ring.place (key.hashed registry) (registry.algorithms.map key.hashUnder)))
    {ring after : KeyRing} (start : motive ring) {keys : List PublicKey}
    (h : ring.registerAll (some registry) keys = .ok after) : motive after := by
  induction keys generalizing ring with
  | nil =>
    cases h
    exact start
  | cons key keys ih =>
    rw [registerAll_cons] at h
    exact ih (place ring key start) h

/-- What holds of all keys of a ring and of one more holds of all keys of the ring with that key. -/
theorem forall_mem_place {holds : PublicKey → Prop} {ring : KeyRing} {key : PublicKey}
    (before : ∀ other ∈ ring.keys, holds other) (added : holds key) (hashes : List HashValue) :
    ∀ other ∈ (ring.place key hashes).keys, holds other := by
  unfold place
  split
  · intro other mem
    rcases List.mem_or_eq_of_mem_set mem with old | rfl
    · exact before other old
    · exact added
  · intro other mem
    rcases List.mem_append.mp mem with old | new
    · exact before other old
    · rw [List.mem_singleton.mp new]
      exact added

end KeyRing

end SimplePki
