import Mathlib.Data.Finset.Card
import SimplePki.Proofs.KeyRing

/-!
# Key rings as sets of points

A key ring keeps its keys in slots, in the order in which they came, and an index that leads from
every hash of a key to its slot.  What can be told from its answers is a set of points, and adding a
key adds its point to the set: neither the order of the keys, nor how often each was added, nor what
it remembered makes a difference.

Slots are found by hashes alone, so that this needs points whose hashes differ.

## Main definitions

* `KeyRing.points`: the points of keys
* `KeyRing.Apart`: no two points of a set have a digest in common
* `KeyRing.Refines`: a ring stands for a set of points

## Main results

* `KeyRing.Refines.place`: adding a key is inserting its point
* `KeyRing.Refines.get?_eq_some_iff`: a ring finds the points of the set by their true hashes
* `KeyRing.get?_of_registerAll`: what is found is found again when more keys were added
* `KeyRing.rings_answer_for_sets_of_points`: what a ring answers depends on the set only
-/

namespace SimplePki

variable {registry : Registry}

/-- A key remembers its true hashes whatever it remembered before. -/
theorem PublicKey.hashed_congr {a b : PublicKey} (h : a.bare = b.bare) :
    a.hashed registry = b.hashed registry := by
  have hashes : a.hashUnder = b.hashUnder := funext fun alg => by
    rw [hashUnder, hashUnder, pack_congr h]
  obtain ⟨curve, x, y⟩ := samePoint_iff.mp (bare_eq_iff.mp h)
  rw [hashed, hashed, hashes, curve, x, y]

theorem PublicKey.bare_hashed (key : PublicKey) : (key.hashed registry).bare = key.bare := rfl

theorem PublicKey.hasHash_iff_fingerprint {key : PublicKey} {hash : HashValue} :
    key.HasHash registry hash ↔
      ∃ alg ∈ registry.algorithms, hash.fingerprint = (key.hashUnder alg).fingerprint := by
  simp only [HasHash, HashValue.fingerprint, Prod.mk.injEq, algorithm_hashUnder, digest_hashUnder]

theorem PublicKey.fingerprint_hashUnder_inj {a b : PublicKey} {alg other : DigestAlgorithm} :
    (a.hashUnder alg).fingerprint = (b.hashUnder other).fingerprint ↔
      alg = other ∧ alg.digest a.pack = other.digest b.pack := by
  rw [HashValue.fingerprint, HashValue.fingerprint, Prod.mk.injEq, algorithm_hashUnder,
    algorithm_hashUnder, digest_hashUnder, digest_hashUnder]
  exact and_congr_left' ⟨DigestAlgorithm.name_injective, congrArg DigestAlgorithm.name⟩

namespace KeyRing

/-! ### The index -/

theorem lookup_filter_ne {wanted dropped : Fingerprint} (h : wanted ≠ dropped)
    (index : List (Fingerprint × Nat)) :
    (index.filter fun entry => entry.1 != dropped).lookup wanted = index.lookup wanted := by
  induction index with
  | nil => rfl
  | cons entry rest ih =>
    by_cases isDropped : entry.1 = dropped
    · have differ : (wanted == entry.1) = false := by
        rw [isDropped]
        exact beq_false_of_ne h
      rw [List.filter_cons_of_neg (by simp [isDropped]), ih, List.lookup_cons, differ]
    · rw [List.filter_cons_of_pos (by simp [isDropped]), List.lookup_cons, List.lookup_cons, ih]

/-- The hashes of a key lead to its place, and all others to where they led. -/
theorem lookup_indexAll (slot : Nat) (hashes : List HashValue) (index : List (Fingerprint × Nat))
    (wanted : Fingerprint) :
    (indexAll slot hashes index).lookup wanted =
      if wanted ∈ hashes.map HashValue.fingerprint then some slot else index.lookup wanted := by
  induction hashes generalizing index with
  | nil => rfl
  | cons hash rest ih =>
    rw [indexAll, List.foldl_cons, ← indexAll, ih, List.map_cons]
    by_cases later : wanted ∈ rest.map HashValue.fingerprint
    · rw [if_pos later, if_pos (List.mem_cons_of_mem _ later)]
    · rw [if_neg later]
      by_cases first : wanted = hash.fingerprint
      · rw [if_pos (List.mem_cons.mpr (Or.inl first)), ← first, List.lookup_cons_self]
      · rw [if_neg (List.not_mem_cons_of_ne_of_not_mem first later), List.lookup_cons,
          beq_false_of_ne first, lookup_filter_ne first]

/-- An entry of the index was there before, or leads from a hash of the key to its place. -/
theorem mem_indexAll {slot : Nat} {hashes : List HashValue} {index : List (Fingerprint × Nat)}
    {entry : Fingerprint × Nat} (h : entry ∈ indexAll slot hashes index) :
    entry ∈ index ∨ ∃ hash ∈ hashes, entry = (hash.fingerprint, slot) := by
  induction hashes generalizing index with
  | nil => exact Or.inl h
  | cons hash rest ih =>
    rw [indexAll, List.foldl_cons, ← indexAll] at h
    rcases ih h with before | ⟨later, mem, made⟩
    · rcases List.mem_cons.mp before with made | kept
      · exact Or.inr ⟨hash, List.mem_cons_self, made⟩
      · exact Or.inl (List.mem_of_mem_filter kept)
    · exact Or.inr ⟨later, List.mem_cons_of_mem _ mem, made⟩

/-- The fingerprints that a key is indexed by. -/
theorem mem_fingerprints {key : PublicKey} {wanted : Fingerprint} :
    wanted ∈ (registry.algorithms.map key.hashUnder).map HashValue.fingerprint ↔
      ∃ alg ∈ registry.algorithms, (key.hashUnder alg).fingerprint = wanted := by
  rw [List.map_map, List.mem_map]
  rfl

theorem mem_of_slot? {ring : KeyRing} {hash : HashValue} {slot : Nat}
    (h : ring.slot? hash = some slot) : (hash.fingerprint, slot) ∈ ring.index := by
  obtain ⟨before, after, split, -⟩ := List.lookup_eq_some_iff.mp h
  rw [split]
  exact List.mem_append_right before List.mem_cons_self

/-! ### Sets of points -/

/-- The points of keys, as keys that remember nothing. -/
def points (keys : List PublicKey) : Finset PublicKey := (keys.map PublicKey.bare).toFinset

theorem mem_points {keys : List PublicKey} {point : PublicKey} :
    point ∈ points keys ↔ ∃ key ∈ keys, key.bare = point := by
  rw [points, List.mem_toFinset, List.mem_map]

theorem points_cons (key : PublicKey) (keys : List PublicKey) :
    points (key :: keys) = insert key.bare (points keys) := by
  rw [points, List.map_cons, List.toFinset_cons, points]

theorem points_append_singleton (keys : List PublicKey) (key : PublicKey) :
    points (keys ++ [key]) = insert key.bare (points keys) := by
  ext point
  rw [mem_points, Finset.mem_insert, mem_points]
  simp [or_comm, eq_comm]

theorem points_append (keys more : List PublicKey) :
    points (keys ++ more) = points keys ∪ points more := by
  rw [points, List.map_append, List.toFinset_append, points, points]

/-- No two points of the set have a digest in common under a registered algorithm. -/
def Apart (registry : Registry) (held : Finset PublicKey) : Prop :=
  ∀ a ∈ held, ∀ b ∈ held, ∀ alg ∈ registry.algorithms, alg.digest a.pack = alg.digest b.pack → a = b

instance (registry : Registry) (held : Finset PublicKey) : Decidable (Apart registry held) :=
  inferInstanceAs (Decidable (∀ a ∈ held, ∀ b ∈ held, ∀ alg ∈ registry.algorithms,
    alg.digest a.pack = alg.digest b.pack → a = b))

theorem Apart.mono {held more : Finset PublicKey} (h : Apart registry more) (sub : held ⊆ more) :
    Apart registry held := fun a memA b memB => h a (sub memA) b (sub memB)

/-- The ring stands for a set of points.  Its keys have these points and remember their true
hashes; every hash of a key leads to it, and nothing else leads anywhere. -/
structure Refines (registry : Registry) (ring : KeyRing) (held : Finset PublicKey) : Prop where
  hashed : ∀ key ∈ ring.keys, key.hashed registry = key
  points : points ring.keys = held
  complete : ∀ {slot : Nat} {key : PublicKey}, ring.keys[slot]? = some key →
    ∀ alg ∈ registry.algorithms, ring.slot? (key.hashUnder alg) = some slot
  sound : ∀ entry ∈ ring.index, ∃ key, ring.keys[entry.2]? = some key ∧
    ∃ alg ∈ registry.algorithms, entry.1 = (key.hashUnder alg).fingerprint

namespace Refines

variable {ring : KeyRing} {held : Finset PublicKey}

theorem empty : Refines registry .empty ∅ where
  hashed _ mem := absurd mem List.not_mem_nil
  points := rfl
  complete h := nomatch h
  sound _ mem := absurd mem List.not_mem_nil

theorem bare_mem (refines : Refines registry ring held) {key : PublicKey} (h : key ∈ ring.keys) :
    key.bare ∈ held := by
  rw [← refines.points, mem_points]
  exact ⟨key, h, rfl⟩

/-- The key of a point of the set is in the ring if it remembers its true hashes. -/
theorem mem_keys (refines : Refines registry ring held) {key : PublicKey}
    (h : key.bare ∈ held) : key.hashed registry ∈ ring.keys := by
  rw [← refines.points, mem_points] at h
  obtain ⟨other, mem, same⟩ := h
  rw [← PublicKey.hashed_congr same, refines.hashed other mem]
  exact mem

/-- A hash that leads somewhere leads to a key that has it. -/
theorem exists_of_slot? (refines : Refines registry ring held) {hash : HashValue} {slot : Nat}
    (h : ring.slot? hash = some slot) :
    ∃ key, ring.keys[slot]? = some key ∧ ∃ alg ∈ registry.algorithms,
      hash.fingerprint = (key.hashUnder alg).fingerprint :=
  refines.sound (hash.fingerprint, slot) (mem_of_slot? h)

/-- A true hash of a key leads where the key is. -/
theorem slot?_of_hasHash (refines : Refines registry ring held) {key : PublicKey} {slot : Nat}
    (found : ring.keys[slot]? = some key) {hash : HashValue} (h : key.HasHash registry hash) :
    ring.slot? hash = some slot := by
  obtain ⟨alg, registered, same⟩ := PublicKey.hasHash_iff_fingerprint.mp h
  rw [slot?, same]
  exact refines.complete found alg registered

/-- A key that a true hash of another key leads to has the point of that key. -/
theorem bare_eq_of_fingerprint_eq {key other : PublicKey} {alg found : DigestAlgorithm}
    (apart : Apart registry held) (mem : key.bare ∈ held) (memOther : other.bare ∈ held)
    (registered : alg ∈ registry.algorithms)
    (same : (key.hashUnder alg).fingerprint = (other.hashUnder found).fingerprint) :
    key.bare = other.bare := by
  obtain ⟨rfl, digests⟩ := PublicKey.fingerprint_hashUnder_inj.mp same
  exact apart _ mem _ memOther alg registered digests

/-- Adding a key whose point is in the ring changes neither the keys nor where hashes lead. -/
theorem place_known (refines : Refines registry ring held) {key : PublicKey} {slot : Nat}
    (here : ring.keys[slot]? = some (key.hashed registry)) :
    Refines registry ⟨ring.keys.set slot (key.hashed registry),
      indexAll slot (registry.algorithms.map key.hashUnder) ring.index⟩ held := by
  have kept : ring.keys.set slot (key.hashed registry) = ring.keys := by
    obtain ⟨bound, found⟩ := List.getElem?_eq_some_iff.mp here
    rw [← found, List.set_getElem_self]
  rw [kept]
  refine ⟨refines.hashed, refines.points, ?_, ?_⟩
  · intro place other found alg registered
    have led := refines.complete found alg registered
    rw [slot?, lookup_indexAll]
    split
    · next shared =>
      -- a shared hash led to the slot of the key before, and still does
      obtain ⟨under, known, same⟩ := mem_fingerprints.mp shared
      have toKey := refines.complete here under known
      rw [slot?] at toKey led
      rw [← led, ← same]
      exact toKey.symm
    · exact led
  · intro entry mem
    rcases mem_indexAll mem with before | ⟨hash, hashes, rfl⟩
    · exact refines.sound entry before
    · obtain ⟨alg, registered, rfl⟩ := List.mem_map.mp hashes
      exact ⟨key.hashed registry, here, alg, registered, rfl⟩

/-- A key whose hashes are all unknown is added in a slot of its own. -/
theorem place_unknown (refines : Refines registry ring held) {key : PublicKey}
    (apart : Apart registry (insert key.bare held)) (absent : key.bare ∉ held) :
    Refines registry ⟨ring.keys ++ [key.hashed registry],
      indexAll ring.keys.length (registry.algorithms.map key.hashUnder) ring.index⟩
      (insert key.bare held) := by
  refine ⟨?_, ?_, ?_, ?_⟩
  · intro other mem
    rcases List.mem_append.mp mem with old | new
    · exact refines.hashed other old
    · rw [List.mem_singleton.mp new]
      exact PublicKey.hashed_congr key.bare_hashed
  · rw [points_append_singleton, refines.points, PublicKey.bare_hashed]
  · intro place other found alg registered
    rw [slot?, lookup_indexAll]
    by_cases old : place < ring.keys.length
    · rw [List.getElem?_append_left old] at found
      have known := refines.bare_mem (List.mem_of_getElem? found)
      -- a hash of an old key is none of the new key's, whose point is another
      have foreign : (other.hashUnder alg).fingerprint ∉
          (registry.algorithms.map key.hashUnder).map HashValue.fingerprint := by
        intro shared
        obtain ⟨under, registered, same⟩ := mem_fingerprints.mp shared
        have point := bare_eq_of_fingerprint_eq apart (Finset.mem_insert_self _ _)
          (Finset.mem_insert_of_mem known) registered same
        rw [point] at absent
        exact absent known
      rw [if_neg foreign]
      exact refines.complete found alg registered
    · rw [List.getElem?_append_right (not_lt.mp old), List.getElem?_singleton] at found
      obtain ⟨last, new⟩ := Option.ite_none_right_eq_some.mp found
      cases new
      have own : ((key.hashed registry).hashUnder alg).fingerprint ∈
          (registry.algorithms.map key.hashUnder).map HashValue.fingerprint :=
        mem_fingerprints.mpr ⟨alg, registered, rfl⟩
      rw [if_pos own, (Nat.sub_eq_zero_iff_le.mp last).antisymm (not_lt.mp old)]
  · intro entry mem
    rcases mem_indexAll mem with before | ⟨hash, hashes, rfl⟩
    · obtain ⟨other, found, named⟩ := refines.sound entry before
      refine ⟨other, ?_, named⟩
      rw [List.getElem?_append_left (List.getElem?_eq_some_iff.mp found).1, found]
    · obtain ⟨alg, registered, rfl⟩ := List.mem_map.mp hashes
      exact ⟨key.hashed registry, List.getElem?_concat_length, alg, registered, rfl⟩

/-- Adding a key is inserting its point. -/
theorem place (refines : Refines registry ring held) (nonempty : registry.algorithms ≠ [])
    {key : PublicKey} (apart : Apart registry (insert key.bare held)) :
    Refines registry (ring.place (key.hashed registry) (registry.algorithms.map key.hashUnder))
      (insert key.bare held) := by
  cases known : (registry.algorithms.map key.hashUnder).findSome? ring.slot? with
  | some slot =>
    obtain ⟨hash, mem, led⟩ := List.exists_of_findSome?_eq_some known
    obtain ⟨alg, registered, rfl⟩ := List.mem_map.mp mem
    obtain ⟨other, found, under, -, same⟩ := refines.exists_of_slot? led
    have memOther := List.mem_of_getElem? found
    have point := bare_eq_of_fingerprint_eq apart (Finset.mem_insert_self _ _)
      (Finset.mem_insert_of_mem (refines.bare_mem memOther)) registered same
    have here : ring.keys[slot]? = some (key.hashed registry) := by
      rw [found, PublicKey.hashed_congr point, refines.hashed other memOther]
    rw [KeyRing.place, known, point, Finset.insert_eq_of_mem (refines.bare_mem memOther)]
    exact refines.place_known here
  | none =>
    have unknown := List.findSome?_eq_none_iff.mp known
    -- a key of the point would be found by its hash under any algorithm
    have absent : key.bare ∉ held := by
      intro present
      obtain ⟨alg, registered⟩ := List.exists_mem_of_ne_nil _ nonempty
      obtain ⟨slot, found⟩ := List.mem_iff_getElem?.mp (refines.mem_keys present)
      have led := refines.complete found alg registered
      exact nomatch led.symm.trans (unknown _ (List.mem_map_of_mem registered))
    rw [KeyRing.place, known]
    exact refines.place_unknown apart absent

/-- Adding keys is inserting their points. -/
theorem registerAll (refines : Refines registry ring held) (nonempty : registry.algorithms ≠ [])
    {keys : List PublicKey} (apart : Apart registry (KeyRing.points keys ∪ held))
    {after : KeyRing} (h : ring.registerAll (some registry) keys = .ok after) :
    Refines registry after (KeyRing.points keys ∪ held) := by
  induction keys generalizing ring held with
  | nil =>
    cases h
    rw [KeyRing.points, List.map_nil, List.toFinset_nil, Finset.empty_union]
    exact refines
  | cons key keys ih =>
    rw [registerAll_cons] at h
    rw [points_cons, Finset.insert_union, ← Finset.union_insert] at apart ⊢
    exact ih (refines.place nonempty (apart.mono Finset.subset_union_right)) apart h

/-- The key that a ring finds is the one that has the hash, of the points of the set, and it
remembers its true hashes. -/
theorem get?_eq_some_iff (refines : Refines registry ring held) {hash : HashValue}
    {key : PublicKey} :
    ring.get? hash = some key ↔
      key.hashed registry = key ∧ key.bare ∈ held ∧ key.HasHash registry hash := by
  rw [get?, Option.bind_eq_some_iff]
  constructor
  · rintro ⟨slot, led, found⟩
    obtain ⟨other, here, named⟩ := refines.exists_of_slot? led
    rw [found] at here
    cases here
    have mem := List.mem_of_getElem? found
    exact ⟨refines.hashed key mem, refines.bare_mem mem, PublicKey.hasHash_iff_fingerprint.mpr named⟩
  · rintro ⟨hashed, point, named⟩
    have mem := refines.mem_keys point
    rw [hashed] at mem
    obtain ⟨slot, found⟩ := List.mem_iff_getElem?.mp mem
    exact ⟨slot, refines.slot?_of_hasHash found named, found⟩

/-- Rings that stand for one set find the same keys. -/
theorem get?_congr {other : KeyRing} (refines : Refines registry ring held)
    (same : Refines registry other held) (hash : HashValue) :
    ring.get? hash = other.get? hash := by
  ext key
  rw [refines.get?_eq_some_iff, same.get?_eq_some_iff]

/-- There are as many keys as points. -/
theorem size_eq (refines : Refines registry ring held) (nonempty : registry.algorithms ≠ []) :
    ring.size = held.card := by
  -- a key in two slots would have hashes that lead to both
  have distinct : ring.keys.Nodup := by
    rw [List.nodup_iff_getElem?_ne_getElem?]
    intro i j less bound same
    obtain ⟨alg, registered⟩ := List.exists_mem_of_ne_nil _ nonempty
    have later := List.getElem?_eq_getElem bound
    have first := refines.complete (same.trans later) alg registered
    rw [refines.complete later alg registered] at first
    exact less.ne (Option.some.inj first).symm
  have injective : ∀ a ∈ ring.keys, ∀ b ∈ ring.keys, a.bare = b.bare → a = b := by
    intro a memA b memB same
    rw [← refines.hashed a memA, ← refines.hashed b memB, PublicKey.hashed_congr same]
  rw [← refines.points, KeyRing.points,
    List.toFinset_card_of_nodup (distinct.map_on injective), List.length_map, size]

end Refines

/-- Any keys make a ring that stands for their points. -/
theorem exists_refines {keys : List PublicKey} (nonempty : registry.algorithms ≠ [])
    (apart : Apart registry (points keys)) :
    ∃ ring, registerAll (some registry) .empty keys = .ok ring ∧
      Refines registry ring (points keys) := by
  obtain ⟨ring, made⟩ := registerAll_of_installed registry .empty keys
  rw [← Finset.union_empty (points keys)] at apart ⊢
  exact ⟨ring, made, Refines.empty.registerAll nonempty apart made⟩

/-- Without algorithms a ring indexes nothing. -/
theorem index_eq_nil (noAlgorithms : registry.algorithms = []) {keys : List PublicKey}
    {ring : KeyRing} (made : registerAll (some registry) .empty keys = .ok ring) :
    ring.index = [] := by
  refine registerAll_induction (motive := fun ring => ring.index = []) ?_ rfl made
  intro ring key empty
  rw [noAlgorithms]
  exact empty

/-- A hash that finds a key finds the same one when more keys were added. -/
theorem get?_of_registerAll {keys more : List PublicKey} {ring after : KeyRing}
    (made : registerAll (some registry) .empty keys = .ok ring)
    (grown : ring.registerAll (some registry) more = .ok after)
    (apart : Apart registry (points (keys ++ more))) {hash : HashValue} {key : PublicKey}
    (found : ring.get? hash = some key) : after.get? hash = some key := by
  by_cases noAlgorithms : registry.algorithms = []
  · rw [get?, slot?, index_eq_nil noAlgorithms made] at found
    exact nomatch found
  · rw [points_append] at apart
    obtain ⟨_, same, refines⟩ := exists_refines noAlgorithms (apart.mono Finset.subset_union_left)
    obtain rfl := Except.ok.inj (same.symm.trans made)
    have refinesAfter := refines.registerAll noAlgorithms (by rwa [Finset.union_comm]) grown
    -- what is found is a point of the set, and the set has only grown
    obtain ⟨hashed, held, named⟩ := refines.get?_eq_some_iff.mp found
    exact refinesAfter.get?_eq_some_iff.mpr ⟨hashed, Finset.mem_union_right _ held, named⟩

/-- What a key ring answers depends on the points of the keys that were added, and on nothing else.
It finds the points of these keys, each by the hashes with the digests of its canonical encoding;
it counts them once each; its index leads to keys that are there; and keys with the same points,
added in any order and any number of times, make a ring that gives the same answers. -/
theorem rings_answer_for_sets_of_points {keys : List PublicKey}
    (nonempty : registry.algorithms ≠ []) (apart : Apart registry (points keys)) :
    ∃ ring, registerAll (some registry) .empty keys = .ok ring ∧
      (∀ (hash : HashValue) (point : PublicKey),
        (∃ found, ring.get? hash = some found ∧ found.samePoint point = true) ↔
          point.HasHash registry hash ∧ ∃ key ∈ keys, key.samePoint point = true) ∧
      ring.size = (points keys).card ∧
      (∀ entry ∈ ring.index, entry.2 < ring.keys.length) ∧
      ∀ others, points others = points keys →
        ∃ other, registerAll (some registry) .empty others = .ok other ∧
          (∀ hash, other.get? hash = ring.get? hash) ∧ other.size = ring.size := by
  obtain ⟨ring, made, refines⟩ := exists_refines nonempty apart
  refine ⟨ring, made, ?_, refines.size_eq nonempty, ?_, ?_⟩
  · intro hash point
    simp only [← PublicKey.bare_eq_iff, ← mem_points]
    constructor
    · rintro ⟨found, got, same⟩
      obtain ⟨-, held, named⟩ := refines.get?_eq_some_iff.mp got
      rw [← same]
      exact ⟨(PublicKey.hasHash_congr same).mp named, held⟩
    · rintro ⟨named, held⟩
      refine ⟨point.hashed registry, refines.get?_eq_some_iff.mpr ⟨?_, held, ?_⟩, rfl⟩
      · exact PublicKey.hashed_congr point.bare_hashed
      · exact (PublicKey.hasHash_congr point.bare_hashed).mpr named
  · intro entry mem
    obtain ⟨key, found, -⟩ := refines.sound entry mem
    exact (List.getElem?_eq_some_iff.mp found).1
  · intro others same
    obtain ⟨other, madeOther, refinesOther⟩ := exists_refines nonempty (by rwa [same])
    rw [same] at refinesOther
    refine ⟨other, madeOther, refinesOther.get?_congr refines, ?_⟩
    rw [refinesOther.size_eq nonempty, refines.size_eq nonempty]

/-- A key that was given the hash of the point `(2, 1)` of the other curve. -/
def misnamedKey : PublicKey :=
  (PublicKey.ofPoint .p256 1 2).withHash ((PublicKey.ofPoint .p384 2 1).hashUnder .sha256)

/-- A hash that a key was given finds the point that has it, and a point that is added again is not
counted again. -/
theorem given_hash_finds_its_own_point :
    ∃ ring, registerAll (some .standard) .empty
        [misnamedKey, .ofPoint .p384 2 1, .ofPoint .p256 1 2] = .ok ring ∧
      ring.size = 2 ∧
      ∃ found, ring.get? ((PublicKey.ofPoint .p384 2 1).hashUnder .sha256) = some found ∧
        found.samePoint (.ofPoint .p384 2 1) = true := by
  have apart : Apart .standard (points [misnamedKey, .ofPoint .p384 2 1, .ofPoint .p256 1 2]) := by
    decide +kernel
  obtain ⟨ring, made, finds, size, -⟩ := rings_answer_for_sets_of_points (by decide) apart
  refine ⟨ring, made, size.trans (by decide +kernel), (finds _ _).mpr ⟨?_, ?_⟩⟩
  · exact PublicKey.hasHash_hashUnder (by decide) _
  · exact ⟨_, List.mem_cons_of_mem _ List.mem_cons_self, by decide⟩

end KeyRing

end SimplePki
