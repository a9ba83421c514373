import SimplePki.HashValue.Codec

/-!
# Keys known by their hashes

Who holds no more than hashes of a key can still recognise it.  Of several hashes under one
algorithm the first counts.  The same collection serves as the memory of a key that computes its
hashes: what was computed or given once is never computed again.

## Main definitions

* `HashKey`, `HashKey.ofList`, `HashKey.insert`
* `HashKey.find?`: the hash under an algorithm

## Main results

* `HashKey.find?_insert`: the first hash under an algorithm counts
* `HashKey.nodup_insert`: there is at most one hash for each algorithm
-/

namespace SimplePki

/-- Hashes of one key. -/
structure HashKey where
  hashes : List HashValue
  deriving DecidableEq, Repr

namespace HashKey

/-- No hashes. -/
def empty : HashKey := ⟨[]⟩

/-- The hash under an algorithm. -/
def find? (key : HashKey) (algorithm : String) : Option HashValue :=
  key.hashes.find? fun hash => hash.algorithm == algorithm

/-- The key with one more hash, unless there is one under its algorithm. -/
def insert (key : HashKey) (hash : HashValue) : HashKey :=
  if (key.find? hash.algorithm).isSome then key else ⟨key.hashes ++ [hash]⟩

/-- The key with the given hashes, the first under each algorithm. -/
def ofList (hashes : List HashValue) : HashKey := hashes.foldl insert empty

/-- Whether two keys have the same hashes in the same order. -/
def same (a b : HashKey) : Bool :=
  a.hashes.map HashValue.fingerprint == b.hashes.map HashValue.fingerprint

/-- The first hash of all. -/
def first (key : HashKey) : Outcome HashValue :=
  match key.hashes with
  | hash :: _ => .ok hash
  | [] => .error (.noHash "any")

/-- The hash under an algorithm, or the lack of it. -/
def hash (key : HashKey) (algorithm : String) : Outcome HashValue :=
  match key.find? algorithm with
  | some hash => .ok hash
  | none => .error (.noHash algorithm)

theorem algorithm_of_find? {key : HashKey} {algorithm : String} {hash : HashValue}
    (h : key.find? algorithm = some hash) : hash.algorithm = algorithm := by
  simpa using List.find?_some h

theorem find?_insert (key : HashKey) (hash : HashValue) (algorithm : String) :
    (key.insert hash).find? algorithm =
      (key.find? algorithm).or (if hash.algorithm = algorithm then some hash else none) := by
  unfold insert
  split
  · next present =>
    cases found : key.find? algorithm with
    | some _ => rfl
    | none =>
      have : hash.algorithm ≠ algorithm := by
        rintro rfl
        rw [found] at present
        exact nomatch present
      simp [this]
  · rw [find?, find?, List.find?_append]
    by_cases same : hash.algorithm = algorithm <;> simp [same]

/-- No algorithm has two hashes. -/
def Distinct (key : HashKey) : Prop := (key.hashes.map HashValue.algorithm).Nodup

theorem nodup_insert {key : HashKey} (h : key.Distinct) (hash : HashValue) :
    (key.insert hash).Distinct := by
  unfold insert
  split
  · exact h
  · next absent =>
    rw [Distinct, List.map_append, List.nodup_append]
    refine ⟨h, by simp, ?_⟩
    intro algorithm present other shown same
    simp only [List.map_cons, List.map_nil, List.mem_singleton] at shown
    obtain ⟨found, mem, rfl⟩ := List.mem_map.mp present
    apply absent
    rw [find?, List.find?_isSome]
    exact ⟨found, mem, by simp [same, shown]⟩

end HashKey

end SimplePki
