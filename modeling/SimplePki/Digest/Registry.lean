import SimplePki.Digest.Algorithm

/-!
# Registries of digest algorithms

A registry is a set of digest algorithms, and only the algorithms in it may be used.  A process has
one registry: none at first, then the first one installed, for good.

## Main definitions

* `Registry`: a set of algorithms, with `Registry.algorithms` in the order of their names
* `Registry.ofNames`: the registry of a list of names
* `Installed`: the registry of a process, with `Installed.install` and `Installed.standard`

## Main results

* `Registry.mem_algorithms_iff`, `Registry.get?_eq_some_iff`: what is in a registry
* `Installed.install_fst`: a registry that is installed stays
-/

namespace SimplePki

/-- A set of digest algorithms. -/
structure Registry where
  holds : DigestAlgorithm → Bool

namespace Registry

/-- No algorithm. -/
def empty : Registry := ⟨fun _ => false⟩

/-- Every algorithm. -/
def standard : Registry := ⟨fun _ => true⟩

/-- The algorithms of a registry, in the order of their names. -/
def algorithms (registry : Registry) : List DigestAlgorithm :=
  DigestAlgorithm.all.filter registry.holds

/-- The names of the algorithms, in order. -/
def names (registry : Registry) : List String := registry.algorithms.map DigestAlgorithm.name

/-- The registry with one more algorithm. -/
def insert (registry : Registry) (alg : DigestAlgorithm) : Registry :=
  ⟨fun other => other == alg || registry.holds other⟩

/-- The algorithm of a name, if the registry holds it. -/
def get? (registry : Registry) (name : String) : Option DigestAlgorithm :=
  (DigestAlgorithm.ofName? name).filter registry.holds

/-- Adds the algorithms of names one by one, up to a name of no algorithm. -/
def insertNames (registry : Registry) : List String → Except String Registry
  | [] => .ok registry
  | name :: names =>
    match DigestAlgorithm.ofName? name with
    | none => .error name
    | some alg => (registry.insert alg).insertNames names

/-- The registry of the algorithms with given names, or the first name of no algorithm. -/
def ofNames (names : List String) : Except String Registry := empty.insertNames names

@[ext] theorem ext {a b : Registry} (h : ∀ alg, a.holds alg = b.holds alg) : a = b := by
  cases a
  cases b
  congr
  exact funext h

theorem mem_algorithms_iff {registry : Registry} {alg : DigestAlgorithm} :
    alg ∈ registry.algorithms ↔ registry.holds alg = true := by
  simp [algorithms, List.mem_filter, DigestAlgorithm.mem_all]

theorem get?_eq_some_iff {registry : Registry} {name : String} {alg : DigestAlgorithm} :
    registry.get? name = some alg ↔ alg.name = name ∧ registry.holds alg = true := by
  simp [get?, Option.filter_eq_some_iff, DigestAlgorithm.ofName?_eq_some_iff]

end Registry

/-- The registry of a process, before and after one is installed. -/
abbrev Installed := Option Registry

namespace Installed

/-- The registry of the process afterwards, and whether it is the one offered. -/
def install (installed : Installed) (offered : Registry) : Installed × Bool :=
  match installed with
  | some registry => (some registry, false)
  | none => (some offered, true)

/-- The registry of the process after every algorithm was offered. -/
def standard (installed : Installed) : Registry := installed.getD .standard

/-- A registry that is installed stays, and otherwise the one offered is installed. -/
theorem install_fst (installed : Installed) (offered : Registry) :
    (install installed offered).1 = some (installed.getD offered) := by
  cases installed <;> rfl

end Installed

end SimplePki
