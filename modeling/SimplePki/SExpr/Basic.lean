import SimplePki.Octets

/-!
# S-expressions

An expression is an atom, which is an octet string with an optional display hint, or a list of
expressions.  Hints travel with their atoms, and an atom with a hint differs from the atom without
it: the vocabulary of keys, certificates and signatures is spelled with unhinted atoms only.

## Main definitions

* `Atom`, `SExpr`: the values, with decidable equality
* `SExpr.text`, `SExpr.ofOctets`: unhinted atoms
* `SExpr.octets?`, `SExpr.items?`, `SExpr.head?`: the parts of an expression
* `SExpr.nesting`: how deep lists are nested
-/

namespace SimplePki

/-- An octet string with an optional display hint. -/
structure Atom where
  hint : Option Octets
  value : Octets
  deriving DecidableEq, Repr

/-- Octet strings and lists, nested. -/
inductive SExpr where
  | atom (atom : Atom)
  | list (items : List SExpr)
  deriving Repr

namespace SExpr

/-! ### Decidable equality -/

mutual

/-- Equality of expressions is decided part by part. -/
def decEq : (a b : SExpr) → Decidable (a = b)
  | .atom a, .atom b =>
    if h : a = b then isTrue (h ▸ rfl) else isFalse fun same => h (SExpr.atom.inj same)
  | .list as, .list bs =>
    match decEqItems as bs with
    | isTrue h => isTrue (h ▸ rfl)
    | isFalse h => isFalse fun same => h (SExpr.list.inj same)
  | .atom _, .list _ => isFalse fun same => nomatch same
  | .list _, .atom _ => isFalse fun same => nomatch same

/-- Equality of lists of expressions is decided item by item. -/
def decEqItems : (as bs : List SExpr) → Decidable (as = bs)
  | [], [] => isTrue rfl
  | a :: as, b :: bs =>
    match decEq a b with
    | isFalse h => isFalse fun same => h (List.cons.inj same).1
    | isTrue h =>
      match decEqItems as bs with
      | isTrue hs => isTrue (h ▸ hs ▸ rfl)
      | isFalse hs => isFalse fun same => hs (List.cons.inj same).2
  | [], _ :: _ => isFalse fun same => nomatch same
  | _ :: _, [] => isFalse fun same => nomatch same

end

instance : DecidableEq SExpr := decEq

instance : Inhabited SExpr := ⟨.list []⟩

/-! ### Unhinted atoms -/

/-- The unhinted atom of an octet string. -/
def ofOctets (value : Octets) : SExpr := .atom ⟨none, value⟩

/-- The unhinted atom of a text. -/
def text (value : String) : SExpr := ofOctets (Octets.ofText value)

/-! ### Parts -/

/-- The value of an unhinted atom. -/
def octets? : SExpr → Option Octets
  | .atom ⟨none, value⟩ => some value
  | _ => none

/-- The items of a list. -/
def items? : SExpr → Option (List SExpr)
  | .atom _ => none
  | .list items => some items

/-- Whether the expression is the unhinted atom of a text. -/
def isText (expr : SExpr) (value : String) : Bool := expr.octets? == some (Octets.ofText value)

/-- The value of the unhinted atom that leads a list. -/
def head? : SExpr → Option Octets
  | .list (first :: _) => first.octets?
  | _ => none

/-- Whether the expression is a list led by the unhinted atom of a text. -/
def isListOf (expr : SExpr) (name : String) : Bool := expr.head? == some (Octets.ofText name)

/-- The items of a list that is led by the unhinted atom of a text. -/
def tagged? (expr : SExpr) (name : String) : Option (List SExpr) :=
  match expr with
  | .list (first :: rest) => if first.isText name then some (first :: rest) else none
  | _ => none

mutual

/-- How deep lists are nested: an atom has depth zero and the empty list depth one. -/
def nesting : SExpr → Nat
  | .atom _ => 0
  | .list items => nestingItems items + 1

/-- The deepest nesting among items. -/
def nestingItems : List SExpr → Nat
  | [] => 0
  | item :: items => max item.nesting (nestingItems items)

end

@[simp] theorem octets?_ofOctets (value : Octets) : (ofOctets value).octets? = some value := rfl

@[simp] theorem items?_list (items : List SExpr) : (list items).items? = some items := rfl

theorem octets?_eq_some_iff {expr : SExpr} {value : Octets} :
    expr.octets? = some value ↔ expr = ofOctets value := by
  constructor
  · intro h
    match expr with
    | .atom ⟨none, _⟩ => exact congrArg ofOctets (Option.some.inj h)
    | .atom ⟨some _, _⟩ => exact absurd h (by simp [octets?])
    | .list _ => exact absurd h (by simp [octets?])
  · rintro rfl
    rfl

theorem isText_iff {expr : SExpr} {value : String} :
    expr.isText value = true ↔ expr = text value := by
  simp [isText, text, octets?_eq_some_iff]

theorem tagged?_eq_some_iff {expr : SExpr} {name : String} {items : List SExpr} :
    expr.tagged? name = some items ↔
      expr = .list items ∧ ∃ rest, items = text name :: rest := by
  constructor
  · intro h
    match expr with
    | .atom _ => exact absurd h (by simp [tagged?])
    | .list [] => exact absurd h (by simp [tagged?])
    | .list (first :: rest) =>
      by_cases hf : first.isText name
      · simp only [tagged?, hf, if_true, Option.some.injEq] at h
        subst h
        exact ⟨rfl, rest, by rw [isText_iff.mp hf]⟩
      · simp [tagged?, hf] at h
  · rintro ⟨rfl, rest, rfl⟩
    simp [tagged?, isText_iff.mpr rfl]

end SExpr

end SimplePki
