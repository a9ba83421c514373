import SimplePki.Error
import SimplePki.Octets.BigEndian

/-!
# Terms

Keys and signatures are put together from terms `(NAME OCTET-STRING)`.  Integers are written with
as few octets as possible; leading zero octets are read all the same.

## Main definitions

* `SExpr.term`, `SExpr.natTerm`: terms of octets and of integers
* `SExpr.termOctets`, `SExpr.termNat`: what a term of a given name holds

## Main results

* `SExpr.termOctets_term`: a term holds what it was made of
-/

namespace SimplePki.SExpr

/-- The term `(NAME OCTET-STRING)`. -/
def term (name : String) (value : Octets) : SExpr := .list [.text name, .ofOctets value]

/-- The term of an integer. -/
def natTerm (name : String) (n : Nat) : SExpr := term name (Octets.ofNat n)

/-- The octets that a term of a given name holds. -/
def termOctets (name : String) (expr : SExpr) : Except TermFault Octets :=
  match expr with
  | .list [head, value] =>
    if head.isText name then
      match value.octets? with
      | some octets => .ok octets
      | none => .error (.notAtom name)
    else .error (.notTerm name)
  | _ => .error (.notTerm name)

/-- The integer that a term of a given name holds. -/
def termNat (name : String) (expr : SExpr) : Except TermFault Nat := do
  return (← termOctets name expr).toNat

@[simp] theorem termOctets_term (name : String) (value : Octets) :
    termOctets name (term name value) = .ok value := by
  simp [termOctets, term, isText_iff.mpr rfl]

theorem termOctets_eq_ok_iff {name : String} {expr : SExpr} {value : Octets} :
    termOctets name expr = .ok value ↔ expr = term name value := by
  constructor
  · intro h
    match expr with
    | .atom _ => exact nomatch h
    | .list [] => exact nomatch h
    | .list [_] => exact nomatch h
    | .list (_ :: _ :: _ :: _) => exact nomatch h
    | .list [head, inner] =>
      by_cases named : head.isText name
      · cases found : inner.octets? with
        | none => simp [termOctets, named, found] at h
        | some octets =>
          simp only [termOctets, named, if_true, found, Except.ok.injEq] at h
          rw [isText_iff.mp named, octets?_eq_some_iff.mp found, h]
          rfl
      · simp [termOctets, named] at h
  · rintro rfl
    exact termOctets_term name value

end SimplePki.SExpr
