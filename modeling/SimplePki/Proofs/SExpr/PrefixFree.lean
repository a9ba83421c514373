import SimplePki.Proofs.Octets.Decimal
import SimplePki.Proofs.SExpr.Structure

/-!
# The canonical encoding is prefix-free

Whatever follows it, the canonical encoding of an expression can be split off the front of an octet
string in one way only.  Nothing about reading is used here, so that this holds of expressions of
any depth, those that are nested too deep to be read among them.

The three kinds of expressions are told apart by their first octet: a digit opens an atom, a bracket
a hinted atom and a parenthesis a list.  A closing parenthesis opens nothing, so that the end of a
list is not taken for an item.

## Main results

* `SExpr.pack_eq_cons`: how an encoding begins
* `SExpr.packItems_append_inj`: items in front of a closing parenthesis determine each other
* `SExpr.pack_append_inj`: an encoding determines its expression and what follows it
-/

namespace SimplePki

open Octets

/-- The octets with which an expression may begin: a digit, an opening bracket or an opening
parenthesis. -/
def Octets.opens (octet : UInt8) : Bool := isDigit octet || octet == 0x5B || octet == 0x28

/-! ### Atoms -/

theorem Atom.pack_eq_cons (atom : Atom) :
    ∃ first rest, atom.pack = first :: rest ∧ opens first = true ∧ first ≠ 0x28 := by
  match atom with
  | ⟨some hint, value⟩ => exact ⟨0x5B, _, rfl, by decide, by decide⟩
  | ⟨none, value⟩ =>
    obtain ⟨first, rest, written, digits⟩ := verbatim_eq_cons value
    refine ⟨first, rest, written, by simp [opens, digits], ?_⟩
    rintro rfl
    exact absurd digits (by decide)

theorem Atom.pack_append_inj {a b : Atom} {u v : Octets} (h : a.pack ++ u = b.pack ++ v) :
    a = b ∧ u = v := by
  -- a bracket is no digit, so that either both atoms have a hint or neither has one
  have noDigit (octets rest more : Octets) : octets.verbatim ++ rest ≠ 0x5B :: more := by
    intro same
    obtain ⟨first, tail, written, digits⟩ := verbatim_eq_cons octets
    rw [written, List.cons_append] at same
    rw [(List.cons.inj same).1] at digits
    exact absurd digits (by decide)
  match a, b with
  | ⟨none, value⟩, ⟨none, other⟩ =>
    obtain ⟨rfl, rfl⟩ := verbatim_append_inj h
    exact ⟨rfl, rfl⟩
  | ⟨some hint, value⟩, ⟨some note, other⟩ =>
    -- the hint is split off before the value
    simp only [Atom.pack, List.cons_append, List.append_assoc, List.cons.injEq, true_and] at h
    obtain ⟨rfl, behind⟩ := verbatim_append_inj h
    obtain ⟨rfl, rfl⟩ := verbatim_append_inj (List.cons.inj behind).2
    exact ⟨rfl, rfl⟩
  | ⟨none, value⟩, ⟨some note, other⟩ => exact absurd h (noDigit value u _)
  | ⟨some hint, value⟩, ⟨none, other⟩ => exact absurd h.symm (noDigit other v _)

namespace SExpr

/-! ### Expressions -/

theorem pack_eq_cons (expr : SExpr) :
    ∃ first rest, expr.pack = first :: rest ∧ opens first = true := by
  match expr with
  | .atom leaf =>
    obtain ⟨first, rest, written, isOpening, -⟩ := leaf.pack_eq_cons
    exact ⟨first, rest, written, isOpening⟩
  | .list items => exact ⟨0x28, _, rfl, by decide⟩

theorem pack_list_append (items : List SExpr) (rest : Octets) :
    (list items).pack ++ rest = 0x28 :: (packItems items ++ 0x29 :: rest) := by
  rw [pack, List.append_assoc, List.singleton_append, List.cons_append]

/-- No expression begins with the parenthesis that closes a list. -/
theorem pack_append_ne_close (expr : SExpr) (rest more : Octets) :
    expr.pack ++ rest ≠ 0x29 :: more := by
  intro same
  obtain ⟨first, tail, written, isOpening⟩ := expr.pack_eq_cons
  rw [written, List.cons_append] at same
  rw [(List.cons.inj same).1] at isOpening
  exact absurd isOpening (by decide)

/-- No atom begins with the parenthesis that opens a list. -/
theorem pack_atom_append_ne_open (leaf : Atom) (rest more : Octets) :
    leaf.pack ++ rest ≠ 0x28 :: more := by
  intro same
  obtain ⟨first, tail, written, -, noList⟩ := leaf.pack_eq_cons
  rw [written, List.cons_append] at same
  exact noList (List.cons.inj same).1

/-- Items in front of a closing parenthesis determine each other, where each of them determines
itself. -/
theorem packItems_append_inj {items others : List SExpr} {u v : Octets}
    (each : ∀ item ∈ items, ∀ {other : SExpr} {s t : Octets},
      item.pack ++ s = other.pack ++ t → item = other ∧ s = t)
    (h : packItems items ++ 0x29 :: u = packItems others ++ 0x29 :: v) :
    items = others ∧ u = v := by
  -- both lists are taken apart together: while one has an item the other cannot be closed
  induction items generalizing others with
  | nil =>
    cases others with
    | nil => exact ⟨rfl, (List.cons.inj h).2⟩
    | cons other others =>
      rw [packItems_cons_append] at h
      exact absurd h.symm (pack_append_ne_close other _ _)
  | cons item items ih =>
    cases others with
    | nil =>
      rw [packItems_cons_append] at h
      exact absurd h (pack_append_ne_close item _ _)
    | cons other others =>
      rw [packItems_cons_append, packItems_cons_append] at h
      obtain ⟨rfl, behind⟩ := each item List.mem_cons_self h
      obtain ⟨rfl, rfl⟩ := ih (fun item mem => each item (List.mem_cons_of_mem _ mem)) behind
      exact ⟨rfl, rfl⟩

/-- The canonical encoding of an expression determines the expression and what follows it. -/
theorem pack_append_inj {a b : SExpr} {u v : Octets} (h : a.pack ++ u = b.pack ++ v) :
    a = b ∧ u = v := by
  -- on the first expression alone: what the second is follows from its first octet
  induction a generalizing b u v with
  | atom leaf =>
    cases b with
    | atom other =>
      obtain ⟨rfl, rfl⟩ := Atom.pack_append_inj h
      exact ⟨rfl, rfl⟩
    | list others =>
      rw [pack_list_append] at h
      exact absurd h (pack_atom_append_ne_open leaf _ _)
  | list items ih =>
    cases b with
    | atom other =>
      rw [pack_list_append] at h
      exact absurd h.symm (pack_atom_append_ne_open other _ _)
    | list others =>
      rw [pack_list_append, pack_list_append] at h
      have behind := (List.cons.inj h).2
      obtain ⟨rfl, rfl⟩ := packItems_append_inj (fun item mem => ih item mem) behind
      exact ⟨rfl, rfl⟩

theorem pack_injective : Function.Injective pack := by
  intro a b h
  have alone : a.pack ++ [] = b.pack ++ [] := by rw [h]
  exact (pack_append_inj alone).1

end SExpr

end SimplePki
