import SimplePki.HashValue.Codec
import SimplePki.Proofs.Octets.Decimal
import SimplePki.SExpr.Canonical
import SimplePki.SExpr.Term

/-!
# The structure of expressions

An expression is an atom or a list of smaller expressions, and what holds of every item of a list
passes to the list.  This is the induction by which statements about the encodings are proved; the
functions on lists of items are described here by what they say of each item.

## Main results

* `SExpr.induction`: what passes from items to lists holds of every expression
* `SExpr.nestingItems_le_iff`: a list is nested as deep as its deepest item
* `SExpr.nesting_inLists`: each list around an expression nests it one deeper
* `SExpr.length_pack_list`, `SExpr.length_pack_ofOctets_le`: how long the encoding is
* `SExpr.text_inj`, `SExpr.text?_text`, `SExpr.term_inj`: texts and terms are determined by what
  they are made of
* `SExpr.tagged?_list_text`, `SExpr.isListOf_list_text`: lists led by a text are told by that text
-/

namespace SimplePki.SExpr

/-- What passes from the items of a list to the list holds of every expression. -/
@[induction_eliminator]
theorem induction {motive : SExpr → Prop} (atom : ∀ leaf, motive (.atom leaf))
    (list : ∀ items, (∀ item ∈ items, motive item) → motive (.list items)) (expr : SExpr) :
    motive expr :=
  match expr with
  | .atom leaf => atom leaf
  | .list items => list items fun item _ => induction atom list item

/-! ### Items -/

theorem nestingItems_le_iff {items : List SExpr} {n : Nat} :
    nestingItems items ≤ n ↔ ∀ item ∈ items, item.nesting ≤ n := by
  induction items with
  | nil => simp [nestingItems]
  | cons item items ih => rw [nestingItems, Nat.max_le, ih, List.forall_mem_cons]

theorem packItems_cons_append (item : SExpr) (items : List SExpr) (rest : Octets) :
    packItems (item :: items) ++ rest = item.pack ++ (packItems items ++ rest) := by
  rw [packItems, List.append_assoc]

theorem length_pack_le_packItems {items : List SExpr} {item : SExpr} (mem : item ∈ items) :
    item.pack.length ≤ (packItems items).length := by
  induction items with
  | nil => exact absurd mem List.not_mem_nil
  | cons first items ih =>
    rw [packItems, List.length_append]
    rcases List.mem_cons.mp mem with rfl | later
    · exact Nat.le_add_right _ _
    · exact Nat.le_trans (ih later) (Nat.le_add_left _ _)

theorem length_pack_le_list {items : List SExpr} {item : SExpr} (mem : item ∈ items) :
    item.pack.length ≤ (list items).pack.length := by
  rw [pack, List.length_append, List.length_cons]
  exact Nat.le_trans (length_pack_le_packItems mem) (by omega)

/-! ### Lists around an expression -/

/-- An expression as the only item of a list, that list as the only item of another, and so on. -/
def inLists (expr : SExpr) : (depth : Nat) → SExpr
  | 0 => expr
  | depth + 1 => .list [inLists expr depth]

theorem nesting_inLists (expr : SExpr) (depth : Nat) :
    (expr.inLists depth).nesting = expr.nesting + depth := by
  induction depth with
  | zero => rfl
  | succ depth ih =>
    rw [inLists, nesting, nestingItems, nestingItems, Nat.max_zero, ih, Nat.add_assoc]

theorem length_pack_inLists (expr : SExpr) (depth : Nat) :
    (expr.inLists depth).pack.length = expr.pack.length + 2 * depth := by
  induction depth with
  | zero => rfl
  | succ depth ih =>
    rw [inLists, pack, packItems, packItems, List.append_nil, List.length_append,
      List.length_cons, ih, List.length_singleton]
    omega

/-! ### Texts and terms -/

@[simp] theorem text?_text (value : String) : (text value).text? = some value := by
  rw [text?, text, octets?_ofOctets]
  exact Octets.text?_ofText value

theorem eq_text_of_text? {expr : SExpr} {value : String} (h : expr.text? = some value) :
    expr = text value := by
  obtain ⟨octets, held, spelled⟩ := Option.bind_eq_some_iff.mp h
  rw [octets?_eq_some_iff.mp held, text, Octets.ofText_of_text? spelled]

theorem text_injective {a b : String} (h : text a = text b) : a = b := by
  have values := congrArg SExpr.text? h
  rw [text?_text, text?_text] at values
  exact Option.some.inj values

theorem text_inj {a b : String} : text a = text b ↔ a = b :=
  ⟨text_injective, fun same => same ▸ rfl⟩

theorem term_inj {name other : String} {value octets : Octets} :
    term name value = term other octets ↔ name = other ∧ value = octets := by
  refine ⟨fun same => ?_, fun ⟨names, values⟩ => names ▸ values ▸ rfl⟩
  obtain ⟨named, behind⟩ := List.cons.inj (SExpr.list.inj same)
  have values := congrArg octets? (List.cons.inj behind).1
  rw [octets?_ofOctets, octets?_ofOctets] at values
  exact ⟨text_inj.mp named, Option.some.inj values⟩

/-! ### Lengths -/

theorem length_pack_list (items : List SExpr) :
    (list items).pack.length = (packItems items).length + 2 := by
  rw [pack, List.length_append, List.length_cons, List.length_singleton]

theorem length_packItems_cons (item : SExpr) (items : List SExpr) :
    (packItems (item :: items)).length = item.pack.length + (packItems items).length := by
  rw [packItems, List.length_append]

theorem length_packItems_nil : (packItems []).length = 0 := rfl

theorem length_pack_ofOctets_le (value : Octets) :
    (ofOctets value).pack.length ≤ 2 * value.length + 2 := by
  rw [ofOctets, pack, Atom.pack]
  exact Octets.length_verbatim_le value

/-! ### Lists led by a text -/

theorem isText_text (a b : String) : (text a).isText b = decide (a = b) := by
  rw [Bool.eq_iff_iff, isText_iff, text_inj, decide_eq_true_iff]

theorem isListOf_list_text (a b : String) (rest : List SExpr) :
    (list (text a :: rest)).isListOf b = decide (a = b) := isText_text a b

theorem tagged?_eq_cons_iff {expr head : SExpr} {name : String} {rest : List SExpr} :
    expr.tagged? name = some (head :: rest) ↔
      head = text name ∧ expr = list (text name :: rest) := by
  rw [tagged?_eq_some_iff]
  constructor
  · rintro ⟨rfl, others, led⟩
    obtain ⟨rfl, rfl⟩ := List.cons.inj led
    exact ⟨rfl, rfl⟩
  · rintro ⟨rfl, rfl⟩
    exact ⟨rfl, rest, rfl⟩

theorem tagged?_list_text (a : String) (rest : List SExpr) :
    (list (text a :: rest)).tagged? a = some (text a :: rest) :=
  tagged?_eq_some_iff.mpr ⟨rfl, rest, rfl⟩

theorem tagged?_list_text_of_ne {a b : String} (h : a ≠ b) (rest : List SExpr) :
    (list (text a :: rest)).tagged? b = none := by
  rw [tagged?, isText_text, decide_eq_false h]
  rfl

end SimplePki.SExpr
