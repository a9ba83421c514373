import SimplePki.Proofs.Octets.Decimal
import SimplePki.Proofs.SExpr.PrefixFree
import SimplePki.SExpr.Term

/-!
# Reading the canonical encoding

A reader reads a written form when it yields the value that was written, wherever the form stands
and whatever follows it, and consumes exactly that form.  The canonical encoding of an expression is
read in this sense within every budget of nesting that the expression respects.  Within a smaller
budget the reader gives up at the first list that is nested too deep, because everything in front of
that list is read.

## Main definitions

* `Reader.Reads`: a reader consumes a written form and yields a value
* `Reader.GivesUp`: a reader finds a written form nested too deep
* `Reader.Begins`: what a list can hold, and an input begin with
* `SExpr.Measured`: every octet string has a length that can be written

## Main results

* `Reader.reads_octets_verbatim`: octets behind their length
* `Reader.reads_expression_pack`: expressions within their budget
* `Reader.givesUp_expression_pack`: expressions beyond it
-/

namespace SimplePki

/-! ### Lengths that can be written -/

namespace SExpr

open Reader

/-- Every octet string of the expression, hints among them, has a machine word for its length. -/
inductive Measured : SExpr → Prop where
  | atom {leaf : Atom} (hints : ∀ hint, leaf.hint = some hint → hint.length < lengthLimit)
    (value : leaf.value.length < lengthLimit) : Measured (.atom leaf)
  | list {items : List SExpr} (each : ∀ item ∈ items, Measured item) : Measured (.list items)

theorem measured_atom_iff {leaf : Atom} :
    (SExpr.atom leaf).Measured ↔
      (∀ hint, leaf.hint = some hint → hint.length < lengthLimit) ∧
        leaf.value.length < lengthLimit := by
  constructor
  · intro measured
    cases measured with
    | atom hints value => exact ⟨hints, value⟩
  · rintro ⟨hints, value⟩
    exact .atom hints value

theorem measured_list_iff {items : List SExpr} :
    (SExpr.list items).Measured ↔ ∀ item ∈ items, item.Measured := by
  constructor
  · intro measured
    cases measured with
    | list each => exact each
  · exact .list

theorem measured_nil : (SExpr.list []).Measured :=
  .list fun _ none => absurd none List.not_mem_nil

theorem measured_cons_iff {item : SExpr} {items : List SExpr} :
    (SExpr.list (item :: items)).Measured ↔ item.Measured ∧ (SExpr.list items).Measured := by
  rw [measured_list_iff, measured_list_iff, List.forall_mem_cons]

theorem measured_ofOctets_iff {value : Octets} :
    (ofOctets value).Measured ↔ value.length < lengthLimit := by
  rw [ofOctets, measured_atom_iff]
  apply and_iff_right
  intro hint none
  cases none

theorem measured_term {name : String} {value : Octets}
    (named : (Octets.ofText name).length < lengthLimit) (short : value.length < lengthLimit) :
    (term name value).Measured := by
  rw [term, measured_cons_iff, measured_cons_iff]
  exact ⟨measured_ofOctets_iff.mpr named, measured_ofOctets_iff.mpr short, measured_nil⟩

/-- In an encoding whose length is a machine word, so are the lengths inside. -/
theorem measured_of_length_pack_lt {expr : SExpr} (short : expr.pack.length < lengthLimit) :
    expr.Measured := by
  induction expr with
  | atom leaf =>
    obtain ⟨hint, value⟩ := leaf
    have hints := Octets.length_le_length_verbatim (hint.getD [])
    have values := Octets.length_le_length_verbatim value
    cases hint with
    | none => exact measured_ofOctets_iff.mpr (Nat.lt_of_le_of_lt values short)
    | some hint =>
      rw [Option.getD_some] at hints
      simp only [pack, Atom.pack, List.length_append, List.length_cons] at short
      refine .atom ?_ (by simp only; omega)
      rintro _ ⟨⟩
      omega
  | list items ih =>
    exact .list fun item mem => ih item mem (Nat.lt_of_le_of_lt (length_pack_le_list mem) short)

end SExpr

namespace Reader

open Octets

variable {α β : Type}

/-- Yields the value of a written form and consumes exactly that form, wherever it stands. -/
def Reads (reader : Reader α) (written : Octets) (value : α) : Prop :=
  ∀ offset rest,
    reader ⟨offset, written ++ rest⟩ = .ok value ⟨offset + written.length, rest⟩

/-- Finds a list or a transport block in a written form nested too deep, wherever the form
stands. -/
def GivesUp (reader : Reader α) (written : Octets) : Prop :=
  ∀ offset rest, ∃ place next,
    reader ⟨offset, written ++ rest⟩ = .error (.tooDeep place) next

/-! ### One reader after the other -/

theorem bind_of_ok {reader : Reader α} {rest : α → Reader β} {cursor next : Cursor} {value : α}
    (run : reader cursor = .ok value next) : (reader >>= rest) cursor = rest value next := by
  change EStateM.bind reader rest cursor = _
  rw [EStateM.bind, run]

theorem bind_of_error {reader : Reader α} {rest : α → Reader β} {cursor next : Cursor}
    {error : ReadError} (run : reader cursor = .error error next) :
    (reader >>= rest) cursor = .error error next := by
  change EStateM.bind reader rest cursor = _
  rw [EStateM.bind, run]

theorem offset_bind (rest : Nat → Reader β) (cursor : Cursor) :
    (offset >>= rest) cursor = rest cursor.offset cursor := rfl

theorem peek_bind (rest : Option UInt8 → Reader β) (cursor : Cursor) :
    (peek >>= rest) cursor = rest cursor.ahead.head? cursor := rfl

theorem expect_cons (wanted : UInt8) (offset : Nat) (rest : Octets) :
    expect wanted ⟨offset, wanted :: rest⟩ = .ok () ⟨offset + 1, rest⟩ := by
  simp [expect]

theorem skipBlank_cons {octet : UInt8} (h : isBlank octet = false) (offset : Nat)
    (rest : Octets) : skipBlank ⟨offset, octet :: rest⟩ = .ok () ⟨offset, octet :: rest⟩ := by
  simp [skipBlank, Cursor.skipBlank, Cursor.skipWhile, h]

theorem takeExactly_append (octets : Octets) (offset : Nat) (rest : Octets) :
    takeExactly octets.length ⟨offset, octets ++ rest⟩ =
      .ok octets ⟨offset + octets.length, rest⟩ := by
  simp [takeExactly, Cursor.skip]

theorem isBlank_of_opens {octet : UInt8} (h : opens octet = true) : isBlank octet = false := by
  rw [Bool.eq_false_iff]
  intro blank
  simp only [isBlank, Bool.or_eq_true, beq_iff_eq, or_assoc] at blank
  rcases blank with rfl | rfl | rfl | rfl | rfl <;> exact absurd h (by decide)

theorem isBlank_of_isDigit {octet : UInt8} (h : isDigit octet = true) : isBlank octet = false :=
  isBlank_of_opens (by simp [opens, h])

theorem ne_of_isDigit {octet other : UInt8} (h : isDigit octet = true)
    (noDigit : isDigit other = false) : octet ≠ other := by
  rintro rfl
  rw [noDigit] at h
  exact Bool.false_ne_true h

/-! ### Beginnings -/

/-- Begins neither with whitespace nor with the parenthesis that closes a list. -/
def Begins (written : Octets) : Prop :=
  ∃ first rest, written = first :: rest ∧ isBlank first = false ∧ first ≠ 0x29

theorem begins_pack (expr : SExpr) : Begins expr.pack := by
  obtain ⟨first, rest, written, isOpening⟩ := expr.pack_eq_cons
  refine ⟨first, rest, written, isBlank_of_opens isOpening, ?_⟩
  rintro rfl
  exact absurd isOpening (by decide)

/-! ### Octet strings -/

/-- Octets of one kind are read up to where none of them follows. -/
theorem takeWhile_append {p : UInt8 → Bool} {octets rest : Octets}
    (each : ∀ octet ∈ octets, p octet = true)
    (stop : ∀ octet, rest.head? = some octet → p octet = false) (offset : Nat) :
    takeWhile p ⟨offset, octets ++ rest⟩ = .ok octets ⟨offset + octets.length, rest⟩ := by
  have taken : (octets ++ rest).takeWhile p = octets := by
    rw [List.takeWhile_append_of_pos each, List.append_right_eq_self]
    cases rest with
    | nil => rfl
    | cons octet rest => rw [List.takeWhile_cons_of_neg (by simp [stop octet rfl])]
  have dropped : (octets ++ rest).dropWhile p = rest := by
    rw [List.dropWhile_append_of_pos each]
    cases rest with
    | nil => rfl
    | cons octet rest => rw [List.dropWhile_cons_of_neg (by simp [stop octet rfl])]
  rw [takeWhile, Cursor.skipWhile, taken, dropped]

/-- Octets without the closing one are read up to it. -/
theorem takeThrough_append {close : UInt8} {octets : Octets}
    (each : ∀ octet ∈ octets, octet ≠ close) (offset : Nat) (rest : Octets) :
    takeThrough close ⟨offset, octets ++ close :: rest⟩ =
      .ok octets ⟨offset + octets.length + 1, rest⟩ := by
  have differ : ∀ octet ∈ octets, (octet != close) = true := by
    intro octet mem
    simpa using each octet mem
  have taken : (octets ++ close :: rest).takeWhile (· != close) = octets := by
    rw [List.takeWhile_append_of_pos differ, List.takeWhile_cons_of_neg (by simp), List.append_nil]
  have dropped : (octets ++ close :: rest).dropWhile (· != close) = close :: rest := by
    rw [List.dropWhile_append_of_pos differ, List.dropWhile_cons_of_neg (by simp)]
  simp only [takeThrough, taken, dropped]

theorem length_apply (offset : Nat) (ahead : Octets) :
    length ⟨offset, ahead⟩ =
      if (2 ≤ (ahead.takeWhile isDigit).length && (ahead.takeWhile isDigit).head? == some 0x30) ||
          lengthLimit ≤ decimalValue (ahead.takeWhile isDigit) then
        .error (.invalidLength offset) (Cursor.skipWhile isDigit ⟨offset, ahead⟩)
      else .ok (decimalValue (ahead.takeWhile isDigit))
        (Cursor.skipWhile isDigit ⟨offset, ahead⟩) := by
  change (if _ then throw _ else pure _ : Reader Nat) _ = _
  split <;> rfl

/-- A length is read up to what is no digit, and refused there for a superfluous zero or for being
no machine word. -/
theorem length_digits {digits : Octets} (each : ∀ octet ∈ digits, isDigit octet = true)
    {stop : UInt8} (noDigit : isDigit stop = false) (offset : Nat) (rest : Octets) :
    length ⟨offset, digits ++ stop :: rest⟩ =
      if (2 ≤ digits.length && digits.head? == some 0x30) ||
          lengthLimit ≤ decimalValue digits then
        .error (.invalidLength offset) ⟨offset + digits.length, stop :: rest⟩
      else .ok (decimalValue digits) ⟨offset + digits.length, stop :: rest⟩ := by
  have ends : ∀ octet, (stop :: rest).head? = some octet → isDigit octet = false := by
    intro octet same
    rw [← Option.some.inj same]
    exact noDigit
  rw [length, offset_bind, bind_of_ok (takeWhile_append each ends _)]
  split <;> rfl

theorem length_decimal {n : Nat} (short : n < lengthLimit) {stop : UInt8}
    (noDigit : isDigit stop = false) (offset : Nat) (rest : Octets) :
    length ⟨offset, decimal n ++ stop :: rest⟩ =
      .ok n ⟨offset + (decimal n).length, stop :: rest⟩ := by
  have fits : ¬ lengthLimit ≤ n := Nat.not_le.mpr short
  rw [length_digits (fun _ => isDigit_of_mem_decimal) noDigit, decimal_isCanonical,
    decimalValue_decimal]
  simp only [Bool.false_or, decide_eq_true_eq, if_neg fits]

theorem measured_colon (start : Nat) (octets : Octets) (offset : Nat) (rest : Octets) :
    measured start octets.length ⟨offset, 0x3A :: (octets ++ rest)⟩ =
      .ok octets ⟨offset + 1 + octets.length, rest⟩ := by
  rw [measured, offset_bind, peek_bind]
  simp only [List.head?_cons, if_true]
  rw [bind_of_ok (expect_cons _ _ _), takeExactly_append]

theorem octets_of_isDigit {first : UInt8} (h : isDigit first = true) (offset : Nat)
    (rest : Octets) : octets ⟨offset, first :: rest⟩ = counted ⟨offset, first :: rest⟩ := by
  rw [octets, offset_bind, peek_bind]
  simp only [List.head?_cons, if_pos h]

/-- Octets behind their length are read as they are. -/
theorem reads_octets_verbatim {value : Octets} (short : value.length < lengthLimit) :
    Reads octets value.verbatim value := by
  intro offset rest
  obtain ⟨first, tail, written, digits⟩ := verbatim_eq_cons value
  have front : value.verbatim ++ rest = first :: (tail ++ rest) := by
    rw [written, List.cons_append]
  -- the first octet decides which form is read, and is then read as part of it
  rw [front, octets_of_isDigit digits, ← front, verbatim_append]
  rw [counted, offset_bind, bind_of_ok (length_decimal short (by decide) _ _), measured_colon, verbatim,
    List.length_append, List.length_cons]
  congr 2
  omega

/-! ### Atoms -/

/-- What is no list, no transport block and has no hint is read without regard to the budget. -/
theorem expressionAt_cons (inner : Option Bounded) {first : UInt8} (noList : first ≠ 0x28)
    (noBlock : first ≠ 0x7B) (noHint : first ≠ 0x5B) (offset : Nat) (rest : Octets) :
    expressionAt inner ⟨offset, first :: rest⟩ = plain ⟨offset, first :: rest⟩ := by
  rw [expressionAt, offset_bind, peek_bind]
  simp only [List.head?_cons, if_neg noList, if_neg noBlock, if_neg noHint]

theorem expressionAt_of_isDigit (inner : Option Bounded) {first : UInt8}
    (h : isDigit first = true) (offset : Nat) (rest : Octets) :
    expressionAt inner ⟨offset, first :: rest⟩ = plain ⟨offset, first :: rest⟩ :=
  expressionAt_cons inner (ne_of_isDigit h (by decide)) (ne_of_isDigit h (by decide))
    (ne_of_isDigit h (by decide)) offset rest

theorem reads_plain {value : Octets} (short : value.length < lengthLimit) :
    Reads plain value.verbatim (.ofOctets value) := by
  intro offset rest
  rw [plain, bind_of_ok (reads_octets_verbatim short offset rest)]
  rfl

theorem skipBlank_verbatim (value : Octets) (offset : Nat) (rest : Octets) :
    skipBlank ⟨offset, value.verbatim ++ rest⟩ = .ok () ⟨offset, value.verbatim ++ rest⟩ := by
  obtain ⟨first, tail, written, digits⟩ := verbatim_eq_cons value
  rw [written, List.cons_append]
  exact skipBlank_cons (isBlank_of_isDigit digits) _ _

theorem reads_hinted {hint value : Octets} (shortHint : hint.length < lengthLimit)
    (short : value.length < lengthLimit) :
    Reads hinted (Atom.pack ⟨some hint, value⟩) (.atom ⟨some hint, value⟩) := by
  intro offset rest
  have written : Atom.pack ⟨some hint, value⟩ ++ rest =
      0x5B :: (hint.verbatim ++ 0x5D :: (value.verbatim ++ rest)) := by
    rw [Atom.pack, List.append_assoc, List.cons_append, List.cons_append]
  have size : (Atom.pack ⟨some hint, value⟩).length =
      1 + hint.verbatim.length + 1 + value.verbatim.length := by
    simp only [Atom.pack, List.length_append, List.length_cons]
    omega
  rw [written, size, hinted, bind_of_ok (expect_cons _ _ _),
    bind_of_ok (skipBlank_verbatim hint _ _),
    bind_of_ok (reads_octets_verbatim shortHint _ _),
    bind_of_ok (skipBlank_cons (by decide) _ _), bind_of_ok (expect_cons _ _ _),
    bind_of_ok (skipBlank_verbatim value _ _), bind_of_ok (reads_octets_verbatim short _ _)]
  change EStateM.Result.ok _ _ = _
  congr 2
  omega

/-- An atom is read without regard to the budget. -/
theorem reads_expressionAt_atom (inner : Option Bounded) {leaf : Atom}
    (measured : (SExpr.atom leaf).Measured) :
    Reads (expressionAt inner) leaf.pack (.atom leaf) := by
  obtain ⟨hints, short⟩ := SExpr.measured_atom_iff.mp measured
  obtain ⟨hint, value⟩ := leaf
  cases hint with
  | none =>
    intro offset rest
    obtain ⟨first, tail, written, digits⟩ := verbatim_eq_cons value
    have front : value.verbatim ++ rest = first :: (tail ++ rest) := by
      rw [written, List.cons_append]
    have plainly := reads_plain short offset rest
    change expressionAt inner ⟨offset, value.verbatim ++ rest⟩ = _
    rw [front] at plainly ⊢
    rw [expressionAt_of_isDigit inner digits, plainly]
    rfl
  | some hint => exact reads_hinted (hints hint rfl) short

/-! ### Lists -/

theorem item_close (element : Reader SExpr) (offset : Nat) (rest : Octets) :
    item element ⟨offset, 0x29 :: rest⟩ = .ok none ⟨offset + 1, rest⟩ := by
  rw [item, bind_of_ok (skipBlank_cons (by decide) _ _)]
  rw [peek_bind]
  simp only [List.head?_cons, if_true]
  rw [bind_of_ok (expect_cons _ _ _)]
  rfl

/-- What neither closes a list nor is skipped is the beginning of an item. -/
theorem item_cons (element : Reader SExpr) {first : UInt8} (notBlank : isBlank first = false)
    (noClose : first ≠ 0x29) (offset : Nat) (rest : Octets) :
    item element ⟨offset, first :: rest⟩ =
      (element >>= fun expr => pure (some expr)) ⟨offset, first :: rest⟩ := by
  rw [item, bind_of_ok (skipBlank_cons notBlank _ _)]
  rw [peek_bind]
  simp only [List.head?_cons, if_neg noClose]

theorem item_of_begins (element : Reader SExpr) {written : Octets} (begins : Begins written)
    (offset : Nat) (rest : Octets) :
    item element ⟨offset, written ++ rest⟩ =
      (element >>= fun expr => pure (some expr)) ⟨offset, written ++ rest⟩ := by
  obtain ⟨first, tail, rfl, notBlank, noClose⟩ := begins
  rw [List.cons_append]
  exact item_cons element notBlank noClose _ _

theorem reads_item {element : Reader SExpr} {written : Octets} {expr : SExpr}
    (begins : Begins written) (h : Reads element written expr) :
    Reads (item element) written (some expr) := by
  intro offset rest
  rw [item_of_begins element begins, bind_of_ok (h offset rest)]
  rfl

theorem collect_of_some {step : Reader (Option α)} (advances : step.Advances) (found : List α)
    {cursor next : Cursor} {value : α} (run : step cursor = .ok (some value) next) :
    collect step advances found cursor = collect step advances (value :: found) next := by
  rw [collect_apply, run]

/-- Items that are read one by one are collected up to the parenthesis that closes their list. -/
theorem collect_packItems {element : Bounded} {items : List SExpr}
    (each : ∀ expr ∈ items, Reads element.run expr.pack expr) (found : List SExpr)
    (offset : Nat) (rest : Octets) :
    collect (item element.run) (advances_item element) found
        ⟨offset, SExpr.packItems items ++ 0x29 :: rest⟩ =
      .ok (found.reverse ++ items) ⟨offset + (SExpr.packItems items).length + 1, rest⟩ := by
  -- the items found so far are kept in reverse
  induction items generalizing found offset with
  | nil =>
    rw [collect_apply, SExpr.packItems, List.nil_append, item_close, List.append_nil]
    rfl
  | cons expr items ih =>
    have first := reads_item (begins_pack expr) (each expr List.mem_cons_self) offset
      (SExpr.packItems items ++ 0x29 :: rest)
    rw [SExpr.packItems_cons_append, collect_of_some _ _ first,
      ih (fun expr mem => each expr (List.mem_cons_of_mem _ mem)), List.reverse_cons,
      List.append_assoc, List.singleton_append, SExpr.packItems, List.length_append]
    congr 2
    omega

/-- The first item that is nested too deep stops the reading of its list, because the items in front
of it are read. -/
theorem collect_packItems_givesUp {element : Bounded} {items : List SExpr} {budget : Nat}
    (shallow : ∀ expr ∈ items, expr.nesting ≤ budget → Reads element.run expr.pack expr)
    (deep : ∀ expr ∈ items, budget < expr.nesting → GivesUp element.run expr.pack)
    (beyond : budget < SExpr.nestingItems items) (found : List SExpr) (offset : Nat)
    (rest : Octets) :
    ∃ place next, collect (item element.run) (advances_item element) found
        ⟨offset, SExpr.packItems items ++ rest⟩ = .error (.tooDeep place) next := by
  induction items generalizing found offset with
  | nil => exact absurd beyond (Nat.not_lt_zero budget)
  | cons expr items ih =>
    rw [SExpr.packItems_cons_append]
    rcases Nat.lt_or_ge budget expr.nesting with tooDeep | within
    · obtain ⟨place, next, run⟩ := deep expr List.mem_cons_self tooDeep offset
        (SExpr.packItems items ++ rest)
      refine ⟨place, next, ?_⟩
      rw [collect_apply, item_of_begins _ (begins_pack expr), bind_of_error run]
    · have first := reads_item (begins_pack expr) (shallow expr List.mem_cons_self within) offset
        (SExpr.packItems items ++ rest)
      -- this item is read, so that the one too deep is behind it
      rw [collect_of_some _ _ first]
      apply ih
      · exact fun expr mem => shallow expr (List.mem_cons_of_mem _ mem)
      · exact fun expr mem => deep expr (List.mem_cons_of_mem _ mem)
      · rw [SExpr.nestingItems] at beyond
        omega

theorem reads_listOf {element : Bounded} {items : List SExpr}
    (each : ∀ expr ∈ items, Reads element.run expr.pack expr) :
    Reads (listOf element) (SExpr.list items).pack (.list items) := by
  intro offset rest
  rw [SExpr.pack_list_append, listOf, bind_of_ok (expect_cons _ _ _),
    bind_of_ok (collect_packItems each [] _ _), SExpr.pack, List.length_append, List.length_cons]
  change EStateM.Result.ok _ _ = _
  congr 2
  simp only [List.length_cons, List.length_nil]
  omega

/-! ### Expressions -/

theorem bounded_run_cons (inner : Option Bounded) {first : UInt8}
    (notBlank : isBlank first = false) (offset : Nat) (rest : Octets) :
    (bounded inner).run ⟨offset, first :: rest⟩ = expressionAt inner ⟨offset, first :: rest⟩ := by
  change (skipBlank >>= fun _ => expressionAt inner) _ = _
  rw [bind_of_ok (skipBlank_cons notBlank _ _)]

theorem bounded_run_of_begins (inner : Option Bounded) {written : Octets}
    (begins : Begins written) (offset : Nat) (rest : Octets) :
    (bounded inner).run ⟨offset, written ++ rest⟩ =
      expressionAt inner ⟨offset, written ++ rest⟩ := by
  obtain ⟨first, tail, rfl, notBlank, -⟩ := begins
  rw [List.cons_append]
  exact bounded_run_cons inner notBlank _ _

/-- A list is read where something may nest, and is too deep where nothing may. -/
theorem expressionAt_open (inner : Option Bounded) (offset : Nat) (rest : Octets) :
    expressionAt inner ⟨offset, 0x28 :: rest⟩ =
      match inner with
      | none => .error (.tooDeep offset) ⟨offset, 0x28 :: rest⟩
      | some element => listOf element ⟨offset, 0x28 :: rest⟩ := by
  rw [expressionAt, offset_bind, peek_bind]
  cases inner <;> rfl

theorem expressionAt_list (inner : Option Bounded) (items : List SExpr) (offset : Nat)
    (rest : Octets) :
    expressionAt inner ⟨offset, (SExpr.list items).pack ++ rest⟩ =
      match inner with
      | none => .error (.tooDeep offset) ⟨offset, (SExpr.list items).pack ++ rest⟩
      | some element => listOf element ⟨offset, (SExpr.list items).pack ++ rest⟩ := by
  rw [SExpr.pack_list_append]
  exact expressionAt_open inner offset _

/-- The canonical encoding of an expression is read within every budget that covers its nesting. -/
theorem reads_expression_pack {expr : SExpr} {budget : Nat} (within : expr.nesting ≤ budget)
    (measured : expr.Measured) : Reads (expression budget).run expr.pack expr := by
  induction expr generalizing budget with
  | atom leaf =>
    intro offset rest
    cases budget <;> rw [expression, bounded_run_of_begins _ (begins_pack _)] <;>
      exact reads_expressionAt_atom _ measured offset rest
  | list items ih =>
    cases budget with
    | zero => exact absurd within (Nat.not_succ_le_zero _)
    | succ budget =>
      intro offset rest
      have inside : SExpr.nestingItems items ≤ budget := Nat.le_of_succ_le_succ within
      have each : ∀ expr ∈ items, Reads (expression budget).run expr.pack expr :=
        fun expr mem => ih expr mem (SExpr.nestingItems_le_iff.mp inside expr mem)
          (SExpr.measured_list_iff.mp measured expr mem)
      rw [expression, bounded_run_of_begins _ (begins_pack _), expressionAt_list]
      exact reads_listOf each offset rest

/-- Beyond its budget the reader gives up, and with no other fault. -/
theorem givesUp_expression_pack {expr : SExpr} {budget : Nat} (beyond : budget < expr.nesting)
    (measured : expr.Measured) : GivesUp (expression budget).run expr.pack := by
  induction expr generalizing budget with
  | atom leaf => exact absurd beyond (Nat.not_lt_zero budget)
  | list items ih =>
    intro offset rest
    rw [SExpr.measured_list_iff] at measured
    cases budget with
    | zero =>
      rw [expression, bounded_run_of_begins _ (begins_pack _), expressionAt_list]
      exact ⟨offset, _, rfl⟩
    | succ budget =>
      have shallow : ∀ expr ∈ items, expr.nesting ≤ budget →
          Reads (expression budget).run expr.pack expr :=
        fun expr mem within => reads_expression_pack within (measured expr mem)
      have deep : ∀ expr ∈ items, budget < expr.nesting →
          GivesUp (expression budget).run expr.pack :=
        fun expr mem tooDeep => ih expr mem tooDeep (measured expr mem)
      obtain ⟨place, next, run⟩ := collect_packItems_givesUp shallow deep
        (Nat.lt_of_succ_lt_succ beyond) [] (offset + 1) (0x29 :: rest)
      refine ⟨place, next, ?_⟩
      rw [expression, bounded_run_of_begins _ (begins_pack _), expressionAt_list,
        SExpr.pack_list_append]
      change (listOf (expression budget)) _ = _
      rw [listOf, bind_of_ok (expect_cons _ _ _), bind_of_error run]

end Reader

end SimplePki
