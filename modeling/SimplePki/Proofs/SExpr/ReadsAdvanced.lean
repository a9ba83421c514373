import SimplePki.Proofs.SExpr.Advanced
import SimplePki.Proofs.SExpr.Spelling

/-!
# Reading the advanced form

An octet string in quotes or in base64 says where it ends.  A token does not: it is read as far as
token octets go, and so it is read back in front of anything else.  In an expression a token is
always followed by a space, a bracket or a parenthesis, or by nothing.

So an expression is read back from its advanced form within the limit of nesting, and is too deep
beyond that, as it is in its canonical encoding.  There are no lengths here, and no limit to them.

## Main definitions

* `Reader.ReadsApart`: a reader consumes a written form in front of what continues no token
* `SExpr.Sent`: the octets of an expression in either form

## Main results

* `Reader.readsApart_octets_advanced`: octet strings
* `Reader.readsApart_expression_advanced`, `Reader.givesUp_expression_advanced`: expressions
* `SExpr.read_toAdvanced`, `SExpr.read_toAdvanced_of_tooDeep`: whole inputs
* `SExpr.toAdvanced_injective`: no two expressions are written alike
* `SExpr.advanced_forms_are_read_back`
* `SExpr.Sent.read_eq_ok`, `SExpr.Sent.read_eq_tooDeep`: whole inputs in either form
-/

namespace SimplePki

open Octets

namespace Reader

variable {α : Type}

/-! ### Octet strings -/

/-- Nothing that stands here continues a token. -/
def EndsToken (rest : Octets) : Prop :=
  ∀ octet, rest.head? = some octet → isTokenOctet octet = false

/-- Yields the value of a written form and consumes exactly that form, wherever it stands in front
of what continues no token. -/
def ReadsApart (reader : Reader α) (written : Octets) (value : α) : Prop :=
  ∀ offset rest, EndsToken rest →
    reader ⟨offset, written ++ rest⟩ = .ok value ⟨offset + written.length, rest⟩

theorem Reads.readsApart {reader : Reader α} {written : Octets} {value : α}
    (h : Reads reader written value) : ReadsApart reader written value :=
  fun offset rest _ => h offset rest

theorem endsToken_nil : EndsToken [] := fun _ none => nomatch none

theorem endsToken_cons {octet : UInt8} (h : isTokenOctet octet = false) (rest : Octets) :
    EndsToken (octet :: rest) := by
  intro other same
  rw [← Option.some.inj same]
  exact h

theorem delimited?_of_isTokenOctet {octet : UInt8} (h : isTokenOctet octet = true) :
    delimited? octet = none := by
  have noQuote : octet ≠ 0x22 := by rintro rfl; exact absurd h (by decide)
  have noHash : octet ≠ 0x23 := by rintro rfl; exact absurd h (by decide)
  have noBar : octet ≠ 0x7C := by rintro rfl; exact absurd h (by decide)
  rw [delimited?, if_neg noQuote, if_neg noHash, if_neg noBar]

theorem readsApart_octets_token {value : Octets} (token : isToken value = true) :
    ReadsApart octets value value := by
  obtain ⟨first, tail, rfl, noDigit, each⟩ := isToken_eq_true token
  intro offset rest ends
  have opening := each first List.mem_cons_self
  rw [List.cons_append, octets, offset_bind, peek_bind]
  simp only [List.head?_cons, noDigit, delimited?_of_isTokenOctet opening, opening, if_true,
    Bool.false_eq_true, if_false]
  rw [bind_of_ok (next_cons first _ _), bind_of_ok
    (takeWhile_append (fun octet mem => each octet (List.mem_cons_of_mem _ mem)) ends _)]
  change EStateM.Result.ok _ _ = _
  congr 2
  rw [List.length_cons]
  omega

theorem quotes_quote (octet : UInt8) : Quotes octet (quote octet) := by
  by_cases isQuote : octet = 0x22
  · rw [isQuote]
    exact .named (by decide)
  · by_cases isBackslash : octet = 0x5C
    · rw [isBackslash]
      exact .named (by decide)
    · simpa [quote, isQuote, isBackslash] using Quotes.raw isQuote isBackslash

theorem compact_encodeOctets (octets : Octets) :
    compact (Base64.encodeOctets octets) = Base64.encodeOctets octets := by
  rw [compact, List.filter_eq_self]
  intro octet mem
  rw [(Base64.plain_of_mem_encodeOctets mem).2.1]
  rfl

/-- What is written neither as a token nor verbatim is written between delimiters. -/
theorem delimited_advanced {value : Octets} (noToken : isToken value = false) :
    Delimited value value.advanced := by
  have each (octets : Octets) : List.Forall₂ Quotes octets (octets.map quote) := by
    induction octets with
    | nil => exact .nil
    | cons octet octets ih => exact .cons (quotes_quote octet) ih
  unfold Octets.advanced
  rw [if_neg (by simp [noToken])]
  split
  · rw [List.flatMap_def]
    exact .quoted (each value)
  · exact .base64 (.inl (compact_encodeOctets value))

/-- An octet string is read back from its advanced form. -/
theorem readsApart_octets_advanced (value : Octets) : ReadsApart octets value.advanced value := by
  cases token : isToken value with
  | true =>
    rw [Octets.advanced, if_pos token]
    exact readsApart_octets_token token
  | false => exact (reads_octets_delimited (delimited_advanced token)).readsApart

/-! ### Atoms -/

/-- The octets with which the advanced form of an octet string may begin: those of a token but no
digit, a quote, and a bar. -/
def leads (octet : UInt8) : Bool :=
  (isTokenOctet octet && !isDigit octet) || octet == 0x22 || octet == 0x7C

theorem ne_of_leads {octet other : UInt8} (h : leads octet = true) (no : leads other = false) :
    octet ≠ other := by
  rintro rfl
  rw [no] at h
  exact Bool.false_ne_true h

theorem isBlank_of_leads {octet : UInt8} (h : leads octet = true) : isBlank octet = false := by
  rw [Bool.eq_false_iff]
  intro blank
  simp only [isBlank, Bool.or_eq_true, beq_iff_eq, or_assoc] at blank
  rcases blank with rfl | rfl | rfl | rfl | rfl <;> exact absurd h (by decide)

theorem advanced_eq_cons (value : Octets) :
    ∃ first rest, value.advanced = first :: rest ∧ leads first = true := by
  unfold Octets.advanced
  split
  · next token =>
    obtain ⟨first, rest, rfl, noDigit, each⟩ := isToken_eq_true token
    exact ⟨first, rest, rfl, by simp [leads, noDigit, each first List.mem_cons_self]⟩
  · split
    · exact ⟨0x22, _, rfl, by decide⟩
    · exact ⟨0x7C, _, rfl, by decide⟩

theorem skipBlank_advanced (value : Octets) (offset : Nat) (rest : Octets) :
    skipBlank ⟨offset, value.advanced ++ rest⟩ = .ok () ⟨offset, value.advanced ++ rest⟩ := by
  obtain ⟨first, tail, written, leading⟩ := advanced_eq_cons value
  rw [written, List.cons_append]
  exact skipBlank_cons (isBlank_of_leads leading) _ _

theorem readsApart_hinted_advanced (hint value : Octets) :
    ReadsApart hinted (Atom.advanced ⟨some hint, value⟩) (.atom ⟨some hint, value⟩) := by
  intro offset rest ends
  have written : Atom.advanced ⟨some hint, value⟩ ++ rest =
      0x5B :: (hint.advanced ++ 0x5D :: (value.advanced ++ rest)) := by
    rw [Atom.advanced, List.append_assoc, List.cons_append, List.cons_append]
  have size : (Atom.advanced ⟨some hint, value⟩).length =
      1 + hint.advanced.length + 1 + value.advanced.length := by
    simp only [Atom.advanced, List.length_append, List.length_cons]
    omega
  have readHint := readsApart_octets_advanced hint (offset + 1) (0x5D :: (value.advanced ++ rest))
    (endsToken_cons (by decide) _)
  rw [written, size, hinted, bind_of_ok (expect_cons _ _ _),
    bind_of_ok (skipBlank_advanced hint _ _), bind_of_ok readHint,
    bind_of_ok (skipBlank_cons (by decide) _ _), bind_of_ok (expect_cons _ _ _),
    bind_of_ok (skipBlank_advanced value _ _),
    bind_of_ok (readsApart_octets_advanced value _ rest ends)]
  change EStateM.Result.ok _ _ = _
  congr 2
  omega

/-- An atom is read without regard to the budget. -/
theorem readsApart_expressionAt_advanced (inner : Option Bounded) (leaf : Atom) :
    ReadsApart (expressionAt inner) leaf.advanced (.atom leaf) := by
  obtain ⟨hint, value⟩ := leaf
  intro offset rest ends
  cases hint with
  | none =>
    obtain ⟨first, tail, written, leading⟩ := advanced_eq_cons value
    have plainly : plain ⟨offset, value.advanced ++ rest⟩ =
        .ok (.ofOctets value) ⟨offset + value.advanced.length, rest⟩ := by
      rw [plain, bind_of_ok (readsApart_octets_advanced value offset rest ends)]
      rfl
    change expressionAt inner ⟨offset, value.advanced ++ rest⟩ = _
    rw [written, List.cons_append] at plainly ⊢
    rw [expressionAt_cons inner (ne_of_leads leading (by decide)) (ne_of_leads leading (by decide))
      (ne_of_leads leading (by decide)), plainly, ← written]
    rfl
  | some hint => exact readsApart_hinted_advanced hint value offset rest ends

/-! ### Lists -/

theorem begins_advanced (expr : SExpr) : Begins expr.advanced := by
  match expr with
  | .atom ⟨none, value⟩ =>
    obtain ⟨first, rest, written, leading⟩ := advanced_eq_cons value
    exact ⟨first, rest, written, isBlank_of_leads leading, ne_of_leads leading (by decide)⟩
  | .atom ⟨some hint, value⟩ => exact ⟨0x5B, _, rfl, by decide, by decide⟩
  | .list items => exact ⟨0x28, _, rfl, by decide, by decide⟩

theorem readsApart_item_advanced {element : Reader SExpr} {expr : SExpr}
    (h : ReadsApart element expr.advanced expr) :
    ReadsApart (item element) expr.advanced (some expr) := by
  intro offset rest ends
  rw [item_of_begins element (begins_advanced expr), bind_of_ok (h offset rest ends)]
  rfl

/-- A space in front of an item is skipped. -/
theorem collect_space (element : Bounded) (found : List SExpr) (offset : Nat) (rest : Octets) :
    collect (item element.run) (advances_item element) found ⟨offset, 0x20 :: rest⟩ =
      collect (item element.run) (advances_item element) found ⟨offset + 1, rest⟩ := by
  have skipped : skipBlank ⟨offset, 0x20 :: rest⟩ = skipBlank ⟨offset + 1, rest⟩ := by
    have blank : isBlank 0x20 = true := by decide
    simp only [skipBlank, Cursor.skipBlank, Cursor.skipWhile, List.takeWhile_cons_of_pos blank,
      List.dropWhile_cons_of_pos blank, List.length_cons]
    congr 2
    omega
  have same : item element.run ⟨offset, 0x20 :: rest⟩ = item element.run ⟨offset + 1, rest⟩ := by
    cases run : skipBlank ⟨offset + 1, rest⟩ with
    | ok done cursor =>
      rw [item, bind_of_ok (skipped.trans run), bind_of_ok run]
    | error error cursor => cases run
  rw [collect_apply, same, ← collect_apply]

/-- Items that are read one by one are collected up to the parenthesis that closes their list. -/
theorem collect_advancedList {element : Bounded} {items : List SExpr}
    (each : ∀ expr ∈ items, ReadsApart element.run expr.advanced expr) (found : List SExpr)
    (offset : Nat) (rest : Octets) :
    collect (item element.run) (advances_item element) found
        ⟨offset, SExpr.advancedList items ++ 0x29 :: rest⟩ =
      .ok (found.reverse ++ items)
        ⟨offset + (SExpr.advancedList items).length + 1, rest⟩ := by
  -- the items found so far are kept in reverse
  induction items generalizing found offset with
  | nil =>
    rw [collect_apply, SExpr.advancedList, List.nil_append, item_close, List.append_nil]
    rfl
  | cons expr items ih =>
    have others := ih fun other mem => each other (List.mem_cons_of_mem _ mem)
    have first := readsApart_item_advanced (each expr List.mem_cons_self)
    cases items with
    | nil =>
      have ends : EndsToken (0x29 :: rest) := endsToken_cons (by decide) _
      have close := others (expr :: found) (offset + expr.advanced.length)
      rw [SExpr.advancedList, List.nil_append, List.length_nil] at close
      rw [SExpr.advancedList, collect_of_some _ _ (first offset _ ends), close, List.reverse_cons,
        List.append_nil]
    | cons next items =>
      have ends : EndsToken (0x20 :: (SExpr.advancedList (next :: items) ++ 0x29 :: rest)) :=
        endsToken_cons (by decide) _
      rw [SExpr.advancedList, List.append_assoc, List.cons_append,
        collect_of_some _ _ (first offset _ ends), collect_space, others, List.reverse_cons,
        List.append_assoc, List.singleton_append, List.length_append, List.length_cons]
      congr 2
      omega

/-- The first item that is nested too deep stops the reading of its list, because the items in front
of it are read. -/
theorem collect_advancedList_givesUp {element : Bounded} {items : List SExpr} {budget : Nat}
    (shallow : ∀ expr ∈ items, expr.nesting ≤ budget → ReadsApart element.run expr.advanced expr)
    (deep : ∀ expr ∈ items, budget < expr.nesting → GivesUp element.run expr.advanced)
    (beyond : budget < SExpr.nestingItems items) (found : List SExpr) (offset : Nat)
    (rest : Octets) :
    ∃ place next, collect (item element.run) (advances_item element) found
        ⟨offset, SExpr.advancedList items ++ rest⟩ = .error (.tooDeep place) next := by
  induction items generalizing found offset with
  | nil => exact absurd beyond (Nat.not_lt_zero budget)
  | cons expr items ih =>
    obtain ⟨more, split⟩ : ∃ more, SExpr.advancedList (expr :: items) ++ rest =
        expr.advanced ++ more := by
      cases items with
      | nil => exact ⟨rest, rfl⟩
      | cons next items => exact ⟨_, List.append_assoc _ _ _⟩
    rcases Nat.lt_or_ge budget expr.nesting with tooDeep | within
    · obtain ⟨place, next, run⟩ := deep expr List.mem_cons_self tooDeep offset more
      refine ⟨place, next, ?_⟩
      rw [split, collect_apply, item_of_begins _ (begins_advanced expr), bind_of_error run]
    · rw [SExpr.nestingItems] at beyond
      -- this item is read, so that there is one behind it
      cases items with
      | nil => exact absurd beyond (by simpa [SExpr.nestingItems] using within)
      | cons next items =>
        have first := readsApart_item_advanced (shallow expr List.mem_cons_self within)
        have ends : EndsToken (0x20 :: (SExpr.advancedList (next :: items) ++ rest)) :=
          endsToken_cons (by decide) _
        rw [SExpr.advancedList, List.append_assoc, List.cons_append,
          collect_of_some _ _ (first offset _ ends), collect_space]
        apply ih
        · exact fun expr mem => shallow expr (List.mem_cons_of_mem _ mem)
        · exact fun expr mem => deep expr (List.mem_cons_of_mem _ mem)
        · omega

theorem advanced_list_append (items : List SExpr) (rest : Octets) :
    (SExpr.list items).advanced ++ rest = 0x28 :: (SExpr.advancedList items ++ 0x29 :: rest) := by
  rw [SExpr.advanced, List.append_assoc, List.singleton_append, List.cons_append]

theorem readsApart_listOf {element : Bounded} {items : List SExpr}
    (each : ∀ expr ∈ items, ReadsApart element.run expr.advanced expr) :
    Reads (listOf element) (SExpr.list items).advanced (.list items) := by
  intro offset rest
  rw [advanced_list_append, listOf, bind_of_ok (expect_cons _ _ _),
    bind_of_ok (collect_advancedList each [] _ _), SExpr.advanced, List.length_append,
    List.length_cons]
  change EStateM.Result.ok _ _ = _
  congr 2
  simp only [List.length_cons, List.length_nil]
  omega

/-! ### Expressions -/

/-- The advanced form of an expression is read within every budget that covers its nesting. -/
theorem readsApart_expression_advanced {expr : SExpr} {budget : Nat}
    (within : expr.nesting ≤ budget) : ReadsApart (expression budget).run expr.advanced expr := by
  induction expr generalizing budget with
  | atom leaf =>
    intro offset rest ends
    cases budget <;> rw [expression, bounded_run_of_begins _ (begins_advanced _)] <;>
      exact readsApart_expressionAt_advanced _ leaf offset rest ends
  | list items ih =>
    cases budget with
    | zero => exact absurd within (Nat.not_succ_le_zero _)
    | succ budget =>
      intro offset rest _
      have inside : SExpr.nestingItems items ≤ budget := Nat.le_of_succ_le_succ within
      have each : ∀ expr ∈ items, ReadsApart (expression budget).run expr.advanced expr :=
        fun expr mem => ih expr mem (SExpr.nestingItems_le_iff.mp inside expr mem)
      have listed := readsApart_listOf each offset rest
      rw [expression, bounded_run_of_begins _ (begins_advanced _)]
      rw [advanced_list_append] at listed ⊢
      rw [expressionAt_open]
      exact listed

/-- Beyond its budget the reader gives up, and with no other fault. -/
theorem givesUp_expression_advanced {expr : SExpr} {budget : Nat} (beyond : budget < expr.nesting) :
    GivesUp (expression budget).run expr.advanced := by
  induction expr generalizing budget with
  | atom leaf => exact absurd beyond (Nat.not_lt_zero budget)
  | list items ih =>
    intro offset rest
    cases budget with
    | zero =>
      rw [expression, bounded_run_of_begins _ (begins_advanced _), advanced_list_append,
        expressionAt_open]
      exact ⟨offset, _, rfl⟩
    | succ budget =>
      have shallow : ∀ expr ∈ items, expr.nesting ≤ budget →
          ReadsApart (expression budget).run expr.advanced expr :=
        fun expr _ within => readsApart_expression_advanced within
      have deep : ∀ expr ∈ items, budget < expr.nesting →
          GivesUp (expression budget).run expr.advanced :=
        fun expr mem tooDeep => ih expr mem tooDeep
      obtain ⟨place, next, run⟩ := collect_advancedList_givesUp shallow deep
        (Nat.lt_of_succ_lt_succ beyond) [] (offset + 1) (0x29 :: rest)
      refine ⟨place, next, ?_⟩
      rw [expression, bounded_run_of_begins _ (begins_advanced _), advanced_list_append,
        expressionAt_open]
      change (listOf (expression budget)) _ = _
      rw [listOf, bind_of_ok (expect_cons _ _ _), bind_of_error run]

end Reader

namespace SExpr

open Reader

/-- An expression is read back from its advanced form. -/
theorem read_toAdvanced {expr : SExpr} (within : expr.nesting ≤ nestingLimit) :
    read (Octets.ofText expr.toAdvanced) = .ok expr := by
  have run := readsApart_expression_advanced within 0 [] endsToken_nil
  rw [List.append_nil] at run
  rw [ofText_toAdvanced, read, complete, Cursor.start, run]
  rfl

theorem read_toAdvanced_of_tooDeep {expr : SExpr} (beyond : nestingLimit < expr.nesting) :
    ∃ place, read (Octets.ofText expr.toAdvanced) = .error (.tooDeep place) := by
  rw [ofText_toAdvanced]
  exact read_of_givesUp (givesUp_expression_advanced beyond)

/-- Different expressions have different advanced forms, however deep they are nested. -/
theorem toAdvanced_injective {expr other : SExpr} (h : expr.toAdvanced = other.toAdvanced) :
    expr = other := by
  -- a reader with a budget for both reads either one from the form that they share
  have octets : expr.advanced = other.advanced := by
    rw [← ofText_toAdvanced, h, ofText_toAdvanced]
  have run := readsApart_expression_advanced (Nat.le_max_left expr.nesting other.nesting)
    0 [] endsToken_nil
  rw [octets, readsApart_expression_advanced (Nat.le_max_right expr.nesting other.nesting)
    0 [] endsToken_nil] at run
  cases run
  rfl

/-- What an expression is read as from its advanced form: itself, if it is not nested too deep, and
nothing, for that reason alone, if it is.  No two expressions have one advanced form. -/
theorem advanced_forms_are_read_back (expr : SExpr) :
    (read (Octets.ofText expr.toAdvanced) = .ok expr ↔ expr.nesting ≤ nestingLimit) ∧
    (nestingLimit < expr.nesting →
      ∃ place, read (Octets.ofText expr.toAdvanced) = .error (.tooDeep place)) ∧
    ∀ other : SExpr, other.toAdvanced = expr.toAdvanced → other = expr := by
  refine ⟨⟨?_, read_toAdvanced⟩, read_toAdvanced_of_tooDeep, fun other => toAdvanced_injective⟩
  intro readBack
  by_contra tooDeep
  obtain ⟨place, refused⟩ := read_toAdvanced_of_tooDeep (Nat.lt_of_not_le tooDeep)
  exact nomatch readBack.symm.trans refused

/-- Octets that are no text, under a hint of brackets, no octets at all, a text that starts with a
digit, one of a quote and a backslash, and a token beside an empty list. -/
def motley : SExpr :=
  .list [.atom ⟨some (Octets.ofText "] ["), [0x00, 0xFF]⟩, ofOctets [], text "7up",
    text "\"\\", .list [text "up", .list []]]

/-- Each octet string is rendered in the first way that it allows, and all are read back. -/
theorem motley_is_read_back :
    motley.toAdvanced = "([\"] [\"]|AP8=| \"\" \"7up\" \"\\\"\\\\\" (up ()))" ∧
      read (Octets.ofText motley.toAdvanced) = .ok motley := by
  refine ⟨by decide +kernel, ?_⟩
  exact (advanced_forms_are_read_back motley).1.mpr (by decide +kernel)

/-! ### Either form -/

/-- The octets of an expression as it may be sent: its canonical encoding, which has to fit into
memory, or its advanced form. -/
inductive Sent (expr : SExpr) : Octets → Prop where
  | packed (short : expr.pack.length < memoryLimit) : Sent expr expr.pack
  | advanced : Sent expr (Octets.ofText expr.toAdvanced)

theorem Sent.read_eq_ok {expr : SExpr} {octets : Octets} (sent : Sent expr octets)
    (within : expr.nesting ≤ nestingLimit) : read octets = .ok expr := by
  cases sent with
  | packed short => exact read_pack within short
  | advanced => exact read_toAdvanced within

theorem Sent.read_eq_tooDeep {expr : SExpr} {octets : Octets} (sent : Sent expr octets)
    (beyond : nestingLimit < expr.nesting) : ∃ place, read octets = .error (.tooDeep place) := by
  cases sent with
  | packed short => exact read_pack_of_tooDeep beyond short
  | advanced => exact read_toAdvanced_of_tooDeep beyond

end SExpr

end SimplePki
