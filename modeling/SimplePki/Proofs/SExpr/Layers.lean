import SimplePki.Proofs.SExpr.ReadsAdvanced

/-!
# Lists and transport blocks around an expression

An expression may stand in parentheses, which make it the only item of a list, and in braces, which
hold the base64 of what is written inside and leave the expression as it is.  Either way it stands
one deeper.  The reader of a block starts a new input, but not a new budget: what the block holds is
read with what the list around the block has left.  So parentheses and braces can be put around one
another in any order, and only their number counts, together with the nesting of the expression
inside.

## Main definitions

* `Layer`: parentheses or braces, with `Layer.around` and `Layer.holds` for what is written and what
  is meant
* `Layer.written`, `Layer.meant`: many layers, the outermost first
* `SExpr.inBlocks`: the octets of an input in blocks, one inside the other

## Main results

* `Reader.Reads.around`, `Reader.GivesUp.around`: a layer takes one unit of the budget
* `Reader.reads_written`, `Reader.givesUp_written`: so do any layers
* `SExpr.lists_and_blocks_share_one_budget`
-/

namespace SimplePki

/-- What may stand around an expression. -/
inductive Layer where
  /-- The parentheses of a list with one item. -/
  | list
  /-- The braces of a transport block. -/
  | block
  deriving DecidableEq, Repr

namespace Layer

/-- A layer around written octets. -/
def around : Layer → Octets → Octets
  | list, inside => 0x28 :: inside ++ [0x29]
  | block, inside => 0x7B :: Base64.encodeOctets inside ++ [0x7D]

/-- What an expression is inside a layer. -/
def holds : Layer → SExpr → SExpr
  | list, expr => .list [expr]
  | block, expr => expr

/-- Layers around written octets, the outermost first. -/
def written (layers : List Layer) (inside : Octets) : Octets := layers.foldr around inside

/-- What an expression is inside layers. -/
def meant (layers : List Layer) (expr : SExpr) : SExpr := layers.foldr holds expr

/-! ### Layers of one kind -/

theorem written_replicate_list (count : Nat) (inside : Octets) :
    written (List.replicate count list) inside =
      List.replicate count 0x28 ++ inside ++ List.replicate count 0x29 := by
  induction count with
  | zero => exact (List.append_nil inside).symm
  | succ count ih =>
    -- the parenthesis that opens first closes last
    rw [List.replicate_succ, written, List.foldr_cons, ← written, ih, around, List.replicate_succ,
      List.replicate_succ']
    simp only [List.cons_append, List.append_assoc]

theorem meant_replicate_list (count : Nat) (expr : SExpr) :
    meant (List.replicate count list) expr = expr.inLists count := by
  induction count with
  | zero => rfl
  | succ count ih => rw [List.replicate_succ, meant, List.foldr_cons, ← meant, ih]; rfl

theorem meant_replicate_block (count : Nat) (expr : SExpr) :
    meant (List.replicate count block) expr = expr := by
  induction count with
  | zero => rfl
  | succ count ih => rw [List.replicate_succ, meant, List.foldr_cons, ← meant, ih]; rfl

end Layer

namespace Reader

open Octets

variable {element : Bounded} {written : Octets} {expr : SExpr}

/-! ### One layer -/

theorem begins_around (layer : Layer) (inside : Octets) : Begins (layer.around inside) := by
  cases layer with
  | list => exact ⟨0x28, _, rfl, by decide, by decide⟩
  | block => exact ⟨0x7B, _, rfl, by decide, by decide⟩

theorem around_list_append (inside rest : Octets) :
    Layer.list.around inside ++ rest = 0x28 :: (inside ++ 0x29 :: rest) := by
  rw [Layer.around, List.append_assoc, List.cons_append, List.singleton_append]

theorem around_block_append (inside rest : Octets) :
    Layer.block.around inside ++ rest = 0x7B :: (Base64.encodeOctets inside ++ 0x7D :: rest) := by
  rw [Layer.around, List.append_assoc, List.cons_append, List.singleton_append]

/-- The base64 in a transport block ends where its brace closes. -/
theorem base64Through_brace (inside : Octets) (offset : Nat) (rest : Octets) :
    base64Through 0x7D ⟨offset, Base64.encodeOctets inside ++ 0x7D :: rest⟩ =
      .ok inside ⟨offset + (Base64.encodeOctets inside).length + 1, rest⟩ :=
  base64Through_of_compact (.inl (compact_encodeOctets inside))
    (fun _ mem => (Base64.plain_of_mem_encodeOctets mem).2.2.2) offset rest

/-- A list with one item is read if the item is. -/
theorem Reads.listOf (h : Reads element.run written expr) (begins : Begins written) :
    Reads (Reader.listOf element) (Layer.list.around written) (.list [expr]) := by
  intro offset rest
  have first := reads_item begins h (offset + 1) (0x29 :: rest)
  rw [around_list_append, Reader.listOf, bind_of_ok (expect_cons _ _ _)]
  have collected : collect (item element.run) (advances_item element) []
      ⟨offset + 1, written ++ 0x29 :: rest⟩ =
        .ok [expr] ⟨offset + 1 + written.length + 1, rest⟩ := by
    rw [collect_of_some _ _ first, collect_apply, item_close]
    rfl
  rw [bind_of_ok collected, Layer.around, List.length_append, List.length_cons,
    List.length_singleton]
  change EStateM.Result.ok _ _ = _
  congr 2
  omega

/-- A transport block is read if what it holds is, as an input of its own. -/
theorem Reads.transport (h : Reads element.run written expr) :
    Reads (Reader.transport element) (Layer.block.around written) expr := by
  intro offset rest
  have whole : complete element.run written = .ok expr := by
    have run := h 0 []
    rw [List.append_nil] at run
    rw [complete, Cursor.start, run]
    rfl
  rw [around_block_append, Reader.transport, bind_of_ok (expect_cons _ _ _),
    bind_of_ok (base64Through_brace written _ _), whole, Layer.around, List.length_append,
    List.length_cons, List.length_singleton]
  change EStateM.Result.ok _ _ = _
  congr 2
  omega

/-- A list is too deep if its item is. -/
theorem GivesUp.listOf (h : GivesUp element.run written) (begins : Begins written) :
    GivesUp (Reader.listOf element) (Layer.list.around written) := by
  intro offset rest
  obtain ⟨place, next, run⟩ := h (offset + 1) (0x29 :: rest)
  have collected : collect (item element.run) (advances_item element) []
      ⟨offset + 1, written ++ 0x29 :: rest⟩ = .error (.tooDeep place) next := by
    rw [collect_apply, item_of_begins _ begins, bind_of_error run]
  refine ⟨place, next, ?_⟩
  rw [around_list_append, Reader.listOf, bind_of_ok (expect_cons _ _ _), bind_of_error collected]

/-- A transport block is too deep if what it holds is; the place is one in the block. -/
theorem GivesUp.transport (h : GivesUp element.run written) :
    GivesUp (Reader.transport element) (Layer.block.around written) := by
  intro offset rest
  obtain ⟨place, next, run⟩ := h 0 []
  have whole : complete element.run written = .error (.tooDeep place) := by
    rw [List.append_nil] at run
    rw [complete, Cursor.start, run]
  rw [around_block_append, Reader.transport, bind_of_ok (expect_cons _ _ _),
    bind_of_ok (base64Through_brace written _ _), whole]
  exact ⟨place, _, rfl⟩

/-- A layer is entered with a reader for what stands inside, if anything may nest. -/
theorem expressionAt_around (inner : Option Bounded) (layer : Layer) (inside : Octets)
    (offset : Nat) (rest : Octets) :
    expressionAt inner ⟨offset, layer.around inside ++ rest⟩ =
      match inner, layer with
      | none, _ => .error (.tooDeep offset) ⟨offset, layer.around inside ++ rest⟩
      | some element, .list => Reader.listOf element ⟨offset, layer.around inside ++ rest⟩
      | some element, .block => Reader.transport element ⟨offset, layer.around inside ++ rest⟩ := by
  cases layer with
  | list =>
    rw [around_list_append, expressionAt_open]
    cases inner <;> rfl
  | block =>
    rw [around_block_append, expressionAt, offset_bind, peek_bind]
    cases inner <;> rfl

/-- What is read within a budget is read inside a layer within one more. -/
theorem Reads.around {budget : Nat} (h : Reads (expression budget).run written expr)
    (begins : Begins written) (layer : Layer) :
    Reads (expression (budget + 1)).run (layer.around written) (layer.holds expr) := by
  intro offset rest
  rw [expression, bounded_run_of_begins _ (begins_around layer written), expressionAt_around]
  cases layer with
  | list => exact h.listOf begins offset rest
  | block => exact h.transport offset rest

/-- Where nothing may nest any more, no layer can be entered. -/
theorem givesUp_around_zero (layer : Layer) (inside : Octets) :
    GivesUp (expression 0).run (layer.around inside) := by
  intro offset rest
  rw [expression, bounded_run_of_begins _ (begins_around layer inside), expressionAt_around]
  exact ⟨offset, _, rfl⟩

/-- What is too deep for a budget is too deep inside a layer for one more. -/
theorem GivesUp.around {budget : Nat} (h : GivesUp (expression budget).run written)
    (begins : Begins written) (layer : Layer) :
    GivesUp (expression (budget + 1)).run (layer.around written) := by
  intro offset rest
  rw [expression, bounded_run_of_begins _ (begins_around layer written), expressionAt_around]
  cases layer with
  | list => exact h.listOf begins offset rest
  | block => exact h.transport offset rest

/-! ### Many layers -/

theorem begins_written (layers : List Layer) (begins : Begins written) :
    Begins (Layer.written layers written) := by
  cases layers with
  | nil => exact begins
  | cons layer layers => exact begins_around layer _

/-- An expression inside layers is read within every budget that covers its nesting and them. -/
theorem reads_written (measured : expr.Measured) {layers : List Layer} {budget : Nat}
    (within : expr.nesting + layers.length ≤ budget) :
    Reads (expression budget).run (Layer.written layers expr.pack) (Layer.meant layers expr) := by
  -- the outermost layer is entered first, and leaves one unit less for those inside
  induction layers generalizing budget with
  | nil => exact reads_expression_pack within measured
  | cons layer layers ih =>
    rw [List.length_cons] at within
    cases budget with
    | zero => exact absurd within (Nat.not_succ_le_zero _)
    | succ budget =>
      have inside := ih (Nat.le_of_succ_le_succ within)
      exact inside.around (begins_written layers (begins_pack expr)) layer

/-- Beyond its budget the reader gives up, in whichever layer that is. -/
theorem givesUp_written (measured : expr.Measured) {layers : List Layer} {budget : Nat}
    (beyond : budget < expr.nesting + layers.length) :
    GivesUp (expression budget).run (Layer.written layers expr.pack) := by
  induction layers generalizing budget with
  | nil => exact givesUp_expression_pack beyond measured
  | cons layer layers ih =>
    rw [List.length_cons] at beyond
    cases budget with
    | zero => exact givesUp_around_zero layer _
    | succ budget =>
      have inside := ih (Nat.lt_of_succ_lt_succ beyond)
      exact inside.around (begins_written layers (begins_pack expr)) layer

end Reader

namespace SExpr

/-- The octets of an input in a transport block, those in another, and so on. -/
def inBlocks (octets : Octets) : (depth : Nat) → Octets
  | 0 => octets
  | depth + 1 => 0x7B :: Base64.encodeOctets (inBlocks octets depth) ++ [0x7D]

theorem written_replicate_block (octets : Octets) (depth : Nat) :
    Layer.written (List.replicate depth .block) octets = inBlocks octets depth := by
  induction depth with
  | zero => rfl
  | succ depth ih =>
    rw [List.replicate_succ, Layer.written, List.foldr_cons, ← Layer.written, ih]
    rfl

/-- An expression inside layers is read if there is room for its nesting and them, and is too deep
if there is not. -/
theorem read_written {expr : SExpr} (measured : expr.Measured) (layers : List Layer) :
    (expr.nesting + layers.length ≤ nestingLimit →
      read (Layer.written layers expr.pack) = .ok (Layer.meant layers expr)) ∧
    (nestingLimit < expr.nesting + layers.length →
      ∃ place, read (Layer.written layers expr.pack) = .error (.tooDeep place)) :=
  ⟨fun within => read_of_reads (Reader.reads_written measured within),
    fun beyond => read_of_givesUp (Reader.givesUp_written measured beyond)⟩

/-- An expression in blocks that stand in lists is read, as that expression in these lists, exactly
if it leaves room for all of them; the one reason why it would not be read is that there is none. -/
theorem lists_and_blocks_share_one_budget {expr : SExpr}
    (short : expr.pack.length < memoryLimit) :
    (∀ blocks : Nat,
      (expr.nesting + blocks ≤ nestingLimit → read (inBlocks expr.pack blocks) = .ok expr) ∧
      (nestingLimit < expr.nesting + blocks →
        ∃ place, read (inBlocks expr.pack blocks) = .error (.tooDeep place))) ∧
    (∀ lists blocks : Nat,
      let input := List.replicate lists 0x28 ++ inBlocks expr.pack blocks ++
        List.replicate lists 0x29
      (read input = .ok (expr.inLists lists) ↔ lists + blocks + expr.nesting ≤ nestingLimit) ∧
      (nestingLimit < lists + blocks + expr.nesting →
        ∃ place, read input = .error (.tooDeep place))) ∧
    ∀ layers : List Layer,
      (read (Layer.written layers expr.pack) = .ok (Layer.meant layers expr) ↔
        layers.length + expr.nesting ≤ nestingLimit) ∧
      (nestingLimit < layers.length + expr.nesting →
        ∃ place, read (Layer.written layers expr.pack) = .error (.tooDeep place)) := by
  have each (layers : List Layer) := read_written (measured_of_lt_memoryLimit short) layers
  have mixed (layers : List Layer) :
      (read (Layer.written layers expr.pack) = .ok (Layer.meant layers expr) ↔
        layers.length + expr.nesting ≤ nestingLimit) ∧
      (nestingLimit < layers.length + expr.nesting →
        ∃ place, read (Layer.written layers expr.pack) = .error (.tooDeep place)) := by
    obtain ⟨shallow, deep⟩ := each layers
    rw [Nat.add_comm] at shallow deep
    refine ⟨⟨fun readBack => ?_, shallow⟩, deep⟩
    by_contra tooDeep
    obtain ⟨place, refused⟩ := deep (Nat.lt_of_not_le tooDeep)
    exact nomatch readBack.symm.trans refused
  refine ⟨fun blocks => ?_, fun lists blocks => ?_, mixed⟩
  · have only := each (List.replicate blocks .block)
    rwa [List.length_replicate, written_replicate_block, Layer.meant_replicate_block] at only
  · have both := mixed (List.replicate lists .list ++ List.replicate blocks .block)
    rw [List.length_append, List.length_replicate, List.length_replicate, Layer.written,
      List.foldr_append, ← Layer.written, ← Layer.written, written_replicate_block,
      Layer.written_replicate_list, Layer.meant, List.foldr_append, ← Layer.meant, ← Layer.meant,
      Layer.meant_replicate_block, Layer.meant_replicate_list] at both
    exact both

/-- The empty list leaves room for 255 layers: in a hundred lists for 155 blocks, and for no
more. -/
theorem room_in_a_hundred_lists :
    read (List.replicate 100 0x28 ++ inBlocks (list []).pack 155 ++ List.replicate 100 0x29) =
        .ok ((list []).inLists 100) ∧
      ∃ place, read (List.replicate 100 0x28 ++ inBlocks (list []).pack 156 ++
        List.replicate 100 0x29) = .error (.tooDeep place) := by
  have short : (list []).pack.length < memoryLimit := by decide
  obtain ⟨-, both, -⟩ := lists_and_blocks_share_one_budget short
  exact ⟨(both 100 155).1.mpr (by decide), (both 100 156).2 (by decide)⟩

end SExpr

end SimplePki
