import SimplePki.Proofs.SExpr.Reads

/-!
# Streams of expressions

Canonical encodings that stand one behind the other are read back one by one.  Nothing marks where
one of them ends, and nothing has to: each encoding says by itself how far it goes, whatever octets
follow it.

An octet string in memory is shorter than `2 ^ 63`, so that every length in an encoding is a machine
word.  The one thing that can keep an encoding from being read is the depth to which its lists are
nested.

## Main definitions

* `SExpr.readAll`: the expressions that an input consists of

## Main results

* `SExpr.readNext_pack`, `SExpr.read_pack`: an encoding is read off the front of any input
* `SExpr.read_pack_of_tooDeep`: an expression that is nested too deep is refused for that reason
* `SExpr.packed_streams_are_read_back`: all of it together, for streams of any length
-/

namespace SimplePki.SExpr

open Reader

/-! ### One expression -/

/-- The length of an octet string in memory is below this. -/
def memoryLimit : Nat := 0x8000000000000000

theorem measured_of_lt_memoryLimit {expr : SExpr} (short : expr.pack.length < memoryLimit) :
    expr.Measured :=
  measured_of_length_pack_lt (Nat.lt_trans short (by decide))

theorem readNext_pack {expr : SExpr} (within : expr.nesting ≤ nestingLimit)
    (short : expr.pack.length < memoryLimit) (rest : Octets) :
    readNext (expr.pack ++ rest) = .ok (expr, rest) := by
  have run := reads_expression_pack within (measured_of_lt_memoryLimit short) 0 rest
  rw [readNext, Cursor.start, run]

/-- What a reader consumes as a whole is what an input of nothing else holds. -/
theorem read_of_reads {written : Octets} {expr : SExpr}
    (h : Reads (expression nestingLimit).run written expr) : read written = .ok expr := by
  have run := h 0 []
  rw [List.append_nil] at run
  rw [read, complete, Cursor.start, run]
  rfl

/-- What the reader of an expression refuses is no input. -/
theorem read_of_error {input : Octets} {error : ReadError} {next : Cursor}
    (run : (expression nestingLimit).run (Cursor.start input) = .error error next) :
    read input = .error error := by
  rw [read, complete, run]

theorem read_of_givesUp {written : Octets} (h : GivesUp (expression nestingLimit).run written) :
    ∃ place, read written = .error (.tooDeep place) := by
  obtain ⟨place, next, run⟩ := h 0 []
  rw [List.append_nil] at run
  exact ⟨place, read_of_error run⟩

/-- How long the whole encoding is makes no difference, as long as its lengths can be written. -/
theorem read_pack_of_measured {expr : SExpr} (within : expr.nesting ≤ nestingLimit)
    (measured : expr.Measured) : read expr.pack = .ok expr :=
  read_of_reads (reads_expression_pack within measured)

theorem read_pack {expr : SExpr} (within : expr.nesting ≤ nestingLimit)
    (short : expr.pack.length < memoryLimit) : read expr.pack = .ok expr :=
  read_pack_of_measured within (measured_of_lt_memoryLimit short)

theorem read_pack_of_tooDeep {expr : SExpr} (beyond : nestingLimit < expr.nesting)
    (short : expr.pack.length < memoryLimit) :
    ∃ place, read expr.pack = .error (.tooDeep place) :=
  read_of_givesUp (givesUp_expression_pack beyond (measured_of_lt_memoryLimit short))

/-! ### Many expressions -/

theorem length_lt_of_readNext {input rest : Octets} {expr : SExpr}
    (h : readNext input = .ok (expr, rest)) : rest.length < input.length := by
  unfold readNext at h
  split at h
  · exact nomatch h
  · next value next run =>
    obtain ⟨-, rfl⟩ := Prod.mk.inj (Except.ok.inj h)
    exact (expression nestingLimit).advances _ _ _ run

/-- The expressions that an input consists of, read one after the other until nothing is left. -/
def readAll (input : Octets) : Except ReadError (List SExpr) :=
  match input with
  | [] => .ok []
  | octet :: more =>
    match _run : readNext (octet :: more) with
    | .error error => .error error
    | .ok (expr, rest) => (readAll rest).map (expr :: ·)
termination_by input.length
decreasing_by exact length_lt_of_readNext _run

theorem readAll_of_readNext {input rest : Octets} {expr : SExpr}
    (h : readNext input = .ok (expr, rest)) :
    readAll input = (readAll rest).map (expr :: ·) := by
  have longer := length_lt_of_readNext h
  cases input with
  | nil => exact absurd longer (Nat.not_lt_zero _)
  | cons octet more =>
    -- the definition keeps the equation of its match for its own termination
    rw [readAll]
    split
    · next run => rw [run] at h; exact nomatch h
    · next other behind run =>
      rw [run] at h
      obtain ⟨rfl, rfl⟩ := Prod.mk.inj (Except.ok.inj h)
      rfl

theorem readAll_packItems {exprs : List SExpr}
    (within : ∀ expr ∈ exprs, expr.nesting ≤ nestingLimit)
    (short : (packItems exprs).length < memoryLimit) : readAll (packItems exprs) = .ok exprs := by
  induction exprs with
  | nil => rw [packItems, readAll]
  | cons expr exprs ih =>
    rw [packItems, List.length_append] at short
    have first := readNext_pack (within expr List.mem_cons_self) (by omega) (packItems exprs)
    have others := ih (fun expr mem => within expr (List.mem_cons_of_mem _ mem)) (by omega)
    rw [packItems, readAll_of_readNext first, others]
    rfl

/-- Canonical encodings that stand one behind the other are read back as the expressions they are
of, whatever follows the first of them; an expression that is nested deeper than the limit is
refused for that reason and no other. -/
theorem packed_streams_are_read_back :
    (∀ (expr : SExpr) (rest : Octets), (expr.pack ++ rest).length < memoryLimit →
      expr.nesting ≤ nestingLimit →
        readNext (expr.pack ++ rest) = .ok (expr, rest) ∧ read expr.pack = .ok expr) ∧
    (∀ exprs : List SExpr, (packItems exprs).length < memoryLimit →
      (∀ expr ∈ exprs, expr.nesting ≤ nestingLimit) →
        readAll (packItems exprs) = .ok exprs) ∧
    (∀ expr : SExpr, expr.pack.length < memoryLimit → nestingLimit < expr.nesting →
      ∃ place, read expr.pack = .error (.tooDeep place)) := by
  refine ⟨?_, fun exprs short within => readAll_packItems within short,
    fun expr short beyond => read_pack_of_tooDeep beyond short⟩
  intro expr rest short within
  have shorter : expr.pack.length < memoryLimit := by
    rw [List.length_append] at short
    omega
  exact ⟨readNext_pack within shorter rest, read_pack within shorter⟩

/-- An expression whose atoms look like the signs around them, in front of digits and a colon; a
stream of it and of an empty list; and an empty list inside as many others as the limit allows. -/
theorem packed_streams_are_read_back_of_delimiters :
    readNext ([0x28, 0x32, 0x3A, 0x29, 0x28, 0x5B, 0x31, 0x3A, 0x5D, 0x5D, 0x30, 0x3A, 0x29] ++
        [0x31, 0x3A]) =
      .ok (.list [.ofOctets [0x29, 0x28], .atom ⟨some [0x5D], []⟩], [0x31, 0x3A]) ∧
    readAll (packItems [.list [.ofOctets [0x29, 0x28], .atom ⟨some [0x5D], []⟩], .list []]) =
      .ok [.list [.ofOctets [0x29, 0x28], .atom ⟨some [0x5D], []⟩], .list []] ∧
    ∃ place, read ((list []).inLists nestingLimit).pack = .error (.tooDeep place) :=
  ⟨(packed_streams_are_read_back.1 (.list [.ofOctets [0x29, 0x28], .atom ⟨some [0x5D], []⟩])
      [0x31, 0x3A] (by decide) (by decide)).1,
    packed_streams_are_read_back.2.1 _ (by decide) (by decide),
    packed_streams_are_read_back.2.2 _ (by rw [length_pack_inLists]; decide)
      (by rw [nesting_inLists]; decide)⟩

end SimplePki.SExpr
