import Mathlib.Data.List.TakeWhile
import SimplePki.Proofs.SExpr.Locality
import SimplePki.Proofs.SExpr.Stream

/-!
# Faults point at the culprit

A fault names a place of the input, and most of them say what stands there.  The place is taken
before, at or behind the octet that is refused, depending on where the reader notices: an octet that
is looked at is still ahead, one that was taken is not, and a wrong length is noticed only when
everything it counts has been read.  In each case the octet named is the one at the place named.

Transport blocks are the exception.  What they hold is an input of its own, with places of its own,
and a fault in there names one of these.

Whatever follows an expression is blamed on its first octet that is no whitespace, and the input in
front of it holds that expression and nothing else.

## Main definitions

* `ReadError.Justified`: what a fault says stands where it says
* `Reader.Honest`: a reader all of whose faults are justified

## Main results

* `Reader.Honest.bind`, `Reader.Honest.offset_peek_bind`: faults of readers that run one after the
  other, and of those that look ahead and remember the place
* `Reader.honest_expression`: expressions without transport blocks
* `SExpr.faults_point_at_the_culprit`
-/

namespace SimplePki

open Octets

/-! ### Places in an input -/

namespace Cursor

variable {input : Octets} {cursor next : Cursor}

/-- A place in a given input. -/
def In (cursor : Cursor) (input : Octets) : Prop :=
  ∃ behind, input = behind ++ cursor.ahead ∧ cursor.offset = behind.length

theorem start_in (input : Octets) : (start input).In input := ⟨[], rfl, rfl⟩

theorem In.reaches (h : cursor.In input) (later : cursor.Reaches next) : next.In input := by
  obtain ⟨behind, rfl, place⟩ := h
  obtain ⟨passed, split, moved⟩ := later
  refine ⟨behind ++ passed, ?_, ?_⟩
  · rw [split, List.append_assoc]
  · rw [moved, place, List.length_append]

/-- The octet ahead stands at the offset. -/
theorem In.getElem?_offset (h : cursor.In input) : input[cursor.offset]? = cursor.ahead.head? := by
  obtain ⟨behind, rfl, place⟩ := h
  rw [place, List.getElem?_append_right (Nat.le_refl _), Nat.sub_self, List.head?_eq_getElem?]

end Cursor

/-- What a fault says about an octet of the input is so.  Nothing is said of faults that name no
place, and that something follows an expression is no fault inside one. -/
def ReadError.Justified (input : Octets) : ReadError → Prop
  | .unexpectedOctet octet offset => input[offset]? = some octet
  | .invalidLength offset => ∃ digit, input[offset]? = some digit ∧ isDigit digit = true
  | .tooDeep offset => input[offset]? = some 0x28
  | .trailingOctets _ => False
  | .unexpectedEnd | .invalidHex _ | .invalidBase64 _ => True

namespace Reader

variable {α β : Type} {input : Octets}

/-- Raises justified faults only, wherever in the input it starts. -/
def Honest (input : Octets) (reader : Reader α) : Prop :=
  ∀ cursor, cursor.In input → ∀ error next, reader cursor = .error error next →
    error.Justified input

/-! ### Readers without a grammar -/

theorem honest_of_total {reader : Reader α}
    (total : ∀ cursor error next, reader cursor ≠ .error error next) : Honest input reader :=
  fun cursor _ error next run => absurd run (total cursor error next)

theorem honest_pure (value : α) : Honest input (pure value : Reader α) :=
  honest_of_total fun _ _ _ run => nomatch run

theorem honest_throw {error : ReadError} (h : error.Justified input) :
    Honest input (throw error : Reader α) := by
  intro cursor _ other next run
  obtain ⟨rfl, -⟩ := EStateM.Result.error.inj run
  exact h

theorem honest_peek : Honest input peek := honest_of_total fun _ _ _ run => nomatch run

theorem honest_skipBlank : Honest input skipBlank := honest_of_total fun _ _ _ run => nomatch run

theorem honest_takeWhile (p : UInt8 → Bool) : Honest input (takeWhile p) :=
  honest_of_total fun _ _ _ run => nomatch run

theorem honest_skipOptional (wanted : UInt8) : Honest input (skipOptional wanted) := by
  refine honest_of_total fun cursor error next run => ?_
  obtain ⟨offset, ahead⟩ := cursor
  rw [skipOptional_eq] at run
  split at run <;> exact nomatch run

/-- Where an input ends too early, nothing is said of any place. -/
theorem justified_of_end {cursor next : Cursor} {error : ReadError}
    (run : (.error .unexpectedEnd cursor : EStateM.Result ReadError Cursor α) =
      .error error next) : error.Justified input := by
  obtain ⟨rfl, -⟩ := EStateM.Result.error.inj run
  trivial

theorem honest_next : Honest input next := by
  intro cursor _ error after run
  unfold next at run
  split at run
  · exact justified_of_end run
  · cases run

theorem honest_expect (wanted : UInt8) : Honest input (expect wanted) := by
  intro cursor inside error next run
  unfold expect at run
  split at run
  · exact justified_of_end run
  · next octet rest ahead =>
    by_cases same : octet = wanted
    · simp [same] at run
    · rw [if_neg same] at run
      obtain ⟨rfl, -⟩ := EStateM.Result.error.inj run
      change input[cursor.offset]? = some octet
      rw [inside.getElem?_offset, ahead]
      rfl

theorem honest_takeExactly (n : Nat) : Honest input (takeExactly n) := by
  intro cursor _ error next run
  simp only [takeExactly] at run
  split at run
  · cases run
  · exact justified_of_end run

theorem honest_takeThrough (close : UInt8) : Honest input (takeThrough close) := by
  intro cursor _ error next run
  simp only [takeThrough] at run
  split at run
  · exact justified_of_end run
  · cases run

/-! ### One reader after the other -/

/-- The second reader starts where the first has left the same input. -/
theorem Honest.bind {reader : Reader α} {rest : α → Reader β} (h : Honest input reader)
    (proceeds : reader.Proceeds) (hrest : ∀ value, Honest input (rest value)) :
    Honest input (reader >>= rest) := by
  intro cursor inside error last run
  have moved := proceeds cursor
  cases first : reader cursor with
  | error fault next =>
    rw [bind_of_error first] at run
    obtain ⟨rfl, -⟩ := EStateM.Result.error.inj run
    exact h _ inside _ _ first
  | ok value next =>
    rw [bind_of_ok first] at run
    rw [first] at moved
    exact hrest value _ (inside.reaches moved) _ _ run

/-- An octet that is looked at stands at the place that was remembered. -/
theorem Honest.offset_peek_bind {rest : Nat → Option UInt8 → Reader β}
    (atEnd : ∀ start, Honest input (rest start none))
    (before : ∀ start octet, input[start]? = some octet → Honest input (rest start (some octet))) :
    Honest input (offset >>= fun start => peek >>= rest start) := by
  intro cursor inside error last run
  have place := inside.getElem?_offset
  rw [offset_bind, peek_bind] at run
  cases head : cursor.ahead.head? with
  | none =>
    rw [head] at run
    exact atEnd _ _ inside _ _ run
  | some octet =>
    rw [head] at run
    exact before _ octet (place.trans head) _ inside _ _ run

/-- An octet that was taken stood at the place that was remembered, which is behind now. -/
theorem Honest.offset_next_bind {rest : Nat → UInt8 → Reader β}
    (h : ∀ start octet, input[start]? = some octet → Honest input (rest start octet)) :
    Honest input (offset >>= fun start => next >>= rest start) := by
  intro cursor inside error last run
  have place := inside.getElem?_offset
  rw [offset_bind] at run
  cases ahead : cursor.ahead with
  | nil =>
    have ended : next cursor = .error .unexpectedEnd cursor := by simp [next, ahead]
    rw [bind_of_error ended] at run
    exact justified_of_end run
  | cons octet behind =>
    have taken : next cursor = .ok octet ⟨cursor.offset + 1, behind⟩ := by simp [next, ahead]
    rw [bind_of_ok taken] at run
    rw [ahead] at place
    exact h _ octet place _ (inside.reaches (Cursor.reaches_cons ahead)) _ _ run

theorem Honest.collect {step : Reader (Option α)} (h : Honest input step)
    (proceeds : step.Proceeds) (advances : step.Advances) (found : List α) :
    Honest input (Reader.collect step advances found) := by
  intro cursor inside error last run
  generalize size : cursor.ahead.length = n
  induction n using Nat.strongRecOn generalizing found cursor with
  | ind n ih =>
    have moved := proceeds cursor
    rw [collect_apply] at run
    cases first : step cursor with
    | error fault next =>
      rw [first] at run
      obtain ⟨rfl, -⟩ := EStateM.Result.error.inj run
      exact h _ inside _ _ first
    | ok value next =>
      rw [first] at run moved
      cases value with
      | none => exact nomatch run
      | some item =>
        exact ih _ (size ▸ advances _ _ _ first) _ _ (inside.reaches moved) run rfl

/-! ### Octet strings -/

theorem honest_octalDigit : Honest input octalDigit := by
  refine Honest.offset_next_bind fun start octet known => ?_
  split
  · exact honest_pure _
  · exact honest_throw known

theorem honest_hexEscape : Honest input hexEscape := by
  refine honest_next.bind proceeds_next fun _ => honest_next.bind proceeds_next fun _ => ?_
  split
  · exact honest_pure _
  · exact honest_throw trivial

/-- Three digits that write no octet are blamed on the first of them. -/
theorem honest_octalEscape {first : UInt8} {start : Nat} (known : input[start]? = some first) :
    Honest input (octalEscape first start) := by
  refine honest_octalDigit.bind proceeds_octalDigit fun _ =>
    honest_octalDigit.bind proceeds_octalDigit fun _ => ?_
  dsimp only
  split
  · exact honest_pure _
  · exact honest_throw known

theorem honest_escape : Honest input escape := by
  refine Honest.offset_next_bind fun start octet known => ?_
  split
  · exact honest_pure _
  · split
    · exact honest_hexEscape
    · split
      · exact honest_octalEscape known
      · split
        · exact (honest_skipOptional _).bind (proceeds_skipOptional _) fun _ => honest_pure _
        · split
          · exact (honest_skipOptional _).bind (proceeds_skipOptional _) fun _ => honest_pure _
          · exact honest_throw known

theorem honest_quotedPiece : Honest input quotedPiece := by
  refine honest_next.bind proceeds_next fun _ => ?_
  split
  · exact honest_pure _
  · split
    · exact honest_escape.bind proceeds_escape fun _ => honest_pure _
    · exact honest_pure _

theorem honest_quoted : Honest input quoted :=
  (honest_expect _).bind (proceeds_expect _) fun _ =>
    (honest_quotedPiece.collect proceeds_quotedPiece _ _).bind
      (proceeds_quotedPiece.collect _ _) fun _ => honest_pure _

theorem honest_hexadecimal : Honest input hexadecimal := by
  refine (honest_expect _).bind (proceeds_expect _) fun _ =>
    (honest_takeThrough _).bind (proceeds_takeThrough _) fun _ => ?_
  split
  · exact honest_pure _
  · exact honest_throw trivial

theorem honest_base64 : Honest input base64 := by
  refine (honest_expect _).bind (proceeds_expect _) fun _ =>
    (honest_takeThrough _).bind (proceeds_takeThrough _) fun _ => ?_
  split
  · exact honest_pure _
  · exact honest_throw trivial

theorem honest_of_delimited? {opening : UInt8} {body : Reader Octets}
    (h : delimited? opening = some body) : Honest input body := by
  unfold delimited? at h
  split at h
  · obtain rfl := Option.some.inj h
    exact honest_quoted
  · split at h
    · obtain rfl := Option.some.inj h
      exact honest_hexadecimal
    · split at h
      · obtain rfl := Option.some.inj h
        exact honest_base64
      · exact nomatch h

/-- A length is refused only where it has digits. -/
theorem honest_length : Honest input length := by
  intro cursor inside error next run
  obtain ⟨offset, ahead⟩ := cursor
  have place := inside.getElem?_offset
  rw [length_apply] at run
  split at run
  · next refused =>
    obtain ⟨rfl, -⟩ := EStateM.Result.error.inj run
    cases ahead with
    | nil => exact absurd refused (by decide)
    | cons digit behind =>
      by_cases isDigit : isDigit digit = true
      · exact ⟨digit, place, isDigit⟩
      · -- without digits the length is zero
        rw [List.takeWhile_cons_of_neg isDigit] at refused
        exact absurd refused (by decide)
  · exact nomatch run

theorem honest_measured {start : Nat} (known : (ReadError.invalidLength start).Justified input)
    (n : Nat) : Honest input (measured start n) := by
  refine Honest.offset_peek_bind (fun _ => honest_throw trivial) fun stop opening ahead => ?_
  dsimp only
  split
  · exact (honest_expect _).bind (proceeds_expect _) fun _ => honest_takeExactly _
  · split
    · exact honest_throw ahead
    · next body h =>
      refine (honest_of_delimited? h).bind (of_delimited? h).2 fun _ => ?_
      split
      · exact honest_pure _
      · exact honest_throw known

/-- Behind a digit, a wrong length is blamed on that digit. -/
theorem justified_of_counted {cursor next : Cursor} {error : ReadError} {digit : UInt8}
    (inside : cursor.In input) (head : cursor.ahead.head? = some digit)
    (isDigit : isDigit digit = true) (run : counted cursor = .error error next) :
    error.Justified input := by
  have place : input[cursor.offset]? = some digit := inside.getElem?_offset.trans head
  rw [counted, offset_bind] at run
  exact honest_length.bind proceeds_length (honest_measured ⟨digit, place, isDigit⟩)
    _ inside _ _ run

theorem honest_octets : Honest input octets := by
  intro cursor inside error next run
  have place := inside.getElem?_offset
  rw [octets, offset_bind, peek_bind] at run
  cases head : cursor.ahead.head? with
  | none =>
    rw [head] at run
    exact justified_of_end run
  | some opening =>
    rw [head] at run place
    dsimp only at run
    split at run
    · next digit => exact justified_of_counted inside head digit run
    · cases known : delimited? opening with
      | some body =>
        rw [known] at run
        exact honest_of_delimited? known _ inside _ _ run
      | none =>
        rw [known] at run
        dsimp only at run
        split at run
        · exact honest_next.bind proceeds_next (fun _ =>
            (honest_takeWhile _).bind (proceeds_takeWhile _) fun _ => honest_pure _)
            _ inside _ _ run
        · obtain ⟨rfl, -⟩ := EStateM.Result.error.inj run
          exact place

/-! ### Expressions -/

theorem honest_item {element : Bounded} (h : Honest input element.run) :
    Honest input (item element.run) := by
  refine honest_skipBlank.bind proceeds_skipBlank fun _ =>
    honest_peek.bind proceeds_peek fun octet => ?_
  cases octet with
  | none => exact honest_throw trivial
  | some octet =>
    dsimp only
    split
    · exact (honest_expect _).bind (proceeds_expect _) fun _ => honest_pure _
    · exact h.bind element.proceeds fun _ => honest_pure _

theorem honest_listOf {element : Bounded} (h : Honest input element.run) :
    Honest input (listOf element) :=
  (honest_expect _).bind (proceeds_expect _) fun _ =>
    ((honest_item h).collect (proceeds_item element) _ _).bind
      ((proceeds_item element).collect _ _) fun _ => honest_pure _

theorem honest_hinted : Honest input hinted :=
  (honest_expect _).bind (proceeds_expect _) fun _ =>
    honest_skipBlank.bind proceeds_skipBlank fun _ => honest_octets.bind proceeds_octets fun _ =>
      honest_skipBlank.bind proceeds_skipBlank fun _ =>
        (honest_expect _).bind (proceeds_expect _) fun _ =>
          honest_skipBlank.bind proceeds_skipBlank fun _ =>
            honest_octets.bind proceeds_octets fun _ => honest_pure _

theorem honest_plain : Honest input plain :=
  honest_octets.bind proceeds_octets fun _ => honest_pure _

/-- Without a brace in the input no transport block is entered, whose places are not those of the
input. -/
theorem honest_expressionAt (noBlock : 0x7B ∉ input) {inner : Option Bounded}
    (h : ∀ element, inner = some element → Honest input element.run) :
    Honest input (expressionAt inner) := by
  refine Honest.offset_peek_bind (fun _ => honest_throw trivial) fun start opening ahead => ?_
  dsimp only
  split
  · next list =>
    cases inner with
    | none =>
      rw [list] at ahead
      exact honest_throw ahead
    | some element => exact honest_listOf (h element rfl)
  · split
    · next block => exact absurd (List.mem_of_getElem? (block ▸ ahead)) noBlock
    · split
      · exact honest_hinted
      · exact honest_plain

theorem honest_bounded (noBlock : 0x7B ∉ input) {inner : Option Bounded}
    (h : ∀ element, inner = some element → Honest input element.run) :
    Honest input (bounded inner).run :=
  honest_skipBlank.bind proceeds_skipBlank fun _ => honest_expressionAt noBlock h

theorem honest_expression (noBlock : 0x7B ∉ input) (budget : Nat) :
    Honest input (expression budget).run := by
  induction budget with
  | zero => exact honest_bounded noBlock fun _ none => nomatch none
  | succ budget ih =>
    apply honest_bounded noBlock
    rintro _ ⟨⟩
    exact ih

end Reader

namespace SExpr

open Reader

variable {input : Octets} {expr : SExpr} {next : Cursor}

theorem readNext_of_run (run : (expression nestingLimit).run (Cursor.start input) = .ok expr next) :
    readNext input = .ok (expr, next.ahead) := by
  rw [readNext, run]

theorem read_of_run (run : (expression nestingLimit).run (Cursor.start input) = .ok expr next) :
    read input =
      match next.skipBlank.ahead with
      | [] => .ok expr
      | _ :: _ => .error (.trailingOctets next.skipBlank.offset) := by
  rewrite [read, complete, run]
  rfl

theorem skipBlank_ahead_eq_nil_iff :
    next.skipBlank.ahead = [] ↔ ∀ octet ∈ next.ahead, isBlank octet = true :=
  List.dropWhile_eq_nil_iff

/-- An input holds an expression exactly if it begins with one that nothing but whitespace
follows. -/
theorem read_eq_ok_iff :
    read input = .ok expr ↔
      ∃ rest, readNext input = .ok (expr, rest) ∧ ∀ octet ∈ rest, isBlank octet = true := by
  cases run : (expression nestingLimit).run (Cursor.start input) with
  | error error next => simp [read_of_error run, readNext, run]
  | ok found next =>
    rw [read_of_run run, readNext_of_run run]
    cases left : next.skipBlank.ahead with
    | nil =>
      have blank := skipBlank_ahead_eq_nil_iff.mp left
      simp only [Except.ok.injEq, Prod.mk.injEq, and_assoc, exists_and_left, exists_eq_left']
      exact (and_iff_left blank).symm
    | cons octet behind =>
      have more : ¬ ∀ octet ∈ next.ahead, isBlank octet = true := by
        rw [← skipBlank_ahead_eq_nil_iff, left]
        exact List.cons_ne_nil _ _
      simp only [reduceCtorEq, Except.ok.injEq, Prod.mk.injEq, and_assoc, exists_and_left,
        exists_eq_left', more, and_false]

/-- A cut right in front of what follows an expression leaves the expression and whitespace. -/
theorem read_take_of_run (run : (expression nestingLimit).run (Cursor.start input) = .ok expr next) :
    read (input.take next.skipBlank.offset) = .ok expr := by
  have reached := (expression nestingLimit).proceeds (Cursor.start input)
  rw [run] at reached
  obtain ⟨passed, split, place⟩ := reached
  obtain ⟨offset, ahead⟩ := next
  obtain rfl : input = passed ++ ahead := split
  obtain rfl : offset = passed.length := place.trans (Nat.zero_add _)
  have front : (passed ++ ahead).take (passed.length + (ahead.takeWhile isBlank).length) =
      passed ++ ahead.takeWhile isBlank := by
    rw [List.take_length_add_append]
    congr 1
    exact (List.prefix_iff_eq_take.mp (List.takeWhile_prefix _)).symm
  have again := (local_expression nestingLimit).cut run (List.takeWhile_prefix isBlank)
  change read ((passed ++ ahead).take (passed.length + (ahead.takeWhile isBlank).length)) = _
  rw [front, read_of_run again]
  have blank : (Cursor.skipBlank ⟨passed.length, ahead.takeWhile isBlank⟩).ahead = [] :=
    skipBlank_ahead_eq_nil_iff.mpr (List.all_eq_true.mp List.all_takeWhile)
  rw [blank]

/-- What is refused behind an expression is no whitespace, and the input in front of it holds that
expression, if no transport block is entered. -/
theorem read_take_of_trailing (noBlock : 0x7B ∉ input) {offset : Nat}
    (h : read input = .error (.trailingOctets offset)) :
    (∃ octet, input[offset]? = some octet ∧ isBlank octet = false) ∧
    ∃ expr rest, readNext input = .ok (expr, rest) ∧ read (input.take offset) = .ok expr := by
  cases run : (expression nestingLimit).run (Cursor.start input) with
  | error error next =>
    rw [read_of_error run] at h
    obtain rfl := Except.error.inj h
    -- no reader of an expression raises this fault by itself
    exact (honest_expression noBlock _ _ (Cursor.start_in input) _ _ run).elim
  | ok expr next =>
    rw [read_of_run run] at h
    cases left : next.skipBlank.ahead with
    | nil =>
      rw [left] at h
      exact nomatch h
    | cons octet behind =>
      rw [left] at h
      obtain rfl : next.skipBlank.offset = offset := ReadError.trailingOctets.inj (Except.error.inj h)
      refine ⟨⟨octet, ?_, ?_⟩, expr, next.ahead, readNext_of_run run, read_take_of_run run⟩
      · have reached := (expression nestingLimit).proceeds (Cursor.start input)
        rw [run] at reached
        have inside := (Cursor.start_in input).reaches (reached.trans (Cursor.reaches_skipBlank next))
        rw [inside.getElem?_offset, left]
        rfl
      · have known := List.head?_dropWhile_not isBlank next.ahead
        change next.ahead.dropWhile isBlank = _ at left
        rw [left] at known
        exact known

/-- Where an input without transport blocks is refused, the fault points at the culprit.  An octet
that is refused stands at its offset; a length that is refused has its first digit there; a list
that is nested too deep opens there; and what follows the expression is no whitespace, while the
input in front of it holds that expression.  An input is refused for what follows in no other case:
it is read exactly if it begins with an expression that nothing but whitespace follows. -/
theorem faults_point_at_the_culprit (input : Octets) :
    (0x7B ∉ input →
      (∀ octet offset, read input = .error (.unexpectedOctet octet offset) →
        input[offset]? = some octet) ∧
      (∀ offset, read input = .error (.trailingOctets offset) →
        (∃ octet, input[offset]? = some octet ∧ isBlank octet = false) ∧
        ∃ expr rest, readNext input = .ok (expr, rest) ∧ read (input.take offset) = .ok expr) ∧
      (∀ offset, read input = .error (.invalidLength offset) →
        ∃ digit, input[offset]? = some digit ∧ isDigit digit = true) ∧
      (∀ offset, read input = .error (.tooDeep offset) → input[offset]? = some 0x28)) ∧
    (∀ expr, read input = .ok expr ↔
      ∃ rest, readNext input = .ok (expr, rest) ∧ ∀ octet ∈ rest, isBlank octet = true) := by
  refine ⟨fun noBlock => ?_, fun expr => read_eq_ok_iff⟩
  -- an error comes from the reader of one expression, unless it is about what follows that one
  have justified (error : ReadError) (h : read input = .error error)
      (inside : ∀ offset, error ≠ .trailingOctets offset) : error.Justified input := by
    cases run : (expression nestingLimit).run (Cursor.start input) with
    | error fault next =>
      rw [read_of_error run] at h
      obtain rfl := Except.error.inj h
      exact honest_expression noBlock _ _ (Cursor.start_in input) _ _ run
    | ok expr next =>
      rw [read_of_run run] at h
      split at h
      · cases h
      · exact absurd (Except.error.inj h).symm (inside _)
  refine ⟨?_, fun offset => read_take_of_trailing noBlock, ?_, ?_⟩
  · exact fun octet offset h => justified _ h (by simp)
  · exact fun offset h => justified _ h (by simp)
  · exact fun offset h => justified _ h (by simp)

/-- What follows an octet string and a blank, a wrong number behind a hint, and an octet that begins
nothing. -/
theorem faults_point_into_inputs :
    read [0x31, 0x3A, 0x61, 0x20, 0x21] = .error (.trailingOctets 4) ∧
    read (([0x31, 0x3A, 0x61, 0x20, 0x21] : Octets).take 4) = .ok (ofOctets [0x61]) ∧
    (∃ digit, ([0x5B, 0x61, 0x5D, 0x33, 0x23, 0x36, 0x31, 0x23] : Octets)[3]? = some digit ∧
      isDigit digit = true) ∧
    ([0x20, 0x21] : Octets)[1]? = some 0x21 := by
  have trailing : read [0x31, 0x3A, 0x61, 0x20, 0x21] = .error (.trailingOctets 4) := by
    rfl
  have front : readNext [0x31, 0x3A, 0x61, 0x20, 0x21] =
      .ok (ofOctets [0x61], [0x20, 0x21]) := by
    rfl
  refine ⟨trailing, ?_, ?_, ?_⟩
  · obtain ⟨-, expr, rest, next, read⟩ :=
      ((faults_point_at_the_culprit _).1 (by decide)).2.1 4 trailing
    rw [front] at next
    obtain ⟨rfl, -⟩ := Prod.mk.inj (Except.ok.inj next)
    exact read
  · exact ((faults_point_at_the_culprit _).1 (by decide)).2.2.1 3 (by rfl)
  · exact ((faults_point_at_the_culprit _).1 (by decide)).1 0x21 1 (by rfl)

end SExpr

end SimplePki
