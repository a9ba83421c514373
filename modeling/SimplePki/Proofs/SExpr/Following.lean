import SimplePki.Proofs.SExpr.Blame
import SimplePki.Proofs.SExpr.Head
import SimplePki.Proofs.SExpr.Spelling
import SimplePki.Proofs.SExpr.Words

/-!
# A reading head follows the reader

A head and the reader stand at the same place of an input.  The head yields the value that the
reader yields, stops where the reader stops, and is at the depth where it was; or it refuses the
input with the error of the reader, wherever it has got to by then.  No fault of its own stops it.

Steps that are repeated come to an end because each takes an octet at least, and there are no more
octets than ahead of the head.

## Main definitions

* `Head.Precedes`: a place that is no further back, in the input and not too deep
* `Head.Mirrors`: what a head did is what a reader did
* `Head.Follows`: a head that does what a reader does, wherever it starts

## Main results

* `Head.Follows.bind`, `Head.Follows.repeated`: runs that are put together
* `Head.follows_decimal`, `Head.follows_token`, `Head.follows_through`, `Head.follows_quoted`,
  `Head.follows_hexadecimal`, `Head.follows_base64`, `Head.follows_octets`: octet strings and what
  they are made of
-/

namespace SimplePki

open Octets

namespace Cursor.In

variable {input : Octets} {cursor : Cursor}

theorem offset_add_length (h : cursor.In input) :
    cursor.offset + cursor.ahead.length = input.length := by
  obtain ⟨behind, rfl, place⟩ := h
  rw [place, List.length_append]

theorem drop_offset (h : cursor.In input) : input.drop cursor.offset = cursor.ahead := by
  obtain ⟨behind, rfl, place⟩ := h
  rw [place, List.drop_left]

/-- Where a reader has come to is in the same input. -/
theorem after {α : Type} {reader : Reader α} {next : Cursor} {value : α} (h : cursor.In input)
    (proceeds : reader.Proceeds) (read : reader cursor = .ok value next) : next.In input := by
  have moved := proceeds cursor
  rw [read] at moved
  exact h.reaches moved

end Cursor.In

/-- Something is left behind the octets that satisfy a predicate if these are not all. -/
theorem Octets.length_takeWhile_lt_iff (p : UInt8 → Bool) (ahead : Octets) :
    (ahead.takeWhile p).length < ahead.length ↔ ahead.dropWhile p ≠ [] := by
  have sizes := congrArg List.length (List.takeWhile_append_dropWhile (p := p) (l := ahead))
  rw [List.length_append] at sizes
  rw [← List.length_pos_iff]
  omega

namespace Cursor

theorem skipWhile_nil (p : UInt8 → Bool) (offset : Nat) :
    skipWhile p ⟨offset, []⟩ = ⟨offset, []⟩ := rfl

theorem skipWhile_cons_of_pos {p : UInt8 → Bool} {octet : UInt8} (holds : p octet = true)
    (offset : Nat) (rest : Octets) :
    skipWhile p ⟨offset, octet :: rest⟩ = skipWhile p ⟨offset + 1, rest⟩ := by
  simp only [skipWhile, List.takeWhile_cons_of_pos holds, List.dropWhile_cons_of_pos holds,
    List.length_cons, Nat.add_assoc, Nat.add_comm 1]

theorem skipWhile_cons_of_neg {p : UInt8 → Bool} {octet : UInt8} (fails : ¬ p octet = true)
    (offset : Nat) (rest : Octets) :
    skipWhile p ⟨offset, octet :: rest⟩ = ⟨offset, octet :: rest⟩ := by
  simp only [skipWhile, List.takeWhile_cons_of_neg fails, List.dropWhile_cons_of_neg fails,
    List.length_nil, Nat.add_zero]

/-- Every place of an input is the offset of a cursor in it. -/
theorem drop_in {input : Octets} {pos : Nat} (inside : pos ≤ input.length) :
    In ⟨pos, input.drop pos⟩ input :=
  ⟨input.take pos, (List.take_append_drop pos input).symm, (List.length_take_of_le inside).symm⟩

end Cursor

/-- An octet that is taken first is the first of those that are taken. -/
theorem Reader.next_takeWhile {p : UInt8 → Bool} {octet : UInt8} (holds : p octet = true)
    {offset : Nat} {ahead : Octets} :
    (do let first ← next; let rest ← takeWhile p; pure (first :: rest) : Reader Octets)
        ⟨offset, octet :: ahead⟩ = takeWhile p ⟨offset, octet :: ahead⟩ := by
  rw [takeWhile, Cursor.skipWhile_cons_of_pos holds, List.takeWhile_cons_of_pos holds]
  rfl

namespace Head

open SExpr (nestingLimit)

variable {α β : Type} {input : Octets} {depth steps : Nat}

/-! ### What a head may do -/

/-- A place that is no further back, in the input and not too deep. -/
structure Precedes (input : Octets) (head stop : Head) : Prop where
  forward : head.pos ≤ stop.pos
  inside : stop.pos ≤ input.length
  shallow : stop.depth ≤ nestingLimit

theorem Precedes.trans {head middle stop : Head} (first : head.Precedes input middle)
    (second : middle.Precedes input stop) : head.Precedes input stop :=
  ⟨first.forward.trans second.forward, second.inside, second.shallow⟩

theorem precedes_of_reaches {cursor next : Cursor} (shallow : depth ≤ nestingLimit)
    (inside : cursor.In input) (later : cursor.Reaches next) :
    Precedes input ⟨cursor.offset, depth⟩ ⟨next.offset, depth⟩ := by
  have ending := (inside.reaches later).offset_add_length
  obtain ⟨passed, -, moved⟩ := later
  exact ⟨by dsimp only; omega, by dsimp only; omega, shallow⟩

/-- What a head did from a place is what a reader did from there: the value and the place are the
same and the depth is as before, or the refusal is the same. -/
inductive Mirrors (input : Octets) (head : Head) :
    EStateM.Result Halt Head α → EStateM.Result ReadError Cursor α → Prop
  | ok {value : α} {next : Cursor} (within : head.Precedes input ⟨next.offset, head.depth⟩) :
    Mirrors input head (.ok value ⟨next.offset, head.depth⟩) (.ok value next)
  | refused {error : ReadError} {stop : Head} {next : Cursor} (within : head.Precedes input stop) :
    Mirrors input head (.error (.refused error) stop) (.error error next)

/-- Does what a reader does, wherever in the input it starts at a depth, if there are more steps
than octets ahead. -/
def Follows (input : Octets) (depth steps : Nat) (run : Run α) (reader : Reader α) : Prop :=
  ∀ cursor, cursor.In input → cursor.ahead.length < steps →
    Mirrors input ⟨cursor.offset, depth⟩ (run ⟨cursor.offset, depth⟩) (reader cursor)

/-! ### One run after the other -/

theorem bind_of_ok {run : Run α} {rest : α → Run β} {head stop : Head} {value : α}
    (h : run head = .ok value stop) : (run >>= rest) head = rest value stop := by
  change EStateM.bind run rest head = _
  rw [EStateM.bind, h]

theorem bind_of_error {run : Run α} {rest : α → Run β} {head stop : Head} {halt : Halt}
    (h : run head = .error halt stop) : (run >>= rest) head = .error halt stop := by
  change EStateM.bind run rest head = _
  rw [EStateM.bind, h]

theorem place_bind (rest : Nat → Run β) (head : Head) :
    (place >>= rest) head = rest head.pos head := rfl

theorem move_bind (rest : Unit → Run β) (head : Head) :
    (move >>= rest) head = rest () { head with pos := head.pos + 1 } := rfl

theorem sub_add_left (a b : Nat) : sub (a + b) a = pure b := by
  rw [sub, if_pos (Nat.le_add_right a b), Nat.add_sub_cancel_left]

theorem Mirrors.of_ok {head : Head} {result : EStateM.Result Halt Head α} {value : α}
    {next : Cursor} (h : Mirrors input head result (.ok value next)) :
    result = .ok value ⟨next.offset, head.depth⟩ ∧
      head.Precedes input ⟨next.offset, head.depth⟩ := by
  cases h with
  | ok within => exact ⟨rfl, within⟩

theorem Mirrors.of_error {head : Head} {result : EStateM.Result Halt Head α} {error : ReadError}
    {next : Cursor} (h : Mirrors input head result (.error error next)) :
    ∃ stop, result = .error (.refused error) stop ∧ head.Precedes input stop := by
  cases h with
  | refused within => exact ⟨_, rfl, within⟩

/-- What is done from a later place is done from an earlier one at the same depth. -/
theorem Mirrors.after {head : Head} {pos : Nat} {result : EStateM.Result Halt Head α}
    {read : EStateM.Result ReadError Cursor α}
    (h : Mirrors input ⟨pos, head.depth⟩ result read)
    (within : head.Precedes input ⟨pos, head.depth⟩) : Mirrors input head result read := by
  cases h with
  | ok later => exact .ok (within.trans later)
  | refused later => exact .refused (within.trans later)

theorem Mirrors.bind {run : Run α} {rest : α → Run β} {reader : Reader α}
    {others : α → Reader β} {head : Head} {cursor : Cursor}
    (first : Mirrors input head (run head) (reader cursor))
    (second : ∀ value next, reader cursor = .ok value next →
      Mirrors input ⟨next.offset, head.depth⟩ (rest value ⟨next.offset, head.depth⟩)
        (others value next)) :
    Mirrors input head ((run >>= rest) head) ((reader >>= others) cursor) := by
  cases read : reader cursor with
  | ok value next =>
    rw [read] at first
    obtain ⟨made, within⟩ := first.of_ok
    rw [bind_of_ok made, Reader.bind_of_ok read]
    exact (second value next read).after within
  | error error next =>
    rw [read] at first
    obtain ⟨stop, made, within⟩ := first.of_error
    rw [bind_of_error made, Reader.bind_of_error read]
    exact .refused within

theorem Follows.bind {run : Run α} {rest : α → Run β} {reader : Reader α}
    {others : α → Reader β} (h : Follows input depth steps run reader)
    (proceeds : reader.Proceeds)
    (hrest : ∀ value, Follows input depth steps (rest value) (others value)) :
    Follows input depth steps (run >>= rest) (reader >>= others) := by
  intro cursor inside short
  refine (h cursor inside short).bind fun value next read => ?_
  exact hrest value next (inside.after proceeds read) ((proceeds.length_le read).trans_lt short)

theorem Follows.place_bind {rest : Nat → Run β} {others : Nat → Reader β}
    (h : ∀ start, Follows input depth steps (rest start) (others start)) :
    Follows input depth steps (place >>= rest) (Reader.offset >>= others) :=
  fun cursor inside short => h cursor.offset cursor inside short

theorem Follows.ite {c : Prop} [Decidable c] {run other : Run α} {reader instead : Reader α}
    (h : Follows input depth steps run reader) (hother : Follows input depth steps other instead) :
    Follows input depth steps (if c then run else other) (if c then reader else instead) := by
  by_cases holds : c
  · rwa [if_pos holds, if_pos holds]
  · rwa [if_neg holds, if_neg holds]

/-- Repeated as many times as there are octets ahead, a step that takes an octet at least comes to
an end by itself. -/
theorem Follows.repeated {step : Run (Option α)} {reader : Reader (Option α)}
    (h : Follows input depth steps step reader) (proceeds : reader.Proceeds)
    (advances : reader.Advances) {times : Nat} (within : times ≤ steps) (found : List α) :
    Follows input depth times (repeated step times found)
      (Reader.collect reader advances found) := by
  induction times generalizing found with
  | zero => exact fun _ _ short => absurd short (Nat.not_lt_zero _)
  | succ times ih =>
    intro cursor inside short
    have first := h cursor inside (short.trans_le within)
    rw [Head.repeated, Reader.collect_apply]
    cases read : reader cursor with
    | error error next =>
      rw [read] at first
      obtain ⟨stop, made, within⟩ := first.of_error
      rw [bind_of_error made]
      exact .refused within
    | ok value next =>
      rw [read] at first
      obtain ⟨made, reached⟩ := first.of_ok
      rw [bind_of_ok made]
      cases value with
      | none => exact .ok reached
      | some item =>
        have fewer := advances _ _ _ read
        have later := ih (Nat.le_of_succ_le within) (item :: found) next
          (inside.after proceeds read) (by omega)
        exact later.after reached

/-- The octet at the head is the one ahead of the reader. -/
theorem peek_bind (rest : Option UInt8 → Run β) {cursor : Cursor} (inside : cursor.In input) :
    (peek input >>= rest) ⟨cursor.offset, depth⟩ =
      rest cursor.ahead.head? ⟨cursor.offset, depth⟩ := by
  rw [← inside.getElem?_offset]
  rfl

/-- A slice from the place of a cursor is what is ahead of the cursor. -/
theorem slice_eq {cursor : Cursor} (inside : cursor.In input) {n : Nat}
    (enough : n ≤ cursor.ahead.length) (head : Head) :
    slice input cursor.offset (cursor.offset + n) head = .ok (cursor.ahead.take n) head := by
  have ending := inside.offset_add_length
  rw [slice, if_pos (by omega), inside.drop_offset, Nat.add_sub_cancel_left]
  rfl

theorem slice_rest {cursor : Cursor} (inside : cursor.In input) (head : Head) :
    slice input cursor.offset input.length head = .ok cursor.ahead head := by
  have whole := slice_eq inside (Nat.le_refl _) head
  rwa [List.take_length, inside.offset_add_length] at whole

theorem slice_takeWhile (p : UInt8 → Bool) {cursor : Cursor} (inside : cursor.In input)
    (head : Head) :
    slice input cursor.offset (cursor.offset + (cursor.ahead.takeWhile p).length) head =
      .ok (cursor.ahead.takeWhile p) head := by
  have front := List.takeWhile_prefix (l := cursor.ahead) p
  rw [slice_eq inside front.length_le, ← List.prefix_iff_eq_take.mp front]

/-- A head moves over the same octets as a cursor. -/
theorem skipWhile_eq (p : UInt8 → Bool) {cursor : Cursor} (inside : cursor.In input)
    (short : cursor.ahead.length < steps) :
    skipWhile input p steps ⟨cursor.offset, depth⟩ =
      .ok () ⟨(cursor.skipWhile p).offset, depth⟩ := by
  induction steps generalizing cursor with
  | zero => exact absurd short (Nat.not_lt_zero _)
  | succ steps ih =>
    obtain ⟨offset, ahead⟩ := cursor
    rw [skipWhile, peek_bind _ inside]
    cases ahead with
    | nil => rfl
    | cons octet rest =>
      by_cases holds : p octet = true
      · simp only [List.head?_cons, if_pos holds, Cursor.skipWhile_cons_of_pos holds]
        exact ih (inside.reaches (Cursor.reaches_cons rfl)) (Nat.lt_of_succ_lt_succ short)
      · simp only [List.head?_cons, if_neg holds, Cursor.skipWhile_cons_of_neg holds]
        rfl

/-- The first of the octets ahead that satisfy a predicate is at the place of the cursor. -/
theorem exists_octetAt {p : UInt8 → Bool} {cursor : Cursor} (inside : cursor.In input)
    (some : 0 < (cursor.ahead.takeWhile p).length) :
    ∃ octet, octetAt input cursor.offset = pure octet ∧
      (cursor.ahead.takeWhile p).head? = .some octet := by
  have ⟨octet, others, split⟩ := List.exists_cons_of_length_pos some
  have front : (cursor.ahead.takeWhile p).head? = .some octet := by rw [split, List.head?_cons]
  have first := front
  rw [List.head?_takeWhile, Option.filter_eq_some_iff, ← inside.getElem?_offset] at first
  exact ⟨octet, by rw [octetAt, first.1], front⟩

theorem next_cons {octet : UInt8} {offset : Nat} {rest : Octets}
    (inside : Cursor.In ⟨offset, octet :: rest⟩ input) :
    next input ⟨offset, depth⟩ = .ok octet ⟨offset + 1, depth⟩ := by
  rw [next, peek_bind _ inside]
  rfl

theorem next_nil {offset : Nat} (inside : Cursor.In ⟨offset, []⟩ input) :
    next input ⟨offset, depth⟩ = .error (.refused .unexpectedEnd) ⟨offset, depth⟩ := by
  rw [next, peek_bind _ inside]
  rfl

/-! ### Runs without a grammar -/

section

variable (shallow : depth ≤ nestingLimit)

include shallow

theorem mirrors_of_ok {value : α} {cursor next : Cursor} (inside : cursor.In input)
    (later : cursor.Reaches next) :
    Mirrors input ⟨cursor.offset, depth⟩ (.ok value ⟨next.offset, depth⟩) (.ok value next) :=
  .ok (precedes_of_reaches shallow inside later)

theorem mirrors_of_refused {error : ReadError} {cursor next : Cursor} (inside : cursor.In input) :
    Mirrors (α := α) input ⟨cursor.offset, depth⟩ (.error (.refused error) ⟨cursor.offset, depth⟩)
      (.error error next) :=
  .refused (precedes_of_reaches shallow inside (.refl cursor))

theorem follows_pure (value : α) : Follows input depth steps (pure value) (pure value) :=
  fun _ inside _ => mirrors_of_ok shallow inside (.refl _)

theorem follows_refuse (error : ReadError) :
    Follows input depth steps (refuse error : Run α) (throw error) :=
  fun _ inside _ => mirrors_of_refused shallow inside

theorem follows_next : Follows input depth steps (next input) Reader.next := by
  intro cursor inside _
  obtain ⟨offset, ahead⟩ := cursor
  cases ahead with
  | nil =>
    rw [next_nil inside]
    exact mirrors_of_refused shallow inside
  | cons octet rest =>
    rw [next_cons inside]
    exact mirrors_of_ok shallow inside (Cursor.reaches_cons rfl)

theorem follows_expect (wanted : UInt8) :
    Follows input depth steps (expect input wanted) (Reader.expect wanted) := by
  intro cursor inside _
  obtain ⟨offset, ahead⟩ := cursor
  rw [expect, peek_bind _ inside]
  cases ahead with
  | nil => exact mirrors_of_refused shallow inside
  | cons octet rest =>
    by_cases same : octet = wanted
    · simp only [List.head?_cons, Reader.expect, if_pos same]
      exact mirrors_of_ok shallow inside (Cursor.reaches_cons rfl)
    · simp only [List.head?_cons, Reader.expect, if_neg same]
      exact mirrors_of_refused shallow inside

theorem follows_skipOptional (wanted : UInt8) :
    Follows input depth steps (skipOptional input wanted) (Reader.skipOptional wanted) := by
  intro cursor inside _
  obtain ⟨offset, ahead⟩ := cursor
  rw [skipOptional, peek_bind _ inside]
  cases ahead with
  | nil => exact mirrors_of_ok shallow inside (.refl _)
  | cons octet rest =>
    by_cases same : octet = wanted
    · simp only [List.head?_cons, Reader.skipOptional, if_pos same]
      exact mirrors_of_ok shallow inside (Cursor.reaches_cons rfl)
    · simp only [List.head?_cons, Reader.skipOptional, if_neg same]
      exact mirrors_of_ok shallow inside (.refl _)

theorem follows_skipWhile (p : UInt8 → Bool) :
    Follows input depth steps (skipWhile input p steps)
      (fun cursor => .ok () (cursor.skipWhile p)) := by
  intro cursor inside short
  rw [skipWhile_eq p inside short]
  exact mirrors_of_ok shallow inside (Cursor.reaches_skipWhile p cursor)

theorem follows_skipBlank :
    Follows input depth steps (skipWhile input isBlank steps) Reader.skipBlank :=
  follows_skipWhile shallow isBlank

theorem follows_token :
    Follows input depth steps (token input steps) (Reader.takeWhile isTokenOctet) := by
  intro cursor inside short
  rw [token, place_bind, bind_of_ok (skipWhile_eq _ inside short), place_bind]
  rw [Cursor.skipWhile, slice_takeWhile _ inside]
  exact mirrors_of_ok shallow inside (Cursor.reaches_skipWhile _ cursor)

theorem follows_through (close : UInt8) :
    Follows input depth steps (through input close) (Reader.takeThrough close) := by
  intro cursor inside _
  have more := length_takeWhile_lt_iff (· != close) cursor.ahead
  have moved := Reader.proceeds_takeThrough close cursor
  rw [through, place_bind, bind_of_ok (slice_rest inside _)]
  rw [Reader.takeThrough] at moved ⊢
  -- the closing octet is ahead exactly if something is left behind the octets up to it
  cases closing : cursor.ahead.dropWhile (· != close) with
  | nil =>
    rw [if_neg (mt more.mp (absurd closing))]
    exact mirrors_of_refused shallow inside
  | cons octet rest =>
    rw [closing] at more moved
    rw [if_pos (more.mpr (List.cons_ne_nil _ _))]
    change Mirrors _ _ (slice input _ _ _) _
    rw [slice_takeWhile _ inside]
    exact mirrors_of_ok shallow inside moved

/-- Moving over an octet that was looked at is what the reader takes for expecting it. -/
theorem mirrors_move_bind {octet : UInt8} {offset : Nat} {ahead : Octets}
    (inside : Cursor.In ⟨offset, octet :: ahead⟩ input) (short : ahead.length < steps)
    {rest : Unit → Run β} {others : Unit → Reader β}
    (h : Follows input depth steps (rest ()) (others ())) :
    Mirrors input ⟨offset, depth⟩ ((move >>= rest) ⟨offset, depth⟩)
      ((Reader.expect octet >>= others) ⟨offset, octet :: ahead⟩) := by
  have moved : Cursor.Reaches ⟨offset, octet :: ahead⟩ ⟨offset + 1, ahead⟩ :=
    Cursor.reaches_cons rfl
  have later := h ⟨offset + 1, ahead⟩ (inside.reaches moved) short
  rw [move_bind, Reader.bind_of_ok (Reader.expect_cons _ _ _)]
  exact later.after (precedes_of_reaches shallow inside moved)

/-! ### Lengths -/

/-- The number that the digits ahead continue, if it stays a machine word. -/
def digitsAhead (start n : Nat) : Reader Nat := fun cursor =>
  let digits := cursor.ahead.takeWhile isDigit
  if decimalFrom n digits < Reader.lengthLimit then
    .ok (decimalFrom n digits) (cursor.skipWhile isDigit)
  else .error (.invalidLength start) (cursor.skipWhile isDigit)

theorem follows_digits (start : Nat) {n : Nat} (word : n < Reader.lengthLimit) :
    Follows input depth steps (digits input start steps n) (digitsAhead start n) := by
  induction steps generalizing n with
  | zero => exact fun _ _ short => absurd short (Nat.not_lt_zero _)
  | succ steps ih =>
    intro cursor inside short
    obtain ⟨offset, ahead⟩ := cursor
    have none : decimalFrom n [] = n := rfl
    rw [digits, peek_bind _ inside, digitsAhead]
    cases ahead with
    | nil =>
      rw [List.takeWhile_nil, Cursor.skipWhile_nil, none, if_pos word]
      exact mirrors_of_ok shallow inside (.refl _)
    | cons octet rest =>
      by_cases digit : isDigit octet = true
      · have moved : Cursor.Reaches ⟨offset, octet :: rest⟩ ⟨offset + 1, rest⟩ :=
          Cursor.reaches_cons rfl
        rw [List.takeWhile_cons_of_pos digit, Cursor.skipWhile_cons_of_pos digit, decimalFrom_cons]
        simp only [List.head?_cons, if_pos digit]
        by_cases fits : n * 10 + (octet.toNat - 0x30) < Reader.lengthLimit
        · rw [if_pos fits, move_bind]
          have later := ih fits ⟨offset + 1, rest⟩ (inside.reaches moved)
            (Nat.lt_of_succ_lt_succ short)
          exact later.after (precedes_of_reaches shallow inside moved)
        · -- what is no word any more does not become one with more digits
          have beyond := Nat.not_lt.mpr ((Nat.not_lt.mp fits).trans
            (le_decimalFrom _ (rest.takeWhile isDigit)))
          rw [if_neg fits, if_neg beyond]
          exact mirrors_of_refused shallow inside
      · rw [List.takeWhile_cons_of_neg digit, Cursor.skipWhile_cons_of_neg digit, none, if_pos word]
        simp only [List.head?_cons, if_neg digit]
        exact mirrors_of_ok shallow inside (.refl _)

/-- Whether the first digit is superfluous is asked only when all of them have been read. -/
theorem follows_decimal : Follows input depth steps (decimal input steps) Reader.length := by
  intro cursor inside short
  have counted := follows_digits shallow cursor.offset (n := 0) (by decide) cursor inside short
  have later := Cursor.reaches_skipWhile isDigit cursor
  obtain ⟨offset, ahead⟩ := cursor
  rw [digitsAhead] at counted
  rw [decimal, place_bind, Reader.length_apply]
  change Mirrors _ _ _ (if (_ || decide (_ ≤ decimalFrom 0 (ahead.takeWhile isDigit))) = true
    then _ else _)
  by_cases fits : decimalFrom 0 (ahead.takeWhile isDigit) < Reader.lengthLimit
  · rw [if_pos fits] at counted
    obtain ⟨run, within⟩ := counted.of_ok
    rw [bind_of_ok run, place_bind, decide_eq_false (Nat.not_le.mpr fits), Bool.or_false]
    dsimp only [Cursor.skipWhile] at within ⊢
    rw [sub_add_left, pure_bind]
    by_cases two : 2 ≤ (ahead.takeWhile isDigit).length
    · obtain ⟨first, fetched, front⟩ := exists_octetAt inside (Nat.zero_lt_of_lt two)
      dsimp only at fetched front
      rw [if_pos (Nat.lt_of_succ_le two), fetched, pure_bind, front, decide_eq_true two,
        Bool.true_and]
      by_cases zero : first = 0x30
      · subst zero
        exact .refused within
      · simp only [if_neg zero, Option.some_beq_some, beq_false_of_ne zero]
        exact mirrors_of_ok shallow inside later
    · rw [if_neg (mt Nat.succ_le_of_lt two), decide_eq_false two, Bool.false_and,
        if_neg Bool.false_ne_true]
      exact mirrors_of_ok shallow inside later
  · rw [if_neg fits] at counted
    obtain ⟨stop, run, within⟩ := counted.of_error
    rw [bind_of_error run, if_pos (by simp [Nat.not_lt.mp fits])]
    exact .refused within

/-! ### Delimited spellings -/

/-- The place of a digit that is behind already is one less than the place of the head. -/
theorem follows_octalDigit : Follows input depth steps (octalDigit input) Reader.octalDigit := by
  intro cursor inside short
  obtain ⟨offset, ahead⟩ := cursor
  cases ahead with
  | nil =>
    rw [octalDigit, bind_of_error (next_nil inside)]
    exact mirrors_of_refused shallow inside
  | cons digit rest =>
    rw [octalDigit, bind_of_ok (next_cons inside), Reader.octalDigit, Reader.offset_bind,
      Reader.bind_of_ok (Reader.next_cons digit offset rest)]
    by_cases octal : (0x30 ≤ digit && digit ≤ 0x37) = true
    · simp only [if_pos octal]
      exact mirrors_of_ok shallow inside (Cursor.reaches_cons rfl)
    · simp only [if_neg octal]
      have behind : sub (offset + 1) 1 = pure offset := by rw [Nat.add_comm, sub_add_left]
      rw [place_bind, behind, pure_bind]
      exact .refused (precedes_of_reaches shallow inside (Cursor.reaches_cons rfl))

theorem follows_escape : Follows input depth steps (escape input) Reader.escape := by
  refine Follows.place_bind fun start =>
    (follows_next shallow).bind Reader.proceeds_next fun octet => ?_
  cases Reader.namedEscape? octet with
  | some named => exact follows_pure shallow [named]
  | none =>
    refine Follows.ite ?hex (.ite ?octal (.ite ?lineFeed (.ite ?carriageReturn ?other)))
    case hex =>
      refine (follows_next shallow).bind Reader.proceeds_next fun high =>
        (follows_next shallow).bind Reader.proceeds_next fun low => ?_
      cases Hex.decode [high, low] with
      | ok octets => exact follows_pure shallow octets
      | error fault => exact follows_refuse shallow _
    case octal =>
      refine (follows_octalDigit shallow).bind Reader.proceeds_octalDigit fun second =>
        (follows_octalDigit shallow).bind Reader.proceeds_octalDigit fun third => ?_
      exact Follows.ite (follows_pure shallow _) (follows_refuse shallow _)
    case lineFeed =>
      exact (follows_skipOptional shallow _).bind (Reader.proceeds_skipOptional _) fun _ =>
        follows_pure shallow []
    case carriageReturn =>
      exact (follows_skipOptional shallow _).bind (Reader.proceeds_skipOptional _) fun _ =>
        follows_pure shallow []
    case other => exact follows_refuse shallow _

theorem follows_quotedPiece :
    Follows input depth steps (quotedPiece input) Reader.quotedPiece := by
  refine (follows_next shallow).bind Reader.proceeds_next fun octet =>
    Follows.ite (follows_pure shallow none) (.ite ?_ (follows_pure shallow _))
  exact (follows_escape shallow).bind Reader.proceeds_escape fun octets =>
    follows_pure shallow (some octets)

theorem follows_quoted : Follows input depth steps (quoted input steps) Reader.quoted := by
  have piece : Follows input depth steps _ _ := follows_quotedPiece shallow
  have pieces := piece.repeated Reader.proceeds_quotedPiece Reader.advances_quotedPiece
    (Nat.le_refl steps) []
  exact (follows_expect shallow _).bind (Reader.proceeds_expect _) fun _ =>
    pieces.bind (Reader.proceeds_quotedPiece.collect _ _) fun found => follows_pure shallow _

theorem follows_hexadecimal :
    Follows input depth steps (hexadecimal input) Reader.hexadecimal := by
  refine (follows_expect shallow _).bind (Reader.proceeds_expect _) fun _ =>
    (follows_through shallow _).bind (Reader.proceeds_takeThrough _) fun body => ?_
  cases Hex.decode (compact body) with
  | ok octets => exact follows_pure shallow octets
  | error fault => exact follows_refuse shallow _

theorem follows_base64Through (close : UInt8) :
    Follows input depth steps (base64Through input close) (Reader.base64Through close) := by
  refine (follows_through shallow _).bind (Reader.proceeds_takeThrough _) fun body => ?_
  cases Base64.decode (compact body) with
  | ok octets => exact follows_pure shallow octets
  | error fault => exact follows_refuse shallow _

theorem follows_base64 : Follows input depth steps (base64 input) Reader.base64 :=
  (follows_expect shallow _).bind (Reader.proceeds_expect _) fun _ =>
    follows_base64Through shallow _

/-- The same octets announce a spelling, and the head follows the reader of each. -/
theorem rel_delimited? (opening : UInt8) :
    Option.Rel (Follows input depth steps) (delimited? input steps opening)
      (Reader.delimited? opening) := by
  rw [delimited?, Reader.delimited?]
  by_cases quote : opening = 0x22
  · rw [if_pos quote, if_pos quote]
    exact .some (follows_quoted shallow)
  by_cases sign : opening = 0x23
  · rw [if_neg quote, if_neg quote, if_pos sign, if_pos sign]
    exact .some (follows_hexadecimal shallow)
  by_cases bar : opening = 0x7C
  · rw [if_neg quote, if_neg quote, if_neg sign, if_neg sign, if_pos bar, if_pos bar]
    exact .some (follows_base64 shallow)
  · rw [if_neg quote, if_neg quote, if_neg sign, if_neg sign, if_neg bar, if_neg bar]
    exact .none

/-! ### Octet strings -/

theorem follows_verbatim (n : Nat) :
    Follows input depth steps (verbatim input n) (Reader.takeExactly n) := by
  intro cursor inside _
  have ending := inside.offset_add_length
  have moved := Reader.proceeds_takeExactly n cursor
  obtain ⟨offset, ahead⟩ := cursor
  dsimp only at ending
  rw [Reader.takeExactly_eq] at moved ⊢
  rw [verbatim, place_bind]
  dsimp only
  by_cases enough : n ≤ ahead.length
  · rw [if_pos enough] at moved ⊢
    rw [if_pos (by omega), bind_of_ok (slice_eq inside enough _)]
    exact mirrors_of_ok shallow inside moved
  · rw [if_neg enough, if_neg (by omega)]
    exact mirrors_of_refused shallow inside

theorem follows_measured (start n : Nat) :
    Follows input depth steps (measured input steps start n) (Reader.measured start n) := by
  intro cursor inside short
  obtain ⟨offset, ahead⟩ := cursor
  rw [measured, peek_bind _ inside, Reader.measured, Reader.offset_bind, Reader.peek_bind]
  cases ahead with
  | nil => exact mirrors_of_refused shallow inside
  | cons opening rest =>
    dsimp only [List.head?_cons]
    by_cases colon : opening = 0x3A
    · subst colon
      rw [if_pos rfl, if_pos rfl]
      exact mirrors_move_bind shallow inside (Nat.lt_of_succ_lt short) (follows_verbatim shallow n)
    · rw [if_neg colon, if_neg colon]
      have announced : Option.Rel (Follows input depth steps) _ _ :=
        rel_delimited? shallow opening
      generalize delimited? input steps opening = run at announced ⊢
      generalize spelled : Reader.delimited? opening = reader at announced ⊢
      cases announced with
      | none => exact mirrors_of_refused shallow inside
      | some h =>
        have counted := h.bind (Reader.of_delimited? spelled).2 fun octets =>
          Follows.ite (c := octets.length = n) (follows_pure shallow octets)
            (follows_refuse shallow (.invalidLength start))
        exact counted _ inside short

theorem follows_octets : Follows input depth steps (octets input steps) Reader.octets := by
  intro cursor inside short
  obtain ⟨offset, ahead⟩ := cursor
  rw [octets, peek_bind _ inside, Reader.octets, Reader.offset_bind, Reader.peek_bind]
  cases ahead with
  | nil => exact mirrors_of_refused shallow inside
  | cons opening rest =>
    dsimp only [List.head?_cons]
    by_cases digit : isDigit opening = true
    · rw [if_pos digit, if_pos digit]
      have counted : Follows input depth steps _ Reader.counted :=
        Follows.place_bind fun start => (follows_decimal shallow).bind Reader.proceeds_length
          fun n => follows_measured shallow start n
      exact counted _ inside short
    · rw [if_neg digit, if_neg digit]
      have announced : Option.Rel (Follows input depth steps) _ _ :=
        rel_delimited? shallow opening
      generalize delimited? input steps opening = run at announced ⊢
      generalize Reader.delimited? opening = reader at announced ⊢
      cases announced with
      | some h => exact h _ inside short
      | none =>
        dsimp only
        by_cases token : isTokenOctet opening = true
        · rw [if_pos token, if_pos token]
          rw [Reader.next_takeWhile token]
          exact follows_token shallow _ inside short
        · rw [if_neg token, if_neg token]
          exact mirrors_of_refused shallow inside

end

end Head

end SimplePki
