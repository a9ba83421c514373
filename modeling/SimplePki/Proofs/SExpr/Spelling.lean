import SimplePki.Proofs.Octets.Spelling
import SimplePki.Proofs.SExpr.Stream

/-!
# All spellings of an octet string are read alike

However an octet string is spelled, the reader yields the same octets and stops where the spelling
ends, whatever follows it.  The closing delimiter cannot be taken for an octet of the string, since
a quote inside quotes is escaped and the other delimiters are no symbols of what they enclose.

A number in front of a delimited spelling is compared with the octets that were read, not with those
that were written.  A wrong one is reported where it stands, in whichever spelling the octets follow.

## Main results

* `Reader.reads_quotedPiece`: an octet inside quotes
* `Reader.reads_delimited`: an octet string between delimiters
* `Reader.octets_announced`: the same behind a number, right or wrong
* `SExpr.all_spellings_are_read_alike`: octet strings and hinted atoms as whole inputs
-/

namespace SimplePki

open Octets

namespace Reader

variable {α : Type} {value written : Octets}

theorem next_cons (octet : UInt8) (offset : Nat) (rest : Octets) :
    next ⟨offset, octet :: rest⟩ = .ok octet ⟨offset + 1, rest⟩ := rfl

/-! ### Quotes -/

theorem octalDigit_digit {n : Nat} (small : n < 8) (offset : Nat) (rest : Octets) :
    octalDigit ⟨offset, digit n :: rest⟩ = .ok n ⟨offset + 1, rest⟩ := by
  have range : (0x30 ≤ digit n && digit n ≤ 0x37) = true ∧ (digit n).toNat - 0x30 = n := by
    revert n
    decide
  rw [octalDigit, offset_bind, bind_of_ok (next_cons _ _ _), if_pos range.1, range.2]
  rfl

/-- Two digits in either case, behind a backslash and the letter `x`. -/
theorem hexEscape_of_pair {octet : UInt8} {pair : Octets} (digits : HexPair octet pair)
    (offset : Nat) (rest : Octets) :
    hexEscape ⟨offset, pair ++ rest⟩ = .ok [octet] ⟨offset + 2, rest⟩ := by
  have decoded : Hex.decode pair = .ok [octet] := by
    have one := Hex.decode_of_pairs (.cons digits .nil)
    rwa [List.flatten_cons, List.flatten_nil, List.append_nil] at one
  obtain ⟨high, low, rfl⟩ := digits
  rw [List.cons_append, List.cons_append, hexEscape, bind_of_ok (next_cons _ _ _),
    bind_of_ok (next_cons _ _ _), decoded]
  rfl

/-- Three digits behind a backslash; those of an octet are never too large. -/
theorem octalEscape_digits (octet : UInt8) (start offset : Nat) (rest : Octets) :
    octalEscape (digit (octet.toNat / 64)) start
        ⟨offset, digit (octet.toNat / 8 % 8) :: digit (octet.toNat % 8) :: rest⟩ =
      .ok [octet] ⟨offset + 2, rest⟩ := by
  have bound : octet.toNat < 256 := octet.toNat_lt
  have leading : (digit (octet.toNat / 64)).toNat - 0x30 = octet.toNat / 64 := by
    rw [toNat_digit (by omega), Nat.add_sub_cancel_left]
  have joined : octet.toNat / 64 * 64 + octet.toNat / 8 % 8 * 8 + octet.toNat % 8 =
      octet.toNat := by
    omega
  rw [octalEscape, bind_of_ok (octalDigit_digit (by omega) _ _),
    bind_of_ok (octalDigit_digit (by omega) _ _)]
  simp only [leading, joined]
  rw [if_pos (by omega), UInt8.ofNat_toNat]
  rfl

/-- An octet of whatever spelling inside quotes is read as that octet. -/
theorem reads_quotedPiece {octet : UInt8} {piece : Octets} (h : Quotes octet piece) :
    Reads quotedPiece piece (some [octet]) := by
  intro offset rest
  have bound : octet.toNat < 256 := octet.toNat_lt
  -- behind a backslash, the piece is what the escape reads
  have escaped {tail : Octets} (run : escape ⟨offset + 1, tail ++ rest⟩ =
      .ok [octet] ⟨offset + 1 + tail.length, rest⟩) :
      quotedPiece ⟨offset, 0x5C :: tail ++ rest⟩ =
        .ok (some [octet]) ⟨offset + (0x5C :: tail).length, rest⟩ := by
    rw [List.cons_append, quotedPiece, bind_of_ok (next_cons _ _ _), if_neg (by decide),
      if_pos rfl, bind_of_ok run, List.length_cons, Nat.add_assoc, Nat.add_comm 1]
    rfl
  cases h with
  | raw noQuote noBackslash =>
    rw [List.singleton_append, quotedPiece, bind_of_ok (next_cons octet _ _), if_neg noQuote,
      if_neg noBackslash]
    rfl
  | @hexadecimal pair digits =>
    have two : pair.length = 2 := by
      obtain ⟨high, low, rfl⟩ := digits
      rfl
    apply escaped
    rw [List.cons_append, escape, offset_bind, bind_of_ok (next_cons _ _ _), List.length_cons, two]
    exact hexEscape_of_pair digits _ rest
  | octal =>
    have leading : namedEscape? (digit (octet.toNat / 64)) = none ∧
        digit (octet.toNat / 64) ≠ 0x78 ∧
        (0x30 ≤ digit (octet.toNat / 64) && digit (octet.toNat / 64) ≤ 0x37) = true := by
      generalize known : octet.toNat / 64 = n
      have small : n < 4 := by omega
      clear known
      revert n
      decide
    apply escaped
    rw [List.cons_append, escape, offset_bind, bind_of_ok (next_cons _ _ _), leading.1]
    simp only
    rw [if_neg leading.2.1, if_pos leading.2.2]
    exact octalEscape_digits octet _ _ rest
  | @named name known =>
    have table : ∀ entry ∈ namedOctets, namedEscape? entry.1 = some entry.2 := by
      simp [namedOctets, namedEscape?]
    apply escaped
    rw [List.cons_append, escape, offset_bind, bind_of_ok (next_cons _ _ _),
      table (name, octet) known]
    rfl

/-- Octets inside quotes are collected one by one, up to the quote that closes them. -/
theorem collect_quotes {pieces : List Octets} (each : List.Forall₂ Quotes value pieces)
    (found : List Octets) (offset : Nat) (rest : Octets) :
    collect quotedPiece advances_quotedPiece found ⟨offset, pieces.flatten ++ 0x22 :: rest⟩ =
      .ok (found.reverse ++ value.map fun octet => [octet])
        ⟨offset + pieces.flatten.length + 1, rest⟩ := by
  induction each generalizing found offset with
  | nil =>
    have closing : quotedPiece ⟨offset, 0x22 :: rest⟩ = .ok none ⟨offset + 1, rest⟩ := rfl
    rw [List.flatten_nil, List.nil_append, collect_apply, closing, List.map_nil, List.append_nil,
      List.length_nil]
  | cons piece _ ih =>
    rw [List.flatten_cons, List.append_assoc, collect_of_some _ _ (reads_quotedPiece piece _ _), ih,
      List.reverse_cons, List.append_assoc, List.singleton_append, List.map_cons,
      List.length_append]
    congr 2
    omega

theorem reads_quoted {pieces : List Octets} (each : List.Forall₂ Quotes value pieces) :
    Reads quoted (0x22 :: pieces.flatten ++ [0x22]) value := by
  intro offset rest
  have joined : (value.map fun octet => [octet]).flatten = value := by
    rw [← List.flatMap_def, List.flatMap_singleton']
  rw [List.append_assoc, List.cons_append, List.singleton_append, quoted,
    bind_of_ok (expect_cons _ _ _), bind_of_ok (collect_quotes each [] _ _)]
  change EStateM.Result.ok (value.map fun octet => [octet]).flatten _ = _
  rw [joined]
  congr 2
  simp only [List.length_append, List.length_cons, List.length_nil]
  omega

/-! ### Hexadecimal and base64 -/

theorem reads_hexadecimal {pairs : List Octets} {body : Octets}
    (each : List.Forall₂ HexPair value pairs) (digits : compact body = pairs.flatten) :
    Reads hexadecimal (0x23 :: body ++ [0x23]) value := by
  intro offset rest
  have noClose : ∀ octet ∈ body, octet ≠ 0x23 := by
    apply ne_of_mem_of_compact (by decide)
    rw [digits]
    exact Hex.ne_of_mem_flatten each
  rw [List.append_assoc, List.cons_append, List.singleton_append, hexadecimal,
    bind_of_ok (expect_cons _ _ _), bind_of_ok (takeThrough_append noClose _ _), digits,
    Hex.decode_of_pairs each]
  change EStateM.Result.ok _ _ = _
  congr 2
  simp only [List.length_append, List.length_cons, List.length_nil]
  omega

/-- Base64 is read up to an octet that is none of its own, with padding or without. -/
theorem base64Through_of_compact {close : UInt8} {body : Octets}
    (symbols : compact body = Base64.encodeOctets value ∨ compact body = Base64.unpadded value)
    (noClose : ∀ octet ∈ body, octet ≠ close) (offset : Nat) (rest : Octets) :
    base64Through close ⟨offset, body ++ close :: rest⟩ =
      .ok value ⟨offset + body.length + 1, rest⟩ := by
  have decoded : Base64.decode (compact body) = .ok value := by
    rcases symbols with padded | bare
    · rw [padded, Base64.decode_encodeOctets]
    · rw [bare, Base64.decode_unpadded]
  rw [base64Through, bind_of_ok (takeThrough_append noClose _ _), decoded]
  rfl

theorem reads_base64 {body : Octets}
    (symbols : compact body = Base64.encodeOctets value ∨ compact body = Base64.unpadded value) :
    Reads base64 (0x7C :: body ++ [0x7C]) value := by
  intro offset rest
  have noClose : ∀ octet ∈ body, octet ≠ 0x7C := by
    apply ne_of_mem_of_compact (by decide)
    intro octet mem
    have written : octet ∈ Base64.encodeOctets value := by
      rcases symbols with padded | bare
      · exact padded ▸ mem
      · exact Base64.mem_encodeOctets_of_mem_unpadded (bare ▸ mem)
    exact (Base64.plain_of_mem_encodeOctets written).2.2.1
  rw [List.append_assoc, List.cons_append, List.singleton_append, base64,
    bind_of_ok (expect_cons _ _ _), base64Through_of_compact symbols noClose]
  congr 2
  simp only [List.length_append, List.length_cons, List.length_nil]
  omega

/-! ### Delimiters and numbers -/

/-- The opening delimiter announces a reader, which reads the spelling. -/
theorem reads_delimited (h : Delimited value written) :
    ∃ opening tail body, written = opening :: tail ∧ isDigit opening = false ∧ opening ≠ 0x3A ∧
      delimited? opening = some body ∧ Reads body written value := by
  cases h with
  | quoted each => exact ⟨_, _, quoted, rfl, by decide, by decide, rfl, reads_quoted each⟩
  | hexadecimal each digits =>
    exact ⟨_, _, hexadecimal, rfl, by decide, by decide, rfl, reads_hexadecimal each digits⟩
  | base64 symbols =>
    exact ⟨_, _, base64, rfl, by decide, by decide, rfl, reads_base64 symbols⟩

theorem reads_octets_delimited (h : Delimited value written) : Reads octets written value := by
  obtain ⟨opening, tail, body, rfl, noDigit, -, announced, reads⟩ := reads_delimited h
  intro offset rest
  have run := reads offset rest
  rw [List.cons_append] at run ⊢
  rw [octets, offset_bind, peek_bind]
  simp only [List.head?_cons, noDigit, announced, Bool.false_eq_true, if_false]
  exact run

/-- The number in front is compared with the octets that are read. -/
theorem measured_delimited (h : Delimited value written) (start n offset : Nat) (rest : Octets) :
    measured start n ⟨offset, written ++ rest⟩ =
      if value.length = n then .ok value ⟨offset + written.length, rest⟩
      else .error (.invalidLength start) ⟨offset + written.length, rest⟩ := by
  obtain ⟨opening, tail, body, rfl, -, noColon, announced, reads⟩ := reads_delimited h
  have run := reads offset rest
  rw [List.cons_append] at run ⊢
  rw [measured, offset_bind, peek_bind]
  simp only [List.head?_cons, announced, if_neg noColon]
  rw [bind_of_ok run]
  split <;> rfl

/-- Behind a number, a delimited spelling is read if the number is right, and refused where the
number stands if it is wrong. -/
theorem octets_announced (h : Delimited value written) (short : value.length < lengthLimit)
    (n offset : Nat) (rest : Octets) :
    (n = value.length →
      octets ⟨offset, decimal n ++ written ++ rest⟩ =
        .ok value ⟨offset + (decimal n ++ written).length, rest⟩) ∧
    (n ≠ value.length → ∃ next,
      octets ⟨offset, decimal n ++ written ++ rest⟩ = .error (.invalidLength offset) next) := by
  obtain ⟨opening, tail, body, same, noDigit, -⟩ := reads_delimited h
  obtain ⟨first, digits, leading⟩ := List.exists_cons_of_ne_nil (decimal_ne_nil n)
  have isDigit : isDigit first = true := isDigit_of_mem_decimal (leading ▸ List.mem_cons_self)
  -- the first digit decides for a number, and is then read as part of it
  have counts : octets ⟨offset, decimal n ++ written ++ rest⟩ =
      counted ⟨offset, decimal n ++ written ++ rest⟩ := by
    rw [leading, List.cons_append, List.cons_append, octets_of_isDigit isDigit]
  have front : decimal n ++ written ++ rest = decimal n ++ opening :: (tail ++ rest) := by
    rw [same, List.append_assoc, List.cons_append]
  have behind : opening :: (tail ++ rest) = written ++ rest := by rw [same, List.cons_append]
  constructor
  · rintro rfl
    rw [counts, front, counted, offset_bind, bind_of_ok (length_decimal short noDigit _ _), behind,
      measured_delimited h, if_pos rfl, List.length_append, Nat.add_assoc]
  · intro wrong
    rw [counts, front, counted, offset_bind]
    by_cases fits : n < lengthLimit
    · rw [bind_of_ok (length_decimal fits noDigit _ _), behind, measured_delimited h,
        if_neg (Ne.symm wrong)]
      exact ⟨_, rfl⟩
    · have refused : length ⟨offset, decimal n ++ opening :: (tail ++ rest)⟩ =
          .error (.invalidLength offset)
            ⟨offset + (decimal n).length, opening :: (tail ++ rest)⟩ := by
        rw [length_digits (fun _ => isDigit_of_mem_decimal) noDigit, decimal_isCanonical,
          decimalValue_decimal]
        simp [Nat.not_lt.mp fits]
      rw [bind_of_error refused]
      exact ⟨_, rfl⟩

/-! ### All spellings -/

variable {count : Option Nat}

/-- A spelling without a number or with the right one is read wherever it stands. -/
theorem reads_octets_written (h : Written value count written)
    (short : value.length < lengthLimit) (right : Counts count value) :
    Reads octets written value := by
  cases h with
  | verbatim => exact reads_octets_verbatim short
  | bare spelled => exact reads_octets_delimited spelled
  | announced spelled n =>
    intro offset rest
    exact (octets_announced spelled short n offset rest).1 (counts_some_iff.mp right)

/-- A wrong number is reported where it stands. -/
theorem octets_of_not_counts (h : Written value count written)
    (short : value.length < lengthLimit) (wrong : ¬ Counts count value) (offset : Nat)
    (rest : Octets) :
    ∃ next, octets ⟨offset, written ++ rest⟩ = .error (.invalidLength offset) next := by
  cases h with
  | verbatim => exact absurd (counts_none value) wrong
  | bare => exact absurd (counts_none value) wrong
  | announced spelled n =>
    rw [counts_some_iff] at wrong
    exact (octets_announced spelled short n offset rest).2 wrong

/-- The first octet of a spelling opens neither a list nor a block nor a hint, and is not skipped. -/
theorem written_eq_cons (h : Written value count written) :
    ∃ first tail, written = first :: tail ∧ isBlank first = false ∧ first ≠ 0x28 ∧
      first ≠ 0x7B ∧ first ≠ 0x5B := by
  have ofDigit {first : UInt8} (digit : isDigit first = true) :
      isBlank first = false ∧ first ≠ 0x28 ∧ first ≠ 0x7B ∧ first ≠ 0x5B :=
    ⟨isBlank_of_isDigit digit, ne_of_isDigit digit (by decide), ne_of_isDigit digit (by decide),
      ne_of_isDigit digit (by decide)⟩
  cases h with
  | verbatim =>
    obtain ⟨first, tail, same, digit⟩ := verbatim_eq_cons value
    exact ⟨first, tail, same, ofDigit digit⟩
  | bare spelled =>
    cases spelled <;> exact ⟨_, _, rfl, by decide, by decide, by decide, by decide⟩
  | announced spelled n =>
    obtain ⟨first, tail, same⟩ := List.exists_cons_of_ne_nil (decimal_ne_nil n)
    have digit : isDigit first = true := isDigit_of_mem_decimal (same ▸ List.mem_cons_self)
    rw [same]
    exact ⟨first, _, rfl, ofDigit digit⟩

theorem skipBlank_written (h : Written value count written) (offset : Nat) (rest : Octets) :
    skipBlank ⟨offset, written ++ rest⟩ = .ok () ⟨offset, written ++ rest⟩ := by
  obtain ⟨first, tail, rfl, notBlank, -⟩ := written_eq_cons h
  exact skipBlank_cons notBlank _ _

/-! ### Atoms -/

/-- An expression that begins like an octet string is one. -/
theorem expression_written (h : Written value count written) (budget offset : Nat)
    (rest : Octets) :
    (expression budget).run ⟨offset, written ++ rest⟩ = plain ⟨offset, written ++ rest⟩ := by
  obtain ⟨first, tail, rfl, notBlank, noList, noBlock, noHint⟩ := written_eq_cons h
  cases budget <;>
    rw [List.cons_append, expression, bounded_run_cons _ notBlank,
      expressionAt_cons _ noList noBlock noHint]

theorem expression_bracket (budget offset : Nat) (rest : Octets) :
    (expression budget).run ⟨offset, 0x5B :: rest⟩ = hinted ⟨offset, 0x5B :: rest⟩ := by
  cases budget <;> rw [expression, bounded_run_cons _ (by decide)] <;> rfl

variable {hint writtenHint : Octets} {hintCount : Option Nat}

/-- The hint is read first, and then what follows its bracket. -/
theorem hinted_of_counts (hHint : Written hint hintCount writtenHint)
    (shortHint : hint.length < lengthLimit) (right : Counts hintCount hint)
    (h : Written value count written) (offset : Nat) (rest : Octets) :
    hinted ⟨offset, 0x5B :: (writtenHint ++ 0x5D :: (written ++ rest))⟩ =
      (octets >>= fun value => pure (.atom ⟨some hint, value⟩))
        ⟨offset + 1 + writtenHint.length + 1, written ++ rest⟩ := by
  rw [hinted, bind_of_ok (expect_cons _ _ _), bind_of_ok (skipBlank_written hHint _ _),
    bind_of_ok (reads_octets_written hHint shortHint right _ _),
    bind_of_ok (skipBlank_cons (by decide) _ _), bind_of_ok (expect_cons _ _ _),
    bind_of_ok (skipBlank_written h _ _)]

theorem hinted_of_not_counts (hHint : Written hint hintCount writtenHint)
    (shortHint : hint.length < lengthLimit) (wrong : ¬ Counts hintCount hint) (offset : Nat)
    (rest : Octets) :
    ∃ next, hinted ⟨offset, 0x5B :: (writtenHint ++ rest)⟩ =
      .error (.invalidLength (offset + 1)) next := by
  obtain ⟨next, run⟩ := octets_of_not_counts hHint shortHint wrong (offset + 1) rest
  refine ⟨next, ?_⟩
  rw [hinted, bind_of_ok (expect_cons _ _ _), bind_of_ok (skipBlank_written hHint _ _),
    bind_of_error run]

end Reader

namespace SExpr

open Reader

variable {value written hint writtenHint : Octets} {count hintCount : Option Nat}

/-- An octet string is read from every spelling whose number is right, and from no other. -/
theorem read_spelled (h : Written value count written) (short : value.length < lengthLimit) :
    (Counts count value → read written = .ok (ofOctets value)) ∧
    (¬ Counts count value → read written = .error (.invalidLength 0)) := by
  have only := expression_written h nestingLimit
  constructor
  · intro right
    apply read_of_reads
    intro offset rest
    rw [only, plain, bind_of_ok (reads_octets_written h short right _ _)]
    rfl
  · intro wrong
    obtain ⟨next, run⟩ := octets_of_not_counts h short wrong 0 []
    have refused := only 0 []
    rw [plain, bind_of_error run, List.append_nil] at refused
    exact read_of_error refused

/-- A hinted atom is read if both numbers are right, and otherwise the first wrong one is
reported. -/
theorem read_hinted (hHint : Written hint hintCount writtenHint) (h : Written value count written)
    (shortHint : hint.length < lengthLimit) (short : value.length < lengthLimit) :
    (¬ Counts hintCount hint →
      read (0x5B :: (writtenHint ++ 0x5D :: written)) = .error (.invalidLength 1)) ∧
    (Counts hintCount hint → ¬ Counts count value →
      read (0x5B :: (writtenHint ++ 0x5D :: written)) =
        .error (.invalidLength (writtenHint.length + 2))) ∧
    (Counts hintCount hint → Counts count value →
      read (0x5B :: (writtenHint ++ 0x5D :: written)) = .ok (.atom ⟨some hint, value⟩)) := by
  have only (rest : Octets) := expression_bracket nestingLimit 0 rest
  refine ⟨?_, ?_, ?_⟩
  · intro wrong
    obtain ⟨next, run⟩ := hinted_of_not_counts hHint shortHint wrong 0 (0x5D :: written)
    exact read_of_error ((only _).trans run)
  · intro right wrong
    obtain ⟨next, run⟩ := octets_of_not_counts h short wrong (0 + 1 + writtenHint.length + 1) []
    have behind := hinted_of_counts hHint shortHint right h 0 []
    rw [bind_of_error run, List.append_nil] at behind
    have place : 0 + 1 + writtenHint.length + 1 = writtenHint.length + 2 := by omega
    rw [← place]
    exact read_of_error ((only _).trans behind)
  · intro rightHint right
    have behind := hinted_of_counts hHint shortHint rightHint h 0 []
    rw [bind_of_ok (reads_octets_written h short right _ _), List.append_nil] at behind
    rw [read, complete, Cursor.start, only, behind]
    rfl

/-- Every spelling of an octet string is read as that octet string, and as an atom with a hint
together with any spelling of the hint.  Where a number stands in front of a spelling, that is so
exactly if it is the number of octets, and a wrong number is reported where it stands. -/
theorem all_spellings_are_read_alike :
    (∀ (value written : Octets) (count : Option Nat), Written value count written →
      written.length < memoryLimit →
        (read written = .ok (ofOctets value) ↔ Counts count value) ∧
        (¬ Counts count value → read written = .error (.invalidLength 0))) ∧
    (∀ (hint value writtenHint written : Octets) (hintCount count : Option Nat),
      Written hint hintCount writtenHint → Written value count written →
      (0x5B :: (writtenHint ++ 0x5D :: written)).length < memoryLimit →
        let input := 0x5B :: (writtenHint ++ 0x5D :: written)
        (read input = .ok (.atom ⟨some hint, value⟩) ↔
          Counts hintCount hint ∧ Counts count value) ∧
        (¬ Counts hintCount hint → read input = .error (.invalidLength 1)) ∧
        (Counts hintCount hint → ¬ Counts count value →
          read input = .error (.invalidLength (writtenHint.length + 2)))) := by
  have limits : memoryLimit < lengthLimit := by decide
  -- what is refused where a number is wrong has no wrong number if it is accepted
  have counts {input : Octets} {expr : SExpr} {error : ReadError} {right : Prop}
      (accepted : read input = .ok expr) (wrong : ¬ right → read input = .error error) : right := by
    by_contra unlike
    rw [wrong unlike] at accepted
    cases accepted
  constructor
  · intro value written count h short
    obtain ⟨right, wrong⟩ := read_spelled h (by have := h.length_le; omega)
    exact ⟨⟨fun accepted => counts accepted wrong, right⟩, wrong⟩
  · intro hint value writtenHint written hintCount count hHint h short
    simp only [List.length_cons, List.length_append] at short
    obtain ⟨wrongHint, wrong, right⟩ := read_hinted hHint h
      (by have := hHint.length_le; omega) (by have := h.length_le; omega)
    refine ⟨⟨fun accepted => ?_, fun both => right both.1 both.2⟩, wrongHint, wrong⟩
    have rightHint := counts accepted wrongHint
    exact ⟨rightHint, counts accepted (wrong rightHint)⟩

/-- The octets of `"\"\x4a\112J"`, a quote and three times the letter `J`. -/
def quotedLetters : Octets :=
  0x22 :: [[0x5C, 0x22], [0x5C, 0x78, 0x34, 0x61], [0x5C, 0x31, 0x31, 0x32], [0x4A]].flatten ++
    [0x22]

/-- Four octets in hexadecimal of both cases, under a hint in base64 with a blank and without its
padding; and in quotes behind a number that counts what is written instead of what it spells. -/
theorem letters_are_read_in_every_spelling :
    read (0x5B :: ([0x7C, 0x53, 0x6B, 0x20, 0x6F, 0x7C] ++ 0x5D ::
        [0x23, 0x32, 0x32, 0x34, 0x61, 0x0A, 0x34, 0x41, 0x34, 0x61, 0x23])) =
      .ok (.atom ⟨some [0x4A, 0x4A], [0x22, 0x4A, 0x4A, 0x4A]⟩) ∧
    read quotedLetters = .ok (ofOctets [0x22, 0x4A, 0x4A, 0x4A]) ∧
    read (Octets.decimal 13 ++ quotedLetters) = .error (.invalidLength 0) := by
  have inQuotes : Delimited [0x22, 0x4A, 0x4A, 0x4A] quotedLetters :=
    .quoted (.cons (.named (by decide)) (.cons (.hexadecimal ⟨false, false, rfl⟩)
      (.cons .octal (.cons (.raw (by decide) (by decide)) .nil))))
  have inHexadecimal : Delimited [0x22, 0x4A, 0x4A, 0x4A]
      (0x23 :: [0x32, 0x32, 0x34, 0x61, 0x0A, 0x34, 0x41, 0x34, 0x61] ++ [0x23]) :=
    .hexadecimal (.cons ⟨false, false, rfl⟩ (.cons ⟨false, false, rfl⟩ (.cons ⟨true, true, rfl⟩
        (.cons ⟨false, false, rfl⟩ .nil)))) (by decide)
  have inBase64 : Delimited [0x4A, 0x4A] (0x7C :: [0x53, 0x6B, 0x20, 0x6F] ++ [0x7C]) :=
    .base64 (.inr (by decide))
  refine ⟨?_, ?_, ?_⟩
  · exact (all_spellings_are_read_alike.2 _ _ _ _ none none (.bare inBase64)
      (.bare inHexadecimal) (by decide)).1.mpr ⟨counts_none _, counts_none _⟩
  · exact (all_spellings_are_read_alike.1 _ _ none (.bare inQuotes) (by decide)).1.mpr
      (counts_none _)
  · exact (all_spellings_are_read_alike.1 _ _ (some 13) (.announced inQuotes 13)
      (by decide)).2 (by rw [counts_some_iff]; decide)

end SExpr

end SimplePki
