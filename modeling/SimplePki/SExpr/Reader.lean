import SimplePki.SExpr.Advanced
import SimplePki.SExpr.Cursor

/-!
# Reading expressions

One reader takes the canonical encoding and the advanced form, mixed in any way.  An octet string is
verbatim behind its length, a token, quoted, hexadecimal or base64; a length may also announce one
of the last three.  Braces hold the base64 of a whole expression.  Lists and braces share one
budget of nesting.

## Main definitions

* `Reader.octets`: an octet string in any of its spellings
* `Reader.expression`: an expression within a budget of nesting
* `SExpr.readNext`: the expression at the front of an input, and what follows it
* `SExpr.read`: the one expression that an input holds

## Main results

* `Reader.advances_octets`, `Reader.proceeds_octets`: an octet string takes at least one octet, and
  reading one never leaves the input
* `Reader.expression` carries the same two facts, by which lists end
-/

namespace SimplePki

namespace Reader

/-! ### Lengths -/

/-- The number that decimal digits write. -/
def decimalValue (digits : Octets) : Nat :=
  digits.foldl (fun n digit => n * 10 + (digit.toNat - 0x30)) 0

/-- Lengths are counted in machine words. -/
def lengthLimit : Nat := UInt64.size

/-- A length: decimal digits that write a machine word without a superfluous leading zero. -/
def length : Reader Nat := do
  let start ← offset
  let digits ← takeWhile Octets.isDigit
  if (2 ≤ digits.length && digits.head? == some 0x30) || lengthLimit ≤ decimalValue digits then
    throw (.invalidLength start)
  else
    pure (decimalValue digits)

/-! ### Quoted strings -/

/-- An octal digit and its value. -/
def octalDigit : Reader Nat := do
  let start ← offset
  let digit ← next
  if 0x30 ≤ digit && digit ≤ 0x37 then pure (digit.toNat - 0x30)
  else throw (.unexpectedOctet digit start)

/-- The octet that a letter or sign behind a backslash names. -/
def namedEscape? (octet : UInt8) : Option UInt8 :=
  if octet == 0x62 then some 0x08
  else if octet == 0x74 then some 0x09
  else if octet == 0x76 then some 0x0B
  else if octet == 0x6E then some 0x0A
  else if octet == 0x66 then some 0x0C
  else if octet == 0x72 then some 0x0D
  else if octet == 0x22 then some 0x22
  else if octet == 0x27 then some 0x27
  else if octet == 0x5C then some 0x5C
  else none

/-- Two hexadecimal digits behind `\x`. -/
def hexEscape : Reader Octets := do
  let high ← next
  let low ← next
  match Hex.decode [high, low] with
  | .ok octets => pure octets
  | .error fault => throw (.invalidHex fault)

/-- The second and third octal digit behind a backslash and a first one; a value beyond an octet
is blamed on the first digit. -/
def octalEscape (first : UInt8) (start : Nat) : Reader Octets := do
  let second ← octalDigit
  let third ← octalDigit
  let value := (first.toNat - 0x30) * 64 + second * 8 + third
  if value ≤ 255 then pure [UInt8.ofNat value] else throw (.unexpectedOctet first start)

/-- What a backslash stands for, the backslash being behind.  A line break after it, of one or of
two octets, stands for nothing. -/
def escape : Reader Octets := do
  let start ← offset
  let octet ← next
  match namedEscape? octet with
  | some named => pure [named]
  | none =>
    if octet = 0x78 then hexEscape
    else if 0x30 ≤ octet && octet ≤ 0x37 then octalEscape octet start
    else if octet = 0x0A then do skipOptional 0x0D; pure []
    else if octet = 0x0D then do skipOptional 0x0A; pure []
    else throw (.unexpectedOctet octet start)

theorem proceeds_octalDigit : Proceeds octalDigit := by
  refine proceeds_offset.bind fun _ => proceeds_next.bind fun _ => ?_
  split
  · exact proceeds_pure _
  · exact proceeds_throw _

theorem proceeds_hexEscape : Proceeds hexEscape := by
  refine proceeds_next.bind fun _ => proceeds_next.bind fun _ => ?_
  split
  · exact proceeds_pure _
  · exact proceeds_throw _

theorem proceeds_octalEscape (first : UInt8) (start : Nat) :
    Proceeds (octalEscape first start) := by
  refine proceeds_octalDigit.bind fun _ => proceeds_octalDigit.bind fun _ => ?_
  dsimp only
  split
  · exact proceeds_pure _
  · exact proceeds_throw _

theorem proceeds_escape : Proceeds escape := by
  refine proceeds_offset.bind fun start => proceeds_next.bind fun octet => ?_
  split
  · exact proceeds_pure _
  · split
    · exact proceeds_hexEscape
    · split
      · exact proceeds_octalEscape octet start
      · split
        · exact (proceeds_skipOptional _).bind fun _ => proceeds_pure _
        · split
          · exact (proceeds_skipOptional _).bind fun _ => proceeds_pure _
          · exact proceeds_throw _

/-- The next octets of a quoted string; none behind the closing quote. -/
def quotedPiece : Reader (Option Octets) := do
  let octet ← next
  if octet = 0x22 then pure none
  else if octet = 0x5C then do
    let octets ← escape
    pure (some octets)
  else pure (some [octet])

theorem proceeds_quotedPiece_rest (octet : UInt8) :
    Proceeds (if octet = 0x22 then pure none
      else if octet = 0x5C then (do let octets ← escape; pure (some octets))
      else pure (some [octet]) : Reader (Option Octets)) := by
  split
  · exact proceeds_pure _
  · split
    · exact proceeds_escape.bind fun _ => proceeds_pure _
    · exact proceeds_pure _

theorem proceeds_quotedPiece : Proceeds quotedPiece :=
  proceeds_next.bind proceeds_quotedPiece_rest

theorem advances_quotedPiece : Advances quotedPiece :=
  advances_next.bind proceeds_quotedPiece_rest

/-- A quoted string. -/
def quoted : Reader Octets := do
  expect 0x22
  let pieces ← collect quotedPiece advances_quotedPiece []
  pure pieces.flatten

/-! ### Delimited spellings -/

/-- Hexadecimal digits between number signs, whitespace left out. -/
def hexadecimal : Reader Octets := do
  expect 0x23
  let body ← takeThrough 0x23
  match Hex.decode (Octets.compact body) with
  | .ok octets => pure octets
  | .error fault => throw (.invalidHex fault)

/-- Base64 symbols up to a closing octet, whitespace left out. -/
def base64Through (close : UInt8) : Reader Octets := do
  let body ← takeThrough close
  match Base64.decode (Octets.compact body) with
  | .ok octets => pure octets
  | .error fault => throw (.invalidBase64 fault)

/-- Base64 symbols between bars. -/
def base64 : Reader Octets := do
  expect 0x7C
  base64Through 0x7C

/-- The reader of the spelling that an opening octet announces. -/
def delimited? (opening : UInt8) : Option (Reader Octets) :=
  if opening = 0x22 then some quoted
  else if opening = 0x23 then some hexadecimal
  else if opening = 0x7C then some base64
  else none

theorem advances_quoted : Advances quoted :=
  (advances_expect _).bind fun _ =>
    (proceeds_quotedPiece.collect _ _).bind fun _ => proceeds_pure _

theorem proceeds_quoted : Proceeds quoted :=
  (proceeds_expect _).bind fun _ =>
    (proceeds_quotedPiece.collect _ _).bind fun _ => proceeds_pure _

theorem proceeds_hexadecimal_rest : Proceeds (do
    let body ← takeThrough 0x23
    match Hex.decode (Octets.compact body) with
    | .ok octets => pure octets
    | .error fault => throw (.invalidHex fault) : Reader Octets) := by
  refine (proceeds_takeThrough _).bind fun _ => ?_
  split
  · exact proceeds_pure _
  · exact proceeds_throw _

theorem advances_hexadecimal : Advances hexadecimal :=
  (advances_expect _).bind fun _ => proceeds_hexadecimal_rest

theorem proceeds_hexadecimal : Proceeds hexadecimal :=
  (proceeds_expect _).bind fun _ => proceeds_hexadecimal_rest

theorem proceeds_base64Through (close : UInt8) : Proceeds (base64Through close) := by
  refine (proceeds_takeThrough _).bind fun _ => ?_
  split
  · exact proceeds_pure _
  · exact proceeds_throw _

theorem advances_base64 : Advances base64 :=
  (advances_expect _).bind fun _ => proceeds_base64Through _

theorem proceeds_base64 : Proceeds base64 :=
  (proceeds_expect _).bind fun _ => proceeds_base64Through _

theorem of_delimited? {opening : UInt8} {body : Reader Octets}
    (h : delimited? opening = some body) : body.Advances ∧ body.Proceeds := by
  unfold delimited? at h
  split at h
  · obtain rfl := Option.some.inj h
    exact ⟨advances_quoted, proceeds_quoted⟩
  · split at h
    · obtain rfl := Option.some.inj h
      exact ⟨advances_hexadecimal, proceeds_hexadecimal⟩
    · split at h
      · obtain rfl := Option.some.inj h
        exact ⟨advances_base64, proceeds_base64⟩
      · exact nomatch h

/-! ### Octet strings -/

/-- What follows a length: verbatim octets behind a colon, or a delimited spelling of that many. -/
def measured (start n : Nat) : Reader Octets := do
  let stop ← offset
  match ← peek with
  | none => throw .unexpectedEnd
  | some opening =>
    if opening = 0x3A then do
      expect 0x3A
      takeExactly n
    else
      match delimited? opening with
      | none => throw (.unexpectedOctet opening stop)
      -- a wrong count is blamed on where the length begins, not on the spelling behind it
      | some body => do
        let octets ← body
        if octets.length = n then pure octets else throw (.invalidLength start)

/-- A length with the octets it counts. -/
def counted : Reader Octets := do
  let start ← offset
  let n ← length
  measured start n

/-- An octet string in any of its spellings. -/
def octets : Reader Octets := do
  let start ← offset
  match ← peek with
  | none => throw .unexpectedEnd
  | some opening =>
    if Octets.isDigit opening then counted
    else
      match delimited? opening with
      | some body => body
      | none =>
        if Octets.isTokenOctet opening then do
          let first ← next
          let rest ← takeWhile Octets.isTokenOctet
          pure (first :: rest)
        else throw (.unexpectedOctet opening start)

theorem proceeds_length : Proceeds length := by
  refine proceeds_offset.bind fun _ => (proceeds_takeWhile _).bind fun _ => ?_
  split
  · exact proceeds_throw _
  · exact proceeds_pure _

theorem advances_measured (start n : Nat) : Advances (measured start n) := by
  refine proceeds_offset.bind_advances fun _ => proceeds_peek.bind_advances fun opening => ?_
  cases opening with
  | none => exact advances_throw _
  | some opening =>
    dsimp only
    split
    · exact (advances_expect _).bind fun _ => proceeds_takeExactly _
    · split
      · exact advances_throw _
      · next body h =>
        refine (of_delimited? h).1.bind fun _ => ?_
        split
        · exact proceeds_pure _
        · exact proceeds_throw _

theorem proceeds_measured (start n : Nat) : Proceeds (measured start n) := by
  refine proceeds_offset.bind fun _ => proceeds_peek.bind fun opening => ?_
  cases opening with
  | none => exact proceeds_throw _
  | some opening =>
    dsimp only
    split
    · exact (proceeds_expect _).bind fun _ => proceeds_takeExactly _
    · split
      · exact proceeds_throw _
      · next body h =>
        refine (of_delimited? h).2.bind fun _ => ?_
        split
        · exact proceeds_pure _
        · exact proceeds_throw _

theorem proceeds_counted : Proceeds counted :=
  proceeds_offset.bind fun _ => proceeds_length.bind fun _ => proceeds_measured _ _

theorem advances_counted : Advances counted :=
  proceeds_offset.bind_advances fun _ => proceeds_length.bind_advances fun _ =>
    advances_measured _ _

theorem advances_octets : Advances octets := by
  refine proceeds_offset.bind_advances fun _ => proceeds_peek.bind_advances fun opening => ?_
  cases opening with
  | none => exact advances_throw _
  | some opening =>
    dsimp only
    split
    · exact advances_counted
    · split
      · next h => exact (of_delimited? h).1
      · split
        · exact advances_next.bind fun _ => (proceeds_takeWhile _).bind fun _ => proceeds_pure _
        · exact advances_throw _

theorem proceeds_octets : Proceeds octets := by
  refine proceeds_offset.bind fun _ => proceeds_peek.bind fun opening => ?_
  cases opening with
  | none => exact proceeds_throw _
  | some opening =>
    dsimp only
    split
    · exact proceeds_counted
    · split
      · next h => exact (of_delimited? h).2
      · split
        · exact proceeds_next.bind fun _ => (proceeds_takeWhile _).bind fun _ => proceeds_pure _
        · exact proceeds_throw _

/-! ### Expressions -/

/-- A reader of expressions that consumes something and never leaves its input. -/
structure Bounded where
  run : Reader SExpr
  advances : run.Advances
  proceeds : run.Proceeds

/-- The next item of a list; none behind the closing parenthesis. -/
def item (element : Reader SExpr) : Reader (Option SExpr) := do
  skipBlank
  match ← peek with
  | none => throw .unexpectedEnd
  | some octet =>
    if octet = 0x29 then do
      expect 0x29
      pure none
    else do
      let expr ← element
      pure (some expr)

theorem advances_item (element : Bounded) : Advances (item element.run) := by
  refine proceeds_skipBlank.bind_advances fun _ => proceeds_peek.bind_advances fun octet => ?_
  cases octet with
  | none => exact advances_throw _
  | some octet =>
    dsimp only
    split
    · exact (advances_expect _).bind fun _ => proceeds_pure _
    · exact element.advances.bind fun _ => proceeds_pure _

theorem proceeds_item (element : Bounded) : Proceeds (item element.run) := by
  refine proceeds_skipBlank.bind fun _ => proceeds_peek.bind fun octet => ?_
  cases octet with
  | none => exact proceeds_throw _
  | some octet =>
    dsimp only
    split
    · exact (proceeds_expect _).bind fun _ => proceeds_pure _
    · exact element.proceeds.bind fun _ => proceeds_pure _

/-- A list of elements in parentheses. -/
def listOf (element : Bounded) : Reader SExpr := do
  expect 0x28
  let items ← collect (item element.run) (advances_item element) []
  pure (.list items)

/-- The one expression that an input holds; only whitespace may follow it. -/
def complete (element : Reader SExpr) (input : Octets) : Except ReadError SExpr :=
  match element (Cursor.start input) with
  | .error error _ => .error error
  | .ok expr next =>
    match next.skipBlank.ahead with
    | [] => .ok expr
    | _ :: _ => .error (.trailingOctets next.skipBlank.offset)

/-- The base64 of a whole expression in braces. -/
def transport (element : Bounded) : Reader SExpr := do
  expect 0x7B
  let input ← base64Through 0x7D
  match complete element.run input with
  | .ok expr => pure expr
  | .error error => throw error

/-- A hint in brackets and the octet string it belongs to. -/
def hinted : Reader SExpr := do
  expect 0x5B
  skipBlank
  let hint ← octets
  skipBlank
  expect 0x5D
  skipBlank
  let value ← octets
  pure (.atom ⟨some hint, value⟩)

/-- An octet string without a hint. -/
def plain : Reader SExpr := do
  let value ← octets
  pure (.ofOctets value)

/-- An expression at an octet that is no whitespace, with a reader for what lists and braces hold,
or none where nothing may nest any more. -/
def expressionAt (inner : Option Bounded) : Reader SExpr := do
  let start ← offset
  match ← peek with
  | none => throw .unexpectedEnd
  | some opening =>
    if opening = 0x28 then
      match inner with
      | none => throw (.tooDeep start)
      | some element => listOf element
    else if opening = 0x7B then
      match inner with
      | none => throw (.tooDeep start)
      | some element => transport element
    else if opening = 0x5B then hinted
    else plain

theorem advances_listOf (element : Bounded) : Advances (listOf element) :=
  (advances_expect _).bind fun _ =>
    ((proceeds_item element).collect _ _).bind fun _ => proceeds_pure _

theorem proceeds_listOf (element : Bounded) : Proceeds (listOf element) :=
  (proceeds_expect _).bind fun _ =>
    ((proceeds_item element).collect _ _).bind fun _ => proceeds_pure _

theorem proceeds_transport_rest (element : Bounded) (input : Octets) :
    Proceeds (match complete element.run input with
      | .ok expr => pure expr
      | .error error => throw error : Reader SExpr) := by
  split
  · exact proceeds_pure _
  · exact proceeds_throw _

theorem advances_transport (element : Bounded) : Advances (transport element) :=
  (advances_expect _).bind fun _ =>
    (proceeds_base64Through _).bind fun _ => proceeds_transport_rest element _

theorem proceeds_transport (element : Bounded) : Proceeds (transport element) :=
  (proceeds_expect _).bind fun _ =>
    (proceeds_base64Through _).bind fun _ => proceeds_transport_rest element _

theorem proceeds_hinted_rest : Proceeds (do
    skipBlank
    let hint ← octets
    skipBlank
    expect 0x5D
    skipBlank
    let value ← octets
    pure (.atom ⟨some hint, value⟩) : Reader SExpr) :=
  proceeds_skipBlank.bind fun _ => proceeds_octets.bind fun _ => proceeds_skipBlank.bind fun _ =>
    (proceeds_expect _).bind fun _ => proceeds_skipBlank.bind fun _ =>
      proceeds_octets.bind fun _ => proceeds_pure _

theorem advances_hinted : Advances hinted :=
  (advances_expect _).bind fun _ => proceeds_hinted_rest

theorem proceeds_hinted : Proceeds hinted :=
  (proceeds_expect _).bind fun _ => proceeds_hinted_rest

theorem advances_plain : Advances plain := advances_octets.bind fun _ => proceeds_pure _

theorem proceeds_plain : Proceeds plain := proceeds_octets.bind fun _ => proceeds_pure _

theorem advances_expressionAt (inner : Option Bounded) : Advances (expressionAt inner) := by
  refine proceeds_offset.bind_advances fun _ => proceeds_peek.bind_advances fun opening => ?_
  cases opening with
  | none => exact advances_throw _
  | some opening =>
    dsimp only
    split
    · cases inner with
      | none => exact advances_throw _
      | some element => exact advances_listOf element
    · split
      · cases inner with
        | none => exact advances_throw _
        | some element => exact advances_transport element
      · split
        · exact advances_hinted
        · exact advances_plain

theorem proceeds_expressionAt (inner : Option Bounded) : Proceeds (expressionAt inner) := by
  refine proceeds_offset.bind fun _ => proceeds_peek.bind fun opening => ?_
  cases opening with
  | none => exact proceeds_throw _
  | some opening =>
    dsimp only
    split
    · cases inner with
      | none => exact proceeds_throw _
      | some element => exact proceeds_listOf element
    · split
      · cases inner with
        | none => exact proceeds_throw _
        | some element => exact proceeds_transport element
      · split
        · exact proceeds_hinted
        · exact proceeds_plain

/-- An expression behind optional whitespace. -/
def bounded (inner : Option Bounded) : Bounded where
  run := do
    skipBlank
    expressionAt inner
  advances := proceeds_skipBlank.bind_advances fun _ => advances_expressionAt inner
  proceeds := proceeds_skipBlank.bind fun _ => proceeds_expressionAt inner

/-- An expression in which lists and transport blocks nest at most `budget` deep. -/
def expression : (budget : Nat) → Bounded
  | 0 => bounded none
  | budget + 1 => bounded (some (expression budget))

end Reader

namespace SExpr

/-- Lists and transport blocks nest at most this deep. -/
def nestingLimit : Nat := 256

/-- The expression at the front of an input, and what follows it. -/
def readNext (input : Octets) : Except ReadError (SExpr × Octets) :=
  match (Reader.expression nestingLimit).run (Cursor.start input) with
  | .error error _ => .error error
  | .ok expr next => .ok (expr, next.ahead)

/-- The one expression that an input holds; only whitespace may follow it. -/
def read (input : Octets) : Except ReadError SExpr :=
  Reader.complete (Reader.expression nestingLimit).run input

end SExpr

end SimplePki
