import SimplePki.SExpr.Reader

/-!
# A reading head

The reader hands on what is ahead, and its nesting is bounded by what it is built from.  A reading
head has the whole input before it and two numbers: its place, which it moves as it reads, and the
depth, which counts the lists and blocks around it.  It looks at octets by their places, cuts slices
between places, counts the depth down again where a list or a block closes, and repeats steps until
one of them says that it is done.  Nothing in this keeps the place inside the input, the depth from
falling below zero or a repetition from going on for ever; each of these has a fault of its own.

The blocks in braces hold inputs of their own, which are read by other heads at the same depth.

## Main definitions

* `Head`, `Head.Halt`, `Head.Run`: a reading head, what stops it, and what it does
* `Head.skipWhile`, `Head.digits`, `Head.repeated`: what is repeated, for at most so many steps
* `Head.decimal`, `Head.token`, `Head.through`, `Head.hexadecimal`, `Head.base64`, `Head.quoted`,
  `Head.escape`, `Head.octets`: the parts of an octet string
* `Head.transport`, `Head.value`: expressions
-/

namespace SimplePki

/-- A place in an input, and how many lists and blocks are open there. -/
structure Head where
  pos : Nat
  depth : Nat
  deriving DecidableEq, Repr

namespace Head

/-- What stops a head: a refusal of the input, or a fault of its own. -/
inductive Halt where
  | refused (error : ReadError)
  /-- An octet or a slice is not in the input. -/
  | outOfRange
  /-- A number falls below zero. -/
  | underflow
  /-- A repetition goes on beyond the steps it was given. -/
  | unfinished
  deriving DecidableEq, Repr

/-- Moves a head and yields a value, or halts; the head is left somewhere either way. -/
abbrev Run := EStateM Halt Head

variable {α : Type}

/-! ### Places and depths -/

/-- The place of the head. -/
def place : Run Nat := fun head => .ok head.pos head

/-- Moves the head to a place. -/
def jump (pos : Nat) : Run Unit := fun head => .ok () { head with pos }

/-- Moves the head over one octet. -/
def move : Run Unit := fun head => .ok () { head with pos := head.pos + 1 }

/-- Refuses the input. -/
def refuse (error : ReadError) : Run α := throw (.refused error)

/-- A difference that is not checked. -/
def sub (a b : Nat) : Run Nat := if b ≤ a then pure (a - b) else throw .underflow

/-- Opens a list or a block, if it is not too deep. -/
def descend : Run Unit := fun head =>
  if SExpr.nestingLimit ≤ head.depth then .error (.refused (.tooDeep head.pos)) head
  else .ok () { head with depth := head.depth + 1 }

/-- Closes a list or a block; that one is open is not checked. -/
def ascend : Run Unit := fun head =>
  if 1 ≤ head.depth then .ok () { head with depth := head.depth - 1 }
  else .error .underflow head

/-- Reads what is inside a list or a block. -/
def nested (inside : Run α) : Run α := do
  descend
  let value ← inside
  ascend
  pure value

/-- Reads another input with a head of its own, which starts at the depth of this one. -/
def inside (other : Run α) : Run α := fun head =>
  match other ⟨0, head.depth⟩ with
  | .ok value _ => .ok value head
  | .error halt _ => .error halt head

/-- Repeats a step until it yields nothing; the items already found are kept in reverse. -/
def repeated (step : Run (Option α)) : (steps : Nat) → List α → Run (List α)
  | 0, _ => throw .unfinished
  | steps + 1, found => do
    match ← step with
    | none => pure found.reverse
    | some item => repeated step steps (item :: found)

variable (input : Octets)

/-! ### Octets of the input -/

/-- The octet at the head, if the input has not ended. -/
def peek : Run (Option UInt8) := fun head => .ok input[head.pos]? head

/-- An octet that is fetched without a check. -/
def octetAt (pos : Nat) : Run UInt8 :=
  match input[pos]? with
  | some octet => pure octet
  | none => throw .outOfRange

/-- A slice that is cut without a check. -/
def slice (start stop : Nat) : Run Octets :=
  if start ≤ stop ∧ stop ≤ input.length then pure ((input.drop start).take (stop - start))
  else throw .outOfRange

/-- The octet at the head, which moves over it. -/
def next : Run UInt8 := do
  match ← peek input with
  | none => refuse .unexpectedEnd
  | some octet => do
    move
    pure octet

/-- Moves over one given octet. -/
def expect (wanted : UInt8) : Run Unit := do
  match ← peek input with
  | none => refuse .unexpectedEnd
  | some octet => if octet = wanted then move else do refuse (.unexpectedOctet octet (← place))

/-- Moves over one given octet if it is at the head. -/
def skipOptional (wanted : UInt8) : Run Unit := do
  match ← peek input with
  | none => pure ()
  | some octet => if octet = wanted then move else pure ()

/-- Moves over the octets that satisfy a predicate. -/
def skipWhile (p : UInt8 → Bool) : (steps : Nat) → Run Unit
  | 0 => throw .unfinished
  | steps + 1 => do
    match ← peek input with
    | none => pure ()
    | some octet =>
      if p octet then do
        move
        skipWhile p steps
      else pure ()

/-- The octets up to a closing octet, which is moved over with them. -/
def through (close : UInt8) : Run Octets := do
  let start ← place
  let ahead ← slice input start input.length
  let n := (ahead.takeWhile (· != close)).length
  if n < ahead.length then do
    jump (start + n + 1)
    slice input start (start + n)
  else refuse .unexpectedEnd

/-! ### Lengths and tokens -/

/-- The number that the digits at the head continue, if it stays a machine word. -/
def digits (start : Nat) : (steps n : Nat) → Run Nat
  | 0, _ => throw .unfinished
  | steps + 1, n => do
    match ← peek input with
    | none => pure n
    | some octet =>
      if Octets.isDigit octet then
        let more := n * 10 + (octet.toNat - 0x30)
        if more < Reader.lengthLimit then do
          move
          digits start steps more
        else refuse (.invalidLength start)
      else pure n

/-- A length: decimal digits that write a machine word without a superfluous leading zero. -/
def decimal (steps : Nat) : Run Nat := do
  let start ← place
  let n ← digits input start steps 0
  let width ← sub (← place) start
  if 1 < width then do
    let first ← octetAt input start
    if first = 0x30 then refuse (.invalidLength start) else pure n
  else pure n

/-- The token octets at the head. -/
def token (steps : Nat) : Run Octets := do
  let start ← place
  skipWhile input Octets.isTokenOctet steps
  slice input start (← place)

/-! ### Delimited spellings -/

/-- An octal digit and its value. -/
def octalDigit : Run Nat := do
  let digit ← next input
  if 0x30 ≤ digit && digit ≤ 0x37 then pure (digit.toNat - 0x30)
  -- the digit is behind the head already
  else do refuse (.unexpectedOctet digit (← sub (← place) 1))

/-- What a backslash stands for, the backslash being behind. -/
def escape : Run Octets := do
  let start ← place
  let octet ← next input
  match Reader.namedEscape? octet with
  | some named => pure [named]
  | none =>
    if octet = 0x78 then do
      let high ← next input
      let low ← next input
      match Hex.decode [high, low] with
      | .ok octets => pure octets
      | .error fault => refuse (.invalidHex fault)
    else if 0x30 ≤ octet && octet ≤ 0x37 then do
      let second ← octalDigit input
      let third ← octalDigit input
      let value := (octet.toNat - 0x30) * 64 + second * 8 + third
      if value ≤ 255 then pure [UInt8.ofNat value] else refuse (.unexpectedOctet octet start)
    else if octet = 0x0A then do skipOptional input 0x0D; pure []
    else if octet = 0x0D then do skipOptional input 0x0A; pure []
    else refuse (.unexpectedOctet octet start)

/-- The next octets of a quoted string; none behind the closing quote. -/
def quotedPiece : Run (Option Octets) := do
  let octet ← next input
  if octet = 0x22 then pure none
  else if octet = 0x5C then do
    let octets ← escape input
    pure (some octets)
  else pure (some [octet])

/-- A quoted string. -/
def quoted (steps : Nat) : Run Octets := do
  expect input 0x22
  let pieces ← repeated (quotedPiece input) steps []
  pure pieces.flatten

/-- Hexadecimal digits between number signs, whitespace left out. -/
def hexadecimal : Run Octets := do
  expect input 0x23
  let body ← through input 0x23
  match Hex.decode (Octets.compact body) with
  | .ok octets => pure octets
  | .error fault => refuse (.invalidHex fault)

/-- Base64 symbols up to a closing octet, whitespace left out. -/
def base64Through (close : UInt8) : Run Octets := do
  let body ← through input close
  match Base64.decode (Octets.compact body) with
  | .ok octets => pure octets
  | .error fault => refuse (.invalidBase64 fault)

/-- Base64 symbols between bars. -/
def base64 : Run Octets := do
  expect input 0x7C
  base64Through input 0x7C

/-- What reads the spelling that an opening octet announces. -/
def delimited? (steps : Nat) (opening : UInt8) : Option (Run Octets) :=
  if opening = 0x22 then some (quoted input steps)
  else if opening = 0x23 then some (hexadecimal input)
  else if opening = 0x7C then some (base64 input)
  else none

/-! ### Octet strings -/

/-- The next octets, as many as were announced. -/
def verbatim (n : Nat) : Run Octets := do
  let start ← place
  if start + n ≤ input.length then do
    let octets ← slice input start (start + n)
    jump (start + n)
    pure octets
  else refuse .unexpectedEnd

/-- What follows a length: verbatim octets behind a colon, or a delimited spelling of that many. -/
def measured (steps start n : Nat) : Run Octets := do
  match ← peek input with
  | none => refuse .unexpectedEnd
  | some opening =>
    if opening = 0x3A then do
      move
      verbatim input n
    else
      match delimited? input steps opening with
      | none => do refuse (.unexpectedOctet opening (← place))
      | some body => do
        let octets ← body
        if octets.length = n then pure octets else refuse (.invalidLength start)

/-- An octet string in any of its spellings. -/
def octets (steps : Nat) : Run Octets := do
  match ← peek input with
  | none => refuse .unexpectedEnd
  | some opening =>
    if Octets.isDigit opening then do
      let start ← place
      let n ← decimal input steps
      measured input steps start n
    else
      match delimited? input steps opening with
      | some body => body
      | none =>
        if Octets.isTokenOctet opening then token input steps
        else do refuse (.unexpectedOctet opening (← place))

/-! ### Expressions -/

/-- A hint in brackets and the octet string it belongs to, the opening bracket being at the head. -/
def hinted (steps : Nat) : Run SExpr := do
  move
  skipWhile input Octets.isBlank steps
  let hint ← octets input steps
  skipWhile input Octets.isBlank steps
  expect input 0x5D
  skipWhile input Octets.isBlank steps
  let value ← octets input steps
  pure (.atom ⟨some hint, value⟩)

/-- The next item of a list; none behind the closing parenthesis. -/
def item (element : Run SExpr) (steps : Nat) : Run (Option SExpr) := do
  skipWhile input Octets.isBlank steps
  match ← peek input with
  | none => refuse .unexpectedEnd
  | some octet =>
    if octet = 0x29 then do
      move
      pure none
    else do
      let expr ← element
      pure (some expr)

/-- A list of elements, the opening parenthesis being at the head. -/
def listOf (element : Run SExpr) (steps : Nat) : Run SExpr :=
  nested do
    move
    let items ← repeated (item input element steps) steps []
    pure (.list items)

/-- An expression that only whitespace may follow. -/
def complete (element : Run SExpr) : Run SExpr := do
  let expr ← element
  let rest ← slice input (← place) input.length
  let blanks := (rest.takeWhile Octets.isBlank).length
  if blanks < rest.length then do
    let front ← sub input.length rest.length
    refuse (.trailingOctets (front + blanks))
  else pure expr

/-- The base64 of a whole expression in braces; `element` reads an expression of any input. -/
def transport (element : Octets → Run SExpr) : Run SExpr :=
  nested do
    expect input 0x7B
    let block ← base64Through input 0x7D
    inside (complete block (element block))

/-- An expression behind optional whitespace. -/
def value : (steps : Nat) → (input : Octets) → Run SExpr
  | 0, _ => throw .unfinished
  | steps + 1, input => do
    skipWhile input Octets.isBlank (steps + 1)
    match ← peek input with
    | none => refuse .unexpectedEnd
    | some opening =>
      if opening = 0x28 then listOf input (value steps input) steps
      else if opening = 0x7B then transport input (value steps)
      else if opening = 0x5B then hinted input (steps + 1)
      else do
        let octets ← octets input (steps + 1)
        pure (.ofOctets octets)

end Head

end SimplePki
