import SimplePki.Octets

/-!
# Base64 notation

Three octets become four symbols of the standard alphabet.  A last group of one or two octets
leaves bits unused in its last symbol; they have to be zero, and `=` fills the group when padding
is written.  Reading takes the padded and the unpadded spelling, each in its one canonical form.

## Main definitions

* `Base64.encode`: the padded spelling
* `Base64.decode`: the octets of a padded or unpadded spelling
* `Base64.Fault`: why symbols spell no octets
-/

namespace SimplePki.Base64

/-- Why an octet string is no base64 notation. -/
inductive Fault where
  /-- The octet at an offset is outside the alphabet, or a padding sign out of place. -/
  | invalidSymbol (octet : UInt8) (offset : Nat)
  /-- The last group holds a single symbol, or none beside its padding. -/
  | invalidLength (symbols : Nat)
  /-- The padding does not fill the last group. -/
  | invalidPadding
  /-- The unused bits of the last symbol are not zero. -/
  | invalidLastSymbol (octet : UInt8) (offset : Nat)
  deriving DecidableEq, Repr

/-- The padding sign `=`. -/
def pad : UInt8 := 0x3D

/-- The symbol of a value below sixty-four. -/
def symbol (value : Nat) : UInt8 :=
  if value < 26 then UInt8.ofNat (0x41 + value)
  else if value < 52 then UInt8.ofNat (0x61 + (value - 26))
  else if value < 62 then UInt8.ofNat (0x30 + (value - 52))
  else if value = 62 then 0x2B
  else 0x2F

/-- The value of a symbol of the alphabet. -/
def value? (octet : UInt8) : Option Nat :=
  if 0x41 ≤ octet && octet ≤ 0x5A then some (octet.toNat - 0x41)
  else if 0x61 ≤ octet && octet ≤ 0x7A then some (octet.toNat - 0x61 + 26)
  else if Octets.isDigit octet then some (octet.toNat - 0x30 + 52)
  else if octet == 0x2B then some 62
  else if octet == 0x2F then some 63
  else none

/-! ### Writing -/

/-- The symbols of octets, the last group filled with padding. -/
def encodeOctets (octets : Octets) : Octets := go [] octets
where
  /-- Writes group by group behind the symbols already written, kept in reverse. -/
  go (written : Octets) : Octets → Octets
    | a :: b :: c :: rest =>
      let n := a.toNat * 65536 + b.toNat * 256 + c.toNat
      go (symbol (n % 64) :: symbol (n / 64 % 64) :: symbol (n / 4096 % 64) ::
        symbol (n / 262144) :: written) rest
    | [a, b] =>
      let n := a.toNat * 256 + b.toNat
      (pad :: symbol (n % 16 * 4) :: symbol (n / 16 % 64) :: symbol (n / 1024) :: written).reverse
    | [a] =>
      (pad :: pad :: symbol (a.toNat % 4 * 16) :: symbol (a.toNat / 4) :: written).reverse
    | [] => written.reverse

/-- The padded spelling of octets as a text. -/
def encode (octets : Octets) : String := String.ofList ((encodeOctets octets).map Octets.toChar)

/-! ### Reading -/

/-- The octets of symbol values, four values for three octets, when the unused bits are zero. -/
def joinValues? (read : Octets) : List Nat → Option Octets
  | a :: b :: c :: d :: rest =>
    let n := a * 262144 + b * 4096 + c * 64 + d
    joinValues? (UInt8.ofNat (n % 256) :: UInt8.ofNat (n / 256 % 256) :: UInt8.ofNat (n / 65536) ::
      read) rest
  | [a, b, c] =>
    let n := a * 4096 + b * 64 + c
    if n % 4 = 0 then some (UInt8.ofNat (n / 4 % 256) :: UInt8.ofNat (n / 1024) :: read).reverse
    else none
  | [a, b] =>
    let n := a * 64 + b
    if n % 16 = 0 then some (UInt8.ofNat (n / 16) :: read).reverse else none
  | [_] => none
  | [] => some read.reverse

/-- The octets of an unpadded spelling. -/
def decodeUnpadded? (symbols : Octets) : Option Octets := do
  let values ← symbols.mapM value?
  joinValues? [] values

/-- A spelling of whole groups without the padding of its last group. -/
def stripPadding (symbols : Octets) : Octets :=
  if symbols.length % 4 = 0 then
    match symbols.reverse with
    | 0x3D :: 0x3D :: rest => rest.reverse
    | 0x3D :: rest => rest.reverse
    | _ => symbols
  else
    symbols

/-- The first octet of `symbols` outside the alphabet, with its offset counted from `offset`. -/
def firstInvalid? (offset : Nat) : Octets → Option (UInt8 × Nat)
  | [] => none
  | octet :: rest =>
    if (value? octet).isSome then firstInvalid? (offset + 1) rest else some (octet, offset)

/-- The first octet out of place in the last group, where `position` octets of the group are
behind and `padding` is the offset of the first padding sign among them. -/
def tailFault? (start position : Nat) (padding : Option Nat) : Octets → Option Fault
  | [] => none
  | octet :: rest =>
    if octet = pad then
      if position < 2 then some (.invalidSymbol pad (start + position))
      else tailFault? start (position + 1) (padding.or (some (start + position))) rest
    else
      match padding with
      | some offset => some (.invalidSymbol pad offset)
      | none =>
        if (value? octet).isSome then tailFault? start (position + 1) none rest
        else some (.invalidSymbol octet (start + position))

/-- The length of the last group of `length` symbols: the remainder, or four for whole groups. -/
def tailLength (length : Nat) : Nat :=
  if length % 4 = 0 then min 4 length else length % 4

/-- Why a spelling that is refused is refused: a stray last octet first, then the whole groups from
left to right, then the last group, its length, its padding and its unused bits. -/
def fault (symbols : Octets) : Fault :=
  let length := symbols.length
  let start := length - tailLength length
  let tail := symbols.drop start
  let last := symbols.getLast?.getD 0
  if length % 4 = 1 && last != pad && (value? last).isNone then .invalidSymbol last (length - 1)
  else
    match firstInvalid? 0 (symbols.take start) with
    | some (octet, offset) => .invalidSymbol octet offset
    | none =>
      match tailFault? start 0 none tail with
      | some fault => fault
      | none =>
        let signs := tail.filter (· != pad)
        if signs.length < 2 then .invalidLength (start + signs.length)
        else if tail.contains pad then .invalidPadding
        else .invalidLastSymbol (signs.getLast?.getD 0) (start + signs.length - 1)

/-- The octets of a canonical spelling, with padding or without any. -/
def decode (symbols : Octets) : Except Fault Octets :=
  match decodeUnpadded? (stripPadding symbols) with
  | some octets => .ok octets
  | none => .error (fault symbols)

end SimplePki.Base64
