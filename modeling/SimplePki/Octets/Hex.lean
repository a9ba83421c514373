import SimplePki.Octets

/-!
# Hexadecimal notation

Two digits an octet, high half first.  Digits of either case are read; lower case is written.

## Main definitions

* `Hex.encode`, `Hex.decode`: octets to digits and back
* `Hex.Fault`: why digits spell no octets
-/

namespace SimplePki.Hex

/-- Why an octet string is no hexadecimal notation. -/
inductive Fault where
  /-- A digit is left over. -/
  | oddLength
  /-- The octet at a position is no hexadecimal digit. -/
  | notDigit (octet : UInt8) (position : Nat)
  deriving DecidableEq, Repr

/-- The value of a hexadecimal digit of either case. -/
def digit? (octet : UInt8) : Option UInt8 :=
  if Octets.isDigit octet then some (octet - 0x30)
  else if 0x41 ≤ octet && octet ≤ 0x46 then some (octet - 0x37)
  else if 0x61 ≤ octet && octet ≤ 0x66 then some (octet - 0x57)
  else none

/-- Reads digits two by two; `position` digits are behind, and their octets are kept in reverse. -/
def decodePairs (position : Nat) (read : Octets) : Octets → Except Fault Octets
  | high :: low :: rest =>
    match digit? high, digit? low with
    | some h, some l => decodePairs (position + 2) ((h * 16 + l) :: read) rest
    | some _, none => .error (.notDigit low (position + 1))
    | none, _ => .error (.notDigit high position)
  | [_] => .error .oddLength
  | [] => .ok read.reverse

/-- The octets that hexadecimal digits spell.  An odd count is refused before any digit is looked
at; otherwise the first octet that is no digit is reported. -/
def decode (digits : Octets) : Except Fault Octets :=
  if digits.length % 2 = 1 then .error .oddLength else decodePairs 0 [] digits

/-- The lower-case digit of a value below sixteen. -/
def digitChar (value : UInt8) : Char :=
  if value < 10 then Char.ofNat (0x30 + value.toNat) else Char.ofNat (0x57 + value.toNat)

/-- The lower-case digits of octets. -/
def encode (octets : Octets) : String :=
  String.ofList (octets.flatMap fun octet => [digitChar (octet / 16), digitChar (octet % 16)])

/-- The lower-case digits of a number without leading zeros; zero is one digit. -/
def ofNat (n : Nat) : String := String.ofList (Nat.toDigits 16 n)

end SimplePki.Hex
