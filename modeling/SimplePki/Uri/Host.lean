import SimplePki.Octets.BigEndian
import SimplePki.Text.Fields
import SimplePki.Uri.Fault
import SimplePki.Uri.Percent

/-!
# Hosts

A host is a name or an address.  Under a special scheme a name is a domain, written in lower case,
and a domain whose last label is a number has to be an IPv4 address; under any other scheme a name
is opaque.  An address in brackets is an IPv6 address everywhere.

The names of domains are those of ASCII.  International names, which the standard for URLs maps by
the tables of IDNA, are beyond this: a name with other letters is kept with these as they are, and a
label behind `xn--` is a label like any other, so that the domain `xn--a` is read here, which stands
for no international name and is refused by the standard.

## Main definitions

* `Host`, `Host.toChars`
* `Host.ofDomain`, `Host.ofOpaque`: the host of a special scheme and of another
-/

namespace SimplePki

/-- The host of a URI. -/
inductive Host where
  | name (text : List Char)
  | ipv4 (address : Nat)
  | ipv6 (pieces : List Nat)
  deriving DecidableEq, Repr

namespace Host

/-! ### Numbers in addresses -/

/-- The value of a digit in a base up to sixteen. -/
def digit? (base : Nat) (c : Char) : Option Nat := do
  let value ← if c.toNat < 128 then Hex.digit? (UInt8.ofNat c.toNat) else none
  if value.toNat < base then some value.toNat else none

/-- The number that digits write in a base; no digits write zero. -/
def number? (base : Nat) (digits : List Char) : Option Nat :=
  digits.foldlM (fun n c => return n * base + (← digit? base c)) 0

/-- A part of an IPv4 address: hexadecimal behind `0x`, octal behind another zero, else decimal. -/
def ipv4Number? (text : List Char) : Option Nat :=
  match text with
  | [] => none
  | '0' :: 'x' :: digits => number? 16 digits
  | '0' :: 'X' :: digits => number? 16 digits
  | '0' :: digit :: digits => number? 8 (digit :: digits)
  | digits => number? 10 digits

/-- The labels of a domain, without the empty one behind a last dot. -/
def labels (domain : List Char) : List (List Char) :=
  let all := Text.fields (· == '.') domain
  match all.getLast? with
  | some [] => all.dropLast
  | _ => all

/-- Whether the last label of a domain is a number, so that the domain has to be an address. -/
def endsInNumber (domain : List Char) : Bool :=
  match (labels domain).getLast? with
  | none => false
  | some [] => false
  | some label => label.all Char.isDigit || (ipv4Number? label).isSome

/-- The IPv4 address of up to four parts: the last fills the octets that the others leave. -/
def ipv4? (domain : List Char) : Option Nat := do
  let parts := labels domain
  if 4 < parts.length then none
  else
    let numbers ← parts.mapM ipv4Number?
    let last ← numbers.getLast?
    let front := numbers.dropLast
    if front.all (· ≤ 255) then
      -- `1.2.772` is `1.2.3.4`: the last part reaches over all octets not yet written
      let filled ← Octets.ofNatWidth? (4 - front.length) last
      some (Octets.toNat (front.map UInt8.ofNat ++ filled))
    else none

/-! ### IPv6 addresses -/

/-- A piece of an IPv6 address: one to four hexadecimal digits. -/
def ipv6Piece? (text : List Char) : Option Nat :=
  if 1 ≤ text.length ∧ text.length ≤ 4 then number? 16 text else none

/-- A decimal number up to 255 without a superfluous zero. -/
def decimalOctet? (text : List Char) : Option Nat := do
  match text with
  | [] => none
  | first :: rest =>
    if first = '0' && !rest.isEmpty then none
    else
      let n ← number? 10 text
      if n ≤ 255 then some n else none

/-- The pieces between colons; the last may be four decimal octets with dots, which make two. -/
def ipv6Pieces? (dotted : Bool) : List (List Char) → Option (List Nat)
  | [] => some []
  | [last] =>
    if dotted && last.contains '.' then
      match (Text.fields (· == '.') last).mapM decimalOctet? with
      | some [a, b, c, d] => some [a * 256 + b, c * 256 + d]
      | _ => none
    else (ipv6Piece? last).map ([·])
  | first :: rest => return (← ipv6Piece? first) :: (← ipv6Pieces? dotted rest)

/-- The pieces of a text, none for the empty text. -/
def ipv6Side? (dotted : Bool) (text : List Char) : Option (List Nat) :=
  if text.isEmpty then some [] else ipv6Pieces? dotted (Text.fields (· == ':') text)

/-- A text around the first double colon in it. -/
def splitCompressed? : List Char → Option (List Char × List Char)
  | ':' :: ':' :: rest => some ([], rest)
  | c :: rest => (splitCompressed? rest).map fun (front, back) => (c :: front, back)
  | [] => none

/-- The eight pieces of an IPv6 address; a double colon stands for the zeros that are missing, at
least one. -/
def ipv6? (text : List Char) : Option (List Nat) :=
  match splitCompressed? text with
  | none => do
    let pieces ← ipv6Side? true text
    if pieces.length = 8 then some pieces else none
  | some (front, back) => do
    let before ← ipv6Side? false front
    let after ← ipv6Side? true back
    let written := before.length + after.length
    if written ≤ 7 then some (before ++ List.replicate (8 - written) 0 ++ after) else none

/-- The length of the run of zeros at the front. -/
def zeroRun (pieces : List Nat) : Nat := (pieces.takeWhile (· == 0)).length

/-- Where the first of the longest runs of zeros begins, and its length. -/
def longestZeroRun (pieces : List Nat) : Nat × Nat :=
  (List.range pieces.length).foldl
    (fun best start =>
      if best.2 < zeroRun (pieces.drop start) then (start, zeroRun (pieces.drop start)) else best)
    (0, 0)

/-- Pieces in hexadecimal, separated by colons. -/
def ipv6Side (pieces : List Nat) : List Char :=
  (pieces.map (Nat.toDigits 16)).intersperse [':'] |>.flatten

/-- The pieces of an IPv6 address, a longest run of two zeros or more left out. -/
def ipv6Chars (pieces : List Nat) : List Char :=
  let (start, length) := longestZeroRun pieces
  if 2 ≤ length then
    ipv6Side (pieces.take start) ++ [':', ':'] ++ ipv6Side (pieces.drop (start + length))
  else ipv6Side pieces

/-! ### Hosts -/

/-- A host as it is written in a URI. -/
def toChars : Host → List Char
  | .name text => text
  | .ipv4 address =>
    ((Octets.lowest 4 address).map fun octet => Nat.toDigits 10 octet.toNat).intersperse ['.']
      |>.flatten
  | .ipv6 pieces => '[' :: ipv6Chars pieces ++ [']']

/-- The address in brackets, where a text opens with a bracket. -/
def bracketed? (text : List Char) : Option (Except UriFault Host) :=
  match text with
  | '[' :: rest =>
    match rest.getLast? with
    | some ']' =>
      match ipv6? rest.dropLast with
      | some pieces => some (.ok (.ipv6 pieces))
      | none => some (.error .invalidIpv6)
    | _ => some (.error .invalidIpv6)
  | _ => none

/-- The characters that no host may hold. -/
def isForbidden (c : Char) : Bool := "\x00\t\n\r #/:<>?@[\\]^|".toList.contains c

/-- The characters that no domain may hold. -/
def isForbiddenInDomain (c : Char) : Bool :=
  isForbidden c || c.toNat < 0x20 || c == '%' || c == '\x7f'

/-- The host that a text names under a special scheme.  Only the letters of ASCII have a lower case
here, and no label is checked for what `xn--` promises: for international names this is not the host
of the standard. -/
def ofDomain (text : List Char) : Except UriFault Host :=
  match bracketed? text with
  | some host => host
  | none =>
    match Octets.text? (Percent.decode (Octets.ofText (String.ofList text))) with
    | none => .error .forbiddenDomain
    | some decoded =>
      let domain := decoded.toList.map Char.toLower
      if domain.any isForbiddenInDomain then .error .forbiddenDomain
      else if domain.isEmpty then .error .emptyHost
      else if endsInNumber domain then
        match ipv4? domain with
        | some address => .ok (.ipv4 address)
        | none => .error .invalidIpv4
      else .ok (.name domain)

/-- The host that a text names under a scheme that is not special. -/
def ofOpaque (text : List Char) : Except UriFault Host :=
  match bracketed? text with
  | some host => host
  | none =>
    if text.any isForbidden then .error .forbiddenHost
    else .ok (.name (Percent.encode Percent.control text))

end Host

end SimplePki
