import SimplePki.Octets.Hex

/-!
# Percent encoding

A part of a URI may hold any text; the octets that would be misread there are written as a percent
sign and two hexadecimal digits.  Each part has its own set of octets that are written so.

## Main definitions

* `Percent.control`, `Percent.inFragment`, `Percent.inPath`, `Percent.inUserinfo`,
  `Percent.inQuery`, `Percent.inSpecialQuery`: the sets, by the part they belong to
* `Percent.encode`, `Percent.decode`
-/

namespace SimplePki.Percent

/-- Controls, the delete sign and whatever is not ASCII. -/
def control (octet : UInt8) : Bool := octet < 0x20 || 0x7F ≤ octet

/-- Whether an octet is one of the ASCII characters of a text. -/
def isOneOf (marks : String) (octet : UInt8) : Bool := marks.toList.contains (Octets.toChar octet)

/-- What is encoded in a fragment. -/
def inFragment (octet : UInt8) : Bool := control octet || isOneOf " \"<>\x60" octet

/-- What is encoded in a path. -/
def inPath (octet : UInt8) : Bool := inFragment octet || isOneOf "#?\x7b\x7d" octet

/-- What is encoded in a user name or a password. -/
def inUserinfo (octet : UInt8) : Bool := inPath octet || isOneOf "/:;=@[\\]^|" octet

/-- What is encoded in a query. -/
def inQuery (octet : UInt8) : Bool := control octet || isOneOf " \"#<>" octet

/-- What is encoded in the query of a URI with a special scheme. -/
def inSpecialQuery (octet : UInt8) : Bool := inQuery octet || octet == 0x27

/-- The upper-case digits of an octet behind a percent sign. -/
def escapeOctet (octet : UInt8) : List Char :=
  '%' :: (Hex.encode [octet]).toList.map Char.toUpper

/-- A text with the octets of a set percent-encoded. -/
def encode (escaped : UInt8 → Bool) (text : List Char) : List Char :=
  (Octets.ofText (String.ofList text)).flatMap fun octet =>
    if escaped octet then escapeOctet octet else [Octets.toChar octet]

/-- Octets with their percent encodings undone; a percent sign without two digits stays. -/
def decode : Octets → Octets
  | 0x25 :: high :: low :: rest =>
    match Hex.digit? high, Hex.digit? low with
    | some h, some l => (h * 16 + l) :: decode rest
    | _, _ => 0x25 :: decode (high :: low :: rest)
  | octet :: rest => octet :: decode rest
  | [] => []
termination_by octets => octets.length

end SimplePki.Percent
