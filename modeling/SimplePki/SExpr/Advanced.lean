import SimplePki.Octets.Base64
import SimplePki.SExpr.Basic

/-!
# The advanced form

The rendering for readers.  An octet string is written as a token where its octets allow that, else
in quotes where all of it is printable ASCII, else in base64.  Items of a list are separated by one
space.

## Main definitions

* `Octets.isToken`: octet strings that may be written bare
* `SExpr.toAdvanced`: the advanced form
-/

namespace SimplePki

namespace Octets

/-- Octets of a token: ASCII letters and digits, and the signs `-`, `.`, `/`, `_`, `:`, `*`, `+`
and `=`. -/
def isTokenOctet (octet : UInt8) : Bool :=
  isAlphanumeric octet || octet == 0x2D || octet == 0x2E || octet == 0x2F || octet == 0x5F ||
    octet == 0x3A || octet == 0x2A || octet == 0x2B || octet == 0x3D

/-- An octet string that may be written bare: token octets, at least one, the first no digit. -/
def isToken : Octets → Bool
  | [] => false
  | first :: rest => !isDigit first && (first :: rest).all isTokenOctet

/-- The octets of printable ASCII, the space among them. -/
def isPrintable (octet : UInt8) : Bool := 0x20 ≤ octet && octet ≤ 0x7E

/-- A character inside quotes: a quote and a backslash are escaped. -/
def quoteChar (octet : UInt8) : List Char :=
  if octet == 0x22 then ['\\', '"'] else if octet == 0x5C then ['\\', '\\'] else [toChar octet]

/-- An octet string as a token, in quotes or in base64, whichever comes first. -/
def toAdvanced (octets : Octets) : List Char :=
  if isToken octets then octets.map toChar
  else if octets.all isPrintable then '"' :: octets.flatMap quoteChar ++ ['"']
  else '|' :: (Base64.encodeOctets octets).map toChar ++ ['|']

end Octets

/-- A hint in brackets, if there is one, and the value. -/
def Atom.toAdvanced (atom : Atom) : List Char :=
  match atom.hint with
  | none => atom.value.toAdvanced
  | some hint => '[' :: hint.toAdvanced ++ ']' :: atom.value.toAdvanced

namespace SExpr

mutual

/-- The characters of the advanced form. -/
def advancedChars : SExpr → List Char
  | .atom leaf => leaf.toAdvanced
  | .list items => '(' :: advancedItems items ++ [')']

/-- The characters of items, separated by spaces. -/
def advancedItems : List SExpr → List Char
  | [] => []
  | [item] => item.advancedChars
  | item :: next :: items => item.advancedChars ++ ' ' :: advancedItems (next :: items)

end

/-- The advanced form of an expression. -/
def toAdvanced (expr : SExpr) : String := String.ofList expr.advancedChars

end SExpr

end SimplePki
