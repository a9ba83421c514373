import SimplePki.SExpr.Basic

/-!
# The canonical encoding

One octet string per expression, and the one that is digested and signed.  An octet string is
written as its decimal length, a colon and its octets; a hint stands in brackets before its atom; a
list stands in parentheses; nothing separates items.

## Main definitions

* `Octets.verbatim`: an octet string with its length
* `SExpr.pack`: the canonical encoding
-/

namespace SimplePki

/-- The decimal digits of a number, without leading zeros. -/
def Octets.decimal (n : Nat) : Octets :=
  (Nat.toDigits 10 n).map fun digit => UInt8.ofNat digit.toNat

/-- The decimal length, a colon and the octets. -/
def Octets.verbatim (octets : Octets) : Octets := Octets.decimal octets.length ++ 0x3A :: octets

/-- A hint in brackets, if there is one, and the value. -/
def Atom.pack (atom : Atom) : Octets :=
  match atom.hint with
  | none => atom.value.verbatim
  | some hint => 0x5B :: hint.verbatim ++ 0x5D :: atom.value.verbatim

namespace SExpr

mutual

/-- The canonical encoding of an expression. -/
def pack : SExpr → Octets
  | .atom leaf => leaf.pack
  | .list items => 0x28 :: packItems items ++ [0x29]

/-- The canonical encodings of items, one after the other. -/
def packItems : List SExpr → Octets
  | [] => []
  | item :: items => item.pack ++ packItems items

end

end SExpr

end SimplePki
