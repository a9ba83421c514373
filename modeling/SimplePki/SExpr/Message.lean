import SimplePki.SExpr.Cursor
import SimplePki.Text.Escape

/-!
# Wording of reading faults

## Main definitions

* `Hex.Fault.message`, `Base64.Fault.message`, `ReadError.message`
-/

namespace SimplePki

/-- The wording of a fault in hexadecimal notation. -/
def Hex.Fault.message : Hex.Fault → String
  | .oddLength => "Odd number of digits"
  | .notDigit octet position =>
    s!"Invalid character {Text.quoteChar (Octets.toChar octet)} at position {position}"

/-- The wording of a fault in base64 notation. -/
def Base64.Fault.message : Base64.Fault → String
  | .invalidSymbol octet offset => s!"Invalid symbol {octet}, offset {offset}."
  | .invalidLength symbols => s!"Invalid input length: {symbols}"
  | .invalidPadding => "Invalid padding"
  | .invalidLastSymbol octet offset => s!"Invalid last symbol {octet}, offset {offset}."

/-- The wording of a fault in reading an expression. -/
def ReadError.message : ReadError → String
  | .unexpectedEnd => "unexpected end of input"
  | .unexpectedOctet octet offset =>
    s!"unexpected byte 0x{Hex.encode [octet]} at offset {offset}"
  | .invalidLength offset => s!"invalid length prefix at offset {offset}"
  | .invalidHex fault => s!"invalid hex string: {fault.message}"
  | .invalidBase64 fault => s!"invalid base64 string: {fault.message}"
  | .tooDeep offset => s!"nesting too deep at offset {offset}"
  | .trailingOctets offset => s!"trailing bytes at offset {offset}"

end SimplePki
