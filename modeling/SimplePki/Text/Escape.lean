import SimplePki.Text.Hidden

/-!
# Text shown inside a message

A quoted text shows where it begins and ends.  Its quote and the backslash are written behind a
backslash, four controls by their letters, and every other hidden character by its code point.

## Main definitions

* `Text.escapeChar`: a character inside quotes
* `Text.quoteChar`, `Text.quote`: a character in single quotes and a text in double quotes
-/

namespace SimplePki.Text

/-- A character between the given quotes. -/
def escapeChar (mark : Char) (c : Char) : List Char :=
  if c = mark then ['\\', mark]
  else if c = '\\' then ['\\', '\\']
  else if c = '\t' then ['\\', 't']
  else if c = '\r' then ['\\', 'r']
  else if c = '\n' then ['\\', 'n']
  else if c = '\x00' then ['\\', '0']
  else if isHidden c then ['\\', 'u', '\x7b'] ++ Nat.toDigits 16 c.toNat ++ ['\x7d']
  else [c]

/-- A character in single quotes. -/
def quoteChar (c : Char) : String := String.ofList ('\'' :: escapeChar '\'' c ++ ['\''])

/-- A text in double quotes. -/
def quote (text : String) : String :=
  String.ofList ('"' :: text.toList.flatMap (escapeChar '"') ++ ['"'])

end SimplePki.Text
