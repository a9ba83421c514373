/-!
# Texts with breaks in them

A text that was wrapped or indented holds tabs and line breaks where they mean nothing.

## Main definitions

* `Text.isBreak`: tabs and line breaks
* `Text.joined`: a text without them
-/

namespace SimplePki.Text

/-- Tabs, line feeds and carriage returns. -/
def isBreak (c : Char) : Bool := c == '\t' || c == '\n' || c == '\r'

/-- A text without its breaks. -/
def joined (text : List Char) : List Char := text.filter fun c => !isBreak c

end SimplePki.Text
