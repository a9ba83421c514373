/-!
# Octet strings

Everything that is digested, signed or transported is a finite string of octets.  This file fixes
the type, the octets of a text, and the ASCII classes that the notations for octet strings share.

## Main definitions

* `Octets`: lists of octets
* `Octets.ofText`, `Octets.text?`: the UTF-8 octets of a text, and the text that octets spell
* `Octets.isBlank`, `Octets.isDigit`, `Octets.isAlphanumeric`: ASCII classes
* `Octets.compact`: octets without their ASCII whitespace

## Main results

* `Octets.text?_ofText`: a text is read back from its octets
-/

namespace SimplePki

/-- A finite string of octets. -/
abbrev Octets := List UInt8

namespace Octets

/-- The UTF-8 octets of a text. -/
def ofText (text : String) : Octets := text.toUTF8.data.toList

/-- The text whose UTF-8 encoding these octets are, if there is one. -/
def text? (octets : Octets) : Option String := String.fromUTF8? ⟨octets.toArray⟩

/-- Space, tab, line feed, form feed and carriage return; the vertical tab is not among them. -/
def isBlank (octet : UInt8) : Bool :=
  octet == 0x20 || octet == 0x09 || octet == 0x0A || octet == 0x0C || octet == 0x0D

/-- The ASCII decimal digits. -/
def isDigit (octet : UInt8) : Bool := 0x30 ≤ octet && octet ≤ 0x39

/-- The ASCII letters. -/
def isLetter (octet : UInt8) : Bool :=
  (0x41 ≤ octet && octet ≤ 0x5A) || (0x61 ≤ octet && octet ≤ 0x7A)

/-- The ASCII letters and digits. -/
def isAlphanumeric (octet : UInt8) : Bool := isLetter octet || isDigit octet

/-- The octets that are no ASCII whitespace, in order. -/
def compact (octets : Octets) : Octets := octets.filter fun octet => !isBlank octet

/-- The character whose code point is the octet. -/
def toChar (octet : UInt8) : Char := Char.ofNat octet.toNat

@[simp] theorem text?_ofText (text : String) : text? (ofText text) = some text := by
  change String.fromUTF8? text.toUTF8 = some text
  simp only [String.fromUTF8?, String.toUTF8_eq_toByteArray, dif_pos text.isValidUTF8]
  rfl

theorem ofText_of_text? {octets : Octets} {text : String} (h : text? octets = some text) :
    ofText text = octets := by
  unfold text? String.fromUTF8? at h
  split at h
  · next valid =>
    rw [Option.some.injEq] at h
    subst h
    rfl
  · contradiction

end Octets

end SimplePki
