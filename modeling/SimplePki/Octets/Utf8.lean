import SimplePki.Octets

/-!
# Reading octets as text, whatever they are

Octets that are no UTF-8 still have to be shown in a message.  Each longest run that starts a
character and then breaks off is shown as one replacement character, as is each octet that can
start no character.

## Main definitions

* `Octets.unitLength`: how many octets at the front are one character or one broken beginning
* `Octets.unitChar`: the character that such a unit shows
* `Octets.toTextLossy`: the text with its replacement characters
-/

namespace SimplePki.Octets

/-- Whether an octet continues a character. -/
def isContinuation (octet : UInt8) : Bool := 0x80 ≤ octet && octet ≤ 0xBF

/-- How many octets the character has that starts with this one; zero where none starts. -/
def leadLength (octet : UInt8) : Nat :=
  if octet ≤ 0x7F then 1
  else if 0xC2 ≤ octet && octet ≤ 0xDF then 2
  else if 0xE0 ≤ octet && octet ≤ 0xEF then 3
  else if 0xF0 ≤ octet && octet ≤ 0xF4 then 4
  else 0

/-- The second octets that a leading octet admits: no overlong spelling, no surrogate, and nothing
past the last code point. -/
def admitsSecond (lead second : UInt8) : Bool :=
  isContinuation second &&
    (if lead == 0xE0 then 0xA0 ≤ second
     else if lead == 0xED then second ≤ 0x9F
     else if lead == 0xF0 then 0x90 ≤ second
     else if lead == 0xF4 then second ≤ 0x8F
     else true)

/-- How many octets at the front belong to one well-formed character or to its longest well-formed
beginning. -/
def unitLength : Octets → Nat
  | [] => 0
  | lead :: rest =>
    if leadLength lead ≤ 1 then 1
    else
      match rest with
      | second :: more =>
        if admitsSecond lead second then
          2 + ((more.take (leadLength lead - 2)).takeWhile isContinuation).length
        else 1
      | [] => 1

/-- The code point of the octets of one well-formed character. -/
def codePoint : Octets → Nat
  | [a] => a.toNat
  | [a, b] => (a.toNat - 0xC0) * 64 + (b.toNat - 0x80)
  | [a, b, c] => (a.toNat - 0xE0) * 4096 + (b.toNat - 0x80) * 64 + (c.toNat - 0x80)
  | [a, b, c, d] =>
    (a.toNat - 0xF0) * 262144 + (b.toNat - 0x80) * 4096 + (c.toNat - 0x80) * 64 + (d.toNat - 0x80)
  | _ => 0

/-- The character that one unit shows: its own when it is complete, else the replacement. -/
def unitChar (unit : Octets) : Char :=
  match unit with
  | [] => '\uFFFD'
  | lead :: _ => if leadLength lead = unit.length then Char.ofNat (codePoint unit) else '\uFFFD'

theorem unitLength_pos (octet : UInt8) (rest : Octets) : 0 < unitLength (octet :: rest) := by
  cases rest with
  | nil => simp [unitLength]
  | cons second more => grind [unitLength]

/-- The characters that octets show, behind those already shown, kept in reverse. -/
def showUnits (shown : List Char) (octets : Octets) : List Char :=
  match octets with
  | [] => shown.reverse
  | octet :: rest =>
    showUnits (unitChar ((octet :: rest).take (unitLength (octet :: rest))) :: shown)
      ((octet :: rest).drop (unitLength (octet :: rest)))
termination_by octets.length
decreasing_by
  have := unitLength_pos octet rest
  simp only [List.length_drop, List.length_cons]
  omega

/-- The text of octets with one replacement character for each broken unit. -/
def toTextLossy (octets : Octets) : String := String.ofList (showUnits [] octets)

end SimplePki.Octets
