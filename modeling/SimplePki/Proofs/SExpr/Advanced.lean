import SimplePki.Proofs.Octets.Base64
import SimplePki.Proofs.SExpr.Structure
import SimplePki.SExpr.Advanced

/-!
# The octets of the advanced form

The advanced form is a text, and what is read is octets.  The text is ASCII: what is not is written
in base64.  So its octets are described in the same way as its characters, and have these for their
characters.

## Main definitions

* `Octets.advanced`, `Atom.advanced`, `SExpr.advanced`: the octets of the advanced form

## Main results

* `SExpr.map_toChar_advanced`: the octets have the characters of the text
* `SExpr.ofText_toAdvanced`: they are the octets of the text
-/


namespace SimplePki

open Octets

/-! ### The octets of the advanced form -/

namespace Octets

/-- The octets that stand for an octet inside quotes. -/
def quote (octet : UInt8) : Octets :=
  if octet == 0x22 then [0x5C, 0x22] else if octet == 0x5C then [0x5C, 0x5C] else [octet]

/-- The octets of the advanced form of an octet string. -/
def advanced (octets : Octets) : Octets :=
  if isToken octets then octets
  else if octets.all isPrintable then 0x22 :: octets.flatMap quote ++ [0x22]
  else 0x7C :: Base64.encodeOctets octets ++ [0x7C]

end Octets

/-- The octets of the advanced form of an atom. -/
def Atom.advanced (atom : Atom) : Octets :=
  match atom.hint with
  | none => atom.value.advanced
  | some hint => 0x5B :: hint.advanced ++ 0x5D :: atom.value.advanced

namespace SExpr

mutual

/-- The octets of the advanced form of an expression. -/
def advanced : SExpr → Octets
  | .atom leaf => leaf.advanced
  | .list items => 0x28 :: advancedList items ++ [0x29]

/-- The octets of the advanced form of items, separated by spaces. -/
def advancedList : List SExpr → Octets
  | [] => []
  | [item] => item.advanced
  | item :: next :: items => item.advanced ++ 0x20 :: advancedList (next :: items)

end

end SExpr

namespace Octets

theorem isAscii_of_isTokenOctet {octet : UInt8} (h : isTokenOctet octet = true) :
    isAscii octet = true := by
  rw [isAscii_iff]
  grind [isTokenOctet, isAlphanumeric, isLetter, isDigit, UInt8.le_iff_toNat_le]

theorem isAscii_of_isPrintable {octet : UInt8} (h : isPrintable octet = true) :
    isAscii octet = true := by
  simp only [isPrintable, Bool.and_eq_true, decide_eq_true_eq, UInt8.le_iff_toNat_le] at h
  rw [isAscii_iff]
  exact Nat.lt_succ_of_le (Nat.le_trans h.2 (by decide))

theorem map_toChar_quote (octet : UInt8) : (quote octet).map toChar = quoteChar octet := by
  unfold quote quoteChar
  split
  · rfl
  · split
    · rfl
    · rfl

theorem isAscii_of_mem_quote {octet other : UInt8} (h : isPrintable octet = true)
    (mem : other ∈ quote octet) : isAscii other = true := by
  unfold quote at mem
  split at mem
  · simp only [List.mem_cons, List.not_mem_nil, or_false] at mem
    rcases mem with rfl | rfl <;> rfl
  · split at mem
    · simp only [List.mem_cons, List.not_mem_nil, or_false] at mem
      rcases mem with rfl | rfl <;> rfl
    · rw [List.mem_singleton.mp mem]
      exact isAscii_of_isPrintable h

theorem isToken_eq_true {octets : Octets} (h : isToken octets = true) :
    ∃ first rest, octets = first :: rest ∧ isDigit first = false ∧
      ∀ octet ∈ octets, isTokenOctet octet = true := by
  cases octets with
  | nil => exact nomatch h
  | cons first rest =>
    simp only [isToken, Bool.and_eq_true, Bool.not_eq_true', List.all_eq_true] at h
    exact ⟨first, rest, rfl, h.1, h.2⟩

theorem map_toChar_advanced (octets : Octets) : octets.advanced.map toChar = octets.toAdvanced := by
  unfold advanced toAdvanced
  split
  · rfl
  · split
    · simp only [List.cons_append, List.map_cons, List.map_append, List.map_flatMap,
        map_toChar_quote, List.map_nil]
      rfl
    · simp only [List.cons_append, List.map_cons, List.map_append, List.map_nil]
      rfl

theorem isAscii_of_mem_advanced {octets : Octets} {octet : UInt8} (mem : octet ∈ octets.advanced) :
    isAscii octet = true := by
  unfold advanced at mem
  split at mem
  · next token =>
    obtain ⟨_, _, _, _, each⟩ := isToken_eq_true token
    exact isAscii_of_isTokenOctet (each octet mem)
  · split at mem
    · next printable =>
      simp only [List.cons_append, List.mem_cons, List.mem_append, List.mem_flatMap,
        List.not_mem_nil, or_false] at mem
      rcases mem with rfl | ⟨inner, known, mem⟩ | rfl
      · rfl
      · exact isAscii_of_mem_quote (List.all_eq_true.mp printable inner known) mem
      · rfl
    · simp only [List.cons_append, List.mem_cons, List.mem_append, List.not_mem_nil,
        or_false] at mem
      rcases mem with rfl | mem | rfl
      · rfl
      · exact (Base64.plain_of_mem_encodeOctets mem).1
      · rfl

end Octets

theorem Atom.map_toChar_advanced (atom : Atom) : atom.advanced.map toChar = atom.toAdvanced := by
  obtain ⟨hint, value⟩ := atom
  cases hint with
  | none => exact Octets.map_toChar_advanced value
  | some hint =>
    simp only [advanced, toAdvanced, List.cons_append, List.map_cons, List.map_append,
      Octets.map_toChar_advanced]
    rfl

theorem Atom.isAscii_of_mem_advanced {atom : Atom} {octet : UInt8} (mem : octet ∈ atom.advanced) :
    isAscii octet = true := by
  obtain ⟨hint, value⟩ := atom
  cases hint with
  | none => exact Octets.isAscii_of_mem_advanced mem
  | some hint =>
    simp only [advanced, List.cons_append, List.mem_cons, List.mem_append] at mem
    rcases mem with rfl | mem | rfl | mem
    · rfl
    · exact Octets.isAscii_of_mem_advanced mem
    · rfl
    · exact Octets.isAscii_of_mem_advanced mem

namespace SExpr

theorem map_toChar_advanced (expr : SExpr) : expr.advanced.map toChar = expr.advancedChars := by
  induction expr with
  | atom leaf => exact leaf.map_toChar_advanced
  | list items ih =>
    have each : (advancedList items).map toChar = advancedItems items := by
      induction items with
      | nil => rfl
      | cons item items inner =>
        have first := ih item List.mem_cons_self
        cases items with
        | nil => exact first
        | cons next items =>
          have later := inner fun other mem => ih other (List.mem_cons_of_mem _ mem)
          rw [advancedList, advancedItems, List.map_append, List.map_cons, first, later]
          rfl
    rw [advanced, advancedChars, List.map_append, List.map_cons, each]
    rfl

theorem isAscii_of_mem_advanced {expr : SExpr} :
    ∀ octet ∈ expr.advanced, isAscii octet = true := by
  induction expr with
  | atom leaf => exact fun _ mem => leaf.isAscii_of_mem_advanced mem
  | list items ih =>
    have each : ∀ octet ∈ advancedList items, isAscii octet = true := by
      induction items with
      | nil => exact fun _ mem => absurd mem List.not_mem_nil
      | cons item items inner =>
        have first := ih item List.mem_cons_self
        cases items with
        | nil => exact first
        | cons next items =>
          have later := inner fun other mem => ih other (List.mem_cons_of_mem _ mem)
          intro octet mem
          rw [advancedList, List.mem_append, List.mem_cons] at mem
          rcases mem with mem | rfl | mem
          · exact first octet mem
          · rfl
          · exact later octet mem
    intro octet mem
    simp only [advanced, List.cons_append, List.mem_cons, List.mem_append, List.not_mem_nil,
      or_false] at mem
    rcases mem with rfl | mem | rfl
    · rfl
    · exact each octet mem
    · rfl

/-- The octets of the text of an expression. -/
theorem ofText_toAdvanced (expr : SExpr) : Octets.ofText expr.toAdvanced = expr.advanced := by
  rw [toAdvanced, ← map_toChar_advanced, ofText_map_toChar isAscii_of_mem_advanced]

end SExpr

end SimplePki
