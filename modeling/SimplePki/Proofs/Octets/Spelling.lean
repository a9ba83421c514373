import SimplePki.Octets.Hex
import SimplePki.Proofs.Octets.Base64
import SimplePki.Proofs.Octets.Decimal

/-!
# The spellings of an octet string

The same octets may be written verbatim behind their length, in quotes, in hexadecimal and in
base64.  Inside quotes each octet is written on its own, in any of the ways that it has; in
hexadecimal each digit may be of either case; base64 may leave its padding out; and whitespace may
stand anywhere in the last two.  A number in front of a delimited spelling announces how many octets
it spells, rightly or wrongly.

The spellings are described here by what is written, without regard to how it is read.

## Main definitions

* `Octets.Quotes`: the ways to write an octet inside quotes
* `Octets.Delimited`: quotes, hexadecimal and base64
* `Octets.Written`: all spellings, with the number that they announce
* `Octets.Counts`: whether that number is right

## Main results

* `Hex.decode_of_pairs`: hexadecimal digits of either case are read back
* `Base64.decode_unpadded`: so is base64 without its padding
* `Octets.Written.length_le`: no spelling is shorter than what it spells
-/

namespace SimplePki

namespace Octets

/-! ### Single octets -/

/-- The hexadecimal digit of a value below sixteen, in upper or lower case. -/
def hexDigit (upper : Bool) (value : Nat) : UInt8 :=
  if value < 10 then UInt8.ofNat (0x30 + value)
  else if upper then UInt8.ofNat (0x41 + (value - 10))
  else UInt8.ofNat (0x61 + (value - 10))

/-- The two hexadecimal digits of an octet, each in either case. -/
def HexPair (octet : UInt8) (written : Octets) : Prop :=
  ∃ high low : Bool,
    written = [hexDigit high (octet.toNat / 16), hexDigit low (octet.toNat % 16)]

/-- The letters and signs that name an octet behind a backslash, each with that octet. -/
def namedOctets : List (UInt8 × UInt8) :=
  [(0x62, 0x08), (0x74, 0x09), (0x76, 0x0B), (0x6E, 0x0A), (0x66, 0x0C), (0x72, 0x0D),
    (0x22, 0x22), (0x27, 0x27), (0x5C, 0x5C)]

/-- The ways to write an octet inside quotes: as itself, in hexadecimal, in octal and by name. -/
inductive Quotes (octet : UInt8) : Octets → Prop where
  | raw (noQuote : octet ≠ 0x22) (noBackslash : octet ≠ 0x5C) : Quotes octet [octet]
  | hexadecimal {pair : Octets} (digits : HexPair octet pair) : Quotes octet (0x5C :: 0x78 :: pair)
  | octal : Quotes octet [0x5C, digit (octet.toNat / 64), digit (octet.toNat / 8 % 8),
      digit (octet.toNat % 8)]
  | named {name : UInt8} (known : (name, octet) ∈ namedOctets) : Quotes octet [0x5C, name]

end Octets

/-- The base64 of octets, with its padding left out. -/
def Base64.unpadded (octets : Octets) : Octets := (encodeOctets octets).takeWhile (· != pad)

namespace Octets

/-! ### Octet strings -/

/-- The spellings between delimiters: quotes, number signs and bars. -/
inductive Delimited (value : Octets) : Octets → Prop where
  | quoted {pieces : List Octets} (each : List.Forall₂ Quotes value pieces) :
      Delimited value (0x22 :: pieces.flatten ++ [0x22])
  | hexadecimal {pairs : List Octets} {body : Octets} (each : List.Forall₂ HexPair value pairs)
      (digits : compact body = pairs.flatten) : Delimited value (0x23 :: body ++ [0x23])
  | base64 {body : Octets} (symbols : compact body = Base64.encodeOctets value ∨
      compact body = Base64.unpadded value) : Delimited value (0x7C :: body ++ [0x7C])

/-- All spellings of an octet string, each with the number that stands in front of its delimiters
if one does.  Whether that is the number of octets is left open. -/
inductive Written (value : Octets) : Option Nat → Octets → Prop where
  | verbatim : Written value none value.verbatim
  | bare {written : Octets} (spelled : Delimited value written) : Written value none written
  | announced {written : Octets} (spelled : Delimited value written) (n : Nat) :
      Written value (some n) (decimal n ++ written)

/-- The number that is announced, if one is, is the number of octets. -/
def Counts (count : Option Nat) (value : Octets) : Prop := ∀ n ∈ count, n = value.length

theorem counts_none (value : Octets) : Counts none value := fun _ none => nomatch none

theorem counts_some_iff {n : Nat} {value : Octets} : Counts (some n) value ↔ n = value.length := by
  simp [Counts]

end Octets

/-! ### Hexadecimal -/

namespace Hex

open Octets

theorem digit?_hexDigit {value : Nat} (small : value < 16) (upper : Bool) :
    digit? (hexDigit upper value) = some (UInt8.ofNat value) := by
  revert value upper
  decide

/-- A digit is neither whitespace nor the sign that ends a run of digits. -/
theorem hexDigit_ne {value : Nat} (small : value < 16) (upper : Bool) :
    hexDigit upper value ≠ 0x23 := by
  revert value upper
  decide

/-- An octet is its high half times sixteen and its low half. -/
theorem halves (octet : UInt8) :
    UInt8.ofNat (octet.toNat / 16) * 16 + UInt8.ofNat (octet.toNat % 16) = octet := by
  calc
    _ = UInt8.ofNat (octet.toNat / 16 * 16 + octet.toNat % 16) := by
      rw [UInt8.ofNat_add, UInt8.ofNat_mul]
      rfl
    _ = octet := by rw [Nat.div_add_mod', UInt8.ofNat_toNat]

theorem decodePairs_of_pair {octet : UInt8} {pair : Octets} (digits : HexPair octet pair)
    (position : Nat) (read rest : Octets) :
    decodePairs position read (pair ++ rest) = decodePairs (position + 2) (octet :: read) rest := by
  have bound : octet.toNat < 256 := octet.toNat_lt
  obtain ⟨high, low, rfl⟩ := digits
  simp only [List.cons_append, List.nil_append, decodePairs,
    digit?_hexDigit (show octet.toNat / 16 < 16 by omega),
    digit?_hexDigit (show octet.toNat % 16 < 16 by omega), halves]

theorem decodePairs_of_pairs {value : Octets} {pairs : List Octets}
    (each : List.Forall₂ HexPair value pairs) (position : Nat) (read : Octets) :
    decodePairs position read pairs.flatten = .ok (read.reverse ++ value) := by
  induction each generalizing position read with
  | nil => simp [decodePairs]
  | cons digits _ ih =>
    rw [List.flatten_cons, decodePairs_of_pair digits, ih, List.reverse_cons, List.append_assoc,
      List.singleton_append]

theorem length_flatten_pairs {value : Octets} {pairs : List Octets}
    (each : List.Forall₂ HexPair value pairs) : pairs.flatten.length = 2 * value.length := by
  induction each with
  | nil => rfl
  | cons digits _ ih =>
    obtain ⟨high, low, rfl⟩ := digits
    simp only [List.flatten_cons, List.length_append, List.length_cons, List.length_nil, ih]
    omega

/-- Octets are read back from their hexadecimal digits, whatever their case. -/
theorem decode_of_pairs {value : Octets} {pairs : List Octets}
    (each : List.Forall₂ HexPair value pairs) : decode pairs.flatten = .ok value := by
  have even : ¬ pairs.flatten.length % 2 = 1 := by
    rw [length_flatten_pairs each]
    omega
  rw [decode, if_neg even, decodePairs_of_pairs each]
  rfl

theorem ne_of_mem_flatten {value : Octets} {pairs : List Octets}
    (each : List.Forall₂ HexPair value pairs) : ∀ octet ∈ pairs.flatten, octet ≠ 0x23 := by
  induction each with
  | nil => exact fun _ mem => absurd mem List.not_mem_nil
  | @cons octet pair _ _ digits _ ih =>
    have bound : octet.toNat < 256 := octet.toNat_lt
    obtain ⟨high, low, rfl⟩ := digits
    intro other mem
    simp only [List.flatten_cons, List.cons_append, List.nil_append, List.mem_cons] at mem
    rcases mem with rfl | rfl | later
    · exact hexDigit_ne (by omega) high
    · exact hexDigit_ne (by omega) low
    · exact ih other later

end Hex

/-! ### Base64 without padding -/

namespace Base64

theorem unpadded_eq (octets : Octets) : unpadded octets = (values octets).map symbol := by
  have each : ∀ octet ∈ (values octets).map symbol, (octet != pad) = true := by
    intro octet mem
    simpa using ne_pad_of_mem_symbols octet mem
  rw [unpadded, encodeOctets_eq, List.takeWhile_append_of_pos each, List.append_right_eq_self]
  -- the padding starts where the symbols end, or there is none
  cases padding octets with
  | zero => rfl
  | succ count => exact List.takeWhile_cons_of_neg (by simp)

/-- What has no padding loses none. -/
theorem stripPadding_of_ne_pad {symbols : Octets} (noPad : ∀ octet ∈ symbols, octet ≠ pad) :
    stripPadding symbols = symbols := by
  by_cases whole : symbols.length % 4 = 0
  · have groups : (symbols.length + 0) % 4 = 0 := whole
    simpa using stripPadding_append noPad (by decide) groups
  · rw [stripPadding, if_neg whole]

/-- Octets are read back from base64 without its padding. -/
theorem decode_unpadded (octets : Octets) : decode (unpadded octets) = .ok octets := by
  rw [decode, unpadded_eq, stripPadding_of_ne_pad ne_pad_of_mem_symbols, decodeUnpadded?_symbols]

theorem mem_encodeOctets_of_mem_unpadded {octets : Octets} {octet : UInt8}
    (mem : octet ∈ unpadded octets) : octet ∈ encodeOctets octets :=
  (List.takeWhile_sublist _).mem mem

theorem length_le_length_values (octets : Octets) : octets.length ≤ (values octets).length := by
  induction octets using values.induct with
  | case1 a b c rest ih =>
    simp only [values, List.length_cons]
    omega
  | case2 a b => simp [values]
  | case3 a => simp [values]
  | case4 => exact Nat.le_refl 0

theorem length_unpadded_le (octets : Octets) :
    (unpadded octets).length ≤ (encodeOctets octets).length :=
  (List.takeWhile_sublist _).length_le

theorem length_le_length_unpadded (octets : Octets) : octets.length ≤ (unpadded octets).length := by
  rw [unpadded_eq, List.length_map]
  exact length_le_length_values octets

end Base64

namespace Octets

/-! ### Lengths -/

theorem length_compact_le (octets : Octets) : (compact octets).length ≤ octets.length :=
  List.length_filter_le _ _

/-- What is no whitespace stands in the compact form as well. -/
theorem ne_of_mem_of_compact {body : Octets} {close : UInt8} (notBlank : isBlank close = false)
    (each : ∀ octet ∈ compact body, octet ≠ close) : ∀ octet ∈ body, octet ≠ close := by
  rintro octet mem rfl
  exact each octet (List.mem_filter.mpr ⟨mem, by simp [notBlank]⟩) rfl

theorem Quotes.length_pos {octet : UInt8} {piece : Octets} (h : Quotes octet piece) :
    0 < piece.length := by
  cases h <;> exact Nat.succ_pos _

/-- No delimited spelling is shorter than what it spells. -/
theorem Delimited.length_le {value written : Octets} (h : Delimited value written) :
    value.length ≤ written.length := by
  cases h with
  | @quoted pieces each =>
    have inside : value.length ≤ pieces.flatten.length := by
      induction each with
      | nil => exact Nat.le_refl 0
      | cons piece _ ih =>
        have one := piece.length_pos
        simp only [List.flatten_cons, List.length_append, List.length_cons]
        omega
    simp only [List.length_append, List.length_cons]
    omega
  | @hexadecimal pairs body each digits =>
    have inside := length_compact_le body
    rw [digits, Hex.length_flatten_pairs each] at inside
    simp only [List.length_append, List.length_cons]
    omega
  | @base64 body symbols =>
    have shortest := Base64.length_le_length_unpadded value
    have shorter := Base64.length_unpadded_le value
    have inside := length_compact_le body
    simp only [List.length_append, List.length_cons]
    rcases symbols with padded | bare
    · rw [padded] at inside
      omega
    · rw [bare] at inside
      omega

theorem Written.length_le {value written : Octets} {count : Option Nat}
    (h : Written value count written) : value.length ≤ written.length := by
  cases h with
  | verbatim => exact length_le_length_verbatim value
  | bare spelled => exact spelled.length_le
  | announced spelled n =>
    rw [List.length_append]
    exact Nat.le_add_left_of_le spelled.length_le

end Octets

end SimplePki
