import Mathlib.Data.List.TakeWhile
import Mathlib.Tactic.SplitIfs
import SimplePki.Octets.Utf8

/-!
# Octets that show ASCII

An ASCII text is written with one octet for each character.  No other octets show such a text: a
character of more octets has a code point beyond ASCII, and whatever is broken shows as the
replacement character, which is beyond ASCII as well.

## Main definitions

* `Octets.isAscii`: the octets of ASCII

## Main results

* `Octets.ofText_map_toChar`: ASCII octets are the octets of the text that they show
* `Octets.eq_ofText_of_toTextLossy`: octets that show an ASCII text are its octets
-/

namespace SimplePki.Octets

/-- The octets of ASCII. -/
def isAscii (octet : UInt8) : Bool := octet < 0x80

theorem isAscii_iff {octet : UInt8} : isAscii octet = true ↔ octet.toNat < 0x80 := by
  rw [isAscii, decide_eq_true_iff, UInt8.lt_iff_toNat_lt]
  exact Iff.rfl

/-! ### Writing ASCII -/

theorem toNat_toChar (octet : UInt8) : (toChar octet).toNat = octet.toNat := by
  have small := octet.toNat_lt
  have valid : octet.toNat.isValidChar := Or.inl (by omega)
  rw [toChar, Char.ofNat, dif_pos valid]
  rfl

/-- An ASCII character is written as the octet that it is of. -/
theorem utf8EncodeChar_toChar {octet : UInt8} (h : isAscii octet = true) :
    String.utf8EncodeChar (toChar octet) = [octet] := by
  have small := isAscii_iff.mp h
  have code : (toChar octet).val.toNat = octet.toNat := toNat_toChar octet
  have one : (toChar octet).utf8Size = 1 := by
    rw [Char.utf8Size_eq_one_iff, UInt32.le_iff_toNat_le, code]
    exact Nat.le_of_lt_succ small
  have same : (toChar octet).val.toUInt8 = octet := by
    apply UInt8.toNat_inj.mp
    rw [UInt32.toNat_toUInt8, code]
    exact Nat.mod_eq_of_lt octet.toNat_lt
  rw [String.utf8EncodeChar_eq_singleton one, same]

/-- The octets of a text are those of its characters. -/
theorem ofText_ofList (chars : List Char) :
    ofText (String.ofList chars) = chars.flatMap String.utf8EncodeChar := by
  rw [ofText, String.toUTF8_eq_toByteArray, String.toByteArray_ofList, List.utf8Encode,
    List.toList_data_toByteArray]

/-- ASCII octets are the octets of the text that they show. -/
theorem ofText_map_toChar {octets : Octets} (h : ∀ octet ∈ octets, isAscii octet = true) :
    ofText (String.ofList (octets.map toChar)) = octets := by
  have encoded : (octets.map toChar).flatMap String.utf8EncodeChar = octets := by
    induction octets with
    | nil => rfl
    | cons octet octets ih =>
      rw [List.map_cons, List.flatMap_cons, utf8EncodeChar_toChar (h octet List.mem_cons_self),
        ih fun other mem => h other (List.mem_cons_of_mem _ mem), List.singleton_append]
  rw [ofText_ofList, encoded]

/-! ### Characters of more than one octet -/

/-- A code point beyond ASCII shows no ASCII character. -/
theorem le_toNat_ofNat {n : Nat} (valid : n.isValidChar) (beyond : 0x80 ≤ n) :
    0x80 ≤ (Char.ofNat n).toNat := by
  rw [Char.ofNat, dif_pos valid]
  exact beyond

theorem isContinuation_iff {octet : UInt8} :
    isContinuation octet = true ↔ 0x80 ≤ octet.toNat ∧ octet.toNat ≤ 0xBF := by
  rw [isContinuation, Bool.and_eq_true, decide_eq_true_iff, decide_eq_true_iff,
    UInt8.le_iff_toNat_le, UInt8.le_iff_toNat_le]
  exact Iff.rfl

theorem leadLength_eq (lead : UInt8) : leadLength lead =
    if lead.toNat ≤ 0x7F then 1
    else if 0xC2 ≤ lead.toNat ∧ lead.toNat ≤ 0xDF then 2
    else if 0xE0 ≤ lead.toNat ∧ lead.toNat ≤ 0xEF then 3
    else if 0xF0 ≤ lead.toNat ∧ lead.toNat ≤ 0xF4 then 4
    else 0 := by
  simp only [leadLength, Bool.and_eq_true, decide_eq_true_eq, UInt8.le_iff_toNat_le,
    UInt8.reduceToNat]

theorem admitsSecond_iff {lead second : UInt8} : admitsSecond lead second = true ↔
    (0x80 ≤ second.toNat ∧ second.toNat ≤ 0xBF) ∧
      (lead.toNat = 0xE0 → 0xA0 ≤ second.toNat) ∧ (lead.toNat = 0xED → second.toNat ≤ 0x9F) ∧
      (lead.toNat = 0xF0 → 0x90 ≤ second.toNat) ∧ (lead.toNat = 0xF4 → second.toNat ≤ 0x8F) := by
  rw [admitsSecond, Bool.and_eq_true, isContinuation_iff]
  simp only [beq_iff_eq, ← UInt8.toNat_inj, UInt8.reduceToNat]
  -- by which of the four special leading octets it is, if any
  split_ifs <;> simp_all [UInt8.le_iff_toNat_le]

section CodePoints

variable {lead second third fourth : UInt8}

theorem le_codePoint_two (two : leadLength lead = 2) (admits : admitsSecond lead second = true) :
    0x80 ≤ (Char.ofNat (codePoint [lead, second])).toNat := by
  rw [leadLength_eq] at two
  rw [admitsSecond_iff] at admits
  have code : codePoint [lead, second] = (lead.toNat - 0xC0) * 64 + (second.toNat - 0x80) := rfl
  rw [code]
  apply le_toNat_ofNat
  · rw [Nat.isValidChar]
    split_ifs at two <;> omega
  · split_ifs at two <;> omega

theorem le_codePoint_three (three : leadLength lead = 3)
    (admits : admitsSecond lead second = true) (continues : isContinuation third = true) :
    0x80 ≤ (Char.ofNat (codePoint [lead, second, third])).toNat := by
  rw [leadLength_eq] at three
  rw [admitsSecond_iff] at admits
  rw [isContinuation_iff] at continues
  have code : codePoint [lead, second, third] =
      (lead.toNat - 0xE0) * 4096 + (second.toNat - 0x80) * 64 + (third.toNat - 0x80) := rfl
  rw [code]
  apply le_toNat_ofNat
  · -- no surrogate is among the code points
    rw [Nat.isValidChar]
    split_ifs at three <;> omega
  · split_ifs at three <;> omega

theorem le_codePoint_four (four : leadLength lead = 4)
    (admits : admitsSecond lead second = true) (continues : isContinuation third = true)
    (continuesAgain : isContinuation fourth = true) :
    0x80 ≤ (Char.ofNat (codePoint [lead, second, third, fourth])).toNat := by
  rw [leadLength_eq] at four
  rw [admitsSecond_iff] at admits
  rw [isContinuation_iff] at continues continuesAgain
  have code : codePoint [lead, second, third, fourth] = (lead.toNat - 0xF0) * 262144 +
      (second.toNat - 0x80) * 4096 + (third.toNat - 0x80) * 64 + (fourth.toNat - 0x80) := rfl
  rw [code]
  apply le_toNat_ofNat
  · -- the last code point is not exceeded
    rw [Nat.isValidChar]
    split_ifs at four <;> omega
  · split_ifs at four <;> omega

end CodePoints

theorem leadLength_eq_one_iff {lead : UInt8} : leadLength lead = 1 ↔ isAscii lead = true := by
  rw [leadLength_eq, isAscii_iff]
  by_cases small : lead.toNat ≤ 0x7F
  · rw [if_pos small]
    exact ⟨fun _ => Nat.lt_succ_of_le small, fun _ => rfl⟩
  · rw [if_neg small]
    constructor
    · intro one
      split_ifs at one <;> contradiction
    · intro ascii
      exact absurd (Nat.le_of_lt_succ ascii) small

theorem leadLength_le (lead : UInt8) : leadLength lead ≤ 4 := by
  rw [leadLength_eq]
  split_ifs <;> decide

/-- A unit of more than one octet shows no ASCII character, whole or broken. -/
theorem le_toNat_unitChar {lead second : UInt8} {behind : Octets}
    (admits : admitsSecond lead second = true) (long : 2 ≤ leadLength lead)
    (continuing : ∀ octet ∈ behind, isContinuation octet = true) :
    0x80 ≤ (unitChar (lead :: second :: behind)).toNat := by
  rw [unitChar]
  split
  · next whole =>
    have short := leadLength_le lead
    rcases behind with _ | ⟨third, _ | ⟨fourth, _ | ⟨fifth, rest⟩⟩⟩
    · exact le_codePoint_two whole admits
    · exact le_codePoint_three whole admits (continuing third List.mem_cons_self)
    · exact le_codePoint_four whole admits (continuing third List.mem_cons_self)
        (continuing fourth (List.mem_cons_of_mem _ List.mem_cons_self))
    · simp only [List.length_cons] at whole
      omega
  · decide

/-- A unit is a single octet, or goes on behind its second octet with continuations. -/
theorem unit_cases (lead : UInt8) (rest : Octets) :
    unitLength (lead :: rest) = 1 ∨
      ∃ second behind, (lead :: rest).take (unitLength (lead :: rest)) = lead :: second :: behind ∧
        2 ≤ leadLength lead ∧ admitsSecond lead second = true ∧
        ∀ octet ∈ behind, isContinuation octet = true := by
  by_cases short : leadLength lead ≤ 1
  · exact Or.inl (by simp [unitLength, short])
  cases rest with
  | nil => exact Or.inl (by simp [unitLength])
  | cons second more =>
    by_cases admits : admitsSecond lead second = true
    · right
      let behind := (more.take (leadLength lead - 2)).takeWhile isContinuation
      have isPrefix : behind <+: more := (List.takeWhile_prefix _).trans (List.take_prefix _ _)
      refine ⟨second, behind, ?_, Nat.lt_of_not_le short, admits,
        fun _ mem => List.mem_takeWhile_imp mem⟩
      rw [unitLength, if_neg short, if_pos admits, Nat.add_comm, List.take_succ_cons,
        List.take_succ_cons, ← List.prefix_iff_eq_take.mp isPrefix]
    · exact Or.inl (by simp [unitLength, admits])

/-- A unit that shows an ASCII character is that character's octet. -/
theorem unit_of_ascii {lead : UInt8} {rest : Octets}
    (h : (unitChar ((lead :: rest).take (unitLength (lead :: rest)))).toNat < 0x80) :
    unitLength (lead :: rest) = 1 ∧ isAscii lead = true ∧
      unitChar ((lead :: rest).take (unitLength (lead :: rest))) = toChar lead := by
  rcases unit_cases lead rest with one | ⟨second, behind, unit, long, admits, continuing⟩
  · rw [one, List.take_succ_cons, List.take_zero, unitChar] at h ⊢
    by_cases single : leadLength lead = [lead].length
    · exact ⟨rfl, leadLength_eq_one_iff.mp single, if_pos single⟩
    · rw [if_neg single] at h
      exact absurd h (by decide)
  · rw [unit] at h
    exact absurd h (Nat.not_lt.mpr (le_toNat_unitChar admits long continuing))

/-! ### Showing ASCII -/

/-- What was shown before comes in front of what is shown now. -/
theorem showUnits_append (shown before : List Char) (octets : Octets) :
    showUnits (shown ++ before) octets = before.reverse ++ showUnits shown octets := by
  fun_induction showUnits shown octets with
  | case1 shown => rw [showUnits, List.reverse_append]
  | case2 shown octet rest ih => rw [showUnits, ← List.cons_append, ih]

theorem showUnits_nil_cons (octet : UInt8) (rest : Octets) :
    showUnits [] (octet :: rest) =
      unitChar ((octet :: rest).take (unitLength (octet :: rest))) ::
        showUnits [] ((octet :: rest).drop (unitLength (octet :: rest))) := by
  rw [showUnits, ← List.nil_append [unitChar _], showUnits_append]
  rfl

/-- Where only ASCII is shown, each character is its octet's. -/
theorem map_toChar_of_showUnits {octets : Octets}
    (h : ∀ c ∈ showUnits [] octets, c.toNat < 0x80) :
    (∀ octet ∈ octets, isAscii octet = true) ∧ octets.map toChar = showUnits [] octets := by
  induction octets with
  | nil => exact ⟨fun _ mem => absurd mem List.not_mem_nil, by rw [showUnits]; rfl⟩
  | cons octet rest ih =>
    rw [showUnits_nil_cons] at h ⊢
    obtain ⟨one, ascii, char⟩ := unit_of_ascii (h _ List.mem_cons_self)
    -- the first unit is one octet, so that the others begin behind it
    rw [char, one, List.drop_one, List.tail_cons] at h ⊢
    obtain ⟨others, shown⟩ := ih fun c mem => h c (List.mem_cons_of_mem _ mem)
    exact ⟨List.forall_mem_cons.mpr ⟨ascii, others⟩, by rw [List.map_cons, shown]⟩

/-- Octets that show an ASCII text are its octets. -/
theorem eq_ofText_of_toTextLossy {octets : Octets} {text : String}
    (ascii : ∀ c ∈ text.toList, c.toNat < 0x80) (h : octets.toTextLossy = text) :
    octets = ofText text := by
  have shown : showUnits [] octets = text.toList := by
    rw [← h, toTextLossy, String.toList_ofList]
  rw [← shown] at ascii
  obtain ⟨each, chars⟩ := map_toChar_of_showUnits ascii
  rw [← h, toTextLossy, ← chars, ofText_map_toChar each]

end SimplePki.Octets
