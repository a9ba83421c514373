import SimplePki.Proofs.SExpr.Structure
import SimplePki.Proofs.Timestamp
import SimplePki.Validity

/-!
# Validities and their expressions

A validity with a bound is read back from its expression, with each bound as the second that its
timestamp stands for.  A validity without bounds has no expression, so that nothing is read back.

## Main definitions

* `Validity.stamped`: the validity with the seconds that the timestamps of its bounds stand for
* `Validity.InCalendar`: the validities with bounds that can be shown
* `Validity.shown`: what can be read back of a validity that may be missing
* `Validity.boundTerms`, `Validity.ReadBound`: the terms a bound is written with, and a bound and the
  terms it is read from

## Main results

* `Validity.decode_encode`: what is written is read back
* `Validity.decode_eq_ok`: what the expression of a validity consists of
* `Validity.inCalendar_of_decode`, `Validity.stamped_of_decode`,
  `Validity.isUnbounded_of_decode`: what is read can be written
-/

namespace SimplePki.Validity

/-- The validity with the seconds that the timestamps of its bounds stand for. -/
def stamped (validity : Validity) : Validity :=
  ⟨validity.notBefore.map Instant.stamped, validity.notAfter.map Instant.stamped⟩

/-- The bounds that there are can be shown. -/
structure InCalendar (validity : Validity) : Prop where
  notBefore : ∀ instant, validity.notBefore = some instant → instant.InCalendar
  notAfter : ∀ instant, validity.notAfter = some instant → instant.InCalendar

/-- What can be read back of a validity: without bounds it is as if it were missing. -/
def shown (validity : Option Validity) : Option Validity :=
  validity.bind fun validity => if validity.isUnbounded then none else some validity.stamped

/-! ### Bounds -/

theorem isListOf_encodeBound (name other : String) (instant : Instant) :
    (encodeBound name instant).isListOf other = decide (name = other) :=
  SExpr.isListOf_list_text name other _

theorem decodeBound_encodeBound (name : String) {instant : Instant} (h : instant.InCalendar) :
    decodeBound name (encodeBound name instant) = .ok instant.stamped := by
  rw [decodeBound, encodeBound, SExpr.termOctets_term]
  dsimp only
  rw [Octets.text?_ofText]
  dsimp only
  rw [readTimestamp, Instant.ofText_toText h]

theorem takeBound_encodeBound (name : String) {instant : Instant} (h : instant.InCalendar)
    (rest : List SExpr) :
    takeBound name (encodeBound name instant :: rest) = .ok (some instant.stamped, rest) := by
  have named : (encodeBound name instant).isListOf name = true := by
    rw [isListOf_encodeBound]
    exact decide_eq_true rfl
  rw [takeBound, if_pos named, decodeBound_encodeBound name h]
  rfl

/-- The terms that a bound is written with. -/
def boundTerms (name : String) (bound : Option Instant) : List SExpr :=
  (bound.map (encodeBound name)).toList

/-- A bound is taken from the front of its terms, as the second that was written, and nothing else
is. -/
theorem takeBound_boundTerms (name : String) {bound : Option Instant}
    (h : ∀ instant, bound = some instant → instant.InCalendar) {rest : List SExpr}
    (other : ∀ term, rest.head? = some term → term.isListOf name = false) :
    takeBound name (boundTerms name bound ++ rest) = .ok (bound.map Instant.stamped, rest) := by
  cases bound with
  | some instant => exact takeBound_encodeBound name (h instant rfl) rest
  | none =>
    -- nothing was written, and what follows has another name
    cases rest with
    | nil => rfl
    | cons term rest =>
      change takeBound name (term :: rest) = _
      rw [takeBound, other term rfl]
      rfl

theorem readTimestamp_eq_ok_iff {text : String} {instant : Instant} :
    readTimestamp text = .ok instant ↔ Instant.ofText text = .ok instant := by
  unfold readTimestamp
  cases Instant.ofText text <;> simp

theorem decodeBound_eq_ok_iff {name : String} {expr : SExpr} {instant : Instant} :
    decodeBound name expr = .ok instant ↔
      ∃ text, expr = .term name (Octets.ofText text) ∧ readTimestamp text = .ok instant := by
  constructor
  · intro h
    unfold decodeBound at h
    split at h
    · exact nomatch h
    · next octets held =>
      split at h
      · exact nomatch h
      · next text spelled =>
        refine ⟨text, ?_, h⟩
        rw [SExpr.termOctets_eq_ok_iff.mp held, Octets.ofText_of_text? spelled]
  · rintro ⟨text, rfl, read⟩
    rw [decodeBound, SExpr.termOctets_term]
    dsimp only
    rw [Octets.text?_ofText]
    exact read

/-- A bound, and the terms that it is read from: one term, or none for none. -/
inductive ReadBound (name : String) : Option Instant → List SExpr → Prop where
  | missing : ReadBound name none []
  | given {text : String} {instant : Instant} : readTimestamp text = .ok instant →
      ReadBound name (some instant) [.term name (Octets.ofText text)]

/-- A bound is taken with the terms that it is read from. -/
theorem readBound_of_takeBound {name : String} {terms rest : List SExpr} {bound : Option Instant}
    (h : takeBound name terms = .ok (bound, rest)) :
    ∃ taken, terms = taken ++ rest ∧ ReadBound name bound taken := by
  cases terms with
  | nil =>
    cases h
    exact ⟨[], rfl, .missing⟩
  | cons term others =>
    rw [takeBound] at h
    split at h
    · obtain ⟨instant, decoded, taken⟩ := bind_eq_ok_iff.mp h
      cases taken
      obtain ⟨text, rfl, read⟩ := decodeBound_eq_ok_iff.mp decoded
      exact ⟨_, rfl, .given read⟩
    · cases h
      exact ⟨[], rfl, .missing⟩

namespace ReadBound

variable {name : String} {bound : Option Instant} {terms : List SExpr}

/-- A bound that is read can be shown and has no fraction. -/
theorem inCalendar (read : ReadBound name bound terms) {instant : Instant}
    (same : bound = some instant) : instant.InCalendar ∧ instant.stamped = instant := by
  cases read with
  | missing => exact nomatch same
  | given known =>
    rw [← Option.some.inj same]
    exact Instant.inCalendar_of_ofText (readTimestamp_eq_ok_iff.mp known)

theorem map_stamped (read : ReadBound name bound terms) : bound.map Instant.stamped = bound := by
  cases bound with
  | none => rfl
  | some instant => exact congrArg some (read.inCalendar rfl).2

theorem eq_nil_of_none (read : ReadBound name none terms) : terms = [] := by
  cases read
  rfl

end ReadBound

/-! ### Validities -/

theorem encode_of_bounded {validity : Validity} (bounded : validity.isUnbounded = false) :
    validity.encode = some (.list (.text "valid" ::
      (boundTerms "not-before" validity.notBefore ++
        boundTerms "not-after" validity.notAfter))) := by
  rw [encode, bounded]
  rfl

theorem encode_eq_none_iff {validity : Validity} :
    validity.encode = none ↔ validity.isUnbounded = true := by
  unfold encode
  split
  · next unbounded => simp [unbounded]
  · next bounded => simp [bounded]

/-- One term behind the word is read, and so are two. -/
theorem decode_list_text {terms : List SExpr} (nonempty : terms ≠ []) (few : terms.length ≤ 2) :
    decode (.list (.text "valid" :: terms)) = decodeTerms terms := by
  rw [decode, SExpr.tagged?_list_text]
  match terms with
  | [] => exact absurd rfl nonempty
  | [first] => rfl
  | [first, second] => rfl
  | _ :: _ :: _ :: _ => simp at few

/-- A validity is read back from its expression, each bound as the second that was written. -/
theorem decode_encode {validity : Validity} {expr : SExpr} (h : validity.InCalendar)
    (written : validity.encode = some expr) : decode expr = .ok validity.stamped := by
  have bounded : validity.isUnbounded = false := by
    rw [← Bool.not_eq_true, ← encode_eq_none_iff, written]
    exact Option.some_ne_none expr
  rw [encode_of_bounded bounded] at written
  obtain rfl := Option.some.inj written
  have nonempty : boundTerms "not-before" validity.notBefore ++
      boundTerms "not-after" validity.notAfter ≠ [] := by
    intro none
    simp only [boundTerms, List.append_eq_nil_iff, Option.toList_eq_nil_iff,
      Option.map_eq_none_iff] at none
    rw [isUnbounded, none.1, none.2] at bounded
    cases bounded
  have few : (boundTerms "not-before" validity.notBefore ++
      boundTerms "not-after" validity.notAfter).length ≤ 2 := by
    rw [List.length_append]
    exact Nat.add_le_add Option.length_toList_le Option.length_toList_le
  have other : ∀ term, (boundTerms "not-after" validity.notAfter).head? = some term →
      term.isListOf "not-before" = false := by
    intro term first
    obtain ⟨instant, -, rfl⟩ := Option.map_eq_some_iff.mp
      (Option.mem_toList.mp (List.mem_of_head? first))
    rw [isListOf_encodeBound]
    decide
  -- behind the terms of the first bound stand those of the last, and nothing behind these
  have last : takeBound "not-after" (boundTerms "not-after" validity.notAfter ++ []) =
      .ok (validity.notAfter.map Instant.stamped, []) :=
    takeBound_boundTerms "not-after" h.notAfter (by simp)
  rw [List.append_nil] at last
  rw [decode_list_text nonempty few, decodeTerms,
    takeBound_boundTerms "not-before" h.notBefore other, ok_bind]
  dsimp only
  rw [last, ok_bind]
  rfl

section Decoded

variable {expr : SExpr} {validity : Validity}

/-- The terms behind the word are those of the first bound and those of the last. -/
theorem decodeTerms_eq_ok {terms : List SExpr} (h : decodeTerms terms = .ok validity) :
    ∃ lower upper, terms = lower ++ upper ∧
      ReadBound "not-before" validity.notBefore lower ∧
      ReadBound "not-after" validity.notAfter upper := by
  obtain ⟨⟨notBefore, behind⟩, first, afterFirst⟩ := bind_eq_ok_iff.mp h
  obtain ⟨⟨notAfter, rest⟩, second, made⟩ := bind_eq_ok_iff.mp afterFirst
  obtain ⟨lower, taken, readLower⟩ := readBound_of_takeBound first
  obtain ⟨upper, takenBehind, readUpper⟩ := readBound_of_takeBound second
  cases rest with
  | cons extra others => exact nomatch made
  | nil =>
    cases made
    rw [List.append_nil] at takenBehind
    exact ⟨lower, upper, takenBehind ▸ taken, readLower, readUpper⟩

theorem exists_terms_of_decode (h : decode expr = .ok validity) :
    ∃ terms, terms ≠ [] ∧ expr = .list (.text "valid" :: terms) ∧
      decodeTerms terms = .ok validity := by
  unfold decode at h
  split at h
  · next tagged =>
    obtain ⟨-, rfl⟩ := SExpr.tagged?_eq_cons_iff.mp tagged
    exact ⟨_, List.cons_ne_nil _ _, rfl, h⟩
  · next tagged =>
    obtain ⟨-, rfl⟩ := SExpr.tagged?_eq_cons_iff.mp tagged
    exact ⟨_, List.cons_ne_nil _ _, rfl, h⟩
  · exact nomatch h

/-- The expression of a validity consists of its word and of what the bounds are read from. -/
theorem decode_eq_ok (h : decode expr = .ok validity) :
    ∃ lower upper, lower ++ upper ≠ [] ∧ expr = .list (.text "valid" :: (lower ++ upper)) ∧
      ReadBound "not-before" validity.notBefore lower ∧
      ReadBound "not-after" validity.notAfter upper := by
  obtain ⟨terms, nonempty, led, read⟩ := exists_terms_of_decode h
  obtain ⟨lower, upper, rfl, readLower, readUpper⟩ := decodeTerms_eq_ok read
  exact ⟨lower, upper, nonempty, led, readLower, readUpper⟩

theorem inCalendar_of_decode (h : decode expr = .ok validity) : validity.InCalendar := by
  obtain ⟨lower, upper, -, -, readLower, readUpper⟩ := decode_eq_ok h
  exact ⟨fun _ same => (readLower.inCalendar same).1, fun _ same => (readUpper.inCalendar same).1⟩

theorem stamped_of_decode (h : decode expr = .ok validity) : validity.stamped = validity := by
  obtain ⟨lower, upper, -, -, readLower, readUpper⟩ := decode_eq_ok h
  rw [stamped, readLower.map_stamped, readUpper.map_stamped]

theorem isUnbounded_of_decode (h : decode expr = .ok validity) : validity.isUnbounded = false := by
  obtain ⟨lower, upper, nonempty, -, readLower, readUpper⟩ := decode_eq_ok h
  obtain ⟨notBefore, notAfter⟩ := validity
  cases notBefore with
  | some instant => rfl
  | none =>
    cases notAfter with
    | some instant => rfl
    | none =>
      -- a bound that is missing was read from no term
      rw [readLower.eq_nil_of_none, readUpper.eq_nil_of_none] at nonempty
      exact absurd rfl nonempty

end Decoded

end SimplePki.Validity
