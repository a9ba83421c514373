import SimplePki.Proofs.Gateway.Accept
import SimplePki.Proofs.NormalForm
import SimplePki.Proofs.SExpr.Nesting
import SimplePki.Proofs.SExpr.ReadsAdvanced
import SimplePki.Proofs.Sequence.Reading

/-!
# Accepting looks backwards only

A signature is resolved by keys before it and covers the element before it.  So a gateway that
accepts a sequence accepts each front of it, with the same elements, and with those places signed
whose signatures are still there.  Whatever is added behind the elements of a sequence, it makes
none of them better.

Reading and checking are two loops over the same items, and either is cut at the same place: what
comes behind the cut is not looked at before.

## Main results

* `Gateway.checkAll_append`: a check goes on behind the front as if it had started there
* `Gateway.bounds_of_checkAll`: the places that a check yields are next to the elements it looked at
* `Gateway.checkAll_front`: the front of a sequence that passes the check passes it
* `Gateway.fronts_of_accepted_sequences_are_accepted`
-/

namespace SimplePki

/-! ### Fronts of lists -/

namespace SExpr

theorem length_packItems_take_le (items : List SExpr) (count : Nat) :
    (packItems (items.take count)).length ≤ (packItems items).length := by
  induction items generalizing count with
  | nil => rw [List.take_nil]
  | cons item items ih =>
    cases count with
    | zero => exact Nat.zero_le _
    | succ count =>
      rw [List.take_succ_cons, length_packItems_cons, length_packItems_cons]
      exact Nat.add_le_add_left (ih count) _

/-- The front of a list is not longer than the list when it is written. -/
theorem length_pack_front_le (head : SExpr) (items : List SExpr) (count : Nat) :
    (list (head :: items.take count)).pack.length ≤ (list (head :: items)).pack.length := by
  rw [length_pack_list, length_pack_list, length_packItems_cons, length_packItems_cons]
  exact Nat.add_le_add_right (Nat.add_le_add_left (length_packItems_take_le items count) _) 2

/-- The front of a list is not nested deeper than the list. -/
theorem nesting_front_le (head : SExpr) (items : List SExpr) (count : Nat) :
    (list (head :: items.take count)).nesting ≤ (list (head :: items)).nesting := by
  rw [nesting, nesting]
  apply Nat.succ_le_succ
  obtain ⟨first, others⟩ := List.forall_mem_cons.mp
    (nestingItems_le_iff.mp (Nat.le_refl (nestingItems (head :: items))))
  rw [nestingItems_le_iff, List.forall_mem_cons]
  exact ⟨first, fun item mem => others item (List.mem_of_mem_take mem)⟩

end SExpr

namespace Gateway

variable {installed : Installed} {verify : Bool}

/-! ### Checking in two parts -/

/-- The first element is checked, and then the others behind it. -/
theorem checkAll_cons (index : Nat) (before : Option Element) (element : Element)
    (rest : List Element) :
    checkAll installed verify index before (element :: rest) = (do
      let kept ← checkAll installed verify index before [element]
      let later ← checkAll installed verify (index + 1) (some element) rest
      return kept ++ later) := by
  cases element with
  | certificate cert => exact (bind_pure _).symm
  | publicKey key => exact (bind_pure _).symm
  | signature signature =>
    cases before with
    | none => rfl
    | some covered =>
      cases verify with
      | false => exact (bind_pure _).symm
      | true =>
        rw [checkAll, checkAll, if_pos rfl, if_pos rfl]
        cases check installed index covered signature <;> rfl

/-- Behind a front, the check goes on with the last element of the front before it. -/
theorem checkAll_append (front back : List Element) (index : Nat) (before : Option Element) :
    checkAll installed verify index before (front ++ back) = (do
      let kept ← checkAll installed verify index before front
      let later ← checkAll installed verify (index + front.length) (front.getLast?.or before) back
      return kept ++ later) := by
  -- by induction on the front; what comes before the rest is the last element that was passed
  induction front generalizing index before with
  | nil => exact (bind_pure _).symm
  | cons element front ih =>
    have last : (element :: front).getLast?.or before = front.getLast?.or (some element) := by
      rw [List.getLast?_cons]
      cases front.getLast? <;> rfl
    have count : index + (element :: front).length = index + 1 + front.length := by
      rw [List.length_cons]
      omega
    rw [List.cons_append, checkAll_cons, checkAll_cons _ _ _ front, ih, last, count]
    simp only [bind_assoc, pure_bind, List.append_assoc]

/-- The check of one element yields the place before it or nothing. -/
theorem checkAll_singleton {index : Nat} {before : Option Element} {element : Element}
    {places : List Nat} (h : checkAll installed verify index before [element] = .ok places) :
    places = [] ∨ before.isSome = true ∧ places = [index - 1] := by
  cases element with
  | certificate cert => exact Or.inl (Except.ok.inj h).symm
  | publicKey key => exact Or.inl (Except.ok.inj h).symm
  | signature signature =>
    cases before with
    | none => exact nomatch h
    | some covered =>
      cases verify with
      | false => exact Or.inl (Except.ok.inj h).symm
      | true =>
        rw [checkAll, if_pos rfl] at h
        obtain ⟨-, -, h⟩ := bind_eq_ok_iff.mp h
        exact Or.inr ⟨rfl, (Except.ok.inj h).symm⟩

/-- Each place that a check yields stands before an element that it looked at. -/
theorem bounds_of_checkAll {index : Nat} {before : Option Element} {rest : List Element}
    (behind : before.isSome = true → 0 < index) {places : List Nat}
    (h : checkAll installed verify index before rest = .ok places) :
    ∀ place ∈ places, index ≤ place + 1 ∧ place + 1 < index + rest.length := by
  -- by induction on the elements: the first yields the place before it, and the others count from
  -- the next index on
  induction rest generalizing index before places with
  | nil =>
    obtain rfl := Except.ok.inj h
    exact fun place mem => absurd mem List.not_mem_nil
  | cons element rest ih =>
    rw [checkAll_cons] at h
    obtain ⟨kept, first, h⟩ := bind_eq_ok_iff.mp h
    obtain ⟨later, others, h⟩ := bind_eq_ok_iff.mp h
    obtain rfl := Except.ok.inj h
    intro place mem
    rw [List.length_cons]
    rcases List.mem_append.mp mem with early | late
    · rcases checkAll_singleton first with rfl | ⟨isSome, rfl⟩
      · exact absurd early List.not_mem_nil
      · have positive := behind isSome
        obtain rfl := List.mem_singleton.mp early
        omega
    · have bounds := ih (fun _ => Nat.succ_pos index) others place late
      omega

/-- The front of a sequence that passes the check passes it, with the places whose signatures are in
the front. -/
theorem checkAll_front {front back : List Element} {places : List Nat}
    (h : checkAll installed verify 0 none (front ++ back) = .ok places) :
    checkAll installed verify 0 none front =
      .ok (places.filter fun place => place + 1 < front.length) := by
  rw [checkAll_append] at h
  obtain ⟨kept, first, h⟩ := bind_eq_ok_iff.mp h
  obtain ⟨later, others, h⟩ := bind_eq_ok_iff.mp h
  obtain rfl := Except.ok.inj h
  have inFront : ∀ place ∈ kept, place + 1 < front.length := by
    have nothing : (none : Option Element).isSome = true → 0 < 0 := fun isSome => nomatch isSome
    intro place mem
    have bounds := bounds_of_checkAll nothing first place mem
    omega
  have behind : ∀ place ∈ later, ¬place + 1 < front.length := by
    -- what has an element before it stands behind a front that is not empty
    have notFirst : (front.getLast?.or none).isSome = true → 0 < 0 + front.length := by
      cases front with
      | nil => exact fun isSome => absurd isSome Bool.false_ne_true
      | cons element front => exact fun _ => Nat.lt_add_left 0 (Nat.succ_pos _)
    intro place mem
    have bounds := bounds_of_checkAll notFirst others place mem
    omega
  rw [first, List.filter_append, List.filter_eq_self.mpr (by simpa using inFront),
    List.filter_eq_nil_iff.mpr (by simpa using behind), List.append_nil]

/-! ### Accepting a front -/

variable {registry : Registry} {gateway : Gateway} {input sent : Octets}

/-- What was read from the front of a list of items is the front of what was read. -/
theorem Reads.front {items : List SExpr} {sequence : Sequence}
    (reads : Reads installed gateway input (.list (.text "sequence" :: items)) sequence)
    {count : Nat} (within : count ≤ items.length)
    (read : SExpr.read sent = .ok (.list (.text "sequence" :: items.take count))) :
    Reads installed gateway sent (.list (.text "sequence" :: items.take count))
      ⟨sequence.elements.take count⟩ := by
  refine ⟨read, ?_⟩
  have whole := reads.2
  rw [← List.take_append_drop count items] at whole
  have decoded := Sequence.decode_front whole
  rwa [List.length_take_of_le within] at decoded

/-- If a gateway accepts a sequence, it accepts each front of it, in whatever octets that is
written: with the elements of the front as they are in the whole, and with those of the signed
places signed whose signatures are in the front.  A front can be written where the whole can. -/
theorem fronts_of_accepted_sequences_are_accepted {registry : Registry} {gateway : Gateway}
    {input : Octets} {accepted : Accepted}
    (answered : answer (some registry) gateway input = .ok accepted) :
    ∃ items, SExpr.read input = .ok (.list (.text "sequence" :: items)) ∧
      accepted.sequence.elements.length = items.length ∧
      ∀ count ≤ items.length,
        (∃ front : Accepted,
          front.sequence.elements = accepted.sequence.elements.take count ∧
          front.signed = accepted.signed.filter (fun place => place + 1 < count) ∧
          ∀ sent, SExpr.read sent = .ok (.list (.text "sequence" :: items.take count)) →
            answer (some registry) gateway sent = .ok front) ∧
        (∀ sent, (SExpr.list (.text "sequence" :: items.take count)).Sent sent →
          SExpr.read sent = .ok (.list (.text "sequence" :: items.take count))) ∧
        ((SExpr.list (.text "sequence" :: items)).pack.length < SExpr.memoryLimit →
          (SExpr.list (.text "sequence" :: items.take count)).Sent
            (SExpr.list (.text "sequence" :: items.take count)).pack) := by
  -- both loops have run through the whole, and are cut at the same place
  obtain ⟨expr, reads, checked⟩ := answer_eq_ok_iff.mp answered
  obtain ⟨items, rfl, each⟩ := Sequence.decode_eq_ok reads.2
  refine ⟨items, reads.1, each.length_eq.symm, fun count within => ⟨?_, ?_, ?_⟩⟩
  · have size : (accepted.sequence.elements.take count).length = count :=
      List.length_take_of_le (each.length_eq ▸ within)
    rw [← List.take_append_drop count accepted.sequence.elements] at checked
    have frontChecked := checkAll_front checked
    rw [size] at frontChecked
    exact ⟨⟨⟨_⟩, _⟩, rfl, rfl, fun sent read => answer_of_ok (reads.front within read) frontChecked⟩
  · intro sent form
    apply form.read_eq_ok
    exact (SExpr.nesting_front_le _ items count).trans (SExpr.nesting_le_of_read reads.1)
  · intro short
    exact .packed ((SExpr.length_pack_front_le _ items count).trans_lt short)

/-- A key that was accepted with a signature behind it is accepted alone, and is not signed then. -/
theorem key_is_accepted_without_its_signature :
    let whole : Accepted := ⟨⟨[.publicKey generatorKey, .signature paddedSignature]⟩, [0]⟩
    answer (some .standard) ⟨.standard, .empty⟩ paddedSequence.pack = .ok whole ∧
      ∃ alone : Accepted, alone.sequence.elements = [.publicKey generatorKey] ∧ alone.signed = [] ∧
        answer (some .standard) ⟨.standard, .empty⟩
          (SExpr.list [.text "sequence", paddedKey]).pack = .ok alone := by
  intro whole
  obtain ⟨items, read, -, fronts⟩ :=
    fronts_of_accepted_sequences_are_accepted answer_paddedSequence
  have same := Except.ok.inj (read.symm.trans read_paddedSequence)
  obtain rfl := (List.cons.inj (SExpr.list.inj same)).2
  obtain ⟨⟨front, elements, signed, answered⟩, readable, short⟩ := fronts 1 (by decide)
  have written := short length_paddedSequence
  exact ⟨answer_paddedSequence, front, elements, signed, answered _ (readable _ written)⟩

end Gateway

end SimplePki
