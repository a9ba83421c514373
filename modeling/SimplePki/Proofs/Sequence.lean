import Mathlib.Data.List.Forall2
import SimplePki.Proofs.Certificate
import SimplePki.Proofs.Signature
import SimplePki.Sequence

/-!
# Sequences that were read

Reading a sequence reads its items in order, each as one element.  What is known of each element
does not depend on the keys by which its hashes were resolved: a certificate is written as the very
item it was read from, every element can be written, and the hash in a signature is under a
registered algorithm.

## Main definitions

* `Element.ReadFrom`: the elements that an expression may be read as, for whatever lookup

## Main results

* `Sequence.foldlM_step_induction`: what each step of reading keeps is kept by reading
* `Sequence.decode_list`: a sequence is read by such steps from the items of a list
* `Sequence.decode_eq_ok`: the elements of a sequence are read from its items, one each
-/

namespace SimplePki

variable {installed : Installed}

/-! ### Elements -/

namespace Element

/-- Reading an element is reading it as the kind that its leading atom tells. -/
theorem decode_cases {lookup : KeyLookup} {expr : SExpr} {element : Element}
    (h : decode installed lookup expr = .ok element) :
    (∃ cert, element = certificate cert ∧ Certificate.decode installed expr = .ok cert) ∨
      (∃ signed, element = signature signed ∧
        Signature.decode installed lookup expr = .ok signed) ∨
      ∃ key, element = publicKey key ∧ PublicKey.decode expr = .ok key := by
  unfold decode at h
  split at h
  · obtain ⟨cert, read, rfl⟩ := map_eq_ok_iff.mp h
    exact Or.inl ⟨cert, rfl, read⟩
  · split at h
    · obtain ⟨signed, read, rfl⟩ := map_eq_ok_iff.mp h
      exact Or.inr (Or.inl ⟨signed, rfl, read⟩)
    · split at h
      · obtain ⟨key, read, rfl⟩ := map_eq_ok_iff.mp h
        exact Or.inr (Or.inr ⟨key, rfl, read⟩)
      · exact nomatch h

/-- The element is read from the expression with some way to find keys. -/
def ReadFrom (installed : Installed) (expr : SExpr) (element : Element) : Prop :=
  ∃ lookup, decode installed lookup expr = .ok element

theorem ReadFrom.cases {expr : SExpr} {element : Element} (h : element.ReadFrom installed expr) :
    (∃ cert, element = certificate cert ∧ Certificate.decode installed expr = .ok cert) ∨
      (∃ lookup signed, element = signature signed ∧
        Signature.decode installed lookup expr = .ok signed) ∨
      ∃ key, element = publicKey key := by
  obtain ⟨lookup, read⟩ := h
  rcases decode_cases read with cert | ⟨signed, same, decoded⟩ | ⟨key, same, -⟩
  · exact Or.inl cert
  · exact Or.inr (Or.inl ⟨lookup, signed, same, decoded⟩)
  · exact Or.inr (Or.inr ⟨key, same⟩)

/-- A certificate is written as the expression that it was read from. -/
theorem ReadFrom.encode_certificate {expr : SExpr} {cert : Certificate}
    (h : (certificate cert).ReadFrom installed expr) : cert.encode installed = .ok expr := by
  rcases h.cases with ⟨read, same, decoded⟩ | ⟨_, _, other, -⟩ | ⟨_, other⟩
  · rw [certificate.inj same, Certificate.encode, (Certificate.decode_eq_ok decoded).1]
  · cases other
  · cases other

/-- What was read can be written. -/
theorem ReadFrom.exists_encode {expr : SExpr} {element : Element}
    (h : element.ReadFrom installed expr) : ∃ payload, element.encode installed = .ok payload := by
  cases element with
  | certificate cert => exact ⟨expr, h.encode_certificate⟩
  | signature signed => exact ⟨signed.encode, rfl⟩
  | publicKey key => exact ⟨key.encode, rfl⟩

/-- The hash in a signature that was read is under a registered algorithm. -/
theorem ReadFrom.readable {expr : SExpr} {signed : Signature}
    (h : (signature signed).ReadFrom installed expr) : signed.hash.Readable installed := by
  rcases h.cases with ⟨_, other, -⟩ | ⟨lookup, read, same, decoded⟩ | ⟨_, other⟩
  · cases other
  · rw [signature.inj same]
    exact Signature.readable_of_decode decoded
  · cases other

end Element

/-! ### Sequences -/

namespace Sequence

/-- The element behind some others stands at the place that counts them. -/
theorem getElem?_of_split {elements front rest : List Element} {element : Element}
    (split : elements = front ++ element :: rest) : elements[front.length]? = some element := by
  rw [split, List.getElem?_append_right (Nat.le_refl _), Nat.sub_self, List.getElem?_cons_zero]

/-- One step puts the element that it reads in front. -/
theorem Reading.step_eq_ok {lookup : KeyLookup} {reading after : Reading} {item : SExpr}
    (h : Reading.step installed lookup reading item = .ok after) :
    ∃ element, after.elements = element :: reading.elements ∧
      element.ReadFrom installed item := by
  unfold Reading.step at h
  split at h
  obtain ⟨element, read, made⟩ := bind_eq_ok_iff.mp h
  cases made
  exact ⟨element, rfl, _, read⟩

/-- What holds of a reading, and is kept by each step, holds after any items were read. -/
theorem foldlM_step_induction {motive : Reading → Prop} {lookup : KeyLookup}
    (step : ∀ {reading after : Reading} {item : SExpr}, motive reading →
      Reading.step installed lookup reading item = .ok after → motive after)
    {items : List SExpr} {reading after : Reading} (start : motive reading)
    (h : items.foldlM (Reading.step installed lookup) reading = .ok after) : motive after := by
  induction items generalizing reading with
  | nil =>
    cases h
    exact start
  | cons item items ih =>
    rw [List.foldlM_cons] at h
    obtain ⟨between, first, others⟩ := bind_eq_ok_iff.mp h
    exact ih (step start first) others

/-- Reading items puts their elements in front, the last one first. -/
theorem foldlM_step_eq_ok {lookup : KeyLookup} {items : List SExpr} {reading after : Reading}
    (h : items.foldlM (Reading.step installed lookup) reading = .ok after) :
    ∃ elements, after.elements = elements.reverse ++ reading.elements ∧
      List.Forall₂ (fun item element => Element.ReadFrom installed item element) items elements := by
  -- by induction on the items, for whatever was read before them
  induction items generalizing reading with
  | nil =>
    cases h
    exact ⟨[], rfl, .nil⟩
  | cons item items ih =>
    rw [List.foldlM_cons] at h
    obtain ⟨between, step, others⟩ := bind_eq_ok_iff.mp h
    obtain ⟨element, front, read⟩ := Reading.step_eq_ok step
    obtain ⟨elements, behind, each⟩ := ih others
    refine ⟨element :: elements, ?_, .cons read each⟩
    rw [behind, front, List.reverse_cons, List.append_assoc, List.singleton_append]

/-- Reading a sequence is reading its items one after the other. -/
theorem decode_list (lookup : KeyLookup) (items : List SExpr) :
    decode installed lookup (.list (.text "sequence" :: items)) =
      (items.foldlM (Reading.step installed lookup) .start).map
        fun reading => ⟨reading.elements.reverse⟩ := by
  rw [decode, SExpr.tagged?_list_text]
  dsimp only
  cases items.foldlM (Reading.step installed lookup) .start <;> rfl

/-- Only lists that are led by the name are read as sequences. -/
theorem exists_items_of_decode {lookup : KeyLookup} {expr : SExpr} {sequence : Sequence}
    (h : decode installed lookup expr = .ok sequence) :
    ∃ items, expr = .list (.text "sequence" :: items) := by
  unfold decode at h
  split at h
  · next head items tagged =>
    obtain ⟨rfl, rfl⟩ := SExpr.tagged?_eq_cons_iff.mp tagged
    exact ⟨items, rfl⟩
  · exact nomatch h

/-- A sequence is read from a list of items, each of which is read as one element. -/
theorem decode_eq_ok {lookup : KeyLookup} {expr : SExpr} {sequence : Sequence}
    (h : decode installed lookup expr = .ok sequence) :
    ∃ items, expr = .list (.text "sequence" :: items) ∧
      List.Forall₂ (fun item element => Element.ReadFrom installed item element) items
        sequence.elements := by
  obtain ⟨items, rfl⟩ := exists_items_of_decode h
  rw [decode_list] at h
  obtain ⟨reading, folded, rfl⟩ := map_eq_ok_iff.mp h
  obtain ⟨elements, read, each⟩ := foldlM_step_eq_ok folded
  -- the elements were put in front of each other, and are turned around at the end
  rw [read, Reading.start, List.append_nil, List.reverse_reverse]
  exact ⟨items, rfl, each⟩

/-- The item that an element was read from stands at the place of the element. -/
theorem readFrom_of_getElem? {items : List SExpr} {elements : List Element}
    (h : List.Forall₂ (fun item element => Element.ReadFrom installed item element) items elements)
    {place : Nat} {element : Element} (found : elements[place]? = some element) :
    ∃ item, items[place]? = some item ∧ element.ReadFrom installed item := by
  induction h generalizing place with
  | nil => exact nomatch found
  | cons read _ ih =>
    cases place with
    | zero =>
      rw [List.getElem?_cons_zero] at found ⊢
      exact ⟨_, rfl, Option.some.inj found ▸ read⟩
    | succ place =>
      rw [List.getElem?_cons_succ] at found ⊢
      exact ih found

end Sequence

end SimplePki
