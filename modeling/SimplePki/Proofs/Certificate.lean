import SimplePki.Certificate
import SimplePki.Proofs.Name
import SimplePki.Proofs.Validity

/-!
# Certificates and their expressions

The terms behind the subject of a certificate are told by their places: the right to delegate, the
tag, the validity, where the first and the last may be missing.  The tag can be any expression, and
so it can be the very term that gives the right to delegate.  Written without that right, such a
tag is read as the right, and the validity behind it as the tag; where there is no validity, the tag
is found missing.

No other tag is misread.  A certificate that is written is read back with the same flag, the same
tag, the same bounds up to their seconds, and parties that are written as they were, unless its tag
is that term and its flag is not set.

## Main definitions

* `Certificate.Made`: the certificates that can be made
* `Certificate.TagIsRight`: the certificates that are misread
* `Certificate.Agrees`: what a certificate has in common with what is read back

## Main results

* `Certificate.decode_of_parties`: how the terms behind the subject are read
* `Certificate.decode_eq_ok`, `Certificate.exists_issuer_of_decode`,
  `Certificate.exists_bounds_of_decode`: what is known of a certificate that was read
* `Certificate.reads_back_iff_tag_is_no_right`
-/

namespace SimplePki.Certificate

variable {installed : Installed}

/-! ### Terms behind the subject -/

/-- The term that gives the right to delegate. -/
def rightTerm : SExpr := .list [.text "delegate"]

/-- The terms that a certificate is written with behind its subject. -/
def terms (cert : Certificate) : List SExpr :=
  (if cert.delegate then [rightTerm] else []) ++
    cert.tag :: (cert.validity.bind Validity.encode).toList

/-- The certificate does not give the right to delegate, and its tag is the term that gives it. -/
def TagIsRight (cert : Certificate) : Prop := cert.delegate = false ∧ cert.tag = rightTerm

theorem isDelegate_iff {expr : SExpr} : isDelegate expr = true ↔ expr = rightTerm :=
  decide_eq_true_iff

theorem takeDelegate_cons_of_ne {tag : SExpr} (h : tag ≠ rightTerm) (rest : List SExpr) :
    takeDelegate (tag :: rest) = (false, tag :: rest) :=
  if_neg fun same => h (isDelegate_iff.mp same)

theorem takeDelegate_rightTerm (rest : List SExpr) :
    takeDelegate (rightTerm :: rest) = (true, rest) := by
  rw [takeDelegate, if_pos (isDelegate_iff.mpr rfl)]

theorem suffix_takeDelegate (terms : List SExpr) : (takeDelegate terms).2 <:+ terms := by
  cases terms with
  | nil => exact List.suffix_refl []
  | cons first rest =>
    by_cases isRight : first = rightTerm
    · rw [isRight, takeDelegate_rightTerm]
      exact List.suffix_cons _ _
    · simp only [takeDelegate_cons_of_ne isRight, List.suffix_rfl]

/-- Without the flag, what is left does not begin with the term that gives the right. -/
theorem ne_rightTerm_of_takeDelegate {terms rest : List SExpr} {tag : SExpr}
    (h : takeDelegate terms = (false, tag :: rest)) : tag ≠ rightTerm := by
  rintro rfl
  cases terms with
  | nil => exact nomatch h
  | cons first others =>
    by_cases isRight : first = rightTerm
    · rw [isRight, takeDelegate_rightTerm] at h
      exact nomatch h
    · rw [takeDelegate_cons_of_ne isRight] at h
      exact isRight (List.cons.inj (Prod.mk.inj h).2).1

/-- The flag is read back, unless the tag is taken for it. -/
theorem takeDelegate_terms {cert : Certificate} (h : ¬cert.TagIsRight) :
    takeDelegate cert.terms =
      (cert.delegate, cert.tag :: (cert.validity.bind Validity.encode).toList) := by
  unfold terms
  cases flag : cert.delegate with
  | true => exact takeDelegate_rightTerm _
  | false => exact takeDelegate_cons_of_ne (fun same => h ⟨flag, same⟩) _

theorem takeDelegate_terms_of_tagIsRight {cert : Certificate} (h : cert.TagIsRight) :
    takeDelegate cert.terms = (true, (cert.validity.bind Validity.encode).toList) := by
  obtain ⟨flag, tag⟩ := h
  rw [terms, flag, tag]
  exact takeDelegate_rightTerm _

theorem terms_eq_cons (cert : Certificate) :
    ∃ first rest, cert.terms = first :: rest ∧ rest.length ≤ 2 := by
  have few : ((cert.validity.bind Validity.encode).toList).length ≤ 1 :=
    Option.length_toList_le
  unfold terms
  cases cert.delegate with
  | true => exact ⟨_, _, rfl, Nat.succ_le_succ few⟩
  | false => exact ⟨_, _, rfl, Nat.le_succ_of_le few⟩

/-- The tag is read back with the validity that is behind it. -/
theorem decodeTagged_cons {validity : Option Validity}
    (h : ∀ bounds, validity = some bounds → bounds.InCalendar) (tag : SExpr) :
    decodeTagged (tag :: (validity.bind Validity.encode).toList) =
      .ok (tag, Validity.shown validity) := by
  cases validity with
  | none => rfl
  | some bounds =>
    rw [Option.bind_some]
    cases written : bounds.encode with
    | none =>
      have unbounded := Validity.encode_eq_none_iff.mp written
      rw [Validity.shown, Option.bind_some, if_pos unbounded]
      rfl
    | some term =>
      have bounded : ¬bounds.isUnbounded = true := by
        rw [← Validity.encode_eq_none_iff, written]
        exact Option.some_ne_none term
      rw [Option.toList_some, decodeTagged, Validity.decode_encode (h bounds rfl) written, ok_bind,
        Validity.shown, Option.bind_some, if_neg bounded]
      rfl

/-! ### Whole certificates -/

theorem synthesize_eq_ok {cert : Certificate} {expr : SExpr}
    (h : cert.synthesize installed = .ok expr) :
    ∃ issuer subject, cert.issuer.encode = .ok issuer ∧
      cert.subject.encode installed = .ok subject ∧
      expr = .list (.text "cert" :: .list [.text "issuer", issuer] ::
        .list [.text "subject", subject] :: cert.terms) := by
  obtain ⟨issuer, issuerWritten, h⟩ := bind_eq_ok_iff.mp h
  obtain ⟨subject, subjectWritten, h⟩ := bind_eq_ok_iff.mp h
  exact ⟨issuer, subject, issuerWritten, subjectWritten, (Except.ok.inj h).symm⟩

theorem namedValue_list_text (name : String) (value : SExpr) :
    namedValue name (.list [.text name, value]) = .ok value := by
  rw [namedValue, SExpr.tagged?_list_text]

/-- Where both parties can be read, reading a certificate comes down to reading the terms behind
them. -/
theorem decode_of_parties {issuerExpr subjectExpr : SExpr} {issuer : Name} {subject : Subject}
    (readIssuer : Name.decode installed issuerExpr = .ok issuer)
    (readSubject : Subject.decode installed subjectExpr = .ok subject) {terms rest : List SExpr}
    {first : SExpr} (split : terms = first :: rest) (few : rest.length ≤ 2) :
    let expr := SExpr.list (.text "cert" :: .list [.text "issuer", issuerExpr] ::
      .list [.text "subject", subjectExpr] :: terms)
    decode installed expr = (decodeTagged (takeDelegate terms).2).map fun tagged =>
      ⟨some expr, issuer, subject, (takeDelegate terms).1, tagged.2, tagged.1⟩ := by
  intro expr
  have tagged : expr.tagged? "cert" = some (.text "cert" :: .list [.text "issuer", issuerExpr] ::
      .list [.text "subject", subjectExpr] :: first :: rest) := by
    rw [← split]
    exact SExpr.tagged?_list_text "cert" _
  rw [decode, tagged]
  dsimp only
  rw [if_pos few, ← split, decodeTerms, namedValue_list_text, ok_bind, readIssuer, ok_bind,
    namedValue_list_text, ok_bind, readSubject, ok_bind]
  dsimp only
  cases decodeTagged (takeDelegate terms).2 with
  | error error => rfl
  | ok tagged => rfl

/-- What is read as a tag comes first, and bounds are read from the one term behind it. -/
theorem decodeTagged_eq_ok {terms : List SExpr} {tag : SExpr} {validity : Option Validity}
    (h : decodeTagged terms = .ok (tag, validity)) :
    (∃ rest, terms = tag :: rest) ∧ ∀ bounds, validity = some bounds →
      ∃ term, terms = [tag, term] ∧ Validity.decode term = .ok bounds := by
  match terms with
  | [] => exact nomatch h
  | [first] =>
    cases h
    exact ⟨⟨[], rfl⟩, fun _ same => (nomatch same)⟩
  | first :: second :: rest =>
    obtain ⟨bounds, read, h⟩ := bind_eq_ok_iff.mp h
    cases rest with
    | cons extra others => exact nomatch h
    | nil =>
      cases h
      refine ⟨⟨[second], rfl⟩, ?_⟩
      intro other same
      rw [← Option.some.inj same]
      exact ⟨second, rfl, read⟩

/-- What a certificate has of the terms that it is read from. -/
theorem decodeTerms_eq_ok {received issuer subject : SExpr} {terms : List SExpr}
    {cert : Certificate} (h : decodeTerms installed received issuer subject terms = .ok cert) :
    cert.received = some received ∧ (∃ item, Name.decode installed item = .ok cert.issuer) ∧
      (takeDelegate terms).1 = cert.delegate ∧
      decodeTagged (takeDelegate terms).2 = .ok (cert.tag, cert.validity) := by
  obtain ⟨item, -, h⟩ := bind_eq_ok_iff.mp h
  obtain ⟨name, named, h⟩ := bind_eq_ok_iff.mp h
  obtain ⟨_, -, h⟩ := bind_eq_ok_iff.mp h
  obtain ⟨_, -, h⟩ := bind_eq_ok_iff.mp h
  dsimp only at h
  obtain ⟨⟨tag, validity⟩, tagged, made⟩ := bind_eq_ok_iff.mp h
  cases made
  exact ⟨rfl, ⟨item, named⟩, rfl, tagged⟩

section Decoded

variable {expr : SExpr} {cert : Certificate}

/-- A certificate is read from a list that is led by its word. -/
theorem exists_decodeTerms_of_decode (h : decode installed expr = .ok cert) :
    ∃ issuer subject terms, expr = .list (.text "cert" :: issuer :: subject :: terms) ∧
      decodeTerms installed expr issuer subject terms = .ok cert := by
  unfold decode at h
  split at h
  · next tagged =>
    obtain ⟨rfl, rfl⟩ := SExpr.tagged?_eq_cons_iff.mp tagged
    split at h
    · exact ⟨_, _, _, rfl, h⟩
    · exact nomatch h
  · exact nomatch h

theorem exists_terms_of_decode (h : decode installed expr = .ok cert) :
    ∃ terms, expr = .list (.text "cert" :: terms) := by
  obtain ⟨_, _, _, led, -⟩ := exists_decodeTerms_of_decode h
  exact ⟨_, led⟩

/-- The issuer of a certificate that was read was read from a term of its own. -/
theorem exists_issuer_of_decode (h : decode installed expr = .ok cert) :
    ∃ item, Name.decode installed item = .ok cert.issuer := by
  obtain ⟨_, _, _, -, read⟩ := exists_decodeTerms_of_decode h
  exact (decodeTerms_eq_ok read).2.1

/-- The bounds of a certificate that was read were read from its last term. -/
theorem exists_bounds_of_decode (h : decode installed expr = .ok cert) {validity : Validity}
    (bounded : cert.validity = some validity) :
    ∃ front bounds, expr = .list (front ++ [bounds]) ∧ Validity.decode bounds = .ok validity := by
  obtain ⟨issuer, subject, terms, led, read⟩ := exists_decodeTerms_of_decode h
  obtain ⟨-, -, -, tagged⟩ := decodeTerms_eq_ok read
  obtain ⟨bounds, behind, decoded⟩ := (decodeTagged_eq_ok tagged).2 validity bounded
  obtain ⟨front, split⟩ := suffix_takeDelegate terms
  refine ⟨.text "cert" :: issuer :: subject :: (front ++ [cert.tag]), bounds, ?_, decoded⟩
  rw [led, ← split, behind]
  simp

/-- What is read has kept its expression, has bounds that can be shown and have no fractions, and is
not misread when it is written again. -/
theorem decode_eq_ok (h : decode installed expr = .ok cert) :
    cert.received = some expr ∧ ¬cert.TagIsRight ∧
      ∀ bounds, cert.validity = some bounds →
        bounds.InCalendar ∧ bounds.stamped = bounds ∧ bounds.isUnbounded = false := by
  obtain ⟨issuer, subject, terms, -, read⟩ := exists_decodeTerms_of_decode h
  obtain ⟨kept, -, flagged, tagged⟩ := decodeTerms_eq_ok read
  refine ⟨kept, ?_, ?_⟩
  · -- without the flag, the first term was looked at and was not the right
    rintro ⟨flag, isRight⟩
    obtain ⟨rest, first⟩ := (decodeTagged_eq_ok tagged).1
    exact ne_rightTerm_of_takeDelegate (Prod.ext (flagged.trans flag) first) isRight
  · intro bounds bounded
    obtain ⟨front, term, -, decoded⟩ := exists_bounds_of_decode h bounded
    exact ⟨Validity.inCalendar_of_decode decoded, Validity.stamped_of_decode decoded,
      Validity.isUnbounded_of_decode decoded⟩

end Decoded

/-! ### Certificates that can be made -/

/-- The certificates that can be made: granted or read, and then changed any number of times. -/
inductive Made (installed : Installed) : Certificate → Prop where
  | grant (issuer : Name) (subject : Subject) (tag : SExpr) :
      Made installed (grant issuer subject tag)
  | read {expr : SExpr} {cert : Certificate} : decode installed expr = .ok cert →
      Made installed cert
  | withDelegation {cert : Certificate} (delegate : Bool) : Made installed cert →
      Made installed (cert.withDelegation delegate)
  | withValidity {cert : Certificate} {validity : Validity} : Made installed cert →
      validity.InCalendar → Made installed (cert.withValidity validity)

/-- The bounds of a certificate can be shown, whatever was changed. -/
theorem Made.inCalendar {cert : Certificate} (made : cert.Made installed) :
    ∀ bounds, cert.validity = some bounds → bounds.InCalendar := by
  induction made with
  | grant issuer subject tag =>
    intro bounds same
    exact nomatch same
  | read read =>
    intro bounds same
    exact ((decode_eq_ok read).2.2 bounds same).1
  | withDelegation delegate _ ih => exact ih
  | withValidity _ shown _ =>
    intro bounds same
    rw [← Option.some.inj same]
    exact shown

/-- A certificate that has kept its expression is the one that is read from it. -/
theorem Made.decode_of_received {cert : Certificate} (made : cert.Made installed) {expr : SExpr}
    (kept : cert.received = some expr) : decode installed expr = .ok cert := by
  induction made with
  | grant issuer subject tag => exact nomatch kept
  | read read =>
    have same := (decode_eq_ok read).1.symm.trans kept
    rw [← Option.some.inj same]
    exact read
  | withDelegation delegate _ _ => exact nomatch kept
  | withValidity _ _ _ => exact nomatch kept

/-! ### What is read back -/

/-- The flag and the tag of a certificate, its bounds up to their seconds, and parties that are
written as the certificate's are. -/
structure Agrees (installed : Installed) (cert reread : Certificate) : Prop where
  delegate : reread.delegate = cert.delegate
  tag : reread.tag = cert.tag
  validity : reread.validity = Validity.shown cert.validity
  issuer : reread.issuer.encode = cert.issuer.encode
  subject : reread.subject.encode installed = cert.subject.encode installed

/-- A certificate that was put together is read back term by term. -/
theorem decode_synthesize {cert : Certificate} {expr : SExpr}
    (issuerReadable : cert.issuer.Readable installed)
    (subjectReadable : cert.subject.Readable installed)
    (written : cert.synthesize installed = .ok expr) :
    ∃ issuer subject, issuer.encode = cert.issuer.encode ∧
      Subject.encode installed subject = cert.subject.encode installed ∧
      decode installed expr = (decodeTagged (takeDelegate cert.terms).2).map fun tagged =>
        ⟨some expr, issuer, subject, (takeDelegate cert.terms).1, tagged.2, tagged.1⟩ := by
  obtain ⟨issuerExpr, subjectExpr, issuerWritten, subjectWritten, rfl⟩ := synthesize_eq_ok written
  have readIssuer := Name.decode_encode issuerReadable issuerWritten
  obtain ⟨subject, readSubject, subjectAgain⟩ :=
    Subject.decode_encode subjectReadable subjectWritten
  obtain ⟨first, rest, split, few⟩ := cert.terms_eq_cons
  exact ⟨cert.issuer.bare, subject, cert.issuer.encode_bare,
    subjectAgain.trans subjectWritten.symm,
    decode_of_parties readIssuer readSubject split few⟩

/-- A certificate that has kept its expression agrees with itself. -/
theorem Made.agrees_of_received {cert : Certificate} (made : cert.Made installed) {expr : SExpr}
    (kept : cert.received = some expr) : Agrees installed cert cert := by
  obtain ⟨-, -, bounds⟩ := decode_eq_ok (made.decode_of_received kept)
  refine ⟨rfl, rfl, ?_, rfl, rfl⟩
  cases validity : cert.validity with
  | none => rfl
  | some known =>
    obtain ⟨-, same, bounded⟩ := bounds known validity
    rw [Validity.shown, Option.bind_some, bounded, if_neg (by simp), same]

/-- A certificate whose tag is no right is read back. -/
theorem Made.agrees_of_not_tagIsRight {cert : Certificate} (made : cert.Made installed)
    (issuerReadable : cert.issuer.Readable installed)
    (subjectReadable : cert.subject.Readable installed) {expr : SExpr}
    (written : cert.encode installed = .ok expr) (h : ¬cert.TagIsRight) :
    ∃ reread, decode installed expr = .ok reread ∧ Agrees installed cert reread := by
  -- a certificate that was read and left as it was is written as it was read
  unfold encode at written
  cases kept : cert.received with
  | some received =>
    rw [kept] at written
    cases written
    exact ⟨cert, made.decode_of_received kept, made.agrees_of_received kept⟩
  | none =>
    rw [kept] at written
    obtain ⟨issuer, subject, sameIssuer, sameSubject, read⟩ :=
      decode_synthesize issuerReadable subjectReadable written
    rw [takeDelegate_terms h, decodeTagged_cons made.inCalendar] at read
    exact ⟨_, read, rfl, rfl, rfl, sameIssuer, sameSubject⟩

/-- A certificate whose tag is the right is read with the right, and with its validity for a tag. -/
theorem Made.decode_of_tagIsRight {cert : Certificate} (made : cert.Made installed)
    (issuerReadable : cert.issuer.Readable installed)
    (subjectReadable : cert.subject.Readable installed) {expr : SExpr}
    (written : cert.encode installed = .ok expr) (h : cert.TagIsRight) :
    (∀ term, cert.validity.bind Validity.encode = some term → ∃ reread,
      decode installed expr = .ok reread ∧ reread.delegate = true ∧ reread.tag = term ∧
        reread.validity = none) ∧
    (cert.validity.bind Validity.encode = none →
      decode installed expr = .error (.expression .noTag)) := by
  -- what was read is not of this kind, so that the expression was put together
  have notKept : cert.received = none := by
    cases kept : cert.received with
    | none => rfl
    | some received => exact absurd h (decode_eq_ok (made.decode_of_received kept)).2.1
  rw [encode, notKept] at written
  obtain ⟨issuer, subject, -, -, read⟩ :=
    decode_synthesize issuerReadable subjectReadable written
  rw [takeDelegate_terms_of_tagIsRight h] at read
  constructor
  · intro term shown
    rw [shown] at read
    exact ⟨_, read, rfl, rfl, rfl⟩
  · intro hidden
    rw [hidden] at read
    exact read

/-- A certificate that is written is read back with its flag, its tag, its bounds and its parties
exactly if it is not one without the right to delegate whose tag is the term of that right.  Such a
certificate is read with the right, and with its validity for a tag, or it is not read for want of a
tag; no other certificate without the right is read with it. -/
theorem reads_back_iff_tag_is_no_right {cert : Certificate} (made : cert.Made installed)
    (issuerReadable : cert.issuer.Readable installed)
    (subjectReadable : cert.subject.Readable installed) {expr : SExpr}
    (written : cert.encode installed = .ok expr) :
    ((∃ reread, decode installed expr = .ok reread ∧ Agrees installed cert reread) ↔
      ¬cert.TagIsRight) ∧
    (cert.TagIsRight →
      (∀ term, cert.validity.bind Validity.encode = some term → ∃ reread,
        decode installed expr = .ok reread ∧ reread.delegate = true ∧ reread.tag = term ∧
          reread.validity = none) ∧
      (cert.validity.bind Validity.encode = none →
        decode installed expr = .error (.expression .noTag))) ∧
    (cert.delegate = false →
      ((∃ reread, decode installed expr = .ok reread ∧ reread.delegate = true) ↔
        cert.TagIsRight ∧ ∃ term, cert.validity.bind Validity.encode = some term)) := by
  have misread := made.decode_of_tagIsRight issuerReadable subjectReadable written
  have agrees := made.agrees_of_not_tagIsRight issuerReadable subjectReadable written
  refine ⟨⟨?_, agrees⟩, misread, ?_⟩
  · rintro ⟨reread, read, agree⟩ isRight
    obtain ⟨withTerm, without⟩ := misread isRight
    cases shown : cert.validity.bind Validity.encode with
    | none => exact nomatch read.symm.trans (without shown)
    | some term =>
      obtain ⟨other, readOther, flag, -⟩ := withTerm term shown
      rw [Except.ok.inj (readOther.symm.trans read), agree.delegate, isRight.1] at flag
      exact nomatch flag
  · intro noRight
    constructor
    · rintro ⟨reread, read, flag⟩
      by_cases isRight : cert.TagIsRight
      · refine ⟨isRight, ?_⟩
        cases shown : cert.validity.bind Validity.encode with
        | none => exact nomatch read.symm.trans ((misread isRight).2 shown)
        | some term => exact ⟨term, rfl⟩
      · -- read back with its flag, which is not set
        obtain ⟨other, readOther, agree⟩ := agrees isRight
        rw [Except.ok.inj (read.symm.trans readOther), agree.delegate, noRight] at flag
        exact nomatch flag
    · rintro ⟨isRight, term, shown⟩
      obtain ⟨reread, read, flag, -⟩ := (misread isRight).1 term shown
      exact ⟨reread, read, flag⟩

/-- A grant from the beginning of 2014 without the right to delegate: what is read back from it
gives the right, for all time. -/
theorem tag_that_is_the_right_is_read_as_the_right :
    let bounds : Validity := ⟨some ⟨1388534400, 0⟩, none⟩
    let cert := (grant .speaker (.object ⟨"sha256", List.replicate 32 0, []⟩)
      (.list [.text "delegate"])).withValidity bounds
    cert.delegate = false ∧ ∃ expr reread, cert.encode (some .standard) = .ok expr ∧
      decode (some .standard) expr = .ok reread ∧ reread.delegate = true ∧
        reread.validity = none := by
  intro bounds cert
  have shown : bounds.InCalendar := by
    refine ⟨?_, fun _ none => (nomatch none)⟩
    intro instant same
    rw [← Option.some.inj same]
    exact ⟨⟨⟨2014, 1, 1⟩, by decide, by decide⟩, by decide⟩
  have made : cert.Made (some .standard) := .withValidity (.grant _ _ _) shown
  have issuer : cert.issuer.Readable (some .standard) := fun _ same => (nomatch same)
  have subject : cert.subject.Readable (some .standard) := by
    intro hash same
    rw [← Except.ok.inj same]
    exact ⟨.standard, .sha256, rfl, rfl, rfl⟩
  obtain ⟨-, misread, -⟩ := reads_back_iff_tag_is_no_right made issuer subject rfl
  obtain ⟨reread, read, flag, -, validity⟩ := (misread ⟨rfl, rfl⟩).1 _ rfl
  exact ⟨rfl, _, reread, rfl, read, flag, validity⟩

end SimplePki.Certificate
