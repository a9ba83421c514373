import SimplePki.Proofs.Name.Transport
import SimplePki.Proofs.Timestamp.Layout
import SimplePki.Proofs.Validity.Transport

/-!
# The layout of bounds

The expression of a validity says nothing but the texts of its bounds: their number, their order and
the names in front of them are fixed.  So it is written back as it was read exactly if these texts
have the layout in which timestamps are written.  Among such expressions each validity has one;
other expressions may say the same in other texts.

A certificate that is changed is put together again, and its bounds with it.  It keeps the bounds it
was received with under the same condition.

## Main definitions

* `Validity.InLayout`: the expressions of which all timestamps have the layout

## Main results

* `Validity.encode_eq_some_iff`: which expressions are written back
* `Validity.written_back_iff_in_layout`
-/

namespace SimplePki

variable {installed : Installed}

theorem Octets.ofText_inj {a b : String} : ofText a = ofText b ↔ a = b := by
  refine ⟨fun same => ?_, congrArg ofText⟩
  have texts := congrArg text? same
  rw [text?_ofText, text?_ofText] at texts
  exact Option.some.inj texts

namespace Validity

/-! ### Bounds and their terms -/

/-- The timestamps in these terms have the layout in which timestamps are written. -/
def TermsInLayout (terms : List SExpr) : Prop :=
  ∀ name text, SExpr.term name (Octets.ofText text) ∈ terms → Timestamp.Layout text.toList

/-- The timestamps in the expression of a validity have the layout. -/
def InLayout (expr : SExpr) : Prop := ∀ items, expr = .list items → TermsInLayout items

theorem termsInLayout_nil : TermsInLayout [] := fun _ _ mem => (nomatch mem)

theorem termsInLayout_singleton {name text : String} :
    TermsInLayout [.term name (Octets.ofText text)] ↔ Timestamp.Layout text.toList := by
  constructor
  · exact fun layout => layout name text List.mem_cons_self
  · intro layout other written mem
    obtain ⟨-, same⟩ := SExpr.term_inj.mp (List.mem_singleton.mp mem)
    rwa [Octets.ofText_inj.mp same]

theorem termsInLayout_append {terms others : List SExpr} :
    TermsInLayout (terms ++ others) ↔ TermsInLayout terms ∧ TermsInLayout others := by
  simp only [TermsInLayout, List.mem_append, or_imp, forall_and]

/-- The word in front is no term. -/
theorem inLayout_list_text {word : String} {terms : List SExpr} :
    InLayout (.list (.text word :: terms)) ↔ TermsInLayout terms := by
  constructor
  · exact fun layout name text mem => layout _ rfl name text (List.mem_cons_of_mem _ mem)
  · rintro layout items same name text mem
    rw [← SExpr.list.inj same] at mem
    rcases List.mem_cons.mp mem with isWord | behind
    · exact nomatch isWord
    · exact layout name text behind

/-- A bound is written with as many terms as it is read from. -/
theorem ReadBound.length_boundTerms {name : String} {bound : Option Instant} {terms : List SExpr}
    (read : ReadBound name bound terms) : (boundTerms name bound).length = terms.length := by
  cases read <;> rfl

theorem ReadBound.boundTerms_eq_iff {name : String} {bound : Option Instant} {terms : List SExpr}
    (read : ReadBound name bound terms) :
    boundTerms name bound = terms ↔ TermsInLayout terms := by
  cases read with
  | missing => exact iff_of_true rfl termsInLayout_nil
  | given known =>
    rw [termsInLayout_singleton, ← Instant.toText_eq_iff (readTimestamp_eq_ok_iff.mp known)]
    simp only [boundTerms, Option.map_some, Option.toList_some, encodeBound, List.cons.injEq,
      and_true, SExpr.term_inj, true_and, Octets.ofText_inj]

/-! ### Expressions of validities -/

section Decoded

variable {expr : SExpr} {validity : Validity}

/-- What is read as a validity is written back exactly if its timestamps have the layout. -/
theorem encode_eq_some_iff (h : decode expr = .ok validity) :
    validity.encode = some expr ↔ InLayout expr := by
  obtain ⟨lower, upper, -, rfl, readLower, readUpper⟩ := decode_eq_ok h
  rw [encode_of_bounded (isUnbounded_of_decode h), inLayout_list_text, termsInLayout_append,
    ← readLower.boundTerms_eq_iff, ← readUpper.boundTerms_eq_iff]
  simp only [Option.some.injEq, SExpr.list.injEq, List.cons.injEq, true_and]
  -- as many terms are written for each bound as it was read from
  constructor
  · exact fun same => List.append_inj same readLower.length_boundTerms
  · rintro ⟨sameLower, sameUpper⟩
    rw [sameLower, sameUpper]

/-- Expressions in the layout that say the same are the same. -/
theorem eq_of_inLayout {other : SExpr} (h : decode expr = .ok validity)
    (again : decode other = .ok validity) (layout : InLayout expr) (layoutOther : InLayout other) :
    expr = other := by
  have written := (encode_eq_some_iff h).mpr layout
  have writtenOther := (encode_eq_some_iff again).mpr layoutOther
  exact Option.some.inj (written.symm.trans writtenOther)

end Decoded

end Validity

/-! ### Bounds of certificates -/

namespace Certificate

variable {expr : SExpr} {cert : Certificate}

/-- The issuer of a certificate that was read can be written. -/
theorem exists_encode_issuer_of_decode (h : decode installed expr = .ok cert) :
    ∃ issuer, cert.issuer.encode = .ok issuer := by
  obtain ⟨item, read⟩ := exists_issuer_of_decode h
  have conveyable : ∀ key, cert.issuer.principal = some key → key.Conveyable installed := by
    intro key named
    obtain ⟨inner, known⟩ := Name.exists_key_of_decode read named
    exact Key.conveyable_of_decode known
  exact Name.exists_encode_of_conveyable conveyable

/-- A certificate that is put together ends with its bounds. -/
theorem exists_synthesize (cert : Certificate) {issuer subject bounds : SExpr}
    (issuerWritten : cert.issuer.encode = .ok issuer)
    (subjectWritten : cert.subject.encode installed = .ok subject)
    (boundsWritten : cert.validity.bind Validity.encode = some bounds) :
    ∃ front, cert.synthesize installed = .ok (.list (front ++ [bounds])) := by
  refine ⟨[.text "cert", .list [.text "issuer", issuer], .list [.text "subject", subject]] ++
    (if cert.delegate then [.list [.text "delegate"]] else []) ++ [cert.tag], ?_⟩
  rw [synthesize, issuerWritten, ok_bind, subjectWritten, ok_bind, boundsWritten]
  simp only [Option.toList_some, List.append_assoc, List.singleton_append]
  rfl

end Certificate

namespace Validity

/-- A timestamp that is read is written back exactly if it has the layout of timestamps that are
written, and so is the expression of a validity, exactly if its timestamps have it; of the
expressions that do, each validity has one.

A certificate with bounds was read from an expression that ends with them.  If its flag is set or
taken and its subject can be written, it ends with what is written for these bounds: with what was
read, exactly if that had the layout. -/
theorem written_back_iff_in_layout (installed : Installed) :
    (∀ text instant, readTimestamp text = .ok instant →
      (instant.toText = text ↔ Timestamp.Layout text.toList)) ∧
    (∀ expr validity, decode expr = .ok validity →
      (validity.encode = some expr ↔ InLayout expr)) ∧
    (∀ expr other validity, decode expr = .ok validity → decode other = .ok validity →
      InLayout expr → InLayout other → expr = other) ∧
    (∀ expr cert validity, Certificate.decode installed expr = .ok cert →
      cert.validity = some validity →
      ∃ front bounds, expr = .list (front ++ [bounds]) ∧ decode bounds = .ok validity ∧
        ∀ delegate subject, cert.subject.encode installed = .ok subject →
          ∃ frontAgain written,
            (cert.withDelegation delegate).encode installed =
              .ok (.list (frontAgain ++ [written])) ∧
            validity.encode = some written ∧ (written = bounds ↔ InLayout bounds)) := by
  refine ⟨?_, ?_, ?_, ?_⟩
  · intro text instant read
    exact Instant.toText_eq_iff (readTimestamp_eq_ok_iff.mp read)
  · exact fun _ _ read => encode_eq_some_iff read
  · exact fun _ _ _ read again => eq_of_inLayout read again
  · intro expr cert validity read bounded
    obtain ⟨front, bounds, led, readBounds⟩ := Certificate.exists_bounds_of_decode read bounded
    refine ⟨front, bounds, led, readBounds, fun delegate subject subjectWritten => ?_⟩
    -- changed, the certificate is put together from its parts, the instants of its bounds among them
    obtain ⟨issuer, issuerWritten⟩ := Certificate.exists_encode_issuer_of_decode read
    obtain ⟨written, boundsWritten⟩ := exists_encode (isUnbounded_of_decode readBounds)
    have changed : (cert.withDelegation delegate).validity.bind encode = some written := by
      rw [Certificate.withDelegation, bounded]
      exact boundsWritten
    obtain ⟨frontAgain, again⟩ := Certificate.exists_synthesize (cert.withDelegation delegate)
      issuerWritten subjectWritten changed
    refine ⟨frontAgain, written, again, boundsWritten, ?_⟩
    rw [← encode_eq_some_iff readBounds, boundsWritten, Option.some.injEq]

/-- A bound of one digit for each part, alone and in a certificate that is given the right to
delegate: it is written with two. -/
theorem single_digits_are_not_written_back :
    let instant : Instant := ⟨1388534400, 0⟩
    let bounds : SExpr :=
      .list [.text "valid", .term "not-before" (Octets.ofText "2014-1-1_0:0:0")]
    let expr : SExpr := .list [.text "cert", .list [.text "issuer", .text "Self"],
      .list [.text "subject", (HashValue.ofDigest "sha256" (List.replicate 32 0)).encode],
      .list [.text "tag"], bounds]
    readTimestamp "2014-1-1_0:0:0" = .ok instant ∧ instant.toText = "2014-01-01_00:00:00" ∧
      ¬Timestamp.Layout "2014-1-1_0:0:0".toList ∧
      decode bounds = .ok ⟨some instant, none⟩ ∧ encode ⟨some instant, none⟩ ≠ some bounds ∧
      ∃ cert, Certificate.decode (some .standard) expr = .ok cert ∧
        ∃ front written, (cert.withDelegation true).encode (some .standard) =
          .ok (.list (front ++ [written])) ∧ written ≠ bounds := by
  intro instant bounds expr
  obtain ⟨ofTimestamp, ofValidity, -, ofCertificate⟩ :=
    written_back_iff_in_layout (some .standard)
  have read : readTimestamp "2014-1-1_0:0:0" = .ok instant := by decide
  have shown : instant.toText = "2014-01-01_00:00:00" := by decide
  have noLayout : ¬Timestamp.Layout "2014-1-1_0:0:0".toList := by
    rw [← ofTimestamp _ _ read, shown]
    decide
  have decoded : decode bounds = .ok ⟨some instant, none⟩ := by rfl
  have noLayoutInside : ¬InLayout bounds := by
    rwa [inLayout_list_text, termsInLayout_singleton]
  refine ⟨read, shown, noLayout, decoded, ?_, ?_⟩
  · rwa [ne_eq, ofValidity _ _ decoded]
  · have readCert : Certificate.decode (some .standard) expr =
        .ok ⟨some expr, .speaker, .object (.ofDigest "sha256" (List.replicate 32 0)), false,
          some ⟨some instant, none⟩, .list [.text "tag"]⟩ := by rfl
    obtain ⟨front, last, led, -, changed⟩ := ofCertificate _ _ _ readCert rfl
    have same : bounds = last := by
      have items : [_, _, _, _] ++ [bounds] = front ++ [last] := SExpr.list.inj led
      exact List.singleton_inj.mp (List.append_inj_right' items rfl)
    obtain ⟨frontAgain, written, again, -, kept⟩ := changed true _ rfl
    rw [← same] at kept
    exact ⟨_, readCert, frontAgain, written, again, noLayoutInside ∘ kept.mp⟩

end Validity

end SimplePki
