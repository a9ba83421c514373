import SimplePki.Proofs.Certificate
import SimplePki.Proofs.Signature.Codec

/-!
# Certificates that a key issues

A key issues certificates under its own name, with the right to delegate.  Since that right is
written in front of the tag, no tag is taken for it, and an issued certificate is always read back:
with the issuer's key, with a subject that is written as the given one, with the tag, and with the
validity as far as it can be shown.

## Main definitions

* `PrivateKey.issuedExpr`: the expression of an issued certificate
* `Certificate.Conveys`: what a certificate has of those that were given to its issuer

## Main results

* `PrivateKey.encode_issue`, `PrivateKey.decode_issuedExpr`: an issued certificate is read back
* `PrivateKey.nesting_issuedExpr`: it is nested one deeper than its tag, or not deep at all
-/

namespace SimplePki

variable {installed : Installed}

/-! ### Parties -/

/-- The name of a key itself is read back, less what the key remembers. -/
theorem Name.decode_publicKey_encode (key : PublicKey) :
    Name.decode installed key.encode = .ok (.ofKey (.publicKey key.bare)) := by
  have readable : (ofKey (.publicKey key)).Readable installed := by
    rintro _ ⟨⟩
    exact trivial
  exact decode_encode readable rfl

/-- What is read from the expression of a subject is written as that expression. -/
theorem Subject.encode_of_decode {subject reread : Subject} {expr : SExpr}
    (written : subject.encode installed = .ok expr) (read : decode installed expr = .ok reread) :
    reread.encode installed = .ok expr := by
  rw [encode_eq] at written
  obtain ⟨hash, -, rfl⟩ := map_eq_ok_iff.mp written
  have isHash : hash.encode.isListOf "hash" = true := hash.isListOf_encode "hash"
  rw [decode, if_pos isHash] at read
  obtain ⟨other, decoded, rfl⟩ := map_eq_ok_iff.mp read
  obtain ⟨-, places, spelled, -⟩ := HashValue.decode_eq_ok_iff.mp decoded
  -- no subject is written with places, so that none were read
  obtain ⟨rfl, -⟩ := HashValue.spelled_eq_encode_iff.mp spelled.symm
  exact congrArg Except.ok spelled.symm

theorem Subject.nesting_encode {subject : Subject} {expr : SExpr}
    (written : subject.encode installed = .ok expr) : expr.nesting = 1 := by
  rw [encode_eq] at written
  obtain ⟨hash, -, rfl⟩ := map_eq_ok_iff.mp written
  rfl

theorem Validity.nesting_encode_le {validity : Validity} {term : SExpr}
    (written : validity.encode = some term) : term.nesting ≤ 2 := by
  unfold encode at written
  split at written
  · exact nomatch written
  · obtain rfl := Option.some.inj written
    apply Nat.succ_le_succ
    rw [SExpr.nestingItems_le_iff, List.forall_mem_cons]
    refine ⟨Nat.zero_le 1, fun bound mem => ?_⟩
    -- each bound is a list of two atoms
    rcases List.mem_append.mp mem with first | last
    · obtain ⟨instant, -, rfl⟩ := Option.map_eq_some_iff.mp (Option.mem_toList.mp first)
      exact Nat.le_refl 1
    · obtain ⟨instant, -, rfl⟩ := Option.map_eq_some_iff.mp (Option.mem_toList.mp last)
      exact Nat.le_refl 1

/-! ### Issued certificates -/

/-- The certificate gives the right to delegate what the tag says to the subject, under the name of
the issuer's key, for as long as was asked as far as that can be shown. -/
structure Certificate.Conveys (installed : Installed) (issuer : PublicKey) (subject tag : SExpr)
    (validity : Option Validity) (cert : Certificate) : Prop where
  delegate : cert.delegate = true
  tag : cert.tag = tag
  issuer : ∃ key, cert.issuer = .ofKey (.publicKey key) ∧ key.samePoint issuer = true
  subject : cert.subject.encode installed = .ok subject
  validity : cert.validity = Validity.shown validity

namespace PrivateKey

/-- The expression of an issued certificate with a given expression for the subject. -/
def issuedExpr (key : PrivateKey) (subject tag : SExpr) (validity : Option Validity) : SExpr :=
  .list (.text "cert" :: .list [.text "issuer", key.half.encode] ::
    .list [.text "subject", subject] ::
    Certificate.rightTerm :: tag :: (validity.bind Validity.encode).toList)

theorem issue_eq (key : PrivateKey) (subject : Subject) (tag : SExpr)
    (validity : Option Validity) :
    key.issue subject tag validity =
      ⟨none, .ofKey (.publicKey key.half), subject, true, validity, tag⟩ := by
  cases validity <;> rfl

theorem encode_issue (key : PrivateKey) {subject : Subject} {subjectExpr : SExpr}
    (named : subject.encode installed = .ok subjectExpr) (tag : SExpr)
    (validity : Option Validity) :
    (key.issue subject tag validity).encode installed =
      .ok (key.issuedExpr subjectExpr tag validity) := by
  have issuer : (Name.ofKey (.publicKey key.half)).encode = .ok key.half.encode := rfl
  rw [issue_eq, Certificate.encode]
  dsimp only
  rw [Certificate.synthesize]
  dsimp only
  rw [issuer, ok_bind, named, ok_bind]
  rfl

/-- An issued certificate is read back. -/
theorem decode_issuedExpr (key : PrivateKey) {subject reread : Subject} {subjectExpr : SExpr}
    (named : subject.encode installed = .ok subjectExpr)
    (readable : Subject.decode installed subjectExpr = .ok reread) (tag : SExpr)
    {validity : Option Validity}
    (inCalendar : ∀ bounds, validity = some bounds → bounds.InCalendar) :
    ∃ cert, Certificate.decode installed (key.issuedExpr subjectExpr tag validity) = .ok cert ∧
      cert.issuer = .ofKey (.publicKey key.half.bare) ∧
      cert.Conveys installed key.half subjectExpr tag validity := by
  -- behind the right there are the tag and at most one term, so that no tag is taken for the right
  have few : (tag :: (validity.bind Validity.encode).toList).length ≤ 2 :=
    Nat.succ_le_succ Option.length_toList_le
  have read := Certificate.decode_of_parties (Name.decode_publicKey_encode key.half) readable
    (Eq.refl (Certificate.rightTerm :: tag :: (validity.bind Validity.encode).toList)) few
  rw [Certificate.takeDelegate_rightTerm, Certificate.decodeTagged_cons inCalendar] at read
  exact ⟨_, read, rfl, rfl, rfl, ⟨key.half.bare, rfl, key.half.samePoint_bare⟩,
    Subject.encode_of_decode named readable, rfl⟩

/-- The certificate is a list around the tag, and around an issuer that is nested four deep. -/
theorem nesting_issuedExpr (key : PrivateKey) {subject : Subject} {subjectExpr : SExpr}
    (named : subject.encode installed = .ok subjectExpr) (tag : SExpr)
    (validity : Option Validity) :
    (key.issuedExpr subjectExpr tag validity).nesting = max 5 (tag.nesting + 1) := by
  have bounds : SExpr.nestingItems (validity.bind Validity.encode).toList ≤ 2 := by
    rw [SExpr.nestingItems_le_iff]
    intro term mem
    obtain ⟨known, -, written⟩ := Option.bind_eq_some_iff.mp (Option.mem_toList.mp mem)
    exact Validity.nesting_encode_le written
  have issuer : (SExpr.list [.text "issuer", key.half.encode]).nesting = 4 := rfl
  have subject : (SExpr.list [.text "subject", subjectExpr]).nesting = 2 := by
    simp only [SExpr.nesting, SExpr.nestingItems, SExpr.text, SExpr.ofOctets,
      Subject.nesting_encode named]
    rfl
  have word : (SExpr.text "cert").nesting = 0 := rfl
  have right : Certificate.rightTerm.nesting = 1 := rfl
  rw [issuedExpr, SExpr.nesting, SExpr.nestingItems, SExpr.nestingItems, SExpr.nestingItems,
    SExpr.nestingItems, SExpr.nestingItems, word, issuer, subject, right]
  omega

end PrivateKey

end SimplePki
