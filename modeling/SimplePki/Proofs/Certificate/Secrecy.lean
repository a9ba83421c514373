import SimplePki.Proofs.Certificate
import SimplePki.Proofs.SExpr.PrefixFree
import SimplePki.Proofs.SExpr.ReadsAdvanced

/-!
# Scalars in certificates

A certificate is meant for everybody, and a scalar for nobody.  Two certificates that are the same
but for the scalars of the private keys in them are compared: as far as they are written
differently, the one shows something of its scalars.

A subject is named by a hash of the public half, and a key issues certificates under the name of its
public half, so that neither shows a scalar.  But an issuer that is a private key, with identifiers
or without, is written as that key is written, with its scalar.  Certificates that are the same but
for the scalars are therefore written alike exactly if they have the scalars of their issuers in
common, or if they cannot be written since the subject cannot.

## Main definitions

* `Key.redacted`, `Name.redacted`, `Subject.redacted`, `Certificate.redacted`: what is left without
  the scalars
* `Name.scalar?`: the scalar of the key of a name
* `Certificate.Built`: the certificates that are put together from parts, and not read
* `Certificate.Hidden`: when two certificates show nothing of their scalars

## Main results

* `Subject.encode_congr`: subjects show no scalars
* `Name.encode_eq_iff_scalar`: names show the scalars of their keys
* `Certificate.encode_eq_iff_hidden`: certificates show the scalars of their issuers
* `Certificate.scalars_show_in_issuers_only`: all forms of a certificate, and its hashes
-/

namespace SimplePki

variable {installed : Installed}

/-! ### Keys and subjects -/

namespace Key

/-- The key with another scalar, if it has one. -/
def redacted : Key → Key
  | privateKey key => privateKey { key with scalar := 0 }
  | key => key

/-- The scalar of the key, if it has one. -/
def scalar? : Key → Option Nat
  | privateKey key => some key.scalar
  | _ => none

variable {a b : Key}

/-- Keys that are the same but for their scalars. -/
theorem redacted_cases (alike : a.redacted = b.redacted) :
    a = b ∨ ∃ half d e, a = .privateKey ⟨half, d⟩ ∧ b = .privateKey ⟨half, e⟩ := by
  cases a with
  | hashKey known =>
    cases b with
    | hashKey other => exact Or.inl alike
    | publicKey other => exact nomatch alike
    | privateKey other => exact nomatch alike
  | publicKey key =>
    cases b with
    | hashKey other => exact nomatch alike
    | publicKey other => exact Or.inl alike
    | privateKey other => exact nomatch alike
  | privateKey key =>
    cases b with
    | hashKey known => exact nomatch alike
    | publicKey other => exact nomatch alike
    | privateKey other =>
      obtain ⟨half, d⟩ := key
      obtain ⟨otherHalf, e⟩ := other
      have sameHalf : half = otherHalf := congrArg PrivateKey.half (Key.privateKey.inj alike)
      exact Or.inr ⟨half, d, e, rfl, by rw [sameHalf]⟩

/-- What names a key shows nothing of its scalar. -/
theorem subject_congr (alike : a.redacted = b.redacted) :
    (a.subject installed).1 = (b.subject installed).1 := by
  rcases redacted_cases alike with rfl | ⟨half, d, e, rfl, rfl⟩
  · rfl
  · rfl

/-- The expression of a key shows its scalar. -/
theorem encode_eq_iff_scalar (alike : a.redacted = b.redacted) :
    a.encode = b.encode ↔ a.scalar? = b.scalar? := by
  rcases redacted_cases alike with rfl | ⟨half, d, e, rfl, rfl⟩
  · exact iff_of_true rfl rfl
  · have shown : PrivateKey.encode ⟨half, d⟩ = PrivateKey.encode ⟨half, e⟩ ↔ d = e := by
      rw [PrivateKey.encode_eq_iff]
      simp [PrivateKey.same, PublicKey.samePoint]
    rw [encode, encode, Except.ok.injEq, shown, scalar?, scalar?, Option.some.injEq]

end Key

namespace Subject

/-- The subject with other scalars. -/
def redacted : Subject → Subject
  | key known => key known.redacted
  | object hash => object hash

/-- Subjects show no scalars. -/
theorem encode_congr {a b : Subject} (alike : a.redacted = b.redacted) :
    a.encode installed = b.encode installed := by
  cases a with
  | object hash =>
    cases b with
    | object other => rw [Subject.object.inj alike]
    | key other => exact nomatch alike
  | key known =>
    cases b with
    | object other => exact nomatch alike
    | key other => exact Key.subject_congr (Subject.key.inj alike)

end Subject

/-! ### Names -/

namespace Name

/-- The name with another scalar. -/
def redacted (name : Name) : Name := { name with principal := name.principal.map Key.redacted }

/-- The scalar of the key of the name, if it has one. -/
def scalar? (name : Name) : Option Nat := name.principal.bind Key.scalar?

variable {a b : Name}

/-- Names that are the same but for the scalars of their keys. -/
theorem redacted_cases (alike : a.redacted = b.redacted) :
    a = b ∨ ∃ half d e names, a = ⟨some (.privateKey ⟨half, d⟩), names⟩ ∧
      b = ⟨some (.privateKey ⟨half, e⟩), names⟩ := by
  obtain ⟨mine, names⟩ := a
  obtain ⟨theirs, others⟩ := b
  obtain ⟨principals, rfl⟩ := Name.mk.inj alike
  cases mine with
  | none =>
    cases theirs with
    | none => exact Or.inl rfl
    | some other => exact nomatch principals
  | some key =>
    cases theirs with
    | none => exact nomatch principals
    | some other =>
      rcases Key.redacted_cases (Option.some.inj principals) with rfl | ⟨half, d, e, rfl, rfl⟩
      · exact Or.inl rfl
      · exact Or.inr ⟨half, d, e, names, rfl, rfl⟩

/-- A name that has a scalar can be written. -/
theorem exists_encode (half : PublicKey) (scalar : Nat) (names : List String) :
    ∃ expr, encode ⟨some (.privateKey ⟨half, scalar⟩), names⟩ = .ok expr := by
  rw [encode_eq]
  exact ⟨_, rfl⟩

/-- Names show the scalars of their keys. -/
theorem encode_eq_iff_scalar (alike : a.redacted = b.redacted) :
    a.encode = b.encode ↔ a.scalar? = b.scalar? := by
  rcases redacted_cases alike with rfl | ⟨half, d, e, names, rfl, rfl⟩
  · exact iff_of_true rfl rfl
  · have around : Function.Injective fun principal : SExpr =>
        if names.isEmpty then principal
        else .list (.text "name" :: principal :: names.map .text) := by
      intro mine theirs same
      dsimp only at same
      split at same
      · exact same
      · exact (List.cons.inj (List.cons.inj (SExpr.list.inj same)).2).1
    have sameKey : (Key.privateKey ⟨half, d⟩).redacted = (Key.privateKey ⟨half, e⟩).redacted := rfl
    rw [encode_eq, encode_eq, map_inj_iff around]
    exact Key.encode_eq_iff_scalar sameKey

end Name

/-! ### Certificates -/

namespace Certificate

/-- The certificate with other scalars. -/
def redacted (cert : Certificate) : Certificate :=
  { cert with issuer := cert.issuer.redacted, subject := cert.subject.redacted }

/-- The certificates that are granted or issued, and perhaps changed, but not read. -/
inductive Built : Certificate → Prop
  | grant (issuer : Name) (subject : Subject) (tag : SExpr) : Built (grant issuer subject tag)
  | issue (key : PrivateKey) (subject : Subject) (tag : SExpr) (validity : Option Validity) :
      Built (key.issue subject tag validity)
  | withDelegation {cert : Certificate} (built : Built cert) (delegate : Bool) :
      Built (cert.withDelegation delegate)
  | withValidity {cert : Certificate} (built : Built cert) (validity : Validity) :
      Built (cert.withValidity validity)

theorem Built.received {cert : Certificate} (built : Built cert) : cert.received = none := by
  cases built with
  | grant issuer subject tag => rfl
  | issue key subject tag validity => cases validity <;> rfl
  | withDelegation built delegate => rfl
  | withValidity built validity => rfl

/-- Where the issuer can be written, only the subject can fail. -/
theorem synthesize_of_issuer {cert : Certificate} {issuer : SExpr}
    (written : cert.issuer.encode = .ok issuer) :
    cert.synthesize installed = (cert.subject.encode installed).map fun subject =>
      .list (.text "cert" :: .list [.text "issuer", issuer] :: .list [.text "subject", subject] ::
        cert.terms) := by
  rw [synthesize, written, ok_bind]
  cases cert.subject.encode installed <;> rfl

section Alike

variable {a b : Certificate}

/-- The scalars are hidden: the issuers have the same, or none, or nothing is written at all. -/
def Hidden (installed : Installed) (a b : Certificate) : Prop :=
  a.issuer.scalar? = b.issuer.scalar? ∨ ∃ error, a.subject.encode installed = .error error

/-- Certificates that are the same but for their scalars are written alike exactly if the scalars
are hidden. -/
theorem encode_eq_iff_hidden (built : Built a) (alike : a.redacted = b.redacted) :
    a.encode installed = b.encode installed ↔ Hidden installed a b := by
  have received := built.received
  obtain ⟨keptA, issuerA, subjectA, delegate, validity, tag⟩ := a
  obtain ⟨keptB, issuerB, subjectB, _, _, _⟩ := b
  obtain ⟨rfl, issuers, subjects, rfl, rfl, rfl⟩ := Certificate.mk.inj alike
  -- the received expression and the terms behind the subject are the same in both
  obtain rfl : keptA = none := received
  have sameSubject : subjectA.encode installed = subjectB.encode installed :=
    Subject.encode_congr subjects
  have shown := Name.encode_eq_iff_scalar issuers
  have synthesized (issuer : Name) (subject : Subject) :
      encode installed ⟨none, issuer, subject, delegate, validity, tag⟩ =
        synthesize installed ⟨none, issuer, subject, delegate, validity, tag⟩ := rfl
  rw [synthesized, synthesized]
  rcases Name.redacted_cases issuers with rfl | ⟨half, d, e, names, rfl, rfl⟩
  · refine iff_of_true ?_ (Or.inl rfl)
    rw [synthesize, synthesize]
    dsimp only
    rw [sameSubject]
  · obtain ⟨mine, writtenA⟩ := Name.exists_encode half d names
    obtain ⟨theirs, writtenB⟩ := Name.exists_encode half e names
    rw [writtenA, writtenB, Except.ok.injEq] at shown
    rw [synthesize_of_issuer writtenA, synthesize_of_issuer writtenB]
    dsimp only
    rw [← sameSubject]
    cases written : subjectA.encode installed with
    | error fault => exact iff_of_true rfl (Or.inr ⟨fault, written⟩)
    | ok subject =>
      constructor
      · intro same
        -- equal lists have equal issuer terms, and these show the scalar
        have terms := (List.cons.inj (SExpr.list.inj (Except.ok.inj same))).2
        have issuer := SExpr.list.inj (List.cons.inj terms).1
        exact Or.inl (shown.mp (List.cons.inj (List.cons.inj issuer).2).1)
      · rintro (scalars | ⟨fault, failed⟩)
        · rw [shown.mpr scalars]
          rfl
        · exact nomatch written.symm.trans failed

theorem pack_eq_iff : a.pack installed = b.pack installed ↔ a.encode installed = b.encode installed :=
  map_inj_iff SExpr.pack_injective

/-- Where the issuer has no scalar to show, the scalars are hidden. -/
theorem hidden_of_scalar?_eq_none (alike : a.redacted = b.redacted)
    (h : a.issuer.scalar? = none) : Hidden installed a b := by
  have issuers : a.issuer.redacted = b.issuer.redacted := congrArg Certificate.issuer alike
  rcases Name.redacted_cases issuers with same | ⟨half, d, e, names, mine, -⟩
  · exact Or.inl (congrArg Name.scalar? same)
  · rw [mine] at h
    exact nomatch h

/-- Two certificates that were put together from the same parts but for the scalars have the same
expression, encoding and advanced form exactly if they have the scalars of their issuers in common,
or if the subject cannot be written; and then they have the same hashes.  Subjects, and issuers
without a private key, show nothing. -/
theorem scalars_show_in_issuers_only (built : Built a) (alike : a.redacted = b.redacted) :
    (a.encode installed = b.encode installed ↔ Hidden installed a b) ∧
    (a.pack installed = b.pack installed ↔ Hidden installed a b) ∧
    ((a.encode installed).map SExpr.toAdvanced = (b.encode installed).map SExpr.toAdvanced ↔
      Hidden installed a b) ∧
    (Hidden installed a b → ∀ algorithm, a.hash installed algorithm = b.hash installed algorithm) ∧
    (a.issuer.scalar? = none → Hidden installed a b) := by
  have written : a.encode installed = b.encode installed ↔ Hidden installed a b :=
    encode_eq_iff_hidden built alike
  have advanced : Function.Injective SExpr.toAdvanced := fun _ _ => SExpr.toAdvanced_injective
  refine ⟨written, pack_eq_iff.trans written, (map_inj_iff advanced).trans written, ?_,
    hidden_of_scalar?_eq_none alike⟩
  intro hidden algorithm
  rw [hash, hash, pack_eq_iff.mpr (written.mpr hidden)]

end Alike

/-- An identifier behind the key hides nothing: with the scalars three and four, certificates under
names of one point are written differently, in every form. -/
theorem private_issuer_shows_its_scalar :
    let cert (scalar : Nat) : Certificate := grant
      ⟨some (.privateKey (.ofParts .p256 1 2 scalar)), ["alice"]⟩ (.object ⟨"sha256", [0], []⟩)
      (.list [.text "tag"])
    (cert 3).redacted = (cert 4).redacted ∧
      (cert 3).encode none ≠ (cert 4).encode none ∧ (cert 3).pack none ≠ (cert 4).pack none ∧
      ((cert 3).encode none).map SExpr.toAdvanced ≠ ((cert 4).encode none).map SExpr.toAdvanced := by
  intro cert
  have shown : ¬Hidden none (cert 3) (cert 4) := by
    rintro (scalars | ⟨fault, failed⟩)
    · exact nomatch scalars
    · exact nomatch failed
  obtain ⟨expr, packed, advanced, -⟩ :=
    @scalars_show_in_issuers_only none (cert 3) (cert 4) (.grant _ _ _) rfl
  exact ⟨rfl, fun same => shown (expr.mp same), fun same => shown (packed.mp same),
    fun same => shown (advanced.mp same)⟩

end Certificate

end SimplePki
