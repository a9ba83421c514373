import SimplePki.Name
import SimplePki.Subject
import SimplePki.Validity

/-!
# Authorization certificates

A certificate says that its issuer grants the authority described by a tag to its subject, perhaps
with the right to delegate it, perhaps for a time.

A certificate that was read keeps the expression it was read from and is written back as exactly
that expression, so that its hash and every signature over it stay what they were.  Changing the
certificate gives this up.

## Main definitions

* `Certificate`, `Certificate.withDelegation`, `Certificate.withValidity`
* `Certificate.encode`, `Certificate.decode`
* `PrivateKey.issue`: the certificate that a key issues
-/

namespace SimplePki

/-- A grant of authority. -/
structure Certificate where
  received : Option SExpr
  issuer : Name
  subject : Subject
  delegate : Bool
  validity : Option Validity
  tag : SExpr
  deriving DecidableEq, Repr

namespace Certificate

/-- A grant without the right to delegate it, and without bounds in time. -/
def grant (issuer : Name) (subject : Subject) (tag : SExpr) : Certificate :=
  ⟨none, issuer, subject, false, none, tag⟩

/-- The certificate with the right to delegate given or taken. -/
def withDelegation (cert : Certificate) (delegate : Bool) : Certificate :=
  { cert with delegate, received := none }

/-- The certificate with bounds in time. -/
def withValidity (cert : Certificate) (validity : Validity) : Certificate :=
  { cert with validity := some validity, received := none }

/-- The expression put together from the parts of a certificate. -/
def synthesize (installed : Installed) (cert : Certificate) : Outcome SExpr := do
  let issuer ← cert.issuer.encode
  let subject ← cert.subject.encode installed
  return .list
    ([.text "cert", .list [.text "issuer", issuer], .list [.text "subject", subject]] ++
      (if cert.delegate then [.list [.text "delegate"]] else []) ++
      cert.tag :: (cert.validity.bind Validity.encode).toList)

/-- The expression of a certificate: the one it was read from, or one put together from its
parts. -/
def encode (installed : Installed) (cert : Certificate) : Outcome SExpr :=
  match cert.received with
  | some received => .ok received
  | none => cert.synthesize installed

/-- The one value of a list with a given leading atom. -/
def namedValue (name : String) (expr : SExpr) : Outcome SExpr :=
  match expr.tagged? name with
  | some [_, value] => .ok value
  | _ => .error (.expression (.notNamed name))

/-- The expression `(delegate)`. -/
def isDelegate (expr : SExpr) : Bool := expr = .list [.text "delegate"]

/-- Whether the terms behind the subject begin with `(delegate)`, and the other terms. -/
def takeDelegate : List SExpr → Bool × List SExpr
  | [] => (false, [])
  | term :: rest => if isDelegate term then (true, rest) else (false, term :: rest)

/-- The tag and the validity of the terms behind the subject. -/
def decodeTagged (terms : List SExpr) : Outcome (SExpr × Option Validity) := do
  match terms with
  | [] => throw (.expression .noTag)
  | [tag] => return (tag, none)
  | tag :: validity :: rest =>
    let validity ← Validity.decode validity
    match rest with
    | [] => return (tag, some validity)
    | extra :: _ => throw (.expression (.unexpectedTerm extra))

/-- The certificate of a list of terms. -/
def decodeTerms (installed : Installed) (received issuer subject : SExpr) (terms : List SExpr) :
    Outcome Certificate := do
  let issuer ← Name.decode installed (← namedValue "issuer" issuer)
  let subject ← Subject.decode installed (← namedValue "subject" subject)
  let (delegate, terms) := takeDelegate terms
  let (tag, validity) ← decodeTagged terms
  return ⟨some received, issuer, subject, delegate, validity, tag⟩

/-- The certificate of `(cert (issuer I) (subject S) [(delegate)] TAG [VALID])`. -/
def decode (installed : Installed) (expr : SExpr) : Outcome Certificate :=
  match expr.tagged? "cert" with
  | some (_ :: issuer :: subject :: first :: rest) =>
    -- behind the subject: one mandatory term and two optional ones
    if rest.length ≤ 2 then decodeTerms installed expr issuer subject (first :: rest)
    else .error (.expression .notCertificate)
  | _ => .error (.expression .notCertificate)

/-- The canonical encoding. -/
def pack (installed : Installed) (cert : Certificate) : Outcome Octets :=
  (cert.encode installed).map SExpr.pack

/-- The hash of the canonical encoding. -/
def hash (installed : Installed) (algorithm : String) (cert : Certificate) : Outcome HashValue := do
  HashValue.compute installed algorithm (← cert.pack installed)

end Certificate

/-- The certificate by which a key grants authority with the right to delegate it. -/
def PrivateKey.issue (key : PrivateKey) (subject : Subject) (tag : SExpr)
    (validity : Option Validity) : Certificate :=
  let cert := (Certificate.grant (.ofKey (.publicKey key.half)) subject tag).withDelegation true
  match validity with
  | some validity => cert.withValidity validity
  | none => cert

end SimplePki
