import SimplePki.KeyRing
import SimplePki.Sequence

/-!
# Gateways

A gateway issues certificates as signed sequences and accepts the sequences that others send.  It
owns a key ring, to which it adds the keys that it signs with and the keys in the sequences that it
accepts.

An action of a gateway leaves a gateway behind whether it succeeds or fails, so that one can ask
what a failed action has done to the ring.

## Main definitions

* `Policy`, `Gateway`, `Gateway.new`
* `GatewayError`
* `Gateway.Action`, `Gateway.register`, `Gateway.sign`, `Gateway.issue`, `Gateway.accept`
* `Accepted`: a sequence that was accepted, with the places of its signed elements
-/

namespace SimplePki

/-- What a gateway checks and keeps, and the digest algorithms it asks for. -/
structure Policy where
  verifySignatures : Bool
  registerSequenceKeys : Bool
  digestAlgorithms : List String
  deriving DecidableEq, Repr

/-- Checks everything, keeps everything, asks for every algorithm. -/
def Policy.standard : Policy := ⟨true, true, DigestAlgorithm.all.map DigestAlgorithm.name⟩

/-- Why an action of a gateway failed. -/
inductive GatewayError where
  | core (error : Error)
  | reading (fault : ReadError)
  | nothingSigned (index : Nat)
  | notVerified (index : Nat) (source : Error)
  | notByIssuer (index : Nat)
  | noAlgorithms
  deriving DecidableEq, Repr

/-- The wording of a failure. -/
def GatewayError.message : GatewayError → String
  | .core error => s!"spki error: {error.message}"
  | .reading fault => s!"s-expression error: {fault.message}"
  | .nothingSigned index => s!"signature at index {index} has no preceding element"
  | .notVerified index source =>
    s!"signature at index {index} failed verification: {source.message}"
  | .notByIssuer index => s!"certificate at index {index} is not signed by its issuer"
  | .noAlgorithms => "invalid configuration: at least one digest algorithm is required"

/-- A policy and the keys that are known. -/
structure Gateway where
  policy : Policy
  ring : KeyRing
  deriving DecidableEq, Repr

/-- A sequence that was accepted, with the places of the elements that a checked signature
covers. -/
structure Accepted where
  sequence : Sequence
  signed : List Nat
  deriving DecidableEq, Repr

/-- Whether a checked signature covers the element at a place. -/
def Accepted.isSigned (accepted : Accepted) (index : Nat) : Bool := accepted.signed.contains index

/-- The certificates that a checked signature covers, in order. -/
def Accepted.certificates (accepted : Accepted) : List Certificate :=
  accepted.signed.filterMap fun index =>
    accepted.sequence.elements[index]?.bind Element.certificate?

namespace Gateway

/-- The gateway of a policy, and the registry of the process afterwards.  A policy without
algorithms, or with an unknown one, is refused and installs nothing; any other is accepted even
where another registry was installed before. -/
def new (installed : Installed) (policy : Policy) : Except GatewayError Gateway × Installed :=
  if policy.digestAlgorithms.isEmpty then (.error .noAlgorithms, installed)
  else
    match Registry.ofNamesChecked policy.digestAlgorithms with
    | .error error => (.error (.core error), installed)
    | .ok registry => (.ok ⟨policy, .empty⟩, (installed.install registry).1)

/-- Something that a gateway does, leaving a gateway behind in any case. -/
abbrev Action := ExceptT GatewayError (StateM Gateway)

/-- An outcome of the parts below as an action that changes nothing. -/
def ofOutcome {α : Type} (outcome : Outcome α) : Action α :=
  match outcome with
  | .ok value => pure value
  | .error error => throw (.core error)

/-- Adds a key to the ring. -/
def register (installed : Installed) (key : PublicKey) : Action Unit := do
  let gateway ← get
  let (_, ring) ← ofOutcome (gateway.ring.register installed key)
  set { gateway with ring }

/-- Adds keys to the ring, one after the other. -/
def registerAll (installed : Installed) : List PublicKey → Action Unit
  | [] => pure ()
  | key :: keys => do
    register installed key
    registerAll installed keys

/-- Signs a payload, and adds the signer to the ring. -/
def sign (installed : Installed) (key : PrivateKey) (payload : SExpr) : Action Signature := do
  let signature ← ofOutcome (key.sign installed payload)
  register installed signature.principal
  return signature

/-- Issues a certificate, as the sequence of the issuer's key, the certificate and its signature. -/
def issue (installed : Installed) (issuer : PrivateKey) (subject : Subject) (tag : SExpr)
    (validity : Option Validity) : Action Sequence := do
  -- the certificate is signed as it will be written, and a failure leaves the ring as it was
  let cert := issuer.issue subject tag validity
  let signature ← sign installed issuer (← ofOutcome (cert.encode installed))
  return ⟨[.publicKey issuer.half, .certificate cert, .signature signature]⟩

/-- Whether the signer of a certificate is its issuer.  The speaker of a sequence may be anyone. -/
def isByIssuer (installed : Installed) (cert : Certificate) (signature : Signature) : Bool :=
  match cert.issuer.principal with
  | none => true
  | some issuer => issuer.sameAs installed (.publicKey signature.principal)

/-- Checks the signature at a place against the element before it. -/
def check (installed : Installed) (index : Nat) (covered : Element) (signature : Signature) :
    Except GatewayError Unit := do
  match covered.encode installed with
  | .error error => throw (.core error)
  | .ok payload =>
    match signature.verify installed payload with
    | .error source => throw (.notVerified index source)
    | .ok () =>
      match covered with
      | .certificate cert =>
        if isByIssuer installed cert signature then return () else throw (.notByIssuer (index - 1))
      | _ => return ()

/-- The places of the elements that signatures cover, every signature checked if the policy asks
for that; `index` elements are behind, the last of them being `before`. -/
def checkAll (installed : Installed) (verify : Bool) (index : Nat) (before : Option Element) :
    List Element → Except GatewayError (List Nat)
  | [] => .ok []
  | .signature signature :: rest => do
    match before with
    | none => throw (.nothingSigned index)
    | some covered =>
      if verify then
        check installed index covered signature
        return (index - 1) :: (← checkAll installed verify (index + 1)
          (some (.signature signature)) rest)
      else checkAll installed verify (index + 1) (some (.signature signature)) rest
  | element :: rest => checkAll installed verify (index + 1) (some element) rest

/-- Reads a sequence with the ring as lookup, checks its signatures, and adds its keys to the ring
if the policy says so. -/
def accept (installed : Installed) (input : Octets) : Action Accepted := do
  let gateway ← get
  let expr ← match SExpr.read input with
    | .ok expr => pure expr
    | .error fault => throw (.reading fault)
  let sequence ← ofOutcome (Sequence.decode installed gateway.ring.lookup expr)
  -- every signature is checked before any key is kept
  let verify := gateway.policy.verifySignatures
  let signed ← match checkAll installed verify 0 none sequence.elements with
    | .ok signed => pure signed
    | .error error => throw error
  if gateway.policy.registerSequenceKeys then
    registerAll installed sequence.keys
  return ⟨sequence, signed⟩

end Gateway

end SimplePki
