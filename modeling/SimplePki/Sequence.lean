import SimplePki.Certificate
import SimplePki.Signature

/-!
# Sequences

Certificates travel in sequences, with signatures and public keys.  A signature covers the element
before it.  A public key lets the signatures after it name their signer by a hash alone.

## Main definitions

* `Element`, `Sequence`, with `encode` and `decode`
* `Sequence.resolve`: the first of the keys passed that has a given hash
* `Sequence.Reading`: the elements read so far and the keys among them
-/

namespace SimplePki

/-- An element of a sequence. -/
inductive Element where
  | certificate (cert : Certificate)
  | signature (signature : Signature)
  | publicKey (key : PublicKey)
  deriving DecidableEq, Repr

namespace Element

/-- The expression of an element. -/
def encode (installed : Installed) : Element → Outcome SExpr
  | certificate cert => cert.encode installed
  | signature signed => .ok signed.encode
  | publicKey key => .ok key.encode

/-- The element that an expression writes. -/
def decode (installed : Installed) (lookup : KeyLookup) (expr : SExpr) : Outcome Element :=
  if expr.isListOf "cert" then (Certificate.decode installed expr).map certificate
  else if expr.isListOf "signature" then (Signature.decode installed lookup expr).map signature
  else if expr.isListOf "public-key" then (PublicKey.decode expr).map publicKey
  else .error (.expression (.notElement expr))

/-- The public key that an element is. -/
def key? : Element → Option PublicKey
  | publicKey key => some key
  | _ => none

/-- The certificate that an element is. -/
def certificate? : Element → Option Certificate
  | certificate cert => some cert
  | _ => none

end Element

/-- Elements in order. -/
structure Sequence where
  elements : List Element
  deriving DecidableEq, Repr

namespace Sequence

/-- The expression `(sequence ELEMENT...)`. -/
def encode (installed : Installed) (sequence : Sequence) : Outcome SExpr := do
  return .list (.text "sequence" :: (← sequence.elements.mapM (Element.encode installed)))

/-- The canonical encoding. -/
def pack (installed : Installed) (sequence : Sequence) : Outcome Octets :=
  (sequence.encode installed).map SExpr.pack

/-- The public keys among the elements, in order. -/
def keys (sequence : Sequence) : List PublicKey := sequence.elements.filterMap Element.key?

/-- The first key that has a given hash, and the keys afterwards: those that were asked remember
their answer. -/
def resolve (installed : Installed) (wanted : HashValue) :
    List PublicKey → Option PublicKey × List PublicKey
  | [] => (none, [])
  | key :: rest =>
    let (theirs, key) := key.hash installed wanted.algorithm
    if Key.agree theirs (.ok wanted) then (some key, key :: rest)
    else
      let (found, rest) := resolve installed wanted rest
      (found, key :: rest)

/-- What has been read: the elements, last first, and the public keys among them, in order. -/
structure Reading where
  elements : List Element
  keys : List PublicKey

/-- Nothing read yet. -/
def Reading.start : Reading := ⟨[], []⟩

/-- Reads one more element.  A hash that has to be resolved is looked for among the keys passed,
then by the given lookup. -/
def Reading.step (installed : Installed) (lookup : KeyLookup) (reading : Reading) (expr : SExpr) :
    Outcome Reading := do
  let (found, keys) := match Signature.unresolved? installed expr with
    | some wanted =>
      let (found, keys) := resolve installed wanted reading.keys
      (found.or (lookup wanted), keys)
    | none => (none, reading.keys)
  let element ← Element.decode installed (fun _ => found) expr
  return ⟨element :: reading.elements, keys ++ element.key?.toList⟩

/-- The sequence of `(sequence ELEMENT...)`. -/
def decode (installed : Installed) (lookup : KeyLookup) (expr : SExpr) : Outcome Sequence := do
  match expr.tagged? "sequence" with
  | some (_ :: items) =>
    let reading ← items.foldlM (Reading.step installed lookup) .start
    return ⟨reading.elements.reverse⟩
  | _ => throw (.expression .notSequence)

end Sequence

end SimplePki
