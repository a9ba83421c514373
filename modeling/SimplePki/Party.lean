import SimplePki.Certificate
import SimplePki.Signature

/-!
# Parties

Parties with keys that are always the same, for trying things out: a party has a key pair on the
smaller curve, made from a fixed scalar.

## Main definitions

* `Party`, `Party.ofScalar`, `Party.numbered`
* `Party.issueTo`: a certificate for another party
* `Party.issueWith`: a certificate of given parts
* `Validity.days`: the interval between two days
-/

namespace SimplePki

/-- Somebody with a key pair. -/
structure Party where
  key : PrivateKey
  deriving DecidableEq, Repr

namespace Party

/-- The party with a given scalar. -/
def ofScalar (scalar : Octets) : Outcome Party :=
  (PrivateKey.ofScalar .p256 scalar.toNat).map Party.mk

/-- The scalar of the party with a number, counted from zero: its last octet counts parties and its
first is fixed. -/
def scalar (number : Nat) : Octets :=
  0x10 :: List.replicate 30 0x00 ++ [UInt8.ofNat (number + 1)]

/-- The party with a number. -/
def numbered (number : Nat) : Outcome Party := ofScalar (scalar number)

/-- The first parties, in order. -/
def firsts (count : Nat) : Outcome (List Party) := (List.range count).mapM numbered

/-- The natural hash of the party's key. -/
def hash (installed : Installed) (party : Party) : Outcome HashValue :=
  (party.key.half.naturalHash installed).1

/-- A name in the party's name space. -/
def name (party : Party) (names : List String) : Name := ⟨some (.publicKey party.key.half), names⟩

/-- A certificate for another party, with the right to delegate and a tag in advanced form. -/
def issueTo (party other : Party) (tag : String) : Outcome Certificate :=
  match SExpr.read (Octets.ofText tag) with
  | .ok tag => .ok (party.key.issue (.ofPublic other.key.half) tag none)
  | .error fault => .error (.reading fault)

/-- A certificate for another party with all its parts given. -/
def issueWith (party other : Party) (tag : SExpr) (delegate : Bool) (validity : Option Validity) :
    Certificate :=
  let cert := (party.key.issue (.ofPublic other.key.half) tag none).withDelegation delegate
  match validity with
  | some validity => cert.withValidity validity
  | none => cert

end Party

/-- The instants from the beginning of one day to the beginning of another, if both days exist. -/
def Validity.days (first last : Date) : Option Validity := do
  return ⟨some (← Instant.ofDate? first), some (← Instant.ofDate? last)⟩

end SimplePki
