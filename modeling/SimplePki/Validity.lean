import SimplePki.SExpr.Term
import SimplePki.HashValue.Codec

/-!
# Validity

A certificate may be valid from some instant, up to some instant, both or neither; both ends belong
to the interval.

## Main definitions

* `Validity`, `Validity.contains`
* `Validity.intersect`: the common part of two intervals, none where there is no common instant
* `Validity.encode`, `Validity.decode`
-/

namespace SimplePki

/-- The instants from the first bound to the second; a bound that is missing bounds nothing. -/
structure Validity where
  notBefore : Option Instant
  notAfter : Option Instant
  deriving DecidableEq, Repr

namespace Validity

/-- Every instant. -/
def always : Validity := ⟨none, none⟩

/-- Whether both bounds are missing. -/
def isUnbounded (validity : Validity) : Bool :=
  validity.notBefore.isNone && validity.notAfter.isNone

/-- Whether an instant lies between the bounds, or on one. -/
def contains (validity : Validity) (instant : Instant) : Bool :=
  validity.notBefore.all (· ≤ instant) && validity.notAfter.all (instant ≤ ·)

/-- One bound out of two. -/
def meet (choose : Instant → Instant → Instant) : Option Instant → Option Instant → Option Instant
  | some a, some b => some (choose a b)
  | some a, none => some a
  | none, b => b

/-- The common part of two intervals, if it has an instant. -/
def intersect (a b : Validity) : Option Validity :=
  let lower := meet Instant.later a.notBefore b.notBefore
  let upper := meet Instant.earlier a.notAfter b.notAfter
  match lower, upper with
  | some first, some last => if first ≤ last then some ⟨lower, upper⟩ else none
  | _, _ => some ⟨lower, upper⟩

/-- The term of a bound. -/
def encodeBound (name : String) (instant : Instant) : SExpr :=
  .term name (Octets.ofText instant.toText)

/-- The expression `(valid [(not-before T)] [(not-after T)])`, none where both bounds are
missing. -/
def encode (validity : Validity) : Option SExpr :=
  if validity.isUnbounded then none
  else
    some (.list (.text "valid" ::
      ((validity.notBefore.map (encodeBound "not-before")).toList ++
        (validity.notAfter.map (encodeBound "not-after")).toList)))

/-- The instant of a timestamp. -/
def readTimestamp (text : String) : Outcome Instant :=
  match Instant.ofText text with
  | .ok instant => .ok instant
  | .error fault => .error (.expression (.timestamp text fault))

/-- The instant of the term of a bound. -/
def decodeBound (name : String) (expr : SExpr) : Outcome Instant :=
  match expr.termOctets name with
  | .error fault => .error (.expression (.term fault))
  | .ok octets =>
    match Octets.text? octets with
    | none => .error (.expression .timestampNotText)
    | some text => readTimestamp text

/-- The bound that leads a list of terms, if one of the given name does, and the other terms. -/
def takeBound (name : String) (terms : List SExpr) : Outcome (Option Instant × List SExpr) := do
  match terms with
  | [] => return (none, [])
  | term :: rest =>
    if term.isListOf name then return (some (← decodeBound name term), rest)
    else return (none, terms)

/-- The validity of terms behind `valid`. -/
def decodeTerms (terms : List SExpr) : Outcome Validity := do
  let (notBefore, terms) ← takeBound "not-before" terms
  let (notAfter, terms) ← takeBound "not-after" terms
  match terms with
  | [] => return ⟨notBefore, notAfter⟩
  | extra :: _ => throw (.expression (.unexpectedTerm extra))

/-- The validity of `(valid [(not-before T)] [(not-after T)])`, with one bound at least. -/
def decode (expr : SExpr) : Outcome Validity :=
  match expr.tagged? "valid" with
  | some [_, first] => decodeTerms [first]
  | some [_, first, second] => decodeTerms [first, second]
  | _ => .error (.expression .notValidity)

theorem meet_later_all {a b : Option Instant} {instant : Instant} :
    (meet Instant.later a b).all (· ≤ instant) =
      (a.all (· ≤ instant) && b.all (· ≤ instant)) := by
  cases a <;> cases b <;> simp [meet, Instant.later_le_iff]

theorem meet_earlier_all {a b : Option Instant} {instant : Instant} :
    (meet Instant.earlier a b).all (instant ≤ ·) =
      (a.all (instant ≤ ·) && b.all (instant ≤ ·)) := by
  cases a <;> cases b <;> simp [meet, Instant.le_earlier_iff]

end Validity

end SimplePki
