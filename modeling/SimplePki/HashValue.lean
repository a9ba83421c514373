import SimplePki.Octets.Hex
import SimplePki.SExpr.Advanced
import SimplePki.SExpr.Canonical
import SimplePki.Uri

/-!
# Hash values

A hash value is a digest under a named algorithm, and perhaps a list of places where the hashed
object can be found.  The places are a courtesy: they take no part in comparison, and the plain
encoding leaves them out.

## Main definitions

* `HashValue`, `HashValue.fingerprint`, `HashValue.same`
* `HashValue.encode`, `HashValue.encodeWithUris`: `(hash ALGORITHM DIGEST)` and its long form
-/

namespace SimplePki

/-- A digest under a named algorithm, and places where the hashed object can be found. -/
structure HashValue where
  algorithm : String
  digest : Octets
  uris : List Uri
  deriving DecidableEq, Repr

/-- A digest under a named algorithm, and nothing else. -/
abbrev Fingerprint := String × Octets

namespace HashValue

/-- The algorithm and the digest, which are what counts in comparison. -/
def fingerprint (hash : HashValue) : Fingerprint := (hash.algorithm, hash.digest)

/-- A hash value that names no places. -/
def ofDigest (algorithm : String) (digest : Octets) : HashValue := ⟨algorithm, digest, []⟩

/-- Whether two hash values have the same digest under the same algorithm. -/
def same (a b : HashValue) : Bool := a.algorithm == b.algorithm && a.digest == b.digest

/-- The expression `(hash ALGORITHM DIGEST)`. -/
def encode (hash : HashValue) : SExpr :=
  .list [.text "hash", .text hash.algorithm, .ofOctets hash.digest]

/-- The expression `(uris URI...)`. -/
def encodeUris (uris : List Uri) : SExpr :=
  .list (.text "uris" :: uris.map fun uri => .text uri.toText)

/-- The expression `(hash ALGORITHM DIGEST (uris URI...))`, or the plain form of a hash value that
names no places. -/
def encodeWithUris (hash : HashValue) : SExpr :=
  if hash.uris.isEmpty then hash.encode
  else
    .list [.text "hash", .text hash.algorithm, .ofOctets hash.digest, encodeUris hash.uris]

/-- The digest in hexadecimal. -/
def toHex (hash : HashValue) : String := Hex.encode hash.digest

theorem same_iff {a b : HashValue} :
    a.same b = true ↔ a.algorithm = b.algorithm ∧ a.digest = b.digest := by
  simp [same]

theorem same_refl (a : HashValue) : a.same a = true := same_iff.mpr ⟨rfl, rfl⟩

theorem same_comm (a b : HashValue) : a.same b = b.same a := by
  rw [Bool.eq_iff_iff, same_iff, same_iff]
  exact ⟨fun h => ⟨h.1.symm, h.2.symm⟩, fun h => ⟨h.1.symm, h.2.symm⟩⟩

end HashValue

end SimplePki
