import SimplePki.Key

/-!
# Summaries

A summary shows a value in a log or a report.  It is not read back.  What a key remembers is left
out of its summary, and so is the scalar of a private key.

## Main definitions

* `SExpr.summary`, `DigestAlgorithm.summary`, `HashValue.summary`
* `PublicKey.summary`, `PrivateKey.summary`

## Main results

* `PublicKey.summary_congr`, `PrivateKey.summary_congr`: a summary shows a curve and a point, and
  nothing else
-/

namespace SimplePki

/-- An expression in its advanced form. -/
def SExpr.summary (expr : SExpr) : String := s!"Sexp({expr.toAdvanced})"

/-- An algorithm by its name. -/
def DigestAlgorithm.summary (alg : DigestAlgorithm) : String := s!"DigestAlgorithm({alg.name})"

/-- An algorithm and a digest; the places are left out. -/
def HashValue.summary (hash : HashValue) : String := s!"Hash({hash.algorithm}:{hash.toHex})"

/-- The summary of a curve. -/
def Curve.summary : Curve → String
  | p256 => "P256"
  | p384 => "P384"

/-- A curve and the coordinates of a point. -/
def Curve.summaryAt (curve : Curve) (x y : Nat) : String :=
  s!"curve: {curve.summary}, x: \"{Hex.ofNat x}\", y: \"{Hex.ofNat y}\""

namespace PublicKey

/-- A public key by its point. -/
def summary (key : PublicKey) : String :=
  "PublicKey \x7b " ++ key.curve.summaryAt key.x key.y ++ " \x7d"

theorem summary_congr {a b : PublicKey} (h : a.samePoint b = true) : a.summary = b.summary := by
  obtain ⟨hcurve, hx, hy⟩ := samePoint_iff.mp h
  rw [summary, summary, hcurve, hx, hy]

end PublicKey

namespace PrivateKey

/-- A private key by the point of its public half. -/
def summary (key : PrivateKey) : String :=
  "PrivateKey \x7b " ++ key.half.curve.summaryAt key.half.x key.half.y ++
    ", d: \"<redacted>\" \x7d"

theorem summary_congr {a b : PrivateKey} (h : a.half.samePoint b.half = true) :
    a.summary = b.summary := by
  obtain ⟨hcurve, hx, hy⟩ := PublicKey.samePoint_iff.mp h
  rw [summary, summary, hcurve, hx, hy]

end PrivateKey

end SimplePki
