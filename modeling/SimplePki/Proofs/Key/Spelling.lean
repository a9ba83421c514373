import SimplePki.Proofs.Key.Codec
import SimplePki.Proofs.Octets.Utf8

/-!
# How keys may be spelled

A key is read from one shape of expression, in which only the integers leave a choice: each may have
zeros in front.  The key is written without these.

The name of the curve leaves no choice, although it is read from octets that need not be text: a
name is ASCII, and what is no ASCII is shown as something else.

## Main definitions

* `PublicKey.spelled`, `PrivateKey.spelled`: the expressions of a public and of a private key with
  integers that may have zeros in front

## Main results

* `KeyParts.decode_eq_ok_iff`, `PublicKey.decode_eq_ok_iff`, `PrivateKey.decode_eq_ok_iff`: the
  expressions that a key is read from
* `PublicKey.encode_eq_spelled`, `PublicKey.encode_ofPoint_toNat`: the one that it is written as
* `PrivateKey.decode_ne_of_publicKey`: no expression is read as keys of both kinds
-/

namespace SimplePki

theorem Curve.name_injective {a b : Curve} (h : a.name = b.name) : a = b := by
  have found := congrArg ofName? h
  rw [ofName?_name, ofName?_name] at found
  exact Option.some.inj found

namespace KeyParts

theorem decodeNat_eq_ok_iff {name : String} {expr : SExpr} {n : Nat} :
    decodeNat name expr = .ok n ↔ ∃ octets, expr = .term name octets ∧ octets.toNat = n := by
  unfold decodeNat SExpr.termNat
  cases held : expr.termOctets name with
  | error fault =>
    constructor
    · intro h
      exact nomatch h
    · rintro ⟨octets, rfl, -⟩
      exact nomatch (SExpr.termOctets_term name octets).symm.trans held
  | ok octets =>
    rw [SExpr.termOctets_eq_ok_iff] at held
    rw [ok_bind]
    constructor
    · intro h
      exact ⟨octets, held, Except.ok.inj h⟩
    · rintro ⟨others, same, value⟩
      have values := congrArg (SExpr.termOctets name) (held.symm.trans same)
      rw [SExpr.termOctets_term, SExpr.termOctets_term] at values
      rw [← value, ← Except.ok.inj values]
      rfl

/-- Only the octets of its name are read as a curve. -/
theorem decodeCurve_eq_ok_iff {expr : SExpr} {curve : Curve} :
    decodeCurve expr = .ok curve ↔ expr = .term "curve" (Octets.ofText curve.name) := by
  constructor
  · intro h
    unfold decodeCurve at h
    split at h
    · exact nomatch h
    · next octets held =>
      dsimp only at h
      split at h
      · next other named =>
        cases h
        have shown : octets.toTextLossy = curve.name := (Curve.ofName?_eq_some_iff.mp named).symm
        have small : (curve.name.toList.all fun c => decide (c.toNat < 0x80)) = true := by
          cases curve <;> decide
        have ascii : ∀ c ∈ curve.name.toList, c.toNat < 0x80 := fun c mem =>
          of_decide_eq_true (List.all_eq_true.mp small c mem)
        rw [SExpr.termOctets_eq_ok_iff.mp held, Octets.eq_ofText_of_toTextLossy ascii shown]
      · exact nomatch h
  · rintro rfl
    exact decodeCurve_term curve

/-- The integers are written without zeros in front. -/
theorem encode_toNat (outer : String) (curve : Curve) (x y : Octets) (d : Option Octets) :
    encode outer ⟨curve, x.toNat, y.toNat, d.map Octets.toNat⟩ =
      spelled outer curve x.trim y.trim (d.map Octets.trim) := by
  rw [encode_eq_spelled]
  cases d <;> simp only [Option.map_none, Option.map_some, Octets.ofNat_toNat]

/-- The terms inside a key, behind the name of the algorithm. -/
theorem decodeTerms_eq_ok {outer : String} {hasScalar : Bool} {items : List SExpr}
    {parts : KeyParts} (h : decodeTerms outer hasScalar items = .ok parts) :
    ∃ first curve x y d, items = first :: (.term "curve" (Octets.ofText (Curve.name curve)) ::
        .term "x" x :: .term "y" y :: (Option.map (SExpr.term "d") d).toList) ∧
      d.isSome = hasScalar ∧ parts = ⟨curve, x.toNat, y.toNat, d.map Octets.toNat⟩ := by
  unfold decodeTerms at h
  split at h
  · obtain ⟨curve, readCurve, h⟩ := bind_eq_ok_iff.mp h
    obtain ⟨_, readX, h⟩ := bind_eq_ok_iff.mp h
    obtain ⟨_, readY, made⟩ := bind_eq_ok_iff.mp h
    cases made
    obtain ⟨x, rfl, rfl⟩ := decodeNat_eq_ok_iff.mp readX
    obtain ⟨y, rfl, rfl⟩ := decodeNat_eq_ok_iff.mp readY
    obtain rfl := decodeCurve_eq_ok_iff.mp readCurve
    exact ⟨_, curve, x, y, none, rfl, rfl, rfl⟩
  · obtain ⟨curve, readCurve, h⟩ := bind_eq_ok_iff.mp h
    obtain ⟨_, readX, h⟩ := bind_eq_ok_iff.mp h
    obtain ⟨_, readY, h⟩ := bind_eq_ok_iff.mp h
    obtain ⟨_, readD, made⟩ := bind_eq_ok_iff.mp h
    cases made
    obtain ⟨x, rfl, rfl⟩ := decodeNat_eq_ok_iff.mp readX
    obtain ⟨y, rfl, rfl⟩ := decodeNat_eq_ok_iff.mp readY
    obtain ⟨d, rfl, rfl⟩ := decodeNat_eq_ok_iff.mp readD
    obtain rfl := decodeCurve_eq_ok_iff.mp readCurve
    exact ⟨_, curve, x, y, some d, rfl, rfl, rfl⟩
  · exact nomatch h

/-- The parts of a key are read from its expression with any zeros in front of the integers, and
from no other. -/
theorem decode_eq_ok_iff {outer : String} {hasScalar : Bool} {expr : SExpr} {parts : KeyParts} :
    decode outer hasScalar expr = .ok parts ↔
      ∃ curve x y d, expr = spelled outer curve x y d ∧ d.isSome = hasScalar ∧
        parts = ⟨curve, x.toNat, y.toNat, d.map Octets.toNat⟩ := by
  constructor
  · intro h
    unfold decode at h
    split at h
    · next head algorithm led =>
      split at h
      · next items ledInside =>
        obtain ⟨rfl, _, outerWord⟩ := SExpr.tagged?_eq_some_iff.mp led
        obtain ⟨rfl, _, innerWord⟩ := SExpr.tagged?_eq_some_iff.mp ledInside
        obtain ⟨first, curve, x, y, d, rfl, scalar, rfl⟩ := decodeTerms_eq_ok h
        obtain ⟨rfl, -⟩ := List.cons.inj outerWord
        obtain ⟨rfl, -⟩ := List.cons.inj innerWord
        exact ⟨curve, x, y, d, rfl, scalar, rfl⟩
      · exact nomatch h
    · exact nomatch h
  · rintro ⟨curve, x, y, d, rfl, rfl, rfl⟩
    exact decode_spelled outer curve x y d

end KeyParts

namespace PublicKey

/-- The expression of a key with given octets for its coordinates. -/
def spelled (curve : Curve) (x y : Octets) : SExpr :=
  .list [.text "public-key", .list [.text signatureAlgorithm,
    .term "curve" (Octets.ofText curve.name), .term "x" x, .term "y" y]]

theorem encode_eq_spelled (key : PublicKey) :
    key.encode = spelled key.curve (Octets.ofNat key.x) (Octets.ofNat key.y) := rfl

/-- The coordinates are written without zeros in front. -/
theorem encode_ofPoint_toNat (curve : Curve) (x y : Octets) :
    (ofPoint curve x.toNat y.toNat).encode = spelled curve x.trim y.trim :=
  KeyParts.encode_toNat "public-key" curve x y none

/-- A key is read from its expression with any zeros in front of the coordinates, and from no
other. -/
theorem decode_eq_ok_iff {expr : SExpr} {key : PublicKey} :
    decode expr = .ok key ↔
      ∃ curve x y, expr = spelled curve x y ∧ key = ofPoint curve x.toNat y.toNat := by
  rw [decode, bind_eq_ok_iff]
  constructor
  · rintro ⟨parts, read, made⟩
    obtain ⟨curve, x, y, d, rfl, noScalar, rfl⟩ := KeyParts.decode_eq_ok_iff.mp read
    obtain rfl : d = none := by simpa using noScalar
    cases made
    exact ⟨curve, x, y, rfl, rfl⟩
  · rintro ⟨curve, x, y, rfl, rfl⟩
    exact ⟨_, KeyParts.decode_spelled "public-key" curve x y none, rfl⟩

theorem spelled_inj {curve other : Curve} {x y u v : Octets} :
    spelled curve x y = spelled other u v ↔ curve = other ∧ x = u ∧ y = v := by
  constructor
  · intro same
    simp only [spelled, SExpr.term, SExpr.ofOctets, SExpr.list.injEq, SExpr.atom.injEq,
      Atom.mk.injEq, List.cons.injEq, and_true, true_and] at same
    obtain ⟨names, xs, ys⟩ := same
    have name : curve.name = other.name := SExpr.text_injective (congrArg SExpr.ofOctets names)
    exact ⟨Curve.name_injective name, xs, ys⟩
  · rintro ⟨rfl, rfl, rfl⟩
    rfl

/-- A key is written as it was spelled if its coordinates had no zeros in front. -/
theorem spelled_trim_eq_iff {curve : Curve} {x y : Octets} :
    spelled curve x.trim y.trim = spelled curve x y ↔ x.trim = x ∧ y.trim = y := by
  rw [spelled_inj]
  exact and_iff_right rfl

end PublicKey

namespace PrivateKey

/-- The expression of a key with given octets for its coordinates and its scalar. -/
def spelled (curve : Curve) (x y d : Octets) : SExpr :=
  .list [.text "private-key", .list [.text signatureAlgorithm,
    .term "curve" (Octets.ofText curve.name), .term "x" x, .term "y" y, .term "d" d]]

theorem encode_eq_spelled (key : PrivateKey) :
    key.encode = spelled key.half.curve (Octets.ofNat key.half.x) (Octets.ofNat key.half.y)
      (Octets.ofNat key.scalar) := rfl

/-- The integers are written without zeros in front. -/
theorem encode_ofParts_toNat (curve : Curve) (x y d : Octets) :
    (ofParts curve x.toNat y.toNat d.toNat).encode = spelled curve x.trim y.trim d.trim :=
  KeyParts.encode_toNat "private-key" curve x y (some d)

/-- A key is read from its expression with any zeros in front of the integers, and from no other. -/
theorem decode_eq_ok_iff {expr : SExpr} {key : PrivateKey} :
    decode expr = .ok key ↔ ∃ curve x y d, expr = spelled curve x y d ∧
      key = ofParts curve x.toNat y.toNat d.toNat := by
  rw [decode, bind_eq_ok_iff]
  constructor
  · rintro ⟨parts, read, made⟩
    obtain ⟨curve, x, y, d, rfl, hasScalar, rfl⟩ := KeyParts.decode_eq_ok_iff.mp read
    obtain ⟨d, rfl⟩ := Option.isSome_iff_exists.mp hasScalar
    cases made
    exact ⟨curve, x, y, d, rfl, rfl⟩
  · rintro ⟨curve, x, y, d, rfl, rfl⟩
    exact ⟨_, KeyParts.decode_spelled "private-key" curve x y (some d), rfl⟩

/-- The word in front tells the kinds of keys apart. -/
theorem decode_ne_of_publicKey {expr : SExpr} {key : PublicKey}
    (h : PublicKey.decode expr = .ok key) (other : PrivateKey) : decode expr ≠ .ok other := by
  intro read
  obtain ⟨_, _, _, rfl, -⟩ := PublicKey.decode_eq_ok_iff.mp h
  obtain ⟨_, _, _, _, same, -⟩ := decode_eq_ok_iff.mp read
  have word := SExpr.text_injective (List.cons.inj (SExpr.list.inj same)).1
  exact absurd word (by decide)

end PrivateKey

end SimplePki
