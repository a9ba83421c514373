import SimplePki.Key
import SimplePki.Proofs.Octets.BigEndian
import SimplePki.Proofs.Outcome
import SimplePki.Proofs.SExpr.Structure

/-!
# Keys and their expressions

A key that is written as an expression is read back with the same curve, the same coordinates and,
where it has one, the same scalar.  What a key remembers is not written; it is read back without any
memory.

## Main definitions

* `KeyParts.spelled`: the expression of a key with given octets for its integers
* `PublicKey.bare`: the key without what it remembers

## Main results

* `KeyParts.decode_spelled`, `KeyParts.decode_encode`: the shape that public and private keys share
* `PublicKey.decode_encode`, `PrivateKey.decode_encode`
* `PublicKey.encode_eq_iff`, `PrivateKey.encode_eq_iff`: keys with one expression have one point
* `PrivateKey.encode_ne_publicKey`: no private key is written as a public one
-/

namespace SimplePki

/-! ### The parts of a key -/

namespace KeyParts

theorem decodeNat_term (name : String) (octets : Octets) :
    decodeNat name (.term name octets) = .ok octets.toNat := by
  rw [decodeNat, SExpr.termNat, SExpr.termOctets_term, ok_bind]
  rfl

theorem toTextLossy_curveName (curve : Curve) :
    (Octets.ofText curve.name).toTextLossy = curve.name := by
  cases curve <;> decide +kernel

theorem decodeCurve_term (curve : Curve) :
    decodeCurve (.term "curve" (Octets.ofText curve.name)) = .ok curve := by
  rw [decodeCurve, SExpr.termOctets_term]
  simp only [toTextLossy_curveName, Curve.ofName?_name]

/-- The expression of a key with given octets for its integers. -/
def spelled (outer : String) (curve : Curve) (x y : Octets) (d : Option Octets) : SExpr :=
  .list [.text outer, .list ([.text signatureAlgorithm,
    .term "curve" (Octets.ofText curve.name), .term "x" x, .term "y" y] ++
      (d.map (SExpr.term "d")).toList)]

theorem encode_eq_spelled (outer : String) (parts : KeyParts) :
    parts.encode outer = spelled outer parts.curve (Octets.ofNat parts.x) (Octets.ofNat parts.y)
      (parts.d.map Octets.ofNat) := by
  obtain ⟨curve, x, y, d⟩ := parts
  cases d <;> rfl

theorem decode_spelled (outer : String) (curve : Curve) (x y : Octets) (d : Option Octets) :
    decode outer d.isSome (spelled outer curve x y d) =
      .ok ⟨curve, x.toNat, y.toNat, d.map Octets.toNat⟩ := by
  rw [decode, spelled, SExpr.tagged?_list_text]
  -- with a scalar there is one term more
  cases d with
  | none =>
    simp only [Option.map_none, Option.toList_none, List.append_nil, SExpr.tagged?_list_text]
    simp only [decodeTerms, Option.isSome_none, decodeCurve_term, decodeNat_term, ok_bind]
    rfl
  | some d =>
    simp only [Option.map_some, Option.toList_some, List.cons_append, List.nil_append,
      SExpr.tagged?_list_text]
    simp only [decodeTerms, Option.isSome_some, decodeCurve_term, decodeNat_term, ok_bind]
    rfl

/-- The parts of a key are read back from the expression they make. -/
theorem decode_encode (outer : String) (parts : KeyParts) :
    decode outer parts.d.isSome (parts.encode outer) = .ok parts := by
  have read := decode_spelled outer parts.curve (Octets.ofNat parts.x) (Octets.ofNat parts.y)
    (parts.d.map Octets.ofNat)
  rw [Option.isSome_map, Octets.toNat_ofNat, Octets.toNat_ofNat, Option.map_map,
    show Octets.toNat ∘ Octets.ofNat = id from funext Octets.toNat_ofNat, Option.map_id] at read
  rw [encode_eq_spelled]
  exact read

/-- The text that leads an expression tells the kinds of keys apart. -/
theorem encode_ne_of_ne {outer other : String} (h : outer ≠ other) (a b : KeyParts) :
    a.encode outer ≠ b.encode other := by
  intro same
  have items := SExpr.list.inj same
  exact h (SExpr.text_injective (List.cons.inj items).1)

end KeyParts

/-! ### Public keys -/

namespace PublicKey

theorem decode_encode (key : PublicKey) :
    decode key.encode = .ok (ofPoint key.curve key.x key.y) := by
  have parts := KeyParts.decode_encode "public-key" ⟨key.curve, key.x, key.y, none⟩
  rw [decode, encode]
  rw [Option.isSome_none] at parts
  rw [parts, ok_bind]
  rfl

/-- The key without what it remembers. -/
def bare (key : PublicKey) : PublicKey := ofPoint key.curve key.x key.y

theorem samePoint_bare (key : PublicKey) : key.bare.samePoint key = true :=
  samePoint_iff.mpr ⟨rfl, rfl, rfl⟩

theorem encode_eq_iff {a b : PublicKey} : a.encode = b.encode ↔ a.samePoint b = true := by
  rw [samePoint_iff]
  constructor
  · intro same
    have reread := congrArg decode same
    rw [decode_encode, decode_encode] at reread
    simpa [ofPoint] using Except.ok.inj reread
  · rintro ⟨curve, x, y⟩
    rw [encode, encode, curve, x, y]

end PublicKey

/-! ### Private keys -/

namespace PrivateKey

theorem decode_encode (key : PrivateKey) :
    decode key.encode = .ok (ofParts key.half.curve key.half.x key.half.y key.scalar) := by
  have parts := KeyParts.decode_encode "private-key"
    ⟨key.half.curve, key.half.x, key.half.y, some key.scalar⟩
  rw [decode, encode]
  rw [Option.isSome_some] at parts
  rw [parts, ok_bind]
  rfl

theorem encode_eq_iff {a b : PrivateKey} : a.encode = b.encode ↔ a.same b = true := by
  rw [same, Bool.and_eq_true, PublicKey.samePoint_iff, beq_iff_eq]
  constructor
  · intro same
    have reread := congrArg decode same
    rw [decode_encode, decode_encode] at reread
    simpa [ofParts, PublicKey.ofPoint, and_assoc] using Except.ok.inj reread
  · rintro ⟨⟨curve, x, y⟩, scalar⟩
    rw [encode, encode, curve, x, y, scalar]

theorem encode_ne_publicKey (key : PrivateKey) (other : PublicKey) : key.encode ≠ other.encode :=
  KeyParts.encode_ne_of_ne (by decide) _ _

end PrivateKey

end SimplePki
