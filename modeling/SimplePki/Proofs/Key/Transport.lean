import Mathlib.Algebra.Group.Nat.Defs
import SimplePki.Proofs.Key.Spelling
import SimplePki.Proofs.SExpr.ReadsAdvanced

/-!
# Keys in transport

A key is sent as its canonical octets or as text.  Whoever receives it reads the curve, the
coordinates and the scalar that were sent, whatever numbers these are: nothing asks them to be those
of a point, or to be as narrow as the field.  All that is asked of the octets is that the length of
each integer can be written; the text asks for nothing.

Integers are written in the fewest octets, so that zero is the empty octet string.  Who writes them
otherwise is understood all the same, and what was received is sent on with the fewest octets.

## Main results

* `KeyParts.read_pack_encode`, `KeyParts.read_toAdvanced_encode`: both forms of a key are read
* `Key.encoded_keys_are_read_back`
-/

namespace SimplePki

open Reader (lengthLimit)

namespace KeyParts

/-- The lengths in the expression of a key can be written if those of its integers can. -/
theorem measured_encode {outer : String} {parts : KeyParts}
    (named : (Octets.ofText outer).length < lengthLimit)
    (x : (Octets.ofNat parts.x).length < lengthLimit)
    (y : (Octets.ofNat parts.y).length < lengthLimit)
    (d : ∀ n, parts.d = some n → (Octets.ofNat n).length < lengthLimit) :
    (parts.encode outer).Measured := by
  have algorithm : (SExpr.text signatureAlgorithm).Measured :=
    SExpr.measured_ofOctets_iff.mpr (by decide)
  have curve : (SExpr.term "curve" (Octets.ofText parts.curve.name)).Measured :=
    SExpr.measured_term (by decide) (by cases parts.curve <;> decide)
  have scalar : (SExpr.list ((parts.d.map Octets.ofNat).map (SExpr.term "d")).toList).Measured := by
    rw [SExpr.measured_list_iff, Option.map_map]
    intro term mem
    obtain ⟨n, known, rfl⟩ := Option.map_eq_some_iff.mp (Option.mem_toList.mp mem)
    exact SExpr.measured_term (by decide) (d n known)
  rw [encode_eq_spelled, spelled]
  simp only [List.cons_append, List.nil_append, SExpr.measured_cons_iff]
  exact ⟨SExpr.measured_ofOctets_iff.mpr named, ⟨algorithm, curve,
    SExpr.measured_term (by decide) x, SExpr.measured_term (by decide) y, scalar⟩,
    SExpr.measured_nil⟩

theorem nesting_encode (outer : String) (parts : KeyParts) : (parts.encode outer).nesting = 3 := by
  obtain ⟨curve, x, y, d⟩ := parts
  cases d <;> rfl

theorem nesting_encode_le (outer : String) (parts : KeyParts) :
    (parts.encode outer).nesting ≤ SExpr.nestingLimit := by
  rw [nesting_encode]
  decide

theorem read_pack_encode {outer : String} {parts : KeyParts}
    (measured : (parts.encode outer).Measured) :
    SExpr.read (parts.encode outer).pack = .ok (parts.encode outer) :=
  SExpr.read_pack_of_measured (nesting_encode_le outer parts) measured

theorem read_toAdvanced_encode (outer : String) (parts : KeyParts) :
    SExpr.read (Octets.ofText (parts.encode outer).toAdvanced) = .ok (parts.encode outer) :=
  SExpr.read_toAdvanced (nesting_encode_le outer parts)

end KeyParts

namespace Key

/-- A public or private key with any integers is read back from its octets, if their lengths can be
written, and from its text: with the same curve and the same integers, each of which is written
without a zero in front, and zero as no octets at all.  An expression that is read as a key leaves no
choice but zeros in front of its integers, and the key is written as that expression without them.
No expression is read as a public and as a private key. -/
theorem encoded_keys_are_read_back :
    (∀ key : PublicKey,
      ((Octets.ofNat key.x).length < lengthLimit → (Octets.ofNat key.y).length < lengthLimit →
        SExpr.read key.pack = .ok key.encode) ∧
      SExpr.read (Octets.ofText key.encode.toAdvanced) = .ok key.encode ∧
      PublicKey.decode key.encode = .ok (.ofPoint key.curve key.x key.y) ∧
      ∃ x y, key.encode = PublicKey.spelled key.curve x y ∧ x.Shortest key.x ∧
        y.Shortest key.y) ∧
    (∀ key : PrivateKey,
      ((Octets.ofNat key.half.x).length < lengthLimit →
        (Octets.ofNat key.half.y).length < lengthLimit →
        (Octets.ofNat key.scalar).length < lengthLimit →
        SExpr.read key.pack = .ok key.encode) ∧
      SExpr.read (Octets.ofText key.encode.toAdvanced) = .ok key.encode ∧
      PrivateKey.decode key.encode =
        .ok (.ofParts key.half.curve key.half.x key.half.y key.scalar) ∧
      ∃ x y d, key.encode = PrivateKey.spelled key.half.curve x y d ∧ x.Shortest key.half.x ∧
        y.Shortest key.half.y ∧ d.Shortest key.scalar) ∧
    (∀ octets : Octets, octets.Shortest 0 ↔ octets = []) ∧
    (∀ expr key, PublicKey.decode expr = .ok key →
      (∃ curve x y, expr = PublicKey.spelled curve x y ∧
        key.encode = PublicKey.spelled curve x.trim y.trim) ∧
      ∀ other, PrivateKey.decode expr ≠ .ok other) ∧
    ∀ expr key, PrivateKey.decode expr = .ok key →
      ∃ curve x y d, expr = PrivateKey.spelled curve x y d ∧
        key.encode = PrivateKey.spelled curve x.trim y.trim d.trim := by
  refine ⟨fun key => ⟨fun x y => ?_, ?_, key.decode_encode, ?_⟩,
    fun key => ⟨fun x y d => ?_, ?_, key.decode_encode, ?_⟩,
    fun _ => Octets.shortest_zero_iff, fun expr key read => ⟨?_, ?_⟩, fun expr key read => ?_⟩
  · refine KeyParts.read_pack_encode (KeyParts.measured_encode (by decide) x y ?_)
    exact fun _ none => nomatch none
  · exact KeyParts.read_toAdvanced_encode _ _
  · exact ⟨_, _, key.encode_eq_spelled, Octets.shortest_ofNat _, Octets.shortest_ofNat _⟩
  · refine KeyParts.read_pack_encode (KeyParts.measured_encode (by decide) x y ?_)
    rintro _ ⟨⟩
    exact d
  · exact KeyParts.read_toAdvanced_encode _ _
  · exact ⟨_, _, _, key.encode_eq_spelled, Octets.shortest_ofNat _, Octets.shortest_ofNat _,
      Octets.shortest_ofNat _⟩
  · obtain ⟨curve, x, y, rfl, rfl⟩ := PublicKey.decode_eq_ok_iff.mp read
    exact ⟨curve, x, y, rfl, PublicKey.encode_ofPoint_toNat curve x y⟩
  · exact PrivateKey.decode_ne_of_publicKey read
  · obtain ⟨curve, x, y, d, rfl, rfl⟩ := PrivateKey.decode_eq_ok_iff.mp read
    exact ⟨curve, x, y, d, rfl, PrivateKey.encode_ofParts_toNat curve x y d⟩

/-- A private key with a coordinate of forty octets, another of zero and a scalar of zero is read
back; one that is received with zeros in front of its integers is sent on without them. -/
theorem wide_and_empty_integers_are_read_back :
    let wide : PrivateKey := .ofParts .p256 (256 ^ 39) 0 0
    SExpr.read wide.pack = .ok wide.encode ∧ PrivateKey.decode wide.encode = .ok wide ∧
      ∃ key, PrivateKey.decode (PrivateKey.spelled .p384 [0, 0, 1] [0] []) = .ok key ∧
        ∃ curve x y d, PrivateKey.spelled .p384 [0, 0, 1] [0] [] =
            PrivateKey.spelled curve x y d ∧
          key.encode = PrivateKey.spelled curve x.trim y.trim d.trim := by
  obtain ⟨-, sent, -, -, received⟩ := encoded_keys_are_read_back
  obtain ⟨packed, -, decoded, -⟩ := sent (.ofParts .p256 (256 ^ 39) 0 0)
  have padded := PrivateKey.decode_eq_ok_iff.mpr ⟨Curve.p384, [0, 0, 1], [0], [], rfl, rfl⟩
  exact ⟨packed (by decide +kernel) (by decide +kernel) (by decide +kernel), decoded, _, padded,
    received _ _ padded⟩

end Key

end SimplePki
