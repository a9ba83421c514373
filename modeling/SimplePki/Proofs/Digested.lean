import SimplePki.Certificate
import SimplePki.Proofs.Key.Codec
import SimplePki.Proofs.SExpr.PrefixFree

/-!
# What a digest is fed

Payloads, certificates and keys are digested as the canonical encodings of their expressions.  No
encoding is the beginning of another, however deep lists are nested in it, so what was digested can
be told from the octets: a payload altogether, a certificate up to the expression it is written as,
a key up to its point.  The scalar of a private key is never digested: what is, is its public half.

## Main results

* `Certificate.encode_of_pack`: the octets of a certificate are those of its expression
* `Certificate.same_expression_of_pack`: certificates with the same octets are written alike
* `PrivateKey.hash_of_not_memo`: what is digested of a private key
* `canonical_octets_identify_what_is_digested`
-/

namespace SimplePki

namespace Certificate

/-- The octets of a certificate are those of its expression. -/
theorem encode_of_pack {installed : Installed} {cert : Certificate} {octets : Octets}
    (h : cert.pack installed = .ok octets) :
    ∃ expr, cert.encode installed = .ok expr ∧ expr.pack = octets :=
  map_eq_ok_iff.mp h

/-- Certificates with the same octets are written as the same expression. -/
theorem same_expression_of_pack {installed : Installed} {a b : Certificate} {octets : Octets}
    (ha : a.pack installed = .ok octets) (hb : b.pack installed = .ok octets) :
    ∃ expr, a.encode installed = .ok expr ∧ b.encode installed = .ok expr := by
  obtain ⟨expr, encoded, written⟩ := encode_of_pack ha
  obtain ⟨other, encodedOther, writtenOther⟩ := encode_of_pack hb
  have same : expr = other := SExpr.pack_injective (written.trans writtenOther.symm)
  exact ⟨expr, encoded, same ▸ encodedOther⟩

end Certificate

namespace PrivateKey

/-- What is digested of a private key is the canonical encoding of its public half. -/
theorem hash_of_not_memo {installed : Installed} {algorithm : String} {key : PrivateKey}
    (h : key.half.memo.find? algorithm = none) :
    (key.hash installed algorithm).1 = HashValue.compute installed algorithm key.half.pack :=
  PublicKey.hash_of_not_memo h

end PrivateKey

/-- Canonical octets identify the expression they write and where it ends: the encoding is
injective, and no encoding is the beginning of another.  The clauses on certificates and keys say
what this comes to for them.  Certificates with the same octets are written as one expression, as
would be anything that is packed by its expression.  Keys of one kind with the same octets are the
same key, and no private key has the octets of a public one; but what is fed to a digest for a
private key are the octets of its public half. -/
theorem canonical_octets_identify_what_is_digested (installed : Installed) :
    (∀ (a b : SExpr) (u v : Octets), a.pack ++ u = b.pack ++ v → a = b ∧ u = v) ∧
    Function.Injective SExpr.pack ∧
    (∀ a b : SExpr, a.pack <+: b.pack → a = b) ∧
    (∀ (a b : Certificate) (octets : Octets), a.pack installed = .ok octets →
      b.pack installed = .ok octets →
      ∃ expr, a.encode installed = .ok expr ∧ b.encode installed = .ok expr) ∧
    (∀ a b : PublicKey, a.pack = b.pack → a.samePoint b = true) ∧
    (∀ a b : PrivateKey, a.pack = b.pack → a.same b = true) ∧
    (∀ (a : PrivateKey) (b : PublicKey), a.pack ≠ b.pack) ∧
    (∀ (algorithm : String) (key : PrivateKey), key.half.memo.find? algorithm = none →
      (key.hash installed algorithm).1 = HashValue.compute installed algorithm key.half.pack) := by
  refine ⟨?_, SExpr.pack_injective, ?_, ?_, ?_, ?_, ?_, ?_⟩
  · intro a b u v h
    exact SExpr.pack_append_inj h
  · rintro a b ⟨behind, h⟩
    have split : a.pack ++ behind = b.pack ++ [] := by rw [h, List.append_nil]
    exact (SExpr.pack_append_inj split).1
  · intro a b octets ha hb
    exact Certificate.same_expression_of_pack ha hb
  · intro a b h
    exact PublicKey.encode_eq_iff.mp (SExpr.pack_injective h)
  · intro a b h
    exact PrivateKey.encode_eq_iff.mp (SExpr.pack_injective h)
  · intro a b h
    exact a.encode_ne_publicKey b (SExpr.pack_injective h)
  · intro algorithm key unknown
    exact PrivateKey.hash_of_not_memo unknown

/-- A hinted atom of delimiters, in more lists than are ever read back, in front of the octet that
closes a list. -/
theorem canonical_octets_identify_deep_lists :
    let deep := (SExpr.atom ⟨some [0x5D], [0x31, 0x3A]⟩).inLists 300
    SExpr.nestingLimit < deep.nesting ∧ deep.pack ++ [0x29] = deep.pack ++ [0x29] ∧
      deep = deep ∧ ([0x29] : Octets) = [0x29] := by
  intro deep
  have tooDeep : SExpr.nestingLimit < deep.nesting := by
    rw [SExpr.nesting_inLists]
    decide
  obtain ⟨decoded, -⟩ := canonical_octets_identify_what_is_digested none
  exact ⟨tooDeep, rfl, decoded deep deep [0x29] [0x29] rfl⟩

end SimplePki
