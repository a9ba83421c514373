import SimplePki.Proofs.Outcome
import SimplePki.Proofs.SExpr.Nesting
import SimplePki.Proofs.SExpr.PrefixFree
import SimplePki.Proofs.SExpr.ReadsAdvanced

/-!
# Whatever is read can be written and read again

An input may spell its expression in many ways: octet strings with their lengths, as tokens, in
quotes, in hexadecimal or base64, and whole expressions in transport blocks.  Reading forgets the
spelling.  What it yields is nested within the limit, however deep the blocks that it stood in, and
so both of its written forms are read back.  The canonical encoding thus stands for all inputs that
spell the same expression: bringing an input to it loses nothing and happens once.

The converse fails for expressions that are nested too deep, but no input spells one of them.

## Main definitions

* `SExpr.canonicalize`: the canonical encoding of what an input spells

## Main results

* `SExpr.read_pack_of_read`, `SExpr.read_toAdvanced_of_read`: what was read is read again
* `SExpr.canonicalize_canonicalize`: a canonical form is its own
* `SExpr.canonicalize_eq_iff`: inputs with one canonical form spell one expression
* `SExpr.accepted_octets_have_a_canonical_form`
-/

namespace SimplePki.SExpr

variable {input other form : Octets} {expr spelled : SExpr}

/-- The canonical encoding of the expression that an input spells. -/
def canonicalize (input : Octets) : Except ReadError Octets := (read input).map pack

/-- An input has a canonical form exactly if it spells an expression, and it is that one's. -/
theorem canonicalize_eq_ok_iff :
    canonicalize input = .ok form ↔ ∃ expr, read input = .ok expr ∧ expr.pack = form :=
  map_eq_ok_iff

theorem canonicalize_of_read (h : read input = .ok expr) : canonicalize input = .ok expr.pack :=
  canonicalize_eq_ok_iff.mpr ⟨expr, h, rfl⟩

/-! ### Reading again -/

/-- What was read is read again from its canonical encoding. -/
theorem read_pack_of_read (h : read input = .ok expr) (short : expr.pack.length < memoryLimit) :
    read expr.pack = .ok expr :=
  read_pack (nesting_le_of_read h) short

/-- What was read is read again from its advanced form. -/
theorem read_toAdvanced_of_read (h : read input = .ok expr) :
    read (Octets.ofText expr.toAdvanced) = .ok expr :=
  read_toAdvanced (nesting_le_of_read h)

/-- A canonical form is its own. -/
theorem canonicalize_canonicalize (h : canonicalize input = .ok form)
    (short : form.length < memoryLimit) : canonicalize form = .ok form := by
  obtain ⟨expr, read, rfl⟩ := canonicalize_eq_ok_iff.mp h
  exact canonicalize_of_read (read_pack_of_read read short)

/-- Inputs with one canonical form spell one expression. -/
theorem canonicalize_eq_iff (h : read input = .ok expr) (hOther : read other = .ok spelled) :
    canonicalize input = canonicalize other ↔ expr = spelled := by
  rw [canonicalize_of_read h, canonicalize_of_read hOther]
  constructor
  · intro forms
    exact pack_injective (Except.ok.inj forms)
  · rintro rfl
    rfl

/-- What an input spells is nested within the limit and is read again from its advanced form, and
from its canonical encoding if that fits into memory.  So bringing inputs to their canonical form
works for those that spell something and for no others, changes nothing when it is done again, and
tells apart those that spell different expressions, and only those. -/
theorem accepted_octets_have_a_canonical_form (input : Octets) :
    (∀ expr, read input = .ok expr →
      expr.nesting ≤ nestingLimit ∧
      read (Octets.ofText expr.toAdvanced) = .ok expr ∧
      canonicalize input = .ok expr.pack ∧
      (expr.pack.length < memoryLimit →
        read expr.pack = .ok expr ∧ canonicalize expr.pack = .ok expr.pack) ∧
      ∀ other spelled, read other = .ok spelled →
        (canonicalize input = canonicalize other ↔ expr = spelled)) ∧
    ∀ error, read input = .error error → canonicalize input = .error error := by
  constructor
  · intro expr h
    refine ⟨nesting_le_of_read h, read_toAdvanced_of_read h, canonicalize_of_read h, ?_, ?_⟩
    · intro short
      exact ⟨read_pack_of_read h short, canonicalize_canonicalize (canonicalize_of_read h) short⟩
    · intro other spelled hOther
      exact canonicalize_eq_iff h hOther
  · intro error h
    rw [canonicalize, h]
    rfl

/-- The octets of `( #61# {W2hdYg==})`: a list of an octet in hexadecimal and of a transport block
that holds `[h]b`. -/
def wrapped : Octets :=
  [0x28, 0x20, 0x23, 0x36, 0x31, 0x23, 0x20,
    0x7B, 0x57, 0x32, 0x68, 0x64, 0x59, 0x67, 0x3D, 0x3D, 0x7D, 0x29]

/-- The list of an atom and a hinted one that is spelled there. -/
def unwrapped : SExpr := .list [text "a", .atom ⟨some (Octets.ofText "h"), Octets.ofText "b"⟩]

theorem read_wrapped : read wrapped = .ok unwrapped := by
  have first : Reader.item (Reader.expression 255).run ⟨1, wrapped.drop 1⟩ =
      .ok (some (text "a")) ⟨6, wrapped.drop 6⟩ := rfl
  have second : Reader.item (Reader.expression 255).run ⟨6, wrapped.drop 6⟩ =
      .ok (some (.atom ⟨some (Octets.ofText "h"), Octets.ofText "b"⟩)) ⟨17, wrapped.drop 17⟩ := rfl
  have last : Reader.item (Reader.expression 255).run ⟨17, wrapped.drop 17⟩ =
      .ok none ⟨18, []⟩ := rfl
  have items : Reader.collect (Reader.item (Reader.expression 255).run)
      (Reader.advances_item (Reader.expression 255)) [] ⟨1, wrapped.drop 1⟩ =
        .ok [text "a", .atom ⟨some (Octets.ofText "h"), Octets.ofText "b"⟩] ⟨18, []⟩ := by
    rw [Reader.collect_of_some _ _ first, Reader.collect_of_some _ _ second, Reader.collect_apply,
      last]
    rfl
  have list : (Reader.expression nestingLimit).run (Cursor.start wrapped) =
      .ok unwrapped ⟨18, []⟩ := by
    change (Reader.collect (Reader.item (Reader.expression 255).run)
      (Reader.advances_item (Reader.expression 255)) [] >>= fun items => pure (list items))
        ⟨1, wrapped.drop 1⟩ = _
    rw [Reader.bind_of_ok items]
    rfl
  rw [read, Reader.complete, list]
  rfl

/-- The list has one canonical form, in which nothing is left of hexadecimal, blanks and blocks, and
its own octets spell it again, as does its advanced form. -/
theorem wrapped_octets_have_a_canonical_form :
    canonicalize wrapped = .ok (Octets.ofText "(1:a[1:h]1:b)") ∧
      canonicalize (Octets.ofText "(1:a[1:h]1:b)") = .ok (Octets.ofText "(1:a[1:h]1:b)") ∧
      read (Octets.ofText "(a [h]b)") = .ok unwrapped := by
  have form : unwrapped.pack = Octets.ofText "(1:a[1:h]1:b)" := by decide +kernel
  have advanced : unwrapped.toAdvanced = "(a [h]b)" := by decide +kernel
  obtain ⟨-, readAdvanced, canonical, again, -⟩ :=
    (accepted_octets_have_a_canonical_form wrapped).1 unwrapped read_wrapped
  rw [form] at canonical again
  rw [advanced] at readAdvanced
  exact ⟨canonical, (again (by decide +kernel)).2, readAdvanced⟩

end SimplePki.SExpr
