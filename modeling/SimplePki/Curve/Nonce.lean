import SimplePki.Curve
import SimplePki.Octets.BigEndian

/-!
# Nonces without randomness

A signature needs a secret number that is used once.  It is drawn from a generator that the secret
scalar and the digest determine: a keyed digest is iterated, and its outputs are the candidates, in
turn.

## Main definitions

* `Nonce.State`, `Nonce.start`, `Nonce.State.candidate`, `Nonce.State.reseed`
-/

namespace SimplePki.Nonce

/-- The key and the last output of the generator. -/
structure State where
  key : Octets
  output : Octets

/-- The generator with its next output. -/
def State.advance (alg : DigestAlgorithm) (state : State) : State :=
  { state with output := alg.hmac state.key state.output }

/-- The generator with a key that depends on its output, a separating octet and a seed. -/
def State.rekey (alg : DigestAlgorithm) (state : State) (mark : UInt8) (seed : Octets) : State :=
  State.advance alg ⟨alg.hmac state.key (state.output ++ mark :: seed), state.output⟩

/-- The generator of a scalar and a digest, both of the width of the curve's numbers. -/
def start (curve : Curve) (scalar : Nat) (digest : Octets) : State :=
  let alg := curve.digestAlgorithm
  let seed := Octets.lowest curve.width scalar ++
    Octets.lowest curve.width (digest.toNat % curve.order)
  -- the seed enters twice, told apart by the separating octets
  let first : State := ⟨List.replicate alg.size 0x00, List.replicate alg.size 0x01⟩
  State.advance alg ((first.rekey alg 0x00 seed).rekey alg 0x01 seed)

/-- The candidate that the generator offers. -/
def State.candidate (state : State) : Nat := state.output.toNat

/-- The generator with its next candidate. -/
def State.next (alg : DigestAlgorithm) (state : State) : State :=
  State.advance alg (state.rekey alg 0x00 [])

end SimplePki.Nonce
