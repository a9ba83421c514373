import SimplePki.Proofs.Gateway.Action
import SimplePki.Proofs.KeyRing

/-!
# What the actions of a gateway do to its ring

An action that fails leaves its gateway as it was.  An action that succeeds adds keys to the ring,
in order, and changes nothing else: the key that is given, the signer's, the issuer's, or the keys
of the sequence that is accepted, if the policy says so.

A sequence has many ways to be refused, but all of them come before the first key is added.  Adding
keys has only one way to fail, for want of a registry, and where there is a gateway a registry is
installed.  So a gateway never keeps some of the keys of a sequence without the others, and its ring
holds what was added by the actions that succeeded.

## Main definitions

* `Gateway.Reachable`: the gateways that a policy and any actions lead to
* `Gateway.Adds`: nothing is changed by a failure, and keys are added by a success

## Main results

* `Gateway.adds_register`, `Gateway.adds_sign`, `Gateway.adds_issue`, `Gateway.adds_accept`: one
  action
* `Gateway.Reachable.exists_registerAll`: the ring after a run of actions
* `Gateway.failures_keep_the_ring_and_successes_add_their_keys`
-/

namespace SimplePki.Gateway

variable {registry : Registry} {gateway : Gateway} {α : Type}

/-! ### Reachable gateways -/

/-- The gateways that are made by a policy that is accepted, and then perform any actions, failures
among them. -/
inductive Reachable (installed : Installed) : Gateway → Prop where
  | new {before : Installed} {policy : Policy} {gateway : Gateway}
    (made : Gateway.new before policy = (.ok gateway, installed)) : Reachable installed gateway
  | register {gateway : Gateway} (key : PublicKey) (earlier : Reachable installed gateway) :
    Reachable installed (perform (register installed key) gateway).2
  | sign {gateway : Gateway} (key : PrivateKey) (payload : SExpr)
    (earlier : Reachable installed gateway) :
    Reachable installed (perform (sign installed key payload) gateway).2
  | issue {gateway : Gateway} (issuer : PrivateKey) (subject : Subject) (tag : SExpr)
    (validity : Option Validity) (earlier : Reachable installed gateway) :
    Reachable installed (perform (issue installed issuer subject tag validity) gateway).2
  | accept {gateway : Gateway} (input : Octets) (earlier : Reachable installed gateway) :
    Reachable installed (perform (accept installed input) gateway).2

/-- Making a gateway installs a registry, and the ring is empty at first. -/
theorem new_eq_ok {before installed : Installed} {policy : Policy}
    (made : Gateway.new before policy = (.ok gateway, installed)) :
    (∃ registry, installed = some registry) ∧ gateway.ring = .empty := by
  unfold Gateway.new at made
  split at made
  · exact nomatch (Prod.mk.inj made).1
  · split at made
    · exact nomatch (Prod.mk.inj made).1
    · next offered _ =>
      obtain ⟨same, after⟩ := Prod.mk.inj made
      rw [Installed.install_fst] at after
      rw [← Except.ok.inj same]
      exact ⟨⟨_, after.symm⟩, rfl⟩

/-- Where there is a gateway, a registry is installed. -/
theorem Reachable.exists_registry {installed : Installed} (h : Reachable installed gateway) :
    ∃ registry, installed = some registry := by
  induction h with
  | new made => exact (new_eq_ok made).1
  | register _ _ ih => exact ih
  | sign _ _ _ ih => exact ih
  | issue _ _ _ _ _ ih => exact ih
  | accept _ _ ih => exact ih

/-! ### One action -/

/-- What an action yields and leaves behind: the same gateway if it fails, and the one with the keys
that go with its value added to the ring if it succeeds. -/
inductive Adds (installed : Installed) (gateway : Gateway) (keys : α → List PublicKey) :
    Except GatewayError α × Gateway → Prop where
  | failed (error : GatewayError) : Adds installed gateway keys (.error error, gateway)
  | added (value : α) {ring : KeyRing}
    (ringWith : gateway.ring.registerAll installed (keys value) = .ok ring) :
    Adds installed gateway keys (.ok value, { gateway with ring })

theorem perform_register_of_ok {installed : Installed} {key : PublicKey} {count : Nat}
    {ring : KeyRing} (added : gateway.ring.register installed key = .ok (count, ring)) :
    perform (register installed key) gateway = (.ok (), { gateway with ring }) := by
  rw [register, perform_bind_of_ok (perform_get gateway),
    perform_bind_of_ok (perform_ofOutcome_of_ok added gateway)]
  exact perform_set _ gateway

/-- Adding a key does not fail. -/
theorem exists_perform_register (registry : Registry) (key : PublicKey) (gateway : Gateway) :
    ∃ ring, gateway.ring.registerAll (some registry) [key] = .ok ring ∧
      perform (register (some registry) key) gateway = (.ok (), { gateway with ring }) := by
  have added := KeyRing.register_eq registry gateway.ring key
  exact ⟨_, KeyRing.registerAll_singleton added, perform_register_of_ok added⟩

theorem perform_registerAll_of_ok {installed : Installed} {keys : List PublicKey} {ring : KeyRing}
    (added : gateway.ring.registerAll installed keys = .ok ring) :
    perform (registerAll installed keys) gateway = (.ok (), { gateway with ring }) := by
  induction keys generalizing gateway with
  | nil =>
    cases added
    exact perform_pure () gateway
  | cons key keys ih =>
    rw [KeyRing.registerAll, List.foldlM_cons] at added
    obtain ⟨_, first, others⟩ := bind_eq_ok_iff.mp added
    obtain ⟨⟨count, between⟩, one, rfl⟩ := map_eq_ok_iff.mp first
    have rest := @ih { gateway with ring := between } others
    rw [registerAll, perform_bind_of_ok (perform_register_of_ok one), rest]

/-- Adding keys one after the other does not fail midway. -/
theorem exists_perform_registerAll (registry : Registry) (keys : List PublicKey)
    (gateway : Gateway) :
    ∃ ring, gateway.ring.registerAll (some registry) keys = .ok ring ∧
      perform (registerAll (some registry) keys) gateway = (.ok (), { gateway with ring }) := by
  obtain ⟨ring, added⟩ := KeyRing.registerAll_of_installed registry gateway.ring keys
  exact ⟨ring, added, perform_registerAll_of_ok added⟩

theorem adds_register (key : PublicKey) :
    Adds (some registry) gateway (fun _ => [key])
      (perform (register (some registry) key) gateway) := by
  obtain ⟨ring, ringWith, added⟩ := exists_perform_register registry key gateway
  rw [added]
  exact .added () ringWith

theorem principal_of_sign {installed : Installed} {key : PrivateKey} {payload : SExpr}
    {signature : Signature} (signed : key.sign installed payload = .ok signature) :
    signature.principal = key.half := by
  obtain ⟨hash, -, made⟩ := bind_eq_ok_iff.mp signed
  split at made
  · cases made
    rfl
  · exact nomatch made

/-- Signing that fails has added nothing. -/
theorem perform_sign_of_error {installed : Installed} {key : PrivateKey} {payload : SExpr}
    {error : Error} (failed : key.sign installed payload = .error error) :
    perform (sign installed key payload) gateway = (.error (.core error), gateway) := by
  rw [sign, perform_bind_of_error (perform_ofOutcome_of_error failed gateway)]

/-- Signing that succeeds adds the signer. -/
theorem perform_sign_of_ok {key : PrivateKey} {payload : SExpr} {signature : Signature}
    (signed : key.sign (some registry) payload = .ok signature) :
    ∃ ring, gateway.ring.registerAll (some registry) [key.half] = .ok ring ∧
      perform (sign (some registry) key payload) gateway =
        (.ok signature, { gateway with ring }) := by
  obtain ⟨ring, ringWith, added⟩ := exists_perform_register registry signature.principal gateway
  rw [principal_of_sign signed] at ringWith
  refine ⟨ring, ringWith, ?_⟩
  rw [sign, perform_bind_of_ok (perform_ofOutcome_of_ok signed gateway), perform_bind_of_ok added]
  rfl

theorem adds_sign (key : PrivateKey) (payload : SExpr) :
    Adds (some registry) gateway (fun _ => [key.half])
      (perform (sign (some registry) key payload) gateway) := by
  cases signed : key.sign (some registry) payload with
  | error error =>
    rw [perform_sign_of_error signed]
    exact .failed _
  | ok signature =>
    obtain ⟨ring, ringWith, added⟩ := perform_sign_of_ok signed
    rw [added]
    exact .added signature ringWith

section Issue

variable {issuer : PrivateKey} {subject : Subject} {tag : SExpr} {validity : Option Validity}

theorem perform_issue_of_unwritten {installed : Installed} {error : Error}
    (failed : (issuer.issue subject tag validity).encode installed = .error error) :
    perform (issue installed issuer subject tag validity) gateway =
      (.error (.core error), gateway) := by
  unfold issue
  dsimp only
  rw [perform_bind_of_error (perform_ofOutcome_of_error failed gateway)]

theorem perform_issue_of_unsigned {installed : Installed} {payload : SExpr} {error : Error}
    (written : (issuer.issue subject tag validity).encode installed = .ok payload)
    (failed : issuer.sign installed payload = .error error) :
    perform (issue installed issuer subject tag validity) gateway =
      (.error (.core error), gateway) := by
  unfold issue
  dsimp only
  rw [perform_bind_of_ok (perform_ofOutcome_of_ok written gateway),
    perform_bind_of_error (perform_sign_of_error failed)]

/-- A certificate that can be written and signed is issued, and its issuer is added. -/
theorem perform_issue_of_signed (gateway : Gateway) {payload : SExpr} {signature : Signature}
    (written : (issuer.issue subject tag validity).encode (some registry) = .ok payload)
    (signed : issuer.sign (some registry) payload = .ok signature) :
    ∃ ring, gateway.ring.registerAll (some registry) [issuer.half] = .ok ring ∧
      perform (issue (some registry) issuer subject tag validity) gateway =
        (.ok ⟨[.publicKey issuer.half, .certificate (issuer.issue subject tag validity),
          .signature signature]⟩, { gateway with ring }) := by
  obtain ⟨ring, ringWith, added⟩ := perform_sign_of_ok signed
  refine ⟨ring, ringWith, ?_⟩
  unfold issue
  dsimp only
  rw [perform_bind_of_ok (perform_ofOutcome_of_ok written gateway), perform_bind_of_ok added]
  rfl

end Issue

theorem adds_issue (issuer : PrivateKey) (subject : Subject) (tag : SExpr)
    (validity : Option Validity) :
    Adds (some registry) gateway (fun _ => [issuer.half])
      (perform (issue (some registry) issuer subject tag validity) gateway) := by
  cases written : (issuer.issue subject tag validity).encode (some registry) with
  | error error =>
    rw [perform_issue_of_unwritten written]
    exact .failed _
  | ok payload =>
    cases signed : issuer.sign (some registry) payload with
    | error error =>
      rw [perform_issue_of_unsigned written signed]
      exact .failed _
    | ok signature =>
      obtain ⟨ring, ringWith, issued⟩ := perform_issue_of_signed gateway written signed
      rw [issued]
      exact .added _ ringWith

/-! ### Accepting -/

section Accept

variable {input : Octets}

/-- The keys that are added with a sequence. -/
def keptKeys (policy : Policy) (accepted : Accepted) : List PublicKey :=
  if policy.registerSequenceKeys then accepted.sequence.keys else []

theorem perform_accept_of_unread {installed : Installed} {fault : ReadError}
    (read : SExpr.read input = .error fault) :
    perform (accept installed input) gateway = (.error (.reading fault), gateway) := by
  rw [accept, perform_bind_of_ok (perform_get gateway), read]
  dsimp only
  rw [perform_bind_of_error (perform_throw (.reading fault) gateway)]

theorem perform_accept_of_undecoded {installed : Installed} {expr : SExpr} {error : Error}
    (read : SExpr.read input = .ok expr)
    (decoded : Sequence.decode installed gateway.ring.lookup expr = .error error) :
    perform (accept installed input) gateway = (.error (.core error), gateway) := by
  rw [accept, perform_bind_of_ok (perform_get gateway), read]
  dsimp only
  rw [pure_bind, perform_bind_of_error (perform_ofOutcome_of_error decoded gateway)]

theorem perform_accept_of_unchecked {installed : Installed} {expr : SExpr} {sequence : Sequence}
    {error : GatewayError} (read : SExpr.read input = .ok expr)
    (decoded : Sequence.decode installed gateway.ring.lookup expr = .ok sequence)
    (failed : checkAll installed gateway.policy.verifySignatures 0 none sequence.elements =
      .error error) :
    perform (accept installed input) gateway = (.error error, gateway) := by
  rw [accept, perform_bind_of_ok (perform_get gateway), read]
  dsimp only
  rw [pure_bind, perform_bind_of_ok (perform_ofOutcome_of_ok decoded gateway), failed]
  dsimp only
  rw [perform_bind_of_error (perform_throw error gateway)]

/-- The keys are added only when every check has passed, and adding them does not fail. -/
theorem perform_accept_of_checked {expr : SExpr} {sequence : Sequence} {signed : List Nat}
    (read : SExpr.read input = .ok expr)
    (decoded : Sequence.decode (some registry) gateway.ring.lookup expr = .ok sequence)
    (passed : checkAll (some registry) gateway.policy.verifySignatures 0 none sequence.elements =
      .ok signed) :
    ∃ ring, gateway.ring.registerAll (some registry)
        (keptKeys gateway.policy ⟨sequence, signed⟩) = .ok ring ∧
      perform (accept (some registry) input) gateway =
        (.ok ⟨sequence, signed⟩, { gateway with ring }) := by
  rw [accept, perform_bind_of_ok (perform_get gateway), read]
  dsimp only
  rw [pure_bind, perform_bind_of_ok (perform_ofOutcome_of_ok decoded gateway), passed]
  dsimp only
  rw [pure_bind, keptKeys]
  by_cases keeps : gateway.policy.registerSequenceKeys = true
  · obtain ⟨ring, ringWith, added⟩ := exists_perform_registerAll registry sequence.keys gateway
    rw [if_pos keeps, if_pos keeps, perform_bind_of_ok added]
    exact ⟨ring, ringWith, rfl⟩
  · rw [if_neg keeps, if_neg keeps]
    exact ⟨gateway.ring, rfl, rfl⟩

theorem adds_accept (input : Octets) :
    Adds (some registry) gateway (keptKeys gateway.policy)
      (perform (accept (some registry) input) gateway) := by
  cases read : SExpr.read input with
  | error fault =>
    rw [perform_accept_of_unread read]
    exact .failed _
  | ok expr =>
    cases decoded : Sequence.decode (some registry) gateway.ring.lookup expr with
    | error error =>
      rw [perform_accept_of_undecoded read decoded]
      exact .failed _
    | ok sequence =>
      cases checked : checkAll (some registry) gateway.policy.verifySignatures 0 none
          sequence.elements with
      | error error =>
        rw [perform_accept_of_unchecked read decoded checked]
        exact .failed _
      | ok signed =>
        obtain ⟨ring, ringWith, accepted⟩ := perform_accept_of_checked read decoded checked
        rw [accepted]
        exact .added _ ringWith

end Accept

/-! ### Any actions -/

/-- What an action adds is added to what was added before. -/
theorem Adds.exists_registerAll {keys : α → List PublicKey}
    {performed : Except GatewayError α × Gateway}
    (adds : Adds (some registry) gateway keys performed) {before : List PublicKey}
    (h : KeyRing.registerAll (some registry) .empty before = .ok gateway.ring) :
    ∃ keys, KeyRing.registerAll (some registry) .empty keys = .ok performed.2.ring := by
  cases adds with
  | failed error => exact ⟨before, h⟩
  | added value ringWith => exact ⟨before ++ keys value, KeyRing.registerAll_append h ringWith⟩

/-- The ring of a gateway holds keys that were added one after the other. -/
theorem Reachable.exists_registerAll (h : Reachable (some registry) gateway) :
    ∃ keys, KeyRing.registerAll (some registry) .empty keys = .ok gateway.ring := by
  induction h with
  | new made => exact ⟨[], congrArg Except.ok (new_eq_ok made).2.symm⟩
  | register key _ ih =>
    obtain ⟨before, h⟩ := ih
    exact (adds_register key).exists_registerAll h
  | sign key payload _ ih =>
    obtain ⟨before, h⟩ := ih
    exact (adds_sign key payload).exists_registerAll h
  | issue issuer subject tag validity _ ih =>
    obtain ⟨before, h⟩ := ih
    exact (adds_issue issuer subject tag validity).exists_registerAll h
  | accept input _ ih =>
    obtain ⟨before, h⟩ := ih
    exact (adds_accept input).exists_registerAll h

/-- Whatever a gateway went through, an action that fails leaves it as it was, and one that succeeds
adds the given key, the signer, the issuer, or the keys of the accepted sequence if the policy says
so, to the ring.  Adding keys never fails. -/
theorem failures_keep_the_ring_and_successes_add_their_keys {installed : Installed}
    {gateway : Gateway} (reachable : Reachable installed gateway) :
    (∀ key : PublicKey,
      Adds installed gateway (fun _ => [key]) (perform (register installed key) gateway)) ∧
    (∀ (key : PrivateKey) (payload : SExpr),
      Adds installed gateway (fun _ => [key.half]) (perform (sign installed key payload) gateway)) ∧
    (∀ (issuer : PrivateKey) (subject : Subject) (tag : SExpr) (validity : Option Validity),
      Adds installed gateway (fun _ => [issuer.half])
        (perform (issue installed issuer subject tag validity) gateway)) ∧
    (∀ input : Octets,
      Adds installed gateway
        (fun accepted =>
          if gateway.policy.registerSequenceKeys then accepted.sequence.keys else [])
        (perform (accept installed input) gateway)) ∧
    (∀ keys : List PublicKey, ∃ ring, gateway.ring.registerAll installed keys = .ok ring ∧
      perform (registerAll installed keys) gateway = (.ok (), { gateway with ring })) ∧
    ∃ keys, KeyRing.registerAll installed .empty keys = .ok gateway.ring := by
  obtain ⟨registry, rfl⟩ := reachable.exists_registry
  exact ⟨adds_register, adds_sign, adds_issue, adds_accept,
    fun keys => exists_perform_registerAll registry keys gateway, reachable.exists_registerAll⟩

/-- A gateway that has added a key, and then been sent octets that spell nothing. -/
theorem refused_octets_keep_the_ring :
    let key := PublicKey.ofPoint .p256 1 2
    let gateway := (perform (register (some .standard) key) ⟨.standard, .empty⟩).2
    Reachable (some .standard) gateway ∧
      Adds (some .standard) gateway
        (fun accepted : Accepted =>
          if gateway.policy.registerSequenceKeys then accepted.sequence.keys else [])
        (perform (accept (some .standard) [0x29]) gateway) := by
  intro key gateway
  have made : Reachable (some .standard) ⟨.standard, .empty⟩ :=
    .new (show Gateway.new (some .standard) .standard = _ from rfl)
  have reachable : Reachable (some .standard) gateway := .register key made
  exact ⟨reachable,
    (failures_keep_the_ring_and_successes_add_their_keys reachable).2.2.2.1 [0x29]⟩

end SimplePki.Gateway
