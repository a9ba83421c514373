import SimplePki.Proofs.Gateway.Relay
import SimplePki.Proofs.KeyRing.Points

/-!
# What was accepted stays accepted

A gateway serves one request after the other, and its ring grows by the keys of those that succeed.
A ring that has grown finds what it found before, as long as no two of its keys share a digest, and
where more keys are found whatever was read is read again, as the same sequence.  Nothing else of
the gateway is asked when a sequence is accepted.  So what was accepted once is accepted after
whatever requests, and a hash that found a key finds it ever after.

Two keys that share a digest would share an entry of the index, and the one that comes later would
take it over.

## Main definitions

* `Gateway.Request`, `Gateway.serve`, `Gateway.serveAll`: what a gateway is asked to do, and what
  comes of it
* `Gateway.Served.Grew`: the ring has grown by the keys that were added, and the policy is the same
* `Gateway.Attained`: the gateways that requests to a new one leave behind

## Main results

* `Gateway.grew_serve`, `Gateway.grew_serveAll`: one request, and any number
* `Gateway.reachable_iff_attained`: the reachable gateways are those that requests lead to
* `Gateway.answer_of_more_found`: what was accepted is accepted where more keys are found
* `Gateway.what_was_accepted_stays_accepted`
-/

namespace SimplePki.Gateway

variable {installed : Installed} {registry : Registry} {gateway : Gateway} {α : Type}

/-! ### Requests -/

/-- Something that a gateway is asked to do. -/
inductive Request where
  | register (key : PublicKey)
  | sign (key : PrivateKey) (payload : SExpr)
  | issue (issuer : PrivateKey) (subject : Subject) (tag : SExpr) (validity : Option Validity)
  | accept (input : Octets)

/-- The keys that were added, and the gateway that is left behind. -/
structure Served where
  added : List PublicKey
  gateway : Gateway

/-- An action that was performed adds the keys that go with its value, and none if it failed. -/
def Served.ofPerformed (keys : α → List PublicKey) (performed : Except GatewayError α × Gateway) :
    Served where
  added :=
    match performed.1 with
    | .ok value => keys value
    | .error _ => []
  gateway := performed.2

/-- A request is served by the action that it asks for. -/
def serve (installed : Installed) (gateway : Gateway) : Request → Served
  | .register key => .ofPerformed (fun _ => [key]) (perform (register installed key) gateway)
  | .sign key payload =>
    .ofPerformed (fun _ => [key.half]) (perform (sign installed key payload) gateway)
  | .issue issuer subject tag validity =>
    .ofPerformed (fun _ => [issuer.half])
      (perform (issue installed issuer subject tag validity) gateway)
  | .accept input =>
    .ofPerformed (keptKeys gateway.policy) (perform (accept installed input) gateway)

/-- A key that is given is added. -/
theorem serve_register (gateway : Gateway) (key : PublicKey) :
    serve (some registry) gateway (.register key) =
      ⟨[key], { gateway with
        ring := gateway.ring.place (key.hashed registry)
          (registry.algorithms.map key.hashUnder) }⟩ := by
  rw [serve, perform_register_of_ok (KeyRing.register_eq registry gateway.ring key)]
  rfl

/-- Octets that spell nothing make no difference. -/
theorem serve_accept_of_unread {input : Octets} {fault : ReadError}
    (read : SExpr.read input = .error fault) (gateway : Gateway) :
    serve installed gateway (.accept input) = ⟨[], gateway⟩ := by
  rw [serve, perform_accept_of_unread read]
  rfl

/-- Requests are served one after the other. -/
def serveAll (installed : Installed) (gateway : Gateway) : List Request → Served
  | [] => ⟨[], gateway⟩
  | request :: rest =>
    let first := serve installed gateway request
    let others := serveAll installed first.gateway rest
    ⟨first.added ++ others.added, others.gateway⟩

/-- Requests that are served in two parts are served as a whole. -/
theorem serveAll_append (installed : Installed) (gateway : Gateway) (requests more : List Request) :
    serveAll installed gateway (requests ++ more) =
      let first := serveAll installed gateway requests
      let others := serveAll installed first.gateway more
      ⟨first.added ++ others.added, others.gateway⟩ := by
  induction requests generalizing gateway with
  | nil => rfl
  | cons request requests ih =>
    rw [List.cons_append, serveAll, ih, serveAll]
    dsimp only
    rw [List.append_assoc]

/-! ### Growing rings -/

/-- The keys that were added are those by which the ring has grown, and nothing else is changed. -/
structure Served.Grew (installed : Installed) (gateway : Gateway) (served : Served) : Prop where
  ring : gateway.ring.registerAll installed served.added = .ok served.gateway.ring
  policy : served.gateway.policy = gateway.policy

/-- The ring grows by the keys of a success, and a failure has none. -/
theorem Adds.grew {keys : α → List PublicKey} {performed : Except GatewayError α × Gateway}
    (adds : Adds installed gateway keys performed) :
    (Served.ofPerformed keys performed).Grew installed gateway := by
  cases adds with
  | failed error => exact ⟨rfl, rfl⟩
  | added value ringWith => exact ⟨ringWith, rfl⟩

theorem grew_serve (gateway : Gateway) (request : Request) :
    (serve (some registry) gateway request).Grew (some registry) gateway := by
  cases request with
  | register key => exact (adds_register key).grew
  | sign key payload => exact (adds_sign key payload).grew
  | issue issuer subject tag validity => exact (adds_issue issuer subject tag validity).grew
  | accept input => exact (adds_accept input).grew

theorem grew_serveAll (gateway : Gateway) (requests : List Request) :
    (serveAll (some registry) gateway requests).Grew (some registry) gateway := by
  induction requests generalizing gateway with
  | nil => exact ⟨rfl, rfl⟩
  | cons request rest ih =>
    have first : (serve (some registry) gateway request).Grew (some registry) gateway :=
      grew_serve gateway request
    have others := ih (serve (some registry) gateway request).gateway
    exact ⟨KeyRing.registerAll_append first.ring others.ring, others.policy.trans first.policy⟩

/-! ### Reachable gateways -/

theorem Reachable.serve (reachable : Reachable installed gateway) (request : Request) :
    Reachable installed (Gateway.serve installed gateway request).gateway := by
  cases request with
  | register key => exact reachable.register key
  | sign key payload => exact reachable.sign key payload
  | issue issuer subject tag validity => exact reachable.issue issuer subject tag validity
  | accept input => exact reachable.accept input

theorem Reachable.serveAll (reachable : Reachable installed gateway) (requests : List Request) :
    Reachable installed (Gateway.serveAll installed gateway requests).gateway := by
  induction requests generalizing gateway with
  | nil => exact reachable
  | cons request rest ih => exact ih (reachable.serve request)

/-- The gateways that requests to a new one leave behind. -/
def Attained (installed : Installed) (gateway : Gateway) : Prop :=
  ∃ before policy start requests, Gateway.new before policy = (.ok start, installed) ∧
    (serveAll installed start requests).gateway = gateway

/-- One more request comes behind those that led to the gateway. -/
theorem Attained.serve (attained : Attained installed gateway) (request : Request) :
    Attained installed (Gateway.serve installed gateway request).gateway := by
  obtain ⟨before, policy, start, requests, made, rfl⟩ := attained
  refine ⟨before, policy, start, requests ++ [request], made, ?_⟩
  rw [serveAll_append]
  rfl

/-- The reachable gateways are those that requests to a new one leave behind. -/
theorem reachable_iff_attained : Reachable installed gateway ↔ Attained installed gateway := by
  constructor
  · intro reachable
    induction reachable with
    | new made => exact ⟨_, _, _, [], made, rfl⟩
    | register key _ ih => exact ih.serve (.register key)
    | sign key payload _ ih => exact ih.serve (.sign key payload)
    | issue issuer subject tag validity _ ih => exact ih.serve (.issue issuer subject tag validity)
    | accept input _ ih => exact ih.serve (.accept input)
  · rintro ⟨before, policy, start, requests, made, rfl⟩
    exact (Reachable.new made).serveAll requests

/-! ### Accepting again -/

/-- What was accepted is accepted where more keys are found. -/
theorem answer_of_more_found {later : Gateway} {input : Octets} {accepted : Accepted}
    (more : ∀ hash key, gateway.ring.get? hash = some key → later.ring.get? hash = some key)
    (policy : later.policy = gateway.policy)
    (answered : answer (some registry) gateway input = .ok accepted) :
    answer (some registry) later input = .ok accepted := by
  obtain ⟨expr, reads, checked⟩ := answer_eq_ok_iff.mp answered
  obtain ⟨items, rfl⟩ := Sequence.exists_items_of_decode reads.2
  -- the check asks for the policy and the elements only
  rw [← policy] at checked
  exact answer_eq_ok_iff.mpr ⟨_, ⟨reads.1, Sequence.decode_of_more_found more reads.2⟩, checked⟩

/-- What was accepted can be written. -/
theorem exists_pack_of_answer {input : Octets} {accepted : Accepted}
    (answered : answer (some registry) gateway input = .ok accepted) :
    ∃ octets, accepted.sequence.pack (some registry) = .ok octets := by
  obtain ⟨expr, reads, -⟩ := answer_eq_ok_iff.mp answered
  obtain ⟨payload, written, -⟩ := reads.exists_payload
  exact ⟨payload.pack, by rw [Sequence.pack, written]; rfl⟩

/-- Whatever a new gateway has served, and whatever it serves afterwards, with success or without:
if no two of the keys that were ever added share a digest under a registered algorithm and differ in
their points, then what it accepted before it accepts afterwards, as the same sequence with the same
places signed and thus with the same octets, and a hash that found a key finds the same one. -/
theorem what_was_accepted_stays_accepted {before : Installed} {policy : Policy} {start : Gateway}
    {registry : Registry} (made : Gateway.new before policy = (.ok start, some registry))
    (earlier later : List Request) :
    let now := serveAll (some registry) start earlier
    let afterwards := serveAll (some registry) now.gateway later
    KeyRing.Apart registry (KeyRing.points (now.added ++ afterwards.added)) →
    (∀ input accepted, answer (some registry) now.gateway input = .ok accepted →
      answer (some registry) afterwards.gateway input = .ok accepted ∧
        ∃ octets, accepted.sequence.pack (some registry) = .ok octets) ∧
    ∀ hash key, now.gateway.ring.get? hash = some key →
      afterwards.gateway.ring.get? hash = some key := by
  intro now afterwards apart
  -- the ring holds the keys that were added before, and has grown by those that were added since
  obtain ⟨ring, -⟩ : now.Grew (some registry) start := grew_serveAll start earlier
  obtain ⟨grown, samePolicy⟩ : afterwards.Grew (some registry) now.gateway :=
    grew_serveAll now.gateway later
  rw [(new_eq_ok made).2] at ring
  have more : ∀ hash key, now.gateway.ring.get? hash = some key →
      afterwards.gateway.ring.get? hash = some key :=
    fun hash key => KeyRing.get?_of_registerAll ring grown apart
  refine ⟨fun input accepted answered => ⟨?_, exists_pack_of_answer answered⟩, more⟩
  exact answer_of_more_found more samePolicy answered

/-- Checks everything, keeps everything, asks for one algorithm. -/
def onePolicy : Policy := ⟨true, true, ["sha256"]⟩

/-- The one algorithm. -/
def oneRegistry : Registry := Registry.empty.insert .sha256

/-- The gateway that has been given the key of the signer. -/
def introduced : Gateway :=
  ⟨onePolicy, KeyRing.empty.place (generatorKey.hashed oneRegistry)
    (oneRegistry.algorithms.map generatorKey.hashUnder)⟩

/-- A key that the holder of the scalar one has signed. -/
def signedKey : PublicKey := .ofPoint .p256 1 2

/-- The key, and a signature of it whose signer is named by a hash. -/
def vouchedKey : SExpr :=
  .list [.text "sequence", signedKey.encode,
    (generatorSignature signedKey.encode).encodeWith (generatorKey.hashUnder .sha256).encode]

/-- The signature as it is read: by the key that the ring has found. -/
def vouchingSignature : Signature :=
  { generatorSignature signedKey.encode with principal := generatorKey.hashed oneRegistry }

/-- The signed key itself, under the hash of the signer. -/
def usurper : PublicKey := signedKey.withHash (generatorKey.hashUnder .sha256)

theorem answer_vouchedKey :
    answer (some oneRegistry) introduced vouchedKey.pack =
      .ok ⟨⟨[.publicKey signedKey, .signature vouchingSignature]⟩, [0]⟩ := by
  have read : SExpr.read vouchedKey.pack = .ok vouchedKey :=
    SExpr.read_pack (by decide +kernel) (by decide +kernel)
  have decoded : Sequence.decode (some oneRegistry) introduced.ring.lookup vouchedKey =
      .ok ⟨[.publicKey signedKey, .signature vouchingSignature]⟩ := by decide +kernel
  have checked : checkAll (some oneRegistry) true 0 none
      [.publicKey signedKey, .signature vouchingSignature] = .ok [0] := by decide +kernel
  exact answer_eq_ok_iff.mpr ⟨vouchedKey, ⟨read, decoded⟩, checked⟩

/-- The signer is known from before.  The signature is accepted still when octets that spell nothing
were sent, and another key was given under the hash of the signer. -/
theorem signature_by_a_known_key_stays_accepted :
    let now := serveAll (some oneRegistry) ⟨onePolicy, .empty⟩ [.register generatorKey]
    let afterwards := serveAll (some oneRegistry) now.gateway [.accept [0x29], .register usurper]
    let accepted : Accepted :=
      ⟨⟨[.publicKey signedKey, .signature vouchingSignature]⟩, [0]⟩
    KeyRing.Apart oneRegistry (KeyRing.points (now.added ++ afterwards.added)) ∧
      answer (some oneRegistry) now.gateway vouchedKey.pack = .ok accepted ∧
      answer (some oneRegistry) afterwards.gateway vouchedKey.pack = .ok accepted := by
  intro now afterwards accepted
  have first : now = ⟨[generatorKey], introduced⟩ := by
    change serveAll (some oneRegistry) ⟨onePolicy, .empty⟩ [.register generatorKey] = _
    rw [serveAll, serve_register]
    rfl
  have noSequence : SExpr.read [0x29] = .error (.unexpectedOctet 0x29 0) := by decide +kernel
  have others : afterwards.added = [usurper] := by
    change (serveAll (some oneRegistry) now.gateway [.accept [0x29], .register usurper]).added = _
    rw [serveAll, serve_accept_of_unread noSequence, serveAll, serve_register]
    rfl
  have apart : KeyRing.Apart oneRegistry (KeyRing.points (now.added ++ afterwards.added)) := by
    rw [others, first]
    decide +kernel
  have answered : answer (some oneRegistry) now.gateway vouchedKey.pack = .ok accepted := by
    rw [first]
    exact answer_vouchedKey
  have made : Gateway.new none onePolicy = (.ok ⟨onePolicy, .empty⟩, some oneRegistry) := rfl
  obtain ⟨again, -⟩ := what_was_accepted_stays_accepted made [.register generatorKey]
    [.accept [0x29], .register usurper] apart
  exact ⟨apart, answered, (again _ _ answered).1⟩

end SimplePki.Gateway
