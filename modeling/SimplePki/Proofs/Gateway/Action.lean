import SimplePki.Gateway

/-!
# What an action of a gateway yields and leaves behind

Performing an action on a gateway yields a result and the gateway afterwards.  The first step of an
action that fails is the last one that is performed.

## Main definitions

* `Gateway.perform`: the result of an action and the gateway afterwards

## Main results

* `Gateway.perform_bind_of_ok`, `Gateway.perform_bind_of_error`: one action after another
-/

namespace SimplePki.Gateway

variable {α β : Type} {gateway after : Gateway}

/-- The result of an action, and the gateway that it leaves behind. -/
def perform (action : Action α) (gateway : Gateway) : Except GatewayError α × Gateway :=
  (ExceptT.run action).run gateway

theorem perform_pure (value : α) (gateway : Gateway) :
    perform (pure value) gateway = (.ok value, gateway) := rfl

theorem perform_throw (error : GatewayError) (gateway : Gateway) :
    perform (throw error : Action α) gateway = (.error error, gateway) := rfl

theorem perform_get (gateway : Gateway) : perform get gateway = (.ok gateway, gateway) := rfl

theorem perform_set (later gateway : Gateway) : perform (set later) gateway = (.ok ⟨⟩, later) := rfl

theorem perform_bind_of_ok {action : Action α} {value : α}
    (h : perform action gateway = (.ok value, after)) (next : α → Action β) :
    perform (action >>= next) gateway = perform (next value) after := by
  unfold perform at *
  rw [ExceptT.run_bind, StateT.run_bind, h]
  rfl

theorem perform_bind_of_error {action : Action α} {error : GatewayError}
    (h : perform action gateway = (.error error, after)) (next : α → Action β) :
    perform (action >>= next) gateway = (.error error, after) := by
  unfold perform at *
  rw [ExceptT.run_bind, StateT.run_bind, h]
  rfl

theorem perform_ofOutcome_of_ok {outcome : Outcome α} {value : α} (h : outcome = .ok value)
    (gateway : Gateway) : perform (ofOutcome outcome) gateway = (.ok value, gateway) := by
  rw [h]
  exact perform_pure value gateway

theorem perform_ofOutcome_of_error {outcome : Outcome α} {error : Error} (h : outcome = .error error)
    (gateway : Gateway) : perform (ofOutcome outcome) gateway = (.error (.core error), gateway) := by
  rw [h]
  exact perform_throw (.core error) gateway

end SimplePki.Gateway
