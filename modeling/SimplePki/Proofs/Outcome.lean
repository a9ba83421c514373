import SimplePki.Error

/-!
# Steps that may fail

An operation that fails at its first failing step succeeds exactly when every step does.  These are
the lemmas by which a success is taken apart into the successes of its steps.

## Main results

* `bind_eq_ok_iff`: one step after the other
* `map_eq_ok_iff`: a step whose value is rewritten
* `map_inj_iff`: a step whose value is rewritten without loss
* `mapM_map_eq_ok_iff`: steps that undo a function item by item
-/

namespace SimplePki

variable {ε α β γ : Type}

theorem ok_bind (a : α) (f : α → Except ε β) : (Except.ok a >>= f) = f a := rfl

theorem error_bind (e : ε) (f : α → Except ε β) : (Except.error e >>= f) = .error e := rfl

theorem bind_eq_ok_iff {x : Except ε α} {f : α → Except ε β} {b : β} :
    (x >>= f) = .ok b ↔ ∃ a, x = .ok a ∧ f a = .ok b := by
  cases x with
  | ok a =>
    rw [ok_bind]
    constructor
    · intro h
      exact ⟨a, rfl, h⟩
    · rintro ⟨_, same, h⟩
      rw [Except.ok.inj same]
      exact h
  | error e =>
    constructor
    · intro h
      exact nomatch h
    · rintro ⟨_, same, -⟩
      exact nomatch same

theorem map_eq_ok_iff {x : Except ε α} {f : α → β} {b : β} :
    x.map f = .ok b ↔ ∃ a, x = .ok a ∧ f a = b := by
  cases x with
  | ok a =>
    constructor
    · intro h
      exact ⟨a, rfl, Except.ok.inj h⟩
    · rintro ⟨_, same, rfl⟩
      rw [Except.ok.inj same]
      rfl
  | error e =>
    constructor
    · intro h
      exact nomatch h
    · rintro ⟨_, same, -⟩
      exact nomatch same

/-- Rewriting values without loss tells apart whatever was different. -/
theorem map_inj_iff {f : α → β} (inj : Function.Injective f) {x y : Except ε α} :
    x.map f = y.map f ↔ x = y := by
  refine ⟨fun same => ?_, fun same => same ▸ rfl⟩
  cases x with
  | ok a =>
    obtain ⟨b, read, back⟩ := map_eq_ok_iff.mp same.symm
    rw [read, inj back]
  | error e =>
    cases y with
    | ok b => exact nomatch same
    | error d => exact congrArg Except.error (Except.error.inj same)

/-- Steps yield the items that a function was applied to exactly if each of them undoes it. -/
theorem mapM_map_eq_ok_iff {f : α → β} {g : β → Except ε α} {items : List α} :
    (items.map f).mapM g = .ok items ↔ ∀ a ∈ items, g (f a) = .ok a := by
  induction items with
  | nil => exact iff_of_true rfl fun _ mem => absurd mem List.not_mem_nil
  | cons a items ih =>
    rw [List.map_cons, List.mapM_cons, List.forall_mem_cons, ← ih]
    constructor
    · intro h
      obtain ⟨first, undone, h⟩ := bind_eq_ok_iff.mp h
      obtain ⟨others, undoneOthers, made⟩ := bind_eq_ok_iff.mp h
      obtain ⟨rfl, rfl⟩ := List.cons.inj (Except.ok.inj made)
      exact ⟨undone, undoneOthers⟩
    · rintro ⟨undone, undoneOthers⟩
      rw [undone, ok_bind, undoneOthers, ok_bind]
      rfl

end SimplePki
